import Peryx.Core.Json
import Peryx.Storage.Driver

/-!
# The OCI layout of the driver rows (peryx-ecosystem-oci/src/store.rs, store/descriptors.rs)

Manifests are stored once under their digest. The JSON reader is a parameter.
-/

namespace Peryx.Oci
open Storage

def manifestPrefix : Str := str "oci\x00m\x00"
def tagPrefixAll : Str := str "oci\x00t\x00"
def referrerPrefixAll : Str := str "oci\x00r\x00"
def membershipPrefixAll : Str := str "oci\x00mm\x00"
def blobMembershipPrefixAll : Str := str "oci\x00bm\x00"
def tagFreshnessPrefixAll : Str := str "oci\x00tf\x00"

def manifestKey (digest : Str) : Str := manifestPrefix ++ digest

def scopedPrefix (start index repo : Str) : Str := start ++ index ++ [0] ++ repo ++ [0]

def tagPrefix (index repo : Str) : Str := scopedPrefix tagPrefixAll index repo

def tagKey (index repo tag : Str) : Str := tagPrefix index repo ++ tag

def tagFreshnessKey (index repo tag : Str) : Str :=
  scopedPrefix tagFreshnessPrefixAll index repo ++ tag

def membershipPrefix (index repo : Str) : Str := scopedPrefix membershipPrefixAll index repo

def membershipKey (index repo digest : Str) : Str := membershipPrefix index repo ++ digest

def blobMembershipKey (index repo digest : Str) : Str :=
  scopedPrefix blobMembershipPrefixAll index repo ++ digest

def referrerPrefix (index repo subject : Str) : Str :=
  scopedPrefix referrerPrefixAll index repo ++ subject ++ [0]

def rsplitNul (key : Str) : Option (Str × Str) :=
  (Str.splitOnce 0 key.reverse).map fun (after, before) => (before.reverse, after.reverse)

def splitReferrerKey (key : Str) : Option (Str × Str) := do
  let (rest, referrer) ← rsplitNul key
  let (_, subject) ← rsplitNul rest
  return (subject, referrer)

structure Manifest where
  mediaType : Str
  bytes : Bytes
  deriving Repr, DecidableEq

/-- A big-endian `u16` length of the media type, the media type, the body. -/
def Manifest.encode (manifest : Manifest) : Bytes :=
  let length := min manifest.mediaType.length 65535
  UInt8.ofNat (length / 256) :: UInt8.ofNat (length % 256) :: (manifest.mediaType ++ manifest.bytes)

def Manifest.decode : Bytes → Option Manifest
  | high :: low :: rest =>
    let length := high.toNat * 256 + low.toNat
    if rest.length < length then none
    else (Str.fromUtf8 (rest.take length)).map fun mediaType => ⟨mediaType, rest.drop length⟩
  | _ => none

def Manifest.Storable (manifest : Manifest) : Prop :=
  manifest.mediaType.length ≤ 65535 ∧ Str.fromUtf8 manifest.mediaType = some manifest.mediaType

theorem Manifest.decode_encode (manifest : Manifest) (h : manifest.Storable) :
    Manifest.decode manifest.encode = some manifest := by
  obtain ⟨hlength, hutf8⟩ := h
  have hmin : min manifest.mediaType.length 65535 = manifest.mediaType.length := by omega
  have hhigh : (UInt8.ofNat (manifest.mediaType.length / 256)).toNat =
      manifest.mediaType.length / 256 := by
    rw [UInt8.toNat_ofNat']
    omega
  have hlow : (UInt8.ofNat (manifest.mediaType.length % 256)).toNat =
      manifest.mediaType.length % 256 := by
    rw [UInt8.toNat_ofNat']
    omega
  have hsum : manifest.mediaType.length / 256 * 256 + manifest.mediaType.length % 256 =
      manifest.mediaType.length := by omega
  unfold Manifest.encode Manifest.decode
  simp only [hmin, hhigh, hlow, hsum, List.length_append, List.take_left', List.drop_left', hutf8]
  rw [if_neg (by omega)]
  rfl

section Descriptors
variable (parse : Bytes → Option Json)

/-- `manifest_descriptors`: the child manifests of an index, or the blobs of an image.
A layer with `urls` is not stored here. -/
def manifestDescriptors (bytes : Bytes) : List Str × List Str :=
  match parse bytes with
  | none => ([], [])
  | some document =>
    match (document.field (str "manifests")).asArray with
    | some manifests =>
      (manifests.filterMap fun entry => (entry.field (str "digest")).asStr, [])
    | none =>
      let config := ((document.field (str "config")).field (str "digest")).asStr
      let layers := (((document.field (str "layers")).asArray).getD []).filter fun layer =>
        ((layer.field (str "urls")).asArray.getD []).isEmpty
      ([], config.toList ++ layers.filterMap fun layer => (layer.field (str "digest")).asStr)

def linuxAmd64Child (bytes : Bytes) : Option Str := do
  let document ← parse bytes
  let manifests ← (document.field (str "manifests")).asArray
  manifests.findSome? fun entry =>
    let platform := entry.field (str "platform")
    if (platform.field (str "os")).asStr = some (str "linux") ∧
        (platform.field (str "architecture")).asStr = some (str "amd64") then
      (entry.field (str "digest")).asStr
    else none

end Descriptors

def manifestAt (rows : Rows) (digest : Str) : Option Manifest :=
  rows[manifestKey digest]?.bind Manifest.decode

def isManifestMember (rows : Rows) (index repo digest : Str) : Bool :=
  rows[membershipKey index repo digest]?.isSome

def isBlobMember (rows : Rows) (index repo digest : Str) : Bool :=
  rows[blobMembershipKey index repo digest]?.isSome

def tagAt (rows : Rows) (index repo tag : Str) : Option Str :=
  rows[tagKey index repo tag]?.bind Str.fromUtf8

def getManifest (digest : Str) : Prog Stores (Option Manifest) :=
  Prog.read fun stores => manifestAt stores.rows digest

def manifestIsMember (index repo digest : Str) : Prog Stores Bool :=
  Prog.read fun stores => isManifestMember stores.rows index repo digest

def blobIsMember (index repo digest : Str) : Prog Stores Bool :=
  Prog.read fun stores => isBlobMember stores.rows index repo digest

def getTag (index repo tag : Str) : Prog Stores (Option Str) :=
  Prog.read fun stores => tagAt stores.rows index repo tag

def putManifest (digest : Str) (manifest : Manifest) : Prog Stores Unit :=
  putDriverValue (manifestKey digest) manifest.encode

def recordMembership (index repo digest : Str) : Prog Stores Unit :=
  putDriverValue (membershipKey index repo digest) []

def recordBlobMembership (index repo digest : Str) : Prog Stores Unit :=
  putDriverValue (blobMembershipKey index repo digest) []

def putTag (index repo tag digest : Str) : Prog Stores Bool :=
  commitDriverTxn fun txn => txn.upsert (tagKey index repo tag) digest

def putReferrer (index repo subject referrer : Str) (descriptor : Bytes) : Prog Stores Unit :=
  putDriverValue (referrerPrefix index repo subject ++ referrer) descriptor

def deleteTag (index repo tag : Str) : Prog Stores Bool :=
  commitDriverTxn fun txn =>
    let (removed, txn) := txn.remove (tagKey index repo tag)
    (removed, (txn.remove (tagFreshnessKey index repo tag)).2)

def deleteManifest (digest : Str) : Prog Stores Bool := deleteDriverValue (manifestKey digest)

def untag (index repo digest : Str) (state : Nat × DriverTxn) (row : Str × Bytes) : Nat × DriverTxn :=
  match Str.stripPrefix row.1 (tagPrefix index repo) with
  | some tag =>
    if row.2 = digest then
      (state.1 + 1, ((state.2.remove row.1).2.remove (tagFreshnessKey index repo tag)).2)
    else state
  | none => state

def unrefer (digest : Str) (state : Nat × DriverTxn) (key : Str) : Nat × DriverTxn :=
  match splitReferrerKey key with
  | some (subject, referrer) =>
    if subject = digest ∨ referrer = digest then (state.1 + 1, (state.2.remove key).2) else state
  | none => state

def deleteRepoTagsTo (index repo digest : Str) : Prog Stores (Nat × Nat) :=
  commitDriverTxn fun txn =>
    let (removedTags, txn) :=
      (txn.entriesUnder (tagPrefix index repo)).foldl (untag index repo digest) (0, txn)
    let (removedReferrers, txn) :=
      (keysUnder txn.table (scopedPrefix referrerPrefixAll index repo)).foldl (unrefer digest) (0, txn)
    ((removedTags, removedReferrers), txn)

section Json
variable (parse : Bytes → Option Json)

def recordManifest (index repo digest : Str) (manifest : Manifest) : Prog Stores Unit := do
  putManifest digest manifest
  recordMembership index repo digest
  let (children, blobs) := manifestDescriptors parse manifest.bytes
  children.forM fun child => recordMembership index repo child
  blobs.forM fun blob => recordBlobMembership index repo blob

def collectTag (found : List Str) (key : Str) : Prog Stores (List Str) := do
  let raw ← getDriverValue key
  return ((raw.bind Str.fromUtf8).toList ++ found)

def collectChildren (found : List Str) (key : Str) : Prog Stores (List Str) := do
  let raw ← getDriverValue key
  match raw.bind Manifest.decode with
  | some manifest => return ((manifestDescriptors parse manifest.bytes).1 ++ found)
  | none => return found

def collectReferrer (found : List Str) (key : Str) : List Str :=
  match splitReferrerKey key with
  | some (subject, referrer) => subject :: referrer :: found
  | none => found

def referencedManifestDigests : Prog Stores (List Str) := do
  let tags ← driverPrefixKeys tagPrefixAll
  let found ← tags.foldlM collectTag []
  let manifests ← driverPrefixKeys manifestPrefix
  let found ← manifests.foldlM (collectChildren parse) found
  let referrers ← driverPrefixKeys referrerPrefixAll
  return referrers.foldl collectReferrer found

def reachableFrom (digest : Str) (start : Str) : List Str → Prog Stores Bool
  | [] => return false
  | key :: keys => do
    let member := key.drop start.length
    if member = digest then reachableFrom digest start keys
    else match ← getManifest member with
      | some manifest =>
        if digest ∈ (manifestDescriptors parse manifest.bytes).1 then return true
        else reachableFrom digest start keys
      | none => reachableFrom digest start keys

def reachableAsChild (index repo digest : Str) : Prog Stores Bool := do
  let keys ← driverPrefixKeys (membershipPrefix index repo)
  reachableFrom parse digest (membershipPrefix index repo) keys

def pruneManifestMembership (index repo digest : Str) : Prog Stores Unit := do
  if ← reachableAsChild parse index repo digest then return ()
  else
    let _ ← deleteDriverValue (membershipKey index repo digest)
    return ()

end Json

theorem manifestKey_inj (a b : Str) : manifestKey a = manifestKey b ↔ a = b :=
  List.append_right_inj manifestPrefix

theorem membershipKey_inj (index repo a b : Str) :
    membershipKey index repo a = membershipKey index repo b ↔ a = b :=
  List.append_right_inj _

theorem blobMembershipKey_inj (index repo a b : Str) :
    blobMembershipKey index repo a = blobMembershipKey index repo b ↔ a = b :=
  List.append_right_inj _

theorem append_ne_of_prefixes (a b x y : Str) (hab : ¬ a <+: b) (hba : ¬ b <+: a) :
    a ++ x ≠ b ++ y := by
  intro h
  have hx : a <+: a ++ x := ⟨x, rfl⟩
  have hy : b <+: a ++ x := ⟨y, h.symm⟩
  rcases List.prefix_or_prefix_of_prefix hx hy with h | h
  · exact hab h
  · exact hba h

theorem membershipKey_eq (index repo digest : Str) :
    membershipKey index repo digest =
      membershipPrefixAll ++ (index ++ [0] ++ repo ++ [0] ++ digest) := by
  simp only [membershipKey, membershipPrefix, scopedPrefix, List.append_assoc]

theorem blobMembershipKey_eq (index repo digest : Str) :
    blobMembershipKey index repo digest =
      blobMembershipPrefixAll ++ (index ++ [0] ++ repo ++ [0] ++ digest) := by
  simp only [blobMembershipKey, scopedPrefix, List.append_assoc]

theorem tagKey_eq (index repo tag : Str) :
    tagKey index repo tag = tagPrefixAll ++ (index ++ [0] ++ repo ++ [0] ++ tag) := by
  simp only [tagKey, tagPrefix, scopedPrefix, List.append_assoc]

theorem referrerKey_eq (index repo subject referrer : Str) :
    referrerPrefix index repo subject ++ referrer =
      referrerPrefixAll ++ (index ++ [0] ++ repo ++ [0] ++ subject ++ [0] ++ referrer) := by
  simp only [referrerPrefix, scopedPrefix, List.append_assoc]

end Peryx.Oci
