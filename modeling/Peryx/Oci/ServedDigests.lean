import Peryx.Core.Utf8
import Peryx.Oci.TagShadowing
import Peryx.Storage.StoreCalls

/-! # Manifests that were served are stored (registry/manifests/mod.rs:90-132,164-199) -/

namespace Peryx.Oci
open Storage

/-- Tags and their dates name digests that a header can be read back from. -/
def tagLaw (key : Str) (value : Bytes) : Prop :=
  (tagPrefixAll <+: key → headerText value = true) ∧
    (tagFreshnessPrefixAll <+: key → headerText (value.drop 8) = true)

/-- What the other requests do to the rows while no manifest is unlinked: manifests stay,
new ones have a SHA-256 digest, and tags name readable digests. -/
structure Undeleted (before after : Stores) : Prop where
  kept : ∀ digest, (manifestAt before.rows digest).isSome → (manifestAt after.rows digest).isSome
  canonical : ∀ digest, (manifestAt after.rows digest).isSome →
    (manifestAt before.rows digest).isSome ∨ Str.startsWith digest (str "sha256:") = true
  lawful : Obeys tagLaw before.rows → Obeys tagLaw after.rows

theorem undeleted_refl (stores : Stores) : Undeleted stores stores :=
  ⟨fun _ h => h, fun _ h => .inl h, fun h => h⟩

theorem undeleted_trans (first second third : Stores) (h : Undeleted first second)
    (h' : Undeleted second third) : Undeleted first third := by
  refine ⟨fun digest hsome => h'.kept digest (h.kept digest hsome), fun digest hsome => ?_,
    fun hlaw => h'.lawful (h.lawful hlaw)⟩
  rcases h'.canonical digest hsome with hsecond | hsha
  · exact h.canonical digest hsecond
  · exact .inr hsha

theorem undeleted_putRow (stores : Stores) (key : Str) (value : Bytes)
    (hkey : ¬ manifestPrefix <+: key) (hlaw : tagLaw key value) :
    Undeleted stores (stores.putRow key value) := by
  have hsame : ∀ digest, manifestAt (stores.putRow key value).rows digest =
      manifestAt stores.rows digest := by
    intro digest
    unfold manifestAt
    rw [Stores.putRow_getElem?, if_neg]
    intro heq
    exact hkey (heq ▸ List.prefix_append _ _)
  refine ⟨fun digest h => by rw [hsame]; exact h, fun digest h => .inl (by rwa [hsame] at h), ?_⟩
  exact fun hrows => hrows.insert hlaw

theorem undeleted_eraseRow (stores : Stores) (key : Str) (hkey : ¬ manifestPrefix <+: key) :
    Undeleted stores (stores.eraseRow key) := by
  have hsame : ∀ digest, manifestAt (stores.eraseRow key).rows digest =
      manifestAt stores.rows digest := by
    intro digest
    unfold manifestAt
    rw [Stores.eraseRow_getElem?, if_neg]
    intro heq
    exact hkey (heq ▸ List.prefix_append _ _)
  refine ⟨fun digest h => by rw [hsame]; exact h, fun digest h => .inl (by rwa [hsame] at h), ?_⟩
  exact fun hrows => hrows.erase key

theorem headerText_utf8 (text : Str) (h : headerText text = true) : Str.IsUtf8 text := by
  refine Str.isUtf8_ascii text fun byte hbyte => ?_
  have hchecked := List.all_eq_true.mp h byte hbyte
  simp only [Bool.or_eq_true, Bool.and_eq_true, decide_eq_true_eq, beq_iff_eq] at hchecked
  rcases hchecked with hvisible | htab
  · exact UInt8.lt_of_le_of_lt hvisible.2 (by decide)
  · rw [htab]
    decide

theorem headerText_take (text : Str) (n : Nat) (h : headerText text = true) :
    headerText (text.take n) = true :=
  List.all_eq_true.mpr fun byte hbyte => List.all_eq_true.mp h byte (List.mem_of_mem_take hbyte)

theorem decode_encode_isSome (manifest : Manifest) (h : headerText manifest.mediaType = true) :
    (Manifest.decode manifest.encode).isSome := by
  let length := min manifest.mediaType.length 65535
  have hhigh : (UInt8.ofNat (length / 256)).toNat = length / 256 := by
    rw [UInt8.toNat_ofNat']
    omega
  have hlow : (UInt8.ofNat (length % 256)).toNat = length % 256 := by
    rw [UInt8.toNat_ofNat']
    omega
  have hsum : length / 256 * 256 + length % 256 = length := by omega
  have hle : length ≤ manifest.mediaType.length := Nat.min_le_left _ _
  have htake : (manifest.mediaType ++ manifest.bytes).take length = manifest.mediaType.take length :=
    List.take_append_of_le_length hle
  have hutf8 : Str.fromUtf8 (manifest.mediaType.take length) =
      some (manifest.mediaType.take length) :=
    headerText_utf8 _ (headerText_take _ _ h)
  show (Manifest.decode (UInt8.ofNat (length / 256) :: UInt8.ofNat (length % 256) ::
    (manifest.mediaType ++ manifest.bytes))).isSome
  unfold Manifest.decode
  simp only [hhigh, hlow, hsum, htake, hutf8]
  rw [if_neg (by rw [List.length_append]; omega)]
  rfl

theorem manifestAt_putManifest (stores : Stores) (digest other : Str) (manifest : Manifest) :
    manifestAt (stores.putRow (manifestKey digest) manifest.encode).rows other =
      if digest = other then Manifest.decode manifest.encode else manifestAt stores.rows other := by
  unfold manifestAt
  rw [Stores.putRow_getElem?]
  by_cases h : digest = other
  · rw [if_pos h, if_pos (h ▸ rfl)]
    rfl
  · rw [if_neg h, if_neg fun heq => h ((manifestKey_inj digest other).mp heq)]

theorem tagLaw_other (key : Str) (value : Bytes) (start : Str) (hkey : start <+: key)
    (htag : ¬ tagPrefixAll <+: start ∧ ¬ start <+: tagPrefixAll)
    (hfresh : ¬ tagFreshnessPrefixAll <+: start ∧ ¬ start <+: tagFreshnessPrefixAll) :
    tagLaw key value := by
  refine ⟨fun h => ?_, fun h => ?_⟩
  · rcases List.prefix_or_prefix_of_prefix h hkey with h | h
    · exact absurd h htag.1
    · exact absurd h htag.2
  · rcases List.prefix_or_prefix_of_prefix h hkey with h | h
    · exact absurd h hfresh.1
    · exact absurd h hfresh.2

theorem undeleted_putManifest (stores : Stores) (digest : Str) (manifest : Manifest)
    (hdigest : Str.startsWith digest (str "sha256:") = true)
    (htype : headerText manifest.mediaType = true) :
    Undeleted stores (stores.putRow (manifestKey digest) manifest.encode) := by
  refine ⟨fun other h => ?_, fun other h => ?_, fun hrows => ?_⟩
  · rw [manifestAt_putManifest]
    split
    · exact decode_encode_isSome manifest htype
    · exact h
  · rw [manifestAt_putManifest] at h
    split at h
    · rename_i heq
      exact .inr (heq ▸ hdigest)
    · exact .inl h
  · exact hrows.insert (tagLaw_other _ _ manifestPrefix (List.prefix_append _ _)
      ⟨by decide, by decide⟩ ⟨by decide, by decide⟩)

theorem not_manifest (start key : Str) (hkey : start <+: key)
    (h : ¬ manifestPrefix <+: start ∧ ¬ start <+: manifestPrefix) : ¬ manifestPrefix <+: key := by
  intro hmanifest
  rcases List.prefix_or_prefix_of_prefix hmanifest hkey with hstart | hstart
  · exact h.1 hstart
  · exact h.2 hstart

abbrev Undeleting (write : Stores → Stores) : Prop := ∀ stores, Undeleted stores (write stores)

theorem undeleting_id : Undeleting id := undeleted_refl

theorem always_recordMembership (index repo digest : Str) :
    (recordMembership index repo digest).Always Undeleting := by
  have hstart : membershipPrefixAll <+: membershipKey index repo digest := by
    rw [membershipKey_eq]
    exact List.prefix_append _ _
  refine Prog.always_modify _ fun stores => undeleted_putRow stores _ _ ?_ ?_
  · exact not_manifest _ _ hstart ⟨by decide, by decide⟩
  · exact tagLaw_other _ _ _ hstart ⟨by decide, by decide⟩ ⟨by decide, by decide⟩

theorem always_recordBlobMembership (index repo digest : Str) :
    (recordBlobMembership index repo digest).Always Undeleting := by
  have hstart : blobMembershipPrefixAll <+: blobMembershipKey index repo digest := by
    rw [blobMembershipKey_eq]
    exact List.prefix_append _ _
  refine Prog.always_modify _ fun stores => undeleted_putRow stores _ _ ?_ ?_
  · exact not_manifest _ _ hstart ⟨by decide, by decide⟩
  · exact tagLaw_other _ _ _ hstart ⟨by decide, by decide⟩ ⟨by decide, by decide⟩

theorem tagFreshnessKey_eq (index repo tag : Str) :
    tagFreshnessKey index repo tag =
      tagFreshnessPrefixAll ++ (index ++ [0] ++ repo ++ [0] ++ tag) := by
  simp only [tagFreshnessKey, scopedPrefix, List.append_assoc]

theorem i64Bytes_length (n : Int) : (i64Bytes n).length = 8 := by
  unfold i64Bytes
  rw [List.length_map, List.length_range]

theorem always_setTagFreshness (index repo tag digest : Str) (seconds : Int)
    (h : headerText digest = true) :
    (setTagFreshness index repo tag digest seconds).Always Undeleting := by
  have hstart : tagFreshnessPrefixAll <+: tagFreshnessKey index repo tag := by
    rw [tagFreshnessKey_eq]
    exact List.prefix_append _ _
  refine Prog.always_modify _ fun stores => undeleted_putRow stores _ _ ?_ ⟨fun htag => ?_, fun _ => ?_⟩
  · exact not_manifest _ _ hstart ⟨by decide, by decide⟩
  · rcases List.prefix_or_prefix_of_prefix htag hstart with htag | htag
    · exact absurd htag (by decide)
    · exact absurd htag (by decide)
  · rw [List.drop_left' (i64Bytes_length seconds)]
    exact h

theorem always_putTag (index repo tag digest : Str) (h : headerText digest = true) :
    (putTag index repo tag digest).Always Undeleting := by
  have hstart : tagPrefixAll <+: tagKey index repo tag := by
    rw [tagKey_eq]
    exact List.prefix_append _ _
  refine Prog.always_transact _ fun stores => undeleted_putRow stores _ _ ?_ ⟨fun _ => h, fun hfresh => ?_⟩
  · exact not_manifest _ _ hstart ⟨by decide, by decide⟩
  · rcases List.prefix_or_prefix_of_prefix hfresh hstart with hfresh | hfresh
    · exact absurd hfresh (by decide)
    · exact absurd hfresh (by decide)

theorem always_deleteTag (index repo tag : Str) :
    (deleteTag index repo tag).Always Undeleting := by
  refine Prog.always_transact _ fun stores => ?_
  have hrows : stores.setRows ((({ table := stores.rows } : DriverTxn).remove
      (tagKey index repo tag)).2.remove (tagFreshnessKey index repo tag)).2.table =
      (stores.eraseRow (tagKey index repo tag)).eraseRow (tagFreshnessKey index repo tag) := by
    rw [remove_table, remove_table]
    rfl
  have htag : ¬ manifestPrefix <+: tagKey index repo tag := by
    rw [tagKey_eq]
    exact not_manifest _ _ (List.prefix_append _ _) ⟨by decide, by decide⟩
  have hfresh : ¬ manifestPrefix <+: tagFreshnessKey index repo tag := by
    rw [tagFreshnessKey_eq]
    exact not_manifest _ _ (List.prefix_append _ _) ⟨by decide, by decide⟩
  show Undeleted stores (stores.setRows ((({ table := stores.rows } : DriverTxn).remove
      (tagKey index repo tag)).2.remove (tagFreshnessKey index repo tag)).2.table)
  rw [hrows]
  exact undeleted_trans _ _ _ (undeleted_eraseRow stores _ htag) (undeleted_eraseRow _ _ hfresh)

section Serving
variable (sha256 : Bytes → Str) (parse : Bytes → Option Json)
  (upstream : Index → UpstreamClient → Str → Str → Except UpstreamError UpstreamManifest)

def acceptedManifest (response : UpstreamManifest) : Option Manifest :=
  match boundedBody maxManifestBytes [] response.chunks with
  | .error _ => none
  | .ok bytes =>
    if (response.contentDigest.filter fun advertised =>
        Str.startsWith advertised (str "sha256:") &&
          advertised != canonicalDigest sha256 bytes).isSome then none
    else some ⟨response.contentType.getD defaultManifestType, bytes⟩

def firstAnswer (repo digest : Str) : List Index → Option (Except UpstreamError UpstreamManifest)
  | [] => none
  | member :: members =>
    match member.proxyClient with
    | none => firstAnswer repo digest members
    | some client =>
      match upstream member client repo digest with
      | .error (.status code text) =>
        if absentUpstream code then firstAnswer repo digest members
        else some (.error (.status code text))
      | answer => some answer

def sentManifest (repo digest : Str) (members : List Index) : Option Manifest :=
  (firstAnswer upstream repo digest members).bind fun answer =>
    match answer with
    | .ok response => acceptedManifest sha256 response
    | .error _ => none

theorem boundedBody_error (max : Nat) (chunks : List (Except Str Bytes)) (body : Bytes)
    (fault : Fault) (h : boundedBody max body chunks = .error fault) : fault ≠ .panicked := by
  induction chunks generalizing body with
  | nil => cases h
  | cons chunk chunks ih =>
    cases chunk with
    | error message =>
      cases h
      exact nofun
    | ok chunk =>
      rw [boundedBody] at h
      split at h
      · cases h
        exact nofun
      · exact ih _ h

theorem storeManifest_eq (index repo : Str) (response : UpstreamManifest) :
    (acceptedManifest sha256 response = none ∧ ∃ fault, fault ≠ .panicked ∧
      storeManifest sha256 parse index repo response = pure (.error fault)) ∨
    ∃ manifest, acceptedManifest sha256 response = some manifest ∧
      manifest.mediaType = response.contentType.getD defaultManifestType ∧
      storeManifest sha256 parse index repo response =
        recordManifest parse index repo (canonicalDigest sha256 manifest.bytes) manifest >>=
          fun _ => pure (.ok (manifest, canonicalDigest sha256 manifest.bytes)) := by
  unfold acceptedManifest storeManifest
  cases hbody : boundedBody maxManifestBytes [] response.chunks with
  | error fault => exact .inl ⟨rfl, fault, boundedBody_error _ _ _ _ hbody, rfl⟩
  | ok bytes =>
    dsimp only
    cases hadvertised : response.contentDigest.filter fun advertised =>
        Str.startsWith advertised (str "sha256:") && advertised != canonicalDigest sha256 bytes with
    | some advertised => exact .inl ⟨rfl, .transport _, nofun, rfl⟩
    | none => exact .inr ⟨_, rfl, rfl, rfl⟩

variable (hsha : ∀ bytes, digestFromHex (sha256 bytes) = some (sha256 bytes))

theorem canonicalDigest_sha (bytes : Bytes) :
    Str.startsWith (canonicalDigest sha256 bytes) (str "sha256:") = true :=
  (Str.startsWith_iff _ _).mpr (List.prefix_append _ _)

include hsha in
theorem canonicalDigest_text (bytes : Bytes) :
    headerText (canonicalDigest sha256 bytes) = true := by
  have hleading : headerText (str "sha256:") = true := by decide
  have hhex : headerText (sha256 bytes) = true := by
    have hdigits := hsha bytes
    unfold digestFromHex at hdigits
    split at hdigits
    · rename_i hhex
      refine List.all_eq_true.mpr fun byte hbyte => ?_
      have hdigit := List.all_eq_true.mp hhex.2 byte hbyte
      simp only [Bool.or_eq_true, Bool.and_eq_true, decide_eq_true_eq, beq_iff_eq] at hdigit ⊢
      rcases hdigit with hdigit | hdigit
      · exact .inl ⟨UInt8.le_trans (by decide) hdigit.1, UInt8.le_trans hdigit.2 (by decide)⟩
      · exact .inl ⟨UInt8.le_trans (by decide) hdigit.1, UInt8.le_trans hdigit.2 (by decide)⟩
    · cases hdigits
  unfold canonicalDigest headerText
  rw [List.all_append]
  exact Bool.and_eq_true_iff.mpr ⟨hleading, hhex⟩

theorem always_recordManifest (index repo digest : Str) (manifest : Manifest)
    (hdigest : Str.startsWith digest (str "sha256:") = true)
    (htype : headerText manifest.mediaType = true) :
    (recordManifest parse index repo digest manifest).Always Undeleting := by
  have hput : (putManifest digest manifest).Always Undeleting :=
    Prog.always_modify _ fun stores => undeleted_putManifest stores digest manifest hdigest htype
  refine hput.bind fun _ => (always_recordMembership index repo digest).bind fun _ => ?_
  refine Prog.Always.bind (Prog.always_forM _ _ fun child _ => ?_) fun _ =>
    Prog.always_forM _ _ fun blob _ => ?_
  · exact always_recordMembership index repo child
  · exact always_recordBlobMembership index repo blob

theorem recordManifest_among (index repo digest : Str) (manifest : Manifest)
    (hdigest : Str.startsWith digest (str "sha256:") = true)
    (htype : headerText manifest.mediaType = true) {s t : Stores} {u : Unit}
    (h : Prog.Among Undeleted (recordManifest parse index repo digest manifest) s u t) :
    Undeleted s t ∧ (manifestAt t.rows digest).isSome := by
  have hall := always_recordManifest parse index repo digest manifest hdigest htype
  refine ⟨hall.among undeleted_refl undeleted_trans h, ?_⟩
  cases h with
  | step write next s s' t u hothers hrest =>
    have hput : (manifestAt (s.putRow (manifestKey digest) manifest.encode).rows digest).isSome := by
      rw [manifestAt_putManifest, if_pos rfl]
      exact decode_encode_isSome manifest htype
    have hafter := (hall.2 s).among undeleted_refl undeleted_trans hrest
    exact hafter.kept digest (hothers.kept digest hput)

include hsha in
theorem storeManifest_among (index repo : Str) (response : UpstreamManifest)
    (htype : headerText (response.contentType.getD defaultManifestType) = true) {s t : Stores}
    {answer : Except Fault (Manifest × Str)}
    (h : Prog.Among Undeleted (storeManifest sha256 parse index repo response) s answer t) :
    Undeleted s t ∧ answer ≠ .error .panicked ∧
      (∀ manifest, acceptedManifest sha256 response = some manifest →
        answer = .ok (manifest, canonicalDigest sha256 manifest.bytes)) ∧
      ∀ manifest canonical, answer = .ok (manifest, canonical) →
        acceptedManifest sha256 response = some manifest ∧ headerText canonical = true ∧
          (manifestAt t.rows canonical).isSome := by
  rcases storeManifest_eq sha256 parse index repo response with
    ⟨hnone, fault, hfault, hstore⟩ | ⟨manifest, hsome, hmedia, hstore⟩
  · rw [hstore] at h
    obtain ⟨rfl, rfl⟩ := Prog.among_done h
    refine ⟨undeleted_refl s, fun heq => hfault (Except.error.inj heq), ?_, nofun⟩
    intro manifest hmanifest
    exact absurd (hnone.symm.trans hmanifest) nofun
  · rw [hstore] at h
    obtain ⟨_, m, hrecord, hdone⟩ := Prog.among_bind h
    obtain ⟨rfl, rfl⟩ := Prog.among_done hdone
    obtain ⟨hrelated, hstored⟩ := recordManifest_among parse index repo _ manifest
      (canonicalDigest_sha sha256 manifest.bytes) (hmedia ▸ htype) hrecord
    refine ⟨hrelated, nofun, fun other hother => ?_, fun other canonical heq => ?_⟩
    · cases hsome.symm.trans hother
      rfl
    · cases heq
      exact ⟨hsome, canonicalDigest_text sha256 hsha _, hstored⟩

/-- The answer to a pull of a digest: its manifest is stored under the digest, or the
digest is of another algorithm and the manifest is what the upstream sent. -/
structure PullOutcome (members : List Index) (repo digest : Str) (s t : Stores)
    (answer : Except Fault (Option Reply)) : Prop where
  related : Undeleted s t
  noPanic : answer ≠ .error .panicked
  reply : ∀ reply, answer = .ok (some (.manifest reply)) → reply.digest = digest ∧
    ((manifestAt t.rows digest).isSome ∨
      Str.startsWith digest (str "sha256:") = false ∧ ∃ manifest,
        sentManifest sha256 upstream repo digest members = some manifest ∧
          reply.mediaType = manifest.mediaType)
  sent : Str.startsWith digest (str "sha256:") = false → manifestAt s.rows digest = none →
    ∀ manifest, sentManifest sha256 upstream repo digest members = some manifest →
      ∃ reply, answer = .ok (some (.manifest reply)) ∧ reply.digest = digest ∧
        reply.mediaType = manifest.mediaType

theorem Undeleted.absent {s t : Stores} (h : Undeleted s t) (digest : Str)
    (hsha : Str.startsWith digest (str "sha256:") = false) (hs : manifestAt s.rows digest = none) :
    manifestAt t.rows digest = none := by
  cases ht : manifestAt t.rows digest with
  | none => rfl
  | some manifest =>
    rcases h.canonical digest (by rw [ht]; rfl) with hsome | hleading
    · rw [hs] at hsome
      cases hsome
    · rw [hsha] at hleading
      cases hleading

theorem upstreamErrorResponse_error (error : UpstreamError) (what : Str) :
    ∃ reply, upstreamErrorResponse error what = .error reply := by
  unfold upstreamErrorResponse
  split
  · exact ⟨_, rfl⟩
  · exact ⟨_, rfl⟩
  · exact ⟨_, rfl⟩

structure FetchOutcome (member : Index) (client : UpstreamClient) (repo digest : Str)
    (r m : Stores) (pulled : Except Fault (Option Reply)) : Prop where
  found : pulled ≠ .ok none
  noPanic : pulled ≠ .error .panicked
  related : Undeleted r m
  present : ∀ code text, upstream member client repo digest = .error (.status code text) →
    absentUpstream code = false
  reply : ∀ reply, pulled = .ok (some (.manifest reply)) → reply.digest = digest ∧
    ((manifestAt m.rows digest).isSome ∨
      Str.startsWith digest (str "sha256:") = false ∧ ∃ response manifest,
        upstream member client repo digest = .ok response ∧
          acceptedManifest sha256 response = some manifest ∧
          reply.mediaType = manifest.mediaType)
  sent : Str.startsWith digest (str "sha256:") = false → ∀ response manifest,
    upstream member client repo digest = .ok response →
      acceptedManifest sha256 response = some manifest →
      ∃ reply, pulled = .ok (some (.manifest reply)) ∧ reply.digest = digest ∧
        reply.mediaType = manifest.mediaType

variable (htype : ∀ member client repo reference response,
  upstream member client repo reference = .ok response →
    headerText (response.contentType.getD defaultManifestType) = true)

include hsha htype in
theorem fetchManifestByDigest_among (member : Index) (client : UpstreamClient) (repo digest : Str)
    (head : Bool) {r m : Stores} {pulled : Except Fault (Option Reply)}
    (h : Prog.Among Undeleted
      (fetchManifestByDigest sha256 parse upstream member client repo digest head) r pulled m) :
    (∃ code text, upstream member client repo digest = .error (.status code text) ∧
      absentUpstream code = true ∧ pulled = .ok none ∧ m = r) ∨
    FetchOutcome sha256 upstream member client repo digest r m pulled := by
  unfold fetchManifestByDigest at h
  cases hanswer : upstream member client repo digest with
  | error error =>
    rw [hanswer] at h
    have hfailed : ∀ error, upstream member client repo digest = .error error →
        (∀ code text, error = .status code text → absentUpstream code = false) →
        Prog.Among Undeleted (pure (.ok (some (upstreamErrorResponse error (str "manifest")))))
          r pulled m → FetchOutcome sha256 upstream member client repo digest r m pulled := by
      intro error herror hpresent h
      obtain ⟨rfl, rfl⟩ := Prog.among_done h
      obtain ⟨reply, hreply⟩ := upstreamErrorResponse_error error (str "manifest")
      refine ⟨(fun heq => by cases heq), (fun heq => by cases heq), undeleted_refl r, ?_, ?_, ?_⟩
      · intro code text hstatus
        exact hpresent code text (Except.error.inj (herror.symm.trans hstatus))
      · intro other hother
        rw [hreply] at hother
        cases hother
      · intro _ response manifest hok
        cases herror.symm.trans hok
    cases error with
    | status code text =>
      dsimp only at h
      split at h
      · rename_i habsent
        obtain ⟨rfl, rfl⟩ := Prog.among_done h
        exact .inl ⟨code, text, rfl, habsent, rfl, rfl⟩
      · rename_i hpresent
        refine .inr (hfailed _ hanswer (fun code' text' heq => ?_) h)
        cases heq
        exact Bool.eq_false_of_not_eq_true hpresent
    | rateLimited retryAfter => exact .inr (hfailed _ hanswer (fun _ _ heq => by cases heq) h)
    | transport message => exact .inr (hfailed _ hanswer (fun _ _ heq => by cases heq) h)
  | ok response =>
    rw [hanswer] at h
    obtain ⟨stored, n, hstore, hrest⟩ := Prog.among_bind h
    obtain ⟨hrelated, hnoPanic, haccepted, hstored⟩ := storeManifest_among sha256 parse hsha member.name
      repo response (htype member client repo digest response hanswer) hstore
    have hpresent : ∀ code text, Except.ok response =
        (.error (.status code text) : Except UpstreamError UpstreamManifest) →
        absentUpstream code = false := by
      intro code text heq
      cases heq
    refine .inr ?_
    cases stored with
    | error fault =>
      obtain ⟨rfl, rfl⟩ := Prog.among_done hrest
      refine ⟨(fun heq => by cases heq), fun heq => ?_, hrelated, by rw [hanswer]; exact hpresent,
        (fun _ heq => by cases heq), ?_⟩
      · cases heq
        exact hnoPanic rfl
      · intro _ other manifest hother hmanifest
        cases hanswer.symm.trans hother
        cases haccepted manifest hmanifest
    | ok pair =>
      obtain ⟨manifest, canonical⟩ := pair
      obtain ⟨hmanifest, htext, hsome⟩ := hstored manifest canonical rfl
      have hcanonical : canonical = canonicalDigest sha256 manifest.bytes := by
        have heq := haccepted manifest hmanifest
        simp only [Except.ok.injEq, Prod.mk.injEq, true_and] at heq
        exact heq
      dsimp only at hrest
      split at hrest
      · rename_i hmismatch
        obtain ⟨rfl, rfl⟩ := Prog.among_done hrest
        refine ⟨(fun heq => by cases heq), (fun heq => by cases heq), hrelated,
          by rw [hanswer]; exact hpresent, (fun _ heq => by cases heq), fun hother => ?_⟩
        rw [hother] at hmismatch
        exact absurd hmismatch.1 Bool.false_ne_true
      · rename_i hmatch
        obtain ⟨rfl, rfl⟩ := Prog.among_done hrest
        refine ⟨(fun heq => by cases heq), (fun heq => by cases heq), hrelated,
          by rw [hanswer]; exact hpresent, ?_, ?_⟩
        · intro reply heq
          cases heq
          refine ⟨rfl, ?_⟩
          cases hleading : Str.startsWith digest (str "sha256:") with
          | true =>
            refine .inl ?_
            have hsame : canonical = digest := by
              by_contra hne
              exact hmatch ⟨hleading, hne⟩
            rw [← hsame]
            exact hsome
          | false => exact .inr ⟨rfl, response, manifest, hanswer, hmanifest, rfl⟩
        · intro _ other otherManifest hother hotherManifest
          cases hanswer.symm.trans hother
          cases hmanifest.symm.trans hotherManifest
          exact ⟨_, rfl, rfl, rfl⟩

include hsha htype in
theorem pullFromMembers_among (members : List Index) (repo digest : Str) (head : Bool)
    {s t : Stores} {answer : Except Fault (Option Reply)}
    (h : Prog.Among Undeleted (pullFromMembers sha256 parse upstream repo digest head members) s
      answer t) : PullOutcome sha256 upstream members repo digest s t answer := by
  induction members generalizing s with
  | nil =>
    obtain ⟨rfl, rfl⟩ := Prog.among_done h
    refine ⟨undeleted_refl s, ?_, ?_, ?_⟩
    · intro hpanic
      cases hpanic
    · intro _ hreply
      cases hreply
    · intro _ _ _ hsent
      cases hsent
  | cons member members ih =>
    unfold pullFromMembers at h
    cases hclient : member.proxyClient with
    | none =>
      rw [hclient] at h
      have hfirst : sentManifest sha256 upstream repo digest (member :: members) =
          sentManifest sha256 upstream repo digest members := by
        simp only [sentManifest, firstAnswer, hclient]
      obtain ⟨hrelated, hnoPanic, hreply, hsent⟩ := ih h
      exact ⟨hrelated, hnoPanic, by rw [hfirst]; exact hreply, by rw [hfirst]; exact hsent⟩
    | some client =>
      rw [hclient] at h
      obtain ⟨pulled, m, hpull, hrest⟩ := Prog.among_bind h
      obtain ⟨found, r, hread, hfetch⟩ := Prog.among_bind hpull
      obtain ⟨hfound, hsr⟩ := Prog.among_read hread
      cases found with
      | some manifest =>
        -- the read under the gate finds it
        obtain ⟨rfl, rfl⟩ := Prog.among_done hfetch
        obtain ⟨rfl, rfl⟩ := Prog.among_done hrest
        have hstored : (manifestAt s.rows digest).isSome := by rw [← hfound]; rfl
        refine ⟨hsr, ?_, ?_, ?_⟩
        · intro hpanic
          cases hpanic
        · intro reply heq
          cases heq
          exact ⟨rfl, .inl (hsr.kept digest hstored)⟩
        · intro _ hnone
          rw [hnone] at hstored
          cases hstored
      | none =>
        rcases fetchManifestByDigest_among sha256 parse upstream hsha htype member client repo digest
          head hfetch with ⟨code, text, hstatus, habsent, rfl, rfl⟩ | hfetched
        · have hfirst : sentManifest sha256 upstream repo digest (member :: members) =
              sentManifest sha256 upstream repo digest members := by
            simp only [sentManifest, firstAnswer, hclient, hstatus, habsent, if_true]
          obtain ⟨hrelated, hnoPanic, hreply, hsent⟩ := ih hrest
          refine ⟨undeleted_trans _ _ _ hsr hrelated, hnoPanic, by rw [hfirst]; exact hreply, ?_⟩
          rw [hfirst]
          exact fun hother hnone => hsent hother (hsr.absent digest hother hnone)
        · have hsame : answer = pulled ∧ m = t := by
            cases pulled with
            | error fault =>
              obtain ⟨rfl, rfl⟩ := Prog.among_done hrest
              exact ⟨rfl, rfl⟩
            | ok reply =>
              cases reply with
              | none => exact absurd rfl hfetched.found
              | some reply =>
                obtain ⟨rfl, rfl⟩ := Prog.among_done hrest
                exact ⟨rfl, rfl⟩
          obtain ⟨rfl, rfl⟩ := hsame
          have hfirst : firstAnswer upstream repo digest (member :: members) =
              some (upstream member client repo digest) := by
            cases hanswer : upstream member client repo digest with
            | ok response => simp only [firstAnswer, hclient, hanswer]
            | error error =>
              cases error with
              | status code text =>
                simp only [firstAnswer, hclient, hanswer, hfetched.present code text hanswer,
                  Bool.false_eq_true, if_false]
              | rateLimited retryAfter => simp only [firstAnswer, hclient, hanswer]
              | transport message => simp only [firstAnswer, hclient, hanswer]
          refine ⟨undeleted_trans _ _ _ hsr hfetched.related, hfetched.noPanic, ?_, ?_⟩
          · intro reply heq
            obtain ⟨hdigest, hstored⟩ := hfetched.reply reply heq
            refine ⟨hdigest, hstored.imp_right ?_⟩
            intro hother
            obtain ⟨hleading, response, manifest, hok, haccepted, hmedia⟩ := hother
            refine ⟨hleading, manifest, ?_, hmedia⟩
            rw [sentManifest, hfirst, hok]
            exact haccepted
          · intro hleading _ manifest hmanifest
            rw [sentManifest, hfirst, Option.bind_some] at hmanifest
            cases hanswer : upstream member client repo digest with
            | error error =>
              rw [hanswer] at hmanifest
              cases hmanifest
            | ok response =>
              rw [hanswer] at hmanifest
              exact hfetched.sent hleading response manifest hanswer hmanifest

theorem always_manifestAuthorized (repo digest : Str) (members : List Index) :
    (manifestAuthorized repo digest members).Always Undeleting := by
  induction members with
  | nil => trivial
  | cons member members ih =>
    refine Prog.Always.bind (Prog.always_read _ undeleting_id) fun recorded => ?_
    cases recorded with
    | true => trivial
    | false => exact ih

theorem readAuthorized_among (members : List Index) (repo digest : Str) (head : Bool)
    {s t : Stores} {found : Option Reply}
    (h : Prog.Among Undeleted (readAuthorized members repo digest head) s found t) :
    Undeleted s t ∧ ∀ reply, found = some reply → (manifestAt t.rows digest).isSome ∧
      ∃ manifest, reply = .manifest (manifestResponse manifest digest head .stored) := by
  obtain ⟨recorded, m, hasked, hrest⟩ := Prog.among_bind h
  have hsm := (always_manifestAuthorized repo digest members).among undeleted_refl undeleted_trans
    hasked
  cases recorded with
  | false =>
    obtain ⟨rfl, rfl⟩ := Prog.among_done hrest
    exact ⟨hsm, nofun⟩
  | true =>
    obtain ⟨manifest, n, hread, hdone⟩ := Prog.among_bind hrest
    obtain ⟨hmanifest, hmn⟩ := Prog.among_read hread
    obtain ⟨rfl, rfl⟩ := Prog.among_done hdone
    refine ⟨undeleted_trans _ _ _ hsm hmn, fun reply hreply => ?_⟩
    obtain ⟨kept, hkept, rfl⟩ := Option.map_eq_some_iff.mp hreply
    refine ⟨hmn.kept digest ?_, kept, rfl⟩
    rw [← hmanifest, hkept]
    rfl

include hsha htype in
theorem serveDigest_among (members : List Index) (repo digest : Str) (head : Bool)
    {s t : Stores} {answer : Except Fault (Option Reply)}
    (h : Prog.Among Undeleted (serveDigest sha256 parse upstream members repo digest head) s
      answer t) : PullOutcome sha256 upstream members repo digest s t answer := by
  obtain ⟨found, m, hread, hrest⟩ := Prog.among_bind h
  obtain ⟨hsm, hfound⟩ := readAuthorized_among members repo digest head hread
  cases found with
  | some reply =>
    obtain ⟨rfl, rfl⟩ := Prog.among_done hrest
    obtain ⟨hstored, manifest, rfl⟩ := hfound reply rfl
    refine ⟨hsm, nofun, fun reply heq => ?_, fun hleading hnone => ?_⟩
    · cases heq
      exact ⟨rfl, .inl hstored⟩
    · rw [hsm.absent digest hleading hnone] at hstored
      cases hstored
  | none =>
    obtain ⟨hrelated, hnoPanic, hreply, hsent⟩ :=
      pullFromMembers_among sha256 parse upstream hsha htype members repo digest head hrest
    exact ⟨undeleted_trans _ _ _ hsm hrelated, hnoPanic, hreply,
      fun hleading hnone => hsent hleading (hsm.absent digest hleading hnone)⟩

end Serving
end Peryx.Oci
