import Mathlib.Data.Nat.Digits.Lemmas
import Peryx.Storage.DriverTxn

/-!
# The replica (peryx-replication/src/replica.rs)

`sync_once` reads the durable cursor, validates one page, brings in the blobs it names and
commits rows, journal and cursor in one transaction that compares the serial again. SHA-256
and the encoding of the state row are parameters.
-/

/-!
## Replication pages (peryx-replication/src/protocol.rs, http.rs)

A page carries consecutive journal changes with the rows and blobs they committed.
The primary cuts it from one snapshot of its journal. JSON and base64 carry a page
unchanged and are not part of the model.
-/

namespace Peryx.Replication
open Storage

def protocolVersion : Nat := 1

def maxChangePageSize : Nat := 1000

abbrev MetadataMutation := DriverMutation

abbrev BlobReference := DriverBlobReference

structure Change where
  serial : Nat
  event : Bytes
  metadata : List MetadataMutation
  blobs : List BlobReference
  deriving Repr, DecidableEq

structure ChangePage where
  version : Nat
  source : Str
  after : Nat
  currentSerial : Nat
  changes : List Change
  deriving Repr, DecidableEq

def serveChanges (source : Str) (store : MetaStore) (after limit : Nat) : Option ChangePage :=
  if limit = 0 ∨ maxChangePageSize < limit then none
  else
    let (currentSerial, records) := journalPageAfter store after limit
    some {
      version := protocolVersion
      source := source
      after := after
      currentSerial := currentSerial
      changes := records.map fun record =>
        ⟨record.serial, record.payload, record.mutations, record.blobs⟩ }

end Peryx.Replication

namespace Peryx.Replication
open Storage

def replicaStateKey : Str := str "replication\x00state"

def replicaKeyPrefix : Str := str "replication\x00"

def reserved (key : Str) : Bool := Str.startsWith key replicaKeyPrefix

structure ReplicaState where
  source : Str
  serial : Nat
  deriving Repr, DecidableEq

inductive SyncError where
  | stateDecode
  | localSerialMismatch (cursor journal : Nat)
  | primary
  | unsupportedVersion (actual expected : Nat)
  | emptySource
  | wrongPageStart (expected actual : Nat)
  | pageTooLarge (limit actual : Nat)
  | sourceChanged (expected actual : Str)
  | serialGap (after actual : Nat)
  | reservedMetadataKey (key : Str)
  | invalidDigest (sha256 : Str)
  | conflictingBlobSize (digest : Str) (first second : Nat)
  | primaryBehind (current page : Nat)
  | missingChanges (after current : Nat)
  | blobSizeMismatch (digest : Str) (expected actual : Nat)
  | corruptBlob (digest : Str)
  | digestMismatch (expected actual : Str)
  | serialConflict (expected actual : Nat)
  deriving Repr, DecidableEq

/-- What the change loop of `ValidatedPage::new` accumulates. The digest of a blob is
its hexadecimal text again, so the size is all there is to keep per key. -/
structure Gathered where
  through : Nat
  journal : List Bytes := []
  metadata : Table Str (Option Bytes) := ∅
  blobs : Table Str Nat := ∅

def gatherMutation (metadata : Table Str (Option Bytes)) (mutation : MetadataMutation) :
    Except SyncError (Table Str (Option Bytes)) :=
  if reserved mutation.key then .error (.reservedMetadataKey mutation.key)
  else .ok (metadata.insert mutation.key mutation.value)

def gatherBlob (blobs : Table Str Nat) (blob : BlobReference) : Except SyncError (Table Str Nat) :=
  match digestFromHex blob.sha256 with
  | none => .error (.invalidDigest blob.sha256)
  | some _ =>
    match blobs[blob.sha256]? with
    | some first =>
      if first ≠ blob.size then .error (.conflictingBlobSize blob.sha256 first blob.size)
      else .ok (blobs.insert blob.sha256 blob.size)
    | none => .ok (blobs.insert blob.sha256 blob.size)

def gatherChange (gathered : Gathered) (change : Change) : Except SyncError Gathered :=
  if change.serial ≠ gathered.through + 1 then
    .error (.serialGap gathered.through change.serial)
  else do
    let metadata ← change.metadata.foldlM gatherMutation gathered.metadata
    let blobs ← change.blobs.foldlM gatherBlob gathered.blobs
    return ⟨change.serial, gathered.journal ++ [change.event], metadata, blobs⟩

structure ValidatedPage where
  source : Str
  through : Nat
  primarySerial : Nat
  journal : List Bytes
  metadata : Table Str (Option Bytes)
  blobs : Table Str Nat

/-- `ValidatedPage::new` (`replica.rs:193-283`). -/
def ValidatedPage.new (page : ChangePage) (after limit : Nat) (state : Option ReplicaState) :
    Except SyncError ValidatedPage :=
  if page.version ≠ protocolVersion then .error (.unsupportedVersion page.version protocolVersion)
  else if page.source = [] then .error .emptySource
  else if page.after ≠ after then .error (.wrongPageStart after page.after)
  else if limit < page.changes.length then .error (.pageTooLarge limit page.changes.length)
  else match state.filter fun state => state.source != page.source with
    | some state => .error (.sourceChanged state.source page.source)
    | none => do
      let gathered ← page.changes.foldlM gatherChange { through := after }
      if page.currentSerial < gathered.through then
        .error (.primaryBehind page.currentSerial gathered.through)
      else if gathered.journal = [] ∧ after < page.currentSerial then
        .error (.missingChanges after page.currentSerial)
      else .ok {
        source := page.source
        through := gathered.through
        primarySerial := page.currentSerial
        journal := gathered.journal
        metadata := gathered.metadata
        blobs := gathered.blobs }

abbrev BlobStream := List (Option Bytes)

section Blobs
variable (sha256 : Bytes → Str)

def receiveBlob (digest : Str) (size : Nat) : Bytes → BlobStream → Except SyncError Bytes
  | received, [] =>
    if received.length ≠ size then .error (.blobSizeMismatch digest size received.length)
    else .ok received
  | _, none :: _ => .error .primary
  | received, some chunk :: rest =>
    if size - received.length < chunk.length then
      .error (.blobSizeMismatch digest size (received.length + chunk.length))
    else receiveBlob digest size (received ++ chunk) rest

/-- One round of the blob loop of `sync_once` (`replica.rs:92-144`): a stored blob is
checked, a missing one downloaded and published under its verified digest. -/
def fetchBlob (download : Str → Option BlobStream) (store : BlobStore) (digest : Str) (size : Nat) :
    Except SyncError (Nat × BlobStore) :=
  match store[digest]? with
  | some content =>
    if content.length ≠ size then .error (.blobSizeMismatch digest size content.length)
    else if sha256 content ≠ digest then .error (.corruptBlob digest)
    else .ok (0, store)
  | none =>
    match download digest with
    | none => .error .primary
    | some stream =>
      match receiveBlob digest size [] stream with
      | .error error => .error error
      | .ok content =>
        if sha256 content ≠ digest then .error (.digestMismatch digest (sha256 content))
        else .ok (1, store.insert digest content)

def fetchBlobs (download : Str → Option BlobStream) :
    List (Str × Nat) → Nat → BlobStore → Except SyncError Nat × BlobStore
  | [], fetched, store => (.ok fetched, store)
  | (digest, size) :: rest, fetched, store =>
    match fetchBlob sha256 download store digest size with
    | .error error => (.error error, store)
    | .ok (more, store) => fetchBlobs download rest (fetched + more) store

end Blobs

section State
variable (encode : ReplicaState → Bytes) (decode : Bytes → Option ReplicaState)

def readState (rows : Rows) : Except SyncError (Option ReplicaState) :=
  match rows[replicaStateKey]? with
  | none => .ok none
  | some raw => match decode raw with
    | some state => .ok (some state)
    | none => .error .stateDecode

def cursorOf (state : Option ReplicaState) : Nat := (state.map ReplicaState.serial).getD 0

def checkCursor (state : Option ReplicaState) (journal : Nat) : Except SyncError Unit :=
  if journal ≠ cursorOf state then .error (.localSerialMismatch (cursorOf state) journal) else .ok ()

def rowOp : Str × Option Bytes → TxnOp
  | (key, some value) => .put key value
  | (key, none) => .remove key

def pageOps (page : ValidatedPage) : List TxnOp :=
  page.metadata.toList.map rowOp ++
  (page.blobs.toList.map fun blob => TxnOp.referenceBlob blob.1 blob.2) ++
  [TxnOp.putLocal replicaStateKey (encode ⟨page.source, page.through⟩)]

def commitPage (store : MetaStore) (after : Nat) (page : ValidatedPage) :
    Except SyncError MetaStore :=
  if page.journal = [] then .ok store
  else match commitDriverTxnAt (ε := Empty) store (some after)
      fun _ => .ok (pageOps encode page, page.journal) with
    | .ok store => .ok store
    | .error (.replicaSerialConflict expected actual) => .error (.serialConflict expected actual)

end State

structure Primary where
  changes : Nat → Nat → Option ChangePage
  blob : Str → Option BlobStream

structure SyncOutcome where
  changes : Nat
  blobs : Nat
  serial : Nat
  primarySerial : Nat
  deriving Repr, DecidableEq

/-- `sync_once` (`replica.rs:82-181`) on the metadata and the blobs of a replica. -/
def syncOnce (sha256 : Bytes → Str) (encode : ReplicaState → Bytes)
    (decode : Bytes → Option ReplicaState) (primary : Primary) (limit : Nat) (store : MetaStore)
    (blobs : BlobStore) : Except SyncError SyncOutcome × MetaStore × BlobStore :=
  match readState decode store.rows with
  | .error error => (.error error, store, blobs)
  | .ok state =>
    match checkCursor state store.serial with
    | .error error => (.error error, store, blobs)
    | .ok () =>
      match primary.changes (cursorOf state) limit with
      | none => (.error .primary, store, blobs)
      | some page =>
        match ValidatedPage.new page (cursorOf state) limit state with
        | .error error => (.error error, store, blobs)
        | .ok validated =>
          match fetchBlobs sha256 primary.blob validated.blobs.toList 0 blobs with
          | (.error error, blobs) => (.error error, store, blobs)
          | (.ok fetched, blobs) =>
            match commitPage encode store (cursorOf state) validated with
            | .error error => (.error error, store, blobs)
            | .ok store =>
              (.ok ⟨validated.journal.length, fetched, validated.through, validated.primarySerial⟩,
                store, blobs)

end Peryx.Replication

/-!
## The state row as JSON

A state encoder with a decoder that undoes it, for runs on given inputs. It writes what
`serde_json` writes for the state of a source whose name needs no escapes.
-/

namespace Peryx.Replication
open Storage

def decimal (n : Nat) : Str :=
  if n = 0 then [0x30] else ((Nat.digits 10 n).map fun digit => UInt8.ofNat (0x30 + digit)).reverse

def isDigit (byte : UInt8) : Bool := 0x30 ≤ byte && byte ≤ 0x39

/-- The row `serde_json` writes for a source that needs no escapes. -/
def encodeState (state : ReplicaState) : Bytes :=
  str "\x7b\"source\":\"" ++ state.source ++ str "\",\"serial\":" ++ decimal state.serial ++ str "\x7d"

def decodeState (raw : Bytes) : Option ReplicaState := do
  let rest ← Str.stripPrefix raw.reverse (str "\x7d")
  let before ← Str.stripPrefix (rest.dropWhile isDigit) (str "\",\"serial\":").reverse
  let source ← Str.stripPrefix before.reverse (str "\x7b\"source\":\"")
  return ⟨source, Nat.ofDigits 10 ((rest.takeWhile isDigit).map fun byte => byte.toNat - 0x30)⟩

theorem decimal_digits (n : Nat) : (∀ byte ∈ (decimal n).reverse, isDigit byte = true) ∧
    Nat.ofDigits 10 ((decimal n).reverse.map fun byte => byte.toNat - 0x30) = n := by
  unfold decimal
  split
  · rename_i hzero
    rw [hzero]
    constructor
    · intro byte hmem
      rw [List.reverse_singleton, List.mem_singleton] at hmem
      rw [hmem]
      rfl
    · rfl
  · have hlt : ∀ digit ∈ Nat.digits 10 n, digit < 10 := fun digit => Nat.digits_lt_base (by omega)
    have hbyte : ∀ digit < 10, (UInt8.ofNat (0x30 + digit)).toNat = 0x30 + digit := by
      intro digit hdigit
      rw [UInt8.toNat_ofNat']
      omega
    rw [List.reverse_reverse]
    constructor
    · intro byte hmem
      obtain ⟨digit, hdigit, rfl⟩ := List.mem_map.mp hmem
      have hnat := hbyte digit (hlt digit hdigit)
      have hten := hlt digit hdigit
      simp only [isDigit, Bool.and_eq_true, decide_eq_true_eq, UInt8.le_iff_toNat_le, hnat]
      exact ⟨Nat.le_add_right _ _, by show 48 + digit ≤ 57; omega⟩
    · have hsame : ((Nat.digits 10 n).map fun digit => UInt8.ofNat (0x30 + digit)).map
          (fun byte => byte.toNat - 0x30) = Nat.digits 10 n := by
        rw [List.map_map, List.map_congr_left fun digit hdigit => ?_, List.map_id]
        have hnat := hbyte digit (hlt digit hdigit)
        show (UInt8.ofNat (0x30 + digit)).toNat - 0x30 = digit
        omega
      rw [hsame, Nat.ofDigits_digits]

theorem decodeState_encodeState (state : ReplicaState) :
    decodeState (encodeState state) = some state := by
  obtain ⟨hdigits, hvalue⟩ := decimal_digits state.serial
  have hreverse : (encodeState state).reverse = str "\x7d" ++ ((decimal state.serial).reverse ++
      ((str "\",\"serial\":").reverse ++ (str "\x7b\"source\":\"" ++ state.source).reverse)) := by
    simp only [encodeState, List.reverse_append, List.append_assoc]
    rfl
  have hstop : ∀ rest : Str, (str "\",\"serial\":").reverse ++ rest =
      0x3a :: ((str "\",\"serial\"").reverse ++ rest) := fun rest => rfl
  have hspan : ∀ rest : Str,
      ((decimal state.serial).reverse ++ ((str "\",\"serial\":").reverse ++ rest)).takeWhile isDigit =
        (decimal state.serial).reverse ∧
      ((decimal state.serial).reverse ++ ((str "\",\"serial\":").reverse ++ rest)).dropWhile isDigit =
        (str "\",\"serial\":").reverse ++ rest := by
    intro rest
    rw [List.takeWhile_append_of_pos hdigits, List.dropWhile_append_of_pos hdigits, hstop,
      List.takeWhile_cons_of_neg (by decide), List.dropWhile_cons_of_neg (by decide), List.append_nil]
    exact ⟨rfl, rfl⟩
  have hstrip : ∀ start rest : Str, Str.stripPrefix (start ++ rest) start = some rest :=
    fun start rest => (Str.stripPrefix_eq_some _ start rest).mpr rfl
  unfold decodeState
  rw [hreverse, hstrip]
  simp only [Option.bind_eq_bind, Option.bind_some, (hspan _).1, (hspan _).2, hstrip,
    List.reverse_reverse, hvalue]
  rfl
end Peryx.Replication
