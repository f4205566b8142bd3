import Mathlib.Logic.Function.Basic
import Peryx.Core.Utf8
import Peryx.Library.Transition
import Peryx.Oci.ManifestWrite

/-!
# Blob uploads (peryx-ecosystem-oci/src/registry/uploads.rs, blobs/mod.rs:441-462)

A hosted index takes a blob in one `POST` or through a session that `PATCH` and `PUT`
requests fill. Metrics and webhooks are left out.
-/

namespace Peryx
open Storage

def Policy.checkSize (policy : Policy) (action : PolicyAction) (project : Str) (size : Nat) :
    Except PolicyDenial Unit := do
  policy.checkProject action project
  match policy.maxFileSizeBytes with
  | none => .ok ()
  | some limit =>
    if limit < size then
      .error ⟨action, project, none, none, str "max-file-size", str "size", .sizeExceeds size limit⟩
    else .ok ()

namespace Oci

inductive ChunkStart where
  | absent
  | malformed
  | at (start : Nat)
  deriving Repr, DecidableEq

def ChunkStart.continuesAt (offset : Nat) : ChunkStart → Bool
  | .absent => true
  | .at start => start == offset
  | .malformed => false

def isVisible (byte : UInt8) : Bool := (0x20 ≤ byte && byte < 0x7F) || byte == 0x09

def chunkStart : Option Bytes → ChunkStart
  | none => .absent
  | some value =>
    if value.all isVisible then
      let trimmed := Str.trimAscii value
      let spec := (Str.stripPrefix trimmed (str "bytes ")).getD trimmed
      match Str.splitOnce 0x2D spec with
      | none => .malformed
      | some (start, _) =>
        match Str.parseU64 (Str.trimAscii start) with
        | none => .malformed
        | some start => .at start
    else .malformed

/-- A `BlobWrite` as its owner sees it: the chunks taken so far, and whether a batch of them
failed, after which the stage is gone. -/
structure BlobWrite where
  bytes : Bytes := []
  lost : Bool := false
  deriving DecidableEq

structure UploadSession where
  pending : BlobWrite
  offset : Nat
  index : Str
  name : Str
  lastActiveAt : Int
  serial : Nat
  deriving DecidableEq

def UploadSession.belongsTo (session : UploadSession) (index name : Str) : Bool :=
  session.index == index && session.name == name

def uploadSessionTtlSecs : Int := 3600

def UploadSession.expired (session : UploadSession) (now : Int) : Bool :=
  uploadSessionTtlSecs ≤ now - session.lastActiveAt

abbrev UploadMap := Table Str UploadSession

def reclaimExpired (uploads : UploadMap) (now : Int) : UploadMap :=
  uploads.filter fun _ session => !session.expired now

def sessionOf (uploads : UploadMap) (index name session : Str) : Option UploadSession :=
  uploads[session]?.filter fun entry => entry.belongsTo index name

structure WriteRequest where
  identify : Acl.IndexAcl → PresentedIdentity
  realm : Bool
  name : Str
  params : Str → Option Str
  contentRange : Option Bytes
  body : List (Except Str Bytes)

inductive SessionWrite where
  | patch
  | finish
  deriving DecidableEq

inductive UploadMethod where
  | start
  | write (kind : SessionWrite) (session : Str)
  | status (session : Str)
  | cancel (session : Str)
  deriving DecidableEq

inductive Progress where
  | uploadAccepted
  | uploadStatus
  | rangeNotSatisfiable
  deriving DecidableEq

def Progress.code : Progress → Nat
  | .uploadAccepted => 202
  | .uploadStatus => 204
  | .rangeNotSatisfiable => 416

inductive UploadReply where
  | reply (reply : Reply)
  | denied (denial : PolicyDenial)
  | progress (kind : Progress) (name session : Str) (offset : Nat)
  | noContent
  | fault

def rangeHeader (offset : Nat) : Str := str "0-" ++ natText (offset - 1)

def uploadLocation (name session : Str) : Str :=
  str "/v2/" ++ name ++ str "/blobs/uploads/" ++ session

def blobCreated (name digest : Str) : UploadReply :=
  .reply (.created (str "/v2/" ++ name ++ str "/blobs/" ++ digest) digest none)

def uploadUnknown : UploadReply :=
  .reply (errorResponse .blobUploadUnknown (str "upload unknown"))

def blockedByPolicy : UploadReply :=
  .reply (errorResponse .denied (str "image name is blocked by policy"))

def digestUnsupported : UploadReply :=
  .reply (errorResponse .digestInvalid (str "only sha256 blob digests are supported"))

def digestRequired : Reply :=
  errorResponse .digestInvalid (str "finishing an upload requires a digest")

def digestMismatch (expected actual : Str) : UploadReply :=
  .reply (errorResponse .digestInvalid
    (str "blob digest mismatch: expected " ++ expected ++ str ", got " ++ actual))

inductive Restored where
  | progress (kind : Progress) (name : Str)
  | refused (reply : Reply)
  | fault

/-- Who the request writes for: the hosted index and the repository under it. -/
structure UploadTarget where
  index : Index
  repo : Str

structure Mount where
  mount : Str
  storage : Str
  source : Index
  sourceRepo : Str

inductive UploadCall where
  | idle
  | arrived (method : UploadMethod) (request : WriteRequest)
  -- `start_upload`
  | mounting (request : WriteRequest) (target : UploadTarget) (mount : Mount)
  | authorizing (request : WriteRequest) (target : UploadTarget) (mount : Mount) (members : List Index)
  | linking (request : WriteRequest) (target : UploadTarget) (mount : Str)
  | beginning (request : WriteRequest) (target : UploadTarget)
  | writing (request : WriteRequest) (target : UploadTarget) (digest : Str) (pending : BlobWrite)
      (size : Nat) (rest : List (Except Str Bytes))
  | opening (request : WriteRequest) (target : UploadTarget)
  -- the other requests; `began` is the offset at which the request found its session
  | taking (kind : SessionWrite) (session : Str) (request : WriteRequest) (target : UploadTarget)
  | appending (kind : SessionWrite) (session : Str) (request : WriteRequest) (target : UploadTarget)
      (began : Nat) (entry : UploadSession) (rest : List (Except Str Bytes))
  | restoring (session : Str) (entry : UploadSession) (outcome : Restored)
  | asking (session : Str) (request : WriteRequest) (target : UploadTarget)
  | cancelling (session : Str) (request : WriteRequest) (target : UploadTarget)
  | aborting (entry : UploadSession)
  -- `commit_blob`; `serial` is that of the session, if there was one
  | committing (request : WriteRequest) (target : UploadTarget) (pending : BlobWrite) (digest : Str)
      (serial : Option Nat)
  | recording (request : WriteRequest) (target : UploadTarget) (digest : Str)
  | replied (reply : UploadReply)
  | panicked

def UploadCall.MayFail : UploadCall → Prop
  | .mounting _ _ _ | .authorizing _ _ _ _ | .linking _ _ _ | .beginning _ _ | .opening _ _
  | .aborting _ | .committing _ _ _ _ _ | .recording _ _ _ => True
  | .idle | .arrived _ _ | .writing _ _ _ _ _ _ | .taking _ _ _ _ | .appending _ _ _ _ _ _ _
  | .restoring _ _ _ | .asking _ _ _ | .cancelling _ _ _ | .replied _ | .panicked => False

/-- One chunk that a session took: what the request said of its beginning, the offset at which
the request found the session, and the offset of the chunk. -/
structure Acceptance where
  serial : Nat
  range : ChunkStart
  began : Nat
  offset : Nat
  chunk : Bytes

/-- The shared state, the requests by number, and what was done so far: the index and the name
each session was opened for, and every chunk that a session took. -/
structure Registry where
  stores : Stores := {}
  uploads : UploadMap := ∅
  calls : Nat → UploadCall := fun _ => .idle
  opened : List (Str × Str) := []
  accepted : List Acceptance := []

inductive UploadEvent where
  | quiet
  | progress (kind : Progress) (name session : Str) (serial offset : Nat)
  | committed (digest : Str) (bytes : Bytes) (serial : Option Nat)
  | recorded (index repo digest : Str)

namespace Registry

def go (state : Registry) (caller : Nat) (call : UploadCall) : Registry :=
  { state with calls := Function.update state.calls caller call }

def setUploads (state : Registry) (uploads : UploadMap) : Registry := { state with uploads }

def setStores (state : Registry) (stores : Stores) : Registry := { state with stores }

def open_ (state : Registry) (index name : Str) : Registry :=
  { state with opened := state.opened ++ [(index, name)] }

def accept (state : Registry) (acceptance : Acceptance) : Registry :=
  { state with accepted := state.accepted ++ [acceptance] }

end Registry

section Handlers
variable (sha256 : Bytes → Str) (indexes : Indexes)

def authorizeRead (request : WriteRequest) (name : Str) : Except Reply Unit :=
  match resolve indexes.toList name with
  | none => .ok ()
  | some (index, repo) =>
    match (request.identify index.acl).authorize index.acl repo name .read with
    | .ok () => .ok ()
    | .error denial => .error (resourceChallenge request.realm denial)

def mountOf (request : WriteRequest) : Except Reply (Option Mount) :=
  match request.params (str "mount"), request.params (str "from") with
  | some mount, some source =>
    match blobDigest mount with
    | none => .ok none
    | some storage =>
      match authorizeRead indexes request source with
      | .error reply => .error reply
      | .ok () =>
        match resolve indexes.toList source with
        | none => .ok none
        | some (index, repo) =>
          if policyBlocks index .serve repo then .ok none else .ok (some ⟨mount, storage, index, repo⟩)
  | _, _ => .ok none

def authorizingMembers (index : Index) : List Index :=
  match index.kind with
  | .virtual _ _ => servingMembers indexes index
  | _ => [index]

def routed (request : WriteRequest) (target : UploadTarget) : UploadMethod → UploadCall
  | .start =>
    match mountOf indexes request with
    | .error reply => .replied (.reply reply)
    | .ok none => .beginning request target
    | .ok (some mount) => .mounting request target mount
  | .write kind session => .taking kind session request target
  | .status session => .asking session request target
  | .cancel session => .cancelling session request target

/-- `resolve_writable` of the request. -/
def targetOf (request : WriteRequest) : Except Reply UploadTarget :=
  match resolveWritable request.identify request.realm indexes request.name .write with
  | .error reply => .error reply
  | .ok (index, repo) => .ok ⟨index, repo⟩

def entered (method : UploadMethod) (request : WriteRequest) : UploadCall :=
  match targetOf indexes request with
  | .error reply => .replied (.reply reply)
  | .ok target => routed indexes request target method

def overLimit (index : Index) (size : Nat) : Bool :=
  index.policy.maxFileSizeBytes.any fun limit => limit < size

def policySizeDenial (target : UploadTarget) (size : Nat) : Option PolicyDenial :=
  match target.index.policy.checkSize .upload target.repo size with
  | .ok () => none
  | .error denial => some denial

/-- Only a `PATCH` counts as activity. -/
def SessionWrite.touch (kind : SessionWrite) (entry : UploadSession) (now : Int) : UploadSession :=
  match kind with
  | .patch => { entry with lastActiveAt := now }
  | .finish => entry

def taken (kind : SessionWrite) (session : Str) (request : WriteRequest) (target : UploadTarget)
    (entry : UploadSession) : UploadCall :=
  if (chunkStart request.contentRange).continuesAt entry.offset then
    .appending kind session request target entry.offset entry request.body
  else .restoring session entry (.progress .rangeNotSatisfiable request.name)

def appended (kind : SessionWrite) (session : Str) (request : WriteRequest) (target : UploadTarget)
    (entry : UploadSession) : UploadCall :=
  match kind with
  | .patch => .restoring session entry (.progress .uploadAccepted request.name)
  | .finish =>
    match request.params (str "digest") with
    | none => .restoring session entry (.refused digestRequired)
    | some digest => .committing request target entry.pending digest (some entry.serial)

def UploadSession.append (entry : UploadSession) (chunk : Bytes) : UploadSession :=
  { entry with
    pending := { entry.pending with bytes := entry.pending.bytes ++ chunk }
    offset := entry.offset + chunk.length }

def storeBlob (stores : Stores) (digest : Str) (bytes : Bytes) : Stores :=
  { stores with blobs := if stores.blobs[digest]?.isSome then stores.blobs
      else stores.blobs.insert digest bytes }

open Registry in
inductive UploadStep (caller : Nat) (state : Registry) : UploadEvent → Registry → Prop
  | enter (method : UploadMethod) (request : WriteRequest)
      (h : state.calls caller = .arrived method request) :
    UploadStep caller state .quiet (state.go caller (entered indexes method request))
  -- mounting
  | mountHeld (request : WriteRequest) (target : UploadTarget) (mount : Mount)
      (h : state.calls caller = .mounting request target mount)
      (hblob : state.stores.blobs[mount.storage]?.isSome = true) :
    UploadStep caller state .quiet (state.go caller
      (.authorizing request target mount (authorizingMembers indexes mount.source)))
  | mountAbsent (request : WriteRequest) (target : UploadTarget) (mount : Mount)
      (h : state.calls caller = .mounting request target mount)
      (hblob : state.stores.blobs[mount.storage]?.isSome = false) :
    UploadStep caller state .quiet (state.go caller (.beginning request target))
  | mountFound (request : WriteRequest) (target : UploadTarget) (mount : Mount) (member : Index)
      (members : List Index)
      (h : state.calls caller = .authorizing request target mount (member :: members))
      (hmember : isBlobMember state.stores.rows member.name mount.sourceRepo mount.mount = true) :
    UploadStep caller state .quiet (state.go caller
      (if policyBlocks target.index .upload target.repo then .replied blockedByPolicy
        else .linking request target mount.mount))
  | mountNext (request : WriteRequest) (target : UploadTarget) (mount : Mount) (member : Index)
      (members : List Index)
      (h : state.calls caller = .authorizing request target mount (member :: members))
      (hmember : isBlobMember state.stores.rows member.name mount.sourceRepo mount.mount = false) :
    UploadStep caller state .quiet (state.go caller (.authorizing request target mount members))
  | mountDenied (request : WriteRequest) (target : UploadTarget) (mount : Mount)
      (h : state.calls caller = .authorizing request target mount []) :
    UploadStep caller state .quiet (state.go caller (.beginning request target))
  | link (request : WriteRequest) (target : UploadTarget) (mount : Str)
      (h : state.calls caller = .linking request target mount) :
    UploadStep caller state (.recorded target.index.name target.repo mount)
      ((state.setStores (state.stores.putRow (blobMembershipKey target.index.name target.repo mount)
        [])).go caller (.replied (blobCreated request.name mount)))
  -- one `POST`
  | beginWrite (request : WriteRequest) (target : UploadTarget) (digest : Str)
      (h : state.calls caller = .beginning request target)
      (hdigest : request.params (str "digest") = some digest) :
    UploadStep caller state .quiet
      (state.go caller (.writing request target digest {} 0 request.body))
  | beginSession (request : WriteRequest) (target : UploadTarget)
      (h : state.calls caller = .beginning request target)
      (hdigest : request.params (str "digest") = none) :
    UploadStep caller state .quiet (state.go caller (.opening request target))
  | write (request : WriteRequest) (target : UploadTarget) (digest : Str) (pending : BlobWrite)
      (size : Nat) (chunk : Bytes) (rest : List (Except Str Bytes))
      (h : state.calls caller = .writing request target digest pending size (.ok chunk :: rest))
      (hlimit : overLimit target.index (size + chunk.length) = false) :
    UploadStep caller state .quiet (state.go caller (.writing request target digest
      { pending with bytes := pending.bytes ++ chunk } (size + chunk.length) rest))
  | writeDenied (request : WriteRequest) (target : UploadTarget) (digest : Str) (pending : BlobWrite)
      (size : Nat) (chunk : Bytes) (rest : List (Except Str Bytes)) (denial : PolicyDenial)
      (h : state.calls caller = .writing request target digest pending size (.ok chunk :: rest))
      (hlimit : overLimit target.index (size + chunk.length) = true)
      (hdenial : policySizeDenial target (size + chunk.length) = some denial) :
    UploadStep caller state .quiet (state.go caller (.replied (.denied denial)))
  -- the body breaks off, or the stage fails
  | writeFailed (request : WriteRequest) (target : UploadTarget) (digest : Str) (pending : BlobWrite)
      (size : Nat) (next : Except Str Bytes) (rest : List (Except Str Bytes))
      (h : state.calls caller = .writing request target digest pending size (next :: rest)) :
    UploadStep caller state .quiet (state.go caller (.replied .fault))
  | writeDone (request : WriteRequest) (target : UploadTarget) (digest : Str) (pending : BlobWrite)
      (size : Nat) (h : state.calls caller = .writing request target digest pending size []) :
    UploadStep caller state .quiet
      (state.go caller (.committing request target pending digest none))
  -- opening a session; the candidates that are taken are passed over
  | openSession (request : WriteRequest) (target : UploadTarget) (now : Int) (session : Str)
      (h : state.calls caller = .opening request target)
      (hfree : (reclaimExpired state.uploads now)[session]? = none) :
    UploadStep caller state
      (.progress .uploadAccepted request.name session state.opened.length 0)
      (((state.open_ target.index.name request.name).setUploads
        ((reclaimExpired state.uploads now).insert session
          ⟨{}, 0, target.index.name, request.name, now, state.opened.length⟩)).go caller
        (.replied (.progress .uploadAccepted request.name session 0)))
  -- a session's chunks
  | takeUnknown (kind : SessionWrite) (session : Str) (request : WriteRequest) (target : UploadTarget)
      (h : state.calls caller = .taking kind session request target)
      (hnone : sessionOf state.uploads target.index.name request.name session = none) :
    UploadStep caller state .quiet (state.go caller (.replied uploadUnknown))
  | take (kind : SessionWrite) (session : Str) (request : WriteRequest) (target : UploadTarget)
      (entry : UploadSession) (now : Int)
      (h : state.calls caller = .taking kind session request target)
      (hentry : sessionOf state.uploads target.index.name request.name session = some entry) :
    UploadStep caller state .quiet ((state.setUploads (state.uploads.erase session)).go caller
      (taken kind session request target (kind.touch entry now)))
  | append (kind : SessionWrite) (session : Str) (request : WriteRequest) (target : UploadTarget)
      (began : Nat) (entry : UploadSession) (chunk : Bytes) (rest : List (Except Str Bytes))
      (h : state.calls caller =
        .appending kind session request target began entry (.ok chunk :: rest))
      (hlimit : overLimit target.index (entry.offset + chunk.length) = false) :
    UploadStep caller state .quiet
      ((state.accept ⟨entry.serial, chunkStart request.contentRange, began, entry.offset, chunk⟩).go
        caller (.appending kind session request target began (entry.append chunk) rest))
  | appendDenied (kind : SessionWrite) (session : Str) (request : WriteRequest) (target : UploadTarget)
      (began : Nat) (entry : UploadSession) (chunk : Bytes) (rest : List (Except Str Bytes))
      (denial : PolicyDenial)
      (h : state.calls caller =
        .appending kind session request target began entry (.ok chunk :: rest))
      (hlimit : overLimit target.index (entry.offset + chunk.length) = true)
      (hdenial : policySizeDenial target (entry.offset + chunk.length) = some denial) :
    UploadStep caller state .quiet (state.go caller (.replied (.denied denial)))
  | bodyFailed (kind : SessionWrite) (session : Str) (request : WriteRequest) (target : UploadTarget)
      (began : Nat) (entry : UploadSession) (message : Str) (rest : List (Except Str Bytes))
      (h : state.calls caller =
        .appending kind session request target began entry (.error message :: rest)) :
    UploadStep caller state .quiet (state.go caller (.restoring session entry .fault))
  -- a batch of earlier chunks failed; this one is not taken
  | stageFailed (kind : SessionWrite) (session : Str) (request : WriteRequest) (target : UploadTarget)
      (began : Nat) (entry : UploadSession) (chunk : Bytes) (rest : List (Except Str Bytes))
      (h : state.calls caller =
        .appending kind session request target began entry (.ok chunk :: rest)) :
    UploadStep caller state .quiet (state.go caller (.restoring session
      { entry with pending := { entry.pending with lost := true } } .fault))
  -- "settled writer retains its stage"
  | stagePanicked (kind : SessionWrite) (session : Str) (request : WriteRequest) (target : UploadTarget)
      (began : Nat) (entry : UploadSession) (chunk : Bytes) (rest : List (Except Str Bytes))
      (h : state.calls caller =
        .appending kind session request target began entry (.ok chunk :: rest))
      (hlost : entry.pending.lost = true) :
    UploadStep caller state .quiet (state.go caller .panicked)
  | appendDone (kind : SessionWrite) (session : Str) (request : WriteRequest) (target : UploadTarget)
      (began : Nat) (entry : UploadSession)
      (h : state.calls caller = .appending kind session request target began entry []) :
    UploadStep caller state .quiet
      (state.go caller (appended kind session request target entry))
  | restoreProgress (session : Str) (entry : UploadSession) (kind : Progress) (name : Str)
      (h : state.calls caller = .restoring session entry (.progress kind name)) :
    UploadStep caller state (.progress kind name session entry.serial entry.offset)
      ((state.setUploads (state.uploads.insert session entry)).go caller
        (.replied (.progress kind name session entry.offset)))
  | restoreRefused (session : Str) (entry : UploadSession) (reply : Reply)
      (h : state.calls caller = .restoring session entry (.refused reply)) :
    UploadStep caller state .quiet
      ((state.setUploads (state.uploads.insert session entry)).go caller
        (.replied (.reply reply)))
  | restoreFault (session : Str) (entry : UploadSession)
      (h : state.calls caller = .restoring session entry .fault) :
    UploadStep caller state .quiet
      ((state.setUploads (state.uploads.insert session entry)).go caller (.replied .fault))
  -- status and cancel
  | askUnknown (session : Str) (request : WriteRequest) (target : UploadTarget)
      (h : state.calls caller = .asking session request target)
      (hnone : sessionOf state.uploads target.index.name request.name session = none) :
    UploadStep caller state .quiet (state.go caller (.replied uploadUnknown))
  | ask (session : Str) (request : WriteRequest) (target : UploadTarget) (entry : UploadSession)
      (now : Int) (h : state.calls caller = .asking session request target)
      (hentry : sessionOf state.uploads target.index.name request.name session = some entry) :
    UploadStep caller state
      (.progress .uploadStatus request.name session entry.serial entry.offset)
      ((state.setUploads (state.uploads.insert session { entry with lastActiveAt := now })).go
        caller (.replied (.progress .uploadStatus request.name session entry.offset)))
  | cancelUnknown (session : Str) (request : WriteRequest) (target : UploadTarget)
      (h : state.calls caller = .cancelling session request target)
      (hnone : sessionOf state.uploads target.index.name request.name session = none) :
    UploadStep caller state .quiet (state.go caller (.replied uploadUnknown))
  | cancel (session : Str) (request : WriteRequest) (target : UploadTarget) (entry : UploadSession)
      (h : state.calls caller = .cancelling session request target)
      (hentry : sessionOf state.uploads target.index.name request.name session = some entry) :
    UploadStep caller state .quiet
      ((state.setUploads (state.uploads.erase session)).go caller (.aborting entry))
  | aborted (entry : UploadSession) (h : state.calls caller = .aborting entry)
      (hlost : entry.pending.lost = false) :
    UploadStep caller state .quiet (state.go caller (.replied .noContent))
  | abortPanicked (entry : UploadSession) (h : state.calls caller = .aborting entry)
      (hlost : entry.pending.lost = true) :
    UploadStep caller state .quiet (state.go caller .panicked)
  -- committing
  | commitRefused (request : WriteRequest) (target : UploadTarget) (pending : BlobWrite) (digest : Str)
      (serial : Option Nat)
      (h : state.calls caller = .committing request target pending digest serial)
      (hdigest : blobDigest digest = none) :
    UploadStep caller state .quiet (state.go caller (.replied digestUnsupported))
  | commitMismatch (request : WriteRequest) (target : UploadTarget) (pending : BlobWrite)
      (digest storage : Str) (serial : Option Nat)
      (h : state.calls caller = .committing request target pending digest serial)
      (hdigest : blobDigest digest = some storage) (hlost : pending.lost = false)
      (hne : sha256 pending.bytes ≠ storage) :
    UploadStep caller state .quiet
      (state.go caller (.replied (digestMismatch storage (sha256 pending.bytes))))
  | commit (request : WriteRequest) (target : UploadTarget) (pending : BlobWrite) (digest storage : Str)
      (serial : Option Nat)
      (h : state.calls caller = .committing request target pending digest serial)
      (hdigest : blobDigest digest = some storage) (hlost : pending.lost = false)
      (heq : sha256 pending.bytes = storage) :
    UploadStep caller state (.committed digest pending.bytes serial)
      ((state.setStores (storeBlob state.stores storage pending.bytes)).go caller
        (.recording request target digest))
  | commitPanicked (request : WriteRequest) (target : UploadTarget) (pending : BlobWrite) (digest : Str)
      (serial : Option Nat)
      (h : state.calls caller = .committing request target pending digest serial)
      (hlost : pending.lost = true) :
    UploadStep caller state .quiet (state.go caller .panicked)
  | record (request : WriteRequest) (target : UploadTarget) (digest : Str)
      (h : state.calls caller = .recording request target digest) :
    UploadStep caller state (.recorded target.index.name target.repo digest)
      ((state.setStores (state.stores.putRow (blobMembershipKey target.index.name target.repo digest)
        [])).go caller (.replied (blobCreated request.name digest)))
  -- a store or the stage fails; what the request holds is dropped
  | failed (h : (state.calls caller).MayFail) :
    UploadStep caller state .quiet (state.go caller (.replied .fault))

inductive RegistryStep (state : Registry) : UploadEvent → Registry → Prop
  | arrive (caller : Nat) (method : UploadMethod) (request : WriteRequest)
      (h : state.calls caller = .idle) :
    RegistryStep state .quiet (state.go caller (.arrived method request))
  | act (caller : Nat) (event : UploadEvent) (next : Registry)
      (h : UploadStep sha256 indexes caller state event next) : RegistryStep state event next
  -- the request is over or panics, or its client went away: what it holds is dropped
  | leave (caller : Nat) : RegistryStep state .quiet (state.go caller .idle)
  -- `reclaim_idle`
  | reclaim (now : Int) :
    RegistryStep state .quiet (state.setUploads (reclaimExpired state.uploads now))
  -- other requests and the collector change the stores
  | elsewhere (stores : Stores) : RegistryStep state .quiet (state.setStores stores)

def registrySystem : System Registry where
  start state := ∃ stores, state = { stores }
  step state next := ∃ event, RegistryStep sha256 indexes state event next

end Handlers
end Oci
end Peryx
