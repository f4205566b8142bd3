import Mathlib.Logic.Function.Basic
import Peryx.Library.Transition
import Peryx.Storage.BlobFiles

/-!
# Shared downloads (peryx-ecosystem-pypi/src/cache/download.rs, peryx-driver/src/download.rs)
-/

namespace Peryx.Pypi

open Storage

structure DownloadProgress where
  flushed : Nat
  done : Option (Except Str Unit)
  deriving DecidableEq

def flushEvery : Nat := 256 * 1024

abbrev DownloadRegistry := Digest → Option Nat

def DownloadRegistry.removeIf (registry : DownloadRegistry) (digest : Digest) (id : Nat) :
    DownloadRegistry :=
  if registry digest = some id then Function.update registry digest none else registry

abbrev Blobs := Digest → Option Bytes

inductive Pump where
  /-- `drain_to_blob`: the next chunk of the body. -/
  | draining (flushed : Nat)
  /-- `pending.flush`, after the end of the body or before it. -/
  | flushing (last : Bool)
  | publishing (flushed : Nat) (last : Bool)
  | committing
  | aborting (error : Str)
  /-- `finish`: the registration goes first. -/
  | removing (outcome : Except Str Unit)
  | telling (outcome : Except Str Unit)
  | finished

structure Transfer where
  digest : Digest
  /-- The chunks of the body that were accepted, which are `written` bytes. -/
  received : Bytes
  file : Bytes
  linked : Bool
  tailed : Bool
  progress : DownloadProgress
  version : Nat
  /-- What the blob held when `commit` answered that it is stored. -/
  committed : Option Bytes
  pump : Pump

def Transfer.started (digest : Digest) (tailed : Bool) : Transfer where
  digest := digest
  received := []
  file := []
  linked := true
  tailed := tailed
  progress := ⟨0, none⟩
  version := 0
  committed := none
  pump := .draining 0

def Pump.IsWaiting : Pump → Prop
  | .draining _ | .flushing _ | .committing | .aborting _ => True
  | .publishing _ _ | .removing _ | .telling _ | .finished => False

inductive TailSource where
  | temp
  | lease (bytes : Bytes)

inductive TailPlace where
  /-- `tail_download`: borrow the progress. -/
  | looking
  /-- `tail_file`: open the temporary file. -/
  | opening (flushed : Nat)
  /-- `tail_file` found no file: borrow the verdict. -/
  | missed (flushed : Nat)
  | waitingToOpen (flushed : Nat)
  | leasing (flushed : Nat)
  | reading (flushed : Nat)
  | waiting
  /-- `committed_download`: borrow the verdict. -/
  | awaiting
  | awaitingChange
  | fetching
  | streaming
  | ended (outcome : Except Str Unit)
  | left

structure Tail where
  transfer : Nat
  /-- What the client was given, which is `sent` bytes. -/
  delivered : Bytes
  source : Option TailSource
  seen : Nat
  place : TailPlace

def Tail.joined (id : Nat) (transfer : Transfer) : Tail where
  transfer := id
  delivered := []
  source := none
  seen := 0
  place := if transfer.tailed then .looking else .awaiting

def TailPlace.Over : TailPlace → Prop
  | .ended _ | .left => True
  | _ => False

/-- What `TailSource` holds now. -/
def TailSource.content (transfer : Transfer) : TailSource → Bytes
  | .temp => transfer.file
  | .lease bytes => bytes

section Steps
variable (sha : Sha256)

inductive PumpStep (transfer : Transfer) (blobs : Blobs) : Transfer → Blobs → Prop
  | chunk (flushed : Nat) (chunk file : Bytes) (hpump : transfer.pump = .draining flushed)
    (hgrown : transfer.file <+: file) (hfile : file <+: transfer.received ++ chunk) :
    PumpStep transfer blobs
      { transfer with
        received := transfer.received ++ chunk
        file := file
        pump :=
          if flushEvery ≤ (transfer.received ++ chunk).length - flushed then .flushing false
          else .draining flushed }
      blobs
  | drained (flushed : Nat) (hpump : transfer.pump = .draining flushed) :
    PumpStep transfer blobs { transfer with pump := .flushing true } blobs
  | flushed (last : Bool) (hpump : transfer.pump = .flushing last) :
    PumpStep transfer blobs
      { transfer with file := transfer.received, pump := .publishing transfer.received.length last }
      blobs
  | broken (chunk file : Bytes) (error : Str)
    (hpump : (∃ flushed, transfer.pump = .draining flushed) ∨
      ∃ last, transfer.pump = .flushing last)
    (hgrown : transfer.file <+: file) (hfile : file <+: transfer.received ++ chunk) :
    PumpStep transfer blobs
      { transfer with received := transfer.received ++ chunk, file := file, pump := .aborting error }
      blobs
  /-- `publish_flushed`. -/
  | published (flushed : Nat) (last : Bool) (hpump : transfer.pump = .publishing flushed last) :
    PumpStep transfer blobs
      { transfer with
        progress := { transfer.progress with flushed := flushed }
        version := transfer.version + 1
        pump := if last then .committing else .draining flushed }
      blobs
  /-- `commit`: another digest, or a failed call. -/
  | notCommitted (error : Str) (hpump : transfer.pump = .committing) :
    PumpStep transfer blobs { transfer with pump := .removing (.error error) } blobs
  | alreadyStored (bytes : Bytes) (hpump : transfer.pump = .committing)
    (hdigest : Digest.of sha transfer.received = transfer.digest)
    (hstored : blobs transfer.digest = some bytes) :
    PumpStep transfer blobs
      { transfer with linked := false, committed := some bytes, pump := .removing (.ok ()) } blobs
  | placed (hpump : transfer.pump = .committing)
    (hdigest : Digest.of sha transfer.received = transfer.digest)
    (hfree : blobs transfer.digest = none) :
    PumpStep transfer blobs
      { transfer with
        linked := false
        committed := some transfer.file
        pump := .removing (.ok ()) }
      (Function.update blobs transfer.digest (some transfer.file))
  /-- `abort`, whose own error would be told instead. -/
  | aborted (error cleanup : Str) (hpump : transfer.pump = .aborting error) :
    PumpStep transfer blobs { transfer with pump := .removing (.error cleanup) } blobs
  | dropped (hpump : transfer.pump.IsWaiting) :
    PumpStep transfer blobs
      { transfer with pump := .removing (.error (str "blob transfer abandoned")) } blobs
  | told (outcome : Except Str Unit) (hpump : transfer.pump = .telling outcome) :
    PumpStep transfer blobs
      { transfer with
        progress := { transfer.progress with done := some outcome }
        version := transfer.version + 1
        pump := .finished }
      blobs

inductive TailStep (transfer : Transfer) (blobs : Blobs) (tail : Tail) : Tail → Prop
  | behind (hplace : tail.place = .looking)
    (hsent : tail.delivered.length < transfer.progress.flushed) :
    TailStep transfer blobs tail
      { tail with
        seen := transfer.version
        place :=
          if tail.source.isNone then .opening transfer.progress.flushed
          else .reading transfer.progress.flushed }
  | over (outcome : Except Str Unit) (hplace : tail.place = .looking)
    (hsent : ¬ tail.delivered.length < transfer.progress.flushed)
    (hdone : transfer.progress.done = some outcome) :
    TailStep transfer blobs tail { tail with seen := transfer.version, place := .ended outcome }
  | upToDate (hplace : tail.place = .looking)
    (hsent : ¬ tail.delivered.length < transfer.progress.flushed)
    (hdone : transfer.progress.done = none) :
    TailStep transfer blobs tail { tail with seen := transfer.version, place := .waiting }
  | changed (hplace : tail.place = .waiting) (hnew : transfer.version ≠ tail.seen) :
    TailStep transfer blobs tail { tail with place := .looking }
  | opened (flushed : Nat) (hplace : tail.place = .opening flushed) (hlinked : transfer.linked) :
    TailStep transfer blobs tail { tail with source := some .temp, place := .reading flushed }
  | notOpened (flushed : Nat) (hplace : tail.place = .opening flushed) :
    TailStep transfer blobs tail { tail with place := .missed flushed }
  | missedDone (flushed : Nat) (hplace : tail.place = .missed flushed)
    (hdone : transfer.progress.done = some (.ok ())) :
    TailStep transfer blobs tail { tail with seen := transfer.version, place := .leasing flushed }
  | missedFailed (flushed : Nat) (message : Str) (hplace : tail.place = .missed flushed)
    (hdone : transfer.progress.done = some (.error message)) :
    TailStep transfer blobs tail
      { tail with seen := transfer.version, place := .ended (.error message) }
  | missedEarly (flushed : Nat) (hplace : tail.place = .missed flushed)
    (hdone : transfer.progress.done = none) :
    TailStep transfer blobs tail
      { tail with seen := transfer.version, place := .waitingToOpen flushed }
  | openAgain (flushed : Nat) (hplace : tail.place = .waitingToOpen flushed)
    (hnew : transfer.version ≠ tail.seen) :
    TailStep transfer blobs tail { tail with place := .opening flushed }
  | leased (flushed : Nat) (bytes : Bytes) (hplace : tail.place = .leasing flushed)
    (hstored : blobs transfer.digest = some bytes) :
    TailStep transfer blobs tail
      { tail with source := some (.lease bytes), place := .reading flushed }
  /-- `read` gives up to `budget` bytes of what the file holds behind those sent. -/
  | read (flushed : Nat) (source : TailSource) (chunk : Bytes)
    (hplace : tail.place = .reading flushed) (hsource : tail.source = some source)
    (hchunk : chunk ≠ [])
    (hbudget : chunk.length ≤ min (flushed - tail.delivered.length) flushEvery)
    (hfound : tail.delivered ++ chunk <+: source.content transfer) :
    TailStep transfer blobs tail
      { tail with delivered := tail.delivered ++ chunk, place := .looking }
  | told (outcome : Except Str Unit) (hplace : tail.place = .awaiting)
    (hdone : transfer.progress.done = some outcome) :
    TailStep transfer blobs tail
      { tail with
        seen := transfer.version
        place :=
          match outcome with
          | .ok _ => .fetching
          | .error message => .ended (.error message) }
  | untold (hplace : tail.place = .awaiting) (hdone : transfer.progress.done = none) :
    TailStep transfer blobs tail { tail with seen := transfer.version, place := .awaitingChange }
  | askAgain (hplace : tail.place = .awaitingChange) (hnew : transfer.version ≠ tail.seen) :
    TailStep transfer blobs tail { tail with place := .awaiting }
  | fetched (bytes : Bytes) (hplace : tail.place = .fetching)
    (hstored : blobs transfer.digest = some bytes) :
    TailStep transfer blobs tail { tail with source := some (.lease bytes), place := .streaming }
  | streamed (source : TailSource) (chunk : Bytes) (hplace : tail.place = .streaming)
    (hsource : tail.source = some source) (hchunk : chunk ≠ [])
    (hfound : tail.delivered ++ chunk <+: source.content transfer) :
    TailStep transfer blobs tail { tail with delivered := tail.delivered ++ chunk }
  | streamEnd (hplace : tail.place = .streaming)
    (hsource : tail.source = some (.lease tail.delivered)) :
    TailStep transfer blobs tail { tail with place := .ended (.ok ()) }
  | closed (error : Str)
    (hplace : tail.place = .waiting ∨ tail.place = .awaitingChange ∨
      ∃ flushed, tail.place = .waitingToOpen flushed)
    (hsame : transfer.version = tail.seen) (hpump : transfer.pump = .finished) :
    TailStep transfer blobs tail { tail with place := .ended (.error error) }
  /-- A call of the file system or of the blob store fails, or a read gives no bytes. -/
  | failed (error : Str)
    (hplace : tail.place = .fetching ∨ tail.place = .streaming ∨
      ∃ flushed, tail.place = .opening flushed ∨ tail.place = .leasing flushed ∨
        tail.place = .reading flushed) :
    TailStep transfer blobs tail { tail with place := .ended (.error error) }

structure DownloadState where
  transfers : Nat → Option Transfer
  clients : Nat → Option Tail
  registry : DownloadRegistry
  blobs : Blobs

/-- One step of all; a step of a client's stream carries the client's number. -/
inductive DownloadStep (state : DownloadState) : Option Nat → DownloadState → Prop
  /-- `register`, where the digest has no producer. -/
  | start (id : Nat) (digest : Digest) (tailed : Bool) (hid : state.transfers id = none)
    (hvacant : state.registry digest = none) :
    DownloadStep state none
      { state with
        transfers := Function.update state.transfers id (some (.started digest tailed))
        registry := Function.update state.registry digest (some id) }
  | pump (id : Nat) (transfer next : Transfer) (blobs : Blobs)
    (hid : state.transfers id = some transfer)
    (hstep : PumpStep sha transfer state.blobs next blobs) :
    DownloadStep state none
      { state with
        transfers := Function.update state.transfers id (some next)
        blobs := blobs }
  /-- `finish`, or a dropped producer. -/
  | deregister (id : Nat) (transfer : Transfer) (outcome : Except Str Unit)
    (hid : state.transfers id = some transfer) (hpump : transfer.pump = .removing outcome) :
    DownloadStep state none
      { state with
        transfers :=
          Function.update state.transfers id (some { transfer with pump := .telling outcome })
        registry := state.registry.removeIf transfer.digest id }
  | spill (id : Nat) (transfer : Transfer) (file : Bytes)
    (hid : state.transfers id = some transfer) (hgrown : transfer.file <+: file)
    (hfile : file <+: transfer.received) :
    DownloadStep state none
      { state with
        transfers := Function.update state.transfers id (some { transfer with file := file }) }
  | unlink (id : Nat) (transfer : Transfer) (hid : state.transfers id = some transfer) :
    DownloadStep state none
      { state with
        transfers := Function.update state.transfers id (some { transfer with linked := false }) }
  | join (client id : Nat) (transfer : Transfer) (hclient : state.clients client = none)
    (hid : state.transfers id = some transfer) :
    DownloadStep state none
      { state with
        clients := Function.update state.clients client (some (.joined id transfer)) }
  | read (client : Nat) (tail next : Tail) (transfer : Transfer)
    (hclient : state.clients client = some tail)
    (hid : state.transfers tail.transfer = some transfer)
    (hstep : TailStep transfer state.blobs tail next) :
    DownloadStep state (some client)
      { state with clients := Function.update state.clients client (some next) }
  | leave (client : Nat) (tail : Tail) (hclient : state.clients client = some tail)
    (hplace : ¬ tail.place.Over) :
    DownloadStep state none
      { state with
        clients := Function.update state.clients client (some { tail with place := .left }) }
  | store (digest : Digest) (bytes : Bytes) (hfree : state.blobs digest = none)
    (hdigest : Digest.of sha bytes = digest) :
    DownloadStep state none
      { state with blobs := Function.update state.blobs digest (some bytes) }
  | remove (digest : Digest) :
    DownloadStep state none { state with blobs := Function.update state.blobs digest none }

/-- A process that has just started, over a store of verified blobs. -/
def downloadSystem : System DownloadState where
  start state :=
    (∀ id, state.transfers id = none) ∧ (∀ client, state.clients client = none) ∧
      (∀ digest, state.registry digest = none) ∧
      ∀ digest bytes, state.blobs digest = some bytes → Digest.of sha bytes = digest
  step state next := ∃ client, DownloadStep sha state client next

end Steps
end Peryx.Pypi
