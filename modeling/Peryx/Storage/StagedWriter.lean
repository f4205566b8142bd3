import Peryx.Storage.DriverTxn

/-!
# The staged blob writer (peryx-storage/src/blob/backend.rs:217-238,346-441)

A writer queues chunks and hands them to a worker with its stage, the temporary file, when a
mebibyte is there or a flush is asked for. A batch shares nothing with its writer while it
runs, so a task stands for what it will return.
-/

namespace Peryx.Storage

def writeBatchBytes : Nat := 1024 * 1024

/-- What the calls on one temporary file answer, by their number. -/
abbrev FileCalls := Nat → Option Str

structure PendingBlob where
  hashed : Bytes := []
  calls : Nat := 0
  deriving DecidableEq

namespace PendingBlob
variable (file : FileCalls)

def len (pending : PendingBlob) : Nat := pending.hashed.length

def call (pending : PendingBlob) : Except Str PendingBlob :=
  match file pending.calls with
  | some message => .error message
  | none => .ok { pending with calls := pending.calls + 1 }

def write (pending : PendingBlob) (chunk : Bytes) : Except Str PendingBlob := do
  let pending ← pending.call file
  return { pending with hashed := pending.hashed ++ chunk }

def flush (pending : PendingBlob) : Except Str PendingBlob := pending.call file

/-- The buffer is written out, then the file is synced; what was hashed names the blob. -/
def finish (pending : PendingBlob) : Except Str Bytes := do
  let pending ← pending.call file
  let pending ← pending.call file
  return pending.hashed

def abort (pending : PendingBlob) : Except Str Unit := do
  let _ ← pending.call file
  return ()

def writeAll (pending : PendingBlob) (chunks : List Bytes) : Except Str PendingBlob :=
  chunks.foldlM (fun pending chunk => pending.write file chunk) pending

end PendingBlob

structure FilesystemWrite where
  pending : Option PendingBlob
  task : Option (Except Str PendingBlob)
  queued : List Bytes
  queuedBytes : Nat
  deriving DecidableEq

inductive WriteFault where
  | io (message : Str)
  | panicked
  deriving DecidableEq

namespace FilesystemWrite
variable (file : FileCalls)

/-- `BlobWrite::filesystem`. -/
def begin : FilesystemWrite := ⟨some {}, none, [], 0⟩

def settle (write : FilesystemWrite) : Except WriteFault Unit × FilesystemWrite :=
  match write.task with
  | none => (.ok (), write)
  | some (.ok pending) => (.ok (), { write with task := none, pending := some pending })
  | some (.error message) => (.error (.io message), { write with task := none })

def queue (write : FilesystemWrite) (chunk : Bytes) : FilesystemWrite :=
  { write with
    queued := write.queued ++ [chunk]
    queuedBytes := write.queuedBytes + chunk.length }

def batch (pending : PendingBlob) (queued : List Bytes) (flush : Bool) : Except Str PendingBlob := do
  let pending ← pending.writeAll file queued
  if flush then pending.flush file else return pending

def startBatch (write : FilesystemWrite) (flush : Bool) :
    Except WriteFault Unit × FilesystemWrite :=
  match write.pending with
  | none => (.error .panicked, write)
  | some pending => (.ok (), ⟨none, some (batch file pending write.queued flush), [], 0⟩)

def writeChunk (write : FilesystemWrite) (chunk : Bytes) :
    Except WriteFault Unit × FilesystemWrite :=
  match write.settle with
  | (.error fault, write) => (.error fault, write)
  | (.ok (), write) =>
    if chunk = [] then (.ok (), write)
    else if writeBatchBytes ≤ write.queuedBytes + chunk.length then
      (write.queue chunk).startBatch file false
    else (.ok (), write.queue chunk)

def flush (write : FilesystemWrite) : Except WriteFault Nat × FilesystemWrite :=
  match write.settle with
  | (.error fault, write) => (.error fault, write)
  | (.ok (), write) =>
    match write.startBatch file true with
    | (.error fault, write) => (.error fault, write)
    | (.ok (), write) =>
      match write.settle with
      | (.error fault, write) => (.error fault, write)
      | (.ok (), write) =>
        match write.pending with
        | none => (.error .panicked, write)
        | some pending => (.ok pending.len, write)

/-- `finish` takes the writer; its result is what the staged blob holds. -/
def finish (write : FilesystemWrite) : Except WriteFault Bytes :=
  match write.settle with
  | (.error fault, _) => .error fault
  | (.ok (), write) =>
    match write.pending with
    | none => .error .panicked
    | some pending =>
      match pending.writeAll file write.queued with
      | .error message => .error (.io message)
      | .ok pending => (pending.finish file).mapError .io

def abort (write : FilesystemWrite) : Except WriteFault Unit :=
  match write.settle with
  | (.error fault, _) => .error fault
  | (.ok (), write) =>
    match write.pending with
    | none => .error .panicked
    | some pending => (pending.abort file).mapError .io

end FilesystemWrite

inductive Feed where
  | write (chunk : Bytes)
  | flush
  deriving DecidableEq

inductive Closing where
  | finish
  | abort
  deriving DecidableEq

section Calls
variable (file : FileCalls)

def Feed.act (write : FilesystemWrite) : Feed → Except WriteFault Unit × FilesystemWrite
  | .write chunk => write.writeChunk file chunk
  | .flush => ((write.flush file).1.map fun _ => (), (write.flush file).2)

def Closing.act (write : FilesystemWrite) : Closing → Except WriteFault Unit
  | .finish => (write.finish file).map fun _ => ()
  | .abort => write.abort file

def FilesystemWrite.fed (write : FilesystemWrite) (feeds : List Feed) : FilesystemWrite :=
  feeds.foldl (fun write feed => (feed.act file write).2) write

end Calls

namespace FilesystemWrite

def Keeps (write : FilesystemWrite) : Prop :=
  (write.pending.isSome ∧ write.task = none) ∨ (write.pending = none ∧ write.task.isSome)

def Lost (write : FilesystemWrite) : Prop := write.pending = none ∧ write.task = none

instance (write : FilesystemWrite) : Decidable write.Lost :=
  inferInstanceAs (Decidable (_ ∧ _))

theorem keeps_begin : begin.Keeps := .inl ⟨rfl, rfl⟩

theorem Keeps.not_lost {write : FilesystemWrite} (h : write.Keeps) : ¬ write.Lost := by
  intro hlost
  rcases h with ⟨hsome, -⟩ | ⟨-, hsome⟩
  · rw [hlost.1] at hsome
    cases hsome
  · rw [hlost.2] at hsome
    cases hsome

theorem settle_keeps (write : FilesystemWrite) (h : write.Keeps) :
    (∃ pending, write.settle = (.ok (), ⟨some pending, none, write.queued, write.queuedBytes⟩)) ∨
      ∃ message lost, write.settle = (.error (.io message), lost) ∧ lost.Lost := by
  obtain ⟨pending, task, queued, queuedBytes⟩ := write
  rcases h with ⟨hsome, hnone⟩ | ⟨hnone, hsome⟩
  · obtain ⟨stage, rfl⟩ := Option.isSome_iff_exists.mp hsome
    cases hnone
    exact .inl ⟨stage, rfl⟩
  · obtain ⟨result, rfl⟩ := Option.isSome_iff_exists.mp hsome
    cases hnone
    cases result with
    | ok stage => exact .inl ⟨stage, rfl⟩
    | error message => exact .inr ⟨message, _, rfl, rfl, rfl⟩

theorem settle_lost (write : FilesystemWrite) (h : write.Lost) : write.settle = (.ok (), write) := by
  unfold settle
  rw [h.2]

theorem finish_lost (file : FileCalls) (write : FilesystemWrite) (h : write.Lost) :
    write.finish file = .error .panicked := by
  simp only [finish, settle_lost write h, h.1]

theorem abort_lost (file : FileCalls) (write : FilesystemWrite) (h : write.Lost) :
    write.abort file = .error .panicked := by
  simp only [abort, settle_lost write h, h.1]

end FilesystemWrite

def Feed.Idle (write : FilesystemWrite) : Feed → Prop
  | .write chunk => chunk = [] ∨ write.queuedBytes + chunk.length < writeBatchBytes
  | .flush => False

instance (write : FilesystemWrite) (feed : Feed) : Decidable (feed.Idle write) :=
  match feed with
  | .write _ => inferInstanceAs (Decidable (_ ∨ _))
  | .flush => inferInstanceAs (Decidable False)

section Stages
variable (file : FileCalls)
open FilesystemWrite

theorem flush_settled (write : FilesystemWrite) (pending : PendingBlob)
    (hsettle : write.settle = (.ok (), ⟨some pending, none, write.queued, write.queuedBytes⟩)) :
    write.flush file = match FilesystemWrite.batch file pending write.queued true with
      | .ok stage => (.ok stage.len, ⟨some stage, none, [], 0⟩)
      | .error message => (.error (.io message), ⟨none, none, [], 0⟩) := by
  simp only [FilesystemWrite.flush, hsettle, startBatch]
  cases FilesystemWrite.batch file pending write.queued true with
  | ok stage => rfl
  | error message => rfl

theorem Feed.act_keeps (write : FilesystemWrite) (feed : Feed) (h : write.Keeps) :
    ((feed.act file write).1 = .ok () ∧ (feed.act file write).2.Keeps) ∨
      ∃ message, (feed.act file write).1 = .error (.io message) ∧ (feed.act file write).2.Lost := by
  cases feed with
  | write chunk =>
    rcases settle_keeps write h with ⟨pending, hsettle⟩ | ⟨message, lost, hsettle, hlost⟩
    · simp only [act, writeChunk, hsettle]
      split
      · exact .inl ⟨rfl, .inl ⟨rfl, rfl⟩⟩
      · split
        · exact .inl ⟨rfl, .inr ⟨rfl, rfl⟩⟩
        · exact .inl ⟨rfl, .inl ⟨rfl, rfl⟩⟩
    · simp only [act, writeChunk, hsettle]
      exact .inr ⟨message, rfl, hlost⟩
  | flush =>
    rcases settle_keeps write h with ⟨pending, hsettle⟩ | ⟨message, lost, hsettle, hlost⟩
    · simp only [act, flush_settled file write pending hsettle]
      cases FilesystemWrite.batch file pending write.queued true with
      | ok stage => exact .inl ⟨rfl, .inl ⟨rfl, rfl⟩⟩
      | error message => exact .inr ⟨message, rfl, rfl, rfl⟩
    · simp only [act, FilesystemWrite.flush, hsettle]
      exact .inr ⟨message, rfl, hlost⟩

theorem writeChunk_full (write : FilesystemWrite) (chunk : Bytes) (h : write.Lost)
    (hne : chunk ≠ []) (hfull : writeBatchBytes ≤ write.queuedBytes + chunk.length) :
    write.writeChunk file chunk = (.error .panicked, write.queue chunk) := by
  simp only [writeChunk, settle_lost write h, if_neg hne, if_pos hfull, startBatch, queue, h.1]

theorem writeChunk_idle (write : FilesystemWrite) (chunk : Bytes) (h : write.Lost)
    (hidle : (Feed.write chunk).Idle write) :
    ∃ next, write.writeChunk file chunk = (.ok (), next) ∧ next.Lost ∧
      next.queuedBytes = write.queuedBytes + chunk.length := by
  simp only [writeChunk, settle_lost write h]
  by_cases hempty : chunk = []
  · rw [if_pos hempty, hempty]
    exact ⟨write, rfl, h, rfl⟩
  · have hless : ¬ writeBatchBytes ≤ write.queuedBytes + chunk.length :=
      Nat.not_le.mpr (hidle.resolve_left hempty)
    rw [if_neg hempty, if_neg hless]
    exact ⟨write.queue chunk, rfl, h, rfl⟩

theorem Feed.act_lost (write : FilesystemWrite) (feed : Feed) (h : write.Lost) :
    (feed.act file write).1 = (if feed.Idle write then .ok () else .error .panicked) ∧
      (feed.act file write).2.Lost := by
  cases feed with
  | write chunk =>
    by_cases hidle : (Feed.write chunk).Idle write
    · obtain ⟨next, hwrite, hlost, -⟩ := writeChunk_idle file write chunk h hidle
      rw [if_pos hidle, act, hwrite]
      exact ⟨rfl, hlost⟩
    · have hne : chunk ≠ [] := fun hempty => hidle (.inl hempty)
      have hfull : writeBatchBytes ≤ write.queuedBytes + chunk.length :=
        Nat.not_lt.mp fun hless => hidle (.inr hless)
      rw [if_neg hidle, act, writeChunk_full file write chunk h hne hfull]
      exact ⟨rfl, h⟩
  | flush =>
    simp only [act, FilesystemWrite.flush, settle_lost write h, startBatch, h.1]
    exact ⟨rfl, h⟩

theorem told_ne_panicked {α : Type} (answer : Except Str α) :
    answer.mapError WriteFault.io ≠ .error .panicked := by
  intro h
  cases answer with
  | error message => cases h
  | ok result => cases h

theorem Closing.act_keeps (write : FilesystemWrite) (closing : Closing) (h : write.Keeps) :
    closing.act file write ≠ .error .panicked := by
  rcases settle_keeps write h with ⟨pending, hsettle⟩ | ⟨message, lost, hsettle, hlost⟩
  · cases closing with
    | finish =>
      simp only [act, FilesystemWrite.finish, hsettle]
      cases pending.writeAll file write.queued with
      | error message => exact nofun
      | ok stage =>
        intro h
        refine told_ne_panicked (stage.finish file) ?_
        cases hfinish : (stage.finish file).mapError WriteFault.io with
        | error fault =>
          dsimp only at h
          rw [hfinish] at h
          exact congrArg _ (Except.error.inj h)
        | ok hashed =>
          dsimp only at h
          rw [hfinish] at h
          cases h
    | abort =>
      simp only [act, FilesystemWrite.abort, hsettle]
      exact told_ne_panicked (pending.abort file)
  · cases closing with
    | finish =>
      simp only [act, FilesystemWrite.finish, hsettle]
      exact nofun
    | abort =>
      simp only [act, FilesystemWrite.abort, hsettle]
      exact nofun

theorem Closing.act_lost (write : FilesystemWrite) (closing : Closing) (h : write.Lost) :
    closing.act file write = .error .panicked := by
  cases closing with
  | finish => rw [act, write.finish_lost file h, Except.map]
  | abort => exact write.abort_lost file h

theorem fed_lost (write : FilesystemWrite) (h : write.Lost) (feeds : List Feed) :
    (write.fed file feeds).Lost := by
  induction feeds generalizing write with
  | nil => exact h
  | cons feed feeds ih => exact ih _ (feed.act_lost file write h).2

theorem fed_keeps_or_lost (write : FilesystemWrite) (h : write.Keeps) (feeds : List Feed) :
    (write.fed file feeds).Keeps ∨ (write.fed file feeds).Lost := by
  induction feeds generalizing write with
  | nil => exact .inl h
  | cons feed feeds ih =>
    rcases feed.act_keeps file write h with ⟨-, hnext⟩ | ⟨message, -, hnext⟩
    · exact ih _ hnext
    · exact .inr (fed_lost file _ hnext feeds)

theorem writeAll_hashed (pending last : PendingBlob) (chunks : List Bytes)
    (h : pending.writeAll file chunks = .ok last) : last.hashed = pending.hashed ++ chunks.flatten := by
  induction chunks generalizing pending with
  | nil =>
    cases h
    rw [List.flatten_nil, List.append_nil]
  | cons chunk chunks ih =>
    simp only [PendingBlob.writeAll, List.foldlM_cons] at h
    unfold PendingBlob.write PendingBlob.call at h
    cases hcall : file pending.calls with
    | some message =>
      rw [hcall] at h
      cases h
    | none =>
      rw [hcall] at h
      rw [ih _ h, List.flatten_cons, List.append_assoc]

structure FilesystemWrite.Holds (write : FilesystemWrite) (bytes : Bytes) : Prop where
  stage : ∀ pending, write.pending = some pending →
    pending.hashed ++ write.queued.flatten = bytes
  batch : ∀ pending, write.task = some (.ok pending) →
    pending.hashed ++ write.queued.flatten = bytes

def Feed.bytes : Feed → Bytes
  | .write chunk => chunk
  | .flush => []

theorem settle_holds (write : FilesystemWrite) (bytes : Bytes)
    (h : write.Holds bytes) (pending : PendingBlob)
    (hsettle : write.settle = (.ok (), ⟨some pending, none, write.queued, write.queuedBytes⟩)) :
    pending.hashed ++ write.queued.flatten = bytes := by
  unfold settle at hsettle
  split at hsettle
  · have heq := congrArg (fun pair => pair.2.pending) hsettle
    exact h.stage pending heq
  · rename_i stage htask
    cases hsettle
    exact h.batch pending htask
  · cases hsettle

theorem startBatch_holds (pending : PendingBlob) (queued : List Bytes) (queuedBytes : Nat)
    (flush : Bool) :
    (startBatch file ⟨some pending, none, queued, queuedBytes⟩ flush).2.Holds
      (pending.hashed ++ queued.flatten) := by
  refine ⟨nofun, fun last hlast => ?_⟩
  have hbatch : FilesystemWrite.batch file pending queued flush = .ok last := Option.some.inj hlast
  have hhashed : last.hashed = pending.hashed ++ queued.flatten := by
    unfold FilesystemWrite.batch at hbatch
    cases hall : pending.writeAll file queued with
    | error message =>
      rw [hall] at hbatch
      cases hbatch
    | ok written =>
      rw [hall] at hbatch
      rw [← writeAll_hashed file pending written queued hall]
      cases flush with
      | false =>
        cases hbatch
        rfl
      | true =>
        have hflush : written.call file = .ok last := hbatch
        unfold PendingBlob.call at hflush
        split at hflush
        · cases hflush
        · cases hflush
          rfl
  show last.hashed ++ [].flatten = pending.hashed ++ queued.flatten
  rw [List.flatten_nil, List.append_nil, hhashed]

theorem Feed.act_holds (write : FilesystemWrite) (feed : Feed) (bytes : Bytes)
    (hkeeps : write.Keeps) (h : write.Holds bytes) (hok : (feed.act file write).1 = .ok ()) :
    (feed.act file write).2.Holds (bytes ++ feed.bytes) := by
  rcases settle_keeps write hkeeps with ⟨pending, hsettle⟩ | ⟨message, lost, hsettle, -⟩
  · have hbytes := settle_holds write bytes h pending hsettle
    cases feed with
    | write chunk =>
      simp only [act, writeChunk, hsettle, Feed.bytes]
      split
      · rename_i hempty
        refine ⟨fun stage hstage => ?_, nofun⟩
        cases hstage
        rw [hempty, List.append_nil]
        exact hbytes
      · have hqueued : pending.hashed ++ (write.queued ++ [chunk]).flatten = bytes ++ chunk := by
          rw [List.flatten_append, List.flatten_singleton, ← List.append_assoc, hbytes]
        split
        · rw [← hqueued]
          exact startBatch_holds file pending _ _ false
        · refine ⟨fun stage hstage => ?_, nofun⟩
          cases hstage
          exact hqueued
    | flush =>
      have hstarted := startBatch_holds file pending write.queued write.queuedBytes true
      simp only [act, flush_settled file write pending hsettle] at hok ⊢
      rw [Feed.bytes, List.append_nil, ← hbytes]
      cases hbatch : FilesystemWrite.batch file pending write.queued true with
      | error message =>
        rw [hbatch] at hok
        cases hok
      | ok stage =>
        refine ⟨fun other hother => ?_, nofun⟩
        cases hother
        exact hstarted.batch stage (congrArg some hbatch)
  · cases feed with
    | write chunk =>
      simp only [act, writeChunk, hsettle] at hok
      cases hok
    | flush =>
      simp only [act, FilesystemWrite.flush, hsettle] at hok
      cases hok

theorem fed_holds (write : FilesystemWrite) (bytes : Bytes) (hkeeps : write.Keeps)
    (h : write.Holds bytes) (feeds : List Feed) (hlast : (write.fed file feeds).Keeps) :
    (write.fed file feeds).Holds (bytes ++ feeds.flatMap Feed.bytes) := by
  induction feeds generalizing write bytes with
  | nil =>
    rw [List.flatMap_nil, List.append_nil]
    exact h
  | cons feed feeds ih =>
    rcases feed.act_keeps file write hkeeps with ⟨hok, hnext⟩ | ⟨message, -, hnext⟩
    · rw [List.flatMap_cons, ← List.append_assoc]
      exact ih _ _ hnext (feed.act_holds file write bytes hkeeps h hok) hlast
    · exact absurd (fed_lost file _ hnext feeds) hlast.not_lost

theorem finish_stages (feeds : List Feed) (staged : Bytes)
    (h : (begin.fed file feeds).finish file = .ok staged) : staged = feeds.flatMap Feed.bytes := by
  rcases fed_keeps_or_lost file begin keeps_begin feeds with hkeeps | hlost
  · have hholds := fed_holds file begin [] keeps_begin ⟨fun _ h => by cases h; rfl, nofun⟩ feeds hkeeps
    rcases settle_keeps _ hkeeps with ⟨pending, hsettle⟩ | ⟨message, lost, hsettle, -⟩
    · have hbytes := settle_holds _ _ hholds pending hsettle
      unfold FilesystemWrite.finish at h
      rw [hsettle] at h
      dsimp only at h
      cases hall : pending.writeAll file (begin.fed file feeds).queued with
      | error message =>
        rw [hall] at h
        cases h
      | ok written =>
        rw [hall] at h
        dsimp only at h
        rw [← List.nil_append (feeds.flatMap _), ← hbytes, ← writeAll_hashed file _ _ _ hall]
        unfold PendingBlob.finish PendingBlob.call at h
        cases hfirst : file written.calls with
        | some message =>
          rw [hfirst] at h
          cases h
        | none =>
          rw [hfirst] at h
          dsimp only [bind, Except.bind] at h
          cases hsecond : file (written.calls + 1) with
          | some message =>
            rw [hsecond] at h
            cases h
          | none =>
            rw [hsecond] at h
            cases h
            rfl
    · unfold FilesystemWrite.finish at h
      rw [hsettle] at h
      cases h
  · have hpanic := Closing.finish.act_lost file _ hlost
    simp only [Closing.act, h] at hpanic
    cases hpanic

theorem finish_stages_halves : str "wheel" =
    [Feed.write (str "wh"), .flush, .write (str "eel")].flatMap Feed.bytes :=
  finish_stages (fun _ => none) _ (str "wheel") (by decide)

end Stages
end Peryx.Storage
