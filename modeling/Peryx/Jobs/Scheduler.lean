import Mathlib.Data.Finset.Basic
import Peryx.Core.Text
import Peryx.Library.Permits

/-!
# The node-local job scheduler

A submission takes a key of the in-flight set and a queue slot, and spawns a task that
acquires a worker, a kind and a repository permit, executes the job, gives the key back and
drops its permits in the reverse order. The submissions and the tasks run on several
threads, so each access to shared state is a step of its own.
-/

namespace Peryx.Jobs

structure JobLimits where
  workers : Nat
  queue : Nat
  perKind : Nat
  perRepository : Nat
  workers_pos : 0 < workers
  queue_pos : 0 < queue
  perKind_pos : 0 < perKind
  perRepository_pos : 0 < perRepository

def JobLimits.nodeLocal : JobLimits := ⟨4, 128, 4, 1, by decide, by decide, by decide, by decide⟩

inductive Submit | queued | conflict | queueFull | shuttingDown
deriving DecidableEq, Repr

inductive JobKind | cacheRefresh
deriving DecidableEq, Repr

structure NodeJob where
  kind : Str
  scope : Str
  persistAs : Option JobKind
deriving DecidableEq

def conflictKey (kind scope : Str) : Str := kind ++ 0 :: scope

def NodeJob.key (job : NodeJob) : Str := conflictKey job.kind job.scope

structure JobReport where
  processed : Nat
  changed : Nat
deriving DecidableEq

inductive Outcome | succeeded | failed | cancelled
deriving DecidableEq, Repr

inductive Reject | conflict | queueFull
deriving DecidableEq, Repr

structure KindCounters where
  started : Nat := 0
  succeeded : Nat := 0
  failed : Nat := 0
  cancelled : Nat := 0
  conflict : Nat := 0
  queueFull : Nat := 0
  running : Int := 0
deriving DecidableEq

abbrev JobMetrics := Table Str KindCounters

namespace JobMetrics

def edit (metrics : JobMetrics) (kind : Str) (f : KindCounters → KindCounters) : JobMetrics :=
  metrics.insert kind (f (metrics[kind]?.getD {}))

def started (metrics : JobMetrics) (kind : Str) : JobMetrics :=
  edit metrics kind fun c => { c with started := c.started + 1, running := c.running + 1 }

def finished (metrics : JobMetrics) (kind : Str) (outcome : Outcome) : JobMetrics :=
  edit metrics kind fun c =>
    let c := { c with running := c.running - 1 }
    match outcome with
    | .succeeded => { c with succeeded := c.succeeded + 1 }
    | .failed => { c with failed := c.failed + 1 }
    | .cancelled => { c with cancelled := c.cancelled + 1 }

def rejected (metrics : JobMetrics) (kind : Str) : Reject → JobMetrics
  | .conflict => edit metrics kind fun c => { c with conflict := c.conflict + 1 }
  | .queueFull => edit metrics kind fun c => { c with queueFull := c.queueFull + 1 }

end JobMetrics

inductive JobState | running | succeeded | failed
deriving DecidableEq, Repr

structure JobRunRecord where
  kind : JobKind
  scope : Str
  state : JobState
  startedAtUnix : Int
  finishedAtUnix : Option Int
  itemsProcessed : Nat
  itemsChanged : Nat
  error : Option Str
deriving DecidableEq

structure JobRuns where
  serial : Nat
  records : Table Nat JobRunRecord

def JobRuns.startJobRun (runs : JobRuns) (kind : JobKind) (scope : Str) (now : Int) : JobRuns × Nat :=
  let next := runs.serial + 1
  (⟨next, runs.records.insert next ⟨kind, scope, .running, now, none, 0, 0, none⟩⟩, next)

def JobRuns.finishJobRun (runs : JobRuns) (id : Nat) (result : Except Str JobReport) (now : Int) :
    JobRuns :=
  match runs.records[id]? with
  | none => runs
  | some record =>
    let record := { record with finishedAtUnix := some now }
    { runs with records := runs.records.insert id <| match result with
        | .ok report => { record with
            state := .succeeded, itemsProcessed := report.processed,
            itemsChanged := report.changed, error := none }
        | .error message => { record with
            state := .failed, itemsProcessed := 0, itemsChanged := 0, error := some message } }

inductive Phase
  /-- `submit` has seen no cancellation. -/
  | submitted
  | keyed
  | overfull
  | queued
  | staffed
  | classed
  /-- All permits held, `execute` not entered. -/
  | ready
  /-- In `NodeJob::run`, under its durable run if it records one. -/
  | running (record : Option Nat)
  /-- `execute` has returned. -/
  | executed
  | leaving
  | leftRepository
  | leftKind
  | leftWorker
deriving DecidableEq

namespace Phase

@[simp] def holdsKey : Phase → Bool
  | keyed | overfull | queued | staffed | classed | ready | running _ | executed => true
  | _ => false

@[simp] def holdsSlot : Phase → Bool
  | submitted | keyed | overfull => false
  | _ => true

@[simp] def holdsWorker : Phase → Bool
  | staffed | classed | ready | running _ | executed | leaving | leftRepository | leftKind => true
  | _ => false

@[simp] def holdsKind : Phase → Bool
  | classed | ready | running _ | executed | leaving | leftRepository => true
  | _ => false

@[simp] def holdsRepository : Phase → Bool
  | ready | running _ | executed | leaving => true
  | _ => false

def admitted : Phase → Bool
  | queued | staffed | classed | ready | running _ | executed => true
  | _ => false

def deciding : Phase → Bool
  | keyed | overfull => true
  | _ => false

def executing : Phase → Bool
  | ready | running _ | executed => true
  | _ => false

@[simp] def remaining : Phase → Nat
  | submitted => 13
  | keyed => 12
  | overfull => 1
  | queued => 11
  | staffed => 10
  | classed => 9
  | ready => 8
  | running _ => 7
  | executed => 6
  | leaving => 5
  | leftRepository => 4
  | leftKind => 3
  | leftWorker => 2

end Phase

structure Run where
  job : NodeJob
  phase : Phase
deriving DecidableEq

structure Admission where
  inflight : Finset Str
  queue : Nat
  workers : Nat
  perKind : Limiter Str
  perRepository : Limiter Str
  runs : Table Nat Run

structure State where
  admission : Admission
  cancelled : Bool
  metrics : JobMetrics
  jobRuns : JobRuns
  /-- The answer each `submit` call has returned. -/
  answers : Table Nat Submit
  next : Nat

def start (limits : JobLimits) : State where
  admission := {
    inflight := ∅, queue := limits.queue, workers := limits.workers,
    perKind := .new limits.perKind, perRepository := .new limits.perRepository, runs := ∅ }
  cancelled := false
  metrics := ∅
  jobRuns := ⟨0, ∅⟩
  answers := ∅
  next := 0

inductive Event
  | submit (job : NodeJob)
  | insertKey (id : Nat)
  | tryAcquireSlot (id : Nat)
  | removeRefusedKey (id : Nat)
  | acquireWorker (id : Nat)
  | acquireKind (id : Nat)
  | acquireRepository (id : Nat)
  /-- `execute` up to the job's `run`; `opened` tells whether the store wrote the durable run. -/
  | start (id : Nat) (opened : Bool) (now : Int)
  /-- The job's `run` returns; `closed` tells whether the store wrote its outcome. -/
  | finish (id : Nat) (result : Except Str JobReport) (closed : Bool) (now : Int)
  | panic (id : Nat)
  | removeKey (id : Nat)
  | dropRepository (id : Nat)
  | dropKind (id : Nat)
  | dropWorker (id : Nat)
  | dropSlot (id : Nat)
  | cancel

namespace Event

def owner : Event → Option Nat
  | insertKey id | tryAcquireSlot id | removeRefusedKey id | acquireWorker id | acquireKind id
  | acquireRepository id | start id _ _ | finish id _ _ _ | panic id | removeKey id
  | dropRepository id | dropKind id | dropWorker id | dropSlot id => some id
  | submit _ | cancel => none

def isPanic : Event → Bool
  | panic _ => true
  | _ => false

end Event

namespace Admission

def runAt (a : Admission) (id : Nat) (phase : Phase) : Option Run :=
  a.runs[id]?.filter fun run => run.phase = phase

def put (a : Admission) (id : Nat) (run : Run) (phase : Phase) : Admission :=
  { a with runs := a.runs.insert id ⟨run.job, phase⟩ }

def drop (a : Admission) (id : Nat) : Admission := { a with runs := a.runs.erase id }

end Admission

namespace State

def refuse (s : State) (id : Nat) (run : Run) (reason : Reject) : State :=
  { s with
    admission := s.admission.drop id
    metrics := JobMetrics.rejected s.metrics run.job.kind reason
    answers := s.answers.insert id <| match reason with
      | .conflict => .conflict
      | .queueFull => .queueFull }

end State

def beginExecute (s : State) (id : Nat) (run : Run) (opened : Bool) (now : Int) : State :=
  let kind := run.job.kind
  let s := { s with metrics := JobMetrics.started s.metrics kind }
  let ended (outcome : Outcome) : State :=
    { s with
      metrics := JobMetrics.finished s.metrics kind outcome
      admission := s.admission.put id run .executed }
  if s.cancelled then ended .cancelled
  else match run.job.persistAs with
    | none => { s with admission := s.admission.put id run (.running none) }
    | some durable =>
      if opened then
        let (jobRuns, record) := s.jobRuns.startJobRun durable run.job.scope now
        { s with jobRuns, admission := s.admission.put id run (.running (some record)) }
      else ended .failed

def outcomeOf (cancelled : Bool) (record : Option Nat) (result : Except Str JobReport)
    (closed : Bool) : Outcome :=
  if record.isSome && !closed then .failed
  else match result with
    | .ok _ => if cancelled then .cancelled else .succeeded
    | .error _ => .failed

def finishExecute (s : State) (id : Nat) (run : Run) (record : Option Nat)
    (result : Except Str JobReport) (closed : Bool) (now : Int) : State :=
  { s with
    jobRuns := match record with
      | some row => if closed then s.jobRuns.finishJobRun row result now else s.jobRuns
      | none => s.jobRuns
    metrics := JobMetrics.finished s.metrics run.job.kind (outcomeOf s.cancelled record result closed)
    admission := s.admission.put id run .executed }

def step (s : State) : Event → Option State
  | .submit job =>
    if s.cancelled then
      some { s with answers := s.answers.insert s.next .shuttingDown, next := s.next + 1 }
    else
      some { s with admission := s.admission.put s.next ⟨job, .submitted⟩ .submitted, next := s.next + 1 }
  | .insertKey id => do
    let run ← s.admission.runAt id .submitted
    if run.job.key ∈ s.admission.inflight then
      some (s.refuse id run .conflict)
    else
      let a := s.admission.put id run .keyed
      some { s with admission := { a with inflight := insert run.job.key a.inflight } }
  | .tryAcquireSlot id => do
    let run ← s.admission.runAt id .keyed
    if s.admission.queue = 0 then
      some { s with admission := s.admission.put id run .overfull }
    else
      let a := s.admission.put id run .queued
      some { s with
        admission := { a with queue := a.queue - 1 }, answers := s.answers.insert id .queued }
  | .removeRefusedKey id => do
    let run ← s.admission.runAt id .overfull
    let s := s.refuse id run .queueFull
    some { s with admission := { s.admission with
      inflight := s.admission.inflight.erase run.job.key } }
  | .acquireWorker id => do
    let run ← s.admission.runAt id .queued
    if s.admission.workers = 0 then none
    else
      let a := s.admission.put id run .staffed
      some { s with admission := { a with workers := a.workers - 1 } }
  | .acquireKind id => do
    let run ← s.admission.runAt id .staffed
    let perKind ← s.admission.perKind.acquire run.job.kind
    some { s with admission := { s.admission.put id run .classed with perKind } }
  | .acquireRepository id => do
    let run ← s.admission.runAt id .classed
    let perRepository ← s.admission.perRepository.acquire run.job.scope
    some { s with admission := { s.admission.put id run .ready with perRepository } }
  | .start id opened now => do
    let run ← s.admission.runAt id .ready
    some (beginExecute s id run opened now)
  | .finish id result closed now => do
    let run ← s.admission.runs[id]?
    match run.phase with
    | .running record => some (finishExecute s id run record result closed now)
    | _ => none
  | .panic id => do
    let run ← s.admission.runs[id]?
    match run.phase with
    | .running _ => some { s with admission := s.admission.put id run .leaving }
    | _ => none
  | .removeKey id => do
    let run ← s.admission.runAt id .executed
    let a := s.admission.put id run .leaving
    some { s with admission := { a with inflight := a.inflight.erase run.job.key } }
  | .dropRepository id => do
    let run ← s.admission.runAt id .leaving
    let a := s.admission.put id run .leftRepository
    some { s with admission := { a with perRepository := a.perRepository.release run.job.scope } }
  | .dropKind id => do
    let run ← s.admission.runAt id .leftRepository
    let a := s.admission.put id run .leftKind
    some { s with admission := { a with perKind := a.perKind.release run.job.kind } }
  | .dropWorker id => do
    let run ← s.admission.runAt id .leftKind
    let a := s.admission.put id run .leftWorker
    some { s with admission := { a with workers := a.workers + 1 } }
  | .dropSlot id => do
    let _ ← s.admission.runAt id .leftWorker
    let a := s.admission.drop id
    some { s with admission := { a with queue := a.queue + 1 } }
  | .cancel => some { s with cancelled := true }

/-- Any interleaving of the submissions, the tasks and the shutdown. -/
def run (s : State) : List Event → Option State
  | [] => some s
  | event :: rest => (step s event).bind (run · rest)

end Peryx.Jobs

/-!
## Who holds what

Every permit and every key is either free or held by a run in a phase that holds it. One
step moves one run from one phase to the next and the permits with it, so the balance of
free and held survives every interleaving. Only the unwinding of a job that panicked
leaves something behind: its key.
-/

namespace Peryx.Jobs

namespace Run

@[simp] def slots (run : Run) : Nat := if run.phase.holdsSlot then 1 else 0

@[simp] def workers (run : Run) : Nat := if run.phase.holdsWorker then 1 else 0

@[simp] def kinds (kind : Str) (run : Run) : Nat :=
  if run.phase.holdsKind ∧ kind = run.job.kind then 1 else 0

@[simp] def repositories (scope : Str) (run : Run) : Nat :=
  if run.phase.holdsRepository ∧ scope = run.job.scope then 1 else 0

@[simp] def keys (key : Str) (run : Run) : Nat := if run.phase.holdsKey ∧ key = run.job.key then 1 else 0

end Run

def held (weight : Run → Nat) : Option Run → Nat
  | some run => weight run
  | none => 0

@[simp] theorem held_some (weight : Run → Nat) (run : Run) : held weight (some run) = weight run := rfl

@[simp] theorem held_none (weight : Run → Nat) : held weight none = 0 := rfl

def marked (inflight : Finset Str) (key : Str) : Nat := if key ∈ inflight then 1 else 0

theorem marked_insert (inflight : Finset Str) (added key : Str) (h : added ∉ inflight) :
    marked (insert added inflight) key = marked inflight key + if key = added then 1 else 0 := by
  by_cases hkey : key = added
  · simp [marked, hkey, h]
  · simp [marked, hkey]

theorem marked_erase (inflight : Finset Str) (removed key : Str) (h : removed ∈ inflight) :
    marked (inflight.erase removed) key + (if key = removed then 1 else 0) = marked inflight key := by
  by_cases hkey : key = removed
  · simp [marked, hkey, h]
  · simp [marked, hkey]

namespace Admission

def holding (a : Admission) (weight : Run → Nat) : Nat := a.runs.total fun _ run => weight run

theorem holding_set (a a' : Admission) (id : Nat) (row : Option Run) (weight : Run → Nat)
    (h : a'.runs = a.runs.set id row) :
    a'.holding weight + held weight a.runs[id]? = a.holding weight + held weight row := by
  have hsum := Table.total_set (fun _ run => weight run) a.runs id row
  unfold holding
  rw [h]
  cases hrow : a.runs[id]? <;> cases row <;> rw [hrow] at hsum <;> exact hsum

theorem le_holding (a : Admission) (id : Nat) (run : Run) (weight : Run → Nat)
    (h : a.runs[id]? = some run) : weight run ≤ a.holding weight := by
  have hle := Table.contribution_le_total (fun _ run => weight run) a.runs id
  rw [h] at hle
  exact hle

theorem runAt_eq_some (a : Admission) (id : Nat) (phase : Phase) (run : Run) :
    a.runAt id phase = some run ↔ a.runs[id]? = some run ∧ run.phase = phase := by
  simp [runAt, Option.filter_eq_some_iff]

end Admission

structure Balanced (limits : JobLimits) (leaked : Str → Nat) (a : Admission) : Prop where
  queue : a.queue + a.holding Run.slots = limits.queue
  workers : a.workers + a.holding Run.workers = limits.workers
  perKind : a.perKind.Balanced fun kind => a.holding (Run.kinds kind)
  perKind_capacity : a.perKind.capacity = limits.perKind
  perRepository : a.perRepository.Balanced fun scope => a.holding (Run.repositories scope)
  perRepository_capacity : a.perRepository.capacity = limits.perRepository
  inflight : ∀ key, marked a.inflight key = a.holding (Run.keys key) + leaked key

theorem Balanced.start (limits : JobLimits) : Balanced limits (fun _ => 0) (start limits).admission where
  queue := by simp [Jobs.start, Admission.holding]
  workers := by simp [Jobs.start, Admission.holding]
  perKind := Limiter.balanced_new _ _ fun kind => by simp [Jobs.start, Admission.holding]
  perKind_capacity := rfl
  perRepository := Limiter.balanced_new _ _ fun scope => by simp [Jobs.start, Admission.holding]
  perRepository_capacity := rfl
  inflight := fun key => by simp [Jobs.start, Admission.holding, marked]

structure Moved (a a' : Admission) (before after : Option Run) (leak : Str → Nat) : Prop where
  queue : a'.queue + held Run.slots after = a.queue + held Run.slots before
  workers : a'.workers + held Run.workers after = a.workers + held Run.workers before
  perKind : ∀ kind, a'.perKind.available kind + held (Run.kinds kind) after =
    a.perKind.available kind + held (Run.kinds kind) before
  perKind_capacity : a'.perKind.capacity = a.perKind.capacity
  perRepository : ∀ scope, a'.perRepository.available scope + held (Run.repositories scope) after =
    a.perRepository.available scope + held (Run.repositories scope) before
  perRepository_capacity : a'.perRepository.capacity = a.perRepository.capacity
  inflight : ∀ key, marked a'.inflight key + held (Run.keys key) before =
    marked a.inflight key + held (Run.keys key) after + leak key

theorem Balanced.moved (limits : JobLimits) (leaked leak : Str → Nat) (a a' : Admission) (id : Nat)
    (after : Option Run) (h : Balanced limits leaked a) (hruns : a'.runs = a.runs.set id after)
    (hmoved : Moved a a' a.runs[id]? after leak) :
    Balanced limits (fun key => leaked key + leak key) a' where
  queue := by
    have h1 := h.queue
    have h2 := hmoved.queue
    have h3 := Admission.holding_set a a' id after Run.slots hruns
    omega
  workers := by
    have h1 := h.workers
    have h2 := hmoved.workers
    have h3 := Admission.holding_set a a' id after Run.workers hruns
    omega
  perKind := h.perKind.move _ _ _ _ _ _ hmoved.perKind_capacity hmoved.perKind fun kind =>
    Admission.holding_set a a' id after (Run.kinds kind) hruns
  perKind_capacity := hmoved.perKind_capacity.trans h.perKind_capacity
  perRepository := h.perRepository.move _ _ _ _ _ _ hmoved.perRepository_capacity
    hmoved.perRepository fun scope =>
      Admission.holding_set a a' id after (Run.repositories scope) hruns
  perRepository_capacity := hmoved.perRepository_capacity.trans h.perRepository_capacity
  inflight := by
    intro key
    have h1 := h.inflight key
    have h2 := hmoved.inflight key
    have h3 := Admission.holding_set a a' id after (Run.keys key) hruns
    omega

theorem Balanced.mem_inflight (limits : JobLimits) (leaked : Str → Nat) (a : Admission) (id : Nat)
    (run : Run) (h : Balanced limits leaked a) (hrun : a.runs[id]? = some run)
    (hphase : run.phase.holdsKey = true) : run.job.key ∈ a.inflight := by
  have hle := a.le_holding id run (Run.keys run.job.key) hrun
  have hmarked := h.inflight run.job.key
  by_contra hnot
  simp only [marked, hnot, if_false] at hmarked
  simp only [Run.keys, hphase, and_self, if_true] at hle
  omega

def Event.leak (s : State) (key : Str) : Event → Nat
  | .panic id => if s.admission.runs[id]?.map (·.job.key) = some key then 1 else 0
  | _ => 0

structure Moves (s s' : State) (id : Nat) (leak : Str → Nat) : Prop where
  next : s'.next = s.next
  rows : ∃ after, s'.admission.runs = s.admission.runs.set id after ∧
    Moved s.admission s'.admission s.admission.runs[id]? after leak ∧
    held (·.phase.remaining) after < held (·.phase.remaining) s.admission.runs[id]?

theorem runAt_bind (a : Admission) (id : Nat) (phase : Phase) (f : Run → Option State) (s' : State)
    (h : (a.runAt id phase).bind f = some s') :
    ∃ run, a.runs[id]? = some run ∧ run.phase = phase ∧ f run = some s' := by
  obtain ⟨run, hrun, hf⟩ := Option.bind_eq_some_iff.mp h
  obtain ⟨hrow, hphase⟩ := (a.runAt_eq_some id phase run).mp hrun
  exact ⟨run, hrow, hphase, hf⟩

section Steps
variable (limits : JobLimits) (leaked : Str → Nat) (s s' : State) (id : Nat)

theorem insertKey_moves (h : step s (.insertKey id) = some s') : Moves s s' id fun _ => 0 := by
  obtain ⟨run, hrun, hphase, h⟩ := runAt_bind _ _ _ _ _ h
  split at h
  · obtain rfl := Option.some.inj h
    refine ⟨rfl, none, rfl, ?_, ?_⟩
    · constructor <;> simp [hrun, hphase, State.refuse, Admission.drop]
    · simp [hrun, hphase]
  · rename_i hnew
    obtain rfl := Option.some.inj h
    refine ⟨rfl, some ⟨run.job, .keyed⟩, rfl, ?_, ?_⟩
    · constructor <;> simp [hrun, hphase, Admission.put, marked_insert _ _ _ hnew]
    · simp [hrun, hphase]

theorem tryAcquireSlot_moves (h : step s (.tryAcquireSlot id) = some s') :
    Moves s s' id fun _ => 0 := by
  obtain ⟨run, hrun, hphase, h⟩ := runAt_bind _ _ _ _ _ h
  split at h
  · obtain rfl := Option.some.inj h
    refine ⟨rfl, some ⟨run.job, .overfull⟩, rfl, ?_, ?_⟩
    · constructor <;> simp [hrun, hphase, Admission.put]
    · simp [hrun, hphase]
  · rename_i hfree
    obtain rfl := Option.some.inj h
    refine ⟨rfl, some ⟨run.job, .queued⟩, rfl, ?_, ?_⟩
    · constructor <;> simp [hrun, hphase, Admission.put]
      omega
    · simp [hrun, hphase]

theorem removeRefusedKey_moves (hbal : Balanced limits leaked s.admission)
    (h : step s (.removeRefusedKey id) = some s') : Moves s s' id fun _ => 0 := by
  obtain ⟨run, hrun, hphase, h⟩ := runAt_bind _ _ _ _ _ h
  have hmem := hbal.mem_inflight limits leaked s.admission id run hrun (by rw [hphase]; rfl)
  obtain rfl := Option.some.inj h
  refine ⟨rfl, none, rfl, ?_, ?_⟩
  · constructor <;> simp [hrun, hphase, State.refuse, Admission.drop, marked_erase _ _ _ hmem]
  · simp [hrun, hphase]

theorem acquireWorker_moves (h : step s (.acquireWorker id) = some s') :
    Moves s s' id fun _ => 0 := by
  obtain ⟨run, hrun, hphase, h⟩ := runAt_bind _ _ _ _ _ h
  split at h
  · exact absurd h (Option.some_ne_none _ ∘ Eq.symm)
  · rename_i hfree
    obtain rfl := Option.some.inj h
    refine ⟨rfl, some ⟨run.job, .staffed⟩, rfl, ?_, ?_⟩
    · constructor <;> simp [hrun, hphase, Admission.put]
      omega
    · simp [hrun, hphase]

theorem acquireKind_moves (h : step s (.acquireKind id) = some s') : Moves s s' id fun _ => 0 := by
  obtain ⟨run, hrun, hphase, h⟩ := runAt_bind _ _ _ _ _ h
  obtain ⟨perKind, hacquire, h⟩ := Option.bind_eq_some_iff.mp h
  obtain ⟨hcapacity, hfree⟩ := Limiter.available_acquire _ _ _ hacquire
  obtain rfl := Option.some.inj h
  refine ⟨rfl, some ⟨run.job, .classed⟩, rfl, ?_, ?_⟩
  · constructor <;> simp [hrun, hphase, Admission.put, hcapacity, hfree]
  · simp [hrun, hphase]

theorem acquireRepository_moves (h : step s (.acquireRepository id) = some s') :
    Moves s s' id fun _ => 0 := by
  obtain ⟨run, hrun, hphase, h⟩ := runAt_bind _ _ _ _ _ h
  obtain ⟨perRepository, hacquire, h⟩ := Option.bind_eq_some_iff.mp h
  obtain ⟨hcapacity, hfree⟩ := Limiter.available_acquire _ _ _ hacquire
  obtain rfl := Option.some.inj h
  refine ⟨rfl, some ⟨run.job, .ready⟩, rfl, ?_, ?_⟩
  · constructor <;> simp [hrun, hphase, Admission.put, hcapacity, hfree]
  · simp [hrun, hphase]

theorem beginExecute_admission (run : Run) (opened : Bool) (now : Int) :
    (beginExecute s id run opened now).next = s.next ∧
      ∃ phase, (beginExecute s id run opened now).admission = s.admission.put id run phase ∧
        (phase = .executed ∨ ∃ record, phase = .running record) := by
  unfold beginExecute
  dsimp only
  split
  · exact ⟨rfl, _, rfl, Or.inl rfl⟩
  · split
    · exact ⟨rfl, _, rfl, Or.inr ⟨_, rfl⟩⟩
    · split
      · exact ⟨rfl, _, rfl, Or.inr ⟨_, rfl⟩⟩
      · exact ⟨rfl, _, rfl, Or.inl rfl⟩

theorem start_moves (opened : Bool) (now : Int) (h : step s (.start id opened now) = some s') :
    Moves s s' id fun _ => 0 := by
  obtain ⟨run, hrun, hphase, h⟩ := runAt_bind _ _ _ _ _ h
  obtain rfl := Option.some.inj h
  obtain ⟨hsame, phase, hadmission, hnext⟩ := beginExecute_admission s id run opened now
  refine ⟨hsame, some ⟨run.job, phase⟩, by rw [hadmission]; rfl, ?_, ?_⟩
  · rw [hadmission]
    obtain rfl | ⟨record, rfl⟩ := hnext <;> constructor <;> simp [hrun, hphase, Admission.put]
  · obtain rfl | ⟨record, rfl⟩ := hnext <;> simp [hrun, hphase]

theorem running_bind (f : Run → Option Nat → Option State)
    (h : (s.admission.runs[id]?).bind (fun run => match run.phase with
      | .running record => f run record
      | _ => none) = some s') :
    ∃ run record, s.admission.runs[id]? = some run ∧ run.phase = .running record ∧
      f run record = some s' := by
  obtain ⟨run, hrun, h⟩ := Option.bind_eq_some_iff.mp h
  split at h
  · rename_i record hphase
    exact ⟨run, record, hrun, hphase, h⟩
  · exact absurd h (Option.some_ne_none _ ∘ Eq.symm)

theorem finish_moves (result : Except Str JobReport) (closed : Bool) (now : Int)
    (h : step s (.finish id result closed now) = some s') : Moves s s' id fun _ => 0 := by
  obtain ⟨run, record, hrun, hphase, h⟩ := running_bind s s' id _ h
  obtain rfl := Option.some.inj h
  refine ⟨rfl, some ⟨run.job, .executed⟩, rfl, ?_, ?_⟩
  · constructor <;> simp [hrun, hphase, finishExecute, Admission.put]
  · simp [hrun, hphase]

theorem panic_moves (h : step s (.panic id) = some s') :
    Moves s s' id fun key => Event.leak s key (.panic id) := by
  obtain ⟨run, record, hrun, hphase, h⟩ := running_bind s s' id _ h
  obtain rfl := Option.some.inj h
  refine ⟨rfl, some ⟨run.job, .leaving⟩, rfl, ?_, ?_⟩
  · constructor <;> simp [hrun, hphase, Event.leak, Admission.put, eq_comm]
  · simp [hrun, hphase]

theorem removeKey_moves (hbal : Balanced limits leaked s.admission)
    (h : step s (.removeKey id) = some s') : Moves s s' id fun _ => 0 := by
  obtain ⟨run, hrun, hphase, h⟩ := runAt_bind _ _ _ _ _ h
  have hmem := hbal.mem_inflight limits leaked s.admission id run hrun (by rw [hphase]; rfl)
  obtain rfl := Option.some.inj h
  refine ⟨rfl, some ⟨run.job, .leaving⟩, rfl, ?_, ?_⟩
  · constructor <;> simp [hrun, hphase, Admission.put, marked_erase _ _ _ hmem]
  · simp [hrun, hphase]

theorem dropRepository_moves (h : step s (.dropRepository id) = some s') :
    Moves s s' id fun _ => 0 := by
  obtain ⟨run, hrun, hphase, h⟩ := runAt_bind _ _ _ _ _ h
  obtain rfl := Option.some.inj h
  refine ⟨rfl, some ⟨run.job, .leftRepository⟩, rfl, ?_, ?_⟩
  · constructor <;> simp [hrun, hphase, Admission.put, Limiter.available_release]
    rfl
  · simp [hrun, hphase]

theorem dropKind_moves (h : step s (.dropKind id) = some s') : Moves s s' id fun _ => 0 := by
  obtain ⟨run, hrun, hphase, h⟩ := runAt_bind _ _ _ _ _ h
  obtain rfl := Option.some.inj h
  refine ⟨rfl, some ⟨run.job, .leftKind⟩, rfl, ?_, ?_⟩
  · constructor <;> simp [hrun, hphase, Admission.put, Limiter.available_release]
    rfl
  · simp [hrun, hphase]

theorem dropWorker_moves (h : step s (.dropWorker id) = some s') : Moves s s' id fun _ => 0 := by
  obtain ⟨run, hrun, hphase, h⟩ := runAt_bind _ _ _ _ _ h
  obtain rfl := Option.some.inj h
  refine ⟨rfl, some ⟨run.job, .leftWorker⟩, rfl, ?_, ?_⟩
  · constructor <;> simp [hrun, hphase, Admission.put]
  · simp [hrun, hphase]

theorem dropSlot_moves (h : step s (.dropSlot id) = some s') : Moves s s' id fun _ => 0 := by
  obtain ⟨run, hrun, hphase, h⟩ := runAt_bind _ _ _ _ _ h
  obtain rfl := Option.some.inj h
  refine ⟨rfl, none, rfl, ?_, ?_⟩
  · constructor <;> simp [hrun, hphase, Admission.drop]
  · simp [hrun, hphase]

theorem owned_moves (hbal : Balanced limits leaked s.admission) (event : Event)
    (howner : event.owner = some id) (h : step s event = some s') :
    Moves s s' id fun key => event.leak s key := by
  cases event <;> simp only [Event.owner, Option.some.injEq, reduceCtorEq] at howner <;> subst howner
  case insertKey => exact insertKey_moves s s' _ h
  case tryAcquireSlot => exact tryAcquireSlot_moves s s' _ h
  case removeRefusedKey => exact removeRefusedKey_moves limits leaked s s' _ hbal h
  case acquireWorker => exact acquireWorker_moves s s' _ h
  case acquireKind => exact acquireKind_moves s s' _ h
  case acquireRepository => exact acquireRepository_moves s s' _ h
  case start opened now => exact start_moves s s' _ opened now h
  case finish result closed now => exact finish_moves s s' _ result closed now h
  case panic => exact panic_moves s s' _ h
  case removeKey => exact removeKey_moves limits leaked s s' _ hbal h
  case dropRepository => exact dropRepository_moves s s' _ h
  case dropKind => exact dropKind_moves s s' _ h
  case dropWorker => exact dropWorker_moves s s' _ h
  case dropSlot => exact dropSlot_moves s s' _ h

end Steps

end Peryx.Jobs
