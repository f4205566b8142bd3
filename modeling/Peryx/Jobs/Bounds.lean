import Peryx.Jobs.Scheduler

/-! # What holds in every interleaving -/

namespace Peryx.Jobs

namespace Admission

def count (a : Admission) (p : Run → Bool) : Nat := a.holding fun run => if p run then 1 else 0

def without (a : Admission) (id : Nat) : Admission :=
  match a.runs[id]? with
  | none => a
  | some run =>
    { a with
      runs := a.runs.erase id
      inflight := if run.phase.deciding then a.inflight.erase run.job.key else a.inflight }

end Admission

structure Bounded (limits : JobLimits) (a : Admission) : Prop where
  queue : a.count (fun run => run.phase.admitted) ≤ limits.queue
  workers : a.count (fun run => run.phase.executing) ≤ limits.workers
  perKind : ∀ kind, a.count (fun run => run.phase.executing && run.job.kind == kind) ≤ limits.perKind
  perRepository : ∀ scope,
    a.count (fun run => run.phase.executing && run.job.scope == scope) ≤ limits.perRepository

def Exclusive (a : Admission) : Prop :=
  ∀ (id id' : Nat) (run run' : Run), a.runs[id]? = some run → a.runs[id']? = some run' →
    run.phase.admitted = true → run'.phase.admitted = true →
    run.job.kind = run'.job.kind → run.job.scope = run'.job.scope → id = id'

/-- Some run holds the key: it is admitted and unfinished, or its `submit` has put the key in
and not yet answered. -/
def Admission.Holds (a : Admission) (key : Str) : Prop :=
  ∃ (id : Nat) (run : Run), a.runs[id]? = some run ∧
    (run.phase.admitted = true ∨ run.phase.deciding = true) ∧ run.job.key = key

def Exact (a : Admission) : Prop := ∀ key, key ∈ a.inflight ↔ a.Holds key

/-- A job no run holds the key of is admitted, given a free slot and no shutdown. -/
def Readmits (s : State) : Prop :=
  ∀ job : NodeJob, ¬ s.admission.Holds job.key → s.cancelled = false → 0 < s.admission.queue →
    ∃ s', run s [.submit job, .insertKey s.next, .tryAcquireSlot s.next] = some s' ∧
      s'.answers[s.next]? = some .queued

def Event.submission (s : State) : Event → Option Nat
  | .submit _ => some s.next
  | .insertKey id | .tryAcquireSlot id | .removeRefusedKey id => some id
  | _ => none

def RefusalsUndone (s : State) : Prop :=
  ∀ (event : Event) (s' : State) (id : Nat), event.submission s = some id → step s event = some s' →
    s'.answers[id]? ≠ some .queued → s'.admission.without id = s.admission.without id

def CanStep (s : State) (id : Nat) : Prop :=
  ∃ event s', Event.owner event = some id ∧ step s event = some s'

def Admission.work (a : Admission) : Nat := a.holding (·.phase.remaining)

/-- While there is a run, some phase has one and each run in that phase can go on, whichever
of them its semaphore serves first; and without new submissions the runs come to an end. -/
structure DeadlockFree (s : State) : Prop where
  progress : ∀ (id : Nat) (run : Run), s.admission.runs[id]? = some run →
    ∃ phase, (∃ (other : Nat) (run : Run), s.admission.runs[other]? = some run ∧ run.phase = phase) ∧
      ∀ (other : Nat) (run : Run), s.admission.runs[other]? = some run → run.phase = phase →
        CanStep s other
  terminates : ∀ events s', (∀ event ∈ events, (Event.owner event).isSome = true) →
    run s events = some s' → events.length + s'.admission.work ≤ s.admission.work

def Fresh (s : State) : Prop := ∀ id, s.next ≤ id → s.admission.runs[id]? = none

section Steps
variable (limits : JobLimits) (leaked : Str → Nat) (s s' : State)

theorem submit_balanced (job : NodeJob) (hfresh : Fresh s) (hbal : Balanced limits leaked s.admission)
    (h : step s (.submit job) = some s') : Balanced limits leaked s'.admission := by
  simp only [step] at h
  split at h
  · obtain rfl := Option.some.inj h
    exact hbal
  · obtain rfl := Option.some.inj h
    have hnone := hfresh s.next (Nat.le_refl _)
    refine hbal.moved limits leaked (fun _ => 0) s.admission _ s.next (some ⟨job, .submitted⟩) rfl ?_
    constructor <;> simp [hnone, Admission.put]

theorem step_balanced (event : Event) (hfresh : Fresh s) (hbal : Balanced limits leaked s.admission)
    (h : step s event = some s') :
    Balanced limits (fun key => leaked key + event.leak s key) s'.admission := by
  cases howner : event.owner with
  | some id =>
    obtain ⟨_, after, hruns, hmoved, _⟩ := owned_moves limits leaked s s' id hbal event howner h
    exact hbal.moved limits leaked _ s.admission s'.admission id after hruns hmoved
  | none =>
    cases event <;> simp only [Event.owner, reduceCtorEq] at howner
    case submit job => exact submit_balanced limits leaked s s' job hfresh hbal h
    case cancel =>
      obtain rfl := Option.some.inj h
      exact hbal

theorem step_fresh (event : Event) (hfresh : Fresh s) (hbal : Balanced limits leaked s.admission)
    (h : step s event = some s') : Fresh s' := by
  cases howner : event.owner with
  | some id =>
    obtain ⟨hnext, after, hruns, _, hless⟩ := owned_moves limits leaked s s' id hbal event howner h
    intro other hother
    have hnone := hfresh other (by omega)
    have hne : id ≠ other := by
      intro heq
      rw [heq, hnone] at hless
      exact absurd hless (Nat.not_lt_zero _)
    rw [hruns, Table.getElem?_set_of_ne _ _ _ _ hne]
    exact hnone
  | none =>
    cases event <;> simp only [Event.owner, reduceCtorEq] at howner
    case submit job =>
      simp only [step] at h
      split at h
      · obtain rfl := Option.some.inj h
        intro id hid
        exact hfresh id (Nat.le_of_succ_le hid)
      · obtain rfl := Option.some.inj h
        intro id hid
        have hlt : s.next < id := hid
        exact (Table.getElem?_set_of_ne s.admission.runs s.next id (some _) (by omega)).trans
          (hfresh id (by omega))
    case cancel =>
      obtain rfl := Option.some.inj h
      exact hfresh

end Steps

theorem run_balanced (limits : JobLimits) (events : List Event) (leaked : Str → Nat) (s s' : State)
    (hfresh : Fresh s) (hbal : Balanced limits leaked s.admission) (h : run s events = some s') :
    Fresh s' ∧ ∃ leaked', Balanced limits leaked' s'.admission ∧
      ((∀ key, leaked' key = 0) ↔
        (∀ key, leaked key = 0) ∧ ∀ event ∈ events, event.isPanic = false) := by
  induction events generalizing s leaked with
  | nil =>
    obtain rfl := Option.some.inj h
    exact ⟨hfresh, leaked, hbal, by simp⟩
  | cons event events ih =>
    obtain ⟨t, hstep, hrun⟩ := Option.bind_eq_some_iff.mp h
    obtain ⟨hfresh', leaked', hbal', hiff⟩ := ih _ t
      (step_fresh limits leaked s t event hfresh hbal hstep)
      (step_balanced limits leaked s t event hfresh hbal hstep) hrun
    refine ⟨hfresh', leaked', hbal', hiff.trans ?_⟩
    have hleak : (∀ key, event.leak s key = 0) ↔ event.isPanic = false := by
      cases event <;> simp only [Event.leak, Event.isPanic, implies_true]
      case panic id =>
        obtain ⟨run, record, hrun, _⟩ := running_bind s t id _ hstep
        simp [hrun]
    simp only [Nat.add_eq_zero_iff, forall_and, hleak, List.forall_mem_cons]
    tauto

section Balance
variable (limits : JobLimits) (leaked : Str → Nat) (a : Admission)

theorem count_le (p : Run → Bool) (weight : Run → Nat) (h : ∀ run, p run = true → weight run = 1) :
    a.count p ≤ a.holding weight := by
  refine Table.total_le_total (fun _ run => if p run then 1 else 0) (fun _ run => weight run) a.runs
    fun id run _ => ?_
  split
  · rename_i hp
    rw [h run hp]
  · exact Nat.zero_le _

theorem Balanced.bounded (h : Balanced limits leaked a) : Bounded limits a where
  queue := by
    have hle := count_le a (fun run => run.phase.admitted) Run.slots fun run hp => by
      cases hphase : run.phase <;> simp_all [Phase.admitted]
    have hsum := h.queue
    omega
  workers := by
    have hle := count_le a (fun run => run.phase.executing) Run.workers fun run hp => by
      cases hphase : run.phase <;> simp_all [Phase.executing]
    have hsum := h.workers
    omega
  perKind := by
    intro kind
    have hle := count_le a (fun run => run.phase.executing && run.job.kind == kind) (Run.kinds kind)
      fun run hp => by
        rw [Bool.and_eq_true, beq_iff_eq] at hp
        obtain ⟨hp, rfl⟩ := hp
        cases hphase : run.phase <;> simp_all [Phase.executing]
    have hsum := h.perKind.held_le _ _ kind
    rw [h.perKind_capacity] at hsum
    exact hle.trans hsum
  perRepository := by
    intro scope
    have hle := count_le a (fun run => run.phase.executing && run.job.scope == scope)
      (Run.repositories scope) fun run hp => by
        rw [Bool.and_eq_true, beq_iff_eq] at hp
        obtain ⟨hp, rfl⟩ := hp
        cases hphase : run.phase <;> simp_all [Phase.executing]
    have hsum := h.perRepository.held_le _ _ scope
    rw [h.perRepository_capacity] at hsum
    exact hle.trans hsum

theorem marked_le_one (inflight : Finset Str) (key : Str) : marked inflight key ≤ 1 := by
  unfold marked
  split <;> omega

theorem holdsKey_iff (phase : Phase) :
    phase.holdsKey = true ↔ phase.admitted = true ∨ phase.deciding = true := by
  cases phase <;> simp [Phase.admitted, Phase.deciding]

theorem Balanced.exclusive (h : Balanced limits leaked a) : Exclusive a := by
  intro id id' run run' hrun hrun' hphase hphase' hkind hscope
  have hone : a.holding (Run.keys run.job.key) ≤ 1 := by
    have hset := h.inflight run.job.key
    have hle := marked_le_one a.inflight run.job.key
    omega
  have hkey : run.job.key = run'.job.key := by
    simp only [NodeJob.key, hkind, hscope]
  have hheld := (holdsKey_iff run.phase).mpr (Or.inl hphase)
  have hheld' := (holdsKey_iff run'.phase).mpr (Or.inl hphase')
  refine Table.eq_of_total_le_one _ a.runs id id' run run' hone hrun hrun' ?_ ?_
  · simp only [Run.keys, hheld, and_self, if_true, Nat.one_pos]
  · simp only [Run.keys, hheld', hkey, and_self, if_true, Nat.one_pos]

theorem holds_iff (key : Str) : a.Holds key ↔ 0 < a.holding (Run.keys key) := by
  constructor
  · intro ⟨id, run, hrun, hphase, hkey⟩
    have hle := a.le_holding id run (Run.keys key) hrun
    have hheld := (holdsKey_iff run.phase).mpr hphase
    simp only [Run.keys, hheld, hkey, and_self, if_true] at hle
    omega
  · intro hpos
    by_contra hnone
    have hzero : a.holding (Run.keys key) = 0 := by
      refine (Table.total_eq_zero _ _).mpr fun id run hrun => if_neg ?_
      intro ⟨hheld, hkey⟩
      exact hnone ⟨id, run, hrun, (holdsKey_iff run.phase).mp hheld, hkey.symm⟩
    omega

theorem mem_iff_marked (inflight : Finset Str) (key : Str) : key ∈ inflight ↔ 0 < marked inflight key := by
  unfold marked
  split <;> simp_all

theorem Balanced.exact_iff (h : Balanced limits leaked a) : Exact a ↔ ∀ key, leaked key = 0 := by
  unfold Exact
  refine forall_congr' fun key => ?_
  have hset := h.inflight key
  have hle := marked_le_one a.inflight key
  rw [holds_iff, mem_iff_marked]
  constructor
  · intro hiff
    by_contra hleak
    have hpos : 0 < a.holding (Run.keys key) := hiff.mp (by omega)
    omega
  · intro hleak
    rw [hset, hleak, Nat.add_zero]

end Balance

@[simp] theorem runAt_put (a : Admission) (id : Nat) (run : Run) (phase : Phase) :
    (a.put id run phase).runAt id phase = some ⟨run.job, phase⟩ := by
  simp [Admission.runAt, Admission.put]

theorem submit_goes_on (s : State) (job : NodeJob) (hcancelled : s.cancelled = false) :
    ∃ t, step s (.submit job) = some t ∧
      t.admission.runAt s.next .submitted = some ⟨job, .submitted⟩ ∧
      t.admission.inflight = s.admission.inflight ∧ t.admission.queue = s.admission.queue := by
  refine ⟨{ s with admission := s.admission.put s.next ⟨job, .submitted⟩ .submitted, next := s.next + 1 },
    ?_, runAt_put _ _ _ _, rfl, rfl⟩
  simp [step, hcancelled]

theorem insertKey_goes_on (s : State) (id : Nat) (run : Run)
    (hrow : s.admission.runAt id .submitted = some run) (hnew : run.job.key ∉ s.admission.inflight) :
    ∃ t, step s (.insertKey id) = some t ∧
      t.admission.runAt id .keyed = some ⟨run.job, .keyed⟩ ∧
      t.admission.queue = s.admission.queue := by
  let a := s.admission.put id run .keyed
  refine ⟨{ s with admission := { a with inflight := insert run.job.key a.inflight } }, ?_,
    runAt_put s.admission id run .keyed, rfl⟩
  simp only [step, hrow, bind, Option.bind, hnew, if_false]
  rfl

theorem tryAcquireSlot_goes_on (s : State) (id : Nat) (run : Run)
    (hrow : s.admission.runAt id .keyed = some run) (hslot : 0 < s.admission.queue) :
    ∃ t, step s (.tryAcquireSlot id) = some t ∧ t.answers[id]? = some .queued := by
  let a := s.admission.put id run .queued
  refine ⟨{ s with
    admission := { a with queue := a.queue - 1 }, answers := s.answers.insert id .queued }, ?_, ?_⟩
  · simp only [step, hrow, bind, Option.bind, Nat.ne_of_gt hslot, if_false]
    rfl
  · exact Std.ExtTreeMap.getElem?_insert_self

theorem readmits_of_exact (s : State) (h : Exact s.admission) : Readmits s := by
  intro job hnone hcancelled hslot
  have hnew : job.key ∉ s.admission.inflight := fun hmem => hnone ((h job.key).mp hmem)
  obtain ⟨t1, h1, hrow1, hset, hqueue1⟩ := submit_goes_on s job hcancelled
  rw [← hset] at hnew
  obtain ⟨t2, h2, hrow2, hqueue2⟩ := insertKey_goes_on t1 s.next _ hrow1 hnew
  have hfree : 0 < t2.admission.queue := by omega
  obtain ⟨t3, h3, hanswer⟩ := tryAcquireSlot_goes_on t2 s.next _ hrow2 hfree
  refine ⟨t3, ?_, hanswer⟩
  simp only [run, h1, h2, h3, Option.bind]

theorem without_of_none (a : Admission) (id : Nat) (h : a.runs[id]? = none) : a.without id = a := by
  simp [Admission.without, h]

theorem without_of_some (a : Admission) (id : Nat) (run : Run) (h : a.runs[id]? = some run) :
    a.without id = { a with
      runs := a.runs.erase id
      inflight := if run.phase.deciding then a.inflight.erase run.job.key else a.inflight } := by
  simp [Admission.without, h]

theorem refused_submit (s s' : State) (job : NodeJob) (hfresh : Fresh s)
    (h : step s (.submit job) = some s') :
    s'.admission.without s.next = s.admission.without s.next := by
  have hnone := hfresh s.next (Nat.le_refl _)
  simp only [step] at h
  split at h
  · obtain rfl := Option.some.inj h
    rfl
  · obtain rfl := Option.some.inj h
    have hrow : (s.admission.put s.next ⟨job, .submitted⟩ .submitted).runs[s.next]? =
        some ⟨job, .submitted⟩ := Std.ExtTreeMap.getElem?_insert_self
    rw [without_of_some _ _ _ hrow, without_of_none _ _ hnone]
    simp [Admission.put, Phase.deciding, Table.erase_insert, Table.erase_eq_self _ _ hnone]

theorem refused_insertKey (s s' : State) (id : Nat) (h : step s (.insertKey id) = some s') :
    s'.admission.without id = s.admission.without id := by
  obtain ⟨run, hrun, hphase, h⟩ := runAt_bind _ _ _ _ _ h
  rw [without_of_some _ _ _ hrun]
  split at h
  · obtain rfl := Option.some.inj h
    rw [without_of_none _ _ (by simp [State.refuse, Admission.drop])]
    simp [hphase, Phase.deciding, State.refuse, Admission.drop]
  · rename_i hnew
    obtain rfl := Option.some.inj h
    rw [without_of_some _ _ ⟨run.job, .keyed⟩ Std.ExtTreeMap.getElem?_insert_self]
    simp [hphase, Phase.deciding, Admission.put, Table.erase_insert, Finset.erase_insert hnew]

theorem refused_tryAcquireSlot (s s' : State) (id : Nat) (h : step s (.tryAcquireSlot id) = some s')
    (hanswer : s'.answers[id]? ≠ some .queued) :
    s'.admission.without id = s.admission.without id := by
  obtain ⟨run, hrun, hphase, h⟩ := runAt_bind _ _ _ _ _ h
  rw [without_of_some _ _ _ hrun]
  split at h
  · obtain rfl := Option.some.inj h
    rw [without_of_some _ _ ⟨run.job, .overfull⟩ Std.ExtTreeMap.getElem?_insert_self]
    simp [hphase, Phase.deciding, Admission.put, Table.erase_insert]
  · obtain rfl := Option.some.inj h
    exact absurd Std.ExtTreeMap.getElem?_insert_self hanswer

theorem refused_removeRefusedKey (s s' : State) (id : Nat)
    (h : step s (.removeRefusedKey id) = some s') :
    s'.admission.without id = s.admission.without id := by
  obtain ⟨run, hrun, hphase, h⟩ := runAt_bind _ _ _ _ _ h
  rw [without_of_some _ _ _ hrun]
  obtain rfl := Option.some.inj h
  rw [without_of_none _ _ (by simp [State.refuse, Admission.drop])]
  simp [hphase, Phase.deciding, State.refuse, Admission.drop]

theorem refusals_undone (s : State) (hfresh : Fresh s) : RefusalsUndone s := by
  intro event s' id howner h hanswer
  cases event <;> simp only [Event.submission, Option.some.injEq, reduceCtorEq] at howner <;>
    subst howner
  case submit job => exact refused_submit s s' job hfresh h
  case insertKey => exact refused_insertKey s s' _ h
  case tryAcquireSlot => exact refused_tryAcquireSlot s s' _ h hanswer
  case removeRefusedKey => exact refused_removeRefusedKey s s' _ h

section Progress
variable (limits : JobLimits) (leaked : Str → Nat) (s : State) (id : Nat) (run : Run)

theorem canStep_of_isSome (event : Event) (howner : event.owner = some id)
    (h : (step s event).isSome = true) : CanStep s id := by
  obtain ⟨s', hs'⟩ := Option.isSome_iff_exists.mp h
  exact ⟨event, s', howner, hs'⟩

theorem runAt_of (phase : Phase) (h : s.admission.runs[id]? = some run) (hphase : run.phase = phase) :
    s.admission.runAt id phase = some run :=
  (Admission.runAt_eq_some s.admission id phase run).mpr ⟨h, hphase⟩

theorem canStep_of_not_waiting (h : s.admission.runs[id]? = some run) (hqueued : run.phase ≠ .queued)
    (hstaffed : run.phase ≠ .staffed) (hclassed : run.phase ≠ .classed) : CanStep s id := by
  cases hphase : run.phase with
  | submitted =>
    refine canStep_of_isSome s id (.insertKey id) rfl ?_
    simp only [step, runAt_of s id run _ h hphase, bind, Option.bind]
    split <;> rfl
  | keyed =>
    refine canStep_of_isSome s id (.tryAcquireSlot id) rfl ?_
    simp only [step, runAt_of s id run _ h hphase, bind, Option.bind]
    split <;> rfl
  | overfull =>
    refine canStep_of_isSome s id (.removeRefusedKey id) rfl ?_
    simp [step, runAt_of s id run _ h hphase]
  | queued => exact absurd hphase hqueued
  | staffed => exact absurd hphase hstaffed
  | classed => exact absurd hphase hclassed
  | ready =>
    refine canStep_of_isSome s id (.start id true 0) rfl ?_
    simp [step, runAt_of s id run _ h hphase]
  | running record =>
    refine canStep_of_isSome s id (.finish id (.ok ⟨0, 0⟩) true 0) rfl ?_
    simp [step, h, hphase]
  | executed =>
    refine canStep_of_isSome s id (.removeKey id) rfl ?_
    simp [step, runAt_of s id run _ h hphase]
  | leaving =>
    refine canStep_of_isSome s id (.dropRepository id) rfl ?_
    simp [step, runAt_of s id run _ h hphase]
  | leftRepository =>
    refine canStep_of_isSome s id (.dropKind id) rfl ?_
    simp [step, runAt_of s id run _ h hphase]
  | leftKind =>
    refine canStep_of_isSome s id (.dropWorker id) rfl ?_
    simp [step, runAt_of s id run _ h hphase]
  | leftWorker =>
    refine canStep_of_isSome s id (.dropSlot id) rfl ?_
    simp [step, runAt_of s id run _ h hphase]

theorem canStep_queued (h : s.admission.runs[id]? = some run) (hphase : run.phase = .queued)
    (hfree : 0 < s.admission.workers) : CanStep s id := by
  refine canStep_of_isSome s id (.acquireWorker id) rfl ?_
  simp [step, runAt_of s id run _ h hphase, Nat.ne_of_gt hfree]

theorem canStep_staffed (h : s.admission.runs[id]? = some run) (hphase : run.phase = .staffed)
    (hfree : 0 < s.admission.perKind.available run.job.kind) : CanStep s id := by
  obtain ⟨perKind, htake⟩ := Option.isSome_iff_exists.mp ((Limiter.acquire_isSome _ _).mpr hfree)
  refine canStep_of_isSome s id (.acquireKind id) rfl ?_
  simp [step, runAt_of s id run _ h hphase, htake]

theorem canStep_classed (h : s.admission.runs[id]? = some run) (hphase : run.phase = .classed)
    (hfree : 0 < s.admission.perRepository.available run.job.scope) : CanStep s id := by
  obtain ⟨perRepository, htake⟩ :=
    Option.isSome_iff_exists.mp ((Limiter.acquire_isSome _ _).mpr hfree)
  refine canStep_of_isSome s id (.acquireRepository id) rfl ?_
  simp [step, runAt_of s id run _ h hphase, htake]

theorem progress_of_balanced (hbal : Balanced limits leaked s.admission)
    (h : s.admission.runs[id]? = some run) :
    ∃ phase, (∃ (other : Nat) (run : Run), s.admission.runs[other]? = some run ∧ run.phase = phase) ∧
      ∀ (other : Nat) (run : Run), s.admission.runs[other]? = some run → run.phase = phase →
        CanStep s other := by
  by_cases hbusy : ∃ (other : Nat) (run : Run), s.admission.runs[other]? = some run ∧
      run.phase ≠ .queued ∧ run.phase ≠ .staffed ∧ run.phase ≠ .classed
  · obtain ⟨other, first, hfirst, hqueued, hstaffed, hclassed⟩ := hbusy
    refine ⟨first.phase, ⟨other, first, hfirst, rfl⟩, fun another next hnext hphase => ?_⟩
    rw [← hphase] at hqueued hstaffed hclassed
    exact canStep_of_not_waiting s another next hnext hqueued hstaffed hclassed
  have hwaits : ∀ (other : Nat) (run : Run), s.admission.runs[other]? = some run →
      run.phase = .queued ∨ run.phase = .staffed ∨ run.phase = .classed := by
    intro other run hrun
    by_contra hnot
    push Not at hnot
    exact hbusy ⟨other, run, hrun, hnot⟩
  by_cases hclassed : ∃ (other : Nat) (run : Run), s.admission.runs[other]? = some run ∧
      run.phase = .classed
  · refine ⟨.classed, hclassed, fun other next hnext hphase => ?_⟩
    have hnone : s.admission.holding (Run.repositories next.job.scope) = 0 := by
      refine (Table.total_eq_zero _ _).mpr fun k r hr => ?_
      obtain hp | hp | hp := hwaits k r hr <;> simp [hp]
    have hsum : s.admission.perRepository.available next.job.scope +
        s.admission.holding (Run.repositories next.job.scope) = _ := hbal.perRepository next.job.scope
    rw [hbal.perRepository_capacity] at hsum
    have hpos := limits.perRepository_pos
    exact canStep_classed s other next hnext hphase (by omega)
  by_cases hstaffed : ∃ (other : Nat) (run : Run), s.admission.runs[other]? = some run ∧
      run.phase = .staffed
  · refine ⟨.staffed, hstaffed, fun other next hnext hphase => ?_⟩
    have hnone : s.admission.holding (Run.kinds next.job.kind) = 0 := by
      refine (Table.total_eq_zero _ _).mpr fun k r hr => ?_
      obtain hp | hp | hp := hwaits k r hr
      · simp [hp]
      · simp [hp]
      · exact absurd ⟨k, r, hr, hp⟩ hclassed
    have hsum : s.admission.perKind.available next.job.kind +
        s.admission.holding (Run.kinds next.job.kind) = _ := hbal.perKind next.job.kind
    rw [hbal.perKind_capacity] at hsum
    have hpos := limits.perKind_pos
    exact canStep_staffed s other next hnext hphase (by omega)
  have hqueued : ∀ (other : Nat) (run : Run), s.admission.runs[other]? = some run →
      run.phase = .queued := by
    intro other run hrun
    obtain hp | hp | hp := hwaits other run hrun
    · exact hp
    · exact absurd ⟨other, run, hrun, hp⟩ hstaffed
    · exact absurd ⟨other, run, hrun, hp⟩ hclassed
  refine ⟨.queued, ⟨id, run, h, hqueued id run h⟩, fun other next hnext hphase => ?_⟩
  have hnone : s.admission.holding Run.workers = 0 := by
    refine (Table.total_eq_zero _ _).mpr fun k r hr => ?_
    simp [hqueued k r hr]
  have hsum := hbal.workers
  have hpos := limits.workers_pos
  exact canStep_queued s other next hnext hphase (by omega)

end Progress

section Termination
variable (limits : JobLimits) (leaked : Str → Nat) (s : State)

theorem step_work (s' : State) (event : Event) (hbal : Balanced limits leaked s.admission)
    (howner : event.owner.isSome = true) (h : step s event = some s') :
    s'.admission.work < s.admission.work := by
  obtain ⟨owner, howner⟩ := Option.isSome_iff_exists.mp howner
  obtain ⟨_, after, hruns, _, hless⟩ := owned_moves limits leaked s s' owner hbal event howner h
  have hsum := Admission.holding_set s.admission s'.admission owner after (·.phase.remaining) hruns
  unfold Admission.work
  omega

theorem run_work (events : List Event) (s' : State) (hfresh : Fresh s)
    (hbal : Balanced limits leaked s.admission)
    (howned : ∀ event ∈ events, (Event.owner event).isSome = true) (h : run s events = some s') :
    events.length + s'.admission.work ≤ s.admission.work := by
  induction events generalizing s leaked with
  | nil =>
    obtain rfl := Option.some.inj h
    exact Nat.le_of_eq (Nat.zero_add _)
  | cons event events ih =>
    obtain ⟨t, hstep, hrun⟩ := Option.bind_eq_some_iff.mp h
    obtain ⟨howner, hrest⟩ := List.forall_mem_cons.mp howned
    have hless := step_work limits leaked s t event hbal howner hstep
    have hih := ih _ t (step_fresh limits leaked s t event hfresh hbal hstep)
      (step_balanced limits leaked s t event hfresh hbal hstep) hrest hrun
    rw [List.length_cons]
    omega

theorem deadlockFree_of_balanced (hfresh : Fresh s) (hbal : Balanced limits leaked s.admission) :
    DeadlockFree s where
  progress := fun id run h => progress_of_balanced limits leaked s id run hbal h
  terminates := fun events s' howned h => run_work limits leaked s events s' hfresh hbal howned h

end Termination

/-- The bounds, the exclusion, the undone refusals and progress hold in every interleaving;
the in-flight set is that of the unfinished runs, so that ended jobs are admitted again, in
the interleavings without a panic and in no other. -/
theorem admission_exact_iff (limits : JobLimits) (events : List Event) (s : State)
    (h : run (start limits) events = some s) :
    Bounded limits s.admission ∧ Exclusive s.admission ∧ RefusalsUndone s ∧ DeadlockFree s ∧
      (Exact s.admission ∧ Readmits s ↔ ∀ event ∈ events, event.isPanic = false) := by
  have hstart : Fresh (start limits) := fun id _ => Std.ExtTreeMap.getElem?_empty
  obtain ⟨hfresh, leaked, hbal, hiff⟩ :=
    run_balanced limits events _ _ _ hstart (Balanced.start limits) h
  refine ⟨hbal.bounded, hbal.exclusive, refusals_undone s hfresh,
    deadlockFree_of_balanced limits leaked s hfresh hbal, ?_⟩
  have hleaked : (∀ key, leaked key = 0) ↔ ∀ event ∈ events, event.isPanic = false :=
    hiff.trans ⟨And.right, fun hpanic => ⟨fun _ => rfl, hpanic⟩⟩
  rw [← hleaked, ← hbal.exact_iff]
  exact ⟨And.left, fun hexact => ⟨hexact, readmits_of_exact s hexact⟩⟩

namespace Sample

def sweep : NodeJob := ⟨str "cache_maintenance", str "pypi", some .cacheRefresh⟩

/-- The node admits and executes the first submission of the job. -/
def entered : List Event :=
  [.submit sweep, .insertKey 0, .tryAcquireSlot 0, .acquireWorker 0, .acquireKind 0,
    .acquireRepository 0, .start 0 true 100]

def left : List Event := [.dropRepository 0, .dropKind 0, .dropWorker 0, .dropSlot 0]

end Sample

open Sample in
/-- The job panics, its run is gone, and the next submission of the job is a conflict. -/
theorem panic_keeps_key :
    ∃ s, run (start .nodeLocal)
        (entered ++ [.panic 0] ++ left ++ [.submit sweep, .insertKey 1]) = some s ∧
      s.admission.runs.isEmpty = true ∧ ¬ Exact s.admission ∧ s.answers[1]? = some .conflict := by
  have hrun : ((run (start .nodeLocal)
      (entered ++ [.panic 0] ++ left ++ [.submit sweep, .insertKey 1])).any fun s =>
        s.admission.runs.isEmpty && decide (sweep.key ∈ s.admission.inflight) &&
          s.answers[1]? == some .conflict) = true := by decide +kernel
  rw [Option.any_eq_true] at hrun
  obtain ⟨s, hs, hfacts⟩ := hrun
  simp only [Bool.and_eq_true, decide_eq_true_eq, beq_iff_eq] at hfacts
  obtain ⟨⟨hempty, hmem⟩, hanswer⟩ := hfacts
  refine ⟨s, hs, hempty, fun hexact => ?_, hanswer⟩
  obtain ⟨id, run, hrow, _⟩ := (hexact sweep.key).mp hmem
  have hnone : s.admission.runs = ∅ := Std.ExtTreeMap.isEmpty_iff.mp hempty
  simp [hnone] at hrow

open Sample in
/-- A run that fails is followed by another of its job. -/
theorem failed_run_readmitted :
    ∃ s, run (start .nodeLocal)
        (entered ++ [.finish 0 (.error (str "upstream")) true 101, .removeKey 0] ++ left) = some s ∧
      Exact s.admission ∧ Readmits s := by
  have hrun : (run (start .nodeLocal) (entered ++
      [.finish 0 (.error (str "upstream")) true 101, .removeKey 0] ++ left)).isSome = true := by
    decide +kernel
  obtain ⟨s, hs⟩ := Option.isSome_iff_exists.mp hrun
  exact ⟨s, hs, (admission_exact_iff .nodeLocal _ s hs).2.2.2.2.mpr (by decide)⟩

end Peryx.Jobs
