import Mathlib.Data.Finset.Card
import Mathlib.Logic.Function.Basic
import Peryx.Library.Transition

/-!
# Single flight (peryx-index/src/serving.rs:20-114,172-177;
peryx-ecosystem-pypi/src/cache/download.rs:36-66,111-174; peryx-driver/src/download.rs:64-147)
-/

namespace Peryx.SingleFlight

open Function (update)

structure Gate where
  mutex : Option Nat
  users : Nat

def Gate.new : Gate := { mutex := none, users := 1 }

def fetchSub (users : Nat) : Nat := if users = 0 then UInt64.size - 1 else users - 1

structure FlightGate (κ : Type) where
  key : κ
  gate : Nat
  deriving DecidableEq

/-- What a guard's holder is doing: it forgets its flight as the last thing under the
guard, and connects after it found no transfer. -/
inductive Stage
  | fresh
  | forgotten
  | connecting
  deriving DecidableEq

/-- Where a caller stands. A dropped guard first gives the mutex back, then its user
leaves the count, then the one that left it at zero looks at the map. -/
inductive Place (κ : Type)
  | away
  | waiting (flight : FlightGate κ)
  | holding (flight : FlightGate κ) (stage : Stage)
  | dropping (flight : FlightGate κ)
  | removing (flight : FlightGate κ)
  | panicked

def Place.counted {κ : Type} : Place κ → Option (FlightGate κ)
  | .waiting flight | .holding flight _ | .dropping flight => some flight
  | _ => none

def Place.held {κ : Type} : Place κ → Option (FlightGate κ)
  | .holding flight _ => some flight
  | _ => none

theorem Place.counted_of_held {κ : Type} {place : Place κ} {flight : FlightGate κ}
    (h : place.held = some flight) : place.counted = some flight := by
  cases place with
  | holding flight' stage => exact h
  | _ => cases h

def Place.key {κ : Type} : Place κ → Option κ
  | .waiting flight | .holding flight _ | .dropping flight | .removing flight => some flight.key
  | _ => none

theorem Place.key_of_counted {κ : Type} {place : Place κ} {key : κ} {gate : Nat}
    (h : place.counted = some ⟨key, gate⟩ ∨ place = .removing ⟨key, gate⟩) :
    place.key = some key := by
  cases place with
  | away | panicked => obtain h | h := h <;> cases h
  | waiting | holding | dropping | removing =>
    obtain h | h := h
    all_goals first | (cases h; rfl) | cases h

def Place.retired {κ : Type} : Place κ → Bool
  | .holding _ stage => stage = .forgotten
  | .dropping _ => true
  | _ => false

structure Flights (κ : Type) where
  inflight : κ → Option Nat
  gates : FlightGate κ → Gate
  next : Nat
  callers : Nat → Place κ
  downloads : κ → Option Nat
  nextTransfer : Nat
  producers : Nat → Option κ

namespace Flights

def empty (κ : Type) : Flights κ where
  inflight := fun _ => none
  gates := fun _ => { mutex := none, users := 0 }
  next := 0
  callers := fun _ => .away
  downloads := fun _ => none
  nextTransfer := 0
  producers := fun _ => none

variable {κ : Type} [DecidableEq κ] (state : Flights κ) (caller : Nat) (flight : FlightGate κ)

def flightGate (key : κ) : Flights κ :=
  match state.inflight key with
  | some gate => { state with
      gates := update state.gates ⟨key, gate⟩
        { state.gates ⟨key, gate⟩ with users := (state.gates ⟨key, gate⟩).users + 1 }
      callers := update state.callers caller (.waiting ⟨key, gate⟩) }
  | none => { state with
      inflight := update state.inflight key (some state.next)
      gates := update state.gates ⟨key, state.next⟩ Gate.new
      next := state.next + 1
      callers := update state.callers caller (.waiting ⟨key, state.next⟩) }

def lockOwned : Flights κ := { state with
  gates := update state.gates flight { state.gates flight with mutex := some caller }
  callers := update state.callers caller (.holding flight .fresh) }

def cancel : Flights κ := { state with
  callers := update state.callers caller (.dropping flight) }

def tryLockOwned : Flights κ :=
  match (state.gates flight).mutex with
  | none => state.lockOwned caller flight
  | some _ => state.cancel caller flight

def forgetFlight : Flights κ := { state with
  inflight :=
    match state.inflight flight.key with
    | some gate =>
      if (state.gates ⟨flight.key, gate⟩).users = 1 then update state.inflight flight.key none
      else state.inflight
    | none => state.inflight
  callers := update state.callers caller (.holding flight .forgotten) }

def existingDownload : Flights κ :=
  match state.downloads flight.key with
  | some _ => state
  | none => { state with callers := update state.callers caller (.holding flight .connecting) }

def register : Flights κ :=
  match state.downloads flight.key with
  | some _ => { state with callers := update state.callers caller .panicked }
  | none => { state with
      downloads := update state.downloads flight.key (some state.nextTransfer)
      producers := update state.producers state.nextTransfer (some flight.key)
      nextTransfer := state.nextTransfer + 1
      callers := update state.callers caller (.holding flight .fresh) }

def dropMutex : Flights κ := { state with
  gates := update state.gates flight { state.gates flight with mutex := none }
  callers := update state.callers caller (.dropping flight) }

def dropUser : Flights κ := { state with
  gates := update state.gates flight
    { state.gates flight with users := fetchSub (state.gates flight).users }
  callers := update state.callers caller
    (if (state.gates flight).users = 1 then .removing flight else .away) }

def dropEntry : Flights κ := { state with
  inflight :=
    if state.inflight flight.key = some flight.gate ∧ (state.gates flight).users = 0 then
      update state.inflight flight.key none
    else state.inflight
  callers := update state.callers caller .away }

def removeProducer (transfer : Nat) (key : κ) : Flights κ := { state with
  downloads :=
    if state.downloads key = some transfer then update state.downloads key none
    else state.downloads
  producers := update state.producers transfer none }

end Flights

/-- A caller is one registration. Every one may be cancelled or fail where it stands, and
then it drops what it has. -/
inductive FlightStep {κ : Type} [DecidableEq κ] : Flights κ → Flights κ → Prop
  | flightGate (state : Flights κ) (caller : Nat) (key : κ) (h : state.callers caller = .away) :
    FlightStep state (state.flightGate caller key)
  | lock (state : Flights κ) (caller : Nat) (flight : FlightGate κ)
    (h : state.callers caller = .waiting flight) (free : (state.gates flight).mutex = none) :
    FlightStep state (state.lockOwned caller flight)
  | tryLock (state : Flights κ) (caller : Nat) (flight : FlightGate κ)
    (h : state.callers caller = .waiting flight) :
    FlightStep state (state.tryLockOwned caller flight)
  | cancel (state : Flights κ) (caller : Nat) (flight : FlightGate κ)
    (h : state.callers caller = .waiting flight) :
    FlightStep state (state.cancel caller flight)
  | forget (state : Flights κ) (caller : Nat) (flight : FlightGate κ)
    (h : state.callers caller = .holding flight .fresh) :
    FlightStep state (state.forgetFlight caller flight)
  | existing (state : Flights κ) (caller : Nat) (flight : FlightGate κ)
    (h : state.callers caller = .holding flight .fresh) :
    FlightStep state (state.existingDownload caller flight)
  | register (state : Flights κ) (caller : Nat) (flight : FlightGate κ)
    (h : state.callers caller = .holding flight .connecting) :
    FlightStep state (state.register caller flight)
  | release (state : Flights κ) (caller : Nat) (flight : FlightGate κ) (stage : Stage)
    (h : state.callers caller = .holding flight stage) :
    FlightStep state (state.dropMutex caller flight)
  | leave (state : Flights κ) (caller : Nat) (flight : FlightGate κ)
    (h : state.callers caller = .dropping flight) :
    FlightStep state (state.dropUser caller flight)
  | sweep (state : Flights κ) (caller : Nat) (flight : FlightGate κ)
    (h : state.callers caller = .removing flight) :
    FlightStep state (state.dropEntry caller flight)
  | finish (state : Flights κ) (transfer : Nat) (key : κ)
    (h : state.producers transfer = some key) :
    FlightStep state (state.removeProducer transfer key)

def flights (κ : Type) [DecidableEq κ] : System (Flights κ) where
  start := fun state => state = .empty κ
  step := FlightStep

/-- `users` gives each gate the callers it counts. A gate that left the map is left to a
single caller, past all it does with it; a gate in the map has a caller who will look at
the map again. -/
structure Accounted {κ : Type} (state : Flights κ) (users : FlightGate κ → Finset Nat) :
    Prop where
  counts : ∀ flight, (state.gates flight).users = (users flight).card
  counted : ∀ caller flight, caller ∈ users flight ↔ (state.callers caller).counted = some flight
  locked : ∀ caller flight,
    (state.gates flight).mutex = some caller ↔ (state.callers caller).held = some flight
  current : ∀ caller flight, (state.callers caller).counted = some flight →
    (state.callers caller).retired = false → state.inflight flight.key = some flight.gate
  detached : ∀ caller flight, (state.callers caller).counted = some flight →
    state.inflight flight.key = some flight.gate ∨ users flight = {caller}
  answered : ∀ key gate, state.inflight key = some gate →
    ∃ caller, (state.callers caller).counted = some ⟨key, gate⟩ ∨
      state.callers caller = .removing ⟨key, gate⟩
  numbered : ∀ flight, state.next ≤ flight.gate →
    users flight = ∅ ∧ state.inflight flight.key ≠ some flight.gate

namespace Accounted
variable {κ : Type} {state next : Flights κ} {users : FlightGate κ → Finset Nat}

theorem empty : Accounted (.empty κ) (fun _ => ∅) := by
  constructor <;> simp [Flights.empty, Place.counted, Place.held]

theorem users_pos (h : Accounted state users) (caller : Nat) (flight : FlightGate κ)
    (hc : (state.callers caller).counted = some flight) : 0 < (state.gates flight).users := by
  rw [h.counts flight]
  exact Finset.card_pos.mpr ⟨caller, (h.counted caller flight).mpr hc⟩

theorem lone (h : Accounted state users) (caller : Nat) (flight : FlightGate κ)
    (hc : (state.callers caller).counted = some flight) (one : (state.gates flight).users = 1) :
    users flight = {caller} := by
  rw [h.counts flight] at one
  obtain ⟨other, hother⟩ := Finset.card_eq_one.mp one
  have hm := (h.counted caller flight).mpr hc
  rw [hother, Finset.mem_singleton] at hm
  rw [hother, hm]

theorem gate_unique (h : Accounted state users) (caller other : Nat)
    (flight flight' : FlightGate κ) (hc : (state.callers caller).counted = some flight)
    (hr : (state.callers caller).retired = false)
    (ho : (state.callers other).counted = some flight')
    (hr' : (state.callers other).retired = false) (hkey : flight.key = flight'.key) :
    flight = flight' := by
  have hi := h.current caller flight hc hr
  rw [hkey, h.current other flight' ho hr'] at hi
  cases flight
  cases flight'
  cases hkey
  cases hi
  rfl

theorem guard_unique (h : Accounted state users) (caller other : Nat)
    (flight flight' : FlightGate κ) (stage stage' : Stage)
    (hc : state.callers caller = .holding flight stage) (hs : stage ≠ .forgotten)
    (ho : state.callers other = .holding flight' stage') (hs' : stage' ≠ .forgotten)
    (hkey : flight.key = flight'.key) : caller = other := by
  have hf : flight = flight' := by
    apply h.gate_unique caller other flight flight' _ _ _ _ hkey
    · rw [hc]; rfl
    · rw [hc]; simpa [Place.retired] using hs
    · rw [ho]; rfl
    · rw [ho]; simpa [Place.retired] using hs'
  subst hf
  have hl := (h.locked caller flight).mpr (by rw [hc]; rfl)
  rw [(h.locked other flight).mpr (by rw [ho]; rfl)] at hl
  exact (Option.some.inj hl).symm

theorem moved (h : Accounted state users) (caller : Nat) (place : Place κ)
    (hcallers : next.callers = update state.callers caller place)
    (hmap : next.inflight = state.inflight) (hnext : next.next = state.next)
    (hcounts : ∀ flight, (next.gates flight).users = (state.gates flight).users)
    (hlocked : ∀ other flight,
      (next.gates flight).mutex = some other ↔ (next.callers other).held = some flight)
    (hsome : place.counted.isSome) (hsame : place.counted = (state.callers caller).counted)
    (hlate : place.retired = false → (state.callers caller).retired = false) :
    Accounted next users := by
  have hcounted : ∀ other, (next.callers other).counted = (state.callers other).counted := by
    intro other
    rw [hcallers, Function.update_apply]
    split
    · rename_i e
      rw [e, hsame]
    · rfl
  have hretired : ∀ other,
      (next.callers other).retired = false → (state.callers other).retired = false := by
    intro other
    rw [hcallers, Function.update_apply]
    split
    · rename_i e
      rw [e]
      exact hlate
    · exact id
  constructor
  · intro flight
    rw [hcounts, h.counts]
  · intro other flight
    rw [hcounted, h.counted]
  · exact hlocked
  · intro other flight hc hr
    rw [hmap]
    exact h.current other flight (hcounted other ▸ hc) (hretired other hr)
  · intro other flight hc
    rw [hmap]
    exact h.detached other flight (hcounted other ▸ hc)
  · intro key gate hi
    rw [hmap] at hi
    obtain ⟨other, hc | hr⟩ := h.answered key gate hi
    · exact ⟨other, .inl ((hcounted other).trans hc)⟩
    · refine ⟨other, .inr ?_⟩
      -- the caller that moved is counted, so it is not the one at the map
      rw [hcallers, Function.update_of_ne, hr]
      intro e
      rw [hsame, ← e, hr] at hsome
      exact absurd hsome (by simp [Place.counted])
  · intro flight hg
    rw [hmap]
    exact h.numbered flight (hnext ▸ hg)

theorem cleared [DecidableEq κ] (h : Accounted state users) (flight : FlightGate κ)
    (hcallers : next.callers = state.callers)
    (hi : state.inflight flight.key = some flight.gate)
    (hmap : next.inflight = update state.inflight flight.key none)
    (hnext : next.next = state.next) (hgates : next.gates = state.gates)
    (hlast : ∀ caller, (state.callers caller).counted = some flight →
      (state.callers caller).retired = true ∧ users flight = {caller}) :
    Accounted next users := by
  -- a caller of the key whose gate is in the map has the gate that goes
  have hother : ∀ other : FlightGate κ,
      state.inflight other.key = some other.gate → other = flight ∨ other.key ≠ flight.key := by
    intro other ho
    by_cases hkey : other.key = flight.key
    · left
      rw [hkey, hi] at ho
      cases other
      cases flight
      cases hkey
      cases ho
      rfl
    · exact .inr hkey
  constructor
  · rw [hgates]
    exact h.counts
  · rw [hcallers]
    exact h.counted
  · rw [hgates, hcallers]
    exact h.locked
  · intro caller other hc hr
    rw [hcallers] at hc hr
    have ho := h.current caller other hc hr
    obtain rfl | hne := hother other ho
    · rw [(hlast caller hc).1] at hr
      cases hr
    · rw [hmap, Function.update_of_ne hne, ho]
  · intro caller other hc
    rw [hcallers] at hc
    obtain ho | ho := h.detached caller other hc
    · obtain rfl | hne := hother other ho
      · exact .inr (hlast caller hc).2
      · rw [hmap, Function.update_of_ne hne]
        exact .inl ho
    · exact .inr ho
  · intro key gate hk
    rw [hmap, Function.update_apply] at hk
    split at hk
    · cases hk
    · rw [hcallers]
      exact h.answered key gate hk
  · intro other hg
    obtain ⟨hu, ho⟩ := h.numbered other (hnext ▸ hg)
    refine ⟨hu, ?_⟩
    rw [hmap, Function.update_apply]
    split
    · nofun
    · exact ho

theorem gone (h : Accounted state users) (caller : Nat) (flight : FlightGate κ)
    (hw : state.callers caller = .removing flight)
    (hcallers : next.callers = update state.callers caller .away)
    (hmap : next.inflight = state.inflight) (hnext : next.next = state.next)
    (hgates : next.gates = state.gates)
    (hfree : state.inflight flight.key ≠ some flight.gate ∨ (state.gates flight).users ≠ 0) :
    Accounted next users := by
  have hcounted : ∀ other, (next.callers other).counted = (state.callers other).counted := by
    intro other
    rw [hcallers, Function.update_apply]
    split
    · rename_i e
      rw [e, hw]
      rfl
    · rfl
  constructor
  · rw [hgates]
    exact h.counts
  · intro other flight'
    rw [hcounted, h.counted]
  · intro other flight'
    rw [hgates, h.locked, hcallers, Function.update_apply]
    split
    · rename_i e
      rw [e, hw]
      rfl
    · rfl
  · intro other flight' hc hr
    rw [hmap]
    refine h.current other flight' (hcounted other ▸ hc) ?_
    rw [hcallers, Function.update_apply] at hr
    split at hr
    · rename_i e
      rw [e, hw]
      rfl
    · exact hr
  · intro other flight' hc
    rw [hmap]
    exact h.detached other flight' (hcounted other ▸ hc)
  · intro key gate hi
    rw [hmap] at hi
    obtain ⟨other, hc | hr⟩ := h.answered key gate hi
    · exact ⟨other, .inl ((hcounted other).trans hc)⟩
    · by_cases e : other = caller
      · -- the entry is the caller's own, so users are left, and they are counted
        subst e
        rw [hw] at hr
        cases hr
        obtain hne | hne := hfree
        · exact absurd hi hne
        · rw [h.counts, Finset.card_ne_zero] at hne
          obtain ⟨user, hu⟩ := hne
          exact ⟨user, .inl ((hcounted user).trans ((h.counted user _).mp hu))⟩
      · refine ⟨other, .inr ?_⟩
        rw [hcallers, Function.update_of_ne e, hr]
  · intro flight' hg
    rw [hmap]
    exact h.numbered flight' (hnext ▸ hg)

/-! What each operation keeps. -/

theorem cancel (h : Accounted state users) (caller : Nat) (flight : FlightGate κ)
    (hw : state.callers caller = .waiting flight) :
    Accounted (state.cancel caller flight) users := by
  refine h.moved caller (.dropping flight) rfl rfl rfl (fun _ => rfl) ?_ ?_ ?_ ?_
  · intro other flight'
    simp only [Flights.cancel, h.locked, Function.update_apply]
    split
    · rename_i e
      rw [e, hw]
      rfl
    · rfl
  · rfl
  · rw [hw]
    rfl
  · nofun

theorem lockOwned [DecidableEq κ] (h : Accounted state users) (caller : Nat)
    (flight : FlightGate κ) (hw : state.callers caller = .waiting flight)
    (free : (state.gates flight).mutex = none) :
    Accounted (state.lockOwned caller flight) users := by
  refine h.moved caller (.holding flight .fresh) rfl rfl rfl ?_ ?_ ?_ ?_ ?_
  · intro flight'
    simp only [Flights.lockOwned, Function.update_apply]
    split
    · rename_i e
      rw [e]
    · rfl
  · intro other flight'
    have hl := h.locked other flight'
    simp only [Flights.lockOwned, Function.update_apply]
    grind [Place.held]
  · rfl
  · rw [hw]
    rfl
  · rw [hw]
    exact fun _ => rfl

theorem dropMutex [DecidableEq κ] (h : Accounted state users) (caller : Nat)
    (flight : FlightGate κ) (stage : Stage)
    (hw : state.callers caller = .holding flight stage) :
    Accounted (state.dropMutex caller flight) users := by
  refine h.moved caller (.dropping flight) rfl rfl rfl ?_ ?_ ?_ ?_ ?_
  · intro flight'
    simp only [Flights.dropMutex, Function.update_apply]
    split
    · rename_i e
      rw [e]
    · rfl
  · intro other flight'
    have hl := h.locked other flight'
    have hc := (h.locked caller flight).mpr (by rw [hw]; rfl)
    simp only [Flights.dropMutex, Function.update_apply]
    grind [Place.held]
  · rfl
  · rw [hw]
    rfl
  · nofun

theorem restaged (h : Accounted state users) (caller : Nat) (flight : FlightGate κ)
    (stage stage' : Stage) (hw : state.callers caller = .holding flight stage)
    (hstage : stage ≠ .forgotten)
    (hcallers : next.callers = update state.callers caller (.holding flight stage'))
    (hmap : next.inflight = state.inflight) (hnext : next.next = state.next)
    (hgates : next.gates = state.gates) : Accounted next users := by
  refine h.moved caller (.holding flight stage') hcallers hmap hnext ?_ ?_ ?_ ?_ ?_
  · intro flight'
    rw [hgates]
  · intro other flight'
    rw [hgates, h.locked, hcallers, Function.update_apply]
    split
    · rename_i e
      rw [e, hw]
      rfl
    · rfl
  · rfl
  · rw [hw]
    rfl
  · rw [hw]
    intro _
    simpa [Place.retired] using hstage

theorem forgetFlight [DecidableEq κ] (h : Accounted state users) (caller : Nat)
    (flight : FlightGate κ) (hw : state.callers caller = .holding flight .fresh) :
    Accounted (state.forgetFlight caller flight) users := by
  have hi := h.current caller flight (by rw [hw]; rfl) (by rw [hw]; rfl)
  have hforgotten : Accounted
      { state with callers := update state.callers caller (.holding flight .forgotten) } users :=
    h.restaged caller flight .fresh .forgotten hw nofun rfl rfl rfl rfl
  by_cases one : (state.gates flight).users = 1
  · have hone := h.lone caller flight (by rw [hw]; rfl) one
    refine hforgotten.cleared flight rfl hi ?_ rfl rfl ?_
    · simp only [Flights.forgetFlight, hi, one, if_true]
    · intro other hc
      have hm := (hforgotten.counted other flight).mpr hc
      rw [hone, Finset.mem_singleton] at hm
      rw [hm, hone]
      exact ⟨by simp [Place.retired], rfl⟩
  · have hsame : state.forgetFlight caller flight =
        { state with callers := update state.callers caller (.holding flight .forgotten) } := by
      simp only [Flights.forgetFlight, hi, one, if_false]
    rw [hsame]
    exact hforgotten

theorem dropEntry [DecidableEq κ] (h : Accounted state users) (caller : Nat)
    (flight : FlightGate κ) (hw : state.callers caller = .removing flight) :
    Accounted (state.dropEntry caller flight) users := by
  by_cases hown : state.inflight flight.key = some flight.gate ∧ (state.gates flight).users = 0
  · have hcleared : Accounted
        { state with inflight := update state.inflight flight.key none } users := by
      refine h.cleared flight rfl hown.1 rfl rfl rfl ?_
      intro other hc
      have hpos := h.users_pos other flight hc
      omega
    refine hcleared.gone caller flight hw rfl ?_ rfl rfl (.inl ?_)
    · simp only [Flights.dropEntry, hown, and_self, if_true]
    · simp
  · refine h.gone caller flight hw rfl ?_ rfl rfl ?_
    · simp only [Flights.dropEntry, hown, if_false]
    · rwa [not_and_or] at hown

theorem joined [DecidableEq κ] (h : Accounted state users) (caller : Nat)
    (flight : FlightGate κ) (hw : state.callers caller = .away)
    (hcallers : next.callers = update state.callers caller (.waiting flight))
    (hold : ∀ gate, state.inflight flight.key = some gate → gate = flight.gate)
    (hmap : next.inflight = update state.inflight flight.key (some flight.gate))
    (hgates : next.gates = update state.gates flight
      { state.gates flight with users := (state.gates flight).users + 1 })
    (hnext : state.next ≤ next.next) (hgate : flight.gate < next.next) :
    Accounted next (update users flight (insert caller (users flight))) := by
  have hnew : caller ∉ users flight := by
    rw [h.counted, hw]
    nofun
  have hkept : ∀ other : FlightGate κ, state.inflight other.key = some other.gate →
      next.inflight other.key = some other.gate := by
    intro other ho
    rw [hmap, Function.update_apply]
    split
    · rename_i e
      rw [hold other.gate (e ▸ ho)]
    · exact ho
  constructor
  · intro other
    rw [hgates, Function.update_apply, Function.update_apply]
    split
    · rw [Finset.card_insert_of_notMem hnew, h.counts]
    · exact h.counts other
  · intro user other
    have hc := h.counted user other
    rw [hcallers, Function.update_apply, Function.update_apply]
    grind [Place.counted]
  · intro user other
    have hl := h.locked user other
    rw [hcallers, hgates, Function.update_apply, Function.update_apply]
    grind [Place.held]
  · intro user other hc hr
    rw [hcallers, Function.update_apply] at hc hr
    split at hc
    · cases hc
      rw [hmap, Function.update_self]
    · exact hkept other (h.current user other hc (by grind))
  · intro user other hc
    rw [hcallers, Function.update_apply] at hc
    split at hc
    · cases hc
      rw [hmap, Function.update_self]
      exact .inl rfl
    · obtain ho | ho := h.detached user other hc
      · exact .inl (hkept other ho)
      · by_cases e : other = flight
        · rw [e, hmap, Function.update_self]
          exact .inl rfl
        · rw [Function.update_of_ne e]
          exact .inr ho
  · intro key gate hi
    rw [hmap, Function.update_apply] at hi
    split at hi
    · rename_i e
      cases e
      cases hi
      exact ⟨caller, .inl (by rw [hcallers, Function.update_self]; rfl)⟩
    · obtain ⟨user, hu⟩ := h.answered key gate hi
      refine ⟨user, ?_⟩
      rw [hcallers, Function.update_of_ne]
      · exact hu
      · intro e
        rw [e, hw] at hu
        obtain hu | hu := hu <;> cases hu
  · intro other hg
    obtain ⟨hu, ho⟩ := h.numbered other (hnext.trans hg)
    have hne : other ≠ flight := by
      intro e
      rw [e] at hg
      omega
    refine ⟨by rw [Function.update_of_ne hne, hu], ?_⟩
    rw [hmap, Function.update_apply]
    split
    · intro e
      have := Option.some.inj e
      omega
    · exact ho

theorem flightGate [DecidableEq κ] (h : Accounted state users) (caller : Nat) (key : κ)
    (hw : state.callers caller = .away) :
    ∃ users', Accounted (state.flightGate caller key) users' := by
  cases hi : state.inflight key with
  | some gate =>
    refine ⟨_, h.joined caller ⟨key, gate⟩ hw ?_ ?_ ?_ ?_ ?_ ?_⟩
    · simp only [Flights.flightGate, hi]
    · intro gate' hg
      rw [hi] at hg
      exact (Option.some.inj hg).symm
    · simp only [Flights.flightGate, hi]
      rw [← hi, Function.update_eq_self]
    · simp only [Flights.flightGate, hi]
    · simp only [Flights.flightGate, hi, le_refl]
    · -- a gate of the map has a serial that was given out
      simp only [Flights.flightGate, hi]
      by_contra hg
      exact (h.numbered ⟨key, gate⟩ (Nat.not_lt.mp hg)).2 hi
  | none =>
    have hnone := (h.numbered ⟨key, state.next⟩ (le_refl _)).1
    have husers : (state.gates ⟨key, state.next⟩).users = 0 := by
      rw [h.counts, hnone, Finset.card_empty]
    have hmutex : (state.gates ⟨key, state.next⟩).mutex = none := by
      rw [Option.eq_none_iff_forall_ne_some]
      intro other hl
      have hc := (h.counted other _).mpr (Place.counted_of_held ((h.locked other _).mp hl))
      rw [hnone] at hc
      exact absurd hc (Finset.notMem_empty other)
    refine ⟨_, h.joined caller ⟨key, state.next⟩ hw ?_ ?_ ?_ ?_ ?_ ?_⟩
    · simp only [Flights.flightGate, hi]
    · intro gate hg
      rw [hi] at hg
      cases hg
    · simp only [Flights.flightGate, hi]
    · simp only [Flights.flightGate, hi, Gate.new, husers, hmutex]
    · simp only [Flights.flightGate, hi]
      omega
    · simp only [Flights.flightGate, hi]
      omega

theorem dropUser [DecidableEq κ] (h : Accounted state users) (caller : Nat)
    (flight : FlightGate κ) (hw : state.callers caller = .dropping flight) :
    Accounted (state.dropUser caller flight)
      (update users flight ((users flight).erase caller)) := by
  have hm : caller ∈ users flight := (h.counted caller flight).mpr (by rw [hw]; rfl)
  have hplace : ∀ other, other ≠ caller →
      (state.dropUser caller flight).callers other = state.callers other := by
    intro other hne
    simp only [Flights.dropUser, Function.update_of_ne hne]
  have hself : ((state.dropUser caller flight).callers caller).counted = none := by
    simp only [Flights.dropUser, Function.update_self]
    split <;> rfl
  constructor
  · intro other
    simp only [Flights.dropUser, Function.update_apply]
    split
    · have hpos := Finset.card_pos.mpr ⟨caller, hm⟩
      rw [Finset.card_erase_of_mem hm, ← h.counts flight] at *
      simp only [fetchSub]
      split <;> omega
    · exact h.counts other
  · intro user other
    have hc := h.counted user other
    rw [Function.update_apply]
    by_cases e : user = caller
    · rw [e, hself]
      rw [e, hw] at hc
      grind [Place.counted]
    · rw [hplace user e]
      grind
  · intro user other
    have hl := h.locked user other
    simp only [Flights.dropUser, Function.update_apply]
    grind [Place.held]
  · intro user other hc hr
    have hne : user ≠ caller := by
      intro e
      rw [e, hself] at hc
      cases hc
    rw [hplace user hne] at hc hr
    exact h.current user other hc hr
  · intro user other hc
    have hne : user ≠ caller := by
      intro e
      rw [e, hself] at hc
      cases hc
    rw [hplace user hne] at hc
    obtain ho | ho := h.detached user other hc
    · exact .inl ho
    · right
      rw [Function.update_of_ne, ho]
      intro e
      rw [← e, ho, Finset.mem_singleton] at hm
      exact hne hm.symm
  · intro key gate hi
    obtain ⟨user, hu⟩ := h.answered key gate hi
    by_cases e : user = caller
    · subst e
      rw [hw] at hu
      obtain hu | hu := hu
      · cases hu
        by_cases one : (state.gates ⟨key, gate⟩).users = 1
        · refine ⟨user, .inr ?_⟩
          simp only [Flights.dropUser, Function.update_self, one, if_true]
        · have hcard := h.counts ⟨key, gate⟩
          have hpos := Finset.card_pos.mpr ⟨user, hm⟩
          obtain ⟨left, hleft, hne⟩ := Finset.exists_mem_ne (s := users ⟨key, gate⟩) (by omega) user
          refine ⟨left, .inl ?_⟩
          rw [hplace left hne]
          exact (h.counted left _).mp hleft
      · cases hu
    · refine ⟨user, ?_⟩
      rw [hplace user e]
      exact hu
  · intro other hg
    obtain ⟨hu, ho⟩ := h.numbered other hg
    refine ⟨?_, ho⟩
    rw [Function.update_apply]
    split
    · rename_i e
      rw [← e, hu, Finset.erase_empty]
    · exact hu

end Accounted

end Peryx.SingleFlight
