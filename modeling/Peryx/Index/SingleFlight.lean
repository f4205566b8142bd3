import Peryx.Index.Flights

/-!
# One guard of a key (peryx-index/src/serving.rs:46-114,172-177;
peryx-ecosystem-pypi/src/cache/download.rs:111-174; peryx-driver/src/download.rs:64-147)
-/

namespace Peryx.SingleFlight

open Function (update)

def Place.plain {κ : Type} : Place κ → Bool
  | .holding _ stage => stage ≠ .connecting
  | .panicked => false
  | _ => true

structure Registered {κ : Type} (state : Flights κ) : Prop where
  vacant : ∀ caller flight, state.callers caller = .holding flight .connecting →
    state.downloads flight.key = none
  produced : ∀ transfer key,
    state.producers transfer = some key ↔ state.downloads key = some transfer
  numbered : ∀ transfer, state.nextTransfer ≤ transfer → state.producers transfer = none
  unbroken : ∀ caller, state.callers caller ≠ .panicked

namespace Registered
variable {κ : Type} {state next : Flights κ}

theorem empty : Registered (.empty κ) := by
  constructor <;> simp [Flights.empty]

theorem placed (h : Registered state) (caller : Nat) (place : Place κ)
    (hcallers : next.callers = update state.callers caller place)
    (hdownloads : next.downloads = state.downloads)
    (hproducers : next.producers = state.producers)
    (hnumber : next.nextTransfer = state.nextTransfer) (hplace : place ≠ .panicked)
    (hvacant : ∀ flight, place = .holding flight .connecting →
      state.downloads flight.key = none) : Registered next := by
  constructor
  · intro other flight hc
    rw [hcallers, Function.update_apply] at hc
    rw [hdownloads]
    split at hc
    · exact hvacant flight hc
    · exact h.vacant other flight hc
  · rw [hdownloads, hproducers]
    exact h.produced
  · rw [hproducers, hnumber]
    exact h.numbered
  · intro other
    rw [hcallers, Function.update_apply]
    split
    · exact hplace
    · exact h.unbroken other

theorem moved (h : Registered state) (caller : Nat) (place : Place κ)
    (hcallers : next.callers = update state.callers caller place)
    (hdownloads : next.downloads = state.downloads)
    (hproducers : next.producers = state.producers)
    (hnumber : next.nextTransfer = state.nextTransfer) (hplain : place.plain = true) :
    Registered next := by
  apply h.placed caller place hcallers hdownloads hproducers hnumber
  · intro e
    rw [e] at hplain
    cases hplain
  · intro flight e
    rw [e] at hplain
    cases hplain

variable [DecidableEq κ]

theorem register (h : Registered state) (caller : Nat) (flight : FlightGate κ)
    (hw : state.callers caller = .holding flight .connecting)
    (hunique : ∀ other flight', state.callers other = .holding flight' .connecting →
      flight'.key = flight.key → other = caller) :
    Registered (state.register caller flight) := by
  have hv := h.vacant caller flight hw
  have hn := h.numbered state.nextTransfer (le_refl _)
  constructor
  · intro other flight' hc
    simp only [Flights.register, hv, Function.update_apply] at hc ⊢
    split at hc
    · cases hc
    · rename_i hne
      rw [if_neg fun e => hne (hunique other flight' hc e)]
      exact h.vacant other flight' hc
  · intro transfer key
    have hp := h.produced transfer key
    simp only [Flights.register, hv, Function.update_apply]
    grind
  · intro transfer ht
    simp only [Flights.register, hv] at ht ⊢
    rw [Function.update_of_ne (by omega)]
    exact h.numbered transfer (by omega)
  · intro other
    simp only [Flights.register, hv, Function.update_apply]
    split
    · nofun
    · exact h.unbroken other

theorem removeProducer (h : Registered state) (transfer : Nat) (key : κ)
    (hw : state.producers transfer = some key) :
    Registered (state.removeProducer transfer key) := by
  have hown := (h.produced transfer key).mp hw
  constructor
  · intro caller flight hc
    simp only [Flights.removeProducer, hown, if_true, Function.update_apply]
    split
    · rfl
    · exact h.vacant caller flight hc
  · intro other key'
    have hp := h.produced other key'
    simp only [Flights.removeProducer, hown, if_true, Function.update_apply]
    grind
  · intro other ht
    simp only [Flights.removeProducer, Function.update_apply]
    split
    · rfl
    · exact h.numbered other ht
  · exact h.unbroken

end Registered

structure Kept {κ : Type} (state : Flights κ) : Prop where
  accounted : ∃ users, Accounted state users
  registered : Registered state

theorem FlightStep.kept {κ : Type} [DecidableEq κ] {state next : Flights κ} (h : Kept state)
    (hstep : FlightStep state next) : Kept next := by
  obtain ⟨⟨users, ha⟩, hr⟩ := h
  cases hstep with
  | flightGate caller key hw =>
    refine ⟨ha.flightGate caller key hw, ?_⟩
    cases hi : state.inflight key with
    | some gate =>
      refine hr.moved caller (.waiting ⟨key, gate⟩) ?_ ?_ ?_ ?_ rfl <;>
        simp only [Flights.flightGate, hi]
    | none =>
      refine hr.moved caller (.waiting ⟨key, state.next⟩) ?_ ?_ ?_ ?_ rfl <;>
        simp only [Flights.flightGate, hi]
  | lock caller flight hw free =>
    exact ⟨⟨users, ha.lockOwned caller flight hw free⟩,
      hr.moved caller (.holding flight .fresh) rfl rfl rfl rfl rfl⟩
  | tryLock caller flight hw =>
    cases hm : (state.gates flight).mutex with
    | none =>
      simp only [Flights.tryLockOwned, hm]
      exact ⟨⟨users, ha.lockOwned caller flight hw hm⟩,
        hr.moved caller (.holding flight .fresh) rfl rfl rfl rfl rfl⟩
    | some other =>
      simp only [Flights.tryLockOwned, hm]
      exact ⟨⟨users, ha.cancel caller flight hw⟩,
        hr.moved caller (.dropping flight) rfl rfl rfl rfl rfl⟩
  | cancel caller flight hw =>
    exact ⟨⟨users, ha.cancel caller flight hw⟩,
      hr.moved caller (.dropping flight) rfl rfl rfl rfl rfl⟩
  | forget caller flight hw =>
    exact ⟨⟨users, ha.forgetFlight caller flight hw⟩,
      hr.moved caller (.holding flight .forgotten) rfl rfl rfl rfl rfl⟩
  | existing caller flight hw =>
    cases hd : state.downloads flight.key with
    | some transfer =>
      simp only [Flights.existingDownload, hd]
      exact ⟨⟨users, ha⟩, hr⟩
    | none =>
      simp only [Flights.existingDownload, hd]
      refine ⟨⟨users, ha.restaged caller flight .fresh .connecting hw (by decide) rfl rfl rfl rfl⟩,
        hr.placed caller (.holding flight .connecting) rfl rfl rfl rfl ?_ ?_⟩
      · intro e
        cases e
      · intro flight' e
        cases e
        exact hd
  | register caller flight hw =>
    refine ⟨⟨users, ha.restaged caller flight .connecting .fresh hw (by decide) ?_ ?_ ?_ ?_⟩,
      hr.register caller flight hw ?_⟩
    · simp only [Flights.register, hr.vacant caller flight hw]
    · simp only [Flights.register, hr.vacant caller flight hw]
    · simp only [Flights.register, hr.vacant caller flight hw]
    · simp only [Flights.register, hr.vacant caller flight hw]
    · intro other flight' ho hkey
      exact ha.guard_unique other caller flight' flight _ _ ho (by decide) hw (by decide) hkey
  | release caller flight stage hw =>
    exact ⟨⟨users, ha.dropMutex caller flight stage hw⟩,
      hr.moved caller (.dropping flight) rfl rfl rfl rfl rfl⟩
  | leave caller flight hw =>
    refine ⟨⟨_, ha.dropUser caller flight hw⟩, hr.moved caller _ rfl rfl rfl rfl ?_⟩
    split <;> rfl
  | sweep caller flight hw =>
    exact ⟨⟨users, ha.dropEntry caller flight hw⟩,
      hr.moved caller .away rfl rfl rfl rfl rfl⟩
  | finish transfer key hw =>
    refine ⟨⟨users, ?_⟩, hr.removeProducer transfer key hw⟩
    exact ⟨ha.counts, ha.counted, ha.locked, ha.current, ha.detached, ha.answered, ha.numbered⟩

theorem kept_reachable {κ : Type} [DecidableEq κ] (state : Flights κ)
    (h : (flights κ).Reachable state) : Kept state := by
  apply (flights κ).invariant Kept _ _ state h
  · intro start hstart
    cases hstart
    exact ⟨⟨_, .empty⟩, .empty⟩
  · intro state next _ hkept hstep
    exact FlightStep.kept hkept hstep

/-- The caller has a guard of the key and has not called `forget_flight`. -/
def Flights.Guards {κ : Type} (state : Flights κ) (caller : Nat) (key : κ) : Prop :=
  ∃ gate stage, state.callers caller = .holding ⟨key, gate⟩ stage ∧ stage ≠ .forgotten

/-- The caller forgets the gate it alone uses, or left it as the last one. -/
def Flights.Last {κ : Type} (state : Flights κ) (caller : Nat) (flight : FlightGate κ) : Prop :=
  (state.callers caller = .holding flight .fresh ∧ (state.gates flight).users = 1) ∨
  (state.callers caller = .removing flight ∧ (state.gates flight).users = 0)

theorem FlightStep.last {κ : Type} [DecidableEq κ] {state next : Flights κ} (h : Kept state)
    (hstep : FlightStep state next) (key : κ) (gate : Nat)
    (hi : state.inflight key = some gate) (hgone : next.inflight key ≠ some gate) :
    ∃ caller, state.Last caller ⟨key, gate⟩ := by
  obtain ⟨⟨users, ha⟩, -⟩ := h
  -- an entry that was taken away is the one that was asked for
  have htaken : ∀ flight : FlightGate κ, state.inflight flight.key = some flight.gate →
      update state.inflight flight.key none key ≠ some gate → flight = ⟨key, gate⟩ := by
    intro flight hown hne
    rw [Function.update_apply] at hne
    split at hne
    · rename_i e
      rw [← e, hi] at hown
      cases flight
      cases e
      cases hown
      rfl
    · exact absurd hi hne
  cases hstep with
  | flightGate caller key' hw =>
    cases hk : state.inflight key' with
    | some gate' =>
      simp only [Flights.flightGate, hk] at hgone
      exact absurd hi hgone
    | none =>
      simp only [Flights.flightGate, hk, Function.update_apply] at hgone
      split at hgone
      · rename_i e
        rw [e, hk] at hi
        cases hi
      · exact absurd hi hgone
  | tryLock caller flight hw =>
    cases hm : (state.gates flight).mutex <;>
      simp only [Flights.tryLockOwned, hm] at hgone <;> exact absurd hi hgone
  | existing caller flight hw =>
    cases hd : state.downloads flight.key <;>
      simp only [Flights.existingDownload, hd] at hgone <;> exact absurd hi hgone
  | register caller flight hw =>
    cases hd : state.downloads flight.key <;>
      simp only [Flights.register, hd] at hgone <;> exact absurd hi hgone
  | forget caller flight hw =>
    have hown := ha.current caller flight (by rw [hw]; rfl) (by rw [hw]; rfl)
    simp only [Flights.forgetFlight, hown] at hgone
    split at hgone
    · rename_i one
      have e := htaken flight hown hgone
      subst e
      exact ⟨caller, .inl ⟨hw, one⟩⟩
    · exact absurd hi hgone
  | sweep caller flight hw =>
    simp only [Flights.dropEntry] at hgone
    split at hgone
    · rename_i hown
      have e := htaken flight hown.1 hgone
      subst e
      exact ⟨caller, .inr ⟨hw, hown.2⟩⟩
    · exact absurd hi hgone
  | lock | cancel | release | leave | finish => exact absurd hi hgone

/-- In every run one caller at most has a guard of a key it has not forgotten; no count
goes below zero; a key that no caller has is not in the map; and a gate is taken from the
map only by its own last user, so never by an older gate of the key. So `start_download`
finds no transfer registered, and no key has two. -/
theorem single_flight {κ : Type} [DecidableEq κ] (state : Flights κ)
    (h : (flights κ).Reachable state) :
    (∀ key caller other, state.Guards caller key → state.Guards other key → caller = other) ∧
    (∀ caller flight, state.callers caller = .dropping flight → 0 < (state.gates flight).users) ∧
    (∀ key, (∀ caller, (state.callers caller).key ≠ some key) → state.inflight key = none) ∧
    (∀ next, FlightStep state next → ∀ key gate, state.inflight key = some gate →
      next.inflight key = some gate ∨ ∃ caller, state.Last caller ⟨key, gate⟩ ∧
        ∀ other, other ≠ caller → (state.callers other).counted ≠ some ⟨key, gate⟩) ∧
    (∀ caller flight, state.callers caller = .holding flight .connecting →
      state.downloads flight.key = none) ∧
    (∀ caller, state.callers caller ≠ .panicked) ∧
    (∀ key transfer transfer', state.producers transfer = some key →
      state.producers transfer' = some key → transfer = transfer') := by
  have hkept := kept_reachable state h
  obtain ⟨⟨users, ha⟩, hr⟩ := hkept
  refine ⟨?_, ?_, ?_, ?_, hr.vacant, hr.unbroken, ?_⟩
  · rintro key caller other ⟨gate, stage, hc, hs⟩ ⟨gate', stage', ho, hs'⟩
    exact ha.guard_unique caller other _ _ stage stage' hc hs ho hs' rfl
  · intro caller flight hc
    exact ha.users_pos caller flight (by rw [hc]; rfl)
  · intro key hnone
    rw [Option.eq_none_iff_forall_ne_some]
    intro gate hi
    obtain ⟨caller, hc⟩ := ha.answered key gate hi
    exact hnone caller (Place.key_of_counted hc)
  · intro next hstep key gate hi
    by_cases hgone : next.inflight key = some gate
    · exact .inl hgone
    · obtain ⟨caller, hlast⟩ := FlightStep.last ⟨⟨users, ha⟩, hr⟩ hstep key gate hi hgone
      refine .inr ⟨caller, hlast, ?_⟩
      intro other hne hc
      have hm := (ha.counted other ⟨key, gate⟩).mpr hc
      obtain ⟨hw, one⟩ | ⟨-, zero⟩ := hlast
      · rw [ha.lone caller ⟨key, gate⟩ (by rw [hw]; rfl) one, Finset.mem_singleton] at hm
        exact hne hm
      · have hpos := ha.users_pos other ⟨key, gate⟩ hc
        omega
  · intro key transfer transfer' ht ht'
    rw [hr.produced] at ht ht'
    rw [ht] at ht'
    exact Option.some.inj ht'

/-- A caller forgot the flight of a key, and another connects under a newer gate. -/
def relayed : Flights Nat :=
  let first := ((Flights.empty Nat).flightGate 0 7).lockOwned 0 ⟨7, 0⟩
  let second := ((first.forgetFlight 0 ⟨7, 0⟩).flightGate 1 7).lockOwned 1 ⟨7, 1⟩
  second.existingDownload 1 ⟨7, 1⟩

theorem relayed_reachable : (flights Nat).Reachable relayed := by
  have start : (flights Nat).Reachable (.empty Nat) := .start _ rfl
  have obtained := start.step _ _ (.flightGate _ 0 7 rfl)
  have locked := obtained.step _ _ (.lock _ 0 ⟨7, 0⟩ rfl rfl)
  have forgotten := locked.step _ _ (.forget _ 0 ⟨7, 0⟩ rfl)
  have newer := forgotten.step _ _ (.flightGate _ 1 7 rfl)
  have relocked := newer.step _ _ (.lock _ 1 ⟨7, 1⟩ rfl rfl)
  exact relocked.step _ _ (.existing _ 1 ⟨7, 1⟩ rfl)

theorem relayed_single :
    relayed.callers 0 = .holding ⟨7, 0⟩ .forgotten ∧ relayed.Guards 1 7 ∧
    (∀ other, relayed.Guards other 7 → other = 1) ∧ relayed.downloads 7 = none := by
  have hguards : relayed.Guards 1 7 := ⟨1, .connecting, rfl, nofun⟩
  have hsingle := single_flight relayed relayed_reachable
  refine ⟨rfl, hguards, ?_, ?_⟩
  · intro other ho
    exact hsingle.1 7 other 1 ho hguards
  · exact hsingle.2.2.2.2.1 1 ⟨7, 1⟩ rfl

end Peryx.SingleFlight
