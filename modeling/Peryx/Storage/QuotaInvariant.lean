import Peryx.Library.Outcome
import Peryx.Storage.Quota

/-! # Counters against reservations -/

/-!
## What the counter helpers compute

Each helper is described by the value it leaves behind when it starts from a value
of the expected form: `base` plus what one reservation contributes. Underflow is
the bad outcome throughout; an overflow is an ordinary error.
-/

namespace Peryx.Quota

instance : Add QuotaValue := ⟨fun a b => ⟨a.committed + b.committed, a.reserved + b.reserved⟩⟩

instance : Zero QuotaValue := ⟨{}⟩

@[simp] theorem add_committed (a b : QuotaValue) : (a + b).committed = a.committed + b.committed := rfl

@[simp] theorem add_reserved (a b : QuotaValue) : (a + b).reserved = a.reserved + b.reserved := rfl

@[simp] theorem zero_committed : (0 : QuotaValue).committed = 0 := rfl

@[simp] theorem zero_reserved : (0 : QuotaValue).reserved = 0 := rfl

theorem QuotaValue.eq_of (a b : QuotaValue) (hc : a.committed = b.committed)
    (hr : a.reserved = b.reserved) : a = b := by
  cases a
  cases b
  simp only at hc hr
  rw [hc, hr]

@[simp] theorem add_zero (a : QuotaValue) : a + 0 = a := rfl

@[simp] theorem zero_add (a : QuotaValue) : 0 + a = a :=
  QuotaValue.eq_of _ _ (Nat.zero_add _) (Nat.zero_add _)

def amountIn (state : QuotaReservationState) (amount : Nat) : QuotaValue :=
  match state with
  | .committed => ⟨amount, 0⟩
  | .reserved => ⟨0, amount⟩

@[simp] theorem amountIn_zero (state : QuotaReservationState) : amountIn state 0 = 0 := by
  cases state <;> rfl

def share (references : References) (amount : Nat) : QuotaValue :=
  if 0 < references.committed then ⟨amount, 0⟩
  else if 0 < references.reserved then ⟨0, amount⟩
  else 0

@[simp] theorem share_zero (amount : Nat) : share 0 amount = 0 := rfl

theorem total_eq_zero (value : QuotaValue) : value.total = 0 ↔ value = 0 := by
  unfold QuotaValue.total
  constructor
  · intro h
    have hmax : 0 < u64Max := by decide
    apply QuotaValue.eq_of
    · simp only [zero_committed]
      omega
    · simp only [zero_reserved]
      omega
  · rintro rfl
    rfl

def Bad (fault : Fault) : Prop := fault = .underflow

theorem checkedAdd_ensures (value amount : Nat) :
    Ensures Bad (checkedAdd value amount) (· = value + amount) := by
  unfold checkedAdd addU64
  split
  · rename_i h
    split at h
    · cases h
      rfl
    · cases h
  · exact Ensures.error (by simp [Bad])

theorem subtract_ensures (value amount : Nat) (h : amount ≤ value) :
    Ensures Bad (subtract value amount) (· = value - amount) := by
  unfold subtract
  rw [if_pos h]
  exact Ensures.pure rfl

theorem moveValue_ensures (base : QuotaValue) (amount : Nat) :
    Ensures Bad (moveValue (base + amountIn .reserved amount) amount)
      (· = base + amountIn .committed amount) := by
  apply Ensures.bind (subtract_ensures _ _ (by simp [amountIn]))
  intro reserved hreserved
  apply Ensures.bind (checkedAdd_ensures _ _)
  intro committed hcommitted
  apply Ensures.pure
  apply QuotaValue.eq_of
  · simpa [amountIn] using hcommitted
  · simpa [amountIn] using hreserved

theorem subtractValue_ensures (base : QuotaValue) (state : QuotaReservationState) (amount : Nat) :
    Ensures Bad (subtractValue (base + amountIn state amount) state amount) (· = base) := by
  cases state with
  | committed =>
    apply Ensures.bind (subtract_ensures _ _ (by simp [amountIn]))
    intro committed h
    exact Ensures.pure (QuotaValue.eq_of _ _ (by simpa [amountIn] using h) (by simp [amountIn]))
  | reserved =>
    apply Ensures.bind (subtract_ensures _ _ (by simp [amountIn]))
    intro reserved h
    exact Ensures.pure (QuotaValue.eq_of _ _ (by simp [amountIn]) (by simpa [amountIn] using h))

/-- Dropping one reference: the charge disappears with the last reference and falls
back to reserved with the last committed one. -/
theorem rebalanceOrRemove_ensures (base : References) (other : QuotaValue)
    (state : QuotaReservationState) (amount : Nat) :
    Ensures Bad (rebalanceOrRemove (other + share (base + amountIn state 1) amount) base state amount)
      (· = other + share base amount) := by
  unfold rebalanceOrRemove
  apply Ensures.ite
  · intro hlast
    rw [total_eq_zero] at hlast
    subst hlast
    have hshare : share (0 + amountIn state 1) amount = amountIn state amount := by
      cases state <;> rfl
    rw [hshare]
    exact subtractValue_ensures other state amount
  · intro hmore
    apply Ensures.ite
    · rintro ⟨rfl, hnone⟩
      have hreserved : 0 < base.reserved := by
        apply Nat.pos_of_ne_zero
        intro hzero
        exact hmore ((total_eq_zero base).mpr (QuotaValue.eq_of _ _ hnone hzero))
      have hbefore : share (base + amountIn .committed 1) amount = ⟨amount, 0⟩ := by
        simp [share, amountIn]
      have hafter : share base amount = ⟨0, amount⟩ := by
        simp [share, hnone, hreserved]
      rw [hbefore, hafter]
      apply Ensures.bind (subtract_ensures _ _ (by simp))
      intro committed hcommitted
      apply Ensures.bind (checkedAdd_ensures _ _)
      intro reserved hres
      apply Ensures.pure
      apply QuotaValue.eq_of
      · simpa using hcommitted
      · simpa using hres
    · intro hkeep
      apply Ensures.pure
      have hsame : share (base + amountIn state 1) amount = share base amount := by
        cases state with
        | committed =>
          have hpos : 0 < base.committed := Nat.pos_of_ne_zero fun h => hkeep ⟨rfl, h⟩
          simp [share, amountIn, hpos]
        | reserved =>
          by_cases hc : 0 < base.committed
          · simp [share, amountIn, hc]
          · have hr : 0 < base.reserved := by
              apply Nat.pos_of_ne_zero
              intro hzero
              exact hmore ((total_eq_zero base).mpr (QuotaValue.eq_of _ _ (by simp; omega) hzero))
            simp [share, amountIn, hc, hr]
      rw [hsame]

def afterState (commit : Bool) : Option QuotaReservationState :=
  if commit then some .committed else none

def amountInState (state : Option QuotaReservationState) (amount : Nat) : QuotaValue :=
  match state with
  | some state => amountIn state amount
  | none => 0

theorem settle_ensures (base : References) (other : QuotaValue) (state : QuotaReservationState)
    (amount : Nat) (commit : Bool) (hc : commit = true → state = .reserved) :
    Ensures Bad
      (settle (base + amountIn state 1) (other + share (base + amountIn state 1) amount) state amount
        commit)
      (· = (base + amountInState (afterState commit) 1,
        other + share (base + amountInState (afterState commit) 1) amount)) := by
  unfold settle
  cases commit with
  | false =>
    apply Ensures.bind (subtractValue_ensures base state 1)
    rintro references rfl
    apply Ensures.bind (rebalanceOrRemove_ensures references other state amount)
    rintro charged rfl
    exact Ensures.pure (by simp [afterState, amountInState])
  | true =>
    obtain rfl := hc rfl
    rw [if_pos rfl]
    have hmoved : Ensures Bad
        (moveIf ((base + amountIn .reserved 1).committed == 0)
          (other + share (base + amountIn .reserved 1) amount) amount)
        (· = other + share (base + amountIn .committed 1) amount) := by
      have hafter : share (base + amountIn .committed 1) amount = amountIn .committed amount := by
        simp [share, amountIn]
      rw [hafter]
      apply Ensures.ite
      · intro hnone
        have hbefore : share (base + amountIn .reserved 1) amount = amountIn .reserved amount := by
          simp only [add_committed, amountIn, beq_iff_eq] at hnone
          simp [share, amountIn, hnone]
        rw [hbefore]
        exact moveValue_ensures other amount
      · intro hsome
        apply Ensures.pure
        have hpos : 0 < base.committed := by
          simp only [add_committed, amountIn, beq_iff_eq] at hsome
          omega
        have hbefore : share (base + amountIn .reserved 1) amount = amountIn .committed amount := by
          simp [share, amountIn, hpos]
        rw [hbefore]
    apply Ensures.bind hmoved
    rintro charged rfl
    apply Ensures.bind (moveValue_ensures base 1)
    rintro references rfl
    exact Ensures.pure rfl

theorem settleBytes_ensures (base : QuotaValue) (state : QuotaReservationState) (amount : Nat)
    (commit : Bool) (hc : commit = true → state = .reserved) :
    Ensures Bad (settleBytes (base + amountIn state amount) state amount commit)
      (· = base + amountInState (afterState commit) amount) := by
  cases commit with
  | false => exact subtractValue_ensures base state amount
  | true =>
    obtain rfl := hc rfl
    exact moveValue_ensures base amount

theorem reserveIf_ensures (value : QuotaValue) (amount : Nat) :
    Ensures Bad (reserveIf true value amount) (· = value + amountIn .reserved amount) := by
  apply Ensures.bind (checkedAdd_ensures _ _)
  rintro reserved rfl
  exact Ensures.pure rfl

theorem reserveIf_share_ensures (references : References) (other : QuotaValue) (amount : Nat) :
    Ensures Bad (reserveIf (references.total == 0) (other + share references amount) amount)
      (· = other + share (references + amountIn .reserved 1) amount) := by
  by_cases hfirst : references.total = 0
  · rw [hfirst]
    rw [total_eq_zero] at hfirst
    subst hfirst
    exact reserveIf_ensures other amount
  · have hf : (references.total == 0) = false := by simpa using hfirst
    rw [hf]
    apply Ensures.pure
    have hsame : share (references + amountIn .reserved 1) amount = share references amount := by
      by_cases hc : 0 < references.committed
      · simp [share, amountIn, hc]
      · have hr : 0 < references.reserved := by
          apply Nat.pos_of_ne_zero
          intro hzero
          exact hfirst ((total_eq_zero references).mpr
            (QuotaValue.eq_of _ _ (by simp; omega) hzero))
        simp [share, amountIn, hc, hr]
    rw [hsame]

end Peryx.Quota

namespace Peryx.Quota

abbrev Reservations := Table Nat QuotaReservationRecord

section Sums
variable {κ V : Type} [Ord κ] [Std.TransOrd κ] [Std.LawfulEqOrd κ]

def sumOver (f : κ → V → QuotaValue) (table : Table κ V) : QuotaValue where
  committed := table.total fun k v => (f k v).committed
  reserved := table.total fun k v => (f k v).reserved

def rowValue (f : κ → V → QuotaValue) (k : κ) : Option V → QuotaValue
  | some v => f k v
  | none => 0

theorem sumOver_split (f : κ → V → QuotaValue) (table : Table κ V) (k : κ) :
    sumOver f table = sumOver f (table.erase k) + rowValue f k table[k]? := by
  have hc := Table.total_erase (fun k v => (f k v).committed) table k
  have hr := Table.total_erase (fun k v => (f k v).reserved) table k
  cases h : table[k]? with
  | none =>
    rw [h] at hc hr
    exact QuotaValue.eq_of _ _ hc.symm hr.symm
  | some v =>
    rw [h] at hc hr
    exact QuotaValue.eq_of _ _ hc.symm hr.symm

theorem sumOver_set (f : κ → V → QuotaValue) (table : Table κ V) (k : κ) (row : Option V) :
    sumOver f (table.set k row) = sumOver f (table.erase k) + rowValue f k row := by
  have hback : (table.set k row).erase k = table.erase k := by
    apply Std.ExtTreeMap.ext_getElem?
    intro l
    rw [Std.ExtTreeMap.getElem?_erase, Std.ExtTreeMap.getElem?_erase]
    split
    · rfl
    · rename_i hc
      exact Table.getElem?_set_of_ne table k l row fun h => hc (h ▸ Std.ReflCmp.compare_self)
  rw [sumOver_split f (table.set k row) k, hback, Table.getElem?_set_self]

theorem sumOver_empty (f : κ → V → QuotaValue) : sumOver f (∅ : Table κ V) = 0 :=
  QuotaValue.eq_of _ _ (Table.total_empty fun k v => (f k v).committed)
    (Table.total_empty fun k v => (f k v).reserved)

theorem sumOver_eq_zero (f : κ → V → QuotaValue) (table : Table κ V)
    (h : ∀ k v, table[k]? = some v → f k v = 0) : sumOver f table = 0 := by
  have hc : table.total (fun k v => (f k v).committed) = 0 := by
    rw [Table.total_eq_zero]
    intro k v hrow
    rw [h k v hrow]
    rfl
  have hr : table.total (fun k v => (f k v).reserved) = 0 := by
    rw [Table.total_eq_zero]
    intro k v hrow
    rw [h k v hrow]
    rfl
  exact QuotaValue.eq_of _ _ hc hr

end Sums

def tally (weight : QuotaReservationRecord → Nat) (reservations : Reservations) : QuotaValue :=
  sumOver (fun _ reservation => amountIn reservation.state (weight reservation)) reservations

def count (key : QuotaReservationRecord → Option IdentityKey) (k : IdentityKey)
    (reservation : QuotaReservationRecord) : Nat :=
  if key reservation = some k then 1 else 0

def stateIn (row : Option QuotaReservationRecord) : Option QuotaReservationState :=
  row.map fun reservation => reservation.state

def Charges (weight : QuotaReservationRecord → Nat) (n : Nat)
    (row : Option QuotaReservationRecord) : Prop :=
  ∀ reservation, row = some reservation → weight reservation = n

theorem tally_split (weight : QuotaReservationRecord → Nat) (reservations : Reservations) (id n : Nat)
    (h : Charges weight n reservations[id]?) :
    tally weight reservations = tally weight (reservations.erase id) +
      amountInState (stateIn reservations[id]?) n := by
  rw [tally, sumOver_split _ reservations id]
  cases hrow : reservations[id]? with
  | none => rfl
  | some reservation =>
    simp only [rowValue, stateIn, Option.map_some, amountInState, h reservation hrow]
    rfl

theorem tally_set (weight : QuotaReservationRecord → Nat) (reservations : Reservations) (id n : Nat)
    (row : Option QuotaReservationRecord) (h : Charges weight n row) :
    tally weight (reservations.set id row) = tally weight (reservations.erase id) +
      amountInState (stateIn row) n := by
  rw [tally, sumOver_set]
  cases row with
  | none => rfl
  | some reservation =>
    simp only [rowValue, stateIn, Option.map_some, amountInState, h reservation rfl]
    rfl

theorem tally_set_unweighed (weight : QuotaReservationRecord → Nat) (reservations : Reservations)
    (id : Nat) (row : Option QuotaReservationRecord) (hbefore : Charges weight 0 reservations[id]?)
    (hafter : Charges weight 0 row) :
    tally weight (reservations.set id row) = tally weight reservations := by
  rw [tally_set weight reservations id 0 row hafter,
    tally_split weight reservations id 0 hbefore]
  cases stateIn row <;> cases stateIn reservations[id]? <;> simp [amountInState]

section Group
variable {V : Type} (refs : V → References) (weight : V → Nat)
  (key : QuotaReservationRecord → Option IdentityKey)

def referencesIn (row : Option V) : References :=
  match row with
  | some v => refs v
  | none => 0

structure Grouped (table : Table IdentityKey V) (reservations : Reservations) : Prop where
  references : ∀ k : IdentityKey, referencesIn refs table[k]? = tally (count key k) reservations
  live : ∀ (k : IdentityKey) (v : V), table[k]? = some v → refs v ≠ 0

def charged (table : Table IdentityKey V) (scope : IdentityKey) : QuotaValue :=
  sumOver (fun k v => if k.dropLast = scope then share (refs v) (weight v) else 0) table

theorem charged_split (table : Table IdentityKey V) (k : IdentityKey) (n : Nat)
    (hw : ∀ v, table[k]? = some v → weight v = n) :
    charged refs weight table k.dropLast = charged refs weight (table.erase k) k.dropLast +
      share (referencesIn refs table[k]?) n := by
  rw [charged, sumOver_split _ table k]
  cases hrow : table[k]? with
  | none => simp [charged, rowValue, referencesIn]
  | some v => simp [charged, rowValue, referencesIn, hw v hrow]

theorem charged_set (table : Table IdentityKey V) (k : IdentityKey) (n : Nat) (row : Option V)
    (hw : ∀ v, row = some v → weight v = n) :
    charged refs weight (table.set k row) k.dropLast =
      charged refs weight (table.erase k) k.dropLast + share (referencesIn refs row) n := by
  rw [charged, sumOver_set]
  cases row with
  | none => simp [charged, rowValue, referencesIn]
  | some v => simp [charged, rowValue, referencesIn, hw v rfl]

theorem charged_set_other (table : Table IdentityKey V) (k scope : IdentityKey) (row : Option V)
    (h : k.dropLast ≠ scope) :
    charged refs weight (table.set k row) scope = charged refs weight table scope := by
  rw [charged, sumOver_set, charged, sumOver_split _ table k]
  have hzero : ∀ row : Option V, rowValue
      (fun k v => if k.dropLast = scope then share (refs v) (weight v) else 0) k row = 0 := by
    intro row
    cases row with
    | none => rfl
    | some v => simp [rowValue, h]
  rw [hzero, hzero]

theorem referencesIn_keepIf (references : References) (v : V) (h : refs v = references) :
    referencesIn refs (keepIf references v) = references := by
  unfold keepIf
  split
  · rename_i hzero
    rw [total_eq_zero] at hzero
    rw [hzero]
    rfl
  · exact h

variable {refs key} {table : Table IdentityKey V} {reservations : Reservations}

theorem Grouped.set_ungrouped (h : Grouped refs key table reservations) (id : Nat)
    (row : Option QuotaReservationRecord)
    (hbefore : ∀ reservation, reservations[id]? = some reservation → key reservation = none)
    (hafter : ∀ reservation, row = some reservation → key reservation = none) :
    Grouped refs key table (reservations.set id row) where
  live := h.live
  references := by
    intro k
    rw [h.references k, tally_set_unweighed]
    · intro reservation hrow
      simp [count, hbefore reservation hrow]
    · intro reservation hrow
      simp [count, hafter reservation hrow]

theorem Grouped.set_group (h : Grouped refs key table reservations) (id : Nat)
    (row : Option QuotaReservationRecord) (k : IdentityKey) (group : Option V)
    (hbefore : ∀ reservation, reservations[id]? = some reservation → key reservation = some k)
    (hafter : ∀ reservation, row = some reservation → key reservation = some k)
    (hgroup : referencesIn refs group = tally (count key k) (reservations.set id row))
    (hlive : ∀ v, group = some v → refs v ≠ 0) :
    Grouped refs key (table.set k group) (reservations.set id row) where
  live := by
    intro l v hrow
    rw [Table.getElem?_set] at hrow
    split at hrow
    · exact hlive v hrow
    · exact h.live l v hrow
  references := by
    intro l
    rw [Table.getElem?_set]
    split
    · rename_i heq
      rw [← heq]
      exact hgroup
    · rename_i hne
      rw [h.references l, tally_set_unweighed]
      · intro reservation hrow
        simp [count, hbefore reservation hrow, hne]
      · intro reservation hrow
        simp [count, hafter reservation hrow, hne]

theorem keepIf_live (references : References) (v : V) (h : refs v = references) :
    ∀ w, keepIf references v = some w → refs w ≠ 0 := by
  intro w hw hzero
  unfold keepIf at hw
  split at hw
  · cases hw
  · rename_i hne
    cases hw
    exact hne ((total_eq_zero references).mpr (h ▸ hzero))

end Group

end Peryx.Quota
