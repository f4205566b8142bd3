import Mathlib.Algebra.BigOperators.Pi
import Peryx.Library.Table

/-!
# Tallies

A map of counters that an entry is made in when it is first counted.
-/

namespace Peryx.Table
variable {κ V N : Type} [Ord κ] [Std.TransOrd κ] [Std.LawfulEqOrd κ]

section Entries
variable [Inhabited V]

def lookup (table : Table κ V) (k : κ) : V := table[k]?.getD default

def entry (table : Table κ V) (k : κ) (change : V → V) : Table κ V :=
  table.insert k (change (table.lookup k))

theorem getElem?_entry [DecidableEq κ] (table : Table κ V) (k l : κ) (change : V → V) :
    (table.entry k change)[l]? = if k = l then some (change (table.lookup k)) else table[l]? := by
  unfold entry
  rw [Std.ExtTreeMap.getElem?_insert]
  by_cases h : k = l
  · subst h
    rw [if_pos Std.ReflCmp.compare_self, if_pos rfl]
  · rw [if_neg fun hc => h (Std.LawfulEqCmp.eq_of_compare hc), if_neg h]

theorem lookup_entry [DecidableEq κ] (table : Table κ V) (k l : κ) (change : V → V) :
    (table.entry k change).lookup l = if k = l then change (table.lookup k) else table.lookup l := by
  unfold lookup
  rw [getElem?_entry]
  split
  · rfl
  · rfl

omit [Std.LawfulEqOrd κ] in
theorem lookup_empty (k : κ) : (∅ : Table κ V).lookup k = default := by
  unfold lookup
  rw [Std.ExtTreeMap.getElem?_empty]
  rfl

omit [Std.LawfulEqOrd κ] in
theorem lookup_of_rows (P : V → Prop) (table : Table κ V) (k : κ)
    (h : ∀ (l : κ) (v : V), table[l]? = some v → P v) (hdefault : P default) : P (table.lookup k) := by
  unfold lookup
  cases hrow : table[k]? with
  | none => exact hdefault
  | some v => exact h k v hrow

theorem row_of_lookup (P : V → Prop) (table : Table κ V) (k : κ) (hdefault : ¬ P default)
    (h : P (table.lookup k)) : (k, table.lookup k) ∈ table.toList := by
  unfold lookup at *
  cases hrow : table[k]? with
  | none =>
    rw [hrow] at h
    exact absurd h hdefault
  | some v => exact Std.ExtTreeMap.mem_toList_iff_getElem?_eq_some.mpr hrow

theorem lookup_of_mem {table : Table κ V} {k : κ} {v : V} (h : (k, v) ∈ table.toList) :
    table.lookup k = v := by
  unfold lookup
  rw [Std.ExtTreeMap.mem_toList_iff_getElem?_eq_some.mp h]
  rfl

theorem rows_of_entry [DecidableEq κ] (P : V → Prop) (table : Table κ V) (k : κ) (change : V → V)
    (h : ∀ (l : κ) (v : V), table[l]? = some v → P v) (hchange : P (change (table.lookup k)))
    (l : κ) (v : V) (hrow : (table.entry k change)[l]? = some v) : P v := by
  rw [getElem?_entry] at hrow
  split at hrow
  · cases hrow
    exact hchange
  · exact h l v hrow

end Entries

section Sums
variable [AddCommMonoid N]

def sum (weight : κ → V → N) (table : Table κ V) : N := ∑ row ∈ table.rows, weight row.1 row.2

theorem sum_empty (weight : κ → V → N) : sum weight (∅ : Table κ V) = 0 := by
  apply Finset.sum_eq_zero
  intro row hrow
  have h := (mem_rows ∅ row.1 row.2).mp hrow
  simp at h

theorem sum_insert_new (weight : κ → V → N) (table : Table κ V) (k : κ) (v : V)
    (h : table[k]? = none) : sum weight (table.insert k v) = sum weight table + weight k v := by
  obtain ⟨hnot, hrows⟩ := rows_insert_new table k v h
  unfold sum
  rw [hrows, Finset.sum_cons, add_comm]

theorem sum_congr (f g : κ → V → N) (table : Table κ V)
    (h : ∀ k v, table[k]? = some v → f k v = g k v) : sum f table = sum g table :=
  Finset.sum_congr rfl fun row hrow => h row.1 row.2 ((mem_rows table row.1 row.2).mp hrow)

theorem sum_toList (weight : κ → V → N) (table : Table κ V) :
    (table.toList.map fun row => weight row.1 row.2).sum = sum weight table := rfl

theorem sum_entry [Inhabited V] (weight : κ → V → N) (table : Table κ V) (k : κ) (change : V → V)
    (amount : N) (hdefault : weight k default = 0)
    (h : weight k (change (table.lookup k)) = weight k (table.lookup k) + amount) :
    sum weight (table.entry k change) = sum weight table + amount := by
  unfold entry
  cases hrow : table[k]? with
  | none =>
    have hlookup : table.lookup k = default := by
      unfold lookup
      rw [hrow]
      rfl
    rw [sum_insert_new weight table k _ hrow, h, hlookup, hdefault, zero_add]
  | some v =>
    have hlookup : table.lookup k = v := by
      unfold lookup
      rw [hrow]
      rfl
    have herased : (table.erase k)[k]? = none := by simp
    have hinsert : ∀ w, table.insert k w = (table.erase k).insert k w := by
      intro w
      apply Std.ExtTreeMap.ext_getElem?
      intro l
      rw [Std.ExtTreeMap.getElem?_insert, Std.ExtTreeMap.getElem?_insert,
        Std.ExtTreeMap.getElem?_erase]
      split <;> rfl
    have hback : table = (table.erase k).insert k v := by
      apply Std.ExtTreeMap.ext_getElem?
      intro l
      rw [Std.ExtTreeMap.getElem?_insert, Std.ExtTreeMap.getElem?_erase]
      split
      · rename_i hc
        rw [← Std.LawfulEqCmp.eq_of_compare hc, hrow]
      · rfl
    have hold : sum weight table = sum weight (table.erase k) + weight k v := by
      conv => lhs; rw [hback]
      exact sum_insert_new weight _ k v herased
    rw [hinsert, sum_insert_new weight _ k _ herased, h, hlookup, hold, add_assoc]

theorem sum_ite (p : Prop) [Decidable p] (weight : κ → V → N) (table : Table κ V) :
    sum (fun k v => if p then weight k v else 0) table = if p then sum weight table else 0 := by
  split
  · rfl
  · exact Finset.sum_eq_zero fun _ _ => rfl

theorem sum_fst {M : Type} [AddCommMonoid M] (weight : κ → V → N × M) (table : Table κ V) :
    (sum weight table).1 = sum (fun k v => (weight k v).1) table := Prod.fst_sum

theorem sum_snd {M : Type} [AddCommMonoid M] (weight : κ → V → N × M) (table : Table κ V) :
    (sum weight table).2 = sum (fun k v => (weight k v).2) table := Prod.snd_sum

theorem sum_row [Inhabited V] [DecidableEq κ] (weight : V → N) (table : Table κ V) (k : κ)
    (hdefault : weight default = 0) :
    sum (fun l v => if l = k then weight v else 0) table = weight (table.lookup k) := by
  unfold sum lookup
  cases hrow : table[k]? with
  | none =>
    rw [Option.getD_none, hdefault]
    refine Finset.sum_eq_zero fun row hmem => if_neg fun heq => ?_
    have hget := (mem_rows table row.1 row.2).mp hmem
    rw [heq, hrow] at hget
    cases hget
  | some v =>
    rw [Option.getD_some, Finset.sum_eq_single (k, v)]
    · exact if_pos rfl
    · intro row hmem hne
      refine if_neg fun heq => hne ?_
      have hget := (mem_rows table row.1 row.2).mp hmem
      rw [heq, hrow, Option.some.injEq] at hget
      exact Prod.ext heq hget.symm
    · exact fun hnot => absurd ((mem_rows table k v).mpr hrow) hnot

theorem sum_flatMap {α : Type} (weight : α → N) (read : κ → V → List α) (table : Table κ V) :
    ((table.toList.flatMap fun row => read row.1 row.2).map weight).sum =
      sum (fun k v => ((read k v).map weight).sum) table := by
  rw [← sum_toList]
  induction table.toList with
  | nil => rfl
  | cons row rest ih =>
    rw [List.flatMap_cons, List.map_append, List.sum_append, List.map_cons, List.sum_cons, ih]

end Sums

end Peryx.Table
