import Mathlib.Algebra.BigOperators.Group.Finset.Basic
import Mathlib.Algebra.Order.BigOperators.Group.Finset
import Std.Data.ExtTreeMap.Lemmas

/-!
# Sums over the rows of a table

A table is an ordered map.
-/

namespace Peryx

abbrev Table (κ V : Type) [Ord κ] := Std.ExtTreeMap κ V

namespace Table
variable {κ V : Type} [Ord κ] [Std.TransOrd κ] [Std.LawfulEqOrd κ]

def set (table : Table κ V) (k : κ) : Option V → Table κ V
  | some v => table.insert k v
  | none => table.erase k

@[simp] theorem getElem?_set_self (table : Table κ V) (k : κ) (row : Option V) :
    (table.set k row)[k]? = row := by
  cases row with
  | none => simp [set]
  | some v => simp [set]

theorem getElem?_set_of_ne (table : Table κ V) (k l : κ) (row : Option V) (h : k ≠ l) :
    (table.set k row)[l]? = table[l]? := by
  have hc : compare k l ≠ .eq := fun he => h (Std.LawfulEqCmp.eq_of_compare he)
  cases row with
  | none => simp [set, Std.ExtTreeMap.getElem?_erase, hc]
  | some v => simp [set, Std.ExtTreeMap.getElem?_insert, hc]

theorem getElem?_set [DecidableEq κ] (table : Table κ V) (k l : κ) (row : Option V) :
    (table.set k row)[l]? = if k = l then row else table[l]? := by
  split
  · rename_i h
    subst h
    exact getElem?_set_self table k row
  · rename_i h
    exact getElem?_set_of_ne table k l row h

theorem erase_eq_self (table : Table κ V) (k : κ) (h : table[k]? = none) : table.erase k = table := by
  apply Std.ExtTreeMap.ext_getElem?
  intro l
  rw [Std.ExtTreeMap.getElem?_erase]
  split
  · rename_i hc
    rw [← Std.LawfulEqCmp.eq_of_compare hc, h]
  · rfl

theorem erase_insert (table : Table κ V) (k : κ) (v : V) : (table.insert k v).erase k = table.erase k := by
  apply Std.ExtTreeMap.ext_getElem?
  intro l
  rw [Std.ExtTreeMap.getElem?_erase, Std.ExtTreeMap.getElem?_erase, Std.ExtTreeMap.getElem?_insert]
  split <;> rfl

/-- Between the two tables exactly the rows of `keys`, each once, were changed, and as
`how` says; rows that are not watched may be anything. -/
structure Rewrites (watched : κ → Prop) (how : κ → Option V → Option V → Prop)
    (before after : Table κ V) (keys : List κ) : Prop where
  nodup : keys.Nodup
  on : ∀ k ∈ keys, watched k ∧ before[k]? ≠ after[k]? ∧ how k before[k]? after[k]?
  off : ∀ k, watched k → k ∉ keys → after[k]? = before[k]?

omit [Std.LawfulEqOrd κ] in
theorem Rewrites.nil (watched : κ → Prop) (how : κ → Option V → Option V → Prop)
    (table : Table κ V) : Rewrites watched how table table [] :=
  ⟨List.nodup_nil, List.forall_mem_nil _, fun _ _ _ => rfl⟩

section Rewrites
variable {watched : κ → Prop} {how : κ → Option V → Option V → Prop}
  {before after next : Table κ V} {keys : List κ}

omit [Std.LawfulEqOrd κ] in
/-- One more row is changed, which was not before. -/
theorem Rewrites.write (h : Rewrites watched how before after keys) (k : κ) (hk : k ∉ keys)
    (hwatched : watched k) (hother : ∀ l, watched l → k ≠ l → next[l]? = after[l]?)
    (hne : before[k]? ≠ next[k]?) (hhow : how k before[k]? next[k]?) :
    Rewrites watched how before next (keys ++ [k]) where
  nodup := by
    refine List.nodup_append.mpr ⟨h.nodup, List.nodup_singleton k, ?_⟩
    intro l hl m hm heq
    rw [List.mem_singleton.mp hm] at heq
    exact hk (heq ▸ hl)
  on l hl := by
    rcases List.mem_append.mp hl with hl | hl
    · have hkl : k ≠ l := fun heq => hk (heq ▸ hl)
      rw [hother l (h.on l hl).1 hkl]
      exact h.on l hl
    · rw [List.mem_singleton.mp hl]
      exact ⟨hwatched, hne, hhow⟩
  off l hl hnot := by
    rw [List.mem_append, not_or, List.mem_singleton] at hnot
    rw [hother l hl (Ne.symm hnot.2), h.off l hl hnot.1]

omit [Std.LawfulEqOrd κ] in
theorem Rewrites.unwatched (h : Rewrites watched how before after keys)
    (hother : ∀ l, watched l → next[l]? = after[l]?) : Rewrites watched how before next keys where
  nodup := h.nodup
  on l hl := by
    obtain ⟨hwatched, hne, hhow⟩ := h.on l hl
    rw [hother l hwatched]
    exact ⟨hwatched, hne, hhow⟩
  off l hl hnot := by rw [hother l hl, h.off l hl hnot]

omit [Std.LawfulEqOrd κ] in
theorem Rewrites.mono (h : Rewrites watched how before after keys)
    (how' : κ → Option V → Option V → Prop)
    (himp : ∀ k ∈ keys, ∀ old new, how k old new → how' k old new) :
    Rewrites watched how' before after keys where
  nodup := h.nodup
  on k hk := ⟨(h.on k hk).1, (h.on k hk).2.1, himp k hk _ _ (h.on k hk).2.2⟩
  off := h.off

omit [Std.LawfulEqOrd κ] in
theorem Rewrites.narrow (h : Rewrites watched how before after keys) (watched' : κ → Prop)
    (hsub : ∀ k, watched' k → watched k) (hkeys : ∀ k ∈ keys, watched' k) :
    Rewrites watched' how before after keys where
  nodup := h.nodup
  on k hk := ⟨hkeys k hk, (h.on k hk).2⟩
  off k hk := h.off k (hsub k hk)

omit [Std.LawfulEqOrd κ] in
theorem Rewrites.mem_iff (h : Rewrites watched how before after keys) (k : κ) (hk : watched k) :
    k ∈ keys ↔ before[k]? ≠ after[k]? := by
  constructor
  · exact fun hmem => (h.on k hmem).2.1
  · intro hne
    by_contra hnot
    exact hne (h.off k hk hnot).symm

end Rewrites

def rows (table : Table κ V) : Finset (κ × V) where
  val := table.toList
  nodup := by
    have h := table.distinct_keys_toList
    apply Multiset.coe_nodup.mpr
    refine h.imp fun {a b} hab heq => hab ?_
    rw [heq]
    exact Std.ReflCmp.compare_self

theorem mem_rows (table : Table κ V) (k : κ) (v : V) : (k, v) ∈ table.rows ↔ table[k]? = some v := by
  rw [← Std.ExtTreeMap.mem_toList_iff_getElem?_eq_some]
  exact Iff.rfl

def total (weight : κ → V → Nat) (table : Table κ V) : Nat :=
  ∑ row ∈ table.rows, weight row.1 row.2

@[simp] theorem total_empty (weight : κ → V → Nat) : total weight (∅ : Table κ V) = 0 := by
  apply Finset.sum_eq_zero
  intro row hrow
  have h := (mem_rows ∅ row.1 row.2).mp hrow
  simp at h

def contribution (weight : κ → V → Nat) (k : κ) : Option V → Nat
  | some v => weight k v
  | none => 0

theorem rows_insert_new (table : Table κ V) (k : κ) (v : V) (h : table[k]? = none) :
    ∃ hnot, rows (table.insert k v) = Finset.cons (k, v) table.rows hnot := by
  have hnot : (k, v) ∉ table.rows := by
    rw [mem_rows, h]
    exact Option.some_ne_none v ∘ Eq.symm
  refine ⟨hnot, ?_⟩
  ext ⟨l, w⟩
  rw [Finset.mem_cons, mem_rows, mem_rows, Std.ExtTreeMap.getElem?_insert, Prod.mk.injEq]
  split
  · rename_i hc
    have hkl := Std.LawfulEqCmp.eq_of_compare hc
    subst hkl
    simp [h, eq_comm]
  · rename_i hc
    constructor
    · exact Or.inr
    · rintro (⟨rfl, _⟩ | hrow)
      · exact absurd Std.ReflCmp.compare_self hc
      · exact hrow

theorem total_insert_new (weight : κ → V → Nat) (table : Table κ V) (k : κ) (v : V)
    (h : table[k]? = none) : total weight (table.insert k v) = total weight table + weight k v := by
  obtain ⟨hnot, hrows⟩ := rows_insert_new table k v h
  unfold total
  rw [hrows, Finset.sum_cons, Nat.add_comm]

theorem toList_insert_new (table : Table κ V) (k : κ) (v : V) (h : table[k]? = none) :
    (table.insert k v).toList.Perm ((k, v) :: table.toList) := by
  obtain ⟨hnot, hrows⟩ := rows_insert_new table k v h
  exact Multiset.coe_eq_coe.mp (congrArg Finset.val hrows)

theorem total_erase (weight : κ → V → Nat) (table : Table κ V) (k : κ) :
    total weight (table.erase k) + contribution weight k table[k]? = total weight table := by
  cases h : table[k]? with
  | none =>
    rw [erase_eq_self table k h]
    rfl
  | some v =>
    have hback : (table.erase k).insert k v = table := by
      apply Std.ExtTreeMap.ext_getElem?
      intro l
      rw [Std.ExtTreeMap.getElem?_insert, Std.ExtTreeMap.getElem?_erase]
      split
      · rename_i hc
        rw [← Std.LawfulEqCmp.eq_of_compare hc, h]
      · rfl
    have hadd := total_insert_new weight (table.erase k) k v (by simp)
    rw [hback] at hadd
    exact hadd.symm

theorem total_set (weight : κ → V → Nat) (table : Table κ V) (k : κ) (row : Option V) :
    total weight (table.set k row) + contribution weight k table[k]? =
      total weight table + contribution weight k row := by
  have herase := total_erase weight table k
  cases row with
  | none =>
    simp only [set, contribution, Nat.add_zero]
    exact herase
  | some v =>
    have hback : (table.erase k).insert k v = table.insert k v := by
      apply Std.ExtTreeMap.ext_getElem?
      intro l
      rw [Std.ExtTreeMap.getElem?_insert, Std.ExtTreeMap.getElem?_insert,
        Std.ExtTreeMap.getElem?_erase]
      split <;> rfl
    have hadd := total_insert_new weight (table.erase k) k v (by simp)
    rw [hback] at hadd
    show total weight (table.insert k v) + contribution weight k table[k]? =
      total weight table + weight k v
    omega

theorem contribution_le_total (weight : κ → V → Nat) (table : Table κ V) (k : κ) :
    contribution weight k table[k]? ≤ total weight table := by
  have h := total_erase weight table k
  omega

theorem total_le_total (f g : κ → V → Nat) (table : Table κ V)
    (h : ∀ k v, table[k]? = some v → f k v ≤ g k v) : total f table ≤ total g table :=
  Finset.sum_le_sum fun row hrow => h row.1 row.2 ((mem_rows table row.1 row.2).mp hrow)

theorem eq_of_total_le_one (weight : κ → V → Nat) (table : Table κ V) (k l : κ) (v w : V)
    (htotal : total weight table ≤ 1) (hk : table[k]? = some v) (hl : table[l]? = some w)
    (hv : 0 < weight k v) (hw : 0 < weight l w) : k = l := by
  by_contra hne
  have herase := total_erase weight table k
  have hrest := contribution_le_total weight (table.erase k) l
  have hkeep : (table.erase k)[l]? = some w := by
    rw [← hl]
    exact getElem?_set_of_ne table k l none hne
  rw [hkeep] at hrest
  rw [hk] at herase
  simp only [contribution] at herase hrest
  omega

theorem total_eq_zero (weight : κ → V → Nat) (table : Table κ V) :
    total weight table = 0 ↔ ∀ k v, table[k]? = some v → weight k v = 0 := by
  unfold total
  rw [Finset.sum_eq_zero_iff]
  exact ⟨fun h k v hrow => h (k, v) ((mem_rows table k v).mpr hrow),
    fun h row hrow => h row.1 row.2 ((mem_rows table row.1 row.2).mp hrow)⟩

end Table
end Peryx
