import Mathlib.Data.List.Forall2
import Mathlib.Order.WellFoundedSet

/-!
# Recursion along a finite call graph

A recursive computation that calls itself on the list `calls i` and combines the results,
bounded in depth by fuel.
-/

namespace Peryx.CallTree
variable {ι β : Type} (calls : ι → List ι) (combine : ι → List β → β)

def eval : Nat → ι → Option β
  | 0, _ => none
  | fuel + 1, i => ((calls i).mapM (eval fuel)).map (combine i)

/-- `Called j i`: computing at `i` calls `j`. -/
def Called (j i : ι) : Prop := j ∈ calls i

theorem mapM_isSome {α : Type} (f : α → Option β) (l : List α) :
    (l.mapM f).isSome = true ↔ ∀ a ∈ l, (f a).isSome = true := by
  induction l with
  | nil => simp
  | cons a l ih =>
    rw [List.mapM_cons]
    cases ha : f a with
    | none => simp [ha]
    | some b =>
      cases hl : l.mapM f with
      | none =>
        rw [hl] at ih
        simpa [ha] using ih
      | some bs =>
        rw [hl] at ih
        simpa [ha] using ih

theorem eval_succ_isSome (fuel : Nat) (i : ι) :
    (eval calls combine (fuel + 1) i).isSome = true ↔
      ∀ j ∈ calls i, (eval calls combine fuel j).isSome = true := by
  rw [eval, Option.isSome_map, mapM_isSome]

theorem eval_isSome_mono (fuel more : Nat) (i : ι) (h : (eval calls combine fuel i).isSome = true) :
    (eval calls combine (fuel + more) i).isSome = true := by
  induction fuel generalizing i with
  | zero => cases h
  | succ fuel ih =>
    rw [Nat.add_right_comm]
    rw [eval_succ_isSome] at h ⊢
    exact fun j hj => ih j (h j hj)

theorem exists_common_fuel (l : List ι)
    (h : ∀ i ∈ l, ∃ fuel, (eval calls combine fuel i).isSome = true) :
    ∃ fuel, ∀ i ∈ l, (eval calls combine fuel i).isSome = true := by
  induction l with
  | nil => exact ⟨0, nofun⟩
  | cons i l ih =>
    obtain ⟨here, hhere⟩ := h i List.mem_cons_self
    obtain ⟨rest, hrest⟩ := ih fun j hj => h j (List.mem_cons_of_mem i hj)
    refine ⟨here + rest, fun j hj => ?_⟩
    rcases List.mem_cons.mp hj with rfl | hj
    · exact eval_isSome_mono calls combine here rest j hhere
    · rw [Nat.add_comm]
      exact eval_isSome_mono calls combine rest here j (hrest j hj)

theorem eval_rel {γ : Type} (related : β → γ → Prop) (other : ι → List γ → γ)
    (h : ∀ i results results', List.Forall₂ related results results' →
      related (combine i results) (other i results')) (fuel : Nat) (i : ι) :
    Option.Rel related (eval calls combine fuel i) (eval calls other fuel i) := by
  have hmapM : ∀ (l : List ι) (f : ι → Option β) (g : ι → Option γ),
      (∀ j, Option.Rel related (f j) (g j)) →
      Option.Rel (List.Forall₂ related) (l.mapM f) (l.mapM g) := by
    intro l f g hfg
    induction l with
    | nil => exact .some .nil
    | cons j l ih =>
      have hj := hfg j
      rw [List.mapM_cons, List.mapM_cons]
      generalize f j = head, g j = head', l.mapM f = tail, l.mapM g = tail' at hj ih ⊢
      cases hj with
      | none => exact .none
      | some hhead =>
        cases ih with
        | none => exact .none
        | some htail => exact .some (.cons hhead htail)
  induction fuel generalizing i with
  | zero => exact .none
  | succ fuel ih =>
    unfold eval
    have hcalls := hmapM (calls i) (eval calls combine fuel) (eval calls other fuel) ih
    generalize (calls i).mapM (eval calls combine fuel) = results,
      (calls i).mapM (eval calls other fuel) = results' at hcalls ⊢
    cases hcalls with
    | none => exact .none
    | some hresults => exact .some (h i _ _ hresults)

theorem exists_eval_iff (i : ι) :
    (∃ fuel, (eval calls combine fuel i).isSome = true) ↔ Acc (Called calls) i := by
  constructor
  · rintro ⟨fuel, h⟩
    induction fuel generalizing i with
    | zero => cases h
    | succ fuel ih =>
      rw [eval_succ_isSome] at h
      exact Acc.intro i fun j hj => ih j (h j hj)
  · intro h
    induction h with
    | intro i _ ih =>
      obtain ⟨fuel, hfuel⟩ := exists_common_fuel calls combine (calls i) ih
      exact ⟨fuel + 1, (eval_succ_isSome calls combine fuel i).mpr hfuel⟩

theorem acc_not_cycle {R : ι → ι → Prop} (i : ι) (h : Acc R i) : ¬ Relation.TransGen R i i := by
  have htrans := h.transGen
  clear h
  induction htrans with
  | intro i _ ih => exact fun hcycle => ih i hcycle hcycle

theorem acc_iff_acyclic (callers : Set ι) (hfinite : callers.Finite)
    (hcallers : ∀ i, i ∉ callers → calls i = []) :
    (∀ i, Acc (Called calls) i) ↔ ∀ i, ¬ Relation.TransGen (Called calls) i i := by
  constructor
  · exact fun h i => acc_not_cycle i (h i)
  · intro hacyclic
    have : IsStrictOrder ι (Relation.TransGen (Called calls)) :=
      { irrefl := hacyclic, trans := fun _ _ _ hab hbc => hab.trans hbc }
    have hwf := hfinite.wellFoundedOn (r := Relation.TransGen (Called calls))
    have hleaf : ∀ i, i ∉ callers → Acc (Called calls) i := by
      intro i hi
      refine Acc.intro i fun j hj => ?_
      rw [Called, hcallers i hi] at hj
      cases hj
    intro i
    by_cases hi : i ∈ callers
    · refine hwf.induction hi fun i _ ih => Acc.intro i fun j hj => ?_
      by_cases hj' : j ∈ callers
      · exact ih j hj' (Relation.TransGen.single hj)
      · exact hleaf j hj'
    · exact hleaf i hi

end Peryx.CallTree
