import Mathlib.Data.List.Basic

/-!
# Segments with a separator behind each

Where no segment holds the separator, the segments can be read back from what is written,
and one sequence is written as the beginning of another exactly when it is the beginning.
-/

namespace Peryx.Terminated
variable {α : Type} (sep : α)

def join (segments : List (List α)) : List α := segments.flatMap (· ++ [sep])

def Free (segments : List (List α)) : Prop := ∀ segment ∈ segments, sep ∉ segment

@[simp] theorem join_nil : join sep [] = [] := rfl

theorem join_cons (segment : List α) (segments : List (List α)) :
    join sep (segment :: segments) = segment ++ sep :: join sep segments := by
  unfold join
  rw [List.flatMap_cons, List.append_assoc, List.singleton_append]

theorem join_append (front back : List (List α)) :
    join sep (front ++ back) = join sep front ++ join sep back := by
  unfold join
  rw [List.flatMap_append]

variable {sep}

theorem Free.append {front back : List (List α)} (hfront : Free sep front) (hback : Free sep back) :
    Free sep (front ++ back) := by
  intro segment hmem
  rcases List.mem_append.mp hmem with hmem | hmem
  · exact hfront segment hmem
  · exact hback segment hmem

theorem Free.cons {segment : List α} {segments : List (List α)} (h : sep ∉ segment)
    (hrest : Free sep segments) : Free sep (segment :: segments) :=
  List.forall_mem_cons.mpr ⟨h, hrest⟩

theorem free_nil : Free sep [] := List.forall_mem_nil _

theorem append_cons_inj {a b x y : List α} (ha : sep ∉ a) (hb : sep ∉ b)
    (h : a ++ sep :: x = b ++ sep :: y) : a = b ∧ x = y := by
  induction a generalizing b with
  | nil =>
    cases b with
    | nil => exact ⟨rfl, (List.cons.inj h).2⟩
    | cons first b => exact absurd (List.cons.inj h).1 fun heq => hb (heq ▸ List.mem_cons_self)
  | cons first a ih =>
    cases b with
    | nil => exact absurd (List.cons.inj h).1 fun heq => ha (heq ▸ List.mem_cons_self)
    | cons second b =>
      obtain ⟨hfirst, hrest⟩ := List.cons.inj h
      obtain ⟨hfronts, hbacks⟩ := ih (fun hmem => ha (List.mem_cons_of_mem _ hmem))
        (fun hmem => hb (List.mem_cons_of_mem _ hmem)) hrest
      exact ⟨by rw [hfirst, hfronts], hbacks⟩

theorem prefix_join_iff {front segments : List (List α)} {tail : List α} (hfront : Free sep front)
    (hsegments : Free sep segments) (htail : sep ∉ tail) :
    join sep front <+: join sep segments ++ tail ↔ front <+: segments := by
  induction front generalizing segments with
  | nil => exact iff_of_true (List.nil_prefix) (List.nil_prefix)
  | cons first front ih =>
    obtain ⟨hfirst, hrest⟩ := List.forall_mem_cons.mp hfront
    rw [join_cons]
    cases segments with
    | nil =>
      refine iff_of_false (fun h => htail ?_) (by simp)
      exact h.subset (List.mem_append_right _ List.mem_cons_self)
    | cons segment segments =>
      obtain ⟨hsegment, hothers⟩ := List.forall_mem_cons.mp hsegments
      rw [join_cons, List.cons_prefix_cons, ← ih hrest hothers, List.append_assoc, List.cons_append]
      constructor
      · rintro ⟨back, hback⟩
        rw [List.append_assoc, List.cons_append] at hback
        obtain ⟨heq, hbacks⟩ := append_cons_inj hfirst hsegment hback
        exact ⟨heq, back, hbacks⟩
      · rintro ⟨heq, hprefix⟩
        rw [heq, List.prefix_append_right_inj, List.cons_prefix_cons]
        exact ⟨rfl, hprefix⟩

theorem join_append_inj {front segments : List (List α)} {x y : List α} (hfront : Free sep front)
    (hsegments : Free sep segments) (hx : sep ∉ x) (hy : sep ∉ y)
    (h : join sep front ++ x = join sep segments ++ y) : front = segments ∧ x = y := by
  have hle : front <+: segments :=
    (prefix_join_iff hfront hsegments hy).mp (h ▸ List.prefix_append _ _)
  have hge : segments <+: front :=
    (prefix_join_iff hsegments hfront hx).mp (h ▸ List.prefix_append _ _)
  have heq : front = segments := hle.eq_of_length (Nat.le_antisymm hle.length_le hge.length_le)
  rw [heq] at h
  exact ⟨heq, List.append_cancel_left h⟩

theorem exists_join (sep : α) (text : List α) : ∃ segments, Free sep segments ∧
    join sep segments = text ++ [sep] := by
  induction text with
  | nil => exact ⟨[[]], Free.cons List.not_mem_nil free_nil, rfl⟩
  | cons first text ih =>
    obtain ⟨segments, hfree, hjoin⟩ := ih
    by_cases hsep : first = sep
    · refine ⟨[] :: segments, Free.cons List.not_mem_nil hfree, ?_⟩
      rw [join_cons, hjoin, hsep]
      rfl
    · cases segments with
      | nil =>
        have hempty := congrArg List.length hjoin
        simp at hempty
      | cons segment segments =>
        obtain ⟨hsegment, hrest⟩ := List.forall_mem_cons.mp hfree
        refine ⟨(first :: segment) :: segments, Free.cons ?_ hrest, ?_⟩
        · rw [List.mem_cons, not_or]
          exact ⟨Ne.symm hsep, hsegment⟩
        · rw [join_cons] at hjoin ⊢
          rw [List.cons_append, hjoin]
          rfl

end Peryx.Terminated
