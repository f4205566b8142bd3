import Peryx.Library.WildcardPrefix

/-!
# What has been read at a reached position of a star pattern

A position is reached when the letters before it cover what was read, or when it
stands at a star that has been reading.
-/

namespace Peryx.Wildcard
variable {α : Type} [DecidableEq α]

theorem closeStars_reached (star : α) (pattern : List α) (reachable : List Bool) (k : ℕ)
    (h : (closeStars star pattern reachable)[k]? = some true) :
    reachable[k]? = some true ∨ ∃ j, k = j + 1 ∧ pattern[j]? = some star ∧
      (closeStars star pattern reachable)[j]? = some true := by
  induction pattern generalizing reachable k with
  | nil => exact Or.inl h
  | cons c pattern ih =>
    cases reachable with
    | nil => exact Or.inl h
    | cons here reachable =>
      cases reachable with
      | nil => exact Or.inl h
      | cons next rest =>
        rw [closeStars] at h ⊢
        cases k with
        | zero => exact Or.inl h
        | succ k =>
          rw [List.getElem?_cons_succ] at h
          rcases ih _ k h with hflag | ⟨j, hk, hj, hclosed⟩
          · cases k with
            | zero =>
              simp only [List.getElem?_cons_zero, Option.some.injEq, Bool.or_eq_true,
                Bool.and_eq_true, decide_eq_true_eq] at hflag
              rcases hflag with hnext | ⟨hhere, hc⟩
              · exact Or.inl (by simp [hnext])
              · exact Or.inr ⟨0, rfl, by simp [hc], by simp [hhere]⟩
            | succ k => exact Or.inl (by simpa using hflag)
          · exact Or.inr ⟨j + 1, by omega, by simpa using hj, by simpa using hclosed⟩

theorem advance_reached (star letter : α) (carry : Bool) (pattern : List α)
    (reachable : List Bool) (k : ℕ)
    (h : (advance star letter carry pattern reachable)[k]? = some true) :
    (k = 0 ∧ carry = true) ∨ (pattern[k]? = some star ∧ reachable[k]? = some true) ∨
      ∃ j, k = j + 1 ∧ pattern[j]? = some letter ∧ letter ≠ star ∧ reachable[j]? = some true := by
  induction pattern generalizing carry reachable k with
  | nil =>
    cases k with
    | zero => exact Or.inl ⟨rfl, by simpa [advance] using h⟩
    | succ k => simp [advance] at h
  | cons c pattern ih =>
    cases reachable with
    | nil =>
      cases k with
      | zero => exact Or.inl ⟨rfl, by simpa [advance] using h⟩
      | succ k => simp [advance] at h
    | cons here rest =>
      rw [advance] at h
      cases k with
      | zero =>
        simp only [List.getElem?_cons_zero, Option.some.injEq, Bool.or_eq_true, Bool.and_eq_true,
          decide_eq_true_eq] at h
        rcases h with hcarry | ⟨hhere, hc⟩
        · exact Or.inl ⟨rfl, hcarry⟩
        · exact Or.inr (Or.inl ⟨by simp [hc], by simp [hhere]⟩)
      | succ k =>
        rw [List.getElem?_cons_succ] at h
        rcases ih _ rest k h with ⟨hk, hcarry⟩ | ⟨hstar, hreached⟩ | ⟨j, hk, hj, hne, hreached⟩
        · simp only [Bool.and_eq_true, decide_eq_true_eq, ne_eq] at hcarry
          obtain ⟨⟨hhere, hc⟩, hletter⟩ := hcarry
          exact Or.inr (Or.inr ⟨0, by omega, by simp [hletter], hletter ▸ hc, by simp [hhere]⟩)
        · exact Or.inr (Or.inl ⟨by simpa using hstar, by simpa using hreached⟩)
        · exact Or.inr (Or.inr ⟨j + 1, by omega, by simpa using hj, hne, by simpa using hreached⟩)

omit [DecidableEq α] in
theorem suffixesAt_reached (pattern : List α) (reachable : List Bool) (rest : List α)
    (h : rest ∈ suffixesAt pattern reachable) :
    ∃ k, reachable[k]? = some true ∧ rest = pattern.drop k := by
  induction pattern generalizing reachable with
  | nil =>
    cases reachable with
    | nil => cases h
    | cons here flags =>
      rw [suffixesAt] at h
      split at h
      · rename_i hhere
        exact ⟨0, by simp [hhere], by simpa using h⟩
      · cases h
  | cons c pattern ih =>
    cases reachable with
    | nil => cases h
    | cons here flags =>
      rw [suffixesAt, List.mem_append] at h
      rcases h with hfirst | hlater
      · split at hfirst
        · rename_i hhere
          exact ⟨0, by simp [hhere], by simpa using hfirst⟩
        · cases hfirst
      · obtain ⟨k, hk, hrest⟩ := ih flags hlater
        exact ⟨k + 1, by simpa using hk, by simpa using hrest⟩

omit [DecidableEq α] in
/-- The letters before position `k` cover `start`, with the star at `k` reading if need be. -/
def Consumed (star : α) (pattern start : List α) (k : ℕ) : Prop :=
  Denotes star (pattern.take k) start ∨
    (pattern[k]? = some star ∧ Denotes star (pattern.take (k + 1)) start)

omit [DecidableEq α] in
theorem take_succ_of_get (pattern : List α) (k : ℕ) (c : α) (h : pattern[k]? = some c) :
    pattern.take (k + 1) = pattern.take k ++ [c] := by
  rw [List.take_add_one, h, Option.toList_some]

omit [DecidableEq α] in
theorem denotes_closing_star (star : α) (p s : List α) (h : Denotes star p s) :
    Denotes star (p ++ [star]) s :=
  (denotes_append star p [star] s).mpr
    ⟨s, [], (List.append_nil s).symm, h, (denotes_star star [] []).mpr ⟨[], List.suffix_refl [], rfl⟩⟩

omit [DecidableEq α] in
theorem denotes_reading_star (star letter : α) (p s : List α) (h : Denotes star (p ++ [star]) s) :
    Denotes star (p ++ [star]) (s ++ [letter]) := by
  obtain ⟨u, v, rfl, hu, _⟩ := (denotes_append star p [star] s).mp h
  have hrest : Denotes star [star] (v ++ [letter]) :=
    (denotes_star star [] _).mpr ⟨[], List.nil_suffix, rfl⟩
  exact (denotes_append star p [star] _).mpr ⟨u, v ++ [letter], by simp, hu, hrest⟩

omit [DecidableEq α] in
theorem Consumed.of_star (star : α) (pattern start : List α) (k : ℕ)
    (hstar : pattern[k]? = some star) (h : Consumed star pattern start k) :
    Denotes star (pattern.take (k + 1)) start := by
  rcases h with hbefore | ⟨_, hreading⟩
  · rw [take_succ_of_get pattern k star hstar]
    exact denotes_closing_star star _ start hbefore
  · exact hreading

omit [DecidableEq α] in
theorem Consumed.read_star (star letter : α) (pattern start : List α) (k : ℕ)
    (hstar : pattern[k]? = some star) (h : Consumed star pattern start k) :
    Consumed star pattern (start ++ [letter]) k := by
  have hreading := h.of_star star pattern start k hstar
  rw [take_succ_of_get pattern k star hstar] at hreading
  refine Or.inr ⟨hstar, ?_⟩
  rw [take_succ_of_get pattern k star hstar]
  exact denotes_reading_star star letter _ start hreading

omit [DecidableEq α] in
theorem Consumed.read_letter (star letter : α) (pattern start : List α) (k : ℕ)
    (hletter : pattern[k]? = some letter) (hne : letter ≠ star)
    (h : Consumed star pattern start k) : Consumed star pattern (start ++ [letter]) (k + 1) := by
  rcases h with hbefore | ⟨hstar, _⟩
  · refine Or.inl ?_
    rw [take_succ_of_get pattern k letter hletter, denotes_append]
    exact ⟨start, [letter], rfl, hbefore, (denotes_letter star letter [] _ hne).mpr ⟨[], rfl, rfl⟩⟩
  · rw [hletter] at hstar
    exact absurd (Option.some.inj hstar) hne

theorem closeStars_consumed (star : α) (pattern start : List α) (reachable : List Bool)
    (h : ∀ k, reachable[k]? = some true → Consumed star pattern start k) (k : ℕ)
    (hk : (closeStars star pattern reachable)[k]? = some true) :
    Consumed star pattern start k := by
  induction k with
  | zero =>
    rcases closeStars_reached star pattern reachable 0 hk with hflag | ⟨j, hj, _⟩
    · exact h 0 hflag
    · omega
  | succ k ih =>
    rcases closeStars_reached star pattern reachable (k + 1) hk with hflag | ⟨j, hj, hstar, hclosed⟩
    · exact h (k + 1) hflag
    · obtain rfl : k = j := by omega
      exact Or.inl ((ih hclosed).of_star star pattern start k hstar)

theorem reachableAfter_consumed (star : α) (pattern start : List α) (k : ℕ)
    (hk : (reachableAfter star pattern start)[k]? = some true) : Consumed star pattern start k := by
  induction start using List.reverseRecOn generalizing k with
  | nil =>
    have hinitial : ∀ k, (true :: pattern.map fun _ => false)[k]? = some true →
        Consumed star pattern [] k := by
      intro k hflag
      cases k with
      | zero => exact Or.inl rfl
      | succ k =>
        rw [List.getElem?_cons_succ, List.getElem?_map, Option.map_eq_some_iff] at hflag
        obtain ⟨_, _, hfalse⟩ := hflag
        cases hfalse
    exact closeStars_consumed star pattern [] _ hinitial k hk
  | append_singleton start letter ih =>
    unfold reachableAfter at hk
    rw [List.foldl_append, List.foldl_cons, List.foldl_nil] at hk
    refine closeStars_consumed star pattern _ _ (fun j hj => ?_) k hk
    rcases advance_reached star letter false pattern _ j hj with
      ⟨_, hfalse⟩ | ⟨hstar, hreached⟩ | ⟨i, hi, hletter, hne, hreached⟩
    · cases hfalse
    · exact (ih j hreached).read_star star letter pattern start j hstar
    · rw [hi]
      exact (ih i hreached).read_letter star letter pattern start i hletter hne

theorem remaindersAfter_consumed (star : α) (pattern start rest : List α)
    (h : rest ∈ remaindersAfter star pattern start) :
    ∃ front, pattern = front ++ rest ∧ (Denotes star front start ∨ rest.head? = some star) := by
  obtain ⟨k, hk, hrest⟩ := suffixesAt_reached pattern _ rest h
  refine ⟨pattern.take k, by rw [hrest, List.take_append_drop], ?_⟩
  rcases reachableAfter_consumed star pattern start k hk with hbefore | ⟨hstar, _⟩
  · exact Or.inl hbefore
  · right
    rw [hrest, List.head?_drop, hstar]

end Peryx.Wildcard
