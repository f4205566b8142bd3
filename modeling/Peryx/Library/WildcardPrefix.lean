import Mathlib.Data.List.Induction
import Peryx.Library.Wildcard

/-!
# What is left of a star pattern after a prefix

The positions of a pattern that can have been reached after reading a prefix, one flag for
each position and one for the end.
-/

namespace Peryx.Wildcard
variable {α : Type} [DecidableEq α]

def closeStars (star : α) : List α → List Bool → List Bool
  | c :: pattern, here :: next :: rest =>
    here :: closeStars star pattern ((next || (here && decide (c = star))) :: rest)
  | _, reachable => reachable

/-- The positions reached by reading one more letter; the flag is what the position
before passed on. -/
def advance (star letter : α) (carry : Bool) : List α → List Bool → List Bool
  | c :: pattern, here :: rest =>
    (carry || (here && decide (c = star))) ::
      advance star letter (here && decide (c ≠ star) && decide (c = letter)) pattern rest
  | _, _ => [carry]

def initial (star : α) (pattern : List α) : List Bool :=
  closeStars star pattern (true :: pattern.map fun _ => false)

def reachableAfter (star : α) (pattern start : List α) : List Bool :=
  start.foldl (fun reachable letter =>
    closeStars star pattern (advance star letter false pattern reachable)) (initial star pattern)

def suffixesAt : List α → List Bool → List (List α)
  | c :: pattern, here :: rest =>
    (if here then [c :: pattern] else []) ++ suffixesAt pattern rest
  | [], here :: _ => if here then [[]] else []
  | _, [] => []

/-- The pattern suffixes that can still match once `start` has been read. -/
def remaindersAfter (star : α) (pattern start : List α) : List (List α) :=
  suffixesAt pattern (reachableAfter star pattern start)

/-- Whether something beginning with `start` can match. -/
def acceptsPrefix (star : α) (pattern start : List α) : Bool :=
  !(remaindersAfter star pattern start).isEmpty

omit [DecidableEq α] in
def Live (star : α) (pattern : List α) (reachable : List Bool) (subject : List α) : Prop :=
  ∃ suffix ∈ suffixesAt pattern reachable, Denotes star suffix subject

omit [DecidableEq α] in
theorem live_cons (star c : α) (pattern : List α) (here : Bool) (rest : List Bool)
    (subject : List α) : Live star (c :: pattern) (here :: rest) subject ↔
      (here = true ∧ Denotes star (c :: pattern) subject) ∨ Live star pattern rest subject := by
  unfold Live
  rw [suffixesAt]
  cases here <;> simp

omit [DecidableEq α] in
theorem live_nil (star : α) (here : Bool) (rest : List Bool) (subject : List α) :
    Live star [] (here :: rest) subject ↔ here = true ∧ subject = [] := by
  unfold Live
  rw [suffixesAt]
  cases here <;> simp

omit [DecidableEq α] in
theorem not_live_of_unreached (star : α) (pattern : List α) (reachable : List Bool)
    (subject : List α) (h : ∀ here ∈ reachable, here = false) :
    ¬ Live star pattern reachable subject := by
  induction pattern generalizing reachable with
  | nil =>
    cases reachable with
    | nil =>
      rintro ⟨_, hmem, _⟩
      exact absurd hmem List.not_mem_nil
    | cons here rest =>
      rw [live_nil, h here List.mem_cons_self]
      nofun
  | cons c pattern ih =>
    cases reachable with
    | nil =>
      rintro ⟨_, hmem, _⟩
      exact absurd hmem List.not_mem_nil
    | cons here rest =>
      rw [live_cons, h here List.mem_cons_self]
      rintro (⟨hfalse, _⟩ | hlive)
      · cases hfalse
      · exact ih rest (fun b hb => h b (List.mem_cons_of_mem _ hb)) hlive

omit [DecidableEq α] in
theorem live_head_or (star : α) (pattern : List α) (here more : Bool) (rest : List Bool)
    (subject : List α) : Live star pattern ((here || more) :: rest) subject ↔
      Live star pattern (here :: rest) subject ∨ (more = true ∧ Denotes star pattern subject) := by
  cases pattern with
  | nil =>
    simp only [live_nil, Bool.or_eq_true, denotes_nil]
    exact or_and_right
  | cons c pattern =>
    simp only [live_cons, Bool.or_eq_true, or_and_right, or_assoc]
    exact or_congr_right or_comm

theorem live_closeStars (star : α) (pattern : List α) (reachable : List Bool) (subject : List α) :
    Live star pattern (closeStars star pattern reachable) subject ↔
      Live star pattern reachable subject := by
  induction pattern generalizing reachable with
  | nil => rfl
  | cons c pattern ih =>
    match reachable with
    | [] => rfl
    | [here] => rfl
    | here :: next :: rest =>
      rw [closeStars, live_cons, live_cons, ih, live_head_or]
      have hskip : (here && decide (c = star)) = true → Denotes star pattern subject →
          here = true ∧ Denotes star (c :: pattern) subject := by
        intro hstar hd
        simp only [Bool.and_eq_true, decide_eq_true_eq] at hstar
        rw [hstar.2]
        exact ⟨hstar.1, (denotes_star star pattern subject).mpr
          ⟨subject, List.suffix_refl subject, hd⟩⟩
      constructor
      · rintro (hhere | hnext | ⟨hstar, hd⟩)
        · exact Or.inl hhere
        · exact Or.inr hnext
        · exact Or.inl (hskip hstar hd)
      · rintro (hhere | hnext)
        · exact Or.inl hhere
        · exact Or.inr (Or.inl hnext)

def Closed (star : α) : List α → List Bool → Prop
  | c :: pattern, here :: next :: rest =>
    (here = true → c = star → next = true) ∧ Closed star pattern (next :: rest)
  | _ :: _, _ => False
  | [], reachable => reachable.length = 1

theorem closeStars_head (star : α) (pattern : List α) (here : Bool) (rest : List Bool) :
    ∃ tail, closeStars star pattern (here :: rest) = here :: tail := by
  cases pattern with
  | nil => exact ⟨rest, rfl⟩
  | cons c pattern =>
    cases rest with
    | nil => exact ⟨[], rfl⟩
    | cons next rest => exact ⟨_, rfl⟩

theorem closed_closeStars (star : α) (pattern : List α) (reachable : List Bool)
    (h : reachable.length = pattern.length + 1) :
    Closed star pattern (closeStars star pattern reachable) := by
  induction pattern generalizing reachable with
  | nil => exact h
  | cons c pattern ih =>
    match reachable, h with
    | here :: next :: rest, h =>
      rw [closeStars]
      obtain ⟨tail, htail⟩ := closeStars_head star pattern (next || (here && decide (c = star))) rest
      have hclosed := ih ((next || (here && decide (c = star))) :: rest) (by simpa using h)
      rw [htail] at hclosed ⊢
      refine ⟨fun hhere hc => ?_, hclosed⟩
      simp [hhere, hc]

theorem advance_length (star letter : α) (carry : Bool) (pattern : List α) (reachable : List Bool)
    (h : reachable.length = pattern.length + 1) :
    (advance star letter carry pattern reachable).length = pattern.length + 1 := by
  induction pattern generalizing carry reachable with
  | nil => rfl
  | cons c pattern ih =>
    match reachable, h with
    | here :: rest, h =>
      rw [advance, List.length_cons, ih _ rest (by simpa using h), List.length_cons]

omit [DecidableEq α] in
theorem closed_length (star : α) (pattern : List α) (reachable : List Bool)
    (h : Closed star pattern reachable) : reachable.length = pattern.length + 1 := by
  induction pattern generalizing reachable with
  | nil => exact h
  | cons c pattern ih =>
    match reachable, h with
    | here :: next :: rest, h =>
      rw [List.length_cons, ih (next :: rest) h.2, List.length_cons]

theorem live_advance (star letter : α) (carry : Bool) (pattern : List α) (reachable : List Bool)
    (subject : List α) (h : Closed star pattern reachable) :
    Live star pattern (advance star letter carry pattern reachable) subject ↔
      (carry = true ∧ Denotes star pattern subject) ∨
        Live star pattern reachable (letter :: subject) := by
  induction pattern generalizing carry reachable with
  | nil =>
    obtain ⟨here, rfl⟩ := List.length_eq_one_iff.mp h
    have hread : advance star letter carry [] [here] = [carry] := rfl
    rw [hread, live_nil, live_nil]
    simp
  | cons c pattern ih =>
    match reachable, h with
    | here :: next :: rest, h =>
      rw [advance, live_cons, ih _ (next :: rest) h.2, live_cons]
      by_cases hc : c = star
      · -- a reached star reads the letter and stays, or is passed, and the next position is reached
        have hstay : Denotes star (c :: pattern) (letter :: subject) ↔
            Denotes star (c :: pattern) subject ∨ Denotes star pattern (letter :: subject) := by
          rw [hc, denotes_star, denotes_star]
          constructor
          · rintro ⟨t, ht, hd⟩
            rcases List.suffix_cons_iff.mp ht with rfl | ht
            · exact Or.inr hd
            · exact Or.inl ⟨t, ht, hd⟩
          · rintro (⟨t, ht, hd⟩ | hd)
            · exact ⟨t, ht.trans (List.suffix_cons letter subject), hd⟩
            · exact ⟨letter :: subject, List.suffix_refl _, hd⟩
        have hnext : here = true → Denotes star pattern (letter :: subject) →
            Live star pattern (next :: rest) (letter :: subject) := by
          intro hhere hd
          rw [h.1 hhere hc]
          exact (live_head_or star pattern true true rest (letter :: subject)).mpr (Or.inr ⟨rfl, hd⟩)
        simp only [Bool.or_eq_true, Bool.and_eq_true, hc, decide_true, and_true, ne_eq,
          not_true_eq_false, decide_false, Bool.and_false, Bool.false_and, Bool.false_eq_true,
          false_and, false_or]
        rw [hc] at hstay
        rw [hstay]
        constructor
        · rintro (⟨hcarry | hhere, hd⟩ | hlive)
          · exact Or.inl ⟨hcarry, hd⟩
          · exact Or.inr (Or.inl ⟨hhere, Or.inl hd⟩)
          · exact Or.inr (Or.inr hlive)
        · rintro (⟨hcarry, hd⟩ | ⟨hhere, hd | hd⟩ | hlive)
          · exact Or.inl ⟨Or.inl hcarry, hd⟩
          · exact Or.inl ⟨Or.inr hhere, hd⟩
          · exact Or.inr (hnext hhere hd)
          · exact Or.inr hlive
      · have hread : Denotes star (c :: pattern) (letter :: subject) ↔
            c = letter ∧ Denotes star pattern subject := by
          rw [denotes_letter star c pattern _ hc]
          constructor
          · rintro ⟨v, hv, hd⟩
            cases hv
            exact ⟨rfl, hd⟩
          · rintro ⟨rfl, hd⟩
            exact ⟨subject, rfl, hd⟩
        rw [hread]
        simp only [Bool.or_eq_true, Bool.and_eq_true, hc, decide_false, Bool.false_eq_true,
          and_false, or_false, ne_eq, not_false_eq_true, decide_true, decide_eq_true_eq, and_true,
          and_assoc]

theorem reachableAfter_spec (star : α) (pattern start : List α) :
    Closed star pattern (reachableAfter star pattern start) ∧
      ∀ subject, Live star pattern (reachableAfter star pattern start) subject ↔
        Denotes star pattern (start ++ subject) := by
  have hstart : Closed star pattern (initial star pattern) ∧
      ∀ subject, Live star pattern (initial star pattern) subject ↔ Denotes star pattern subject := by
    refine ⟨closed_closeStars star pattern _ (by simp), fun subject => ?_⟩
    rw [initial, live_closeStars]
    cases pattern with
    | nil => simp [live_nil]
    | cons c pattern =>
      have hrest : ¬ Live star pattern ((c :: pattern).map fun _ => false) subject := by
        apply not_live_of_unreached
        simp
      rw [live_cons, or_iff_left hrest]
      simp
  unfold reachableAfter
  generalize initial star pattern = reachable at hstart
  induction start using List.reverseRecOn with
  | nil => exact hstart
  | append_singleton start letter ih =>
    rw [List.foldl_append, List.foldl_cons, List.foldl_nil]
    generalize start.foldl _ reachable = before at ih
    have hlen := advance_length star letter false pattern before (closed_length star pattern before ih.1)
    refine ⟨closed_closeStars star pattern _ hlen, fun subject => ?_⟩
    rw [live_closeStars, live_advance star letter false pattern before subject ih.1, ih.2]
    simp

theorem remaindersAfter_iff (star : α) (pattern start subject : List α) :
    (∃ rest ∈ remaindersAfter star pattern start, Denotes star rest subject) ↔
      Denotes star pattern (start ++ subject) :=
  (reachableAfter_spec star pattern start).2 subject

omit [DecidableEq α] in
theorem exists_denotes (star : α) (pattern : List α) : ∃ s, Denotes star pattern s := by
  induction pattern with
  | nil => exact ⟨[], rfl⟩
  | cons c pattern ih =>
    obtain ⟨s, hs⟩ := ih
    by_cases hc : c = star
    · rw [hc]
      exact ⟨s, (denotes_star star pattern s).mpr ⟨s, List.suffix_refl s, hs⟩⟩
    · exact ⟨c :: s, (denotes_letter star c pattern _ hc).mpr ⟨s, rfl, hs⟩⟩

theorem acceptsPrefix_iff (star : α) (pattern start : List α) :
    acceptsPrefix star pattern start = true ↔ ∃ s, Denotes star pattern (start ++ s) := by
  have hne : acceptsPrefix star pattern start = true ↔
      ∃ rest, rest ∈ remaindersAfter star pattern start := by
    unfold acceptsPrefix
    cases remaindersAfter star pattern start with
    | nil => simp
    | cons rest others => simp
  rw [hne]
  constructor
  · rintro ⟨rest, hrest⟩
    obtain ⟨s, hs⟩ := exists_denotes star rest
    exact ⟨s, (remaindersAfter_iff star pattern start s).mp ⟨rest, hrest, hs⟩⟩
  · rintro ⟨s, hs⟩
    obtain ⟨rest, hrest, _⟩ := (remaindersAfter_iff star pattern start s).mpr hs
    exact ⟨rest, hrest⟩

/-- Every reached position satisfies `Q` of the letter before it and the suffix at it. -/
def AllReached (Q : Option α → List α → Prop) : Option α → List α → List Bool → Prop
  | before, c :: pattern, here :: rest =>
    (here = true → Q before (c :: pattern)) ∧ AllReached Q (some c) pattern rest
  | before, [], here :: _ => here = true → Q before []
  | _, _, [] => True

/-- A suffix that stands at the start, at a star, behind a star or behind `letter`. -/
def Entered (star letter : α) (before : Option α) (suffix : List α) : Prop :=
  before = none ∨ before = some star ∨ before = some letter ∨ suffix.head? = some star

omit [DecidableEq α] in
theorem allReached_head_or (Q : Option α → List α → Prop) (before : Option α) (pattern : List α)
    (here more : Bool) (rest : List Bool) (h : AllReached Q before pattern (here :: rest))
    (hmore : more = true → Q before pattern) :
    AllReached Q before pattern ((here || more) :: rest) := by
  cases pattern with
  | nil =>
    intro hor
    rcases Bool.or_eq_true_iff.mp hor with hhere | hmore'
    · exact h hhere
    · exact hmore hmore'
  | cons c pattern =>
    refine ⟨fun hor => ?_, h.2⟩
    rcases Bool.or_eq_true_iff.mp hor with hhere | hmore'
    · exact h.1 hhere
    · exact hmore hmore'

theorem allReached_closeStars (star letter : α) (before : Option α) (pattern : List α)
    (reachable : List Bool) (h : AllReached (Entered star letter) before pattern reachable) :
    AllReached (Entered star letter) before pattern (closeStars star pattern reachable) := by
  induction pattern generalizing before reachable with
  | nil => exact h
  | cons c pattern ih =>
    match reachable, h with
    | [], h => exact h
    | [here], h => exact h
    | here :: next :: rest, h =>
      rw [closeStars]
      refine ⟨h.1, ih _ _ (allReached_head_or _ _ _ _ _ _ h.2 fun hskip => ?_)⟩
      simp only [Bool.and_eq_true, decide_eq_true_eq] at hskip
      exact Or.inr (Or.inl (by rw [hskip.2]))

theorem allReached_advance (star letter : α) (before : Option α) (carry : Bool) (pattern : List α)
    (reachable : List Bool) (hcarry : carry = true → before = some letter) :
    AllReached (Entered star letter) before pattern
      (advance star letter carry pattern reachable) := by
  induction pattern generalizing before carry reachable with
  | nil => exact fun h => Or.inr (Or.inr (Or.inl (hcarry h)))
  | cons c pattern ih =>
    cases reachable with
    | nil => exact ⟨fun h => Or.inr (Or.inr (Or.inl (hcarry h))), by cases pattern <;> trivial⟩
    | cons here rest =>
      rw [advance]
      constructor
      · intro hreached
        rcases Bool.or_eq_true_iff.mp hreached with h | h
        · exact Or.inr (Or.inr (Or.inl (hcarry h)))
        · have hstar : c = star := by
            simp only [Bool.and_eq_true, decide_eq_true_eq] at h
            exact h.2
          exact Or.inr (Or.inr (Or.inr (by rw [hstar]; rfl)))
      · apply ih
        intro hread
        simp only [Bool.and_eq_true, decide_eq_true_eq] at hread
        rw [hread.2]

omit [DecidableEq α] in
theorem allReached_of_unreached (Q : Option α → List α → Prop) (before : Option α)
    (pattern : List α) (reachable : List Bool) (h : ∀ here ∈ reachable, here = false) :
    AllReached Q before pattern reachable := by
  induction pattern generalizing before reachable with
  | nil =>
    cases reachable with
    | nil => trivial
    | cons here rest =>
      rw [h here List.mem_cons_self]
      nofun
  | cons c pattern ih =>
    cases reachable with
    | nil => trivial
    | cons here rest =>
      rw [h here List.mem_cons_self]
      exact ⟨nofun, ih (some c) rest fun b hb => h b (List.mem_cons_of_mem _ hb)⟩

omit [DecidableEq α] in
theorem allReached_initial (Q : Option α → List α → Prop) (before : Option α) (pattern : List α)
    (h : Q before pattern) :
    AllReached Q before pattern (true :: pattern.map fun _ => false) := by
  cases pattern with
  | nil => exact fun _ => h
  | cons c pattern => exact ⟨fun _ => h, allReached_of_unreached Q (some c) pattern _ (by simp)⟩

omit [DecidableEq α] in
theorem suffixesAt_of_allReached (Q : Option α → List α → Prop) (before : Option α)
    (pattern : List α) (reachable : List Bool) (h : AllReached Q before pattern reachable)
    (rest : List α) (hrest : rest ∈ suffixesAt pattern reachable) :
    ∃ front, pattern = front ++ rest ∧ Q (front.getLast?.or before) rest := by
  induction pattern generalizing before reachable with
  | nil =>
    match reachable, h, hrest with
    | here :: _, h, hrest =>
      rw [suffixesAt] at hrest
      split at hrest
      · rename_i hhere
        obtain rfl := List.mem_singleton.mp hrest
        exact ⟨[], rfl, h hhere⟩
      · cases hrest
  | cons c pattern ih =>
    match reachable, h, hrest with
    | here :: flags, h, hrest =>
      rw [suffixesAt, List.mem_append] at hrest
      rcases hrest with hrest | hrest
      · split at hrest
        · rename_i hhere
          obtain rfl := List.mem_singleton.mp hrest
          exact ⟨[], rfl, h.1 hhere⟩
        · cases hrest
      · obtain ⟨front, heq, hq⟩ := ih (some c) flags h.2 hrest
        refine ⟨c :: front, by rw [heq, List.cons_append], ?_⟩
        cases hl : front.getLast? with
        | none =>
          rw [hl, Option.none_or] at hq
          rw [List.getLast?_eq_none_iff.mp hl, List.getLast?_singleton, Option.some_or]
          exact hq
        | some last =>
          rw [hl, Option.some_or] at hq
          rw [List.getLast?_cons, hl, Option.getD_some, Option.some_or]
          exact hq

theorem remaindersAfter_entered (star : α) (pattern start rest : List α)
    (h : rest ∈ remaindersAfter star pattern start) :
    ∃ front, pattern = front ++ rest ∧
      (front.getLast? = none ∨ front.getLast? = some star ∨
        (start ≠ [] ∧ front.getLast? = start.getLast?) ∨ rest.head? = some star) := by
  have hall : ∀ letter, (∀ last ∈ start.getLast?, letter = last) →
      AllReached (Entered star letter) none pattern (reachableAfter star pattern start) := by
    intro letter hletter
    unfold reachableAfter
    rcases List.eq_nil_or_concat start with rfl | ⟨front, last, rfl⟩
    · exact allReached_closeStars star letter none pattern _
        (allReached_initial _ none pattern (Or.inl rfl))
    · obtain rfl := hletter last (by simp)
      rw [List.concat_eq_append, List.foldl_append, List.foldl_cons, List.foldl_nil]
      exact allReached_closeStars star letter none pattern _
        (allReached_advance star letter none false pattern _ nofun)
  rcases List.eq_nil_or_concat start with rfl | ⟨before, last, rfl⟩
  · obtain ⟨front, heq, hq⟩ := suffixesAt_of_allReached _ none pattern _ (hall star nofun) rest h
    rw [Option.or_none] at hq
    refine ⟨front, heq, ?_⟩
    rcases hq with hnone | hstar | hstar | hhead
    · exact Or.inl hnone
    · exact Or.inr (Or.inl hstar)
    · exact Or.inr (Or.inl hstar)
    · exact Or.inr (Or.inr (Or.inr hhead))
  · obtain ⟨front, heq, hq⟩ := suffixesAt_of_allReached _ none pattern _
      (hall last (by simp)) rest h
    rw [Option.or_none] at hq
    refine ⟨front, heq, ?_⟩
    rcases hq with hnone | hstar | hlast | hhead
    · exact Or.inl hnone
    · exact Or.inr (Or.inl hstar)
    · exact Or.inr (Or.inr (Or.inl ⟨by simp, by rw [hlast]; simp⟩))
    · exact Or.inr (Or.inr (Or.inr hhead))

end Peryx.Wildcard
