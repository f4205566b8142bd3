import Peryx.Library.Wildcard

/-!
# Sequences of single-letter expressions

The regular expressions that are sequences of a letter or "any letter but the end of
a line", each read once or any number of times, their language, a decision procedure,
and the expression a star pattern stands for.
-/

namespace Peryx.Regex
variable {α : Type}

inductive Atom (α : Type) where
  | letter (c : α)
  | any
  deriving DecidableEq

structure Piece (α : Type) where
  atom : Atom α
  starred : Bool
  deriving DecidableEq

def Atom.Accepts (eol : α) : Atom α → α → Prop
  | .letter c, d => d = c
  | .any, d => d ≠ eol

inductive Matches (eol : α) : List (Piece α) → List α → Prop
  | nil : Matches eol [] []
  | once (atom : Atom α) (pieces : List (Piece α)) (c : α) (s : List α) :
      atom.Accepts eol c → Matches eol pieces s → Matches eol (⟨atom, false⟩ :: pieces) (c :: s)
  | stop (atom : Atom α) (pieces : List (Piece α)) (s : List α) :
      Matches eol pieces s → Matches eol (⟨atom, true⟩ :: pieces) s
  | more (atom : Atom α) (pieces : List (Piece α)) (c : α) (s : List α) :
      atom.Accepts eol c → Matches eol (⟨atom, true⟩ :: pieces) s →
      Matches eol (⟨atom, true⟩ :: pieces) (c :: s)

theorem matches_nil (eol : α) (s : List α) : Matches eol [] s ↔ s = [] := by
  constructor
  · intro h
    cases h
    rfl
  · rintro rfl
    exact Matches.nil

theorem matches_once (eol : α) (atom : Atom α) (pieces : List (Piece α)) (s : List α) :
    Matches eol (⟨atom, false⟩ :: pieces) s ↔
      ∃ c rest, s = c :: rest ∧ atom.Accepts eol c ∧ Matches eol pieces rest := by
  constructor
  · intro h
    cases h with
    | once _ _ c rest hc hrest => exact ⟨c, rest, rfl, hc, hrest⟩
  · rintro ⟨c, rest, rfl, hc, hrest⟩
    exact Matches.once atom pieces c rest hc hrest

theorem matches_starred (eol : α) (atom : Atom α) (pieces : List (Piece α)) (s : List α) :
    Matches eol (⟨atom, true⟩ :: pieces) s ↔
      Matches eol pieces s ∨ ∃ c rest, s = c :: rest ∧ atom.Accepts eol c ∧
        Matches eol (⟨atom, true⟩ :: pieces) rest := by
  constructor
  · intro h
    cases h with
    | stop _ _ _ h => exact Or.inl h
    | more _ _ c rest hc hrest => exact Or.inr ⟨c, rest, rfl, hc, hrest⟩
  · rintro (h | ⟨c, rest, rfl, hc, hrest⟩)
    · exact Matches.stop atom pieces s h
    · exact Matches.more atom pieces c rest hc hrest

section Decide
variable [DecidableEq α]

def Atom.accepts (eol : α) : Atom α → α → Bool
  | .letter c, d => d == c
  | .any, d => d != eol

theorem Atom.accepts_iff (eol : α) (atom : Atom α) (c : α) :
    atom.accepts eol c = true ↔ atom.Accepts eol c := by
  cases atom <;> simp [Atom.accepts, Atom.Accepts]

/-- What can be left of a text after a run of letters `p` accepts. -/
def afterRun (p : α → Bool) : List α → List (List α)
  | [] => [[]]
  | c :: s => (c :: s) :: if p c then afterRun p s else []

def run (eol : α) : List (Piece α) → List α → Bool
  | [], s => s.isEmpty
  | ⟨atom, false⟩ :: pieces, s =>
    match s with
    | c :: rest => atom.accepts eol c && run eol pieces rest
    | [] => false
  | ⟨atom, true⟩ :: pieces, s => (afterRun (atom.accepts eol) s).any (run eol pieces)

theorem run_iff (eol : α) (pieces : List (Piece α)) (s : List α) :
    run eol pieces s = true ↔ Matches eol pieces s := by
  induction pieces generalizing s with
  | nil => simp [run, matches_nil]
  | cons piece pieces ih =>
    obtain ⟨atom, starred⟩ := piece
    cases starred with
    | false =>
      rw [matches_once]
      cases s with
      | nil => simp [run]
      | cons c rest => simp [run, ih, Atom.accepts_iff]
    | true =>
      rw [run]
      induction s with
      | nil =>
        rw [matches_starred, ← ih]
        simp [afterRun]
      | cons c rest ihrest =>
        rw [matches_starred, afterRun, List.any_cons, Bool.or_eq_true, ih]
        by_cases hc : atom.accepts eol c = true
        · rw [if_pos hc, ihrest]
          have hc' := (Atom.accepts_iff eol atom c).mp hc
          constructor
          · rintro (h | h)
            · exact Or.inl h
            · exact Or.inr ⟨c, rest, rfl, hc', h⟩
          · rintro (h | ⟨_, _, heq, _, h⟩)
            · exact Or.inl h
            · cases heq
              exact Or.inr h
        · rw [if_neg hc, List.any_nil]
          constructor
          · rintro (h | h)
            · exact Or.inl h
            · cases h
          · rintro (h | ⟨_, _, heq, haccept, _⟩)
            · exact Or.inl h
            · cases heq
              exact absurd ((Atom.accepts_iff eol atom c).mpr haccept) hc

end Decide

section Stars
variable [DecidableEq α]

/-- A star pattern as an expression: its star is any letter, any number of times. -/
def ofStars (star : α) (pattern : List α) : List (Piece α) :=
  pattern.map fun c => if c = star then ⟨.any, true⟩ else ⟨.letter c, false⟩

omit [DecidableEq α] in
theorem matches_any_run (eol : α) (pieces : List (Piece α)) (s : List α) (h : eol ∉ s) :
    Matches eol (⟨.any, true⟩ :: pieces) s ↔ ∃ t, t <:+ s ∧ Matches eol pieces t := by
  induction s with
  | nil =>
    rw [matches_starred]
    simp
  | cons c rest ih =>
    obtain ⟨hc, hrest⟩ := not_or.mp (mt List.mem_cons.mpr h)
    rw [matches_starred]
    constructor
    · rintro (hstop | ⟨_, _, heq, _, hmore⟩)
      · exact ⟨_, List.suffix_refl _, hstop⟩
      · cases heq
        obtain ⟨t, ht, hmatch⟩ := (ih hrest).mp hmore
        exact ⟨t, ht.trans (List.suffix_cons c rest), hmatch⟩
    · rintro ⟨t, ht, hmatch⟩
      rcases List.suffix_cons_iff.mp ht with rfl | ht
      · exact Or.inl hmatch
      · exact Or.inr ⟨c, rest, rfl, Ne.symm hc, (ih hrest).mpr ⟨t, ht, hmatch⟩⟩

omit [DecidableEq α] in
theorem matches_any_iff (eol : α) (pieces : List (Piece α)) (s : List α) :
    Matches eol (⟨.any, true⟩ :: pieces) s ↔
      ∃ front rest, s = front ++ rest ∧ eol ∉ front ∧ Matches eol pieces rest := by
  induction s with
  | nil =>
    rw [matches_starred]
    simp [eq_comm]
  | cons c s ih =>
    rw [matches_starred]
    constructor
    · intro h
      rcases h with hstop | ⟨_, _, heq, hc, hmore⟩
      · exact ⟨[], c :: s, rfl, List.not_mem_nil, hstop⟩
      · cases heq
        obtain ⟨front, rest, rfl, hfront, hmatch⟩ := ih.mp hmore
        exact ⟨c :: front, rest, rfl, List.not_mem_cons_of_ne_of_not_mem (Ne.symm hc) hfront, hmatch⟩
    · intro h
      obtain ⟨front, rest, heq, hfront, hmatch⟩ := h
      cases front with
      | nil =>
        rw [List.nil_append] at heq
        rw [heq]
        exact Or.inl hmatch
      | cons d front =>
        rw [List.cons_append, List.cons.injEq] at heq
        obtain ⟨rfl, rfl⟩ := heq
        have hc : c ≠ eol := Ne.symm (List.ne_of_not_mem_cons hfront)
        have hfront := List.not_mem_of_not_mem_cons hfront
        exact Or.inr ⟨c, _, rfl, hc, ih.mpr ⟨front, rest, rfl, hfront, hmatch⟩⟩

theorem matches_ofStars (star eol : α) (pattern s : List α) (h : eol ∉ s) :
    Matches eol (ofStars star pattern) s ↔ Wildcard.Denotes star pattern s := by
  induction pattern generalizing s with
  | nil => exact matches_nil eol s
  | cons c pattern ih =>
    rw [ofStars, List.map_cons, ← ofStars]
    by_cases hc : c = star
    · rw [if_pos hc, hc, matches_any_run eol _ s h, Wildcard.denotes_star]
      refine exists_congr fun t => and_congr_right fun ht => ih t ?_
      exact fun hmem => h (ht.subset hmem)
    · rw [if_neg hc, matches_once, Wildcard.denotes_letter _ _ _ _ hc]
      constructor
      · rintro ⟨d, rest, rfl, hd, hmatch⟩
        obtain rfl : d = c := hd
        exact ⟨rest, rfl, (ih rest fun hmem => h (List.mem_cons_of_mem _ hmem)).mp hmatch⟩
      · rintro ⟨rest, rfl, hd⟩
        exact ⟨c, rest, rfl, rfl, (ih rest fun hmem => h (List.mem_cons_of_mem _ hmem)).mpr hd⟩

end Stars

end Peryx.Regex
