import Mathlib.Data.List.Basic
import Mathlib.Tactic.Linarith

/-!
# Star patterns over an arbitrary alphabet

A pattern is a list in which one letter, `star`, stands for any run of letters and every
other letter for itself.
-/

namespace Peryx.Wildcard
variable {α : Type}

/-- `Denotes star p s`: the string `s` is an instance of the pattern `p`. -/
def Denotes (star : α) : List α → List α → Prop
  | [], s => s = []
  | c :: p, s => (c = star ∧ ∃ u v, s = u ++ v ∧ Denotes star p v) ∨
      (c ≠ star ∧ ∃ v, s = c :: v ∧ Denotes star p v)

@[simp] theorem denotes_nil (star : α) (s : List α) : Denotes star [] s ↔ s = [] := Iff.rfl

theorem denotes_star (star : α) (p s : List α) :
    Denotes star (star :: p) s ↔ ∃ t, t <:+ s ∧ Denotes star p t := by
  simp only [Denotes, ne_eq, not_true_eq_false, false_and, or_false, true_and]
  constructor
  · rintro ⟨u, v, rfl, hv⟩
    exact ⟨v, List.suffix_append u v, hv⟩
  · rintro ⟨t, ⟨u, rfl⟩, ht⟩
    exact ⟨u, t, rfl, ht⟩

theorem denotes_letter (star c : α) (p s : List α) (hc : c ≠ star) :
    Denotes star (c :: p) s ↔ ∃ v, s = c :: v ∧ Denotes star p v := by
  simp only [Denotes, hc, false_and, false_or, ne_eq, not_false_eq_true, true_and]

theorem denotes_literal (star : α) (p s : List α) (hp : star ∉ p) :
    Denotes star p s ↔ s = p := by
  induction p generalizing s with
  | nil => rfl
  | cons c p ih =>
    simp only [List.mem_cons, not_or] at hp
    rw [denotes_letter star c p s (Ne.symm hp.1)]
    constructor
    · rintro ⟨v, rfl, hv⟩
      rw [(ih v hp.2).mp hv]
    · rintro rfl
      exact ⟨p, rfl, (ih p hp.2).mpr rfl⟩

theorem denotes_literal_append (star : α) (w p s : List α) (hw : star ∉ w) :
    Denotes star (w ++ p) s ↔ ∃ t, s = w ++ t ∧ Denotes star p t := by
  induction w generalizing s with
  | nil => simp
  | cons c w ih =>
    simp only [List.mem_cons, not_or] at hw
    rw [List.cons_append, denotes_letter star c _ s (Ne.symm hw.1)]
    constructor
    · rintro ⟨v, rfl, hv⟩
      obtain ⟨t, rfl, ht⟩ := (ih v hw.2).mp hv
      exact ⟨t, rfl, ht⟩
    · rintro ⟨t, rfl, ht⟩
      exact ⟨w ++ t, rfl, (ih (w ++ t) hw.2).mpr ⟨t, rfl, ht⟩⟩

theorem denotes_append (star : α) (p q s : List α) :
    Denotes star (p ++ q) s ↔ ∃ u v, s = u ++ v ∧ Denotes star p u ∧ Denotes star q v := by
  induction p generalizing s with
  | nil => simp
  | cons c p ih =>
    rw [List.cons_append]
    by_cases hc : c = star
    · subst hc
      simp only [denotes_star, ih]
      constructor
      · rintro ⟨t, ⟨a, rfl⟩, u, v, rfl, hu, hv⟩
        exact ⟨a ++ u, v, by simp, ⟨u, List.suffix_append a u, hu⟩, hv⟩
      · rintro ⟨u, v, rfl, ⟨t, ⟨a, rfl⟩, ht⟩, hv⟩
        exact ⟨t ++ v, ⟨a, by simp⟩, t, v, rfl, ht, hv⟩
    · simp only [denotes_letter star c _ _ hc, ih]
      constructor
      · rintro ⟨t, rfl, u, v, rfl, hu, hv⟩
        exact ⟨c :: u, v, rfl, ⟨u, rfl, hu⟩, hv⟩
      · rintro ⟨u, v, rfl, ⟨t, rfl, ht⟩, hv⟩
        exact ⟨t ++ v, rfl, t, v, rfl, ht, hv⟩

theorem denotes_trans (star : α) (p q s : List α) (hpq : Denotes star p q)
    (hqs : Denotes star q s) : Denotes star p s := by
  induction p generalizing q s with
  | nil =>
    rw [denotes_nil] at hpq
    subst hpq
    exact hqs
  | cons c p ih =>
    by_cases hc : c = star
    · subst hc
      obtain ⟨t, ⟨a, rfl⟩, ht⟩ := (denotes_star c p q).mp hpq
      obtain ⟨u, v, rfl, _, hv⟩ := (denotes_append c a t s).mp hqs
      exact (denotes_star c p _).mpr ⟨v, List.suffix_append u v, ih t v ht hv⟩
    · obtain ⟨t, rfl, ht⟩ := (denotes_letter star c p q hc).mp hpq
      obtain ⟨v, rfl, hv⟩ := (denotes_letter star c t s hc).mp hqs
      exact (denotes_letter star c p _ hc).mpr ⟨v, rfl, ih t v ht hv⟩

theorem denotes_map {β : Type} (star : α) (rename : α → β) (hrename : Function.Injective rename)
    (p s : List α) : Denotes (rename star) (p.map rename) (s.map rename) ↔ Denotes star p s := by
  induction p generalizing s with
  | nil => simp
  | cons c p ih =>
    rw [List.map_cons]
    by_cases hc : c = star
    · subst hc
      rw [denotes_star, denotes_star]
      constructor
      · rintro ⟨t, ht, hd⟩
        obtain ⟨later, hlater, rfl⟩ := List.suffix_map_iff.mp ht
        exact ⟨later, hlater, (ih later).mp hd⟩
      · rintro ⟨t, ht, hd⟩
        exact ⟨t.map rename, ht.map rename, (ih t).mpr hd⟩
    · have hne : rename c ≠ rename star := fun h => hc (hrename h)
      rw [denotes_letter _ _ _ _ hne, denotes_letter _ _ _ _ hc]
      constructor
      · rintro ⟨v, hv, hd⟩
        obtain ⟨first, rest, rfl, hfirst, rfl⟩ := List.map_eq_cons_iff.mp hv
        exact ⟨rest, by rw [hrename hfirst], (ih rest).mp hd⟩
      · rintro ⟨v, rfl, hd⟩
        exact ⟨v.map rename, rfl, (ih v).mpr hd⟩

theorem denotes_length_literal (star : α) (w p s : List α) (hw : star ∉ w)
    (h : Denotes star (w ++ p) s) : w.length ≤ s.length := by
  obtain ⟨t, rfl, _⟩ := (denotes_literal_append star w p s hw).mp h
  simp

variable [DecidableEq α]

/-- One walk: `pattern` and `subject` are what is left of each, and `saved`
holds the pattern after the last star seen together with the subject position
to resume from. `fuel` bounds the rounds; `none` means it ran out. -/
def walk (star : α) : ℕ → List α → List α → Option (List α × List α) → Option Bool
  | 0, _, _, _ => none
  | _ + 1, pattern, [], _ => some (pattern.all (· == star))
  | fuel + 1, pattern, c :: subject, saved =>
    if pattern.head? = some star then
      walk star fuel pattern.tail (c :: subject) (some (pattern.tail, c :: subject))
    else if pattern.head? = some c then
      walk star fuel pattern.tail subject saved
    else match saved with
      | some (position, resume) =>
        walk star fuel position resume.tail (some (position, resume.tail))
      | none => some false

/-- Rounds that are always enough for a pattern of length `n` and a subject of
length `m`. -/
def rounds (n m : ℕ) : ℕ := ((n + 1) * (m + 2) + (m + 2)) * (n + 2) + (n + 2)

def accepts (star : α) (pattern subject : List α) : Bool :=
  (walk star (rounds pattern.length subject.length) pattern subject none).getD false

/-- What the saved star promises: the letters walked since are literal. -/
def Resumable (star : α) (pattern subject : List α) : Option (List α × List α) → Prop
  | none => True
  | some (position, resume) =>
    ∃ w, star ∉ w ∧ position = w ++ pattern ∧ resume = w ++ subject

def Open (star : α) (pattern subject : List α) : Option (List α × List α) → Prop
  | none => Denotes star pattern subject
  | some (position, resume) => Denotes star pattern subject ∨
      ∃ t, t <:+ resume.tail ∧ Denotes star position t

/-- Rounds left, for a pattern of length at most `n` and a subject of length at
most `m`: a later star outweighs any resumption, a resumption any letter. -/
def measure (n m : ℕ) (pattern : List α) : Option (List α × List α) → ℕ
  | none => ((n + 1) * (m + 2) + (m + 1)) * (n + 2) + pattern.length
  | some (position, resume) =>
    (position.length * (m + 2) + resume.length) * (n + 2) + pattern.length

def Within (n m : ℕ) : Option (List α × List α) → Prop
  | none => True
  | some (position, resume) => position.length ≤ n ∧ resume.length ≤ m

omit [DecidableEq α] in
theorem suffix_iff_self_or_tail (t l : List α) : t <:+ l ↔ t = l ∨ t <:+ l.tail := by
  cases l with
  | nil => simp
  | cons a l => exact List.suffix_cons_iff

theorem all_star_iff (star : α) (pattern : List α) :
    pattern.all (· == star) = true ↔ Denotes star pattern [] := by
  induction pattern with
  | nil => simp
  | cons c p ih =>
    by_cases hc : c = star
    · subst hc
      rw [denotes_star]
      simp only [List.all_cons, beq_self_eq_true, Bool.true_and, ih, List.suffix_nil]
      exact ⟨fun h => ⟨[], rfl, h⟩, fun ⟨t, ht, h⟩ => ht ▸ h⟩
    · rw [denotes_letter star c p [] hc]
      simp [hc]

omit [DecidableEq α] in
theorem open_nil (star : α) (pattern : List α) (saved : Option (List α × List α))
    (h : Resumable star pattern [] saved) :
    Open star pattern [] saved ↔ Denotes star pattern [] := by
  cases saved with
  | none => rfl
  | some saved =>
    obtain ⟨position, resume⟩ := saved
    obtain ⟨w, hw, rfl, rfl⟩ := h
    simp only [Open, List.append_nil]
    refine ⟨?_, Or.inl⟩
    rintro (h | ⟨t, ht, hd⟩)
    · exact h
    · have hlen := denotes_length_literal star w pattern t hw hd
      have hle := ht.length_le
      cases w with
      | nil =>
        rw [List.suffix_nil.mp ht] at hd
        exact hd
      | cons c w =>
        simp only [List.tail_cons, List.length_cons] at hlen hle
        omega

omit [DecidableEq α] in
theorem open_star (star : α) (pattern subject : List α) (saved : Option (List α × List α))
    (h : Resumable star (star :: pattern) subject saved) :
    Open star (star :: pattern) subject saved ↔ Denotes star (star :: pattern) subject := by
  cases saved with
  | none => rfl
  | some saved =>
    obtain ⟨position, resume⟩ := saved
    obtain ⟨w, hw, rfl, rfl⟩ := h
    refine ⟨?_, Or.inl⟩
    rintro (h | ⟨t, ht, hd⟩)
    · exact h
    · obtain ⟨r, rfl, hr⟩ := (denotes_literal_append star w _ t hw).mp hd
      obtain ⟨v, hv, hp⟩ := (denotes_star star pattern r).mp hr
      have hle := ht.length_le
      have hrt : r <:+ w ++ subject :=
        ((List.suffix_append w r).trans ht).trans (List.tail_suffix _)
      have hlen : r.length ≤ subject.length := by
        simp only [List.length_append, List.length_tail] at hle
        omega
      have hrs : r <:+ subject :=
        List.suffix_of_suffix_length_le hrt (List.suffix_append w subject) hlen
      exact (denotes_star star pattern subject).mpr ⟨v, hv.trans hrs, hp⟩

theorem walk_correct (star : α) (n m fuel : ℕ) (pattern subject : List α)
    (saved : Option (List α × List α)) (hp : pattern.length ≤ n) (hs : subject.length ≤ m)
    (hw : Within n m saved) (hr : Resumable star pattern subject saved)
    (hf : measure n m pattern saved < fuel) :
    ∃ b, walk star fuel pattern subject saved = some b ∧
      (b = true ↔ Open star pattern subject saved) := by
  induction fuel generalizing pattern subject saved with
  | zero => omega
  | succ fuel ih =>
    cases subject with
    | nil =>
      refine ⟨_, rfl, ?_⟩
      rw [open_nil star pattern saved hr]
      exact all_star_iff star pattern
    | cons c subject =>
      by_cases hstar : pattern.head? = some star
      · -- a new star: the saved one is replaced, its alternatives are covered
        obtain ⟨p, rfl⟩ := List.head?_eq_some_iff.mp hstar
        simp only [List.length_cons] at hp hs
        have hdrop : measure n m p (some (p, c :: subject)) + 1 ≤ measure n m (star :: p) saved := by
          cases saved with
          | none =>
            simp only [measure, List.length_cons]
            have h1 : p.length * (m + 2) + (subject.length + 1) ≤ (n + 1) * (m + 2) + (m + 1) := by
              have := Nat.mul_le_mul_right (m + 2) (show p.length ≤ n + 1 by omega)
              omega
            have := Nat.mul_le_mul_right (n + 2) h1
            omega
          | some saved =>
            obtain ⟨position, resume⟩ := saved
            obtain ⟨w, hws, rfl, rfl⟩ := hr
            simp only [measure, List.length_append, List.length_cons]
            have h1 : p.length * (m + 2) + (subject.length + 1) ≤
                (w.length + (p.length + 1)) * (m + 2) + (w.length + (subject.length + 1)) := by
              have := Nat.mul_le_mul_right (m + 2)
                (show p.length ≤ w.length + (p.length + 1) by omega)
              omega
            have := Nat.mul_le_mul_right (n + 2) h1
            omega
        obtain ⟨b, hb, hiff⟩ := ih p (c :: subject) (some (p, c :: subject)) (by omega)
          (by simpa using hs) ⟨by omega, by simpa using hs⟩ ⟨[], by simp, rfl, rfl⟩ (by omega)
        refine ⟨b, by simpa [walk] using hb, ?_⟩
        rw [hiff, open_star star p (c :: subject) saved hr, denotes_star]
        simp only [Open, List.tail_cons, List.suffix_cons_iff]
        exact ⟨fun h => h.elim (fun h => ⟨_, Or.inl rfl, h⟩) fun ⟨t, ht, h⟩ => ⟨t, Or.inr ht, h⟩,
          fun ⟨t, ht, h⟩ => ht.elim (fun e => Or.inl (e ▸ h)) fun ht => Or.inr ⟨t, ht, h⟩⟩
      · by_cases hc : pattern.head? = some c
        · -- the letters agree: both sides advance, the saved star stays
          obtain ⟨p, rfl⟩ := List.head?_eq_some_iff.mp hc
          have hne : c ≠ star := by simpa using hstar
          simp only [List.length_cons] at hp hs
          have hrest : Resumable star p subject saved := by
            cases saved with
            | none => trivial
            | some saved =>
              obtain ⟨position, resume⟩ := saved
              obtain ⟨w, hws, rfl, rfl⟩ := hr
              exact ⟨w ++ [c], by simp [hws, Ne.symm hne], by simp, by simp⟩
          have hdrop : measure n m p saved + 1 = measure n m (c :: p) saved := by
            cases saved <;> simp only [measure, List.length_cons] <;> omega
          obtain ⟨b, hb, hiff⟩ := ih p subject saved (by omega) (by omega) hw hrest (by omega)
          refine ⟨b, by simpa [walk, hne] using hb, hiff.trans ?_⟩
          have hdenotes : Denotes star (c :: p) (c :: subject) ↔ Denotes star p subject := by
            rw [denotes_letter star c p _ hne]
            simp
          cases saved with
          | none => exact hdenotes.symm
          | some saved => simp only [Open, hdenotes]
        · have hmis : ¬ Denotes star pattern (c :: subject) := by
            intro hd
            cases pattern with
            | nil => simp at hd
            | cons d p =>
              have hd1 : d ≠ star := by simpa using hstar
              obtain ⟨v, hv, _⟩ := (denotes_letter star d p _ hd1).mp hd
              simp only [List.cons.injEq] at hv
              simp [hv.1] at hc
          cases saved with
          | none => exact ⟨false, by simp [walk, hstar, hc], by simp [Open, hmis]⟩
          | some saved =>
            -- a mismatch: the saved star swallows one more letter
            obtain ⟨position, resume⟩ := saved
            obtain ⟨w, hws, hpos, hres⟩ := hr
            have hlong : 0 < resume.length := by simp [hres]
            have hdrop : measure n m position (some (position, resume.tail)) + 1 ≤
                measure n m pattern (some (position, resume)) := by
              simp only [measure, List.length_tail]
              have h1 : position.length * (m + 2) + (resume.length - 1) + 1 ≤
                  position.length * (m + 2) + resume.length := by omega
              have h2 := Nat.mul_le_mul_right (n + 2) h1
              have h3 := hw.1
              rw [Nat.add_mul, Nat.one_mul] at h2
              omega
            obtain ⟨b, hb, hiff⟩ := ih position resume.tail (some (position, resume.tail)) hw.1
              (by have := hw.2; simp; omega) ⟨hw.1, by have := hw.2; simp; omega⟩
              ⟨[], by simp, rfl, rfl⟩ (by omega)
            refine ⟨b, by simpa [walk, hstar, hc] using hb, hiff.trans ?_⟩
            simp only [Open, hmis, false_or]
            constructor
            · rintro (h | ⟨t, ht, h⟩)
              · exact ⟨_, List.suffix_refl _, h⟩
              · exact ⟨t, ht.trans (List.tail_suffix _), h⟩
            · rintro ⟨t, ht, h⟩
              rcases (suffix_iff_self_or_tail t _).mp ht with rfl | ht
              · exact Or.inl h
              · exact Or.inr ⟨t, ht, h⟩

theorem walk_rounds (star : α) (pattern subject : List α) :
    ∃ b, walk star (rounds pattern.length subject.length) pattern subject none = some b ∧
      (b = true ↔ Denotes star pattern subject) := by
  refine walk_correct star pattern.length subject.length _ pattern subject none le_rfl le_rfl
    trivial trivial ?_
  simp only [measure, rounds]
  have := Nat.mul_le_mul_right (pattern.length + 2)
    (show (pattern.length + 1) * (subject.length + 2) + (subject.length + 1) ≤
      (pattern.length + 1) * (subject.length + 2) + (subject.length + 2) by omega)
  omega

@[simp] theorem accepts_iff (star : α) (pattern subject : List α) :
    accepts star pattern subject = true ↔ Denotes star pattern subject := by
  obtain ⟨b, hb, hiff⟩ := walk_rounds star pattern subject
  rw [accepts, hb, Option.getD_some]
  exact hiff

end Peryx.Wildcard
