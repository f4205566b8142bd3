import Mathlib.Data.List.Basic

/-!
# Postconditions of fallible computations

`Ensures bad x post`: the computation `x` either succeeds with a value satisfying `post`, or
stops with an error that is not one of the `bad` ones.
-/

namespace Peryx

theorem bind_eq_ok {ε α β : Type} (x : Except ε α) (f : α → Except ε β) (b : β) :
    (x >>= f) = .ok b ↔ ∃ a, x = .ok a ∧ f a = .ok b := by
  cases x with
  | error e =>
    constructor
    · nofun
    · rintro ⟨a, ha, _⟩
      cases ha
  | ok a =>
    constructor
    · intro h
      exact ⟨a, rfl, h⟩
    · rintro ⟨a', ha, hf⟩
      cases ha
      exact hf

theorem ok_bind {ε α β : Type} (a : α) (f : α → Except ε β) : (Except.ok a >>= f) = f a := rfl

theorem mapM_cons_ok {ε α β : Type} (f : α → Except ε β) (a : α) (l : List α) (bs : List β) :
    (a :: l).mapM f = .ok bs ↔ ∃ b rest, f a = .ok b ∧ l.mapM f = .ok rest ∧ bs = b :: rest := by
  rw [List.mapM_cons, bind_eq_ok]
  constructor
  · rintro ⟨b, hb, h⟩
    obtain ⟨rest, hrest, heq⟩ := (bind_eq_ok _ _ _).mp h
    cases heq
    exact ⟨b, rest, hb, hrest, rfl⟩
  · rintro ⟨b, rest, hb, hrest, rfl⟩
    exact ⟨b, hb, (bind_eq_ok _ _ _).mpr ⟨rest, hrest, rfl⟩⟩

theorem mapM_ok_mem {ε α β : Type} (f : α → Except ε β) (l : List α) (bs : List β)
    (h : l.mapM f = .ok bs) : ∀ b ∈ bs, ∃ a ∈ l, f a = .ok b := by
  induction l generalizing bs with
  | nil =>
    cases h
    nofun
  | cons a l ih =>
    obtain ⟨b, rest, hb, hrest, rfl⟩ := (mapM_cons_ok f a l bs).mp h
    intro b' hmem
    rcases List.mem_cons.mp hmem with rfl | hmem
    · exact ⟨a, List.mem_cons_self, hb⟩
    · obtain ⟨a', ha', hf⟩ := ih rest hrest b' hmem
      exact ⟨a', List.mem_cons_of_mem a ha', hf⟩

theorem mapM_ok_mem_iff {ε α β : Type} (f : α → Except ε β) (l : List α) (bs : List β)
    (h : l.mapM f = .ok bs) (b : β) : b ∈ bs ↔ ∃ a ∈ l, f a = .ok b := by
  refine ⟨mapM_ok_mem f l bs h b, ?_⟩
  induction l generalizing bs with
  | nil =>
    rintro ⟨a, ha, _⟩
    cases ha
  | cons a l ih =>
    obtain ⟨first, rest, hfirst, hrest, rfl⟩ := (mapM_cons_ok f a l bs).mp h
    rintro ⟨a', ha', hf⟩
    rcases List.mem_cons.mp ha' with rfl | ha'
    · rw [hfirst] at hf
      cases hf
      exact List.mem_cons_self
    · exact List.mem_cons_of_mem _ (ih rest hrest ⟨a', ha', hf⟩)

theorem mapM_ok_forall {ε α β : Type} (f : α → Except ε β) (l : List α) (bs : List β)
    (h : l.mapM f = .ok bs) : ∀ a ∈ l, ∃ b, f a = .ok b := by
  induction l generalizing bs with
  | nil => exact List.forall_mem_nil _
  | cons a l ih =>
    obtain ⟨first, rest, hfirst, hrest, _⟩ := (mapM_cons_ok f a l bs).mp h
    exact List.forall_mem_cons.mpr ⟨⟨first, hfirst⟩, ih rest hrest⟩

def Ensures {ε α : Type} (bad : ε → Prop) (x : Except ε α) (post : α → Prop) : Prop :=
  match x with
  | .ok a => post a
  | .error e => ¬ bad e

namespace Ensures
variable {ε α β : Type} {bad : ε → Prop}

theorem pure {a : α} {post : α → Prop} (h : post a) : Ensures bad (Except.ok a) post := h

theorem error {e : ε} {post : α → Prop} (h : ¬ bad e) : Ensures bad (Except.error e) post := h

theorem bind {x : Except ε α} {f : α → Except ε β} {mid : α → Prop} {post : β → Prop}
    (hx : Ensures bad x mid) (hf : ∀ a, mid a → Ensures bad (f a) post) :
    Ensures bad (x >>= f) post := by
  cases x with
  | error e => exact hx
  | ok a => exact hf a hx

theorem mono {x : Except ε α} {p q : α → Prop} (hx : Ensures bad x p) (h : ∀ a, p a → q a) :
    Ensures bad x q := by
  cases x with
  | error e => exact hx
  | ok a => exact h a hx

theorem ite {c : Prop} [Decidable c] {x y : Except ε α} {post : α → Prop}
    (hx : c → Ensures bad x post) (hy : ¬ c → Ensures bad y post) :
    Ensures bad (if c then x else y) post := by
  split
  · rename_i h
    exact hx h
  · rename_i h
    exact hy h

theorem foldlM {σ : Type} {f : σ → α → Except ε σ} (inv : σ → Prop) (items : List α)
    (hf : ∀ s item, inv s → Ensures bad (f s item) inv) (s : σ) (h : inv s) :
    Ensures bad (items.foldlM f s) inv := by
  induction items generalizing s with
  | nil => exact h
  | cons item items ih => exact bind (hf s item h) ih

theorem foldlM_prefix {σ : Type} {f : σ → α → Except ε σ} (inv : List α → σ → Prop)
    (hf : ∀ passed s item, inv passed s → Ensures bad (f s item) (inv (passed ++ [item])))
    (items passed : List α) (s : σ) (h : inv passed s) :
    Ensures bad (items.foldlM f s) (inv (passed ++ items)) := by
  induction items generalizing passed s with
  | nil =>
    rw [List.append_nil]
    exact h
  | cons item items ih =>
    apply bind (hf passed s item h)
    intro t ht
    have hrest := ih (passed ++ [item]) t ht
    rw [List.append_assoc] at hrest
    exact hrest

theorem of_ok {x : Except ε α} {post : α → Prop} {a : α} (h : Ensures bad x post)
    (hx : x = .ok a) : post a := by
  subst hx
  exact h

theorem not_bad {x : Except ε α} {post : α → Prop} {e : ε} (h : Ensures bad x post)
    (hx : x = .error e) : ¬ bad e := by
  subst hx
  exact h

end Ensures
end Peryx

/-!
## Visitors that may fail

A scan hands its items to a visitor one after another, up to the first that it refuses. What
the state it leaves has collected is what the items named, if none was refused.
-/

namespace Peryx.Visits
variable {σ ι ε : Type} {visit : σ → ι → Except ε σ}

theorem foldlM_cons_ok {s last : σ} {i : ι} {items : List ι} :
    (i :: items).foldlM visit s = .ok last ↔
      ∃ next, visit s i = .ok next ∧ items.foldlM visit next = .ok last := by
  rw [List.foldlM_cons, bind_eq_ok]

theorem foldlM_ok_iff {accepts : ι → Prop}
    (haccepts : ∀ s i, (∃ next, visit s i = .ok next) ↔ accepts i) (items : List ι) (s : σ) :
    (∃ last, items.foldlM visit s = .ok last) ↔ ∀ i ∈ items, accepts i := by
  induction items generalizing s with
  | nil => exact ⟨fun _ => nofun, fun _ => ⟨s, rfl⟩⟩
  | cons i items ih =>
    constructor
    · rintro ⟨last, hlast⟩
      obtain ⟨next, hnext, hrest⟩ := foldlM_cons_ok.mp hlast
      have hhere : accepts i := (haccepts s i).mp ⟨next, hnext⟩
      exact List.forall_mem_cons.mpr ⟨hhere, (ih next).mp ⟨last, hrest⟩⟩
    · intro h
      obtain ⟨hhere, hrest⟩ := List.forall_mem_cons.mp h
      obtain ⟨next, hnext⟩ := (haccepts s i).mpr hhere
      obtain ⟨last, hlast⟩ := (ih next).mpr hrest
      exact ⟨last, foldlM_cons_ok.mpr ⟨next, hnext, hlast⟩⟩

theorem foldlM_holds_iff {holds : σ → Prop} {names : ι → Prop}
    (hnames : ∀ s i next, visit s i = .ok next → (holds next ↔ holds s ∨ names i))
    (items : List ι) (s last : σ) (h : items.foldlM visit s = .ok last) :
    holds last ↔ holds s ∨ ∃ i ∈ items, names i := by
  induction items generalizing s with
  | nil =>
    cases h
    simp
  | cons i items ih =>
    obtain ⟨next, hnext, hrest⟩ := foldlM_cons_ok.mp h
    rw [ih next hrest, hnames s i next hnext, or_assoc, List.exists_mem_cons_iff]

theorem foldl_holds_iff {collect : σ → ι → σ} {holds : σ → Prop} {names : ι → Prop}
    (hnames : ∀ s i, holds (collect s i) ↔ holds s ∨ names i) (items : List ι) (s : σ) :
    holds (items.foldl collect s) ↔ holds s ∨ ∃ i ∈ items, names i := by
  induction items generalizing s with
  | nil => simp
  | cons i items ih => rw [List.foldl_cons, ih, hnames, or_assoc, List.exists_mem_cons_iff]

end Peryx.Visits
