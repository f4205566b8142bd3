import Peryx.Library.Prog
import Peryx.Library.Table

/-!
# Programs that see and change only part of a state

A program is confined when what its transactions answer depends only on what `same`
compares, and what they write is described by `kept`.
-/

namespace Peryx

namespace Prog
variable {σ α β : Type} {same kept : σ → σ → Prop}

def Confined (same kept : σ → σ → Prop) : Prog σ α → Prop
  | done _ => True
  | step write next =>
    (∀ s, kept s (write s)) ∧ (∀ s t, same s t → same (write s) (write t) ∧ next s = next t) ∧
      ∀ s, (next s).Confined same kept

theorem confined_pure (a : α) : (pure a : Prog σ α).Confined same kept := trivial

theorem Confined.bind_of {ok : α → Prop} {p : Prog σ α} {f : α → Prog σ β}
    (hp : p.Confined same kept) (hok : p.Ends (fun _ => True) ok)
    (hf : ∀ a, ok a → (f a).Confined same kept) : (p >>= f).Confined same kept := by
  induction p with
  | done a => exact hf a hok
  | step write next ih =>
    obtain ⟨hkept, hsame, hnext⟩ := hp
    refine ⟨hkept, fun s t hst => ⟨(hsame s t hst).1, ?_⟩, fun s => ih s (hnext s) (hok s trivial)⟩
    have heq := (hsame s t hst).2
    show (next s).bind f = (next t).bind f
    rw [heq]

theorem Confined.bind {p : Prog σ α} {f : α → Prog σ β} (hp : p.Confined same kept)
    (hf : ∀ a, (f a).Confined same kept) : (p >>= f).Confined same kept :=
  hp.bind_of p.ends_true fun a _ => hf a

theorem confined_transact (f : σ → α × σ) (hkept : ∀ s, kept s (f s).2)
    (hsame : ∀ s t, same s t → (f s).1 = (f t).1 ∧ same (f s).2 (f t).2) :
    (transact f).Confined same kept := by
  refine ⟨hkept, fun s t hst => ⟨(hsame s t hst).2, ?_⟩, fun s => trivial⟩
  show done (f s).1 = done (f t).1
  rw [(hsame s t hst).1]

theorem confined_read (f : σ → α) (hrefl : ∀ s, kept s s) (hsame : ∀ s t, same s t → f s = f t) :
    (read f).Confined same kept := by
  refine ⟨hrefl, fun s t hst => ⟨hst, ?_⟩, fun s => trivial⟩
  show done (f s) = done (f t)
  rw [hsame s t hst]

theorem confined_modify (f : σ → σ) (hkept : ∀ s, kept s (f s))
    (hsame : ∀ s t, same s t → same (f s) (f t)) : (modify f).Confined same kept :=
  ⟨hkept, fun s t hst => ⟨hsame s t hst, rfl⟩, fun _ => trivial⟩

theorem confined_forM (items : List α) (f : α → Prog σ Unit)
    (h : ∀ item ∈ items, (f item).Confined same kept) : (items.forM f).Confined same kept := by
  induction items with
  | nil => trivial
  | cons item items ih =>
    have hrest := ih fun i hi => h i (List.mem_cons_of_mem _ hi)
    exact (h item List.mem_cons_self).bind fun _ => hrest

theorem Confined.run_same {p : Prog σ α} (h : p.Confined same kept) (s t : σ) (hst : same s t) :
    (p.run s).1 = (p.run t).1 ∧ same (p.run s).2 (p.run t).2 := by
  induction p generalizing s t with
  | done a => exact ⟨rfl, hst⟩
  | step write next ih =>
    obtain ⟨-, hsame, hnext⟩ := h
    obtain ⟨hwrite, heq⟩ := hsame s t hst
    have hrun := ih s (hnext s) (write s) (write t) hwrite
    have hright : (step write next).run t = (next s).run (write t) := by
      rw [heq]
      rfl
    rw [hright]
    exact hrun

theorem Confined.run_kept {p : Prog σ α} (h : p.Confined same kept) (hrefl : ∀ s, kept s s)
    (htrans : ∀ s t u, kept s t → kept t u → kept s u) (s : σ) : kept s (p.run s).2 := by
  induction p generalizing s with
  | done a => exact hrefl s
  | step write next ih => exact htrans _ _ _ (h.1 s) (ih s (h.2.2 s) (write s))

theorem Confined.runUntil_same {p : Prog σ α} (h : p.Confined same kept) (failing : Nat) (s t : σ)
    (hst : same s t) : p.runUntil failing s = none ∧ p.runUntil failing t = none ∨
      ∃ a s' t', p.runUntil failing s = some (a, s') ∧ p.runUntil failing t = some (a, t') ∧
        same s' t' := by
  induction p generalizing failing s t with
  | done a => exact .inr ⟨a, s, t, rfl, rfl, hst⟩
  | step write next ih =>
    obtain ⟨-, hsame, hnext⟩ := h
    obtain ⟨hwrite, heq⟩ := hsame s t hst
    cases failing with
    | zero => exact .inl ⟨rfl, rfl⟩
    | succ failing =>
      have hright : (step write next).runUntil (failing + 1) t =
          (next s).runUntil failing (write t) := by
        rw [heq]
        rfl
      rw [hright]
      exact ih s (hnext s) failing (write s) (write t) hwrite

theorem Confined.widen {same' kept' : σ → σ → Prop} {p : Prog σ α} (h : p.Confined same kept)
    (hkept : ∀ s t, kept s t → kept' s t) (hsame : ∀ s t, same' s t → same s t)
    (hadd : ∀ s t s' t', same' s t → same s' t' → kept s s' → kept t t' → same' s' t') :
    p.Confined same' kept' := by
  induction p with
  | done a => trivial
  | step write next ih =>
    obtain ⟨hwrites, hpart, hnext⟩ := h
    refine ⟨fun s => hkept _ _ (hwrites s), fun s t hst => ?_, fun s => ih s (hnext s)⟩
    obtain ⟨hwrite, heq⟩ := hpart s t (hsame s t hst)
    exact ⟨hadd s t _ _ hst hwrite (hwrites s) (hwrites t), heq⟩

end Prog

namespace Prog
section Steady
variable {σ α β : Type} {rely guar : σ → σ → Prop}

/-- Others may take any step that `rely` allows between two transactions. Each transaction of
the program's own is as `guar` says, and it ends as `post` says. -/
def Steady (rely guar : σ → σ → Prop) (post : α → σ → Prop) : Prog σ α → σ → Prop
  | done a, s => post a s
  | step write next, s => ∀ t, rely s t → guar t (write t) ∧ (next t).Steady rely guar post (write t)

theorem Steady.bind {mid : α → σ → Prop} {post : β → σ → Prop} {p : Prog σ α} {f : α → Prog σ β}
    {s : σ} (hp : p.Steady rely guar mid s) (hf : ∀ a t, mid a t → (f a).Steady rely guar post t) :
    (p >>= f).Steady rely guar post s := by
  induction p generalizing s with
  | done a => exact hf a s hp
  | step write next ih =>
    intro t ht
    obtain ⟨hguar, hnext⟩ := hp t ht
    exact ⟨hguar, ih t hnext⟩

theorem Steady.weaken {post weak : α → σ → Prop} {p : Prog σ α} {s : σ}
    (hp : p.Steady rely guar post s) (hweak : ∀ a t, post a t → weak a t) :
    p.Steady rely guar weak s := by
  induction p generalizing s with
  | done a => exact hweak a s hp
  | step write next ih =>
    intro t ht
    obtain ⟨hguar, hnext⟩ := hp t ht
    exact ⟨hguar, ih t hnext⟩

theorem steady_transact {post : α → σ → Prop} {s : σ} (f : σ → α × σ)
    (h : ∀ t, rely s t → guar t (f t).2 ∧ post (f t).1 (f t).2) :
    (transact f).Steady rely guar post s :=
  h

theorem Steady.move {post : α → σ → Prop} {p : Prog σ α} {s t : σ}
    (hp : p.Steady rely guar post s) (hst : rely s t)
    (htrans : ∀ s t u, rely s t → rely t u → rely s u)
    (hstable : ∀ a s t, post a s → rely s t → post a t) : p.Steady rely guar post t := by
  cases p with
  | done a => exact hstable a s t hp hst
  | step write next => exact fun u hu => hp u (htrans s t u hst hu)

end Steady
end Prog

namespace Table
variable {κ V : Type} [Ord κ] [Std.TransOrd κ] [Std.LawfulEqOrd κ] {foot : κ → Prop}

/-- The two tables agree on the keys of `foot`. -/
def AgreeOn (foot : κ → Prop) (a b : Table κ V) : Prop := ∀ k, foot k → a[k]? = b[k]?

omit [Std.LawfulEqOrd κ] in
theorem AgreeOn.refl (a : Table κ V) : AgreeOn foot a a := fun _ _ => rfl

omit [Std.LawfulEqOrd κ] in
theorem AgreeOn.trans {a b c : Table κ V} (h : AgreeOn foot a b) (h' : AgreeOn foot b c) :
    AgreeOn foot a c :=
  fun k hk => (h k hk).trans (h' k hk)

omit [Std.LawfulEqOrd κ] in
theorem AgreeOn.symm {a b : Table κ V} (h : AgreeOn foot a b) : AgreeOn foot b a :=
  fun k hk => (h k hk).symm

theorem AgreeOn.set {a b : Table κ V} (h : AgreeOn foot a b) (k : κ) (row : Option V) :
    AgreeOn foot (a.set k row) (b.set k row) := by
  intro l hl
  by_cases hkl : k = l
  · rw [hkl, getElem?_set_self, getElem?_set_self]
  · rw [getElem?_set_of_ne a k l row hkl, getElem?_set_of_ne b k l row hkl]
    exact h l hl

theorem agreeOn_set (a : Table κ V) (k : κ) (row : Option V) (hk : ¬ foot k) :
    AgreeOn foot a (a.set k row) := by
  intro l hl
  have hkl : k ≠ l := fun heq => hk (heq ▸ hl)
  exact (getElem?_set_of_ne a k l row hkl).symm

theorem AgreeOn.filter_eq {a b : Table κ V} (h : AgreeOn foot a b) (p : κ → Bool)
    (hp : ∀ k, p k = true → foot k) : (a.filter fun k _ => p k) = b.filter fun k _ => p k := by
  apply Std.ExtTreeMap.ext_getElem?
  intro k
  rw [Std.ExtTreeMap.getElem?_filter', Std.ExtTreeMap.getElem?_filter']
  cases hpk : p k with
  | false => simp
  | true => rw [h k (hp k hpk)]

theorem AgreeOn.toList_filter {a b : Table κ V} (h : AgreeOn foot a b) (p : κ → Bool)
    (hp : ∀ k, p k = true → foot k) :
    (a.toList.filter fun row => p row.1) = b.toList.filter fun row => p row.1 := by
  have hleft := Std.ExtTreeMap.toList_filter (t := a) (f := fun k _ => p k)
  have hright := Std.ExtTreeMap.toList_filter (t := b) (f := fun k _ => p k)
  rw [← hleft, ← hright, h.filter_eq p hp]

theorem AgreeOn.keys_filter {a b : Table κ V} (h : AgreeOn foot a b) (p : κ → Bool)
    (hp : ∀ k, p k = true → foot k) : a.keys.filter p = b.keys.filter p := by
  rw [← Std.ExtTreeMap.keys_filter_key, ← Std.ExtTreeMap.keys_filter_key, h.filter_eq p hp]

end Table
end Peryx
