import Mathlib.Logic.Basic

/-!
# Programs over a shared store

A program runs one transaction after another on a store it shares with others.
-/

namespace Peryx

inductive Prog (σ α : Type) where
  | done (a : α)
  /-- `next` is given the state the transaction found, before its write. -/
  | step (write : σ → σ) (next : σ → Prog σ α)

namespace Prog
variable {σ α β : Type}

protected def bind : Prog σ α → (α → Prog σ β) → Prog σ β
  | done a, f => f a
  | step write next, f => step write fun s => (next s).bind f

instance : Monad (Prog σ) where
  pure := done
  bind := Prog.bind

theorem pure_bind' (a : α) (f : α → Prog σ β) : (pure a : Prog σ α) >>= f = f a := rfl

theorem step_bind (write : σ → σ) (next : σ → Prog σ α) (f : α → Prog σ β) :
    step write next >>= f = step write fun s => next s >>= f := rfl

theorem bind_assoc' {γ : Type} (p : Prog σ α) (f : α → Prog σ β) (g : β → Prog σ γ) :
    p >>= f >>= g = p >>= fun a => f a >>= g := by
  induction p with
  | done a => rfl
  | step write next ih =>
    simp only [step_bind]
    congr 1
    funext s
    exact ih s

instance : LawfulMonad (Prog σ) :=
  LawfulMonad.mk' (Prog σ)
    (fun p => by
      induction p with
      | done a => rfl
      | step write next ih => exact congrArg (step write) (funext ih))
    (fun _ _ => rfl) bind_assoc'

def read (f : σ → α) : Prog σ α := step id fun s => done (f s)

def modify (f : σ → σ) : Prog σ Unit := step f fun _ => done ()

def transact (f : σ → α × σ) : Prog σ α := step (fun s => (f s).2) fun s => done (f s).1

def run : Prog σ α → σ → α × σ
  | done a, s => (a, s)
  | step write next, s => (next s).run (write s)

@[simp] theorem run_pure (a : α) (s : σ) : (pure a : Prog σ α).run s = (a, s) := rfl

@[simp] theorem run_done (a : α) (s : σ) : (done a : Prog σ α).run s = (a, s) := rfl

@[simp] theorem run_bind (p : Prog σ α) (f : α → Prog σ β) (s : σ) :
    (p >>= f).run s = (f (p.run s).1).run (p.run s).2 := by
  induction p generalizing s with
  | done a => rfl
  | step write next ih => exact ih s (write s)

@[simp] theorem run_read (f : σ → α) (s : σ) : (read f).run s = (f s, s) := rfl

@[simp] theorem run_modify (f : σ → σ) (s : σ) : (modify f).run s = ((), f s) := rfl

@[simp] theorem run_transact (f : σ → α × σ) (s : σ) : (transact f).run s = f s := rfl

/-- The program alone, when the transaction of that number fails. -/
def runUntil : Prog σ α → Nat → σ → Option (α × σ)
  | done a, _, s => some (a, s)
  | step _ _, 0, _ => none
  | step write next, failing + 1, s => (next s).runUntil failing (write s)

theorem runUntil_eq_run (p : Prog σ α) (failing : Nat) (s : σ) (last : α × σ)
    (h : p.runUntil failing s = some last) : p.run s = last := by
  induction p generalizing failing s with
  | done a => exact Option.some.inj h
  | step write next ih =>
    cases failing with
    | zero => cases h
    | succ failing => exact ih s failing (write s) h

/-- The program, started at `s`, returned `a`; after each of its transactions the others
took the state on as `others` allows, at last to `t`. -/
inductive Among (others : σ → σ → Prop) : Prog σ α → σ → α → σ → Prop
  | done (a : α) (s : σ) : Among others (.done a) s a s
  | step (write : σ → σ) (next : σ → Prog σ α) (s s' t : σ) (a : α) (hothers : others (write s) s')
      (h : Among others (next s) s' a t) : Among others (.step write next) s a t

section Among
variable {others : σ → σ → Prop}

theorem among_done {a b : α} {s t : σ} (h : Among others (.done a) s b t) : a = b ∧ s = t := by
  cases h
  exact ⟨rfl, rfl⟩

theorem among_read {f : σ → α} {s t : σ} {a : α} (h : Among others (read f) s a t) :
    a = f s ∧ others s t := by
  cases h with
  | step _ _ _ s' _ _ hothers h =>
    obtain ⟨rfl, rfl⟩ := among_done h
    exact ⟨rfl, hothers⟩

theorem among_bind {p : Prog σ α} {f : α → Prog σ β} {s t : σ} {b : β}
    (h : Among others (p >>= f) s b t) :
    ∃ a m, Among others p s a m ∧ Among others (f a) m b t := by
  induction p generalizing s with
  | done a => exact ⟨a, s, .done a s, h⟩
  | step write next ih =>
    rw [step_bind] at h
    cases h with
    | step _ _ _ s' _ _ hothers h =>
      obtain ⟨a, m, hp, hf⟩ := ih s h
      exact ⟨a, m, .step write next s s' m a hothers hp, hf⟩

theorem among_run (hrefl : ∀ s, others s s) (p : Prog σ α) (s : σ) :
    Among others p s (p.run s).1 (p.run s).2 := by
  induction p generalizing s with
  | done a => exact .done a s
  | step write next ih => exact .step write next s (write s) _ _ (hrefl (write s)) (ih s (write s))

end Among

/-- Every transaction the program may come to run writes as `P` says. -/
def Always (P : (σ → σ) → Prop) : Prog σ α → Prop
  | done _ => True
  | step write next => P write ∧ ∀ s, (next s).Always P

theorem Always.bind {P : (σ → σ) → Prop} {p : Prog σ α} {f : α → Prog σ β} (hp : p.Always P)
    (hf : ∀ a, (f a).Always P) : (p >>= f).Always P := by
  induction p with
  | done a => exact hf a
  | step write next ih => exact ⟨hp.1, fun s => ih s (hp.2 s)⟩

theorem Always.mono {P Q : (σ → σ) → Prop} {p : Prog σ α} (h : p.Always P)
    (himp : ∀ write, P write → Q write) : p.Always Q := by
  induction p with
  | done a => trivial
  | step write next ih => exact ⟨himp write h.1, fun s => ih s (h.2 s)⟩

theorem Always.of_bind {P : (σ → σ) → Prop} {p : Prog σ α} {f : α → Prog σ β}
    (h : (p >>= f).Always P) : p.Always P := by
  induction p with
  | done a => trivial
  | step write next ih => exact ⟨h.1, fun s => ih s (h.2 s)⟩

theorem always_read {P : (σ → σ) → Prop} (f : σ → α) (hid : P id) : (read f).Always P :=
  ⟨hid, fun _ => trivial⟩

theorem always_modify {P : (σ → σ) → Prop} (f : σ → σ) (h : P f) : (modify f).Always P :=
  ⟨h, fun _ => trivial⟩

theorem always_transact {P : (σ → σ) → Prop} (f : σ → α × σ) (h : P fun s => (f s).2) :
    (transact f).Always P :=
  ⟨h, fun _ => trivial⟩

theorem always_forM {P : (σ → σ) → Prop} (items : List α) (f : α → Prog σ Unit)
    (h : ∀ item ∈ items, (f item).Always P) : (items.forM f).Always P := by
  induction items with
  | nil => trivial
  | cons item items ih =>
    exact (h item List.mem_cons_self).bind fun _ => ih fun i hi => h i (List.mem_cons_of_mem _ hi)

theorem always_foldlM {P : (σ → σ) → Prop} (f : β → α → Prog σ β) (items : List α)
    (h : ∀ b item, (f b item).Always P) (b : β) : (items.foldlM f b).Always P := by
  induction items generalizing b with
  | nil => trivial
  | cons item items ih =>
    rw [List.foldlM_cons]
    exact (h b item).bind ih

theorem Always.run_eq (view : σ → β) {p : Prog σ α}
    (h : p.Always fun write => ∀ s, view (write s) = view s) (s : σ) : view (p.run s).2 = view s := by
  induction p generalizing s with
  | done a => rfl
  | step write next ih => exact (ih s (h.2 s) (write s)).trans (h.1 s)

theorem Always.among {others : σ → σ → Prop} (hrefl : ∀ s, others s s)
    (htrans : ∀ r s t, others r s → others s t → others r t) {p : Prog σ α}
    (h : p.Always fun write => ∀ s, others s (write s)) {s t : σ} {a : α}
    (hrun : Among others p s a t) : others s t := by
  induction hrun with
  | done a s => exact hrefl s
  | step write next s s' t a hothers hrun ih =>
    exact htrans _ _ _ (htrans _ _ _ (h.1 s) hothers) (ih (h.2 s))

def ReadOnly (p : Prog σ α) : Prop := p.Always fun write => write = id

theorem readOnly_read (f : σ → α) : (read f).ReadOnly := ⟨rfl, fun _ => trivial⟩

theorem ReadOnly.bind {p : Prog σ α} {f : α → Prog σ β} (hp : p.ReadOnly)
    (hf : ∀ a, (f a).ReadOnly) : (p >>= f).ReadOnly :=
  Always.bind hp hf

theorem ReadOnly.run {p : Prog σ α} (h : p.ReadOnly) (s : σ) : (p.run s).2 = s := by
  refine Always.run_eq id (h.mono fun write hwrite s => ?_) s
  rw [hwrite]
  rfl

/-- While every state it finds meets `found`, the program can only return what meets `ok`. -/
def Ends (found : σ → Prop) (ok : α → Prop) : Prog σ α → Prop
  | done a => ok a
  | step _ next => ∀ s, found s → (next s).Ends found ok

theorem Ends.bind {found : σ → Prop} {m : α → Prop} {ok : β → Prop} {p : Prog σ α}
    {f : α → Prog σ β} (hp : p.Ends found m) (hf : ∀ a, m a → (f a).Ends found ok) :
    (p >>= f).Ends found ok := by
  induction p with
  | done a => exact hf a hp
  | step write next ih => exact fun s hs => ih s (hp s hs)

theorem ends_read {found : σ → Prop} {ok : α → Prop} (f : σ → α) (h : ∀ s, found s → ok (f s)) :
    (read f).Ends found ok :=
  h

theorem ends_true {found : σ → Prop} (p : Prog σ α) : p.Ends found fun _ => True := by
  induction p with
  | done a => trivial
  | step write next ih => exact fun s _ => ih s

theorem ends_foldlM_keep {found : σ → Prop} {ok : β → Prop} (f : β → α → Prog σ β)
    (hkeep : ∀ b item, ok b → (f b item).Ends found ok) (items : List α) (b : β) (h : ok b) :
    (items.foldlM f b).Ends found ok := by
  induction items generalizing b with
  | nil => exact h
  | cons item items ih =>
    rw [List.foldlM_cons]
    exact (hkeep b item h).bind ih

theorem ends_foldlM {found : σ → Prop} {ok : β → Prop} (f : β → α → Prog σ β)
    (hkeep : ∀ b item, ok b → (f b item).Ends found ok) (key : α)
    (hkey : ∀ b, (f b key).Ends found ok) (items : List α) (b : β) (h : key ∈ items) :
    (items.foldlM f b).Ends found ok := by
  induction items generalizing b with
  | nil => cases h
  | cons item items ih =>
    rw [List.foldlM_cons]
    rcases List.mem_cons.mp h with rfl | h
    · exact (hkey b).bind fun b hb => ends_foldlM_keep f hkeep items b hb
    · exact (ends_true _).bind fun b _ => ih b h

def act : Prog σ α → σ → Option (σ × Prog σ α)
  | done _, _ => none
  | step write next, s => some (write s, next s)

end Prog
end Peryx
