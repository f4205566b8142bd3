import Mathlib.Logic.Basic

/-!
# Queries of a state that others change

A query asks a shared state one question after another, and an answer may decide what it
asks next.
-/

namespace Peryx

inductive Query {ι : Type} (Answer : ι → Type) (α : Type) where
  | done (a : α)
  | ask (question : ι) (next : Answer question → Query Answer α)

namespace Query
variable {σ ι α β : Type} {Answer : ι → Type}

protected def bind : Query Answer α → (α → Query Answer β) → Query Answer β
  | done a, f => f a
  | ask question next, f => ask question fun answer => (next answer).bind f

instance : Monad (Query Answer) where
  pure := done
  bind := Query.bind

instance : LawfulMonad (Query Answer) :=
  LawfulMonad.mk' (Query Answer)
    (fun p => by
      induction p with
      | done a => rfl
      | ask question next ih => exact congrArg (ask question) (funext ih))
    (fun _ _ => rfl)
    (fun p f g => by
      induction p with
      | done a => rfl
      | ask question next ih => exact congrArg (ask question) (funext ih))

variable (see : (question : ι) → σ → Answer question)

def run : Query Answer α → σ → α
  | done a, _ => a
  | ask question next, s => (next (see question s)).run s

def asked : Query Answer α → σ → List ι
  | done _, _ => []
  | ask question next, s => question :: (next (see question s)).asked s

theorem run_bind (p : Query Answer α) (f : α → Query Answer β) (s : σ) :
    (p >>= f).run see s = (f (p.run see s)).run see s := by
  induction p with
  | done a => rfl
  | ask question next ih => exact ih (see question s)

variable {see} in
theorem run_congr {q : Query Answer α} {s t : σ}
    (h : ∀ question ∈ q.asked see s, see question t = see question s) :
    q.run see t = q.run see s := by
  induction q with
  | done a => rfl
  | ask question next ih =>
    have hfirst := h question List.mem_cons_self
    show (next (see question t)).run see t = (next (see question s)).run see s
    rw [hfirst]
    exact ih (see question s) fun later hlater => h later (List.mem_cons_of_mem _ hlater)

def advance : Query Answer α → σ → Query Answer α
  | done a, _ => done a
  | ask question next, s => next (see question s)

def entry : Query Answer α → σ → List (Sigma Answer)
  | done _, _ => []
  | ask question _, s => [⟨question, see question s⟩]

theorem run_advance (q : Query Answer α) (s : σ) : (q.advance see s).run see s = q.run see s := by
  cases q with
  | done a => rfl
  | ask question next => rfl

inductive Leads (q : Query Answer α) : List (Sigma Answer) → Query Answer α → Prop
  | start : Leads q [] q
  | answer (log : List (Sigma Answer)) (question : ι) (next : Answer question → Query Answer α)
    (answer : Answer question) (h : Leads q log (ask question next)) :
    Leads q (log ++ [⟨question, answer⟩]) (next answer)

variable {see}

theorem Leads.advance {q left : Query Answer α} {log : List (Sigma Answer)} (h : Leads q log left)
    (s : σ) : Leads q (log ++ left.entry see s) (left.advance see s) := by
  cases left with
  | done a =>
    show Leads q (log ++ []) (done a)
    rw [List.append_nil]
    exact h
  | ask question next => exact h.answer log question next (see question s)

theorem Leads.run_eq {q left : Query Answer α} {log : List (Sigma Answer)} {s : σ}
    (h : Leads q log left) (hlog : ∀ entry ∈ log, see entry.1 s = entry.2) :
    q.run see s = left.run see s := by
  induction h with
  | start => rfl
  | answer log question next answer h ih =>
    have hlast : see question s = answer :=
      hlog ⟨question, answer⟩ (List.mem_append_right _ List.mem_cons_self)
    have hbefore := ih fun entry hentry => hlog entry (List.mem_append_left _ hentry)
    rw [hbefore, ← hlast]
    rfl

variable (see) in
/-- The change answers nothing otherwise that is still to be asked, or it leaves a state that
answers all that has been asked as it was answered. -/
def Undisturbed (log : List (Sigma Answer)) (left : Query Answer α) (now next : σ) : Prop :=
  (∀ question ∈ left.asked see now, see question next = see question now) ∨
    ∀ entry ∈ log, see entry.1 next = entry.2

instance [∀ question, DecidableEq (Answer question)] (log : List (Sigma Answer))
    (left : Query Answer α) (now next : σ) : Decidable (Undisturbed see log left now next) :=
  inferInstanceAs (Decidable (_ ∨ _))

variable (see) in
/-- One of these states answers the query as what is left of it is answered now. -/
def Sees (q left : Query Answer α) (passed : List σ) (now : σ) : Prop :=
  ∃ s ∈ passed, q.run see s = left.run see now

theorem sees_start (q : Query Answer α) (now : σ) : Sees see q q [now] now :=
  ⟨now, List.mem_cons_self, rfl⟩

theorem Sees.advance {q left : Query Answer α} {passed : List σ} {now : σ}
    (h : Sees see q left passed now) : Sees see q (left.advance see now) passed now := by
  obtain ⟨s, hs, heq⟩ := h
  exact ⟨s, hs, heq.trans (run_advance see left now).symm⟩

theorem Sees.change {q left : Query Answer α} {passed : List σ} {now next : σ}
    {log : List (Sigma Answer)} (h : Sees see q left passed now) (hleads : Leads q log left)
    (hchange : Undisturbed see log left now next) : Sees see q left (next :: passed) next := by
  rcases hchange with hahead | hlog
  · obtain ⟨s, hs, heq⟩ := h
    exact ⟨s, List.mem_cons_of_mem _ hs, heq.trans (run_congr hahead).symm⟩
  · exact ⟨next, List.mem_cons_self, hleads.run_eq hlog⟩

end Query
end Peryx
