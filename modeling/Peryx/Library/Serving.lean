import Mathlib.Data.List.Basic
import Peryx.Library.Prog
import Peryx.Library.Transition

/-!
# Requests over one store

Requests arrive and run their transactions in any order; `act` is the next transaction of a
request.
-/

namespace Peryx

structure Server (σ ρ : Type) where
  store : σ
  running : List ρ

section Serving
variable {σ ρ : Type} (act : ρ → σ → Option (σ × ρ)) (call : ρ → Prop)

abbrev Guard (σ ρ : Type) := σ → ρ → List ρ → Prop

inductive Server.Step (guard : Guard σ ρ) : Server σ ρ → Server σ ρ → Prop
  | arrive (s : σ) (running : List ρ) (r : ρ) (h : call r) :
    Step guard ⟨s, running⟩ ⟨s, r :: running⟩
  | act (s t : σ) (front back : List ρ) (r r' : ρ) (h : act r s = some (t, r'))
    (hguard : guard s r (front ++ back)) :
    Step guard ⟨s, front ++ r :: back⟩ ⟨t, front ++ r' :: back⟩

def serving (empty : σ) (guard : Guard σ ρ) : System (Server σ ρ) where
  start server := server = ⟨empty, []⟩
  step := Server.Step act call guard

variable {act call} {empty : σ} {guard : Guard σ ρ}

/-- An invariant of the store with one assertion for each request: an acting request keeps
the invariant, its own assertion and those of the others. -/
theorem serving_invariant (inv : σ → Prop) (holds : ρ → σ → Prop) (hempty : inv empty)
    (harrive : ∀ s r, call r → holds r s)
    (hact : ∀ s t r r' others, inv s → holds r s → (∀ q ∈ others, holds q s) →
      guard s r others → act r s = some (t, r') →
      inv t ∧ holds r' t ∧ ∀ q ∈ others, holds q t) :
    ∀ server, (serving act call empty guard).Reachable server →
      inv server.store ∧ ∀ r ∈ server.running, holds r server.store := by
  refine System.invariant _ _ ?_ ?_
  · rintro server rfl
    exact ⟨hempty, nofun⟩
  · intro server next _ hinv hstep
    cases hstep with
    | arrive s running r hcall =>
      refine ⟨hinv.1, fun q hq => ?_⟩
      rcases List.mem_cons.mp hq with rfl | hq
      · exact harrive s q hcall
      · exact hinv.2 q hq
    | act s t front back r r' hact' hguard =>
      obtain ⟨hs, hall⟩ := hinv
      have hothers : ∀ q ∈ front ++ back, holds q s := by
        intro q hq
        refine hall q ?_
        rcases List.mem_append.mp hq with hq | hq
        · exact List.mem_append_left _ hq
        · exact List.mem_append_right _ (List.mem_cons_of_mem _ hq)
      have hr : holds r s := hall r (List.mem_append_right _ List.mem_cons_self)
      obtain ⟨ht, hr', hrest⟩ := hact s t r r' _ hs hr hothers hguard hact'
      refine ⟨ht, fun q hq => ?_⟩
      rcases List.mem_append.mp hq with hq | hq
      · exact hrest q (List.mem_append_left _ hq)
      · rcases List.mem_cons.mp hq with rfl | hq
        · exact hr'
        · exact hrest q (List.mem_append_right _ hq)

theorem serving_mono (other : Guard σ ρ)
    (h : ∀ s t front back r r', (serving act call empty guard).Reachable ⟨s, front ++ r :: back⟩ →
      guard s r (front ++ back) → act r s = some (t, r') → other s r (front ++ back)) :
    ∀ server, (serving act call empty guard).Reachable server →
      (serving act call empty other).Reachable server := by
  intro server hserver
  induction hserver with
  | start server hstart => exact .start server hstart
  | step server next hreach hstep ih =>
    refine .step server next ih ?_
    cases hstep with
    | arrive s running r hcall => exact .arrive s running r hcall
    | act s t front back r r' hact hguard =>
      exact .act s t front back r r' hact (h s t front back r r' hreach hguard hact)

theorem serving_arrivals (calls : List ρ) (h : ∀ r ∈ calls, call r) :
    (serving act call empty guard).Reachable ⟨empty, calls⟩ := by
  induction calls with
  | nil => exact .start _ rfl
  | cons r calls ih =>
    refine .step _ _ (ih fun q hq => h q (List.mem_cons_of_mem _ hq)) ?_
    exact .arrive empty calls r (h r List.mem_cons_self)

variable (act) in
/-- Let the request at each of these positions run one transaction. -/
def Server.play (server : Server σ ρ) : List Nat → Option (Server σ ρ)
  | [] => some server
  | position :: rest =>
    match server.running[position]? with
    | none => none
    | some r =>
      match act r server.store with
      | none => none
      | some (t, r') =>
        Server.play ⟨t, server.running.take position ++ r' :: server.running.drop (position + 1)⟩ rest

theorem play_reachable (positions : List Nat) (server last : Server σ ρ)
    (hreach : (serving act call empty fun _ _ _ => True).Reachable server)
    (h : server.play act positions = some last) :
    (serving act call empty fun _ _ _ => True).Reachable last := by
  induction positions generalizing server with
  | nil =>
    cases h
    exact hreach
  | cons position positions ih =>
    unfold Server.play at h
    split at h
    · cases h
    · rename_i r hr
      split at h
      · cases h
      · rename_i t r' hact
        refine ih _ ?_ h
        obtain ⟨hlength, hget⟩ := List.getElem?_eq_some_iff.mp hr
        have hrunning : server.running =
            server.running.take position ++ r :: server.running.drop (position + 1) := by
          rw [← hget, ← List.drop_eq_getElem_cons hlength, List.take_append_drop]
        have hserver : server = ⟨server.store,
            server.running.take position ++ r :: server.running.drop (position + 1)⟩ := by
          rw [← hrunning]
        rw [hserver] at hreach
        exact .step _ _ hreach (.act _ _ _ _ _ _ hact trivial)

variable {α : Type} {handler : Prog σ α → Prop}

theorem serving_always (inv : σ → Prop) (hempty : inv empty)
    (hcall : ∀ p, handler p → p.Always fun write => ∀ s, inv s → inv (write s)) :
    ∀ server, (serving Prog.act handler empty fun _ _ _ => True).Reachable server →
      inv server.store := by
  intro server hserver
  refine (serving_invariant inv (fun (p : Prog σ α) _ =>
    p.Always fun write => ∀ s, inv s → inv (write s)) hempty (fun _ => hcall) ?_ server hserver).1
  intro s t p p' others hs hp hothers _ hact
  cases p with
  | done answer => cases hact
  | step write next =>
    cases hact
    exact ⟨hp.1 s hs, hp.2 s, hothers⟩

/-- Requests whose points are those of the handlers' programs run as the handlers do. -/
theorem serving_programs (prog : ρ → Prog σ α)
    (hcall : ∀ p, handler p ↔ ∃ r, call r ∧ prog r = p)
    (hact : ∀ r s, (prog r).act s = (act r s).map fun next => (next.1, prog next.2)) :
    ∀ server, (serving Prog.act handler empty fun _ _ _ => True).Reachable server ↔
      ∃ requests, (serving act call empty fun _ _ _ => True).Reachable requests ∧
        server = ⟨requests.store, requests.running.map prog⟩ := by
  intro server
  constructor
  · intro h
    induction h with
    | start server hstart =>
      subst hstart
      exact ⟨⟨empty, []⟩, .start _ rfl, rfl⟩
    | step server next _ hstep ih =>
      obtain ⟨⟨store, running⟩, hreach, hserver⟩ := ih
      cases hstep with
      | arrive s programs p hp =>
        obtain ⟨r, hr, rfl⟩ := (hcall p).mp hp
        cases hserver
        exact ⟨⟨store, r :: running⟩, .step _ _ hreach (.arrive store running r hr), rfl⟩
      | act s t front back p p' hp hguard =>
        obtain ⟨rfl, hrunning⟩ := Server.mk.inj hserver
        obtain ⟨before, rest, rfl, rfl, hrest⟩ := List.map_eq_append_iff.mp hrunning.symm
        obtain ⟨r, after, rfl, rfl, rfl⟩ := List.map_eq_cons_iff.mp hrest
        rw [hact] at hp
        obtain ⟨⟨t', r'⟩, hr, hnext⟩ := Option.map_eq_some_iff.mp hp
        cases hnext
        refine ⟨_, .step _ _ hreach (.act _ _ before after r r' hr trivial), ?_⟩
        rw [List.map_append, List.map_cons]
  · rintro ⟨requests, h, rfl⟩
    induction h with
    | start requests hstart =>
      subst hstart
      exact .start _ rfl
    | step requests next _ hstep ih =>
      refine .step _ _ ih ?_
      cases hstep with
      | arrive s running r hr => exact .arrive s _ _ ((hcall _).mpr ⟨r, hr, rfl⟩)
      | act s t front back r r' hr hguard =>
        rw [List.map_append, List.map_append]
        refine .act s t _ _ _ _ ?_ trivial
        rw [hact, hr]
        rfl

end Serving
end Peryx
