import Peryx.Library.Table

/-!
# Permits

A limiter hands out permits by key, each key with the same capacity, and takes them back.
-/

namespace Peryx

structure Limiter (κ : Type) [Ord κ] where
  capacity : Nat
  permits : Table κ Nat

namespace Limiter
variable {κ : Type} [Ord κ] [Std.TransOrd κ]

def new (capacity : Nat) : Limiter κ := ⟨capacity, ∅⟩

def available (limiter : Limiter κ) (key : κ) : Nat := limiter.permits[key]?.getD limiter.capacity

def acquire (limiter : Limiter κ) (key : κ) : Option (Limiter κ) :=
  if limiter.available key = 0 then none
  else some { limiter with permits := limiter.permits.insert key (limiter.available key - 1) }

def release (limiter : Limiter κ) (key : κ) : Limiter κ :=
  { limiter with permits := limiter.permits.insert key (limiter.available key + 1) }

@[simp] theorem available_new (capacity : Nat) (key : κ) :
    (new capacity : Limiter κ).available key = capacity := by
  simp [available, new]

theorem acquire_isSome (limiter : Limiter κ) (key : κ) :
    (limiter.acquire key).isSome ↔ 0 < limiter.available key := by
  unfold acquire
  split <;> simp <;> omega

variable [Std.LawfulEqOrd κ] [DecidableEq κ]

theorem available_acquire (limiter taken : Limiter κ) (key : κ) (h : limiter.acquire key = some taken) :
    taken.capacity = limiter.capacity ∧ ∀ other,
      taken.available other + (if other = key then 1 else 0) = limiter.available other := by
  unfold acquire at h
  split at h
  · exact absurd h (Option.some_ne_none _ ∘ Eq.symm)
  · rename_i hfree
    obtain rfl := Option.some.inj h
    refine ⟨rfl, fun other => ?_⟩
    by_cases ho : other = key
    · subst ho
      simp only [available, Std.ExtTreeMap.getElem?_insert_self, Option.getD_some, if_pos]
      simp only [available] at hfree
      omega
    · have hc : compare key other ≠ .eq := fun he => ho (Std.LawfulEqCmp.eq_of_compare he).symm
      simp [available, Std.ExtTreeMap.getElem?_insert, hc, ho]

theorem available_release (limiter : Limiter κ) (key other : κ) :
    (limiter.release key).available other = limiter.available other + (if other = key then 1 else 0) := by
  by_cases ho : other = key
  · subst ho
    simp [release, available]
  · have hc : compare key other ≠ .eq := fun he => ho (Std.LawfulEqCmp.eq_of_compare he).symm
    simp [release, available, Std.ExtTreeMap.getElem?_insert, hc, ho]

omit [Std.LawfulEqOrd κ] [DecidableEq κ]

def Balanced (limiter : Limiter κ) (held : κ → Nat) : Prop :=
  ∀ key, limiter.available key + held key = limiter.capacity

theorem Balanced.held_le (limiter : Limiter κ) (held : κ → Nat) (h : limiter.Balanced held) (key : κ) :
    held key ≤ limiter.capacity := by
  have := h key
  omega

theorem balanced_new (capacity : Nat) (held : κ → Nat) (h : ∀ key, held key = 0) :
    (new capacity : Limiter κ).Balanced held := by
  intro key
  rw [available_new, h key]
  rfl

theorem Balanced.move (limiter moved : Limiter κ) (held held' before after : κ → Nat)
    (h : limiter.Balanced held) (hcapacity : moved.capacity = limiter.capacity)
    (hfree : ∀ key, moved.available key + after key = limiter.available key + before key)
    (hheld : ∀ key, held' key + before key = held key + after key) : moved.Balanced held' := by
  intro key
  have h1 := h key
  have h2 := hfree key
  have h3 := hheld key
  omega

end Limiter
end Peryx
