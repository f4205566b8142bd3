import Mathlib
import Std.Data.ExtTreeSet.Lemmas
import Peryx.Library.Transition
import Peryx.Oci.Store

/-! # The blob membership cache (registry/mod.rs, registry/blobs/mod.rs) -/

namespace Peryx.Oci
open Storage

structure BlobMembershipCache where
  entries : Std.ExtTreeSet Str := ∅
  insertionOrder : List Str := []
  keyBytes : Nat := 0

def blobMembershipCacheBytes : Nat := 8 <<< 20

namespace BlobMembershipCache

/-- `none` when the weight is less than that of the key. -/
def remove (cache : BlobMembershipCache) (key : Str) : Option BlobMembershipCache :=
  if key ∈ cache.entries then
    if cache.keyBytes < key.length then none
    else some {
      entries := cache.entries.erase key
      insertionOrder := cache.insertionOrder.filter fun entry => entry != key
      keyBytes := cache.keyBytes - key.length }
  else some cache

/-- The loop of `insert`; `none` where "nonzero cache weight has an entry" fails or the weight
is less than that of an entry. -/
def evict (limit : Nat) (entries : Std.ExtTreeSet Str) :
    List Str → Nat → Option BlobMembershipCache
  | [], keyBytes => if limit < keyBytes then none else some ⟨entries, [], keyBytes⟩
  | oldest :: rest, keyBytes =>
    if limit < keyBytes then
      if keyBytes < oldest.length then none
      else evict limit (entries.erase oldest) rest (keyBytes - oldest.length)
    else some ⟨entries, oldest :: rest, keyBytes⟩

def insert (limit : Nat) (cache : BlobMembershipCache) (key : Str) : Option BlobMembershipCache :=
  evict limit (cache.entries.insert key) (cache.insertionOrder ++ [key])
    (cache.keyBytes + key.length)

/-- The entries are those in the order, each once, and weigh what the cache says. -/
structure Sound (limit : Nat) (cache : BlobMembershipCache) : Prop where
  listed : ∀ key, key ∈ cache.entries ↔ key ∈ cache.insertionOrder
  nodup : cache.insertionOrder.Nodup
  weight : cache.keyBytes = (cache.insertionOrder.map List.length).sum
  bounded : cache.keyBytes ≤ limit

end BlobMembershipCache

inductive MembershipCall where
  | idle
  | looking (key : Str)
  | missed (key : Str)
  -- the next two hold the lock
  | asking (key : Str)
  | asked (key : Str) (cached present : Bool)
  | answering (key : Str) (present : Bool)
  | deleting (key : Str)
  -- the next three hold the lock
  | forgetting (key : Str)
  | forgotten (key : Str)
  | deleted (key : Str) (existed : Bool)
  | returning (key : Str) (existed : Bool)
  | failed
  | panicked
  deriving DecidableEq

def MembershipCall.Locked : MembershipCall → Prop
  | .asking _ | .asked _ _ _ | .forgetting _ | .forgotten _ | .deleted _ _ => True
  | .idle | .looking _ | .missed _ | .answering _ _ | .deleting _ | .returning _ _ | .failed
  | .panicked => False

structure Memberships where
  cache : BlobMembershipCache := {}
  stores : Stores := {}
  writer : Option Nat := none
  calls : Nat → MembershipCall := fun _ => .idle

namespace Memberships

def go (state : Memberships) (caller : Nat) (call : MembershipCall) : Memberships :=
  { state with calls := Function.update state.calls caller call }

def lock (state : Memberships) (caller : Nat) : Memberships := { state with writer := some caller }

def unlock (state : Memberships) : Memberships := { state with writer := none }

def recorded (state : Memberships) (key : Str) : Bool := state.stores.rows[key]?.isSome

def remembered (state : Memberships) (key : Str) (cached present : Bool) : Option BlobMembershipCache :=
  if present && !cached then state.cache.insert blobMembershipCacheBytes key else some state.cache

end Memberships

inductive MembershipEvent where
  | lookup (caller : Nat) (key : Str)
  | answered (caller : Nat) (key : Str) (present : Bool)
  | rowDeleted (caller : Nat) (key : Str)
  | deleteReturned (caller : Nat) (key : Str) (existed : Bool)
  | recorded (key : Str)
  | quiet
  deriving DecidableEq

open Memberships in
inductive MembershipStep (state : Memberships) : MembershipEvent → Memberships → Prop
  | lookup (caller : Nat) (index repo digest : Str) (h : state.calls caller = .idle) :
    MembershipStep state (.lookup caller (blobMembershipKey index repo digest))
      (state.go caller (.looking (blobMembershipKey index repo digest)))
  | hit (caller : Nat) (key : Str) (h : state.calls caller = .looking key)
      (hfree : state.writer = none) (hit : key ∈ state.cache.entries) :
    MembershipStep state .quiet (state.go caller (.answering key true))
  | miss (caller : Nat) (key : Str) (h : state.calls caller = .looking key)
      (hfree : state.writer = none) (hmiss : key ∉ state.cache.entries) :
    MembershipStep state .quiet (state.go caller (.missed key))
  | lockLookup (caller : Nat) (key : Str) (h : state.calls caller = .missed key)
      (hfree : state.writer = none) :
    MembershipStep state .quiet ((state.lock caller).go caller (.asking key))
  | ask (caller : Nat) (key : Str) (h : state.calls caller = .asking key) :
    MembershipStep state .quiet (state.go caller (.asked key (decide (key ∈ state.cache.entries))
      (decide (key ∈ state.cache.entries) || state.recorded key)))
  | askFailed (caller : Nat) (key : Str) (h : state.calls caller = .asking key) :
    MembershipStep state .quiet (state.unlock.go caller .failed)
  | remember (caller : Nat) (key : Str) (cached present : Bool) (cache : BlobMembershipCache)
      (h : state.calls caller = .asked key cached present)
      (hcache : state.remembered key cached present = some cache) :
    MembershipStep state .quiet ({ state.unlock with cache }.go caller (.answering key present))
  | insertPanicked (caller : Nat) (key : Str) (cached present : Bool)
      (h : state.calls caller = .asked key cached present)
      (hcache : state.remembered key cached present = none) :
    MembershipStep state .quiet (state.unlock.go caller .panicked)
  | answer (caller : Nat) (key : Str) (present : Bool)
      (h : state.calls caller = .answering key present) :
    MembershipStep state (.answered caller key present) (state.go caller .idle)
  | delete (caller : Nat) (index repo digest : Str) (h : state.calls caller = .idle) :
    MembershipStep state .quiet
      (state.go caller (.deleting (blobMembershipKey index repo digest)))
  | lockDelete (caller : Nat) (key : Str) (h : state.calls caller = .deleting key)
      (hfree : state.writer = none) :
    MembershipStep state .quiet ((state.lock caller).go caller (.forgetting key))
  | forget (caller : Nat) (key : Str) (cache : BlobMembershipCache)
      (h : state.calls caller = .forgetting key) (hcache : state.cache.remove key = some cache) :
    MembershipStep state .quiet ({ state with cache }.go caller (.forgotten key))
  | removePanicked (caller : Nat) (key : Str) (h : state.calls caller = .forgetting key)
      (hcache : state.cache.remove key = none) :
    MembershipStep state .quiet (state.unlock.go caller .panicked)
  | deleteRow (caller : Nat) (key : Str) (h : state.calls caller = .forgotten key) :
    MembershipStep state (.rowDeleted caller key)
      ({ state with stores := state.stores.eraseRow key }.go caller
        (.deleted key (state.recorded key)))
  -- the store reports an error, the row gone or not
  | deleteFailed (caller : Nat) (key : Str) (h : state.calls caller = .forgotten key) :
    MembershipStep state .quiet (state.unlock.go caller .failed)
  | deleteUnsure (caller : Nat) (key : Str) (h : state.calls caller = .forgotten key) :
    MembershipStep state (.rowDeleted caller key)
      ({ state.unlock with stores := state.stores.eraseRow key }.go caller .failed)
  | unlockDelete (caller : Nat) (key : Str) (existed : Bool)
      (h : state.calls caller = .deleted key existed) :
    MembershipStep state .quiet (state.unlock.go caller (.returning key existed))
  | deleteReturn (caller : Nat) (key : Str) (existed : Bool)
      (h : state.calls caller = .returning key existed) :
    MembershipStep state (.deleteReturned caller key existed) (state.go caller .idle)
  | failedReturn (caller : Nat) (h : state.calls caller = .failed) :
    MembershipStep state .quiet (state.go caller .idle)
  | record (index repo digest : Str) :
    MembershipStep state (.recorded (blobMembershipKey index repo digest))
      { state with stores := state.stores.putRow (blobMembershipKey index repo digest) [] }
  -- other requests leave the membership rows alone
  | elsewhere (stores : Stores) (h : ∀ key : Str, blobMembershipPrefixAll <+: key →
      stores.rows[key]? = state.stores.rows[key]?) :
    MembershipStep state .quiet { state with stores }

/-- Any rows in the store, nothing in the cache and no call on its way. -/
def membershipSystem : System Memberships where
  start state := ∃ stores, state = { stores }
  step state next := ∃ event, MembershipStep state event next

inductive Unrecorded (key : Str) (state : Memberships) : Memberships → Prop
  | refl : Unrecorded key state state
  | step (next after : Memberships) (event : MembershipEvent) (h : Unrecorded key state next)
      (hstep : MembershipStep next event after) (hevent : event ≠ .recorded key) :
    Unrecorded key state after

namespace BlobMembershipCache
variable {limit : Nat} {cache : BlobMembershipCache}

theorem empty_sound : Sound limit {} where
  listed _ := iff_of_false Std.ExtTreeSet.not_mem_empty List.not_mem_nil
  nodup := List.nodup_nil
  weight := rfl
  bounded := Nat.zero_le limit

theorem mem_erase_iff (entries : Std.ExtTreeSet Str) (key other : Str) :
    other ∈ entries.erase key ↔ other ≠ key ∧ other ∈ entries := by
  rw [Std.ExtTreeSet.mem_erase]
  refine and_congr_left fun _ => ?_
  rw [ne_eq, ne_eq, Std.LawfulEqCmp.compare_eq_iff_eq, eq_comm]

theorem mem_insert_iff (entries : Std.ExtTreeSet Str) (key other : Str) :
    other ∈ entries.insert key ↔ other = key ∨ other ∈ entries := by
  rw [Std.ExtTreeSet.mem_insert, Std.LawfulEqCmp.compare_eq_iff_eq, eq_comm]

def weigh (keys : List Str) : Nat := (keys.map List.length).sum

theorem weigh_cons (key : Str) (keys : List Str) : weigh (key :: keys) = key.length + weigh keys := rfl

theorem weigh_filter (keys : List Str) (key : Str) (hnodup : keys.Nodup) (hmem : key ∈ keys) :
    weigh (keys.filter fun entry => entry != key) + key.length = weigh keys := by
  induction keys with
  | nil => cases hmem
  | cons head tail ih =>
    obtain ⟨hhead, htail⟩ := List.nodup_cons.mp hnodup
    by_cases heq : head = key
    · subst heq
      have hkeep : tail.filter (fun entry => entry != head) = tail := by
        refine List.filter_eq_self.mpr fun entry hentry => ?_
        rw [bne_iff_ne]
        rintro rfl
        exact hhead hentry
      rw [List.filter_cons_of_neg (by simp), hkeep, weigh_cons]
      omega
    · have htailMem : key ∈ tail := by
        rcases List.mem_cons.mp hmem with h | h
        · exact absurd h.symm heq
        · exact h
      have hrest := ih htail htailMem
      rw [List.filter_cons_of_pos (by simp [heq]), weigh_cons, weigh_cons]
      omega

theorem remove_sound (h : cache.Sound limit) (key : Str) : ∃ after, cache.remove key = some after ∧
    after.Sound limit ∧ ∀ other, other ∈ after.entries ↔ other ≠ key ∧ other ∈ cache.entries := by
  unfold remove
  by_cases hkey : key ∈ cache.entries
  · have hweight := weigh_filter _ key h.nodup ((h.listed key).mp hkey)
    have htotal : cache.keyBytes = weigh cache.insertionOrder := h.weight
    rw [if_pos hkey, if_neg (by omega)]
    refine ⟨_, rfl, ⟨fun other => ?_, h.nodup.filter _, ?_, ?_⟩, mem_erase_iff _ key⟩
    · rw [mem_erase_iff, List.mem_filter, h.listed other, bne_iff_ne, and_comm]
    · show cache.keyBytes - key.length = weigh (cache.insertionOrder.filter fun entry => entry != key)
      omega
    · have := h.bounded
      dsimp only
      omega
  · rw [if_neg hkey]
    refine ⟨cache, rfl, h, fun other => ⟨fun hother => ⟨?_, hother⟩, fun hboth => hboth.2⟩⟩
    rintro rfl
    exact hkey hother

theorem evict_sound (order : List Str) (entries : Std.ExtTreeSet Str) (keyBytes : Nat)
    (hlisted : ∀ key, key ∈ entries ↔ key ∈ order) (hnodup : order.Nodup)
    (hweight : keyBytes = weigh order) : ∃ after, evict limit entries order keyBytes = some after ∧
      after.Sound limit ∧ ∀ key ∈ after.entries, key ∈ entries := by
  induction order generalizing entries keyBytes with
  | nil =>
    have hzero : keyBytes = 0 := hweight
    unfold evict
    rw [if_neg (by omega)]
    exact ⟨_, rfl, ⟨hlisted, hnodup, hweight, by dsimp only; omega⟩, fun key hkey => hkey⟩
  | cons oldest rest ih =>
    obtain ⟨holdest, hrest⟩ := List.nodup_cons.mp hnodup
    rw [weigh_cons] at hweight
    unfold evict
    by_cases hlarge : limit < keyBytes
    · rw [if_pos hlarge, if_neg (by omega)]
      have herased : ∀ key, key ∈ entries.erase oldest ↔ key ∈ rest := by
        intro key
        rw [mem_erase_iff, hlisted key, List.mem_cons]
        constructor
        · rintro ⟨hne, heq | hmem⟩
          · exact absurd heq hne
          · exact hmem
        · intro hmem
          refine ⟨?_, .inr hmem⟩
          rintro rfl
          exact holdest hmem
      obtain ⟨after, hafter, hsound, hsub⟩ :=
        ih (entries.erase oldest) (keyBytes - oldest.length) herased hrest (by omega)
      exact ⟨after, hafter, hsound, fun key hkey => ((mem_erase_iff _ _ _).mp (hsub key hkey)).2⟩
    · rw [if_neg hlarge]
      refine ⟨_, rfl, ⟨hlisted, hnodup, hweight, ?_⟩, fun key hkey => hkey⟩
      dsimp only
      omega

theorem insert_sound (h : cache.Sound limit) (key : Str) (hkey : key ∉ cache.entries) :
    ∃ after, cache.insert limit key = some after ∧ after.Sound limit ∧
      ∀ other ∈ after.entries, other = key ∨ other ∈ cache.entries := by
  have hnew : key ∉ cache.insertionOrder := fun hmem => hkey ((h.listed key).mpr hmem)
  have hlisted : ∀ other, other ∈ cache.entries.insert key ↔ other ∈ cache.insertionOrder ++ [key] := by
    intro other
    rw [mem_insert_iff, h.listed other, List.mem_append, List.mem_singleton, or_comm]
  have hnodup : (cache.insertionOrder ++ [key]).Nodup := by
    refine List.nodup_append.mpr ⟨h.nodup, List.nodup_singleton key, ?_⟩
    intro other hother last hlast heq
    rw [List.mem_singleton.mp hlast] at heq
    exact hnew (heq ▸ hother)
  have hweight : cache.keyBytes + key.length = weigh (cache.insertionOrder ++ [key]) := by
    rw [h.weight, weigh, List.map_append, List.sum_append]
    rfl
  obtain ⟨after, hafter, hsound, hsub⟩ := evict_sound _ _ _ hlisted hnodup hweight
  exact ⟨after, hafter, hsound, fun other hother => (mem_insert_iff _ _ _).mp (hsub other hother)⟩

end BlobMembershipCache
end Peryx.Oci
