import Peryx.Core.Text
import Peryx.Library.Table
import Peryx.Library.Transition

/-!
# The signing keys of an issuer (peryx-identity/src/oidc.rs:229-269,386-398,470-516)

The keys of an issuer are cached under a lock that a lookup holds while it refreshes them.
What the issuer answers and how a key is decoded are parameters; times are seconds.
-/

namespace Peryx.Identity

def minFreshSecs : Int := 60
def defaultFreshSecs : Int := 300
def maxFreshSecs : Int := 900
def hardCacheSecs : Int := 3600

inductive KeyError where
  | issuerUnavailable
  | invalidIssuerResponse
  | unknownKey
  deriving Repr, DecidableEq

inductive PublicKeyUse where
  | signature
  | encryption
  | other (name : Str)
  deriving DecidableEq

inductive KeyOperation where
  | verify
  | other (name : Str)
  deriving DecidableEq

structure Jwk where
  keyId : Option Str
  isRsa : Bool
  keyAlgorithm : Option Str
  publicKeyUse : Option PublicKeyUse
  keyOperations : Option (List KeyOperation)
  parameters : Str

def idsInvalid (seen : List Str) : List Jwk → Bool
  | [] => false
  | key :: keys =>
    match key.keyId.filter fun id => id ≠ [] with
    | none => true
    | some id => if id ∈ seen then true else idsInvalid (id :: seen) keys

def Jwk.verifies (key : Jwk) : Bool :=
  key.isRsa && key.keyAlgorithm.all (fun algorithm => algorithm == str "RS256") &&
    key.publicKeyUse.all (fun usage => usage == .signature) &&
    key.keyOperations.all fun operations => operations.contains .verify

structure Discovery where
  issuer : Str
  jwksUri : Str
  algorithms : List Str

structure IssuerAnswers where
  discovery : Except KeyError (Discovery × Option Int)
  jwks : Str → Except KeyError (List Jwk × Option Int)

structure KeyCache (K : Type) where
  keys : Table Str K := ∅
  freshUntil : Int := 0
  hardUntil : Int := 0
  refreshAfter : Int := 0

def KeyCache.key {K : Type} (cache : KeyCache K) (kid : Str) : Option K := cache.keys[kid]?

structure Lookup (K : Type) where
  answer : Except KeyError K
  cache : KeyCache K
  attempt : Option (Except KeyError (KeyCache K))

section Keys
variable {K : Type} (fromJwk : Jwk → Option K) (validJwksUri : Str → Bool) (issuer : Str)

def decodeKeys : List Jwk → Table Str K → Except KeyError (Table Str K)
  | [], keys => .ok keys
  | key :: jwks, keys =>
    match fromJwk key with
    | none => .error .invalidIssuerResponse
    | some decoding => decodeKeys jwks (keys.insert (key.keyId.getD []) decoding)

def usableKeys (jwks : List Jwk) : Except KeyError (Table Str K) :=
  if jwks.isEmpty ∨ idsInvalid [] jwks then .error .invalidIssuerResponse
  else match decodeKeys fromJwk (jwks.filter Jwk.verifies) ∅ with
    | .error error => .error error
    | .ok keys => if keys.isEmpty then .error .invalidIssuerResponse else .ok keys

def clamp (low high n : Int) : Int := max low (min high n)

def refresh (answers : IssuerAnswers) (now : Int) : Except KeyError (KeyCache K) :=
  match answers.discovery with
  | .error error => .error error
  | .ok (discovery, discoveryAge) =>
    if discovery.issuer ≠ issuer ∨ str "RS256" ∉ discovery.algorithms then
      .error .invalidIssuerResponse
    else if validJwksUri discovery.jwksUri = false then .error .invalidIssuerResponse
    else match answers.jwks discovery.jwksUri with
      | .error error => .error error
      | .ok (jwks, jwksAge) =>
        match usableKeys fromJwk jwks with
        | .error error => .error error
        | .ok keys =>
          let freshFor := clamp minFreshSecs maxFreshSecs
            (min (discoveryAge.getD defaultFreshSecs) (jwksAge.getD defaultFreshSecs))
          .ok {
            keys := keys
            freshUntil := now + freshFor
            hardUntil := now + hardCacheSecs
            refreshAfter := now + minFreshSecs }

/-- The end of `OidcRuntime::key`. -/
def KeyCache.answer (cache : KeyCache K) (kid : Str) : Except KeyError K :=
  match cache.key kid with
  | some key => .ok key
  | none => .error .unknownKey

def KeyCache.hardExpired (cache : KeyCache K) (now : Int) : Bool :=
  !cache.keys.isEmpty && decide (cache.hardUntil ≤ now)

def lookupKey (answers : IssuerAnswers) (cache : KeyCache K) (kid : Str) (now : Int) : Lookup K :=
  let cached := cache.key kid
  if (cached.isNone || decide (cache.freshUntil ≤ now)) &&
      (decide (cache.refreshAfter ≤ now) || cache.hardExpired now) then
    match refresh fromJwk validJwksUri issuer answers now with
    | .ok next => ⟨next.answer kid, next, some (.ok next)⟩
    | .error error =>
      let cache := { cache with refreshAfter := now + minFreshSecs }
      if cached.isNone || cache.hardExpired now then ⟨.error error, cache, some (.error error)⟩
      else ⟨cache.answer kid, cache, some (.error error)⟩
  else ⟨cache.answer kid, cache, none⟩

end Keys

section Refresh
variable {K : Type} {fromJwk : Jwk → Option K} {validJwksUri : Str → Bool} {issuer : Str}

theorem usableKeys_nonempty {jwks : List Jwk} {keys : Table Str K}
    (h : usableKeys fromJwk jwks = .ok keys) : keys.isEmpty = false := by
  unfold usableKeys at h
  split at h
  · cases h
  · split at h
    · cases h
    · split at h
      · cases h
      · rename_i hempty
        cases h
        simpa using hempty

theorem clamp_le (low high n : Int) (h : low ≤ high) : clamp low high n ≤ high := by
  unfold clamp
  omega

structure Fetched (next : KeyCache K) (now : Int) : Prop where
  nonempty : next.keys.isEmpty = false
  fresh : next.freshUntil ≤ next.hardUntil
  hard : next.hardUntil = now + hardCacheSecs
  again : next.refreshAfter = now + minFreshSecs

theorem refresh_fetched {answers : IssuerAnswers} {now : Int} {next : KeyCache K}
    (h : refresh fromJwk validJwksUri issuer answers now = .ok next) : Fetched next now := by
  unfold refresh at h
  split at h
  · cases h
  · split at h
    · cases h
    · split at h
      · cases h
      · split at h
        · cases h
        · split at h
          · cases h
          · rename_i keys hkeys
            cases h
            have hfresh := fun age => clamp_le minFreshSecs maxFreshSecs age (by decide)
            have hmax : maxFreshSecs ≤ hardCacheSecs := by decide
            exact ⟨usableKeys_nonempty hkeys,
              Int.add_le_add_left (Int.le_trans (hfresh _) hmax) now, rfl, rfl⟩

end Refresh

structure LookedUp (K : Type) where
  kid : Str
  now : Int
  answer : Except KeyError K
  attempt : Option (Except KeyError (KeyCache K))

/-- The cache of one issuer, the clock, and the lookups so far, the last one first. -/
structure Lookups (K : Type) where
  clock : Int
  cache : KeyCache K := {}
  history : List (LookedUp K) := []

variable {K : Type} (fromJwk : Jwk → Option K) (validJwksUri : Str → Bool) (issuer : Str)

def Lookups.lookup (state : Lookups K) (answers : IssuerAnswers) (kid : Str) (now : Int) :
    Lookups K :=
  let looked := lookupKey fromJwk validJwksUri issuer answers state.cache kid now
  { clock := now
    cache := looked.cache
    history := ⟨kid, now, looked.answer, looked.attempt⟩ :: state.history }

/-- Lookups come one after another by a clock that does not go back; the issuer may answer
anything. -/
def lookups : System (Lookups K) where
  start state := state.cache = {} ∧ state.history = []
  step state next := ∃ answers kid now, state.clock ≤ now ∧
    next = state.lookup fromJwk validJwksUri issuer answers kid now

def lastSuccess : List (LookedUp K) → Option (Int × Table Str K)
  | [] => none
  | looked :: earlier =>
    match looked.attempt with
    | some (.ok next) => some (looked.now, next.keys)
    | some (.error _) | none => lastSuccess earlier

def LookedUp.Failed (looked : LookedUp K) : Prop := ∃ error, looked.attempt = some (.error error)

def LookedUp.Succeeded (looked : LookedUp K) : Prop := ∃ next, looked.attempt = some (.ok next)

/-- A returned key is of the last successful refresh, less than an hour ago. -/
def Current (looked : LookedUp K) (earlier : List (LookedUp K)) : Prop :=
  ∀ key, looked.answer = .ok key → ∃ fetched keys, lastSuccess (looked :: earlier) =
    some (fetched, keys) ∧ keys[looked.kid]? = some key ∧ fetched ≤ looked.now ∧
      looked.now < fetched + hardCacheSecs

/-- Unless a refresh succeeds, the keys there are answer until they are given up. -/
def Kept (looked : LookedUp K) (earlier : List (LookedUp K)) : Prop :=
  ∀ fetched keys key, lastSuccess earlier = some (fetched, keys) →
    keys[looked.kid]? = some key → looked.now < fetched + hardCacheSecs →
      ¬ looked.Succeeded → looked.answer = .ok key

/-- Soon after a failure the issuer is asked only when the keys were given up. -/
def Spared (looked : LookedUp K) (earlier : List (LookedUp K)) : Prop :=
  looked.attempt ≠ none → ∀ failed ∈ earlier, failed.Failed →
    looked.now < failed.now + minFreshSecs → ∃ fetched keys,
      lastSuccess earlier = some (fetched, keys) ∧ fetched + hardCacheSecs ≤ looked.now

structure Reflects (state : Lookups K) : Prop where
  past : ∀ looked ∈ state.history, looked.now ≤ state.clock
  cold : lastSuccess state.history = none → state.cache.keys = ∅
  warm : ∀ fetched keys, lastSuccess state.history = some (fetched, keys) →
    state.cache.keys = keys ∧ keys.isEmpty = false ∧ fetched ≤ state.clock ∧
      state.cache.hardUntil = fetched + hardCacheSecs
  fresh : state.cache.freshUntil ≤ state.cache.hardUntil
  failed : ∀ failed ∈ state.history, failed.Failed →
    failed.now + minFreshSecs ≤ state.cache.refreshAfter

theorem Reflects.past_cons {state : Lookups K} (h : Reflects state) {now : Int}
    (hclock : state.clock ≤ now) (next : LookedUp K) (hnow : next.now = now) :
    ∀ looked ∈ next :: state.history, looked.now ≤ now := by
  intro looked hmem
  rcases List.mem_cons.mp hmem with rfl | hmem
  · exact Int.le_of_eq hnow
  · exact Int.le_trans (h.past looked hmem) hclock

theorem Reflects.warm_until {state : Lookups K} (h : Reflects state) {now : Int}
    (hclock : state.clock ≤ now) (fetched : Int) (keys : Table Str K)
    (hlast : lastSuccess state.history = some (fetched, keys)) :
    state.cache.keys = keys ∧ keys.isEmpty = false ∧ fetched ≤ now ∧
      state.cache.hardUntil = fetched + hardCacheSecs := by
  obtain ⟨hkeys, hempty, hpast, hhard⟩ := h.warm fetched keys hlast
  exact ⟨hkeys, hempty, Int.le_trans hpast hclock, hhard⟩

theorem Reflects.fetched {state : Lookups K} (h : Reflects state) {kid : Str} {key : K}
    (hkey : state.cache.key kid = some key) :
    ∃ fetched keys, lastSuccess state.history = some (fetched, keys) ∧ keys[kid]? = some key := by
  cases hlast : lastSuccess state.history with
  | none =>
    have hempty := h.cold hlast
    unfold KeyCache.key at hkey
    rw [hempty] at hkey
    simp at hkey
  | some last =>
    obtain ⟨fetched, keys⟩ := last
    have hkeys := (h.warm fetched keys hlast).1
    unfold KeyCache.key at hkey
    rw [hkeys] at hkey
    exact ⟨fetched, keys, rfl, hkey⟩

theorem hardExpired_iff {state : Lookups K} (h : Reflects state) (now : Int) :
    state.cache.hardExpired now = true ↔ ∃ fetched keys,
      lastSuccess state.history = some (fetched, keys) ∧ fetched + hardCacheSecs ≤ now := by
  unfold KeyCache.hardExpired
  cases hlast : lastSuccess state.history with
  | none =>
    rw [h.cold hlast]
    simp
  | some last =>
    obtain ⟨fetched, keys⟩ := last
    obtain ⟨hkeys, hempty, _, hhard⟩ := h.warm fetched keys hlast
    rw [hkeys, hempty, hhard]
    simp

theorem lookupKey_cases (answers : IssuerAnswers) (cache : KeyCache K) (kid : Str) (now : Int) :
    ((lookupKey fromJwk validJwksUri issuer answers cache kid now) = ⟨cache.answer kid, cache, none⟩ ∧
      (cache.freshUntil ≤ cache.hardUntil → cache.hardExpired now = false)) ∨
    (∃ next, lookupKey fromJwk validJwksUri issuer answers cache kid now =
        ⟨next.answer kid, next, some (.ok next)⟩ ∧ Fetched next now ∧
      (cache.refreshAfter ≤ now ∨ cache.hardExpired now = true)) ∨
    (∃ error answer, lookupKey fromJwk validJwksUri issuer answers cache kid now =
        ⟨answer, { cache with refreshAfter := now + minFreshSecs }, some (.error error)⟩ ∧
      (cache.refreshAfter ≤ now ∨ cache.hardExpired now = true) ∧
      ((answer = .error error ∧ (cache.key kid = none ∨ cache.hardExpired now = true)) ∨
        (answer = cache.answer kid ∧ cache.hardExpired now = false))) := by
  unfold lookupKey
  dsimp only
  split
  · rename_i hrefresh
    rw [Bool.and_eq_true, Bool.or_eq_true, decide_eq_true_eq, Bool.or_eq_true,
      decide_eq_true_eq] at hrefresh
    cases hanswer : refresh fromJwk validJwksUri issuer answers now with
    | ok next => exact Or.inr (Or.inl ⟨next, rfl, refresh_fetched hanswer, hrefresh.2⟩)
    | error error =>
      dsimp only
      have hsame : ({ cache with refreshAfter := now + minFreshSecs } : KeyCache K).hardExpired now =
          cache.hardExpired now := rfl
      rw [hsame]
      split
      · rename_i hgone
        rw [Bool.or_eq_true, Option.isNone_iff_eq_none] at hgone
        exact Or.inr (Or.inr ⟨error, _, rfl, hrefresh.2, Or.inl ⟨rfl, hgone⟩⟩)
      · rename_i hkept
        rw [Bool.not_eq_true, Bool.or_eq_false_iff] at hkept
        exact Or.inr (Or.inr ⟨error, _, rfl, hrefresh.2, Or.inr ⟨rfl, hkept.2⟩⟩)
  · rename_i hquiet
    refine Or.inl ⟨rfl, fun hfresh => ?_⟩
    by_contra hexpired
    rw [Bool.not_eq_false] at hexpired
    have hhard : cache.hardUntil ≤ now := by
      unfold KeyCache.hardExpired at hexpired
      rw [Bool.and_eq_true, decide_eq_true_eq] at hexpired
      exact hexpired.2
    apply hquiet
    rw [Bool.and_eq_true, Bool.or_eq_true, decide_eq_true_eq, Bool.or_eq_true, decide_eq_true_eq]
    exact ⟨Or.inr (by omega), Or.inr hexpired⟩

theorem answer_eq_ok {cache : KeyCache K} {kid : Str} {key : K} :
    cache.answer kid = .ok key ↔ cache.key kid = some key := by
  unfold KeyCache.answer
  cases cache.key kid with
  | none => simp
  | some found => simp

theorem Reflects.answered {state : Lookups K} (h : Reflects state) (kid : Str) (now : Int)
    (hclock : state.clock ≤ now) (hlive : state.cache.hardExpired now = false) (key : K)
    (hkey : state.cache.answer kid = .ok key) : ∃ fetched keys,
      lastSuccess state.history = some (fetched, keys) ∧ keys[kid]? = some key ∧ fetched ≤ now ∧
        now < fetched + hardCacheSecs := by
  obtain ⟨fetched, keys, hlast, hget⟩ := h.fetched (answer_eq_ok.mp hkey)
  have hpast := (h.warm fetched keys hlast).2.2.1
  refine ⟨fetched, keys, hlast, hget, by omega, ?_⟩
  by_contra hold
  have hexpired := (hardExpired_iff h now).mpr ⟨fetched, keys, hlast, by omega⟩
  rw [hlive] at hexpired
  cases hexpired

theorem Reflects.keeps {state : Lookups K} (h : Reflects state) {kid : Str} {fetched : Int}
    {keys : Table Str K} {key : K} (hlast : lastSuccess state.history = some (fetched, keys))
    (hget : keys[kid]? = some key) : state.cache.answer kid = .ok key := by
  have hkeys := (h.warm fetched keys hlast).1
  rw [answer_eq_ok, KeyCache.key, hkeys]
  exact hget

theorem Reflects.spared {state : Lookups K} (h : Reflects state) (now : Int)
    (hwhy : state.cache.refreshAfter ≤ now ∨ state.cache.hardExpired now = true)
    (failed : LookedUp K) (hmem : failed ∈ state.history) (hfailed : failed.Failed)
    (hsoon : now < failed.now + minFreshSecs) : ∃ fetched keys,
      lastSuccess state.history = some (fetched, keys) ∧ fetched + hardCacheSecs ≤ now := by
  have hlater := h.failed failed hmem hfailed
  rcases hwhy with hagain | hexpired
  · omega
  · exact (hardExpired_iff h now).mp hexpired

structure StepOk (state next : Lookups K) (looked : LookedUp K) : Prop where
  history : next.history = looked :: state.history
  reflects : Reflects next
  current : Current looked state.history
  kept : Kept looked state.history
  spared : Spared looked state.history

theorem lookup_quiet (state : Lookups K) (kid : Str) (now : Int) (h : Reflects state)
    (hclock : state.clock ≤ now) (hlive : state.cache.hardExpired now = false) :
    StepOk state ⟨now, state.cache, ⟨kid, now, state.cache.answer kid, none⟩ :: state.history⟩
      ⟨kid, now, state.cache.answer kid, none⟩ where
  history := rfl
  reflects := {
    past := h.past_cons hclock _ rfl
    cold := h.cold
    warm := h.warm_until hclock
    fresh := h.fresh
    failed := by
      intro failed hmem hfailed
      rcases List.mem_cons.mp hmem with rfl | hmem
      · obtain ⟨error, herror⟩ := hfailed
        cases herror
      · exact h.failed failed hmem hfailed }
  current := fun key hkey => h.answered kid now hclock hlive key hkey
  kept := fun _ _ _ hlast hget _ _ => h.keeps hlast hget
  spared := fun hattempt => absurd rfl hattempt

theorem lookup_fetched (state : Lookups K) (kid : Str) (now : Int) (next : KeyCache K)
    (h : Reflects state) (hclock : state.clock ≤ now) (hnext : Fetched next now)
    (hwhy : state.cache.refreshAfter ≤ now ∨ state.cache.hardExpired now = true) :
    StepOk state ⟨now, next, ⟨kid, now, next.answer kid, some (.ok next)⟩ :: state.history⟩
      ⟨kid, now, next.answer kid, some (.ok next)⟩ where
  history := rfl
  reflects := {
    past := h.past_cons hclock _ rfl
    cold := by
      intro hlast
      cases hlast
    warm := by
      intro fetched keys hlast
      cases hlast
      exact ⟨rfl, hnext.nonempty, Int.le_refl now, hnext.hard⟩
    fresh := hnext.fresh
    failed := by
      intro failed hmem hfailed
      rcases List.mem_cons.mp hmem with rfl | hmem
      · obtain ⟨error, herror⟩ := hfailed
        cases herror
      · have hpast := h.past failed hmem
        have hagain := hnext.again
        dsimp only
        omega }
  current := by
    intro key hkey
    refine ⟨now, next.keys, rfl, answer_eq_ok.mp hkey, Int.le_refl now, ?_⟩
    have hpos : 0 < hardCacheSecs := by decide
    dsimp only
    omega
  kept := fun _ _ _ _ _ _ hfailed => absurd ⟨next, rfl⟩ hfailed
  spared := fun _ failed hmem hfailed hsoon => h.spared now hwhy failed hmem hfailed hsoon

theorem lookup_failed (state : Lookups K) (kid : Str) (now : Int) (error : KeyError)
    (answer : Except KeyError K) (h : Reflects state) (hclock : state.clock ≤ now)
    (hwhy : state.cache.refreshAfter ≤ now ∨ state.cache.hardExpired now = true)
    (hanswer : (answer = .error error ∧
        (state.cache.key kid = none ∨ state.cache.hardExpired now = true)) ∨
      (answer = state.cache.answer kid ∧ state.cache.hardExpired now = false)) :
    StepOk state ⟨now, { state.cache with refreshAfter := now + minFreshSecs },
      ⟨kid, now, answer, some (.error error)⟩ :: state.history⟩
      ⟨kid, now, answer, some (.error error)⟩ where
  history := rfl
  reflects := {
    past := h.past_cons hclock _ rfl
    cold := h.cold
    warm := h.warm_until hclock
    fresh := h.fresh
    failed := by
      intro failed hmem hfailed
      rcases List.mem_cons.mp hmem with rfl | hmem
      · exact Int.le_refl _
      · have hpast := h.past failed hmem
        dsimp only
        omega }
  current := by
    intro key hkey
    rcases hanswer with ⟨hrefused, _⟩ | ⟨hkept, hlive⟩
    · dsimp only at hkey
      rw [hrefused] at hkey
      cases hkey
    · dsimp only at hkey
      rw [hkept] at hkey
      exact h.answered kid now hclock hlive key hkey
  kept := by
    intro fetched keys key hlast hget hyoung _
    have hanswered := h.keeps hlast hget
    rcases hanswer with ⟨_, hmissing | hexpired⟩ | ⟨hkept, _⟩
    · rw [answer_eq_ok, hmissing] at hanswered
      cases hanswered
    · obtain ⟨fetched', keys', hlast', hold⟩ := (hardExpired_iff h now).mp hexpired
      rw [hlast] at hlast'
      cases hlast'
      dsimp only at hyoung
      omega
    · dsimp only
      rw [hkept]
      exact hanswered
  spared := fun _ failed hmem hfailed hsoon => h.spared now hwhy failed hmem hfailed hsoon

theorem lookup_step (state : Lookups K) (answers : IssuerAnswers) (kid : Str) (now : Int)
    (h : Reflects state) (hclock : state.clock ≤ now) :
    ∃ looked, StepOk state (state.lookup fromJwk validJwksUri issuer answers kid now) looked := by
  unfold Lookups.lookup
  rcases lookupKey_cases fromJwk validJwksUri issuer answers state.cache kid now with
    ⟨hlooked, hlive⟩ | ⟨next, hlooked, hnext, hwhy⟩ | ⟨error, answer, hlooked, hwhy, hanswer⟩
  · rw [hlooked]
    exact ⟨_, lookup_quiet state kid now h hclock (hlive h.fresh)⟩
  · rw [hlooked]
    exact ⟨_, lookup_fetched state kid now next h hclock hnext hwhy⟩
  · rw [hlooked]
    exact ⟨_, lookup_failed state kid now error answer h hclock hwhy hanswer⟩

def Throughout (history : List (LookedUp K)) : Prop :=
  ∀ later looked earlier, history = later ++ looked :: earlier →
    Current looked earlier ∧ Kept looked earlier ∧ Spared looked earlier

theorem throughout_cons (looked : LookedUp K) (earlier : List (LookedUp K))
    (hlooked : Current looked earlier ∧ Kept looked earlier ∧ Spared looked earlier)
    (h : Throughout earlier) : Throughout (looked :: earlier) := by
  intro later last first hsplit
  cases later with
  | nil =>
    rw [List.nil_append, List.cons.injEq] at hsplit
    obtain ⟨rfl, rfl⟩ := hsplit
    exact hlooked
  | cons head later =>
    rw [List.cons_append, List.cons.injEq] at hsplit
    exact h later last first hsplit.2

theorem reachable_reflects (state : Lookups K)
    (h : (lookups fromJwk validJwksUri issuer).Reachable state) :
    Reflects state ∧ Throughout state.history := by
  refine (lookups fromJwk validJwksUri issuer).invariant
    (fun state => Reflects state ∧ Throughout state.history) ?_ ?_ state h
  · intro state hstart
    obtain ⟨hcache, hhistory⟩ := hstart
    refine ⟨⟨?_, ?_, ?_, ?_, ?_⟩, ?_⟩
    · rw [hhistory]
      exact nofun
    · intro _
      rw [hcache]
    · intro fetched keys hlast
      rw [hhistory] at hlast
      cases hlast
    · rw [hcache]
    · rw [hhistory]
      exact nofun
    · intro later looked earlier hsplit
      rw [hhistory] at hsplit
      cases later with
      | nil => cases hsplit
      | cons head later => cases hsplit
  · intro state next _ hinv hstep
    obtain ⟨answers, kid, now, hclock, rfl⟩ := hstep
    obtain ⟨looked, hok⟩ :=
      lookup_step fromJwk validJwksUri issuer state answers kid now hinv.1 hclock
    refine ⟨hok.reflects, ?_⟩
    rw [hok.history]
    exact throughout_cons looked state.history ⟨hok.current, hok.kept, hok.spared⟩ hinv.2

theorem key_cache_deadlines (state : Lookups K)
    (h : (lookups fromJwk validJwksUri issuer).Reachable state) :
    state.cache.freshUntil ≤ state.cache.hardUntil ∧
    ∀ later looked earlier, state.history = later ++ looked :: earlier →
      Current looked earlier ∧ Kept looked earlier ∧ Spared looked earlier := by
  obtain ⟨hreflects, hall⟩ := reachable_reflects fromJwk validJwksUri issuer state h
  exact ⟨hreflects.fresh, hall⟩

def answering : IssuerAnswers where
  discovery := .ok (⟨str "https://id.example", str "https://id.example/keys", [str "RS256"]⟩, none)
  jwks _ := .ok ([⟨some (str "key-1"), true, none, none, none, str "modulus"⟩], some 120)

def unavailable : IssuerAnswers where
  discovery := .error .issuerUnavailable
  jwks _ := .error .issuerUnavailable

/-- The key is fetched, kept after a failure, and served in the time without a retry. -/
def servedThrice : Lookups Str :=
  let lookup := Lookups.lookup (fun key => some key.parameters) (fun _ => true)
    (str "https://id.example")
  let fetched := lookup ⟨1000, {}, []⟩ answering (str "key-1") 1000
  let kept := lookup fetched unavailable (str "key-1") 1200
  lookup kept unavailable (str "key-1") 1230

theorem servedThrice_reachable : (lookups (fun key => some key.parameters) (fun _ => true)
    (str "https://id.example")).Reachable servedThrice := by
  have hcold : (lookups (fun key => some key.parameters) (fun _ => true)
      (str "https://id.example")).Reachable ⟨1000, {}, []⟩ := .start _ ⟨rfl, rfl⟩
  have hfetched := hcold.step _ _ ⟨answering, str "key-1", 1000, Int.le_refl 1000, rfl⟩
  have hkept := hfetched.step _ _ ⟨unavailable, str "key-1", 1200, by decide, rfl⟩
  exact hkept.step _ _ ⟨unavailable, str "key-1", 1230, by decide, rfl⟩

theorem servedThrice_deadlines :
    servedThrice.history.map LookedUp.answer =
      [.ok (str "modulus"), .ok (str "modulus"), .ok (str "modulus")] ∧
    servedThrice.history.map (fun looked => looked.attempt.isSome) = [false, true, true] ∧
    servedThrice.cache.freshUntil ≤ servedThrice.cache.hardUntil ∧
    ∀ later looked earlier, servedThrice.history = later ++ looked :: earlier →
      Current looked earlier ∧ Kept looked earlier ∧ Spared looked earlier :=
  ⟨rfl, rfl, key_cache_deadlines _ _ _ servedThrice servedThrice_reachable⟩

end Peryx.Identity
