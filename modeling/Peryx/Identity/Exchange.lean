import Peryx.Core.Json
import Peryx.Identity.TrustedPublisher
import Peryx.Library.Table
import Peryx.Library.Transition

/-!
# Exchanging CI identities (peryx-identity/src/oidc.rs:37-60,142-232,314-327)

An exchange reads the clock when it arrives and waits for the issuer's keys; then it
authorizes the claims, mints the credential and claims the identity in the replay map, all
by the time it read. What the signature check lets through, and the signing of the minted
claims, are outside this model.
-/

namespace Peryx.Identity
open Acl

inductive Audience where
  | one (value : Str)
  | many (values : List Str)
  deriving Repr, DecidableEq

/-- `Audience::one`. -/
def Audience.single : Audience → Option Str
  | .one value => some value
  | .many [value] => some value
  | .many _ => none

structure ExternalClaims where
  iss : Str
  aud : Audience
  sub : Str
  exp : Int
  iat : Int
  nbf : Option Int
  jti : Str
  extra : Std.ExtTreeMap Str Json

structure VerifiedIdentity where
  publish : PublishClaims
  jti : Str

inductive ExchangeError where
  | invalidIdentity
  | replay
  | replayCapacity
  | denied (denial : PublishDenial)
  deriving Repr, DecidableEq

def maxIdentityLifetimeSecs : Int := 3600
def maxJtiBytes : Nat := 256
def maxSubjectBytes : Nat := 2048

def checkedSub (a b : Int) : Option Int :=
  if -2 ^ 63 ≤ a - b ∧ a - b < 2 ^ 63 then some (a - b) else none

def verifyClaims (claims : ExternalClaims) (now : Int) : Except ExchangeError VerifiedIdentity :=
  match claims.aud.single with
  | none => .error .invalidIdentity
  | some audience =>
    if claims.sub.isEmpty ∨ maxSubjectBytes < claims.sub.length ∨ claims.jti.isEmpty ∨
        maxJtiBytes < claims.jti.length ∨ now < claims.iat ∨
        (claims.nbf.any fun notBefore => now < notBefore) ∨
        (checkedSub claims.exp claims.iat).all fun lifetime =>
          lifetime ≤ 0 || maxIdentityLifetimeSecs < lifetime then
      .error .invalidIdentity
    else .ok {
      publish := {
        issuer := claims.iss
        audience := audience
        subject := claims.sub
        expiresAt := claims.exp
        claims := claims.extra.filterMap fun _ value => value.asStr }
      jti := claims.jti }

abbrev ReplayKey := List Str

instance : Std.TransOrd ReplayKey := inferInstanceAs (Std.TransOrd (List Str))

instance : Std.LawfulEqOrd ReplayKey := inferInstanceAs (Std.LawfulEqOrd (List Str))

abbrev Replay := Table ReplayKey Int

def VerifiedIdentity.key (identity : VerifiedIdentity) : ReplayKey :=
  [identity.publish.issuer, identity.jti]

def Replay.retain (replay : Replay) (now : Int) : Replay :=
  replay.filter fun _ expiry => decide (now < expiry)

def consumeReplay (capacity : Nat) (replay : Replay) (key : ReplayKey) (expiresAt now : Int) :
    Except ExchangeError Unit × Replay :=
  let replay := replay.retain now
  if replay.contains key then (.error .replay, replay)
  else if capacity ≤ replay.size then (.error .replayCapacity, replay)
  else (.ok (), replay.insert key expiresAt)

structure MintedClaims where
  sub : Str
  iat : Int
  exp : Int
  jti : Str
  grants : List Grant

structure ExchangedToken where
  token : MintedClaims
  tokenId : Str
  publisherId : Str
  repository : Str
  expiresAt : Int

/-- `OidcRuntime`, which refuses to be built with no lifetime or no capacity. -/
structure OidcRuntime where
  bindings : List PublisherBinding
  tokenTtlSecs : Int
  replayCapacity : Nat
  ttl_pos : 0 < tokenTtlSecs
  capacity_pos : 0 < replayCapacity

def OidcRuntime.mint (runtime : OidcRuntime) (identity : VerifiedIdentity) (now : Int)
    (tokenId : Str) : Except ExchangeError ExchangedToken :=
  match exchangedGrants runtime.bindings identity.publish now with
  | .error denial => .error (.denied denial)
  | .ok (binding, grants) =>
    let ttlSecs := min runtime.tokenTtlSecs (identity.publish.expiresAt - now)
    .ok {
      token := {
        sub := str "trusted-publisher:" ++ binding.id
        iat := now
        exp := now + ttlSecs
        jti := tokenId
        grants := grants }
      tokenId := tokenId
      publisherId := binding.id
      repository := binding.repository
      expiresAt := now + ttlSecs }

/-- `exchange` once the signature is checked. -/
def OidcRuntime.exchange (runtime : OidcRuntime) (replay : Replay) (claims : ExternalClaims)
    (now : Int) (tokenId : Str) :
    Except ExchangeError (VerifiedIdentity × ExchangedToken) × Replay :=
  match verifyClaims claims now with
  | .error error => (.error error, replay)
  | .ok identity =>
    match runtime.mint identity now tokenId with
    | .error error => (.error error, replay)
    | .ok token =>
      match consumeReplay runtime.replayCapacity replay identity.key
        identity.publish.expiresAt now with
      | (.error error, replay) => (.error error, replay)
      | (.ok (), replay) => (.ok (identity, token), replay)

structure Exchanged where
  identity : VerifiedIdentity
  begun : Int
  finished : Int
  token : ExchangedToken

structure Exchanges where
  clock : Int
  replay : Replay := ∅
  waiting : List Int := []
  exchanged : List Exchanged := []

def Exchanges.finish (state : Exchanges) (runtime : OidcRuntime) (now : Int) (waiting : List Int)
    (claims : ExternalClaims) (tokenId : Str) : Exchanges :=
  match runtime.exchange state.replay claims now tokenId with
  | (.ok (identity, token), replay) => { state with
      replay := replay
      waiting := waiting
      exchanged := ⟨identity, now, state.clock, token⟩ :: state.exchanged }
  | (.error _, replay) => { state with replay := replay, waiting := waiting }

inductive ExchangeStep (runtime : OidcRuntime) : Exchanges → Exchanges → Prop
  | tick (state : Exchanges) (clock : Int) (h : state.clock ≤ clock) :
    ExchangeStep runtime state { state with clock := clock }
  | arrive (state : Exchanges) :
    ExchangeStep runtime state { state with waiting := state.clock :: state.waiting }
  | leave (state : Exchanges) (front back : List Int) (now : Int)
      (h : state.waiting = front ++ now :: back) :
    ExchangeStep runtime state { state with waiting := front ++ back }
  | finish (state : Exchanges) (front back : List Int) (now : Int) (claims : ExternalClaims)
      (tokenId : Str) (h : state.waiting = front ++ now :: back) :
    ExchangeStep runtime state (state.finish runtime now (front ++ back) claims tokenId)

def exchanges (runtime : OidcRuntime) : System Exchanges where
  start state := state.replay = ∅ ∧ state.waiting = [] ∧ state.exchanged = []
  step := ExchangeStep runtime

structure TrustedPublisher.Matches (publisher : TrustedPublisher) (claims : PublishClaims)
    (now : Int) : Prop where
  issuer : publisher.issuer = claims.issuer
  audience : publisher.audience = claims.audience
  unexpired : now < claims.expiresAt
  subject : publisher.subject.matches claims.subject = true
  required : ∀ claim expected : Str, publisher.claims[claim]? = some expected →
    claims.claims[claim]? = some expected

theorem TrustedPublisher.required_iff (publisher : TrustedPublisher) (claims : PublishClaims) :
    (publisher.claims.toList.find? fun (claim, expected) =>
      decide (claims.claims[claim]? ≠ some expected)) = none ↔
    ∀ claim expected : Str, publisher.claims[claim]? = some expected →
      claims.claims[claim]? = some expected := by
  rw [List.find?_eq_none]
  constructor
  · intro h claim expected hrow
    have hmem := Std.ExtTreeMap.mem_toList_iff_getElem?_eq_some.mpr hrow
    simpa using h (claim, expected) hmem
  · rintro h ⟨claim, expected⟩ hmem
    simpa using h claim expected (Std.ExtTreeMap.mem_toList_iff_getElem?_eq_some.mp hmem)

theorem TrustedPublisher.authorize_ok_iff (publisher : TrustedPublisher) (claims : PublishClaims)
    (now : Int) : (∃ grants, publisher.authorize claims now = .ok grants) ↔
      publisher.Matches claims now := by
  have hrequired := publisher.required_iff claims
  unfold TrustedPublisher.authorize
  constructor
  · rintro ⟨grants, h⟩
    split at h
    · cases h
    · rename_i hissuer
      split at h
      · cases h
      · rename_i haudience
        split at h
        · cases h
        · rename_i hexpired
          split at h
          · cases h
          · rename_i hsubject
            split at h
            · cases h
            · rename_i hnone
              exact ⟨not_not.mp hissuer, not_not.mp haudience, by omega, by simpa using hsubject,
                hrequired.mp hnone⟩
  · intro h
    have hexpired : ¬ claims.expiresAt ≤ now := by
      have hlt := h.unexpired
      omega
    refine ⟨[⟨publisher.projects, {.write}⟩], ?_⟩
    rw [if_neg (not_not.mpr h.issuer), if_neg (not_not.mpr h.audience), if_neg hexpired,
      if_neg (by simp [h.subject]), hrequired.mpr h.required]

theorem authorizePublishFrom_first (claims : PublishClaims) (now : Int) (start position : Nat)
    (denial : PublishDenial) (publishers : List TrustedPublisher) (grants : List Grant)
    (h : authorizePublishFrom claims now start denial publishers = .ok (position, grants)) :
    ∃ offset publisher, position = start + offset ∧ publishers[offset]? = some publisher ∧
      publisher.Matches claims now ∧ grants = [⟨publisher.projects, {.write}⟩] ∧
      ∀ earlier < offset, ∀ other, publishers[earlier]? = some other →
        ¬ other.Matches claims now := by
  induction publishers generalizing start denial with
  | nil => cases h
  | cons publisher publishers ih =>
    unfold authorizePublishFrom at h
    cases ha : publisher.authorize claims now with
    | ok found =>
      rw [ha] at h
      cases h
      exact ⟨0, publisher, rfl, rfl, (publisher.authorize_ok_iff claims now).mp ⟨_, ha⟩,
        publisher.authorize_grants claims now _ ha, fun earlier hlt => absurd hlt (by omega)⟩
    | error reason =>
      rw [ha] at h
      obtain ⟨offset, found, hposition, hfound, hmatches, hgrants, hfirst⟩ := ih _ _ h
      refine ⟨offset + 1, found, by omega, hfound, hmatches, hgrants, ?_⟩
      intro earlier hlt other hother hother'
      cases earlier with
      | zero =>
        cases hother
        obtain ⟨granted, hok⟩ := (publisher.authorize_ok_iff claims now).mpr hother'
        rw [ha] at hok
        cases hok
      | succ earlier =>
        exact hfirst earlier (by omega) other hother hother'

structure FirstMatch (bindings : List PublisherBinding) (claims : PublishClaims) (now : Int)
    (binding : PublisherBinding) : Prop where
  matching : binding.publisher.Matches claims now
  first : ∃ position : Nat, bindings[position]? = some binding ∧
    ∀ earlier < position, ∀ other, bindings[earlier]? = some other →
      ¬ other.publisher.Matches claims now

theorem exchangedGrants_first (bindings : List PublisherBinding) (claims : PublishClaims)
    (now : Int) (binding : PublisherBinding) (grants : List Grant)
    (h : exchangedGrants bindings claims now = .ok (binding, grants)) :
    FirstMatch bindings claims now binding ∧
      grants = qualifyGrants [⟨binding.publisher.projects, {.write}⟩] binding.repository := by
  unfold exchangedGrants at h
  cases ha : authorizePublishIndex (bindings.map PublisherBinding.publisher) claims now with
  | error denial =>
    rw [ha] at h
    cases h
  | ok found =>
    obtain ⟨position, granted⟩ := found
    obtain ⟨offset, publisher, hposition, hpublisher, hmatches, hgranted, hfirst⟩ :=
      authorizePublishFrom_first claims now 0 position _ _ granted ha
    rw [Nat.zero_add] at hposition
    rw [List.getElem?_map, Option.map_eq_some_iff] at hpublisher
    obtain ⟨found, hfound, rfl⟩ := hpublisher
    rw [ha] at h
    simp only [bind, Except.bind, hposition, hfound] at h
    cases h
    refine ⟨⟨hmatches, offset, hfound, ?_⟩, by rw [hgranted]⟩
    intro earlier hlt other hother
    exact hfirst earlier hlt other.publisher (by rw [List.getElem?_map, hother]; rfl)

/-- The credential is the first matching publisher's, lives, and dies with the identity. -/
structure Exchanged.Sound (exchange : Exchanged) (runtime : OidcRuntime) : Prop where
  started : exchange.token.token.iat = exchange.begun ∧ exchange.begun ≤ exchange.finished
  lives : exchange.token.token.iat < exchange.token.token.exp
  bounded : exchange.token.token.exp ≤ exchange.identity.publish.expiresAt
  short : exchange.token.token.exp ≤ exchange.begun + maxIdentityLifetimeSecs
  told : exchange.token.expiresAt = exchange.token.token.exp
  granted : ∃ binding,
    FirstMatch runtime.bindings exchange.identity.publish exchange.begun binding ∧
    exchange.token.publisherId = binding.id ∧
    exchange.token.token.grants =
      qualifyGrants [⟨binding.publisher.projects, {.write}⟩] binding.repository

theorem verifyClaims_lifetime (claims : ExternalClaims) (now : Int) (identity : VerifiedIdentity)
    (h : verifyClaims claims now = .ok identity) :
    identity.publish.expiresAt ≤ now + maxIdentityLifetimeSecs := by
  unfold verifyClaims at h
  split at h
  · cases h
  · split at h
    · cases h
    · rename_i hpass
      cases h
      simp only [not_or] at hpass
      obtain ⟨_, _, _, _, hissued, _, hlifetime⟩ := hpass
      unfold checkedSub at hlifetime
      split at hlifetime
      · simp only [Option.all_some, Bool.or_eq_true, decide_eq_true_eq, not_or] at hlifetime
        dsimp only
        omega
      · simp at hlifetime

theorem OidcRuntime.mint_sound (runtime : OidcRuntime) (claims : ExternalClaims)
    (identity : VerifiedIdentity) (now finished : Int) (tokenId : Str) (token : ExchangedToken)
    (hverified : verifyClaims claims now = .ok identity)
    (h : runtime.mint identity now tokenId = .ok token) (hclock : now ≤ finished) :
    Exchanged.Sound ⟨identity, now, finished, token⟩ runtime := by
  have hlifetime := verifyClaims_lifetime claims now identity hverified
  unfold OidcRuntime.mint at h
  split at h
  · cases h
  · rename_i binding grants hgrants
    cases h
    obtain ⟨hfirst, rfl⟩ := exchangedGrants_first _ _ _ _ _ hgrants
    have hunexpired := hfirst.matching.unexpired
    have hpos := runtime.ttl_pos
    exact ⟨⟨rfl, hclock⟩, by dsimp only; omega, by dsimp only; omega, by dsimp only; omega, rfl,
      binding, hfirst, rfl, rfl⟩

theorem retain_getElem? (replay : Replay) (now : Int) (key : ReplayKey) :
    (replay.retain now)[key]? = replay[key]?.filter fun expiry => decide (now < expiry) :=
  Std.ExtTreeMap.getElem?_filter'

theorem OidcRuntime.exchange_cases (runtime : OidcRuntime) (replay after : Replay)
    (claims : ExternalClaims) (now : Int) (tokenId : Str)
    (result : Except ExchangeError (VerifiedIdentity × ExchangedToken))
    (h : runtime.exchange replay claims now tokenId = (result, after)) :
    (∃ error, result = .error error ∧ (after = replay ∨ after = replay.retain now)) ∨
    ∃ identity token, result = .ok (identity, token) ∧ verifyClaims claims now = .ok identity ∧
      runtime.mint identity now tokenId = .ok token ∧
      (replay.retain now)[identity.key]? = none ∧
      (replay.retain now).size < runtime.replayCapacity ∧
      after = (replay.retain now).insert identity.key identity.publish.expiresAt := by
  unfold OidcRuntime.exchange at h
  split at h
  · cases h
    exact Or.inl ⟨_, rfl, Or.inl rfl⟩
  · rename_i identity hverified
    split at h
    · cases h
      exact Or.inl ⟨_, rfl, Or.inl rfl⟩
    · rename_i token htoken
      unfold consumeReplay at h
      dsimp only at h
      by_cases hknown : (replay.retain now).contains identity.key = true
      · rw [if_pos hknown] at h
        cases h
        exact Or.inl ⟨_, rfl, Or.inr rfl⟩
      · rw [if_neg hknown] at h
        by_cases hfull : runtime.replayCapacity ≤ (replay.retain now).size
        · rw [if_pos hfull] at h
          cases h
          exact Or.inl ⟨_, rfl, Or.inr rfl⟩
        · rw [if_neg hfull] at h
          cases h
          refine Or.inr ⟨identity, token, rfl, hverified, htoken, ?_, Nat.lt_of_not_le hfull, rfl⟩
          cases hrow : (replay.retain now)[identity.key]? with
          | none => rfl
          | some expiry =>
            rw [Std.ExtTreeMap.contains_eq_isSome_getElem?, hrow] at hknown
            exact absurd rfl hknown

structure Exchanges.Single (runtime : OidcRuntime) (state : Exchanges) : Prop where
  capacity : state.replay.size ≤ runtime.replayCapacity
  past : ∀ now ∈ state.waiting, now ≤ state.clock
  remembered : ∀ exchange ∈ state.exchanged,
    state.clock < exchange.identity.publish.expiresAt →
    state.replay[exchange.identity.key]? = some exchange.identity.publish.expiresAt
  once : state.exchanged.Pairwise fun later earlier =>
    later.identity.key = earlier.identity.key →
      earlier.identity.publish.expiresAt ≤ later.finished
  sound : ∀ exchange ∈ state.exchanged, exchange.Sound runtime

theorem retain_remembers (state : Exchanges) (now : Int) (hnow : now ≤ state.clock)
    (exchange : Exchanged) (hlive : state.clock < exchange.identity.publish.expiresAt)
    (h : state.replay[exchange.identity.key]? = some exchange.identity.publish.expiresAt) :
    (state.replay.retain now)[exchange.identity.key]? =
      some exchange.identity.publish.expiresAt := by
  rw [retain_getElem?, h, Option.filter_some, if_pos]
  exact decide_eq_true (by omega)

theorem Exchanges.Single.finish {runtime : OidcRuntime} {state : Exchanges}
    (h : state.Single runtime) (front back : List Int) (now : Int) (claims : ExternalClaims)
    (tokenId : Str) (hwaiting : state.waiting = front ++ now :: back) :
    (state.finish runtime now (front ++ back) claims tokenId).Single runtime := by
  have hnow : now ≤ state.clock := by
    apply h.past
    rw [hwaiting]
    exact List.mem_append_right _ List.mem_cons_self
  have hpast : ∀ other ∈ front ++ back, other ≤ state.clock := by
    intro other hother
    apply h.past
    rw [hwaiting]
    rcases List.mem_append.mp hother with hmem | hmem
    · exact List.mem_append_left _ hmem
    · exact List.mem_append_right _ (List.mem_cons_of_mem _ hmem)
  have hsize : (state.replay.retain now).size ≤ state.replay.size :=
    Std.ExtTreeMap.size_filter_le_size
  have hcapacity := h.capacity
  unfold Exchanges.finish
  generalize hrun : runtime.exchange state.replay claims now tokenId = outcome
  obtain ⟨result, after⟩ := outcome
  rcases runtime.exchange_cases _ _ _ _ _ _ hrun with ⟨error, rfl, hafter⟩ |
    ⟨identity, token, rfl, hverified, htoken, habsent, hroom, rfl⟩
  · dsimp only
    rcases hafter with rfl | rfl
    · exact ⟨hcapacity, hpast, h.remembered, h.once, h.sound⟩
    · refine ⟨hsize.trans hcapacity, hpast, ?_, h.once, h.sound⟩
      intro exchange hmem hlive
      exact retain_remembers state now hnow exchange hlive (h.remembered exchange hmem hlive)
  · dsimp only
    -- an unexpired exchange of the same identity would still be in the map
    have hexpired : ∀ exchange ∈ state.exchanged, identity.key = exchange.identity.key →
        exchange.identity.publish.expiresAt ≤ state.clock := by
      intro exchange hmem hkey
      by_contra hlive
      have hkept := retain_remembers state now hnow exchange (by omega)
        (h.remembered exchange hmem (by omega))
      rw [← hkey, habsent] at hkept
      cases hkept
    refine ⟨?_, hpast, ?_, ?_, ?_⟩
    · have hinsert := Std.ExtTreeMap.size_insert_le (t := state.replay.retain now)
        (k := identity.key) (v := identity.publish.expiresAt)
      dsimp only
      omega
    · intro exchange hmem hlive
      dsimp only at hlive ⊢
      have hset := Table.getElem?_set (state.replay.retain now) identity.key exchange.identity.key
        (some identity.publish.expiresAt)
      rw [show ((state.replay.retain now).insert identity.key _)[exchange.identity.key]? = _
        from hset]
      rcases List.mem_cons.mp hmem with rfl | hmem
      · rw [if_pos rfl]
      · rw [if_neg]
        · exact retain_remembers state now hnow exchange hlive (h.remembered exchange hmem hlive)
        · intro hkey
          have hle := hexpired exchange hmem hkey
          omega
    · exact List.pairwise_cons.mpr ⟨hexpired, h.once⟩
    · intro exchange hmem
      rcases List.mem_cons.mp hmem with rfl | hmem
      · exact runtime.mint_sound claims identity now state.clock tokenId token hverified htoken hnow
      · exact h.sound exchange hmem

theorem Exchanges.Single.step {runtime : OidcRuntime} {state next : Exchanges}
    (h : state.Single runtime) (hstep : ExchangeStep runtime state next) : next.Single runtime := by
  cases hstep with
  | tick clock hclock =>
    refine ⟨h.capacity, ?_, ?_, h.once, h.sound⟩
    · intro now hmem
      exact (h.past now hmem).trans hclock
    · intro exchange hmem hlive
      exact h.remembered exchange hmem (lt_of_le_of_lt hclock hlive)
  | arrive =>
    refine ⟨h.capacity, ?_, h.remembered, h.once, h.sound⟩
    intro now hmem
    rcases List.mem_cons.mp hmem with rfl | hmem
    · exact le_refl _
    · exact h.past now hmem
  | leave front back now hwaiting =>
    refine ⟨h.capacity, ?_, h.remembered, h.once, h.sound⟩
    intro other hother
    apply h.past
    rw [hwaiting]
    rcases List.mem_append.mp hother with hmem | hmem
    · exact List.mem_append_left _ hmem
    · exact List.mem_append_right _ (List.mem_cons_of_mem _ hmem)
  | finish front back now claims tokenId hwaiting =>
    exact h.finish front back now claims tokenId hwaiting

/-- In every order of exchanges the replay map stays within its capacity, an identity is
exchanged again only once the token it was exchanged for has expired, and each
credential lives, ends with its identity at the latest and grants what the first
matching publisher may write. -/
theorem identity_exchanged_once (runtime : OidcRuntime) (state : Exchanges)
    (h : (exchanges runtime).Reachable state) :
    state.replay.size ≤ runtime.replayCapacity ∧
    (state.exchanged.Pairwise fun later earlier =>
      later.identity.key = earlier.identity.key →
        earlier.identity.publish.expiresAt ≤ later.finished) ∧
    ∀ exchange ∈ state.exchanged, exchange.Sound runtime := by
  have hsingle : state.Single runtime := by
    refine (exchanges runtime).invariant (Exchanges.Single runtime) ?_ ?_ state h
    · rintro start ⟨hreplay, hwaiting, hexchanged⟩
      refine ⟨?_, ?_, ?_, ?_, ?_⟩
      · rw [hreplay]
        exact Nat.zero_le _
      · rw [hwaiting]
        exact List.forall_mem_nil _
      · rw [hexchanged]
        exact List.forall_mem_nil _
      · rw [hexchanged]
        exact List.Pairwise.nil
      · rw [hexchanged]
        exact List.forall_mem_nil _
    · intro before after _ hbefore hstep
      exact hbefore.step hstep
  exact ⟨hsingle.capacity, hsingle.once, hsingle.sound⟩

def exampleRuntime : OidcRuntime where
  bindings := [⟨str "ci", str "root",
    ⟨str "https://ci", str "peryx", ⟨str "repo:*"⟩, ∅, [⟨str "app*"⟩]⟩⟩]
  tokenTtlSecs := 900
  replayCapacity := 2
  ttl_pos := by decide
  capacity_pos := by decide

def exampleClaims : ExternalClaims :=
  ⟨str "https://ci", .one (str "peryx"), str "repo:octo/app", 1300, 1000, none, str "1", ∅⟩

def presentedTwice : Exchanges :=
  Exchanges.finish (Exchanges.finish ⟨1000, ∅, [1000, 1000], []⟩ exampleRuntime 1000 [1000]
    exampleClaims (str "a")) exampleRuntime 1000 [] exampleClaims (str "b")

theorem presentedTwice_once : presentedTwice.exchanged.length = 1 ∧
    presentedTwice.replay.size ≤ exampleRuntime.replayCapacity ∧
    (presentedTwice.exchanged.Pairwise fun later earlier =>
      later.identity.key = earlier.identity.key →
        earlier.identity.publish.expiresAt ≤ later.finished) ∧
    ∀ exchange ∈ presentedTwice.exchanged, exchange.Sound exampleRuntime := by
  refine ⟨by decide +kernel, identity_exchanged_once exampleRuntime presentedTwice ?_⟩
  have hempty : (exchanges exampleRuntime).Reachable ⟨1000, ∅, [], []⟩ := .start _ ⟨rfl, rfl, rfl⟩
  have harrived := (hempty.step _ _ (.arrive _)).step _ _ (.arrive _)
  exact (harrived.step _ _ (.finish _ [] [1000] 1000 exampleClaims (str "a") rfl)).step _ _
    (.finish _ [] [] 1000 exampleClaims (str "b") (by decide +kernel))

end Peryx.Identity
