import Mathlib.Data.List.Basic
import Std.Data.ExtTreeMap.Lemmas
import Peryx.Identity.Acl

/-!
# Trusted publishers (peryx-identity/src/trusted_publisher.rs, oidc.rs:120-166, 469-478)

A CI identity whose claims match a configured publisher is exchanged for a token that
may write the publisher's projects at the repository it is bound to. Recovering the
claims from a signed identity, and signing the token, are outside this model.
-/

namespace Peryx.Identity
open Acl

structure PublishClaims where
  issuer : Str
  audience : Str
  subject : Str
  expiresAt : Int
  claims : Std.ExtTreeMap Str Str

inductive PublishDenial where
  | unknownIssuer
  | wrongAudience
  | expired
  | wrongSubject
  | claimMismatch (claim : Str)
  deriving Repr, DecidableEq

def PublishDenial.rank : PublishDenial → Nat
  | .unknownIssuer => 0
  | .wrongAudience => 1
  | .expired => 2
  | .wrongSubject => 3
  | .claimMismatch _ => 4

structure TrustedPublisher where
  issuer : Str
  audience : Str
  subject : Glob
  claims : Std.ExtTreeMap Str Str
  projects : List Glob

def TrustedPublisher.authorize (publisher : TrustedPublisher) (claims : PublishClaims) (now : Int) :
    Except PublishDenial (List Grant) :=
  if publisher.issuer ≠ claims.issuer then .error .unknownIssuer
  else if publisher.audience ≠ claims.audience then .error .wrongAudience
  else if claims.expiresAt ≤ now then .error .expired
  else if !publisher.subject.matches claims.subject then .error .wrongSubject
  else match publisher.claims.toList.find? fun (claim, expected) =>
      decide (claims.claims[claim]? ≠ some expected) with
    | some (claim, _) => .error (.claimMismatch claim)
    | none => .ok [⟨publisher.projects, {.write}⟩]

def authorizePublishFrom (claims : PublishClaims) (now : Int) (position : Nat)
    (denial : PublishDenial) : List TrustedPublisher → Except PublishDenial (Nat × List Grant)
  | [] => .error denial
  | publisher :: publishers =>
    match publisher.authorize claims now with
    | .ok grants => .ok (position, grants)
    | .error reason => authorizePublishFrom claims now (position + 1)
        (if denial.rank ≤ reason.rank then reason else denial) publishers

def authorizePublishIndex (publishers : List TrustedPublisher) (claims : PublishClaims) (now : Int) :
    Except PublishDenial (Nat × List Grant) :=
  authorizePublishFrom claims now 0 .unknownIssuer publishers

structure PublisherBinding where
  id : Str
  repository : Str
  publisher : TrustedPublisher

def qualifyGrants (grants : List Grant) (repository : Str) : List Grant :=
  if repository = [] then grants
  else grants.map fun grant =>
    { grant with projects := grant.projects.map fun glob => ⟨repository ++ 0x2F :: glob.pattern⟩ }

/-- What `OidcRuntime::exchange` puts in the token it mints for verified claims. -/
def exchangedGrants (bindings : List PublisherBinding) (claims : PublishClaims) (now : Int) :
    Except PublishDenial (PublisherBinding × List Grant) := do
  let (position, grants) ← authorizePublishIndex (bindings.map PublisherBinding.publisher) claims now
  match bindings[position]? with
  | some binding => .ok (binding, qualifyGrants grants binding.repository)
  | none => .error .unknownIssuer

theorem TrustedPublisher.authorize_grants (publisher : TrustedPublisher) (claims : PublishClaims)
    (now : Int) (grants : List Grant) (h : publisher.authorize claims now = .ok grants) :
    grants = [⟨publisher.projects, {.write}⟩] := by
  unfold TrustedPublisher.authorize at h
  split at h
  · cases h
  · split at h
    · cases h
    · split at h
      · cases h
      · split at h
        · cases h
        · split at h
          · cases h
          · exact (Except.ok.inj h).symm

theorem authorizePublishFrom_grants (claims : PublishClaims) (now : Int) (start position : Nat)
    (denial : PublishDenial) (publishers : List TrustedPublisher) (grants : List Grant)
    (h : authorizePublishFrom claims now start denial publishers = .ok (position, grants)) :
    ∃ offset publisher, position = start + offset ∧ publishers[offset]? = some publisher ∧
      grants = [⟨publisher.projects, {.write}⟩] := by
  induction publishers generalizing start denial with
  | nil => cases h
  | cons publisher publishers ih =>
    unfold authorizePublishFrom at h
    cases ha : publisher.authorize claims now with
    | ok found =>
      rw [ha] at h
      cases h
      exact ⟨0, publisher, rfl, rfl, publisher.authorize_grants claims now _ ha⟩
    | error reason =>
      rw [ha] at h
      obtain ⟨offset, found, hposition, hfound, hgrants⟩ := ih _ _ h
      exact ⟨offset + 1, found, by omega, by rw [List.getElem?_cons_succ]; exact hfound, hgrants⟩

theorem exchangedGrants_ok (bindings : List PublisherBinding) (claims : PublishClaims) (now : Int)
    (binding : PublisherBinding) (grants : List Grant)
    (h : exchangedGrants bindings claims now = .ok (binding, grants)) :
    binding ∈ bindings ∧
      grants = qualifyGrants [⟨binding.publisher.projects, {.write}⟩] binding.repository := by
  unfold exchangedGrants at h
  cases ha : authorizePublishIndex (bindings.map PublisherBinding.publisher) claims now with
  | error denial =>
    rw [ha] at h
    cases h
  | ok found =>
    obtain ⟨position, first⟩ := found
    obtain ⟨offset, publisher, hposition, hpublisher, hfirst⟩ :=
      authorizePublishFrom_grants claims now 0 position _ _ first ha
    rw [Nat.zero_add] at hposition
    rw [List.getElem?_map, Option.map_eq_some_iff] at hpublisher
    obtain ⟨found, hfound, hpub⟩ := hpublisher
    rw [ha] at h
    simp only [bind, Except.bind, hposition, hfound] at h
    cases h
    exact ⟨List.mem_of_getElem? hfound, by rw [hfirst, hpub]⟩

end Peryx.Identity
