import Mathlib.Data.Finset.Filter
import Mathlib.Data.Finset.Insert
import Peryx.Core.Text
import Peryx.Library.WildcardPrefix

/-!
# The access model (peryx-identity/src/acl.rs, lib.rs)

Who a request speaks as, what an index grants, and the decision between them.
Globs work on bytes: `*` (`0x2A`) stands for any run of them. Base64 is a library
of its own and a parameter here.
-/

namespace Peryx.Acl

inductive Principal where
  | anonymous
  | named (subject : Str)
  deriving Repr, DecidableEq

inductive Action where
  | read
  | write
  | delete
  deriving Repr, DecidableEq

inductive Denial where
  | unavailable
  | unauthenticated
  | forbidden
  deriving Repr, DecidableEq

/-- The letter `*` of a pattern. -/
def star : UInt8 := 0x2A

structure Glob where
  pattern : Str
  deriving Repr, DecidableEq

/-- `Glob::matches` (`acl.rs:297-320`). -/
def Glob.matches (glob : Glob) (project : Str) : Bool :=
  Wildcard.accepts star glob.pattern project

@[simp] theorem Glob.matches_iff (glob : Glob) (project : Str) :
    glob.matches project = true ↔ Wildcard.Denotes star glob.pattern project :=
  Wildcard.accepts_iff star glob.pattern project

/-- `Glob::remainders_after` (`acl.rs:272-300`). -/
def Glob.remaindersAfter (glob : Glob) (start : Str) : List Str :=
  Wildcard.remaindersAfter star glob.pattern start

/-- `Glob::matches_prefix`: whether some value beginning with `start` can match. -/
def Glob.matchesPrefix (glob : Glob) (start : Str) : Bool :=
  Wildcard.acceptsPrefix star glob.pattern start

/-- A `BTreeSet<Action>` is its set of members. -/
structure Grant where
  projects : List Glob
  actions : Finset Action
  deriving DecidableEq

def Grant.allows (grant : Grant) (project : Option Str) (action : Action) : Bool :=
  decide (action ∈ grant.actions) &&
    project.all fun project => grant.projects.any fun glob => glob.matches project

def Grant.allowsAll (grant : Grant) (action : Action) : Bool :=
  decide (action ∈ grant.actions) && grant.projects.any fun glob => glob.pattern == str "*"

def authorizeGrants (grants : List Grant) (project : Option Str) (action : Action) :
    Except Denial Unit :=
  if grants.any fun grant => grant.allows project action then .ok () else .error .forbidden

theorem authorizeGrants_ok (grants : List Grant) (project : Str) (action : Action) :
    authorizeGrants grants (some project) action = .ok () ↔
      ∃ grant ∈ grants, action ∈ grant.actions ∧
        ∃ glob ∈ grant.projects, Wildcard.Denotes star glob.pattern project := by
  unfold authorizeGrants
  split
  · rename_i h
    simpa [Grant.allows] using h
  · rename_i h
    simpa [Grant.allows] using h

structure NamedToken where
  name : Str
  secret : Str
  grants : List Grant
  expiresAt : Option Int
  deriving DecidableEq

def NamedToken.live (token : NamedToken) (now : Int) : Bool :=
  token.expiresAt.all fun expiry => now < expiry

/-- `NamedToken::upload`: write and delete on every project, forever. -/
def NamedToken.upload (secret : Str) : NamedToken where
  name := str "upload_token"
  secret := secret
  grants := [⟨[⟨str "*"⟩], {.write, .delete}⟩]
  expiresAt := none

structure IndexAcl where
  anonymousRead : Bool
  tokens : List NamedToken
  deriving DecidableEq

def IndexAcl.open : IndexAcl := ⟨true, []⟩

def IndexAcl.token (acl : IndexAcl) (name : Str) : Option NamedToken :=
  acl.tokens.find? fun token => token.name == name

/-- `IndexAcl::grants`: what a principal holds here. -/
def IndexAcl.grants (acl : IndexAcl) : Principal → List Grant
  | .anonymous => []
  | .named subject => (acl.token subject).elim [] NamedToken.grants

theorem grants_of_token (acl : IndexAcl) (principal : Principal) (grant : Grant)
    (h : grant ∈ acl.grants principal) : ∃ token ∈ acl.tokens, grant ∈ token.grants := by
  cases principal with
  | anonymous => cases h
  | named subject =>
    cases htoken : acl.token subject with
    | none =>
      rw [IndexAcl.grants, htoken] at h
      cases h
    | some token =>
      rw [IndexAcl.grants, htoken] at h
      exact ⟨token, List.mem_of_find?_eq_some htoken, h⟩

def IndexAcl.grantsToAnyone (acl : IndexAcl) (action : Action) : Bool :=
  acl.tokens.any fun token => token.grants.any fun grant => decide (action ∈ grant.actions)

def authorize (principal : Principal) (acl : IndexAcl) (project : Option Str) (action : Action) :
    Except Denial Unit :=
  if action = .read ∧ acl.anonymousRead then .ok ()
  else match principal with
    | .named subject =>
      match acl.token subject with
      | some token => authorizeGrants token.grants project action
      | none => .error .forbidden
    | .anonymous =>
      if acl.grantsToAnyone action then .error .unauthenticated else .error .unavailable

theorem authorize_any_of_project (principal : Principal) (acl : IndexAcl) (project : Str)
    (action : Action) (h : authorize principal acl (some project) action = .ok ()) :
    authorize principal acl none action = .ok () := by
  unfold authorize at h ⊢
  split at h
  · rename_i hread
    rw [if_pos hread]
  · rename_i hread
    rw [if_neg hread]
    cases principal with
    | anonymous => exact h
    | named subject =>
      cases ht : acl.token subject with
      | none =>
        simp only [ht] at h
        cases h
      | some token =>
        simp only [ht] at h ⊢
        obtain ⟨grant, hgrant, haction, _⟩ := (authorizeGrants_ok token.grants project action).mp h
        apply if_pos
        rw [List.any_eq_true]
        exact ⟨grant, hgrant, by simp [Grant.allows, haction]⟩

def authorizeAll (principal : Principal) (acl : IndexAcl) (action : Action) : Except Denial Unit :=
  if action = .read ∧ acl.anonymousRead then .ok ()
  else match principal with
    | .named subject =>
      match acl.token subject with
      | some token =>
        if token.grants.any fun grant => grant.allowsAll action then .ok () else .error .forbidden
      | none => .error .forbidden
    | .anonymous =>
      if acl.grantsToAnyone action then .error .unauthenticated else .error .unavailable

/-- Access reaches from a name to whatever the name covers as a pattern: the ACL
matched the name's text, and patterns substitute. -/
theorem authorize_instance (principal : Principal) (acl : IndexAcl) (name project : Str)
    (action : Action) (hname : authorize principal acl (some name) action = .ok ())
    (hproject : Wildcard.Denotes star name project) :
    authorize principal acl (some project) action = .ok () := by
  unfold authorize at hname ⊢
  split at hname
  · rename_i hread
    rw [if_pos hread]
  · rename_i hread
    rw [if_neg hread]
    cases principal with
    | anonymous => exact hname
    | named subject =>
      cases ht : acl.token subject with
      | none =>
        simp only [ht] at hname
        cases hname
      | some token =>
        simp only [ht] at hname ⊢
        rw [authorizeGrants_ok] at hname ⊢
        obtain ⟨grant, hgrant, haction, glob, hglob, hd⟩ := hname
        exact ⟨grant, hgrant, haction, glob, hglob,
          Wildcard.denotes_trans star glob.pattern name project hd hproject⟩

structure BasicCredentials where
  user : Str
  password : Str
  deriving Repr, DecidableEq

structure Identity where
  principal : Principal
  user : Option Str
  deriving Repr, DecidableEq

def stripAuthScheme (header scheme : Str) : Option Str :=
  match Str.stripPrefix (header.drop scheme.length) (str " ") with
  | some credential =>
    if Str.eqIgnoreAsciiCase (header.take scheme.length) scheme then some credential else none
  | none => none

section Basic
variable (base64Decode : Str → Option (List UInt8))

def parseBasic (header : Str) : Option BasicCredentials := do
  let encoded ← stripAuthScheme header (str "Basic")
  let decoded ← base64Decode (Str.trimAscii encoded)
  let credentials ← Str.fromUtf8 decoded
  let (user, password) ← Str.splitOnce 0x3A credentials
  return ⟨user, password⟩

/-- `IndexAcl::identify` (`acl.rs:149-169`); `secrets_match` is equality of bytes. -/
def IndexAcl.identify (acl : IndexAcl) (header : Option Str) (now : Int) : Identity :=
  match header.bind (parseBasic base64Decode) with
  | none => ⟨.anonymous, none⟩
  | some credentials =>
    match acl.tokens.find? fun token => token.live now && credentials.password == token.secret with
    | some token => ⟨.named token.name, some credentials.user⟩
    | none => ⟨.anonymous, some credentials.user⟩

@[simp] theorem identify_none (acl : IndexAcl) (now : Int) :
    acl.identify base64Decode none now = ⟨.anonymous, none⟩ := rfl

end Basic

end Peryx.Acl
