import Std.Data.ExtTreeMap.Lemmas
import Peryx.Oci.Resolve

/-!
# The OCI bearer token realm (peryx-ecosystem-oci/src/registry/auth.rs)

`GET /v2/token` turns a requested scope into the grants of a token; a resource route then
asks those grants, and no ACL, about the full name of the resource.
-/

namespace Peryx.Oci
open Acl

inductive ScopeResource where
  | repository (name : Str)
  | catalog
  deriving Repr, DecidableEq

structure RequestedScope where
  resource : ScopeResource
  actions : Finset Action
  deriving DecidableEq

def scopeActions (verb : Str) : List Action :=
  if verb = str "pull" then [.read]
  else if verb = str "push" then [.write]
  else if verb = str "delete" then [.delete]
  else if verb = str "*" then [.read, .write, .delete]
  else []

/-- `parse_scope` (`auth.rs:217-236`), over the three fields of `splitn(3, ':')`. -/
def parseScope (scope : Str) : Option RequestedScope := do
  let (kind, rest) ← Str.splitOnce 0x3A scope
  let (name, actions) ← Str.splitOnce 0x3A rest
  let verbs := Str.split 0x2C actions
  if kind = str "repository" ∧ name ≠ [] then
    return ⟨.repository name, (verbs.flatMap scopeActions).toFinset⟩
  else if kind = str "registry" ∧ name = str "catalog" ∧ str "*" ∈ verbs then
    return ⟨.catalog, {.read}⟩
  else none

structure BasicAuthentication where
  header : Str
  index : Str
  now : Int
  deriving Repr, DecidableEq

structure TokenRequester where
  principal : Principal
  basic : Option BasicAuthentication
  deriving Repr, DecidableEq

section Realm
variable (base64Decode : Str → Option (List UInt8)) (indexes : Indexes)

def ociIndexes : List Index := indexes.toList.filter fun index => index.ecosystem = .oci

def namedRequester (now : Int) (header : Str) : Option TokenRequester :=
  (ociIndexes indexes).findSome? fun index =>
    match (index.acl.identify base64Decode (some header) now).principal with
    | .named subject => some ⟨.named subject, some ⟨header, index.name, now⟩⟩
    | .anonymous => none

/-- `resolve_requester` (`auth.rs:102-112`); the error is the 401 for a Basic
credential that opens nothing. -/
def resolveRequester (now : Int) (header : Option Str) : Except Unit TokenRequester :=
  match header with
  | some header =>
    if (stripAuthScheme header (str "Basic")).isSome then
      match namedRequester base64Decode indexes now header with
      | some requester => .ok requester
      | none => .error ()
    else .ok ⟨.anonymous, none⟩
  | none => .ok ⟨.anonymous, none⟩

def TokenRequester.identityAt (requester : TokenRequester) (acl : IndexAcl) : Identity :=
  match requester.basic with
  | some basic => acl.identify base64Decode (some basic.header) basic.now
  | none => ⟨.anonymous, none⟩

def catalogGrant : Str := str "\x00registry\x00catalog"

def authorizeCatalogRequester (requester : TokenRequester) : List Index → Except Denial Unit
  | [] => .ok ()
  | index :: rest =>
    if index.acl.anonymousRead then authorizeCatalogRequester requester rest
    else
      let principal := (requester.identityAt base64Decode index.acl).principal
      if requester.basic.isSome ∧ principal ≠ requester.principal then .error .forbidden
      else do
        authorizeAll principal index.acl .read
        authorizeCatalogRequester requester rest

abbrev AuthenticatedIndexes := Std.ExtTreeMap Str Bool

def authenticatedAt (requester : TokenRequester) (basic : BasicAuthentication) (index : Index)
    (seen : AuthenticatedIndexes) : Bool × AuthenticatedIndexes :=
  match seen[index.name]? with
  | some known => (known, seen)
  | none =>
    let same :=
      (index.acl.identify base64Decode (some basic.header) basic.now).principal == requester.principal
    (same, seen.insert index.name same)

def allowedActions (requester : TokenRequester) (acl : IndexAcl) (repo : Str)
    (actions : Finset Action) : Finset Action :=
  actions.filter fun action => authorize requester.principal acl (some repo) action = .ok ()

def approvedGrantsFrom (requester : TokenRequester) :
    Option (BasicAuthentication × AuthenticatedIndexes) → List RequestedScope → List Grant
  | _, [] => []
  | authenticated, scope :: scopes =>
    match scope.resource with
    | .repository name =>
      match resolve indexes.toList name with
      | none => approvedGrantsFrom requester authenticated scopes
      | some (index, repo) =>
        let (same, authenticated) := match authenticated with
          | none => (true, none)
          | some (basic, seen) =>
            let (same, seen) := authenticatedAt base64Decode requester basic index seen
            (same, some (basic, seen))
        let actions := allowedActions requester index.acl repo scope.actions
        if same ∧ actions ≠ ∅ then
          ⟨[⟨name⟩], actions⟩ :: approvedGrantsFrom requester authenticated scopes
        else approvedGrantsFrom requester authenticated scopes
    | .catalog =>
      match authorizeCatalogRequester base64Decode requester (ociIndexes indexes) with
      | .ok () => ⟨[⟨catalogGrant⟩], {.read}⟩ :: approvedGrantsFrom requester authenticated scopes
      | .error _ => approvedGrantsFrom requester authenticated scopes

def approvedGrants (requester : TokenRequester) (scopes : List RequestedScope) : List Grant :=
  approvedGrantsFrom base64Decode indexes requester
    (requester.basic.map fun basic => (basic, (∅ : AuthenticatedIndexes).insert basic.index true))
    scopes

end Realm

inductive PresentedAuthorization where
  | acl
  | bearer (grants : List Grant)
  | invalidBearer

structure PresentedIdentity where
  identity : Identity
  authorization : PresentedAuthorization

/-- `PresentedIdentity::authorize` (`auth.rs:338-351`): grants see the full resource
name, an ACL the repository under its index. -/
def PresentedIdentity.authorize (presented : PresentedIdentity) (acl : IndexAcl)
    (repository resource : Str) (action : Action) : Except Denial Unit :=
  match presented.authorization with
  | .bearer grants => authorizeGrants grants (some resource) action
  | .acl | .invalidBearer => Acl.authorize presented.identity.principal acl (some repository) action

end Peryx.Oci
