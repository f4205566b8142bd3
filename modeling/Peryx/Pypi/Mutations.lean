import Peryx.Identity.TrustedPublisher
import Peryx.Index.Index
import Peryx.Core.Path
import Peryx.Pypi.Name
import Peryx.Pypi.Simple

/-!
# Yank, restore, promote and delete (peryx-ecosystem-pypi/src/serving/mutate.rs)

A PUT or DELETE names its project in the path. Parsing a query string is a library of its
own and a parameter, and so is the project's status on the addressed index.
-/

/-!
## Who may write to a PyPI index (peryx-ecosystem-pypi/src/serving/mod.rs:440-576)

A write is judged against the hosted index behind the addressed one. A credential of
that index's ACL names a principal; a token minted by trusted publishing carries its
own grants, matched against the addressed route and the project together. Verifying
such a token is a library of its own and a parameter here, as is base64.
-/

namespace Peryx.Pypi
open Acl

structure VerifiedToken where
  principal : Principal
  grants : List Grant
  id : Str
  deriving DecidableEq

structure UploadIdentity where
  identity : Identity
  bearer : Option VerifiedToken
  deriving DecidableEq

inductive AccessRefusal where
  | notFound
  | unauthorized
  | forbidden (reason : Str)
  deriving Repr, DecidableEq

def denialReason : Denial → Str
  | .unavailable => str "uploads are disabled"
  | .unauthenticated => str "invalid upload token"
  | .forbidden => str "token does not grant this action"

section Credentials
variable (base64Decode : Str → Option (List UInt8))

def presentedToken (header : Str) : Option Str :=
  match stripAuthScheme header (str "Bearer") with
  | some token => some token
  | none => (parseBasic base64Decode header).bind fun basic =>
      if basic.user = str "__token__" then some basic.password else none

/-- `identify` (`mod.rs:460-488`). `verifyTrusted` is absent without trusted publishing or
without a signing key. -/
def identify (verifyTrusted : Option (Str → Option VerifiedToken)) (indexes : List Index)
    (index : Index) (header : Option Str) (now : Int) : UploadIdentity :=
  match verifyTrusted.bind fun verify => (header.bind (presentedToken base64Decode)).bind verify with
  | some token => ⟨⟨token.principal, none⟩, some token⟩
  | none => ⟨((uploadTarget indexes index).getD index).acl.identify base64Decode header now, none⟩

end Credentials

def authorizeBearer (grants : List Grant) (route : Str) (project : Option Str) (action : Action) :
    Except Denial Unit :=
  match project with
  | some project =>
    authorizeGrants grants (some (if route = [] then project else route ++ 0x2F :: project)) action
  | none =>
    if grants.any fun grant => decide (action ∈ grant.actions) &&
        grant.projects.any fun glob => route.isEmpty || glob.matchesPrefix (route ++ [0x2F]) then
      .ok ()
    else .error .forbidden

def authorize (route : Str) (hosted : Index) (identity : UploadIdentity) (project : Option Str)
    (action : Action) : Except AccessRefusal Unit :=
  if hosted.kind.isHosted then
    let decision := match identity.bearer with
      | none => Acl.authorize identity.identity.principal hosted.acl project action
      | some token => authorizeBearer token.grants route project action
    match decision with
    | .ok () => .ok ()
    | .error .unauthenticated => .error .unauthorized
    | .error denial => .error (.forbidden (denialReason denial))
  else .error .notFound

theorem authorize_bearer_ok (route : Str) (hosted : Index) (identity : UploadIdentity)
    (token : VerifiedToken) (project : Option Str) (action : Action)
    (hbearer : identity.bearer = some token) :
    authorize route hosted identity project action = .ok () ↔
      hosted.kind.isHosted = true ∧ authorizeBearer token.grants route project action = .ok () := by
  unfold authorize
  split
  · rename_i hhosted
    cases hd : authorizeBearer token.grants route project action with
    | ok _ => simp [hbearer, hd, hhosted]
    | error denial => cases denial <;> simp [hbearer, hd]
  · rename_i hhosted
    simp [hhosted]

end Peryx.Pypi

namespace Peryx.Pypi
open Core

inductive Refusal where
  | access (refusal : AccessRefusal)
  | notFound
  | methodNotAllowed (text : Str)
  | noUploadLayer (sourceRoute : Str)
  | badRequest (text : Str)
  | path (error : PathSafetyError)
  | uploadsDisabled (project : Str) (status : ProjectStatus)
  | failure
  deriving Repr, DecidableEq

structure MutationRequest where
  path : Str
  query : Option Str
  authorization : Option Str
  now : Int

inductive MutationKind where
  | promote (source : Str)
  | yank (yanked : Yanked)
  | restore
  | delete (reason : Option Str)
  deriving Repr, DecidableEq

/-- What the store is asked for, and the project the access check was made on. -/
structure Mutation where
  kind : MutationKind
  index : Index
  hosted : Index
  checked : Option Str
  project : Str
  version : Option Str

def mutationProject (table : CaseMap) (spec : Str) : Option Str :=
  ((Str.split 0x2F spec).find? fun segment => !segment.isEmpty).map (normalizeName table)

def stripActionSegment (spec action : Str) : Option Str :=
  (Str.stripSuffix (Str.trimEnd 0x2F spec) action).filter fun base => Str.endsWith base (str "/")

def splitProject (trimmed : Str) : Str × Option Str :=
  match Str.splitOnce 0x2F trimmed with
  | some (project, version) => (project, some version)
  | none => (trimmed, none)

/-- The version of a path: what is behind the project, unless it is empty. -/
def parseVersion (tail : Option Str) : Except PathSafetyError (Option Str) :=
  match tail with
  | none => .ok none
  | some tail => do
    let version ← decodePath (Str.trimMatches 0x2F tail)
    if version.isEmpty then .ok none
    else (validatePathSegment (str "version") version).map fun () => some version

def parseProjectVersion (table : CaseMap) (spec : Str) :
    Except PathSafetyError (Str × Option Str) := do
  let (segment, tail) := splitProject (Str.trimMatches 0x2F spec)
  let project ← decodePathSegment segment
  validatePathSegment (str "project") project
  let version ← parseVersion tail
  return (normalizeName table project, version)

section Handlers
variable (table : CaseMap) (base64Decode : Str → Option (List UInt8))
  (verifyTrusted : Option (Str → Option VerifiedToken)) (queryPairs : Str → List (Str × Str))
  (projectStatus : Index → Str → Except Unit ProjectStatus) (indexes : List Index)

def yankMarker (query : Option Str) : Yanked :=
  match query with
  | none => .yes
  | some query =>
    match ((queryPairs query).filter fun (key, _) => key == str "reason").getLast? with
    | some (_, value) => if value.isEmpty then .yes else .reason value
    | none => .yes

def deleteReason (query : Option Str) : Option Str := do
  let (_, value) ← ((queryPairs (← query)).filter fun (key, value) =>
    key == str "reason" && !value.isEmpty).getLast?
  return value

def promotionSourceRoute (query : Option Str) : Except Refusal Str :=
  match query.bind fun query =>
      ((queryPairs query).find? fun (key, value) => key == str "from" && !value.isEmpty) with
  | some (_, route) => .ok route
  | none => .error (.badRequest (str "promotion requires from=\x7bsource route\x7d"))

def promotionSource (route : Str) : Except Refusal Index :=
  match indexes.find? fun index => index.route == Str.trimMatches 0x2F route with
  | some source => .ok source
  | none => .error .notFound

/-- `removal_target` (`mutate.rs:288-307`): the addressed index, its hosted layer, the
rest of the path, and the project that was checked. -/
def removalTarget (request : MutationRequest) (action : Acl.Action) :
    Except Refusal (Index × Index × Str) :=
  match resolveRoute indexes (Str.trimStart 0x2F request.path) with
  | none => .error .notFound
  | some (index, rest) =>
    match uploadTarget indexes index with
    | none => .error (.methodNotAllowed (str "index is read-only"))
    | some hosted =>
      match authorize index.route hosted
          (identify base64Decode verifyTrusted indexes index request.authorization request.now)
          (mutationProject table rest) action with
      | .error refusal => .error (.access refusal)
      | .ok () => .ok (index, hosted, rest)

def parsedProject (spec : Str) : Except Refusal (Str × Option Str) :=
  match parseProjectVersion table spec with
  | .ok parsed => .ok parsed
  | .error error => .error (.path error)

def promoteRequest (index hosted : Index) (rest spec : Str) (query : Option Str) :
    Except Refusal Mutation := do
  let sourceRoute ← promotionSourceRoute queryPairs query
  let source ← promotionSource indexes sourceRoute
  let some sourceLocal := uploadTarget indexes source | .error (.noUploadLayer sourceRoute)
  let (project, some version) ← parsedProject table spec
    | .error (.badRequest (str "promotion requires a version"))
  match projectStatus index project with
  | .error () => .error .failure
  | .ok status =>
    if status.allowsUploads then
      .ok ⟨.promote sourceLocal.name, index, hosted, mutationProject table rest, project,
        some version⟩
    else .error (.uploadsDisabled project status)

def fileRequest (kind : MutationKind) (index hosted : Index) (rest spec : Str) :
    Except Refusal Mutation := do
  let (project, version) ← parsedProject table spec
  return ⟨kind, index, hosted, mutationProject table rest, project, version⟩

def dispatchPut (request : MutationRequest) : Except Refusal Mutation := do
  let (index, hosted, rest) ←
    removalTarget table base64Decode verifyTrusted indexes request .write
  match stripActionSegment rest (str "promote") with
  | some spec =>
    promoteRequest table queryPairs projectStatus indexes index hosted rest spec request.query
  | none =>
    match stripActionSegment rest (str "yank") with
    | some spec =>
      fileRequest table (.yank (yankMarker queryPairs request.query)) index hosted rest spec
    | none =>
      match stripActionSegment rest (str "restore") with
      | some spec => fileRequest table .restore index hosted rest spec
      | none => .error .notFound

def dispatchDelete (request : MutationRequest) : Except Refusal Mutation := do
  let (index, hosted, rest) ←
    removalTarget table base64Decode verifyTrusted indexes request .delete
  match stripActionSegment rest (str "yank") with
  | some spec => fileRequest table (.yank .no) index hosted rest spec
  | none => fileRequest table (.delete (deleteReason queryPairs request.query)) index hosted rest rest

end Handlers

end Peryx.Pypi
