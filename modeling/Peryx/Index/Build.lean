import Peryx.Index.Index
import Peryx.Library.Outcome

/-!
# Building the indexes of a configuration (peryx/src/server.rs)

Names and routes are checked first, then every entry is built on its own: the members
and the upload target of a virtual index are looked up by name. The upstream client,
the access rules and the ecosystem's policy rules come from code that reads secrets,
files and tables, and are parameters.
-/

namespace Peryx

inductive ConfigKind where
  | cached (upstream : Str) (offline : Bool)
  | hosted (isVolatile : Bool)
  | virtual (layers : List Str) (upload : Option Str)
  deriving Repr, DecidableEq

def ConfigKind.isHosted : ConfigKind → Bool
  | .hosted _ => true
  | _ => false

structure IndexConfig where
  name : Str
  route : Str
  ecosystem : Ecosystem
  kind : ConfigKind
  policy : PolicyConfig

inductive BuildError where
  | invalidRoute (route : Str)
  | duplicateName (name : Str)
  | duplicateRoute (route : Str)
  | compilePolicy (name reason : Str)
  | accessRules (name : Str)
  | upstreamClient (name : Str)
  | unknownIndex (index name : Str)
  | uploadNotHosted (index name : Str)
  deriving Repr, DecidableEq

structure IndexBuilders where
  client : IndexConfig → Except BuildError UpstreamClient
  policy : IndexConfig → Except BuildError Policy
  acl : IndexConfig → Except BuildError Acl.IndexAcl

def checkNames : List Str → List Str → List IndexConfig → Except BuildError Unit
  | _, _, [] => .ok ()
  | names, routes, config :: configs =>
    match Core.validateRoute config.route with
    | .error _ => .error (.invalidRoute config.route)
    | .ok () =>
      if config.name ∈ names then .error (.duplicateName config.name)
      else if config.route ∈ routes then .error (.duplicateRoute config.route)
      else checkNames (config.name :: names) (config.route :: routes) configs

def resolveName (configs : List IndexConfig) (index : IndexConfig) (name : Str) :
    Except BuildError Nat :=
  match configs.findIdx? fun config => config.name == name with
  | some position => .ok position
  | none => .error (.unknownIndex index.name name)

def hostedConfig (configs : List IndexConfig) (position : Nat) : Bool :=
  (configs[position]?).any fun config => config.kind.isHosted

def resolveUpload (configs : List IndexConfig) (index : IndexConfig) (upload : Option Str)
    (layers : List Nat) : Except BuildError (Option Nat) :=
  match upload with
  | some name => do
    let position ← resolveName configs index name
    if hostedConfig configs position then return some position
    else throw (.uploadNotHosted index.name name)
  | none => .ok (layers.find? (hostedConfig configs))

section Build
variable (builders : IndexBuilders) (globalOffline : Bool)

def buildKind (configs : List IndexConfig) (index : IndexConfig) : Except BuildError IndexKind :=
  match index.kind with
  | .cached _ offline =>
    (builders.client index).map fun client => .cached client (globalOffline || offline)
  | .hosted isVolatile => .ok (.hosted isVolatile)
  | .virtual layers upload => do
    let positions ← layers.mapM (resolveName configs index)
    let target ← resolveUpload configs index upload positions
    return .virtual positions target

def buildIndex (configs : List IndexConfig) (index : IndexConfig) : Except BuildError Index := do
  let policy ← builders.policy index
  let kind ← buildKind builders globalOffline configs index
  let acl ← builders.acl index
  return ⟨index.name, index.route, index.ecosystem, kind, policy, acl⟩

/-- `build_indexes_with_netrc`. -/
def buildIndexes (configs : List IndexConfig) : Except BuildError (List Index) := do
  checkNames [] [] configs
  configs.mapM (buildIndex builders globalOffline configs)

end Build

end Peryx
