import Mathlib.Data.Finset.Image
import Std.Data.ExtTreeSet.Lemmas
import Peryx.Core.Text
import Peryx.Library.Outcome

/-!
# The policy engine (peryx-policy/src/lib.rs)

The rules every ecosystem shares (project lists, protected names, byte sizes) and the hook
for the format's own rules. The decision recorder is an audit sink that no check reads and
is left out.
-/

namespace Peryx

inductive PolicyAction where
  | upload
  | cached
  | serve
  deriving Repr, DecidableEq

inductive DenialReason where
  | protectedName (project rule : Str)
  | blocked (project : Str)
  | notAllowed (project : Str)
  | sizeUnknown
  | sizeExceeds (size limit : Nat)
  | projectSizeUnknown (filename : Str)
  | projectSizeExceeds (total limit : Nat)
  | releaseAge (age limit : Int)
  | missingFromHosted (project hostedMembers index cachedMembers : Str)
  | quoting (front value back : Str)
  | ofRule (text : Str)
  deriving Repr, DecidableEq

structure PolicyDenial where
  action : PolicyAction
  project : Str
  filename : Option Str
  version : Option Str
  rule : Str
  field : Str
  reason : DenialReason
  deriving Repr, DecidableEq

structure ArtifactFacts where
  project : Str
  filename : Option Str := none
  version : Option Str := none
  source : Option Str := none
  size : Option Nat := none
  uploadTime : Option Int := none
  now : Option Int := none
  attributes : List (Str × Str) := []

def ArtifactFacts.attribute (facts : ArtifactFacts) (key : Str) : Option Str :=
  facts.attributes.lookup key

def ArtifactFacts.denial (facts : ArtifactFacts) (action : PolicyAction) (rule field : Str)
    (reason : DenialReason) : PolicyDenial :=
  ⟨action, facts.project, facts.filename, facts.version, rule, field, reason⟩

inductive FallbackMode where
  | fallback
  | privateFirst
  | noFallback
  deriving Repr, DecidableEq

instance : Inhabited FallbackMode := ⟨.fallback⟩

/-- `ArtifactRule`: what an ecosystem attaches to a policy. -/
structure ArtifactRule where
  check : PolicyAction → ArtifactFacts → Except PolicyDenial Unit
  fallbackMode : Option FallbackMode := none

structure ProtectedNames where
  exact : Finset Str := ∅
  prefixes : Std.ExtTreeSet Str := ∅

def stripStar (name : Str) : Option Str :=
  if name.getLast? = some 0x2A then some name.dropLast else none

def ProtectedNames.compile (names : List Str) (normalize : Str → Str) : ProtectedNames :=
  names.foldl
    (fun compiled name => match stripStar name with
      | some start => { compiled with prefixes := compiled.prefixes.insert (normalize start) }
      | none => { compiled with exact := insert (normalize name) compiled.exact })
    {}

def ProtectedNames.isEmpty (names : ProtectedNames) : Bool :=
  decide (names.exact = ∅) && names.prefixes.isEmpty

def ProtectedNames.matched (names : ProtectedNames) (project : Str) : Option Str :=
  if project ∈ names.exact then some project
  else (names.prefixes.toList.find? fun start => Str.startsWith project start).map (· ++ str "*")

structure PolicyConfig where
  allowProjects : List Str := []
  blockProjects : List Str := []
  protectedNames : List Str := []
  maxFileSizeBytes : Option Nat := none
  maxProjectSizeBytes : Option Nat := none

structure Policy where
  allowProjects : Finset Str := ∅
  blockProjects : Finset Str := ∅
  protectedNames : ProtectedNames := {}
  maxFileSizeBytes : Option Nat := none
  maxProjectSizeBytes : Option Nat := none
  rules : List ArtifactRule := []

def Policy.compile (config : PolicyConfig) (normalize : Str → Str) : Policy where
  allowProjects := (config.allowProjects.map normalize).toFinset
  blockProjects := (config.blockProjects.map normalize).toFinset
  protectedNames := ProtectedNames.compile config.protectedNames normalize
  maxFileSizeBytes := config.maxFileSizeBytes
  maxProjectSizeBytes := config.maxProjectSizeBytes

def Policy.fallbackMode (policy : Policy) : FallbackMode :=
  (policy.rules.findSome? ArtifactRule.fallbackMode).getD .fallback

/-- `Policy::active`; the source stores the value `compute_active` gives. -/
def Policy.active (policy : Policy) : Bool :=
  decide (policy.allowProjects ≠ ∅) || decide (policy.blockProjects ≠ ∅) ||
    !policy.protectedNames.isEmpty || policy.maxFileSizeBytes.isSome ||
    policy.maxProjectSizeBytes.isSome || !policy.rules.isEmpty

/-- `evaluate_project` (`lib.rs:322-361`): protection first and only for the mirror
path, then the allow list, then the block list. -/
def Policy.checkProject (policy : Policy) (action : PolicyAction) (project : Str) :
    Except PolicyDenial Unit :=
  let denial (rule : Str) (reason : DenialReason) : PolicyDenial :=
    ⟨action, project, none, none, rule, str "project", reason⟩
  let lists : Except PolicyDenial Unit :=
    if policy.allowProjects = ∅ ∨ project ∈ policy.allowProjects then
      if project ∈ policy.blockProjects then
        .error (denial (str "project-block-list") (.blocked project))
      else .ok ()
    else .error (denial (str "project-allow-list") (.notAllowed project))
  if action = .cached then
    match policy.protectedNames.matched project with
    | some rule => .error (denial (str "protected-name") (.protectedName project rule))
    | none => lists
  else lists

def Policy.checkFileSize (policy : Policy) (action : PolicyAction) (facts : ArtifactFacts) :
    Except PolicyDenial Unit :=
  match policy.maxFileSizeBytes with
  | none => .ok ()
  | some limit =>
    match facts.size with
    | none => .error (facts.denial action (str "max-file-size") (str "size") .sizeUnknown)
    | some size =>
      if limit < size then
        .error (facts.denial action (str "max-file-size") (str "size") (.sizeExceeds size limit))
      else .ok ()

def Policy.checkFacts (policy : Policy) (action : PolicyAction) (facts : ArtifactFacts) :
    Except PolicyDenial Unit := do
  policy.checkProject action facts.project
  policy.checkFileSize action facts
  policy.rules.forM fun rule => rule.check action facts

end Peryx
