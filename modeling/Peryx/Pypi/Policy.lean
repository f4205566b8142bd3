import Mathlib.Data.Finset.Image
import Peryx.Policy.Policy
import Peryx.Pypi.Filename
import Peryx.Pypi.Simple

/-!
# The PyPI half of the policy engine (peryx-ecosystem-pypi/src/policy.rs)

The format's own policy keys become rules of the neutral policy, and files, uploads
and filenames become the facts those rules judge. Reading an RFC 3339 time is a
library of its own and a parameter.
-/

namespace Peryx.Pypi

inductive PackageType where
  | wheel
  | sdist
  deriving Repr, DecidableEq

inductive PypiPolicyError where
  | versionSpecifiers (specifier : Str)
  | emptyTag (tag : Str)
  | emptyPredicateType
  deriving Repr, DecidableEq

def PackageType.asStr : PackageType → Str
  | .wheel => str "wheel"
  | .sdist => str "sdist"

def PackageType.parse (value : Str) : Option PackageType :=
  if value = str "wheel" then some .wheel else if value = str "sdist" then some .sdist else none

def saturatingSub (a b : Int) : Int := max (-2 ^ 63) (min (2 ^ 63 - 1) (a - b))

def attestationPredicateTypes : Str := str "attestation_predicate_types"

def tags (values : List Str) : Except PypiPolicyError (Finset Str) :=
  match values.find? List.isEmpty with
  | some value => .error (.emptyTag value)
  | none => .ok values.toFinset

def packageTypeOf : DistributionKind → PackageType
  | .wheel => .wheel
  | .sdistTarGz | .sdistZip => .sdist

section Facts
variable (table : CaseMap) (pep : Pep440) (parseUploadTime : Str → Option Int)

def pypiAttributes (parsed : DistributionFilename pep) : List (Str × Str) :=
  (str "package_type", (packageTypeOf parsed.kind).asStr) ::
    (parsed.pythonTag.elim [] fun python => [(str "python_tag", python)]) ++
    parsed.platformTag.elim [] fun platform => [(str "platform_tag", platform)]

def factsFromFile (project : Str) (file : File) : ArtifactFacts :=
  let parsed := parsedFilename table pep file.filename
  { project := project
    filename := some file.filename
    version := parsed.map fun parsed => pep.versionString parsed.version
    size := file.size
    uploadTime := file.uploadTime.bind parseUploadTime
    attributes := parsed.elim [] (pypiAttributes pep) }

def saturatingAdd (a b : Nat) : Nat := min (2 ^ 64 - 1) (a + b)

def projectSizeDenial (action : PolicyAction) (project : Str) (limit : Nat) (total : Nat) :
    List File → Option PolicyDenial
  | [] =>
    if limit < total then
      some ⟨action, project, none, none, str "max-project-size", str "project_size",
        .projectSizeExceeds total limit⟩
    else none
  | file :: files =>
    match file.size with
    | none =>
      some ⟨action, project, some file.filename, none, str "max-project-size", str "size",
        .projectSizeUnknown file.filename⟩
    | some size => projectSizeDenial action project limit (saturatingAdd total size) files

def retainVersions (versions : List Str) (keep : Std.ExtTreeSet Str) : List Str :=
  if keep.isEmpty then []
  else
    let kept := versions.filter fun version => keep.contains version
    kept ++ keep.toList.filter fun version => !List.elem version kept

def retainVersionsWithFiles (detail : ProjectDetail) : ProjectDetail :=
  { detail with
    versions := retainVersions detail.versions (Std.ExtTreeSet.ofList
      (detail.files.filterMap fun file => (parsedFilename table pep file.filename).map
        fun parsed => pep.versionString parsed.version)) }

/-- Whether the policy lets a page show a file at the time `now`. -/
def showsFile (policy : Policy) (action : PolicyAction) (project : Str) (now : Option Int)
    (file : File) : Bool :=
  (policy.checkFacts action
    { factsFromFile table pep parseUploadTime project file with now := now }).isOk

def applyDetail (policy : Policy) (action : PolicyAction) (project : Str) (detail : ProjectDetail)
    (now : Option Int) : Except PolicyDenial ProjectDetail := do
  policy.checkProject action project
  if !policy.active then return detail
  let shown := { detail with
    files := detail.files.filter (showsFile table pep parseUploadTime policy action project now) }
  match policy.maxProjectSizeBytes.bind fun limit =>
      projectSizeDenial action project limit 0 shown.files with
  | some denial => throw denial
  | none => return retainVersionsWithFiles table pep shown

end Facts

end Peryx.Pypi
