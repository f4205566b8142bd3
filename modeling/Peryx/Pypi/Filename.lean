import Peryx.Pypi.Name

/-!
# Distribution filenames (peryx-ecosystem-pypi/src/filename.rs, version.rs)

A wheel or an sdist filename names a project, a version and, for a wheel, its tags.
PEP 440 versions and specifiers are a library of their own and parameters here.
-/

namespace Peryx.Pypi

/-- The library of PEP 440 versions: what it parses it writes in a form it parses again. -/
structure Pep440 where
  Version : Type
  Specifiers : Type
  parseVersion : Str → Option Version
  versionString : Version → Str
  parse_string : ∀ version, parseVersion (versionString version) = some version
  parseSpecifiers : Str → Option Specifiers
  contains : Specifiers → Version → Bool

def isWhole (text : Str) : Bool :=
  text.all isAsciiDigit && text.head?.any fun byte => byte != 0x30

/-- Versions that are whole numbers in decimal digits, written without a leading zero, and
the specifiers that name one of them. -/
def wholeVersions : Pep440 where
  Version := { text : Str // isWhole text = true }
  Specifiers := Str
  parseVersion text := if h : isWhole text = true then some ⟨text, h⟩ else none
  versionString := Subtype.val
  parse_string version := dif_pos version.property
  parseSpecifiers text := Str.stripPrefix text (str "==")
  contains specifier version := version.val == specifier

inductive DistributionKind where
  | wheel
  | sdistTarGz
  | sdistZip
  deriving Repr, DecidableEq

structure DistributionFilename (pep : Pep440) where
  kind : DistributionKind
  name : Str
  normalizedName : Str
  version : pep.Version
  pythonTag : Option Str
  platformTag : Option Str

inductive DistributionFilenameError where
  | unsupportedExtension
  | legacyEgg
  | invalidWheelShape
  | invalidSdistShape
  | invalidName (name : Str)
  | invalidVersion (version : Str)
  | invalidTag (tag : Str)
  deriving Repr, DecidableEq

def stripAsciiSuffixIgnoreCase (value suffix : Str) : Option Str :=
  if suffix.length ≤ value.length ∧
      Str.eqIgnoreAsciiCase (value.drop (value.length - suffix.length)) suffix then
    some (value.take (value.length - suffix.length))
  else none

def rsplitOnce (separator : UInt8) (value : Str) : Option (Str × Str) :=
  (Str.splitOnce separator value.reverse).map fun (after, before) =>
    (before.reverse, after.reverse)

def validateBuildTag (tag : Str) : Except DistributionFilenameError Unit :=
  match tag with
  | [] => .error .invalidWheelShape
  | first :: _ =>
    if !isAsciiDigit first || !tag.all fun byte => isAsciiAlphanumeric byte || byte == 0x2E then
      .error (.invalidTag tag)
    else .ok ()

def validateTag (tag : Str) : Except DistributionFilenameError Unit :=
  if tag.isEmpty ||
      !tag.all fun byte => isAsciiAlphanumeric byte || byte == 0x5F || byte == 0x2E then
    .error (.invalidTag tag)
  else .ok ()

section Parse
variable (table : CaseMap) (pep : Pep440)

def parsed (name version : Str) (tags : List Str) (kind : DistributionKind) :
    Except DistributionFilenameError (DistributionFilename pep) :=
  if !isValidName name then .error (.invalidName name)
  else do
    tags.forM validateTag
    match pep.parseVersion version with
    | none => .error (.invalidVersion version)
    | some parsed =>
      .ok ⟨kind, name, normalizeName table name, parsed, tags[0]?, tags[2]?⟩

def parseWheelFilename (stem : Str) :
    Except DistributionFilenameError (DistributionFilename pep) :=
  match Str.split 0x2D stem with
  | [name, version, python, abi, platform] =>
    parsed table pep name version [python, abi, platform] .wheel
  | [name, version, build, python, abi, platform] => do
    validateBuildTag build
    parsed table pep name version [python, abi, platform] .wheel
  | _ => .error .invalidWheelShape

def parseSdistFilename (stem : Str) (kind : DistributionKind) :
    Except DistributionFilenameError (DistributionFilename pep) :=
  match rsplitOnce 0x2D stem with
  | none => .error .invalidSdistShape
  | some (name, version) => parsed table pep name version [] kind

def parseDistributionFilename (filename : Str) :
    Except DistributionFilenameError (DistributionFilename pep) :=
  if (stripAsciiSuffixIgnoreCase filename (str ".egg")).isSome then .error .legacyEgg
  else match stripAsciiSuffixIgnoreCase filename (str ".whl") with
  | some stem => parseWheelFilename table pep stem
  | none =>
    match stripAsciiSuffixIgnoreCase filename (str ".tar.gz") with
    | some stem => parseSdistFilename table pep stem .sdistTarGz
    | none =>
      match stripAsciiSuffixIgnoreCase filename (str ".zip") with
      | some stem => parseSdistFilename table pep stem .sdistZip
      | none => .error .unsupportedExtension

/-- `parse_distribution_filename(..).ok()`. -/
def parsedFilename (filename : Str) : Option (DistributionFilename pep) :=
  (parseDistributionFilename table pep filename).toOption

/-- `distribution_version_segment`: what stands where a version does. -/
def distributionVersionSegment (filename : Str) : Option Str :=
  match (stripAsciiSuffixIgnoreCase filename (str ".tar.gz")).or
      (stripAsciiSuffixIgnoreCase filename (str ".zip")) with
  | some stem => (rsplitOnce 0x2D stem).map Prod.snd
  | none =>
    let stem := (stripAsciiSuffixIgnoreCase filename (str ".whl")).getD filename
    (Str.splitOnce 0x2D stem).map fun (_, rest) => (Str.split 0x2D rest).headD rest

/-- `versions_match` (`version.rs`). -/
def versionsMatch (pep : Pep440) [BEq pep.Version] (left right : Str) : Bool :=
  left == right || match pep.parseVersion left, pep.parseVersion right with
    | some left, some right => left == right
    | _, _ => false

/-- `file_matches_version` (`name.rs`). -/
def fileMatchesVersion (pep : Pep440) [BEq pep.Version] (filename version : Str) : Bool :=
  (distributionVersionSegment filename).any fun candidate => versionsMatch pep candidate version

omit table pep in
theorem stripAsciiSuffix_last (value suffix stem : Str) (last : UInt8)
    (hsuffix : suffix.getLast? = some last)
    (h : stripAsciiSuffixIgnoreCase value suffix = some stem) :
    value.getLast?.map Str.asciiLower = some (Str.asciiLower last) := by
  unfold stripAsciiSuffixIgnoreCase at h
  split at h
  · rename_i hends
    have hsame := hends.2
    rw [Str.eqIgnoreAsciiCase, beq_iff_eq] at hsame
    have hmapped := congrArg List.getLast? hsame
    rw [List.getLast?_map, List.getLast?_map, hsuffix, Option.map_some, List.getLast?_drop] at hmapped
    split at hmapped
    · cases hmapped
    · exact hmapped
  · cases h

end Parse

end Peryx.Pypi
