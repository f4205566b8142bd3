import Peryx.Core.Utf8
import Peryx.Pypi.Simple
import Peryx.Storage.Driver

/-!
# How PyPI rows lie in the neutral table (peryx-ecosystem-pypi/src/store/mod.rs, files.rs)

Every record is a row of the key-value table under a prefix of its own.
-/

namespace Peryx.Pypi
open Storage

def indexPrefix : Str := str "pypi\x00i\x00"

def freshnessPrefix : Str := str "pypi\x00h\x00"

def filePrefix : Str := str "pypi\x00f\x00"

def metadataPrefix : Str := str "pypi\x00d\x00"

def provenancePrefix : Str := str "pypi\x00a\x00"

def projectsPrefix : Str := str "pypi\x00p\x00"

def projectMetaPrefix : Str := str "pypi\x00m\x00"

def projectFilePrefix : Str := str "pypi\x00r\x00"

def projectStatusPrefix : Str := str "pypi\x00s\x00"

def uploadPrefix : Str := str "pypi\x00u\x00"

def overridePrefix : Str := str "pypi\x00o\x00"

/-- `{index}/{normalized}`. -/
def projectSuffix (index normalized : Str) : Str := index ++ str "/" ++ normalized

def indexKey (key : Str) : Str := indexPrefix ++ key

def freshnessKey (key : Str) : Str := freshnessPrefix ++ key

def fileKey (sha256 : Str) : Str := filePrefix ++ sha256

def metadataKey (sha256 : Str) : Str := metadataPrefix ++ sha256

def provenanceKey (sha256 : Str) : Str := provenancePrefix ++ sha256

def projectKey (index normalized : Str) : Str := projectsPrefix ++ projectSuffix index normalized

def projectStatusKey (index normalized : Str) : Str :=
  projectStatusPrefix ++ projectSuffix index normalized

def projectMetaKey (index normalized : Str) : Str :=
  projectMetaPrefix ++ projectSuffix index normalized

def paddedGeneration (generation : Nat) : Str :=
  let digits := str (toString generation)
  List.replicate (20 - digits.length) 0x30 ++ digits

def projectGenerationPrefix (index normalized : Str) (generation : Nat) : Str :=
  projectFilePrefix ++ (projectSuffix index normalized ++ str "/" ++ paddedGeneration generation ++
    str "/")

def projectFileKey (index normalized : Str) (generation : Nat) (filename : Str) : Str :=
  projectGenerationPrefix index normalized generation ++ filename

def projectUploadsPrefix (index normalized : Str) : Str :=
  uploadPrefix ++ (projectSuffix index normalized ++ str "/")

def uploadKey (index normalized filename : Str) : Str :=
  projectUploadsPrefix index normalized ++ filename

def projectOverridesPrefix (index normalized : Str) : Str :=
  overridePrefix ++ (projectSuffix index normalized ++ str "/")

def overrideKey (index normalized filename : Str) : Str :=
  projectOverridesPrefix index normalized ++ filename

def newline : Str := [0x0A]

def fileSourceValue (url source : Str) (size : Option Nat) (upstream : Option Str) : Str :=
  match upstream, size with
  | none, none => url ++ newline ++ source
  | none, some size => url ++ newline ++ source ++ newline ++ str (toString size)
  | some upstream, size =>
    url ++ newline ++ source ++ newline ++ (size.elim [] fun size => str (toString size)) ++
      newline ++ upstream

def metadataValue (url metadataSha256 source : Str) : Str :=
  url ++ newline ++ metadataSha256 ++ newline ++ source

def provenanceValue (provenanceSha256 : Str) (size : Nat) : Str :=
  provenanceSha256 ++ newline ++ str (toString size)

structure FileSource where
  url : Str
  source : Str
  size : Option Nat
  upstream : Option Str
  deriving Repr, DecidableEq

def splitFileSource (value : Str) : Option FileSource :=
  match Str.splitOnce 0x0A value with
  | none => none
  | some (url, rest) =>
    match Str.splitOnce 0x0A rest with
    | none => some ⟨url, rest, none, none⟩
    | some (source, rest) =>
      match Str.splitOnce 0x0A rest with
      | none => some ⟨url, source, Str.parseU64 rest, none⟩
      | some (size, upstream) =>
        some ⟨url, source, Str.parseU64 size, if upstream = [] then none else some upstream⟩

def splitMetadata (value : Str) : Option (Str × Str × Str) := do
  let (url, rest) ← Str.splitOnce 0x0A value
  let (metadataSha256, source) ← Str.splitOnce 0x0A rest
  return (url, metadataSha256, source)

def splitProvenance (value : Str) : Option (Str × Nat) := do
  let (sha256, size) ← Str.splitOnce 0x0A value
  return (sha256, ← Str.parseU64 size)

def getFileUrl (rows : Rows) (sha256 : Str) : Option FileSource :=
  (rows[fileKey sha256]?.bind Str.fromUtf8).bind splitFileSource

def getMetadata (rows : Rows) (artifactSha256 : Str) : Option (Str × Str × Str) :=
  (rows[metadataKey artifactSha256]?.bind Str.fromUtf8).bind splitMetadata

def getProvenance (rows : Rows) (artifactSha256 : Str) : Option (Str × Nat) :=
  (rows[provenanceKey artifactSha256]?.bind Str.fromUtf8).bind splitProvenance

theorem key_ne (a b : Str) (ha : a.length = 7) (hb : b.length = 7) (hab : a ≠ b) (x y : Str) :
    a ++ x ≠ b ++ y := fun h => hab (List.append_inj h (ha.trans hb.symm)).1

theorem metadataKey_inj {a b : Str} (h : metadataKey a = metadataKey b) : a = b :=
  List.append_cancel_left h

theorem metadataValue_isUtf8 (url metadataSha256 source : Str) (hurl : url.IsUtf8)
    (hsha : metadataSha256.IsUtf8) (hsource : source.IsUtf8) :
    (metadataValue url metadataSha256 source).IsUtf8 := by
  have hnewline : newline.IsUtf8 := by decide
  exact (((hurl.append hnewline).append hsha).append hnewline).append hsource

end Peryx.Pypi
