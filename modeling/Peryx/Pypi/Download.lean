import Peryx.Pypi.Resolve
import Peryx.Storage.DriverTxn

/-! # Downloading a file (peryx-ecosystem-pypi/src/serving/get.rs, cache/mutate.rs) -/

namespace Peryx.Pypi

inductive Served where
  | metadata
  | provenance
  | blob (head : Bool)
  deriving Repr, DecidableEq

def safeFilename (raw : Str) : Except Core.PathSafetyError Str := do
  let filename ← Core.decodePathSegment raw
  Core.validateFilename filename
  return filename

def parseDigest (hex : Str) : Except Core.PathSafetyError Str :=
  match Storage.digestFromHex hex with
  | some digest => .ok digest
  | none => .error (.invalidDigest hex)

/-- The digest and filename of a request below `files/`; `none` without a slash. -/
def downloadTarget (file : Str) : Option (Except Core.PathSafetyError (Str × Str)) :=
  (Str.splitOnce 0x2F file).map fun (sha256, raw) => do
    let digest ← parseDigest sha256
    let filename ← safeFilename raw
    return (digest, filename)

section Download
variable (table : CaseMap) (pep : Pep440) (reads : DownloadReads)

end Download

end Peryx.Pypi
