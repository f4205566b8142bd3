import Peryx.Core.Serde
import Peryx.Core.Utf8
import Peryx.Pypi.Simple

/-!
# A project page in JSON (simple/parse.rs, simple/file.rs, simple/meta.rs, simple/error.rs)
-/

namespace Peryx.Pypi

inductive SimpleError where
  | json
  | html
  | unsupportedApiVersion (version : Str)
  | invalidApiVersion (version : Str)
  | invalidProjectStatus (status : Str)
  deriving DecidableEq

structure ParsedDetail where
  info : Meta
  name : Str
  versions : List Str
  files : List File

def apiMajor : Nat := 1

def pep700Minor : Nat := 1

def servedVersion : Option Str → Except SimpleError Str
  | none => .ok apiVersionBase
  | some version =>
    match Str.splitOnce 0x2E version with
    | none => .error (.invalidApiVersion version)
    | some (major, minor) =>
      match Str.parseU64 major with
      | none => .error (.invalidApiVersion version)
      | some major =>
        if major ≠ apiMajor then .error (.unsupportedApiVersion version)
        else
          match Str.parseU64 minor with
          | none => .error (.invalidApiVersion version)
          | some minor => .ok (if pep700Minor ≤ minor then apiVersion else apiVersionBase)

def validateProjectStatus (status : Str) : Except SimpleError Unit :=
  if (ProjectStatus.fromMarker status).isSome then .ok () else .error (.invalidProjectStatus status)

def Meta.fromUpstream (api projectStatus projectStatusReason : Option Str) :
    Except SimpleError Meta := do
  let served ← servedVersion api
  if let some status := projectStatus then validateProjectStatus status
  return { apiVersion := served, projectStatus, projectStatusReason }

theorem servedVersion_cases {api : Option Str} {served : Str} (h : servedVersion api = .ok served) :
    served = apiVersionBase ∨ served = apiVersion := by
  unfold servedVersion at h
  split at h
  · cases h
    exact .inl rfl
  · split at h
    · cases h
    · split at h
      · cases h
      · split at h
        · cases h
        · split at h
          · cases h
          · cases h
            split
            · exact .inr rfl
            · exact .inl rfl

theorem servedVersion_served (api : Option Str) (served : Str) (h : servedVersion api = .ok served) :
    servedVersion (some served) = .ok served := by
  rcases servedVersion_cases h with rfl | rfl
  · decide
  · decide

theorem fromUpstream_eq (api projectStatus projectStatusReason : Option Str) (info : Meta)
    (h : Meta.fromUpstream api projectStatus projectStatusReason = .ok info) :
    servedVersion api = .ok info.apiVersion ∧ info.projectStatus = projectStatus ∧
      info.projectStatusReason = projectStatusReason ∧
      ∀ status ∈ projectStatus, validateProjectStatus status = .ok () := by
  unfold Meta.fromUpstream at h
  cases hserved : servedVersion api with
  | error error =>
    rw [hserved] at h
    cases h
  | ok served =>
    rw [hserved] at h
    cases projectStatus with
    | none =>
      cases h
      exact ⟨rfl, rfl, rfl, fun _ hstatus => nomatch hstatus⟩
    | some status =>
      cases hvalid : validateProjectStatus status with
      | error error =>
        simp only [bind, Except.bind, hvalid] at h
        cases h
      | ok done =>
        simp only [bind, Except.bind, hvalid] at h
        cases h
        refine ⟨rfl, rfl, rfl, fun known hknown => ?_⟩
        rw [Option.mem_def, Option.some.injEq] at hknown
        rw [← hknown]
        exact hvalid

theorem fromUpstream_again (api projectStatus projectStatusReason : Option Str) (info : Meta)
    (h : Meta.fromUpstream api projectStatus projectStatusReason = .ok info) :
    Meta.fromUpstream (some info.apiVersion) info.projectStatus info.projectStatusReason =
      .ok info := by
  obtain ⟨hserved, hstatus, -, hvalid⟩ := fromUpstream_eq _ _ _ info h
  have hagain := servedVersion_served api info.apiVersion hserved
  rw [← hstatus] at hvalid
  unfold Meta.fromUpstream
  rw [hagain]
  obtain ⟨served, known, reason⟩ := info
  cases known with
  | none => rfl
  | some status =>
    have hknown := hvalid status rfl
    simp only [bind, Except.bind, hknown]
    rfl

end Peryx.Pypi

namespace Peryx.Json

def asBool : Json → Option Bool
  | bool value => some value
  | _ => none

end Peryx.Json

namespace Peryx.Pypi
open Json Serde

def Yanked.ofJson : Json → Option Yanked
  | .bool value => some (if value then .yes else .no)
  | .string value => some (.reason value)
  | _ => none

def hashesOfJson : Json → Option Hashes
  | .object members =>
    members.foldlM (fun hashes member => member.2.asStr.map fun value => hashes.insert member.1 value) ∅
  | _ => none

def CoreMetadata.ofJson : Json → Option CoreMetadata
  | .bool value => some (if value then .available else .absent)
  | .object members => (hashesOfJson (.object members)).map .hashes
  | _ => none

def Provenance.ofJson : Json → Option Provenance
  | .null => some .null
  | json => json.asStr.map .url

def fileFields : List Str :=
  [str "filename", str "url", str "hashes", str "requires-python", str "size", str "upload-time",
    str "yanked", str "core-metadata", str "dist-info-metadata", str "gpg-sig", str "provenance"]

def orDefault {α : Type} (value : α) (read : Json → Option α) : Option Json → Option α
  | none => some value
  | some json => read json

def File.ofJson (json : Json) : Option File := do
  let field ← structFields fileFields json
  return {
    filename := ← (← field (str "filename")).asStr
    url := ← (← field (str "url")).asStr
    hashes := ← orDefault ∅ hashesOfJson (field (str "hashes"))
    requiresPython := ← optional asStr (field (str "requires-python"))
    size := ← optional (unsigned 64) (field (str "size"))
    uploadTime := ← optional asStr (field (str "upload-time"))
    yanked := ← orDefault .no Yanked.ofJson (field (str "yanked"))
    coreMetadata := ← orDefault .absent CoreMetadata.ofJson (field (str "core-metadata"))
    distInfoMetadata := ← orDefault .absent CoreMetadata.ofJson (field (str "dist-info-metadata"))
    gpgSig := ← optional asBool (field (str "gpg-sig"))
    provenance := ← orDefault .absent Provenance.ofJson (field (str "provenance")) }

structure IncomingMeta where
  apiVersion : Option Str := none
  projectStatus : Option Str := none
  projectStatusReason : Option Str := none

def IncomingMeta.ofJson (json : Json) : Option IncomingMeta := do
  let field ← structFields
    [str "api-version", str "project-status", str "project-status-reason"] json
  return {
    apiVersion := ← optional asStr (field (str "api-version"))
    projectStatus := ← optional asStr (field (str "project-status"))
    projectStatusReason := ← optional asStr (field (str "project-status-reason")) }

def IncomingMeta.intoMeta (info : IncomingMeta) : Except SimpleError Meta :=
  Meta.fromUpstream info.apiVersion info.projectStatus info.projectStatusReason

def stringsOfJson (json : Json) : Option (List Str) := json.asArray.bind fun items => items.mapM asStr

def filesOfJson (json : Json) : Option (List File) := json.asArray.bind fun items => items.mapM File.ofJson

structure IncomingDetail where
  info : IncomingMeta
  name : Str
  versions : List Str
  files : List File

def detailFields : List Str := [str "meta", str "name", str "versions", str "files"]

def IncomingDetail.ofJson (json : Json) : Option IncomingDetail := do
  let field ← structFields detailFields json
  return {
    info := ← orDefault {} IncomingMeta.ofJson (field (str "meta"))
    name := ← (← field (str "name")).asStr
    versions := ← orDefault [] stringsOfJson (field (str "versions"))
    files := ← orDefault [] filesOfJson (field (str "files")) }

/-- `parse_detail`, on the value that `serde_json` reads, if it reads one. -/
def parseDetail (document : Option Json) : Except SimpleError ParsedDetail :=
  match document.bind IncomingDetail.ofJson with
  | none => .error .json
  | some detail => do
    let info ← detail.info.intoMeta
    return { info, name := detail.name, versions := detail.versions, files := detail.files }

end Peryx.Pypi
