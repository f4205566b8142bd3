import Peryx.Pypi.Generations

/-!
# Rows of pages and projects (peryx-ecosystem-pypi/src/store/record.rs, index.rs, projects.rs)
-/

namespace Peryx.Pypi
open Storage

structure CachedIndex where
  etag : Option Str
  lastSerial : Option Nat
  fetchedAtUnix : Int
  contentType : Option Str
  freshSecs : Option Int
  body : Bytes
  deriving Repr, DecidableEq

structure RecordHeader where
  etag : Option Str
  lastSerial : Option Nat
  fetchedAtUnix : Int
  contentType : Option Str
  freshSecs : Option Int
  deriving Repr, DecidableEq

structure CachedIndexSummary where
  fetchedAtUnix : Int
  freshSecs : Option Int
  bodyBytes : Nat
  recordBytes : Nat
  lastSerial : Option Nat
  contentType : Option Str
  deriving Repr, DecidableEq

structure FreshnessOverlay where
  fetchedAtUnix : Int
  freshSecs : Option Int
  deriving Repr, DecidableEq

structure ProjectStatusRecord where
  status : Option Str
  reason : Option Str
  deriving Repr, DecidableEq

/-- `serde_json` on these records; plain records are those of earlier versions. -/
structure PageJson extends GenerationJson where
  header : RecordHeader → Bytes
  readHeader : Bytes → Option RecordHeader
  readPlain : Bytes → Option CachedIndex
  overlay : FreshnessOverlay → Bytes
  readOverlay : Bytes → Option FreshnessOverlay
  readStatusRecord : Bytes → Option ProjectStatusRecord

section Records
variable (json : PageJson)

def recordPrefix : Bytes := str "peryx1\n"

def CachedIndex.encode (record : CachedIndex) : Bytes :=
  recordPrefix ++ json.header ⟨record.etag, record.lastSerial, record.fetchedAtUnix,
    record.contentType, record.freshSecs⟩ ++ newline ++ record.body

def splitFramed (raw : Bytes) : Option (Bytes × Bytes) :=
  (Str.stripPrefix raw recordPrefix).bind (Str.splitOnce 0x0A)

def CachedIndex.decode (raw : Bytes) : Option CachedIndex :=
  match splitFramed raw with
  | none => json.readPlain raw
  | some (header, body) => (json.readHeader header).map fun header =>
    ⟨header.etag, header.lastSerial, header.fetchedAtUnix, header.contentType, header.freshSecs, body⟩

def CachedIndex.summary (raw : Bytes) : Option CachedIndexSummary :=
  match splitFramed raw with
  | some (header, body) => (json.readHeader header).map fun header =>
    ⟨header.fetchedAtUnix, header.freshSecs, body.length, raw.length, header.lastSerial,
      header.contentType⟩
  | none => (json.readPlain raw).map fun record =>
    ⟨record.fetchedAtUnix, record.freshSecs, record.body.length, raw.length, record.lastSerial,
      record.contentType⟩

def CachedIndex.decodeFreshness (raw : Bytes) : Option (Int × Option Int) :=
  (CachedIndex.summary json raw).map fun summary => (summary.fetchedAtUnix, summary.freshSecs)

def putIndex (key : Str) (record : CachedIndex) : Calls MetaFailure Unit :=
  batchCall { puts := [(indexKey key, record.encode json)], deletes := [freshnessKey key] }

def touchIndexFreshness (key : Str) (overlay : FreshnessOverlay) : Calls MetaFailure Unit :=
  batchCall { puts := [(freshnessKey key, json.overlay overlay)] }

def readOverlay (key : Str) : Calls MetaFailure (Option FreshnessOverlay) := do
  match ← getCall (freshnessKey key) with
  | none => return none
  | some raw => return some (← decoded (json.readOverlay raw))

def getIndex (key : Str) : Calls MetaFailure (Option CachedIndex) := do
  match ← getCall (indexKey key) with
  | none => return none
  | some raw =>
    let record ← decoded (CachedIndex.decode json raw)
    match ← readOverlay json key with
    | none => return some record
    | some overlay => return some { record with
        fetchedAtUnix := overlay.fetchedAtUnix
        freshSecs := overlay.freshSecs }

def putCachedPageCall (page : CachedPage) : Calls MetaFailure Unit :=
  rowsCall fun rows => (.ok (), putCachedPage json.toRowJson rows page)

def listIndexPages : Calls MetaFailure (List (Str × Int × Option Int)) := do
  let keys ← keysCall indexPrefix
  keys.mapM fun key => do
    let route := key.drop indexPrefix.length
    match ← readOverlay json route with
    | some overlay => return (route, overlay.fetchedAtUnix, overlay.freshSecs)
    | none => return (route, ← decoded (CachedIndex.decodeFreshness json (← valueOf key)))

def scanIndexPages : Calls MetaFailure (List (Str × CachedIndexSummary)) := do
  let keys ← keysCall indexPrefix
  keys.mapM fun key => do
    let summary ← decoded (CachedIndex.summary json (← valueOf key))
    let route := key.drop indexPrefix.length
    match ← readOverlay json route with
    | none => return (route, summary)
    | some overlay => return (route, { summary with
        fetchedAtUnix := overlay.fetchedAtUnix
        freshSecs := overlay.freshSecs })

def scanRecords (start : Str) : Calls MetaFailure (List (Str × Bytes)) := do
  let keys ← keysCall start
  keys.mapM fun key => return (key.drop start.length, ← valueOf key)

def scanIndexRecords : Calls MetaFailure (List (Str × Bytes)) := scanRecords indexPrefix

def scanUploadRecords : Calls MetaFailure (List (Str × Bytes)) := scanRecords uploadPrefix

/-- What a scan visits that passes over rows that are gone or not UTF-8:
`scan_project_records`, `scan_override_records`. -/
def scanTexts (start : Str) : Calls MetaFailure (List (Str × Str)) := do
  let keys ← keysCall start
  let rows ← keys.mapM fun key =>
    return ((← getCall key).bind Str.fromUtf8).map fun text => (key.drop start.length, text)
  return rows.filterMap id

def scanProjectRecords : Calls MetaFailure (List (Str × Str)) := scanTexts projectsPrefix

def scanOverrideRecords : Calls MetaFailure (List (Str × Str)) := scanTexts overridePrefix

def putProject (index normalized display : Str) : Calls MetaFailure Unit :=
  putCall (projectKey index normalized) display

def getProject (index normalized : Str) : Calls MetaFailure (Option Str) :=
  return (← getCall (projectKey index normalized)).bind Str.fromUtf8

def getProjectStatus (index normalized : Str) : Calls MetaFailure (Option ProjectStatusRecord) := do
  match ← getCall (projectStatusKey index normalized) with
  | none => return none
  | some raw => return some (← decoded (json.readStatusRecord raw))

def putUpload (index normalized filename : Str) (record : Bytes) : Calls MetaFailure Unit :=
  putCall (uploadKey index normalized filename) record

def listUploadEntriesCall (index normalized : Str) : Calls MetaFailure (List (Str × Bytes)) := do
  let start := projectUploadsPrefix index normalized
  let keys ← keysCall start
  let rows ← keys.mapM fun key =>
    return (← getCall key).map fun record => (key.drop start.length, record)
  return rows.filterMap id

def listOverridesCall (index normalized : Str) : Calls MetaFailure (List (Str × Str)) :=
  scanTexts (projectOverridesPrefix index normalized)

structure ProjectCachePurgeCounts where
  indexPages : Nat := 0
  projectRecords : Nat := 0
  projectStatusRecords : Nat := 0
  fileUrlRecords : Nat := 0
  metadataRecords : Nat := 0
  provenanceRecords : Nat := 0
  deriving Repr, DecidableEq

def countRows (keys : List Str) : Calls MetaFailure Nat := do
  let found ← keys.mapM fun key => getCall key
  return found.countP Option.isSome

def countProjectCachePurge (index normalized : Str) (fileDigests metadataDigests : List Str) :
    Calls MetaFailure ProjectCachePurgeCounts := do
  let fileUrlRecords ← countRows (fileDigests.map fileKey)
  let metadataRecords ← countRows (metadataDigests.map metadataKey)
  let provenanceRecords ← countRows (fileDigests.map provenanceKey)
  let indexPages ← countRows [indexKey (projectSuffix index normalized)]
  let projectRecords ← countRows [projectKey index normalized]
  let projectStatusRecords ← countRows [projectStatusKey index normalized]
  return ⟨indexPages, projectRecords, projectStatusRecords, fileUrlRecords, metadataRecords,
    provenanceRecords⟩

def deleteProjectCache (index normalized : Str) (fileDigests metadataDigests : List Str) :
    Calls MetaFailure ProjectCachePurgeCounts := do
  let counts ← countProjectCachePurge index normalized fileDigests metadataDigests
  let key := projectSuffix index normalized
  batchCall {
    deletes := [indexKey key, freshnessKey key, projectKey index normalized,
        projectStatusKey index normalized] ++
      fileDigests.map fileKey ++ metadataDigests.map metadataKey ++ fileDigests.map provenanceKey }
  return counts

end Records
end Peryx.Pypi
