import Peryx.Pypi.Name
import Peryx.Pypi.PageRows
import Peryx.Pypi.Uploads
import Peryx.Storage.LoneCalls

/-!
# Cache maintenance (peryx-ecosystem-pypi/src/admin.rs)

Purging a project, collecting the blobs the rows refer to, and checking the rows. What
decodes a row is a library of its own.
-/

namespace Peryx.Pypi
open Storage

structure AdminJson extends PageJson, UploadJson where
  parseDetail : Bytes → Option ProjectDetail

inductive PageProblem where
  | store (failure : MetaFailure)
  | record
  | detail
  | digest (sha256 : Str)
  | metadataDigest (sha256 : Str)
  deriving Repr, DecidableEq

inductive AdminError where
  | store (failure : MetaFailure)
  | project (key : Str) (problem : PageProblem)
  | page (key : Str) (problem : PageProblem)
  | upload (key : Str)
  | fileUrl (digest : Str)
  | metadataRecord (digest : Str)
  | wheelDigest (digest : Str)
  | metadataDigest (digest : Str)
  | provenance (digest : Str)
  deriving Repr, DecidableEq

def isDigest (hex : Str) : Bool := (digestFromHex hex).isSome

def validProvenance (artifactDigest value : Str) : Option Str :=
  match Str.splitOnce 0x0A value with
  | none => none
  | some (provenanceDigest, size) =>
    if isDigest artifactDigest && isDigest provenanceDigest && (Str.parseU64 size).isSome then
      some provenanceDigest
    else none

section Records
variable (json : AdminJson)

def coreMetadataDigest (file : File) : Option Str :=
  match file.coreMetadata with
  | .hashes hashes => hashes[str "sha256"]?
  | .absent | .available => none

def uploadDigests (bytes : Bytes) : Option (List Str) := do
  let upload ← json.readUploaded bytes
  let digest ← digestFromHex (← upload.file.hashes[str "sha256"]?)
  match coreMetadataDigest upload.file with
  | some metadataDigest => return [digest, ← digestFromHex metadataDigest]
  | none => return [digest]

def referFile (digests : Digests) (row : Str × Str) : Except AdminError Digests :=
  if !isDigest row.1 || (Str.splitOnce 0x0A row.2).isNone then .error (.fileUrl row.1)
  else .ok (digests.insert row.1)

def referMetadata (digests : Digests) (row : Str × Str) : Except AdminError Digests :=
  match splitMetadata row.2 with
  | none => .error (.metadataRecord row.1)
  | some (_url, metadataDigest, _source) =>
    if !isDigest row.1 then .error (.wheelDigest row.1)
    else if !isDigest metadataDigest then .error (.metadataDigest metadataDigest)
    else .ok ((digests.insert row.1).insert metadataDigest)

def referUpload (digests : Digests) (row : Str × Bytes) : Except AdminError Digests :=
  match uploadDigests json row.2 with
  | none => .error (.upload row.1)
  | some named => .ok (named.foldl (fun digests digest => digests.insert digest) digests)

def referProvenance (digests : Digests) (row : Str × Str) : Except AdminError Digests :=
  match validProvenance row.1 row.2 with
  | none => .error (.provenance row.1)
  | some provenanceDigest => .ok (digests.insert provenanceDigest)

def referencedBlobDigests : Calls AdminError Digests := do
  let files ← raised .store (scanTexts filePrefix)
  let digests ← visited (files.foldlM referFile ∅)
  let metadata ← raised .store (scanTexts metadataPrefix)
  let digests ← visited (metadata.foldlM referMetadata digests)
  let uploads ← raised .store scanUploadRecords
  let digests ← visited (uploads.foldlM (referUpload json) digests)
  let provenance ← raised .store (scanTexts provenancePrefix)
  visited (provenance.foldlM referProvenance digests)

structure CacheRefs where
  files : Digests := ∅
  metadataWheels : Digests := ∅

def addFileRefs (refs : CacheRefs) (file : File) : Except PageProblem CacheRefs :=
  match file.hashes[str "sha256"]? with
  | none => .ok refs
  | some sha256 =>
    if !isDigest sha256 then .error (.digest sha256)
    else
      let refs := { refs with files := refs.files.insert sha256 }
      match coreMetadataDigest file with
      | none => .ok refs
      | some metadataDigest =>
        if !isDigest metadataDigest then .error (.metadataDigest metadataDigest)
        else .ok { refs with metadataWheels := refs.metadataWheels.insert sha256 }

def addIndexRefs (refs : CacheRefs) (record : CachedIndex) : Except PageProblem CacheRefs :=
  match json.parseDetail record.body with
  | none => .error .detail
  | some detail => detail.files.foldlM addFileRefs refs

def projectRefs (targetKey : Str) : Calls AdminError CacheRefs := do
  match ← raised (fun failure => .project targetKey (.store failure))
    (getIndex json.toPageJson targetKey) with
  | none => return {}
  | some record => visited ((addIndexRefs json {} record).mapError (.project targetKey))

def preservePage (targetKey : Str) (refs : CacheRefs) (row : Str × Bytes) :
    Except AdminError CacheRefs :=
  if row.1 = targetKey then .ok refs
  else match CachedIndex.decode json.toPageJson row.2 with
  | none => .error (.page row.1 .record)
  | some record => (addIndexRefs json refs record).mapError (.page row.1)

def preserveUpload (refs : CacheRefs) (row : Str × Bytes) : Except AdminError CacheRefs :=
  (referUpload json refs.files row).map fun files => { refs with files := files }

def preservedRefs (targetKey : Str) : Calls AdminError CacheRefs := do
  let pages ← raised .store scanIndexRecords
  let refs ← visited (pages.foldlM (preservePage json targetKey) {})
  let uploads ← raised .store scanUploadRecords
  visited (uploads.foldlM (preserveUpload json) refs)

structure PurgeReport where
  project : Str
  categories : List (Str × Nat)
  deriving Repr, DecidableEq

def difference (digests preserved : Digests) : List Str :=
  digests.toList.filter fun digest => digest ∉ preserved

variable (table : CaseMap)

def purgeProject (index project : Str) (apply : Bool) : Calls AdminError PurgeReport := do
  let normalized := normalizeName table project
  let targetKey := projectSuffix index normalized
  let target ← projectRefs json targetKey
  let preserved ← preservedRefs json targetKey
  let fileDigests := difference target.files preserved.files
  let metadataDigests := difference target.metadataWheels preserved.files
  let counts ← raised .store
    (if apply then deleteProjectCache index normalized fileDigests metadataDigests
      else countProjectCachePurge index normalized fileDigests metadataDigests)
  return ⟨normalized, [(str "index_pages", counts.indexPages),
    (str "project_records", counts.projectRecords),
    (str "file_url_records", counts.fileUrlRecords),
    (str "metadata_records", counts.metadataRecords),
    (str "provenance_records", counts.provenanceRecords)]⟩

inductive FsckLine where
  | page (key : Str) (problem : PageProblem)
  | fileUrl (digest : Str)
  | pep658 (digest : Str)
  | project (key : Str)
  | upload (key : Str)
  | uploadKey (key : Str)
  | missingBlob (key digest : Str)
  | override (key : Str)
  | provenance (digest : Str)
  deriving Repr, DecidableEq

def validProjectKey (key : Str) : Bool :=
  match Str.splitOnce 0x2F key with
  | some (index, project) => index != [] && project != []
  | none => false

def validUploadKey (key : Str) : Bool :=
  match Str.splitOnce 0x2F key with
  | none => false
  | some (index, rest) => match Str.splitOnce 0x2F rest with
    | none => false
    | some (project, filename) => index != [] && project != [] && filename != []

def fsckPage (row : Str × Bytes) : List FsckLine :=
  match CachedIndex.decode json.toPageJson row.2 with
  | none => [.page row.1 .record]
  | some record => if (json.parseDetail record.body).isSome then [] else [.page row.1 .detail]

def fsckFile (row : Str × Str) : List FsckLine :=
  if !isDigest row.1 || (Str.splitOnce 0x0A row.2).isNone then [.fileUrl row.1] else []

def fsckMetadataRecord (row : Str × Str) : List FsckLine :=
  let valid := isDigest row.1 &&
    (splitMetadata row.2).any fun (_url, metadataDigest, _source) => isDigest metadataDigest
  if valid then [] else [.pep658 row.1]

def fsckProject (row : Str × Str) : List FsckLine :=
  if !validProjectKey row.1 || row.2 == [] then [.project row.1] else []

def fsckUpload (blobs : BlobStore) (row : Str × Bytes) : List FsckLine :=
  match uploadDigests json row.2 with
  | none => [.upload row.1]
  | some digests =>
    if !validUploadKey row.1 then [.uploadKey row.1]
    else digests.filterMap fun digest =>
      if blobs[digest]?.isNone then some (.missingBlob row.1 digest) else none

def fsckOverride (row : Str × Str) : List FsckLine :=
  if !validUploadKey row.1 || !(row.2 == str "hidden" || row.2 == str "yanked") then
    [.override row.1]
  else []

def fsckProvenance (row : Str × Str) : List FsckLine :=
  if (validProvenance row.1 row.2).isNone then [.provenance row.1] else []

def fsckMetadata (blobs : BlobStore) : Calls MetaFailure (List FsckLine) := do
  let pages ← scanIndexRecords
  let files ← scanTexts filePrefix
  let metadata ← scanTexts metadataPrefix
  let projects ← scanProjectRecords
  let uploads ← scanUploadRecords
  let overrides ← scanOverrideRecords
  let provenance ← scanTexts provenancePrefix
  return pages.flatMap (fsckPage json) ++ files.flatMap fsckFile ++
    metadata.flatMap fsckMetadataRecord ++ projects.flatMap fsckProject ++
    uploads.flatMap (fsckUpload json blobs) ++ overrides.flatMap fsckOverride ++
    provenance.flatMap fsckProvenance

end Records
end Peryx.Pypi
