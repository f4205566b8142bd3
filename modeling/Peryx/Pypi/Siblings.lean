import Peryx.Pypi.Ingest
import Peryx.Pypi.Uploads

/-!
# Serving metadata and provenance (peryx-ecosystem-pypi/src/cache/metadata.rs, cache/provenance.rs)

A sibling is looked up by the digest of its artifact: the row names a blob, and a blob that
is not stored is fetched from where the row says and checked against the row's digest.
Fetching and reading archives lie outside and are parameters; so is the hash.
-/

namespace Peryx.Pypi
open Storage

inductive SiblingError where
  | fileNotFound
  | upstream (status : Option Nat)
  | limitExceeded
  | digestMismatch
  | other (text : Str)
  deriving Repr, DecidableEq

def Addressed (sha256 : Bytes → Str) (blobs : BlobStore) : Prop :=
  ∀ (digest : Str) (content : Bytes), blobs[digest]? = some content → sha256 content = digest

theorem putBlob_getElem? (sha256 : Bytes → Str) (blobs : BlobStore) (content : Bytes) (digest : Str) :
    (putBlob sha256 blobs content)[digest]? =
      if blobs[digest]? = none ∧ sha256 content = digest then some content else blobs[digest]? := by
  unfold putBlob
  rw [Std.ExtTreeMap.getElem?_insertIfNew]
  by_cases hkey : sha256 content = digest
  · rw [hkey]
    cases h : blobs[digest]? with
    | none =>
      have hmem : digest ∉ blobs := by
        rw [Std.ExtTreeMap.mem_iff_isSome_getElem?, h]
        nofun
      rw [if_pos ⟨Std.ReflCmp.compare_self, hmem⟩, if_pos ⟨rfl, rfl⟩]
    | some old =>
      have hmem : digest ∈ blobs := by
        rw [Std.ExtTreeMap.mem_iff_isSome_getElem?, h]
        rfl
      rw [if_neg (fun hc => hc.2 hmem), if_neg (fun hc => nomatch hc.1)]
  · rw [if_neg (fun hc => hkey (Std.LawfulEqCmp.eq_of_compare hc.1)), if_neg (fun hc => hkey hc.2)]

theorem Addressed.putBlob {sha256 : Bytes → Str} {blobs : BlobStore} (h : Addressed sha256 blobs)
    (content : Bytes) : Addressed sha256 (putBlob sha256 blobs content) := by
  intro digest stored hstored
  rw [putBlob_getElem?] at hstored
  split at hstored
  · rename_i hc
    cases hstored
    exact hc.2
  · exact h digest stored hstored

theorem putBlob_keeps (sha256 : Bytes → Str) (blobs : BlobStore) (content : Bytes) (digest : Str)
    (stored : Bytes) (h : blobs[digest]? = some stored) :
    (putBlob sha256 blobs content)[digest]? = some stored := by
  rw [putBlob_getElem?, if_neg (fun hc => nomatch h ▸ hc.1), h]

/-- The stores, and the digests whose metadata upstream lately did not have. -/
structure HostState (sha256 : Bytes → Str) where
  rows : Rows
  blobs : BlobStore
  addressed : Addressed sha256 blobs
  negatives : Finset Str

section Serving
variable {sha256 : Bytes → Str}

def HostState.putBlob (state : HostState sha256) (content : Bytes) : HostState sha256 :=
  { state with
    blobs := Pypi.putBlob sha256 state.blobs content
    addressed := state.addressed.putBlob content }

def HostState.setRows (state : HostState sha256) (rows : Rows) : HostState sha256 :=
  { state with rows := rows }

structure Outside (sha256 : Bytes → Str) where
  /-- `fetch_from_source`: source, routed upstream, URL. -/
  fetch : Str → Option Str → Str → Except SiblingError Bytes
  /-- `generated_metadata_bytes` of a digest, route and filename: the blobs it stores on the
  way, the metadata and the source of the artifact. -/
  generate : HostState sha256 → Str → Str → Str →
    List Bytes × Except SiblingError (Bytes × Option Str)

def generatedMetadataUrl : Str := str "peryx:generated"

variable (outside : Outside sha256)

def writeGeneratedMetadata (state : HostState sha256) (artifactDigest route artifactFilename : Str) :
    Except SiblingError Bytes × HostState sha256 :=
  let (stored, outcome) := outside.generate state artifactDigest route artifactFilename
  let state := stored.foldl HostState.putBlob state
  match outcome with
  | .error error => (.error error, state)
  | .ok (bytes, source) =>
    let state := state.putBlob bytes
    (.ok bytes, state.setRows (state.rows.insert (metadataKey artifactDigest)
      (metadataValue generatedMetadataUrl (sha256 bytes) (source.getD generatedMetadataUrl))))

def maxMetadataBytes : Nat := 16 * 1024 * 1024

def readMetadataBlob (content : Bytes) : Except SiblingError Bytes :=
  if maxMetadataBytes < content.length then .error .limitExceeded else .ok content

def fetchAdvertised (state : HostState sha256) (artifactDigest url metadataDigest source : Str) :
    Except SiblingError Bytes × HostState sha256 :=
  let upstream := (getFileUrl state.rows artifactDigest).bind FileSource.upstream
  match outside.fetch source upstream url with
  | .error (.upstream (some 404)) =>
    (.error .fileNotFound, { state with negatives := insert artifactDigest state.negatives })
  | .error error => (.error error, state)
  | .ok bytes =>
    if sha256 bytes = metadataDigest then (.ok bytes, state.putBlob bytes)
    else (.error .digestMismatch, state)

/-- `metadata_bytes`; the negative keys are kept by artifact digest. -/
def metadataBytes (state : HostState sha256) (artifactDigest route metadataFilename : Str) :
    Except SiblingError Bytes × HostState sha256 :=
  match Str.stripSuffix metadataFilename (str ".metadata") with
  | none => (.error .fileNotFound, state)
  | some artifactFilename =>
    if artifactDigest ∈ state.negatives then (.error .fileNotFound, state)
    else
      match getMetadata state.rows artifactDigest with
      | none => writeGeneratedMetadata outside state artifactDigest route artifactFilename
      | some (url, metadataHex, source) =>
        match digestFromHex metadataHex with
        | none => (.error .fileNotFound, state)
        | some metadataDigest =>
          match state.blobs[metadataDigest]? with
          | some content => (readMetadataBlob content, state)
          | none =>
            if url ≠ generatedMetadataUrl then
              fetchAdvertised outside state artifactDigest url metadataDigest source
            else writeGeneratedMetadata outside state artifactDigest route artifactFilename

def maxProvenanceBytes : Nat := 2 * 1024 * 1024

def provenanceBytes (state : HostState sha256) (artifactDigest : Str) : Except SiblingError Bytes :=
  match getProvenance state.rows artifactDigest with
  | none => .error .fileNotFound
  | some (provenanceHex, _) =>
    match digestFromHex provenanceHex with
    | none => .error .fileNotFound
    | some provenanceDigest =>
      match state.blobs[provenanceDigest]? with
      | none => .error .fileNotFound
      | some content =>
        if maxProvenanceBytes < content.length then .error .limitExceeded else .ok content

section Ingest
variable (table : CaseMap) (pep : Pep440) (parseUploadTime : Str → Option Int)
  (absolutize : Str → Str → Str) (json : RowJson)

def isWheel (filename : Str) : Bool :=
  (pathExtension filename).any fun ext => Str.eqIgnoreAsciiCase ext (str "whl")

def metadataBackfillCandidates (registrations : List Registration) : List (Str × Str) :=
  (registrations.filter fun registration =>
      registration.metadata.isNone && isWheel registration.filename).filterMap
    fun registration => (digestFromHex registration.sha256).map fun digest =>
      (digest, registration.filename)

def backfillCandidate (route : Str) (state : HostState sha256) (candidate : Str × Str) :
    HostState sha256 :=
  if (getMetadata state.rows candidate.1).isSome then state
  else (writeGeneratedMetadata outside state candidate.1 route candidate.2).2

inductive Ingestion where
  | buffered (page : BufferedPage)
  | streamed (page : StreamedPage absolutize)
  | generation (page : SyncedPage)

/-- What one page does to the stores. A streamed page is backfilled when it has been stored,
a page that the transformer refuses is not stored. -/
def ingest (state : HostState sha256) : Ingestion absolutize → HostState sha256
  | .buffered page =>
    state.setRows (putCachedPage json state.rows (page.cachedPage table pep parseUploadTime))
  | .streamed page =>
    match page.summary table pep parseUploadTime absolutize with
    | .error _ => state
    | .ok summary =>
      (metadataBackfillCandidates summary.registrations).foldl
        (backfillCandidate outside page.context.route)
        (state.setRows (putCachedPage json state.rows (page.cachedPage absolutize summary)))
  | .generation page =>
    state.setRows (syncProjectFiles table pep parseUploadTime json state.rows page).2

/-- The sibling rows one page registers, by artifact digest, in order. -/
def Ingestion.siblings (state : HostState sha256) : Ingestion absolutize → List (Str × Bytes)
  | .buffered page => (page.cachedPage table pep parseUploadTime).siblings
  | .streamed page =>
    match page.summary table pep parseUploadTime absolutize with
    | .error _ => []
    | .ok summary => (page.cachedPage absolutize summary).siblings
  | .generation page =>
    (syncProjectFiles table pep parseUploadTime json state.rows page).1.filterMap
      (siblingOf page.source)

def ingestAll (state : HostState sha256) (pages : List (Ingestion absolutize)) : HostState sha256 :=
  pages.foldl (ingest outside table pep parseUploadTime absolutize json) state

def siblingsOf : HostState sha256 → List (Ingestion absolutize) → List (Str × Bytes)
  | _, [] => []
  | state, page :: pages =>
    page.siblings table pep parseUploadTime absolutize json state ++
      siblingsOf (ingest outside table pep parseUploadTime absolutize json state page) pages

end Ingest
end Serving
end Peryx.Pypi
