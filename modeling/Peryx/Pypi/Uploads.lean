import Peryx.Pypi.Store

/-!
# Storing an upload (peryx-ecosystem-pypi/src/upload.rs, store/uploads.rs)

An upload's bytes, its metadata and its provenance go to the blob store under their own
digests; one transaction then writes the rows that name them and the journal entry. The
rows are JSON records whose encoding is a library of its own.
-/

namespace Peryx.Pypi
open Storage

structure TrashInfo where
  deletedAtUnix : Int
  actor : Option Str
  reason : Option Str
  deriving Repr, DecidableEq

structure Uploaded where
  version : Str
  file : File
  trashed : Option TrashInfo := none

structure JournalEntry where
  serial : Nat := 0
  submittedAtUnix : Int
  action : Str
  project : Str
  version : Option Str
  filename : Option Str
  deriving Repr, DecidableEq

structure UploadJson where
  uploaded : Uploaded → Bytes
  readUploaded : Bytes → Option Uploaded
  journalEntry : JournalEntry → Bytes

inductive UploadStoreError where
  | parse
  | fileExists (filename : Str)
  deriving Repr, DecidableEq

inductive Guard where
  | commit
  | skip
  deriving Repr, DecidableEq

structure MetadataSibling where
  url : Str
  metadataSha256 : Str
  size : Nat
  source : Str

structure ProvenanceSibling where
  provenanceSha256 : Str
  size : Nat

structure PublishedFile where
  index : Str
  normalized : Str
  display : Str
  filename : Str
  artifactSha256 : Str
  artifactSize : Nat
  record : Bytes
  version : Str
  submittedAtUnix : Int
  metadata : Option MetadataSibling
  provenance : Option ProvenanceSibling

def PublishedFile.ops (file : PublishedFile) : List TxnOp :=
  [.referenceBlob file.artifactSha256 file.artifactSize] ++
    (file.metadata.elim [] fun sibling =>
      [.put (metadataKey file.artifactSha256)
          (metadataValue sibling.url sibling.metadataSha256 sibling.source),
        .referenceBlob sibling.metadataSha256 sibling.size]) ++
    (file.provenance.elim [] fun sibling =>
      [.put (provenanceKey file.artifactSha256)
          (provenanceValue sibling.provenanceSha256 sibling.size),
        .referenceBlob sibling.provenanceSha256 sibling.size]) ++
    [.put (uploadKey file.index file.normalized file.filename) file.record,
      .put (projectKey file.index file.normalized) file.display]

section Publish
variable (json : UploadJson)

def PublishedFile.entry (file : PublishedFile) : JournalEntry where
  submittedAtUnix := file.submittedAtUnix
  action := str "add-file"
  project := file.normalized
  version := some file.version
  filename := some file.filename

def publishFileIf (store : MetaStore) (file : PublishedFile)
    (guard : Option Bytes → Except UploadStoreError Guard) :
    Except UploadStoreError (Bool × MetaStore) := do
  match ← guard store.rows[uploadKey file.index file.normalized file.filename]? with
  | .skip => return (false, store.commit { table := store.rows } [])
  | .commit =>
    return (true, store.commit (file.ops.foldl TxnOp.stage { table := store.rows })
      [json.journalEntry file.entry])

def uploadConflict (existing : Option Bytes) (digest filename : Str) :
    Except UploadStoreError Guard :=
  match existing with
  | none => .ok .commit
  | some existing =>
    match json.readUploaded existing with
    | none => .error .parse
    | some uploaded =>
      if uploaded.file.sha256 = some digest then .ok .skip else .error (.fileExists filename)

structure PreparedUpload where
  normalized : Str
  displayName : Str
  filename : Str
  content : Bytes
  metadata : Bytes
  provenance : Option Bytes
  attestationPredicateTypes : Std.ExtTreeSet Str
  record : Uploaded
  submittedAtUnix : Int

variable (sha256 : Bytes → Str)

def putBlob (blobs : BlobStore) (content : Bytes) : BlobStore :=
  blobs.insertIfNew (sha256 content) content

def PreparedUpload.publishedFile (prepared : PreparedUpload) (name : Str) : PublishedFile :=
  let metadataDigest := sha256 prepared.metadata
  let hashes : Hashes := Std.ExtTreeMap.ofList [(str "sha256", metadataDigest)]
  { index := name
    normalized := prepared.normalized
    display := prepared.displayName
    filename := prepared.filename
    artifactSha256 := sha256 prepared.content
    artifactSize := prepared.content.length
    record := json.uploaded
      { prepared.record with file := prepared.record.file.setMetadata (.hashes hashes) }
    version := prepared.record.version
    submittedAtUnix := prepared.submittedAtUnix
    metadata := some ⟨str "uploaded", metadataDigest, prepared.metadata.length, name⟩
    provenance := prepared.provenance.map fun document => ⟨sha256 document, document.length⟩ }

def storePrepared (store : MetaStore) (blobs : BlobStore) (name : Str) (prepared : PreparedUpload) :
    Except UploadStoreError (Bool × MetaStore) × BlobStore :=
  let blobs := ([prepared.content, prepared.metadata] ++ prepared.provenance.toList).foldl
    (putBlob sha256) blobs
  (publishFileIf json store (prepared.publishedFile json sha256 name) fun existing =>
    uploadConflict json existing (sha256 prepared.content) prepared.filename, blobs)

end Publish
end Peryx.Pypi
