import Peryx.Pypi.Filename
import Peryx.Pypi.Uploads
import Peryx.Storage.Transaction

/-!
# What one hosted mutation commits (peryx-ecosystem-pypi/src/upload.rs, cache/mutate.rs)

The guards and the per-file mutations that the requests on a hosted index run inside their
transactions, and what each of these transactions does to the rows.
-/

/-!
## Transactions on hosted rows (peryx-ecosystem-pypi/src/store/uploads.rs)

A file of a hosted index is one row, an override of a file from a read-only layer another.
Each of these bodies reads the rows it decides on in the transaction that writes them, and
journals one entry for each row it changes.
-/

namespace Peryx.Pypi
open Storage

structure PromotedFile where
  filename : Str
  token : Str
  record : Bytes

structure PromotedRelease where
  index : Str
  normalized : Str
  display : Str
  records : List PromotedFile
  blobSizes : Table Str Nat
  submittedAtUnix : Int

inductive UploadMutation where
  | keep
  | replace (record : Bytes)
  | delete
  deriving Repr, DecidableEq

def fileEntry (action normalized : Str) (version : Option Str) (filename : Str)
    (submittedAtUnix : Int) : JournalEntry where
  submittedAtUnix := submittedAtUnix
  action := action
  project := normalized
  version := version
  filename := some filename

def journaled {ε α : Type} (json : UploadJson) (answer : α) (entries : List JournalEntry) :
    TxnEnd ε α :=
  .ok (answer, entries.map json.journalEntry)

section Bodies
variable {ε : Type} (json : UploadJson) (recordVersion : Bytes → Option Str)

def journalVersion (filename : Str) (record : Bytes) : Option Str :=
  (recordVersion record).or (distributionVersionSegment filename)

def publishFileTxn (file : PublishedFile) (guard : Option Bytes → Except ε Guard) :
    Prog DriverTxn (TxnEnd ε Bool) := do
  match guard (← txnGet (uploadKey file.index file.normalized file.filename)) with
  | .error error => pure (.error error)
  | .ok .skip => pure (journaled json false [])
  | .ok .commit =>
    file.ops.forM TxnOp.call
    pure (journaled json true [file.entry])

def PromotedRelease.entry (release : PromotedRelease) (file : PromotedFile) : JournalEntry :=
  fileEntry (str "add-file") release.normalized
    (journalVersion recordVersion file.filename file.record) file.filename release.submittedAtUnix

/-- The row of one promoted file, and its blob when the size is known. -/
def PromotedRelease.ops (release : PromotedRelease) (file : PromotedFile) : List TxnOp :=
  .put (uploadKey release.index release.normalized file.filename) file.record ::
    (release.blobSizes[file.token]?.elim [] fun size => [.referenceBlob file.token size])

def promoteRecords (release : PromotedRelease)
    (guard : Str → Str → Option Bytes → Except ε Guard) :
    List PromotedFile → Nat → List JournalEntry →
      Prog DriverTxn (Except ε (Nat × List JournalEntry))
  | [], written, journal => pure (.ok (written, journal))
  | file :: files, written, journal => do
    let existing ← txnGet (uploadKey release.index release.normalized file.filename)
    match guard file.filename file.token existing with
    | .error error => pure (.error error)
    | .ok .skip => promoteRecords release guard files written journal
    | .ok .commit =>
      (release.ops file).forM TxnOp.call
      promoteRecords release guard files (written + 1)
        (journal ++ [release.entry recordVersion file])

def promoteFilesTxn (release : PromotedRelease)
    (guard : Str → Str → Option Bytes → Except ε Guard) : Prog DriverTxn (TxnEnd ε Nat) := do
  match ← promoteRecords recordVersion release guard release.records 0 [] with
  | .error error => pure (.error error)
  | .ok (0, _) => pure (journaled json 0 [])
  | .ok (written + 1, journal) =>
    txnPut (projectKey release.index release.normalized) release.display
    pure (journaled json (written + 1) journal)

def mutateRows (index normalized action : Str) (submittedAtUnix : Int)
    (mutate : Str → Bytes → Except ε UploadMutation) :
    List (Str × Bytes) → List JournalEntry → Prog DriverTxn (Except ε (List JournalEntry))
  | [], journal => pure (.ok journal)
  | (key, record) :: rows, journal => do
    let filename := key.drop (projectUploadsPrefix index normalized).length
    let entry := fileEntry action normalized (journalVersion recordVersion filename record) filename
      submittedAtUnix
    match mutate filename record with
    | .error error => pure (.error error)
    | .ok .keep => mutateRows index normalized action submittedAtUnix mutate rows journal
    | .ok (.replace bytes) =>
      txnPut key bytes
      mutateRows index normalized action submittedAtUnix mutate rows (journal ++ [entry])
    | .ok .delete =>
      txnRemove key
      mutateRows index normalized action submittedAtUnix mutate rows (journal ++ [entry])

def mutateUploadsTxn (index normalized action : Str) (submittedAtUnix : Int)
    (mutate : Str → Bytes → Except ε UploadMutation) : Prog DriverTxn (TxnEnd ε Nat) := do
  let rows ← txnPrefix (projectUploadsPrefix index normalized)
  match ← mutateRows recordVersion index normalized action submittedAtUnix mutate rows [] with
  | .error error => pure (.error error)
  | .ok journal => pure (journaled json journal.length journal)

def deleteUploadTxn (index normalized filename : Str) (submittedAtUnix : Int) :
    Prog DriverTxn (TxnEnd ε Bool) := do
  let key := uploadKey index normalized filename
  match ← txnGet key with
  | some record =>
    txnRemove key
    pure (journaled json true [fileEntry (str "delete-file") normalized
      (journalVersion recordVersion filename record) filename submittedAtUnix])
  | none => pure (journaled json false [])

def hidden : Str := str "hidden"

def putOverrideTxn (index normalized filename kind : Str) (submittedAtUnix : Int) :
    Prog DriverTxn (TxnEnd ε Unit) := do
  let key := overrideKey index normalized filename
  if (← txnGet key) = some kind then pure (journaled json () [])
  else
    txnPut key kind
    let action := if kind = hidden then str "hide" else str "yank"
    pure (journaled json () [fileEntry action normalized (distributionVersionSegment filename)
      filename submittedAtUnix])

def deleteOverrideTxn (index normalized filename : Str) (submittedAtUnix : Int) :
    Prog DriverTxn (TxnEnd ε Bool) := do
  let key := overrideKey index normalized filename
  match ← txnGet key with
  | none => pure (journaled json false [])
  | some prior =>
    txnRemove key
    let action := if prior = hidden then str "restore" else str "unyank"
    pure (journaled json true [fileEntry action normalized (distributionVersionSegment filename)
      filename submittedAtUnix])

end Bodies

/-- `list_upload_entries`, in one snapshot. -/
def listUploadEntries (rows : Rows) (index normalized : Str) : List (Str × Bytes) :=
  let start := projectUploadsPrefix index normalized
  (keysUnder rows start).filterMap fun key =>
    (rows[key]?).map fun record => (key.drop start.length, record)

def listOverrides (rows : Rows) (index normalized : Str) : List (Str × Str) :=
  let start := projectOverridesPrefix index normalized
  (keysUnder rows start).filterMap fun key =>
    ((rows[key]?).bind Str.fromUtf8).map fun kind => (key.drop start.length, kind)

end Peryx.Pypi

namespace Peryx.Pypi
open Storage

structure TrashContext where
  deletedAtUnix : Int
  actor : Option Str
  reason : Option Str
  deriving Repr, DecidableEq

inductive HostedError where
  | upload (error : UploadStoreError)
  | notVolatile
  deriving Repr, DecidableEq

def TrashContext.info (trash : TrashContext) : TrashInfo :=
  ⟨trash.deletedAtUnix, trash.actor, trash.reason⟩

/-- `serde_json` on upload records: what is read back of a written record. The written
form has one metadata member for both of the file's. -/
structure UploadJson.Faithful (json : UploadJson) : Prop where
  read : ∀ uploaded, json.readUploaded (json.uploaded uploaded) =
    some { uploaded with file := uploaded.file.setMetadata uploaded.file.metadata }

section Requests
variable (json : UploadJson) (pep : Pep440) [BEq pep.Version]

def decodeUploaded (record : Bytes) : Except HostedError Uploaded :=
  match json.readUploaded record with
  | some uploaded => .ok uploaded
  | none => .error (.upload .parse)

def promoteConflict (filename digest : Str) (existing : Option Bytes) :
    Except UploadStoreError Guard :=
  uploadConflict json existing digest filename

def otherVersion (version : Option Str) (uploaded : Uploaded) : Bool :=
  version.any fun version => !versionsMatch pep uploaded.version version

def trashUpload (volatile : Bool) (version : Option Str) (trash : TrashContext) (_filename : Str)
    (record : Bytes) : Except HostedError UploadMutation := do
  let uploaded ← decodeUploaded json record
  if otherVersion pep version uploaded || uploaded.trashed.isSome then return .keep
  else if !volatile then .error .notVolatile
  else return .replace (json.uploaded { uploaded with trashed := some trash.info })

def untrashUpload (version : Option Str) (_filename : Str) (record : Bytes) :
    Except HostedError UploadMutation := do
  let uploaded ← decodeUploaded json record
  if uploaded.trashed.isNone || otherVersion pep version uploaded then return .keep
  else return .replace (json.uploaded { uploaded with trashed := none })

def yankUpload (version : Option Str) (yanked : Yanked) (_filename : Str) (record : Bytes) :
    Except HostedError UploadMutation := do
  let uploaded ← decodeUploaded json record
  if otherVersion pep version uploaded || uploaded.file.yanked == yanked then return .keep
  else
    return .replace (json.uploaded
      { uploaded with file := { uploaded.file with yanked := yanked } })

inductive HostedTxn where
  | publish (file : PublishedFile)
  | promote (release : PromotedRelease)
  | yank (index normalized : Str) (version : Option Str) (yanked : Yanked) (submittedAtUnix : Int)
  | trash (index normalized : Str) (volatile : Bool) (version : Option Str)
      (context : TrashContext)
  | untrash (index normalized : Str) (version : Option Str) (submittedAtUnix : Int)
  | deleteUpload (index normalized filename : Str) (submittedAtUnix : Int)
  | putOverride (index normalized filename kind : Str) (submittedAtUnix : Int)
  | deleteOverride (index normalized filename : Str) (submittedAtUnix : Int)

def HostedTxn.Answer : HostedTxn → Type
  | .publish .. | .deleteUpload .. | .deleteOverride .. => Bool
  | .promote .. | .yank .. | .trash .. | .untrash .. => Nat
  | .putOverride .. => Unit

def yankAction (yanked : Yanked) : Str := if yanked = .no then str "unyank" else str "yank"

variable (recordVersion : Bytes → Option Str)

def HostedTxn.body : (op : HostedTxn) → Prog DriverTxn (TxnEnd HostedError op.Answer)
  | .publish file => publishFileTxn json file fun existing =>
      (uploadConflict json existing file.artifactSha256 file.filename).mapError .upload
  | .promote release => promoteFilesTxn json recordVersion release fun filename digest existing =>
      (promoteConflict json filename digest existing).mapError .upload
  | .yank index normalized version yanked time =>
    mutateUploadsTxn json recordVersion index normalized (yankAction yanked) time
      (yankUpload json pep version yanked)
  | .trash index normalized volatile version context =>
    mutateUploadsTxn json recordVersion index normalized (str "delete-file") context.deletedAtUnix
      (trashUpload json pep volatile version context)
  | .untrash index normalized version time =>
    mutateUploadsTxn json recordVersion index normalized (str "restore") time
      (untrashUpload json pep version)
  | .deleteUpload index normalized filename time =>
    deleteUploadTxn json recordVersion index normalized filename time
  | .putOverride index normalized filename kind time =>
    putOverrideTxn json index normalized filename kind time
  | .deleteOverride index normalized filename time =>
    deleteOverrideTxn json index normalized filename time

/-- The transaction against a store, where one of its store calls may fail. -/
def HostedTxn.apply (op : HostedTxn) (fault : Fault) (store : MetaStore) :
    Except (TxnError HostedError) op.Answer × MetaStore :=
  store.transact (op.body json pep recordVersion) fault

end Requests

end Peryx.Pypi
