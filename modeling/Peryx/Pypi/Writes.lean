import Peryx.Pypi.Admin
import Peryx.Pypi.CanonicalPages
import Peryx.Pypi.HostedDetail
import Peryx.Pypi.Siblings
import Peryx.Pypi.Syncs
import Peryx.Storage.BlobFiles

/-!
# What requests write (cache/fetch.rs:249-342, cache/page_stream/, cache/mutate.rs:76-260)

The transactions that pages, syncs, uploads and mutations commit.
-/

namespace Peryx.Pypi
open Storage

structure WriteJson extends PageJson, UploadJson where
  fromSlice : Bytes → Option Json

/-- The maintenance commands read a page's body with `parse_detail`. -/
def WriteJson.admin (json : WriteJson) : AdminJson where
  toPageJson := json.toPageJson
  toUploadJson := json.toUploadJson
  parseDetail body := (parseDetail (json.fromSlice body)).toOption.map fun parsed =>
    { info := parsed.info, name := parsed.name, versions := parsed.versions, files := parsed.files }

section Pages
variable (json : WriteJson) (urls : UrlParser)

def buildRecord (raw : Bytes) (base : Str) (etag : Option Str) (lastSerial : Option Nat)
    (freshSecs : Option Int) (now : Int) : CachedIndex where
  etag := etag
  lastSerial := lastSerial
  fetchedAtUnix := now
  contentType := some (str "application/vnd.pypi.simple.v1+json")
  freshSecs := freshSecs
  body := (Stored.canonicalJson json.fromSlice urls raw base).toOption.getD raw

structure ParsedPage where
  page : BufferedPage
  record : CachedIndex
  encoded : page.record = record.encode json.toPageJson
  parsed : json.admin.parseDetail record.body = some page.detail

structure LivePage where
  page : StreamedPage urls.absolutize
  raw : Bytes
  base : Str
  etag : Option Str
  lastSerial : Option Nat
  freshSecs : Option Int
  fetchedAt : Int
  resolved : page.context.base = some base
  encoded : page.record =
    (buildRecord json urls raw base etag lastSerial freshSecs fetchedAt).encode json.toPageJson

variable (table : CaseMap) (pep : Pep440) (parseUploadTime : Str → Option Int)

def persistPage (rows : Rows) (page : ParsedPage json) : Rows :=
  putCachedPage json.toRowJson rows (page.page.cachedPage table pep parseUploadTime)

def persistStreamed (rows : Rows) (live : LivePage json urls) : Rows :=
  match live.page.summary table pep parseUploadTime urls.absolutize with
  | .error _ => rows
  | .ok summary => putCachedPage json.toRowJson rows (live.page.cachedPage urls.absolutize summary)

end Pages

inductive SyncTxn (A I H : Type)
  | sweep (keys : List Str)
  | clear (seen : Publication A)
  | begin
  | put (head : H) (generation : Nat) (items : List I)
  | publish (expectedActive : Option Nat) (generation : A)
  | abort (generation : Nat)
  | refresh (expected : Nat) (etag lastModified : Option Str) (fetchedAtUnix : Int)

def committedRows {ε α : Type} (rows : Rows) : Except ε α × Rows → Rows
  | (.ok _, after) => after
  | (.error _, _) => rows

section Syncs
variable {A E I H : Type} (kind : SyncKind A E I H)

def SyncTxn.commit (rows : Rows) : SyncTxn A I H → Rows
  | .sweep keys => commitDriverBatch rows { deletes := keys }
  | .clear seen => committedRows rows (kind.space.clearTxn seen rows)
  | .begin => committedRows rows (kind.space.beginTxn rows)
  | .put head generation items => committedRows rows
      (kind.space.putTxn generation (fun rows => kind.insert head generation rows items) rows)
  | .publish expectedActive generation =>
    committedRows rows (kind.space.publishTxn expectedActive generation rows)
  | .abort generation => committedRows rows (kind.space.abortTxn generation rows)
  | .refresh expected etag lastModified fetchedAtUnix => committedRows rows
      (kind.space.refreshTxn expected (kind.revalidated etag lastModified fetchedAtUnix) rows)

def SyncTxn.Admitted : SyncTxn A I H → Prop
  | .put _ _ items => ∀ item ∈ items, ∃ entry, kind.check entry = some (some item)
  | _ => True

end Syncs

structure AcceptedUpload extends UploadParts where
  /-- `validate_filename`. -/
  filenameSegment : filename ≠ [] ∧ 0x2F ∉ filename
  /-- `validate_metadata_identity`. -/
  named : displayName ≠ []
  lengthFits : ∀ document, provenance = some document → document.length < 2 ^ 64

def yankOverrideValue : Yanked → Option Str
  | .no => none
  | .yes => some (str "yanked")
  | .reason reason => some (str "\x7b\"kind\":\"yanked\",\"reason\":" ++ Codec.string.write reason ++
      str "\x7d")

inductive HostedWrite where
  | upload (name : Str) (upload : AcceptedUpload)
  | yankUploads (index normalized : Str) (version : Option Str) (yanked : Yanked)
      (submittedAtUnix : Int)
  | trashUploads (index normalized : Str) (volatile : Bool) (version : Option Str)
      (context : TrashContext)
  | untrashUploads (index normalized : Str) (version : Option Str) (submittedAtUnix : Int)
  | deleteUpload (index normalized filename : Str) (submittedAtUnix : Int)
  /-- One round of `set_yanked`, for a served file that is no upload. -/
  | yankServed (index normalized filename : Str) (yanked : Yanked) (submittedAtUnix : Int)
  /-- One round of `remove_files`. -/
  | hideServed (index normalized filename : Str) (submittedAtUnix : Int)
  /-- One round of `restore_files`. -/
  | restoreServed (index normalized filename : Str) (submittedAtUnix : Int)

def HostedWrite.txn (json : UploadJson) (sha256 : Bytes → Str) : HostedWrite → HostedTxn
  | .upload name accepted =>
    .publish ((accepted.toUploadParts.prepared sha256).publishedFile json sha256 name)
  | .yankUploads index normalized version yanked time => .yank index normalized version yanked time
  | .trashUploads index normalized volatile version context =>
    .trash index normalized volatile version context
  | .untrashUploads index normalized version time => .untrash index normalized version time
  | .deleteUpload index normalized filename time => .deleteUpload index normalized filename time
  | .yankServed index normalized filename yanked time =>
    match yankOverrideValue yanked with
    | some value => .putOverride index normalized filename value time
    | none => .deleteOverride index normalized filename time
  | .hideServed index normalized filename time => .putOverride index normalized filename hidden time
  | .restoreServed index normalized filename time => .deleteOverride index normalized filename time

structure Promotion where
  source : Str
  target : Str
  targetRoute : Str
  normalized : Str
  version : Str
  entries : List (Str × Bytes)
  display : Option Str
  submittedAtUnix : Int

structure WriterState where
  store : MetaStore := {}
  seen : List (Str × Bytes) := []

def WriterState.setRows (state : WriterState) (rows : Rows) : WriterState :=
  { state with store := { state.store with rows := rows } }

section Runs
variable (json : WriteJson) (urls : UrlParser)

inductive Write where
  | page (page : ParsedPage json)
  | streamed (live : LivePage json urls)
  | refreshed (key : Str) (overlay : FreshnessOverlay)
  /-- `write_generated_metadata`. -/
  | generated (artifact : Digest) (bytes : Bytes) (source : Option Str)
  | catalog (index : Str) (txn : SyncTxn CatalogGeneration (Str × Str) SyncHead)
  | project (index normalized : Str) (policy : Policy)
      (txn : SyncTxn ProjectGeneration File ProjectSyncHead)
  | hosted (write : HostedWrite) (fault : Fault)
  | promote (promotion : Promotion)
  /-- `delete_project_cache`. -/
  | purge (keys : List Str)
  | read (key : Str)

variable (table : CaseMap) (pep : Pep440) [BEq pep.Version] (parseUploadTime : Str → Option Int)
  (sha256 : Bytes → Str) (recordVersion : Bytes → Option Str)

def Write.commit (state : WriterState) : Write json urls → WriterState
  | .page parsed =>
    state.setRows (persistPage json table pep parseUploadTime state.store.rows parsed)
  | .streamed live =>
    state.setRows (persistStreamed json urls table pep parseUploadTime state.store.rows live)
  | .refreshed key overlay => state.setRows (commitDriverBatch state.store.rows
      { puts := [(freshnessKey key, json.overlay overlay)] })
  | .generated artifact bytes source => state.setRows (state.store.rows.insert
      (metadataKey artifact.hex)
      (metadataValue generatedMetadataUrl (sha256 bytes) (source.getD generatedMetadataUrl)))
  | .catalog index txn =>
    state.setRows (txn.commit (catalogKind table json.toGenerationJson index) state.store.rows)
  | .project index normalized policy txn => state.setRows (txn.commit
      (projectKind table json.toGenerationJson pep parseUploadTime index normalized policy)
      state.store.rows)
  | .hosted write fault =>
    { state with store :=
        ((write.txn json.toUploadJson sha256).apply json.toUploadJson pep recordVersion fault
          state.store).2 }
  | .promote promotion =>
    match promoteRelease json.toUploadJson pep recordVersion promotion.entries promotion.display
      promotion.source promotion.target promotion.targetRoute promotion.normalized promotion.version
      promotion.submittedAtUnix state.store with
    | .ok (_, store) => { state with store := store }
    | .error _ => state
  | .purge keys => state.setRows (commitDriverBatch state.store.rows { deletes := keys })
  | .read key => match state.store.rows[key]? with
    | some raw => { state with seen := (key, raw) :: state.seen }
    | none => state

def Write.Enabled (state : WriterState) : Write json urls → Prop
  | .catalog index txn => txn.Admitted (catalogKind table json.toGenerationJson index)
  | .project index normalized policy txn => txn.Admitted
      (projectKind table json.toGenerationJson pep parseUploadTime index normalized policy)
  | .promote promotion =>
    (∀ entry ∈ promotion.entries,
      (uploadKey promotion.source promotion.normalized entry.1, entry.2) ∈ state.seen) ∧
    ∀ display, promotion.display = some display →
      ∃ raw, (projectKey promotion.source promotion.normalized, raw) ∈ state.seen ∧
        Str.fromUtf8 raw = some display
  | _ => True

def writers (allowed : WriterState → Write json urls → Prop) : System WriterState where
  start state := state = {}
  step state next := ∃ write : Write json urls, allowed state write ∧
    write.Enabled json urls table pep parseUploadTime state ∧
    next = write.commit json urls table pep parseUploadTime sha256 recordVersion state

end Runs
end Peryx.Pypi
