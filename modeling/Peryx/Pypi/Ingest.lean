import Peryx.Core.Path
import Peryx.Pypi.Policy
import Peryx.Pypi.Store

/-!
# Rows an upstream page leaves behind (peryx-ecosystem-pypi/src/store/index.rs, cache, stream)

A page reaches the store in one of three ways: read whole, rewritten while it streams, or
drained into a generation of rows. What reads a document (JSON, HTML), resolves a URL and
encodes a record is a library of its own: the model takes what these give.
-/

namespace Peryx.Pypi
open Storage

def metadataSibling (url : Str) : Str :=
  let cut := url.findIdx fun byte => byte == 0x3F || byte == 0x23
  url.take cut ++ str ".metadata" ++ url.drop cut

def claimedMetadata (file : File) : Option Str :=
  match file.metadata with
  | .hashes hashes => hashes[str "sha256"]?
  | .absent | .available => none

/-- The strings a file registers; a `String` is never anything but a text. -/
structure File.TextRegistered (file : File) : Prop where
  url : file.url.IsUtf8
  metadata : ∀ digest, claimedMetadata file = some digest → digest.IsUtf8

theorem metadataSibling_isUtf8 (url : Str) (h : url.IsUtf8) : (metadataSibling url).IsUtf8 := by
  unfold metadataSibling
  have hfront : ∀ front rest : Str, front ++ rest = url →
      (∀ byte tail, rest = byte :: tail → byte < 0x80) →
      (front ++ str ".metadata" ++ rest).IsUtf8 := by
    intro front rest hsplit hascii
    cases rest with
    | nil =>
      rw [List.append_nil] at hsplit ⊢
      rw [hsplit]
      exact h.append (Str.isUtf8_str _)
    | cons byte tail =>
      rw [← hsplit] at h
      obtain ⟨hf, hr⟩ := Str.isUtf8_split_ascii front tail byte (hascii byte tail rfl) h
      exact (hf.append (Str.isUtf8_str _)).append hr
  refine hfront _ _ (List.take_append_drop _ url) fun byte tail hdrop => ?_
  have hlt : url.findIdx (fun byte => byte == 0x3F || byte == 0x23) < url.length := by
    by_contra hge
    rw [List.drop_eq_nil_of_le (Nat.le_of_not_lt hge)] at hdrop
    cases hdrop
  have hbyte := List.findIdx_getElem (w := hlt)
  rw [List.drop_eq_getElem_cons hlt] at hdrop
  cases hdrop
  simp only [Bool.or_eq_true, beq_iff_eq] at hbyte
  rcases hbyte with hbyte | hbyte <;> rw [hbyte] <;> decide

structure CachedPage where
  key : Str
  record : Bytes
  index : Str
  normalized : Str
  display : Str
  source : Str
  upstream : Option Str
  projectStatus : Option Str
  projectStatusReason : Option Str
  files : List (Str × Str × Option Nat)
  metadata : List (Str × Str × Str)

def CachedPage.siblings (page : CachedPage) : List (Str × Bytes) :=
  page.metadata.map fun (wheelSha256, url, metadataSha256) =>
    (wheelSha256, metadataValue url metadataSha256 page.source)

structure ProjectGeneration where
  generation : Nat
  source : Str
  url : Str
  format : Str
  etag : Option Str
  lastModified : Option Str
  lastSerial : Option Nat
  fetchedAtUnix : Int
  bytes : Nat
  files : Nat
  versions : List Str
  projectStatus : Option Str
  projectStatusReason : Option Str
  deriving Repr, DecidableEq

structure ProjectMetaState where
  active : Option ProjectGeneration := none
  staging : Option Nat := none
  retired : Option Nat := none
  nextGeneration : Nat := 0
  deriving Repr, DecidableEq

structure RowJson where
  statusRecord : Option Str → Option Str → Bytes
  file : File → Bytes
  projectState : ProjectMetaState → Bytes
  readProjectState : Bytes → Option ProjectMetaState

section Rows
variable (json : RowJson)

def putCachedPage (rows : Rows) (page : CachedPage) : Rows :=
  let statusKey := projectStatusKey page.index page.normalized
  let status : List (Str × Bytes) × List Str :=
    match page.projectStatus, page.projectStatusReason with
    | none, none => ([], [statusKey])
    | status, reason => ([(statusKey, json.statusRecord status reason)], [])
  commitDriverBatch rows {
    puts := [(indexKey page.key, page.record),
        (projectKey page.index page.normalized, page.display)] ++ status.1 ++
      (page.files.map fun (sha256, url, size) =>
        (fileKey sha256, fileSourceValue url page.source size page.upstream)) ++
      page.siblings.map fun (artifact, value) => (metadataKey artifact, value)
    deletes := freshnessKey page.key :: status.2 }

inductive GenerationError where
  | decode
  | notStaging
  | lostReservation
  deriving Repr, DecidableEq

def projectMetaState (rows : Rows) (index normalized : Str) :
    Except GenerationError ProjectMetaState :=
  match rows[projectMetaKey index normalized]? with
  | none => .ok {}
  | some raw => match json.readProjectState raw with
    | some state => .ok state
    | none => .error .decode

def storeProjectMetaState (rows : Rows) (index normalized : Str) (state : ProjectMetaState) : Rows :=
  rows.insert (projectMetaKey index normalized) (json.projectState state)

def deleteGenerationRows (rows : Rows) (index normalized : Str) (generation : Nat) : Rows :=
  (keysUnder rows (projectGenerationPrefix index normalized generation)).foldl
    (fun rows key => rows.erase key) rows

def recoverProjectGenerations (rows : Rows) (index normalized : Str) :
    Except GenerationError Unit × Rows :=
  match projectMetaState json rows index normalized with
  | .error error => (.error error, rows)
  | .ok state =>
    let rows := ([state.staging, state.retired].filterMap id).foldl
      (fun rows generation => deleteGenerationRows rows index normalized generation) rows
    match projectMetaState json rows index normalized with
    | .error error => (.error error, rows)
    | .ok current =>
      let current := if current.staging = state.staging then { current with staging := none } else current
      let current := if current.retired = state.retired then { current with retired := none } else current
      (.ok (), storeProjectMetaState json rows index normalized current)

def beginProjectGeneration (rows : Rows) (index normalized : Str) :
    Except GenerationError (Nat × Option Nat) × Rows :=
  match projectMetaState json rows index normalized with
  | .error error => (.error error, rows)
  | .ok state =>
    let next := state.nextGeneration + 1
    (.ok (next, state.active.map ProjectGeneration.generation),
      storeProjectMetaState json rows index normalized
        { state with nextGeneration := next, staging := some next })

def registerFileRows (rows : Rows) (source : Str) (upstream : Option Str) (file : File) : Rows :=
  match file.sha256 with
  | none => rows
  | some sha256 =>
    let rows := rows.insert (fileKey sha256) (fileSourceValue file.url source file.size upstream)
    match claimedMetadata file with
    | none => rows
    | some digest =>
      rows.insert (metadataKey sha256) (metadataValue (metadataSibling file.url) digest source)

def siblingOf (source : Str) (file : File) : Option (Str × Bytes) := do
  let sha256 ← file.sha256
  let digest ← claimedMetadata file
  return (sha256, metadataValue (metadataSibling file.url) digest source)

def insertFiles (index normalized : Str) (generation : Nat) (source : Str) (upstream : Option Str) :
    Rows → List File → List File × Rows
  | rows, [] => ([], rows)
  | rows, file :: files =>
    let key := projectFileKey index normalized generation file.filename
    match rows[key]? with
    | some _ => insertFiles index normalized generation source upstream rows files
    | none =>
      let (inserted, rows) := insertFiles index normalized generation source upstream
        (registerFileRows (rows.insert key (json.file file)) source upstream file) files
      (file :: inserted, rows)

def putProjectFiles (rows : Rows) (index normalized : Str) (generation : Nat) (source : Str)
    (upstream : Option Str) (files : List File) : Except GenerationError (List File × Rows) := do
  let state ← projectMetaState json rows index normalized
  if state.staging ≠ some generation then throw .notStaging
  return insertFiles json index normalized generation source upstream rows files

def publishProjectGeneration (rows : Rows) (index normalized : Str) (expectedActive : Option Nat)
    (generation : ProjectGeneration) : Except GenerationError Rows := do
  let state ← projectMetaState json rows index normalized
  if state.staging ≠ some generation.generation ∨
      state.active.map ProjectGeneration.generation ≠ expectedActive then throw .lostReservation
  return storeProjectMetaState json rows index normalized
    { state with
      retired := state.active.map ProjectGeneration.generation
      active := some generation
      staging := none }

def abortProjectGeneration (rows : Rows) (index normalized : Str) (generation : Nat) : Rows :=
  let rows := deleteGenerationRows rows index normalized generation
  match projectMetaState json rows index normalized with
  | .error _ => rows
  | .ok state =>
    if state.staging = some generation then
      storeProjectMetaState json rows index normalized { state with staging := none }
    else rows

end Rows

section Pages
variable (table : CaseMap) (pep : Pep440) (parseUploadTime : Str → Option Int)

def checkFile (policy : Policy) (action : PolicyAction) (project : Str) (file : File) :
    Except PolicyDenial Unit :=
  policy.checkFacts action (factsFromFile table pep parseUploadTime project file)

structure BufferedPage where
  key : Str
  name : Str
  project : Str
  record : Bytes
  detail : ProjectDetail
  upstream : Option Str
  policy : Policy
  nameText : name.IsUtf8
  filesText : ∀ file ∈ detail.files, file.TextRegistered

def BufferedPage.registered (page : BufferedPage) : List (Str × File) :=
  page.detail.files.filterMap fun file =>
    if (checkFile table pep parseUploadTime page.policy .cached page.project file).isOk then
      match file.sha256 with
      | none => none
      | some sha256 => if Str.startsWith file.url (str "/") then none else some (sha256, file)
    else none

def BufferedPage.cachedPage (page : BufferedPage) : CachedPage where
  key := page.key
  record := page.record
  index := page.name
  normalized := page.project
  display := if page.detail.name = [] then page.project else page.detail.name
  source := page.name
  upstream := page.upstream
  projectStatus := page.detail.info.projectStatus
  projectStatusReason := page.detail.info.projectStatusReason
  files := (page.registered table pep parseUploadTime).map fun (sha256, file) =>
    (sha256, file.url, file.size)
  metadata := (page.registered table pep parseUploadTime).filterMap fun (sha256, file) =>
    (claimedMetadata file).map fun digest => (sha256, metadataSibling file.url, digest)

structure Registration where
  filename : Str
  sha256 : Str
  url : Str
  size : Option Nat
  metadata : Option (Str × Str)
  deriving Repr, DecidableEq

inductive PageItem where
  | name (text : Str)
  | info (info : Meta)
  | file (file : File)

structure PageContext where
  route : Str
  base : Option Str
  project : Str
  policy : Policy
  skip : Finset Str

structure PageProgress where
  name : Str := []
  projectStatus : Option Str
  projectStatusReason : Option Str := none
  filesSeen : Nat := 0
  registrations : List Registration := []

inductive TransformError where
  | tooLarge
  deriving Repr, DecidableEq

def maxPageFiles : Nat := 500000

def pathExtension (filename : Str) : Option Str :=
  match ((Str.split 0x2F filename).filter fun part => part != [] && part != str ".").getLast? with
  | none => none
  | some last =>
    let after := (last.reverse.takeWhile (· != 0x2E)).reverse
    let before := last.take (last.length - after.length - 1)
    if last = str ".." ∨ after = last ∨ before = [] then none else some after

def supportsMetadataSibling (filename : Str) : Bool :=
  (pathExtension filename).any (fun ext => Str.eqIgnoreAsciiCase ext (str "whl")) ||
    Str.eqIgnoreAsciiCase (filename.drop (filename.length - 7)) (str ".tar.gz")

section Stream
variable (absolutize : Str → Str → Str)

/-- The file with its URL resolved against the response's, when there is one. -/
def resolveUrl (base : Option Str) (file : File) : File :=
  match base with
  | some base => { file with url := absolutize base file.url }
  | none => file

def registrationOf (context : PageContext) (file : File) : Option Registration :=
  if Core.isLocalFileUrl context.route file.url then none
  else
    let file := resolveUrl absolutize context.base file
    file.sha256.map fun sha256 =>
      { filename := file.filename
        sha256 := sha256
        url := file.url
        size := file.size
        metadata :=
          if supportsMetadataSibling file.filename then
            (claimedMetadata file).map fun digest => (metadataSibling file.url, digest)
          else none }

def withheld (context : PageContext) (progress : PageProgress) (file : File) : Bool :=
  progress.projectStatus == some (str "quarantined") || decide (file.filename ∈ context.skip) ||
    !(checkFile table pep parseUploadTime context.policy .serve context.project file).isOk

def emitItem (context : PageContext) (progress : PageProgress) :
    PageItem → Except TransformError PageProgress
  | .name text => .ok { progress with name := text }
  | .info info =>
    .ok { progress with
      projectStatus := info.projectStatus
      projectStatusReason := info.projectStatusReason }
  | .file file =>
    let seen := progress.filesSeen + 1
    if maxPageFiles < seen then .error .tooLarge
    else
      let registered :=
        if withheld table pep parseUploadTime context progress file then none
        else registrationOf absolutize context file
      .ok { progress with
        filesSeen := seen
        registrations := progress.registrations ++ registered.toList }

structure StreamedPage where
  key : Str
  name : Str
  project : Str
  record : Bytes
  items : List PageItem
  context : PageContext
  seed : Option Str
  upstream : Option Str
  nameText : name.IsUtf8
  filesText : ∀ file, PageItem.file file ∈ items →
    (resolveUrl absolutize context.base file).TextRegistered

/-- `PageTransformer`, from the captured items to the summary. -/
def StreamedPage.summary (page : StreamedPage absolutize) : Except TransformError PageProgress :=
  page.items.foldlM (emitItem table pep parseUploadTime absolutize page.context)
    { projectStatus := page.seed }

def keptRegistrations (summary : PageProgress) : List Registration :=
  if (summary.projectStatus.bind ProjectStatus.fromMarker).any fun status =>
      !status.offersDownloads then []
  else summary.registrations

def StreamedPage.cachedPage (page : StreamedPage absolutize) (summary : PageProgress) :
    CachedPage where
  key := page.key
  record := page.record
  index := page.name
  normalized := page.project
  display := ((Str.fromUtf8 summary.name).filter fun name => name != []).getD page.project
  source := page.name
  upstream := page.upstream
  projectStatus := summary.projectStatus
  projectStatusReason := summary.projectStatusReason
  files := (keptRegistrations summary).map fun registration =>
    (registration.sha256, registration.url, registration.size)
  metadata := (keptRegistrations summary).filterMap fun registration =>
    registration.metadata.map fun (url, digest) => (registration.sha256, url, digest)

end Stream

def maxProjectFiles : Nat := 2000000

def projectFileBatch : Nat := 10000

inductive SyncFailure where
  | tooManyFiles
  | unreadable
  | store (error : GenerationError)
  deriving Repr, DecidableEq

structure ParsedDetailHeader where
  versions : List Str
  projectStatus : Option Str
  projectStatusReason : Option Str

/-- A `200` drained into a generation: the files the document gave, their URLs resolved,
before it ended or could not be read on. -/
structure SyncedPage where
  index : Str
  project : Str
  source : Str
  policy : Policy
  files : List File
  ending : Except SyncFailure ParsedDetailHeader
  url : Str
  format : Str
  etag : Option Str
  lastModified : Option Str
  lastSerial : Option Nat
  fetchedAtUnix : Int
  bytes : Nat
  sourceText : source.IsUtf8
  filesText : ∀ file ∈ files, file.TextRegistered

structure FileBatcher where
  rows : Rows
  batch : List File := []
  admitted : List File := []
  seen : Nat := 0

section Sync
variable (json : RowJson)

def FileBatcher.flush (page : SyncedPage) (generation : Nat) (batcher : FileBatcher) :
    Except SyncFailure Unit × FileBatcher :=
  match putProjectFiles json batcher.rows page.index page.project generation page.source none
      batcher.batch with
  | .error error => (.error (.store error), batcher)
  | .ok (inserted, rows) =>
    (.ok (), { batcher with rows := rows, admitted := batcher.admitted ++ inserted, batch := [] })

def FileBatcher.file (page : SyncedPage) (generation : Nat) (batcher : FileBatcher) (file : File) :
    Except SyncFailure Unit × FileBatcher :=
  let batcher := { batcher with seen := batcher.seen + 1 }
  if maxProjectFiles < batcher.seen then (.error .tooManyFiles, batcher)
  else if file.sha256.isNone ||
      !(checkFile table pep parseUploadTime page.policy .cached page.project file).isOk then
    (.ok (), batcher)
  else
    let batcher := { batcher with batch := batcher.batch ++ [file] }
    if batcher.batch.length = projectFileBatch then batcher.flush json page generation
    else (.ok (), batcher)

def FileBatcher.drain (page : SyncedPage) (generation : Nat) :
    FileBatcher → List File → Except SyncFailure Unit × FileBatcher
  | batcher, [] => (.ok (), batcher)
  | batcher, file :: files =>
    match batcher.file table pep parseUploadTime json page generation file with
    | (.error error, batcher) => (.error error, batcher)
    | (.ok (), batcher) => batcher.drain page generation files

def parseProject (rows : Rows) (page : SyncedPage) (generation : Nat) :
    Except SyncFailure ParsedDetailHeader × FileBatcher :=
  match FileBatcher.drain table pep parseUploadTime json page generation { rows := rows } page.files with
  | (.error error, batcher) => (.error error, batcher)
  | (.ok (), batcher) =>
    match page.ending with
    | .error error => (.error error, batcher)
    | .ok header =>
      match batcher.flush json page generation with
      | (.error error, batcher) => (.error error, batcher)
      | (.ok (), batcher) => (.ok header, batcher)

def SyncedPage.generationRecord (page : SyncedPage) (generation files : Nat)
    (header : ParsedDetailHeader) : ProjectGeneration where
  generation := generation
  source := page.source
  url := page.url
  format := page.format
  etag := page.etag
  lastModified := page.lastModified
  lastSerial := page.lastSerial
  fetchedAtUnix := page.fetchedAtUnix
  bytes := page.bytes
  files := files
  versions := header.versions
  projectStatus := header.projectStatus
  projectStatusReason := header.projectStatusReason

def syncProjectFiles (rows : Rows) (page : SyncedPage) : List File × Rows :=
  match recoverProjectGenerations json rows page.index page.project with
  | (.error _, rows) => ([], rows)
  | (.ok (), rows) =>
    match beginProjectGeneration json rows page.index page.project with
    | (.error _, rows) => ([], rows)
    | (.ok (generation, expectedActive), rows) =>
      match parseProject table pep parseUploadTime json rows page generation with
      | (.error _, batcher) =>
        (batcher.admitted,
          abortProjectGeneration json batcher.rows page.index page.project generation)
      | (.ok header, batcher) =>
        match publishProjectGeneration json batcher.rows page.index page.project expectedActive
            (page.generationRecord generation batcher.admitted.length header) with
        | .error _ => (batcher.admitted, batcher.rows)
        | .ok rows =>
          (batcher.admitted, (recoverProjectGenerations json rows page.index page.project).2)

end Sync
end Pages

end Peryx.Pypi
