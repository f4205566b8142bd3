import Peryx.Library.Transition
import Peryx.Pypi.Generations
import Peryx.Storage.LoneCalls

/-! # Syncs of published rows (catalog.rs:81-312, cache/fetch.rs:345-679) -/

namespace Peryx.Pypi
open Storage

inductive SyncError where
  | store (error : MetaFailure)
  | upstream
  | document
  deriving Repr, DecidableEq

inductive SyncOutcome where
  | published (count : Nat)
  | notModified (count : Nat)
  | missing
  deriving Repr, DecidableEq

/-- What upstream answers: the head, and the body if it could be stored. The body is its
entries in order, and whether the document is well-formed to its end. -/
structure Upstream (E H : Type) where
  status : Nat
  etag : Option Str
  lastModified : Option Str
  fetchedAtUnix : Int
  body : Option (H × List E × Bool)

inductive Response (E H : Type) where
  | failed
  | notModified (etag lastModified : Option Str) (fetchedAtUnix : Int)
  | missing
  | document (head : H) (entries : List E) (whole : Bool)

structure SyncKind (A E I H : Type) where
  space : GenerationSpace A
  check : E → Option (Option I)
  limit : Nat
  batch : Nat
  insert : H → Nat → Rows → List I → Nat × Rows
  build : H → Nat → Nat → A
  count : A → Nat
  revalidated : Option Str → Option Str → Int → A → A
  missing : Option Nat
  notActive : Str

namespace SyncKind
variable {A E I H : Type} (kind : SyncKind A E I H)

def response (answer : Option (Upstream E H)) : Response E H :=
  match answer with
  | none => .failed
  | some answer =>
    if answer.status = 304 then
      .notModified answer.etag answer.lastModified answer.fetchedAtUnix
    else if some answer.status = kind.missing then .missing
    else if answer.status ≠ 200 then .failed
    else match answer.body with
      | none => .failed
      | some (head, entries, whole) => .document head entries whole

/-- The active generation, as `catalog_state` and `active_project_generation` give it. -/
def active : Calls SyncError (Option A) := do
  return (← raised .store kind.space.stateCall).active

def putBatch (head : H) (generation : Nat) (items : List I) : Calls SyncError Nat :=
  raised .store (kind.space.put generation fun rows => kind.insert head generation rows items)

/-- `CatalogBatcher` and `FileBatcher` over a document, up to `finish`. -/
def parse (head : H) (generation : Nat) (whole : Bool) :
    Nat → Nat → List I → List E → Calls SyncError Nat
  | _, inserted, batch, [] =>
    if whole then do
      let last ← kind.putBatch head generation batch
      return inserted + last
    else throw (.body .document)
  | seen, inserted, batch, entry :: entries =>
    match kind.check entry with
    | none => throw (.body .document)
    | some admitted =>
      if kind.limit < seen + 1 then throw (.body .document)
      else match admitted with
        | none => parse head generation whole (seen + 1) inserted batch entries
        | some item =>
          if (batch ++ [item]).length = kind.batch then do
            let written ← kind.putBatch head generation (batch ++ [item])
            parse head generation whole (seen + 1) (inserted + written) [] entries
          else parse head generation whole (seen + 1) inserted (batch ++ [item]) entries

def giveUp (rounds generation : Nat) (error : TxnError SyncError) : Calls SyncError Nat := do
  raised .store (kind.space.abort rounds generation)
  throw error

def publishDocument (rounds : Nat) (head : H) (entries : List E) (whole : Bool) :
    Calls SyncError SyncOutcome := do
  let (generation, expectedActive) ← raised .store kind.space.begin
  let count ← tryCatch (kind.parse head generation whole 0 0 [] entries)
    (kind.giveUp rounds generation)
  raised .store (kind.space.publish expectedActive (kind.build head generation count))
  raised .store (kind.space.recover rounds)
  return .published count

def revalidate (etag lastModified : Option Str) (fetchedAtUnix : Int) (previous : Option A) :
    Calls SyncError SyncOutcome :=
  match previous with
  | none => throw (.body (.store (.driverPrecondition kind.notActive)))
  | some previous => do
    raised .store (kind.space.refresh (kind.space.number previous)
      (kind.revalidated etag lastModified fetchedAtUnix))
    return .notModified (kind.count previous)

def answered (rounds : Nat) (previous : Option A) : Response E H → Calls SyncError SyncOutcome
  | .failed => throw (.body .upstream)
  | .notModified etag lastModified fetchedAtUnix =>
    kind.revalidate etag lastModified fetchedAtUnix previous
  | .missing => return .missing
  | .document head entries whole => kind.publishDocument rounds head entries whole

def renew (rounds : Nat) (respond : Option A → Option (Upstream E H)) :
    Calls SyncError SyncOutcome := do
  raised .store (kind.space.recover rounds)
  let previous ← kind.active
  kind.answered rounds previous (kind.response (respond previous))

def coalesced (waited : Bool) : Calls SyncError (Option A) :=
  if waited then kind.active else pure none

def sync (rounds : Nat) (waited : Bool) (respond : Option A → Option (Upstream E H)) :
    Calls SyncError SyncOutcome := do
  match ← kind.coalesced waited with
  | some active => return .notModified (kind.count active)
  | none => kind.renew rounds respond

end SyncKind

section Kinds
variable (table : CaseMap) (json : GenerationJson)

def maxCatalogProjects : Nat := 2000000

def catalogBatch : Nat := 10000

structure SyncHead where
  source : Str
  url : Str
  format : Str
  etag : Option Str
  lastModified : Option Str
  lastSerial : Option Nat
  fetchedAtUnix : Int
  bytes : Nat
  deriving Repr, DecidableEq

/-- Entries are the names of a root page, in the order of the document. -/
def catalogKind (index : Str) : SyncKind CatalogGeneration Str (Str × Str) SyncHead where
  space := catalogSpace json index
  check display :=
    if isValidName display then some (some (normalizeName table display, display)) else none
  limit := maxCatalogProjects
  batch := catalogBatch
  insert _ generation rows projects := insertProjects index generation rows projects
  build head generation projects :=
    { generation, projects
      source := head.source
      url := head.url
      format := head.format
      etag := head.etag
      lastModified := head.lastModified
      lastSerial := head.lastSerial
      fetchedAtUnix := head.fetchedAtUnix
      bytes := head.bytes }
  count := CatalogGeneration.projects
  revalidated := CatalogGeneration.revalidated
  missing := none
  notActive := str "upstream returned 304 without an active catalog"

def syncCatalog (index : Str) (rounds : Nat) (waited : Bool)
    (respond : Option CatalogGeneration → Option (Upstream Str SyncHead)) :
    Calls SyncError SyncOutcome :=
  (catalogKind table json index).sync rounds waited respond

variable (pep : Pep440) (parseUploadTime : Str → Option Int)

structure ProjectSyncHead extends SyncHead where
  versions : List Str
  projectStatus : Option Str
  projectStatusReason : Option Str
  deriving Repr, DecidableEq

/-- Entries are the files of a detail page, in the order of the document. -/
def projectKind (index normalized : Str) (policy : Policy) :
    SyncKind ProjectGeneration File File ProjectSyncHead where
  space := projectSpace json index normalized
  check file :=
    if file.sha256.isNone ||
        !(checkFile table pep parseUploadTime policy .cached normalized file).isOk then some none
    else some (some file)
  limit := maxProjectFiles
  batch := projectFileBatch
  insert head generation rows files :=
    let (inserted, rows) :=
      insertFiles json.toRowJson index normalized generation head.source none rows files
    (inserted.length, rows)
  build head generation files :=
    { generation, files
      source := head.source
      url := head.url
      format := head.format
      etag := head.etag
      lastModified := head.lastModified
      lastSerial := head.lastSerial
      fetchedAtUnix := head.fetchedAtUnix
      bytes := head.bytes
      versions := head.versions
      projectStatus := head.projectStatus
      projectStatusReason := head.projectStatusReason }
  count := ProjectGeneration.files
  revalidated := ProjectGeneration.revalidated
  missing := some 404
  notActive := str "upstream returned 304 without an active project generation"

def syncProjectFilesCall (index normalized : Str) (policy : Policy) (rounds : Nat) (waited : Bool)
    (respond : Option ProjectGeneration → Option (Upstream File ProjectSyncHead)) :
    Calls SyncError SyncOutcome :=
  (projectKind table json pep parseUploadTime index normalized policy).sync rounds waited respond

end Kinds

section Runs
variable {A E I H : Type} (kind : SyncKind A E I H)

structure SyncScript (A E H : Type) where
  rounds : Nat
  waited : Bool
  respond : Option A → Option (Upstream E H)

structure SyncRun (A E H : Type) where
  script : SyncScript A E H
  before : Rows
  left : Prog Disk (Except (TxnError SyncError) SyncOutcome)

structure SyncState (A E H : Type) where
  disk : Disk
  running : Option (SyncRun A E H)
  started : List (SyncScript A E H)

/-- A row of the key that is synced: its state, or under one of its generations. -/
def GenerationSpace.Owns (space : GenerationSpace A) (key : Str) : Prop :=
  key = space.stateKey ∨ ∃ generation, space.rowPrefix generation <+: key

inductive SyncStep (state : SyncState A E H) : SyncState A E H → Prop
  | start (script : SyncScript A E H) (hfree : state.running = none) :
    SyncStep state
      { state with
        running := some ⟨script, state.disk.store.rows,
          (kind.sync script.rounds script.waited script.respond).run⟩
        started := script :: state.started }
  | transaction (run : SyncRun A E H) (write : Disk → Disk)
    (next : Disk → Prog Disk (Except (TxnError SyncError) SyncOutcome))
    (hrun : state.running = some run) (hleft : run.left = .step write next) :
    SyncStep state
      { state with
        disk := write state.disk
        running := some { run with left := next state.disk } }
  /-- The lock is released: the sync has returned, was dropped, or the process has crashed. -/
  | stop (run : SyncRun A E H) (hrun : state.running = some run) :
    SyncStep state { state with running := none }
  | others (disk : Disk) (hrows : Disk.Others kind.space.Owns state.disk disk) :
    SyncStep state { state with disk := disk }

def syncSystem : System (SyncState A E H) where
  start state := state.running = none ∧ state.started = [] ∧
    ∀ key, kind.space.Owns key → state.disk.store.rows[key]? = none
  step := SyncStep kind

end Runs
end Peryx.Pypi
