import Peryx.Pypi.Ingest
import Peryx.Storage.StoreCalls

/-!
# Generations of rows (peryx-ecosystem-pypi/src/store/index.rs:228-486, projects.rs:14-230)
-/

namespace Peryx.Pypi
open Storage

inductive MetaFailure where
  | decode
  | driverPrecondition (reason : Str)
  | panicked
  deriving Repr, DecidableEq

structure Publication (A : Type) where
  active : Option A := none
  staging : Option Nat := none
  retired : Option Nat := none
  nextGeneration : Nat := 0
  deriving Repr, DecidableEq

structure GenerationSpace (A : Type) where
  stateKey : Str
  rowPrefix : Nat → Str
  number : A → Nat
  encode : Publication A → Bytes
  decode : Bytes → Option (Publication A)
  notStaging : Str
  lostReservation : Str
  changed : Str

def deleteBatch : Nat := 10000

/-- Delete the rows under a prefix, a batch at a time. The source goes on until none is left;
`rounds` is how often it looks. -/
def sweepRows (start : Str) : Nat → Calls MetaFailure Unit
  | 0 => throw .store
  | rounds + 1 => do
    let keys ← limitedKeysCall start deleteBatch
    if keys = [] then return ()
    batchCall { deletes := keys }
    sweepRows start rounds

namespace GenerationSpace
variable {A α : Type} (space : GenerationSpace A)

/-- `decode_catalog_state`, `decode_project_meta_state`. -/
def state (rows : Rows) : Except MetaFailure (Publication A) :=
  match rows[space.stateKey]? with
  | none => .ok {}
  | some raw => match space.decode raw with
    | some state => .ok state
    | none => .error .decode

def storeState (rows : Rows) (state : Publication A) : Rows :=
  rows.insert space.stateKey (space.encode state)

def withState (rows : Rows) (f : Publication A → Except MetaFailure α × Rows) :
    Except MetaFailure α × Rows :=
  match space.state rows with
  | .error error => (.error error, rows)
  | .ok state => f state

def clearTxn (seen : Publication A) (rows : Rows) : Except MetaFailure Unit × Rows :=
  space.withState rows fun current =>
    let current := if current.staging = seen.staging then { current with staging := none } else current
    let current := if current.retired = seen.retired then { current with retired := none } else current
    (.ok (), space.storeState rows current)

def beginTxn (rows : Rows) : Except MetaFailure (Nat × Option Nat) × Rows :=
  space.withState rows fun state =>
    let next := state.nextGeneration + 1
    (.ok (next, state.active.map space.number),
      space.storeState rows { state with nextGeneration := next, staging := some next })

def putTxn (generation : Nat) (insert : Rows → α × Rows) (rows : Rows) :
    Except MetaFailure α × Rows :=
  space.withState rows fun state =>
    if state.staging ≠ some generation then (.error (.driverPrecondition space.notStaging), rows)
    else
      let (answer, rows) := insert rows
      (.ok answer, rows)

def publishTxn (expectedActive : Option Nat) (generation : A) (rows : Rows) :
    Except MetaFailure Unit × Rows :=
  space.withState rows fun state =>
    if state.staging ≠ some (space.number generation) ∨
        state.active.map space.number ≠ expectedActive then
      (.error (.driverPrecondition space.lostReservation), rows)
    else
      (.ok (), space.storeState rows
        { state with
          retired := state.active.map space.number
          active := some generation
          staging := none })

def abortTxn (generation : Nat) (rows : Rows) : Except MetaFailure Unit × Rows :=
  space.withState rows fun state =>
    if state.staging = some generation then
      (.ok (), space.storeState rows { state with staging := none })
    else (.ok (), rows)

def refreshTxn (expected : Nat) (touch : A → A) (rows : Rows) : Except MetaFailure Unit × Rows :=
  space.withState rows fun state =>
    match state.active.filter fun active => space.number active = expected with
    | some active => (.ok (), space.storeState rows { state with active := some (touch active) })
    | none => (.error (.driverPrecondition space.changed), rows)

def stateCall : Calls MetaFailure (Publication A) := rowsCall fun rows => (space.state rows, rows)

def recover (rounds : Nat) : Calls MetaFailure Unit := do
  let state ← space.stateCall
  ([state.staging, state.retired].filterMap id).forM fun generation =>
    sweepRows (space.rowPrefix generation) rounds
  rowsCall (space.clearTxn state)

def begin : Calls MetaFailure (Nat × Option Nat) := rowsCall space.beginTxn

def put (generation : Nat) (insert : Rows → α × Rows) : Calls MetaFailure α :=
  rowsCall (space.putTxn generation insert)

def publish (expectedActive : Option Nat) (generation : A) : Calls MetaFailure Unit :=
  rowsCall (space.publishTxn expectedActive generation)

def abort (rounds generation : Nat) : Calls MetaFailure Unit := do
  sweepRows (space.rowPrefix generation) rounds
  rowsCall (space.abortTxn generation)

def refresh (expected : Nat) (touch : A → A) : Calls MetaFailure Unit :=
  rowsCall (space.refreshTxn expected touch)

end GenerationSpace

structure CatalogGeneration where
  generation : Nat
  source : Str
  url : Str
  format : Str
  etag : Option Str
  lastModified : Option Str
  lastSerial : Option Nat
  fetchedAtUnix : Int
  bytes : Nat
  projects : Nat
  deriving Repr, DecidableEq

abbrev CatalogState := Publication CatalogGeneration

def CatalogGeneration.revalidated (etag lastModified : Option Str) (fetchedAtUnix : Int)
    (active : CatalogGeneration) : CatalogGeneration :=
  { active with
    etag := etag.or active.etag
    lastModified := lastModified.or active.lastModified
    fetchedAtUnix := fetchedAtUnix }

def ProjectGeneration.revalidated (etag lastModified : Option Str) (fetchedAtUnix : Int)
    (active : ProjectGeneration) : ProjectGeneration :=
  { active with
    etag := etag.or active.etag
    lastModified := lastModified.or active.lastModified
    fetchedAtUnix := fetchedAtUnix }

def ProjectMetaState.publication (state : ProjectMetaState) : Publication ProjectGeneration :=
  ⟨state.active, state.staging, state.retired, state.nextGeneration⟩

def Publication.projectMetaState (state : Publication ProjectGeneration) : ProjectMetaState :=
  ⟨state.active, state.staging, state.retired, state.nextGeneration⟩

/-- `serde_json` on the records the published rows hold, and what it reads of other bytes. -/
structure GenerationJson extends RowJson where
  readFile : Bytes → Option File
  catalogState : CatalogState → Bytes
  readCatalogState : Bytes → Option CatalogState

section Spaces
variable (json : GenerationJson)

def catalogPrefix : Str := str "pypi\x00c\x00"

def catalogRowsPrefix : Str := str "pypi\x00g\x00"

def catalogKey (index : Str) : Str := catalogPrefix ++ index

def catalogGenerationPrefix (index : Str) (generation : Nat) : Str :=
  catalogRowsPrefix ++ (index ++ str "/" ++ paddedGeneration generation ++ str "/")

def catalogProjectKey (index : Str) (generation : Nat) (normalized : Str) : Str :=
  catalogGenerationPrefix index generation ++ normalized

def catalogSpace (index : Str) : GenerationSpace CatalogGeneration where
  stateKey := catalogKey index
  rowPrefix := catalogGenerationPrefix index
  number := CatalogGeneration.generation
  encode := json.catalogState
  decode := json.readCatalogState
  notStaging := str "catalog generation is not staging"
  lostReservation := str "catalog publication lost its reservation"
  changed := str "catalog changed during revalidation"

def insertProjects (index : Str) (generation : Nat) : Rows → List (Str × Str) → Nat × Rows
  | rows, [] => (0, rows)
  | rows, (normalized, display) :: projects =>
    let key := catalogProjectKey index generation normalized
    match rows[key]? with
    | none =>
      let (inserted, rows) := insertProjects index generation (rows.insert key display) projects
      (inserted + 1, rows)
    | some current =>
      if display < current then insertProjects index generation (rows.insert key display) projects
      else insertProjects index generation rows projects

def catalogState (index : Str) : Calls MetaFailure CatalogState := (catalogSpace json index).stateCall

def recoverCatalogGenerations (index : Str) (rounds : Nat) : Calls MetaFailure Unit :=
  (catalogSpace json index).recover rounds

def beginCatalogGeneration (index : Str) : Calls MetaFailure (Nat × Option Nat) :=
  (catalogSpace json index).begin

def putCatalogProjects (index : Str) (generation : Nat) (projects : List (Str × Str)) :
    Calls MetaFailure Nat :=
  (catalogSpace json index).put generation fun rows => insertProjects index generation rows projects

def publishCatalogGeneration (index : Str) (expectedActive : Option Nat)
    (generation : CatalogGeneration) : Calls MetaFailure Unit :=
  (catalogSpace json index).publish expectedActive generation

def abortCatalogGeneration (index : Str) (rounds generation : Nat) : Calls MetaFailure Unit :=
  (catalogSpace json index).abort rounds generation

def refreshCatalogGeneration (index : Str) (expected : Nat) (etag lastModified : Option Str)
    (fetchedAtUnix : Int) : Calls MetaFailure Unit :=
  (catalogSpace json index).refresh expected
    (CatalogGeneration.revalidated etag lastModified fetchedAtUnix)

def projectSpace (index normalized : Str) : GenerationSpace ProjectGeneration where
  stateKey := projectMetaKey index normalized
  rowPrefix := projectGenerationPrefix index normalized
  number := ProjectGeneration.generation
  encode state := json.projectState state.projectMetaState
  decode raw := (json.readProjectState raw).map ProjectMetaState.publication
  notStaging := str "project generation is not staging"
  lostReservation := str "project publication lost its reservation"
  changed := str "project changed during revalidation"

def activeProjectGeneration (index normalized : Str) :
    Calls MetaFailure (Option ProjectGeneration) := do
  return (← (projectSpace json index normalized).stateCall).active

def recoverProjectGenerationsCall (index normalized : Str) (rounds : Nat) : Calls MetaFailure Unit :=
  (projectSpace json index normalized).recover rounds

def beginProjectGenerationCall (index normalized : Str) : Calls MetaFailure (Nat × Option Nat) :=
  (projectSpace json index normalized).begin

def putProjectFilesCall (index normalized : Str) (generation : Nat) (source : Str)
    (upstream : Option Str) (files : List File) : Calls MetaFailure Nat :=
  (projectSpace json index normalized).put generation fun rows =>
    let (inserted, rows) :=
      insertFiles json.toRowJson index normalized generation source upstream rows files
    (inserted.length, rows)

def publishProjectGenerationCall (index normalized : Str) (expectedActive : Option Nat)
    (generation : ProjectGeneration) : Calls MetaFailure Unit :=
  (projectSpace json index normalized).publish expectedActive generation

def abortProjectGenerationCall (index normalized : Str) (rounds generation : Nat) :
    Calls MetaFailure Unit :=
  (projectSpace json index normalized).abort rounds generation

def refreshProjectGenerationCall (index normalized : Str) (expected : Nat)
    (etag lastModified : Option Str) (fetchedAtUnix : Int) : Calls MetaFailure Unit :=
  (projectSpace json index normalized).refresh expected
    (ProjectGeneration.revalidated etag lastModified fetchedAtUnix)

def valueOf (key : Str) : Calls MetaFailure Bytes := do
  match ← getCall key with
  | some raw => return raw
  | none => throw (.body .panicked)

def decoded {α : Type} : Option α → Calls MetaFailure α
  | some a => pure a
  | none => throw (.body .decode)

def listProjectFiles (index normalized : Str) : Calls MetaFailure (List File) := do
  match ← activeProjectGeneration json index normalized with
  | none => return []
  | some active =>
    let keys ← keysCall (projectGenerationPrefix index normalized active.generation)
    keys.mapM fun key => do decoded (json.readFile (← valueOf key))

def mergeNames : List (Str × Bytes) → List (Str × Str) → List Str → List Str
  | [], observed, names => names ++ observed.map Prod.snd
  | (normalized, raw) :: rows, observed, names =>
    match observed.lookup normalized with
    | some display =>
      mergeNames rows (observed.filter fun row => row.1 != normalized) (names ++ [display])
    | none => mergeNames rows observed (names ++ (Str.fromUtf8 raw).toList)

def unprefixed (start : Str) (rows : List (Str × Bytes)) : List (Str × Bytes) :=
  rows.map fun row => (row.1.drop start.length, row.2)

def indexProjectsPrefix (index : Str) : Str := projectsPrefix ++ (index ++ str "/")

def visitUnprefixed (start : Str) : Calls MetaFailure (List (Str × Bytes)) :=
  return unprefixed start (← visitCall start)

def listProjects (index : Str) : Calls MetaFailure (List Str) := do
  let rows ← visitUnprefixed (indexProjectsPrefix index)
  let observed := rows.filterMap fun row => (Str.fromUtf8 row.2).map fun display => (row.1, display)
  let listed ← match (← catalogState json index).active with
    | none => pure []
    | some active => visitUnprefixed (catalogGenerationPrefix index active.generation)
  return (mergeNames listed observed []).mergeSort fun a b => (compare a b).isLE

end Spaces
end Peryx.Pypi
