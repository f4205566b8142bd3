import Peryx.Core.Text
import Peryx.Library.Table

/-!
# The quota ledger (peryx-storage/src/meta/quota.rs)

Reservations and the counters they charge. A subtraction below zero is not an error of the
source but a fault of its own here.
-/

namespace Peryx.Quota

inductive AccountingClass where
  | hosted
  | cached
  | generated
  | trash
  deriving Repr, DecidableEq

inductive QuotaReservationState where
  | reserved
  | committed
  deriving Repr, DecidableEq

structure QuotaValue where
  committed : Nat := 0
  reserved : Nat := 0
  deriving Repr, DecidableEq

abbrev References := QuotaValue

structure QuotaUsage where
  fileBytes : QuotaValue := {}
  accountedBytes : QuotaValue := {}
  projects : QuotaValue := {}
  deriving Repr, DecidableEq

structure ProjectUsage where
  references : References := {}
  versions : QuotaValue := {}
  deriving Repr, DecidableEq

structure BlobUsage where
  bytes : Nat := 0
  references : References := {}
  deriving Repr, DecidableEq

inductive QuotaLimit where
  | fileBytes
  | accountedBytes
  | projects
  | versionsPerProject
  deriving Repr, DecidableEq

structure QuotaLimits where
  maxFileBytes : Option Nat := none
  maxAccountedBytes : Option Nat := none
  maxProjects : Option Nat := none
  maxVersionsPerProject : Option Nat := none
  audit : Bool := false
  deriving Repr, DecidableEq

structure NewQuotaReservation where
  repository : Str
  project : Option Str
  version : Option Str
  digest : Str
  bytes : Nat
  accountingClass : AccountingClass
  createdAtUnix : Int
  deriving Repr, DecidableEq

structure QuotaReservationRecord where
  id : Nat
  repository : Str
  project : Option Str
  version : Option Str
  digest : Str
  bytes : Nat
  accountingClass : AccountingClass
  state : QuotaReservationState
  createdAtUnix : Int
  violations : List QuotaLimit
  deriving Repr, DecidableEq

inductive QuotaError where
  | empty (field : Str)
  | fieldTooLong (field : Str) (max : Nat)
  | versionWithoutProject
  | digestSize (digest : Str) (actual requested : Nat)
  | counterOverflow
  | reservationUnavailable (id : Nat)
  | exceeded (violations : List QuotaLimit)
  deriving Repr, DecidableEq

/-- How an operation stops: with one of its errors, or in a counter underflow. -/
inductive Fault where
  | error (error : QuotaError)
  | underflow
  deriving Repr, DecidableEq

abbrev IdentityKey := List Str

instance : Std.TransOrd IdentityKey := inferInstanceAs (Std.TransOrd (List Str))

instance : Std.LawfulEqOrd IdentityKey := inferInstanceAs (Std.LawfulEqOrd (List Str))

def blobKey (repository digest : Str) : IdentityKey := [repository, digest]

def projectKey (repository : Str) (project : Option Str) : Option IdentityKey :=
  project.map fun project => [repository, project]

def versionKey (repository : Str) (project version : Option Str) : Option IdentityKey :=
  match project, version with
  | some project, some version => some [repository, project, version]
  | _, _ => none

/-- The tables `QUOTA_USAGE` to `QUOTA_PENDING`. A UUID is its 128-bit number. -/
structure Ledger where
  usage : Table Str QuotaUsage := ∅
  project : Table IdentityKey ProjectUsage := ∅
  version : Table IdentityKey References := ∅
  blob : Table IdentityKey BlobUsage := ∅
  reservation : Table Nat QuotaReservationRecord := ∅
  pending : Table Nat Unit := ∅

/-- `read_record(..).unwrap_or_default()`. -/
def usageAt (usage : Table Str QuotaUsage) (repository : Str) : QuotaUsage :=
  usage[repository]?.getD {}

def u64Max : Nat := 2 ^ 64 - 1

def QuotaValue.total (value : QuotaValue) : Nat := min (value.committed + value.reserved) u64Max

def addU64 (a b : Nat) : Option Nat := if a + b ≤ u64Max then some (a + b) else none

def checkedAdd (value amount : Nat) : Except Fault Nat :=
  match addU64 value amount with
  | some sum => .ok sum
  | none => .error (.error .counterOverflow)

def subtract (value amount : Nat) : Except Fault Nat :=
  if amount ≤ value then .ok (value - amount) else .error .underflow

def ensureTotalAdd (value : QuotaValue) (amount : Nat) : Except Fault Unit :=
  match (addU64 value.committed value.reserved).bind fun total => addU64 total amount with
  | some _ => .ok ()
  | none => .error (.error .counterOverflow)

def moveValue (value : QuotaValue) (amount : Nat) : Except Fault QuotaValue := do
  let reserved ← subtract value.reserved amount
  let committed ← checkedAdd value.committed amount
  return ⟨committed, reserved⟩

def subtractValue (value : QuotaValue) (state : QuotaReservationState) (amount : Nat) :
    Except Fault QuotaValue :=
  match state with
  | .committed => do
    let committed ← subtract value.committed amount
    return { value with committed := committed }
  | .reserved => do
    let reserved ← subtract value.reserved amount
    return { value with reserved := reserved }

def rebalanceOrRemove (value : QuotaValue) (references : References)
    (released : QuotaReservationState) (amount : Nat) : Except Fault QuotaValue :=
  if references.total = 0 then subtractValue value released amount
  else if released = .committed ∧ references.committed = 0 then do
    let committed ← subtract value.committed amount
    let reserved ← checkedAdd value.reserved amount
    return ⟨committed, reserved⟩
  else .ok value

def moveIf (c : Bool) (value : QuotaValue) (amount : Nat) : Except Fault QuotaValue :=
  if c then moveValue value amount else .ok value

/-- What `transition`, `transition_project` and `transition_version` each do to a
group's reference counts and to the counter the group is charged on. -/
def settle (references : References) (charged : QuotaValue) (state : QuotaReservationState)
    (amount : Nat) (commit : Bool) : Except Fault (References × QuotaValue) :=
  if commit then do
    let charged ← moveIf (references.committed == 0) charged amount
    let references ← moveValue references 1
    return (references, charged)
  else do
    let references ← subtractValue references state 1
    let charged ← rebalanceOrRemove charged references state amount
    return (references, charged)

def settleBytes (charged : QuotaValue) (state : QuotaReservationState) (amount : Nat)
    (commit : Bool) : Except Fault QuotaValue :=
  if commit then moveValue charged amount else subtractValue charged state amount

def maxIdentityBytes : Nat := 512

def validateFields : List (Str × Option Str) → Except Fault Unit
  | [] => .ok ()
  | (field, value) :: rest =>
    if value.any List.isEmpty then .error (.error (.empty field))
    else if value.any fun value => maxIdentityBytes < value.length then
      .error (.error (.fieldTooLong field maxIdentityBytes))
    else validateFields rest

def validateRequest (request : NewQuotaReservation) : Except Fault Unit := do
  validateFields
    [(str "repository", some request.repository), (str "project", request.project),
      (str "version", request.version), (str "digest", some request.digest)]
  if request.version.isSome ∧ request.project.isNone then
    .error (.error .versionWithoutProject)
  else .ok ()

structure ReservationRows where
  usage : QuotaUsage
  project : ProjectUsage
  version : References
  blob : BlobUsage
  projectKey : Option IdentityKey
  versionKey : Option IdentityKey
  blobKey : IdentityKey

/-- `ReservationRows::read` (`quota.rs:323-376`). -/
def ReservationRows.read (ledger : Ledger) (request : NewQuotaReservation) :
    Except Fault ReservationRows :=
  let projectKey := Quota.projectKey request.repository request.project
  let versionKey := Quota.versionKey request.repository request.project request.version
  let blobKey := Quota.blobKey request.repository request.digest
  let blob := ledger.blob[blobKey]?.getD {}
  if 0 < blob.references.total ∧ blob.bytes ≠ request.bytes then
    .error (.error (.digestSize request.digest blob.bytes request.bytes))
  else .ok {
    usage := usageAt ledger.usage request.repository
    project := (projectKey.bind fun key => ledger.project[key]?).getD {}
    version := (versionKey.bind fun key => ledger.version[key]?).getD {}
    blob := { blob with bytes := request.bytes }
    projectKey := projectKey
    versionKey := versionKey
    blobKey := blobKey }

def exceeds (value : QuotaValue) (amount : Nat) (limit : Option Nat) : Bool :=
  limit.any fun limit => (addU64 value.total amount).all fun total => limit < total

def limitViolations (usage : QuotaUsage) (project : ProjectUsage) (bytes : Nat)
    (addsAccountedBytes addsProject addsVersion : Bool) (limits : QuotaLimits) : List QuotaLimit :=
  (if limits.maxFileBytes.any fun limit => limit < bytes then [.fileBytes] else []) ++
  (if addsAccountedBytes && exceeds usage.accountedBytes bytes limits.maxAccountedBytes then
    [.accountedBytes] else []) ++
  (if addsProject && exceeds usage.projects 1 limits.maxProjects then [.projects] else []) ++
  (if addsVersion && exceeds project.versions 1 limits.maxVersionsPerProject then
    [.versionsPerProject] else [])

def onlyIf (c : Bool) (check : Except Fault Unit) : Except Fault Unit := if c then check else .ok ()

def reserveIf (c : Bool) (value : QuotaValue) (amount : Nat) : Except Fault QuotaValue :=
  if c then do
    let reserved ← checkedAdd value.reserved amount
    return { value with reserved := reserved }
  else .ok value

/-- `ReservationRows::reserve` (`quota.rs:378-430`). -/
def ReservationRows.reserve (rows : ReservationRows) (bytes : Nat) (limits : QuotaLimits) :
    Except Fault (List QuotaLimit × ReservationRows) := do
  let addsProject := rows.projectKey.isSome && rows.project.references.total == 0
  let addsVersion := rows.versionKey.isSome && rows.version.total == 0
  let addsAccountedBytes := rows.blob.references.total == 0
  ensureTotalAdd rows.usage.fileBytes bytes
  onlyIf addsAccountedBytes (ensureTotalAdd rows.usage.accountedBytes bytes)
  onlyIf addsProject (ensureTotalAdd rows.usage.projects 1)
  onlyIf addsVersion (ensureTotalAdd rows.project.versions 1)
  ensureTotalAdd rows.blob.references 1
  onlyIf rows.projectKey.isSome (ensureTotalAdd rows.project.references 1)
  onlyIf rows.versionKey.isSome (ensureTotalAdd rows.version 1)
  let violations := limitViolations rows.usage rows.project bytes addsAccountedBytes addsProject
    addsVersion limits
  onlyIf (!limits.audit && !violations.isEmpty) (.error (.error (.exceeded violations)))
  let fileBytes ← reserveIf true rows.usage.fileBytes bytes
  let accountedBytes ← reserveIf addsAccountedBytes rows.usage.accountedBytes bytes
  let blobReferences ← reserveIf true rows.blob.references 1
  let projects ← reserveIf addsProject rows.usage.projects 1
  let projectReferences ← reserveIf rows.projectKey.isSome rows.project.references 1
  let versions ← reserveIf addsVersion rows.project.versions 1
  let version ← reserveIf rows.versionKey.isSome rows.version 1
  return (violations, { rows with
    usage := ⟨fileBytes, accountedBytes, projects⟩
    project := ⟨projectReferences, versions⟩
    version := version
    blob := { rows.blob with references := blobReferences } })

def insertIf {V : Type} (table : Table IdentityKey V) (key : Option IdentityKey) (row : V) :
    Table IdentityKey V :=
  match key with
  | some key => table.insert key row
  | none => table

def ReservationRows.write (rows : ReservationRows) (ledger : Ledger) (repository : Str) : Ledger :=
  { ledger with
    usage := ledger.usage.insert repository rows.usage
    blob := ledger.blob.insert rows.blobKey rows.blob
    project := insertIf ledger.project rows.projectKey rows.project
    version := insertIf ledger.version rows.versionKey rows.version }

/-- The record `reserve_quota` stores for a request. -/
def NewQuotaReservation.record (request : NewQuotaReservation) (id : Nat)
    (violations : List QuotaLimit) : QuotaReservationRecord where
  id := id
  repository := request.repository
  project := request.project
  version := request.version
  digest := request.digest
  bytes := request.bytes
  accountingClass := request.accountingClass
  state := .reserved
  createdAtUnix := request.createdAtUnix
  violations := violations

/-- `reserve_quota` (`quota.rs:170-200`) with the identifier `Uuid::new_v4` drew. -/
def reserveQuota (ledger : Ledger) (id : Nat) (request : NewQuotaReservation)
    (limits : QuotaLimits) : Except Fault (QuotaReservationRecord × Ledger) := do
  validateRequest request
  let rows ← ReservationRows.read ledger request
  let (violations, rows) ← rows.reserve request.bytes limits
  let reservation := request.record id violations
  let ledger := rows.write ledger request.repository
  return (reservation, { ledger with
    reservation := ledger.reservation.insert id reservation
    pending := ledger.pending.insert id () })

def keepIf {V : Type} (references : References) (row : V) : Option V :=
  if references.total = 0 then none else some row

def transitionVersion (ledger : Ledger) (reservation : QuotaReservationRecord) (commit : Bool)
    (project : ProjectUsage) : Except Fault (ProjectUsage × Ledger) :=
  match versionKey reservation.repository reservation.project reservation.version with
  | none => .ok (project, ledger)
  | some key => do
    let version : References := ledger.version[key]?.getD {}
    let (version, versions) ← settle version project.versions reservation.state 1 commit
    return ({ project with versions := versions },
      { ledger with version := ledger.version.set key (keepIf version version) })

def transitionProject (ledger : Ledger) (reservation : QuotaReservationRecord) (commit : Bool) :
    Except Fault Ledger :=
  match projectKey reservation.repository reservation.project with
  | none => .ok ledger
  | some key => do
    let project : ProjectUsage := ledger.project[key]?.getD {}
    let usage := usageAt ledger.usage reservation.repository
    let (references, projects) ← settle project.references usage.projects reservation.state 1 commit
    let (project, ledger) ← transitionVersion ledger reservation commit
      { project with references := references }
    return { ledger with
      usage := ledger.usage.insert reservation.repository { usage with projects := projects }
      project := ledger.project.set key (keepIf project.references project) }

def transition (ledger : Ledger) (reservation : QuotaReservationRecord) (commit : Bool) :
    Except Fault Ledger := do
  let usage := usageAt ledger.usage reservation.repository
  let key := blobKey reservation.repository reservation.digest
  let blob : BlobUsage := ledger.blob[key]?.getD {}
  let fileBytes ← settleBytes usage.fileBytes reservation.state reservation.bytes commit
  let (references, accountedBytes) ←
    settle blob.references usage.accountedBytes reservation.state reservation.bytes commit
  let ledger := { ledger with
    usage := ledger.usage.insert reservation.repository
      { usage with fileBytes := fileBytes, accountedBytes := accountedBytes }
    blob := ledger.blob.set key (keepIf references { blob with references := references }) }
  transitionProject ledger reservation commit

def release (ledger : Ledger) (id : Nat) : Except Fault (Bool × Ledger) :=
  match ledger.reservation[id]? with
  | none => .ok (false, ledger)
  | some reservation => do
    let ledger ← transition ledger reservation false
    return (true, { ledger with
      reservation := ledger.reservation.erase id
      pending := ledger.pending.erase id })

def commitReservation (ledger : Ledger) (id : Nat) : Except Fault (Bool × Ledger) :=
  match ledger.reservation[id]? with
  | none => .ok (false, ledger)
  | some reservation =>
    if reservation.state = .committed then .ok (false, ledger)
    else do
      let ledger ← transition ledger reservation true
      return (true, { ledger with
        reservation := ledger.reservation.insert id { reservation with state := .committed }
        pending := ledger.pending.erase id })

structure QuotaRepairReport where
  released : Nat := 0
  remaining : Bool := false
  deriving Repr, DecidableEq

def repairAbandoned (ledger : Ledger) (limit : Nat) : Except Fault (QuotaRepairReport × Ledger) :=
  if limit = 0 then .ok ({}, ledger)
  else do
    let ids := ledger.pending.keys.take limit
    let remaining := !(ledger.pending.keys.drop limit).isEmpty
    let ledger ← ids.foldlM (fun ledger id => Prod.snd <$> release ledger id) ledger
    return (⟨ids.length, remaining⟩, ledger)

section Operations
variable {σ ε : Type}

/-- The driver's own tables beside the ledger, which a driver transaction writes
in the same commit. -/
structure Store (σ : Type) where
  driver : σ
  ledger : Ledger

/-- The public operations with their arguments; `id` of a reservation is the drawn one. -/
inductive Op (σ ε : Type) where
  | reserve (id : Nat) (request : NewQuotaReservation) (limits : QuotaLimits)
  | commit (id : Nat)
  | commitDriver (id : Nat) (body : σ → Except ε σ)
  | release (id : Nat)
  | repair (limit : Nat)

def commitDriverTxnWithQuota (store : Store σ) (id : Nat) (body : σ → Except ε σ) :
    Except (ε ⊕ Fault) (Store σ) :=
  match body store.driver with
  | .error e => .error (.inl e)
  | .ok driver =>
    match commitReservation store.ledger id with
    | .error fault => .error (.inr fault)
    | .ok (false, _) => .error (.inr (.error (.reservationUnavailable id)))
    | .ok (true, ledger) => .ok ⟨driver, ledger⟩

def onLedger {α : Type} (store : Store σ) (result : Except Fault (α × Ledger)) :
    Except (ε ⊕ Fault) (Store σ) :=
  match result with
  | .ok (_, ledger) => .ok { store with ledger := ledger }
  | .error fault => .error (.inr fault)

def Op.run (store : Store σ) : Op σ ε → Except (ε ⊕ Fault) (Store σ)
  | .reserve id request limits => onLedger store (reserveQuota store.ledger id request limits)
  | .commit id => onLedger store (commitReservation store.ledger id)
  | .commitDriver id body => commitDriverTxnWithQuota store id body
  | .release id => onLedger store (Quota.release store.ledger id)
  | .repair limit => onLedger store (repairAbandoned store.ledger limit)

def Op.apply (store : Store σ) (op : Op σ ε) : Store σ :=
  match op.run store with
  | .ok store => store
  | .error _ => store

def Op.Fresh (store : Store σ) : Op σ ε → Prop
  | .reserve id _ _ => store.ledger.reservation[id]? = none
  | _ => True

/-- The stores a run of operations leads to. A store error before the commit has
the effect of a failed operation and needs no case of its own. -/
inductive Reachable (ε : Type) : Store σ → Prop where
  | empty (driver : σ) : Reachable ε ⟨driver, {}⟩
  | step (store : Store σ) (op : Op σ ε) (h : Reachable ε store) (hf : op.Fresh store) :
      Reachable ε (op.apply store)

end Operations

end Peryx.Quota
