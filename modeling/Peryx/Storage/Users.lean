import Peryx.Core.Numeral
import Peryx.Identity.User
import Peryx.Library.LookupTable
import Peryx.Library.Transition

/-! # Server users in the store (peryx-storage/src/meta/user.rs) -/

namespace Peryx.Users
open Identity Numeral

inductive UserStoreError where
  | store
  | name (error : UserNameError)
  | duplicateName (canonicalName : Str)
  | notFound (id : Str)
  | overflow
  deriving Repr, DecidableEq

structure UserTables where
  user : Table Str ServerUser := ∅
  name : Table Str Str := ∅
  event : Table Str UserLifecycleEvent := ∅

abbrev UserTxn (α : Type) := UserTables → Except UserStoreError (α × UserTables)

def UserTxn.run {α : Type} (txn : UserTxn α) (tables : UserTables) :
    Except UserStoreError α × UserTables :=
  match txn tables with
  | .ok (answer, staged) => (.ok answer, staged)
  | .error error => (.error error, tables)

def eventKey (userId : Str) (sequence : Nat) : Str := userId ++ 0x2F :: padded 10 20 sequence

def UserTables.appendEvent (tables : UserTables) (event : UserLifecycleEvent) : UserTables :=
  { tables with event := tables.event.insert (eventKey event.userId event.sequence) event }

def UserTables.writeUser (tables : UserTables) (user : ServerUser) : UserTables :=
  { tables with user := tables.user.insert user.id user }

def nextRevision (user : ServerUser) : Except UserStoreError Nat :=
  if user.revision + 1 < 2 ^ 64 then .ok (user.revision + 1) else .error .overflow

section Operations
variable (folding : NameFolding)

def newName (value : Str) : Except UserStoreError UserName :=
  match folding.userName value with
  | .ok name => .ok name
  | .error error => .error (.name error)

def createUser (id : Str) (displayName : Str) : UserTxn ServerUser := fun tables => do
  let name ← newName folding displayName
  if tables.name[name.canonical]? ≠ none then throw (.duplicateName name.canonical)
  let user : ServerUser := ⟨id, name, .active, 1⟩
  let tables := tables.writeUser user
  let tables := { tables with name := tables.name.insert user.name.canonical user.id }
  let tables := tables.appendEvent ⟨user.id, user.revision, .created user.name.display⟩
  return (user, tables)

def renameUser (id : Str) (displayName : Str) : UserTxn ServerUser := fun tables => do
  let name ← newName folding displayName
  let some user := tables.user[id]? | throw (.notFound id)
  if user.name = name then return (user, tables)
  let names ←
    if user.name.canonical ≠ name.canonical then
      if tables.name[name.canonical]? ≠ none then throw (.duplicateName name.canonical)
      else pure ((tables.name.erase user.name.canonical).insert name.canonical user.id)
    else pure tables.name
  let tables := { tables with name := names }
  let previous := user.name.display
  let revision ← nextRevision user
  let user := { user with name := name, revision := revision }
  let tables := tables.writeUser user
  let tables := tables.appendEvent ⟨user.id, user.revision, .renamed previous user.name.display⟩
  return (user, tables)

def stateChange : UserState → UserLifecycleChange
  | .active => .reactivated
  | .disabled => .disabled

def setUserState (id : Str) (state : UserState) : UserTxn ServerUser := fun tables => do
  let some user := tables.user[id]? | throw (.notFound id)
  if user.state = state then return (user, tables)
  let revision ← nextRevision user
  let user := { user with state := state, revision := revision }
  let tables := tables.writeUser user
  let tables := tables.appendEvent ⟨user.id, user.revision, stateChange state⟩
  return (user, tables)

end Operations

def userEvents (tables : UserTables) (id : Str) : List UserLifecycleEvent :=
  (tables.event.toList.filter fun row =>
    (compare (id ++ [0x2F]) row.1).isLE && (compare row.1 (id ++ [0x2F, 0x7E])).isLT).map Prod.snd

def IsUserId (id : Str) : Prop := ∃ uuid : Str, uuid.length = 32 ∧ id = str "usr_" ++ uuid

inductive UserOp where
  | create (id displayName : Str)
  | rename (id displayName : Str)
  | setState (id : Str) (state : UserState)
  | failed
  deriving Repr, DecidableEq

structure UserStore where
  tables : UserTables := {}
  drawn : List Str := []

variable (folding : NameFolding)

def UserOp.run (op : UserOp) (tables : UserTables) : Except UserStoreError ServerUser × UserTables :=
  match op with
  | .create id displayName => (createUser folding id displayName).run tables
  | .rename id displayName => (renameUser folding id displayName).run tables
  | .setState id state => (setUserState id state).run tables
  | .failed => (.error .store, tables)

def UserOp.draw : UserOp → List Str
  | .create id _ => [id]
  | _ => []

def userSystem : System UserStore where
  start store := store = {}
  step store next := ∃ op : UserOp, (∀ id ∈ op.draw, IsUserId id ∧ id ∉ store.drawn) ∧
    next = ⟨(op.run folding store.tables).2, op.draw ++ store.drawn⟩

end Peryx.Users
