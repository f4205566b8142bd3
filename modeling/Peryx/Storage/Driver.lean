import Peryx.Library.Prog
import Peryx.Storage.DriverTxn

/-!
# Single driver operations (peryx-storage/src/meta/index.rs:14-78,142-147)

What an ecosystem does to the stores outside a replicated transaction: each of these is a
transaction of its own, so other requests may run between any two of them.
-/

namespace Peryx.Storage

structure Stores where
  rows : Rows := ∅
  blobs : BlobStore := ∅

def Stores.setRows (stores : Stores) (rows : Rows) : Stores := { stores with rows := rows }

@[simp] theorem Stores.setRows_rows (stores : Stores) (rows : Rows) :
    (stores.setRows rows).rows = rows := rfl

@[simp] theorem Stores.setRows_blobs (stores : Stores) (rows : Rows) :
    (stores.setRows rows).blobs = stores.blobs := rfl

def Stores.putRow (stores : Stores) (key : Str) (value : Bytes) : Stores :=
  stores.setRows (stores.rows.insert key value)

def Stores.eraseRow (stores : Stores) (key : Str) : Stores :=
  stores.setRows (stores.rows.erase key)

theorem Stores.putRow_getElem? (stores : Stores) (key other : Str) (value : Bytes) :
    (stores.putRow key value).rows[other]? =
      if key = other then some value else stores.rows[other]? :=
  Table.getElem?_set stores.rows key other (some value)

theorem Stores.eraseRow_getElem? (stores : Stores) (key other : Str) :
    (stores.eraseRow key).rows[other]? = if key = other then none else stores.rows[other]? :=
  Table.getElem?_set stores.rows key other none

def putDriverValue (key : Str) (value : Bytes) : Prog Stores Unit :=
  Prog.modify fun stores => stores.putRow key value

def getDriverValue (key : Str) : Prog Stores (Option Bytes) :=
  Prog.read fun stores => stores.rows[key]?

def deleteDriverValue (key : Str) : Prog Stores Bool :=
  Prog.transact fun stores => (stores.rows[key]?.isSome, stores.eraseRow key)

def keysUnder (rows : Rows) (start : Str) : List Str :=
  rows.keys.filter fun key => Str.startsWith key start

theorem mem_keysUnder (rows : Rows) (start key : Str) :
    key ∈ keysUnder rows start ↔ rows[key]?.isSome ∧ start <+: key := by
  unfold keysUnder
  rw [List.mem_filter, Str.startsWith_iff, Std.ExtTreeMap.mem_keys,
    Std.ExtTreeMap.mem_iff_isSome_getElem?]

def driverPrefixKeys (start : Str) : Prog Stores (List Str) :=
  Prog.read fun stores => keysUnder stores.rows start

def commitDriverTxn {α : Type} (body : DriverTxn → α × DriverTxn) : Prog Stores α :=
  Prog.transact fun stores =>
    let (answer, txn) := body { table := stores.rows }
    (answer, stores.setRows txn.table)

def DriverTxn.entriesUnder (txn : DriverTxn) (start : Str) : List (Str × Bytes) :=
  txn.table.toList.filter fun row => Str.startsWith row.1 start

theorem DriverTxn.remove_getElem? (txn : DriverTxn) (key other : Str) :
    (txn.remove key).2.table[other]? = if key = other then none else txn.table[other]? := by
  unfold DriverTxn.remove
  split
  · exact Table.getElem?_set txn.table key other none
  · rename_i habsent
    by_cases hkey : key = other
    · rw [if_pos hkey, ← hkey]
      exact habsent
    · rw [if_neg hkey]

structure DriverBatch where
  puts : List (Str × Bytes) := []
  deletes : List Str := []

def lastPut {κ : Type} [DecidableEq κ] : List (κ × Bytes) → κ → Option Bytes
  | [], _ => none
  | (key, value) :: rest, other => (lastPut rest other).or (if key = other then some value else none)

def putAll (rows : Rows) (puts : List (Str × Bytes)) : Rows :=
  puts.foldl (fun rows put => rows.insert put.1 put.2) rows

def commitDriverBatch (rows : Rows) (batch : DriverBatch) : Rows :=
  batch.deletes.foldl (fun rows key => rows.erase key) (putAll rows batch.puts)

theorem lastPut_append {κ : Type} [DecidableEq κ] (a b : List (κ × Bytes)) (key : κ) :
    lastPut (a ++ b) key = (lastPut b key).or (lastPut a key) := by
  induction a with
  | nil => simp [lastPut]
  | cons put a ih => simp only [List.cons_append, lastPut, ih, Option.or_assoc]

theorem lastPut_none {κ : Type} [DecidableEq κ] (puts : List (κ × Bytes)) (key : κ)
    (h : ∀ put ∈ puts, put.1 ≠ key) : lastPut puts key = none := by
  induction puts with
  | nil => rfl
  | cons put puts ih =>
    rw [lastPut, ih fun p hp => h p (List.mem_cons_of_mem _ hp),
      if_neg (h put List.mem_cons_self)]
    rfl

theorem mem_of_lastPut {κ : Type} [DecidableEq κ] (puts : List (κ × Bytes)) (key : κ) (value : Bytes)
    (h : lastPut puts key = some value) : (key, value) ∈ puts := by
  induction puts with
  | nil => cases h
  | cons put puts ih =>
    rw [lastPut, Option.or_eq_some_iff] at h
    rcases h with h | ⟨_, h⟩
    · exact List.mem_cons_of_mem _ (ih h)
    · split at h
      · rename_i hkey
        cases h
        rw [← hkey]
        exact List.mem_cons_self
      · cases h

theorem lastPut_map {κ ι : Type} [DecidableEq κ] [DecidableEq ι] (layout : ι → κ)
    (hinj : ∀ a b, layout a = layout b → a = b) (puts : List (ι × Bytes)) (key : ι) :
    lastPut (puts.map fun put => (layout put.1, put.2)) (layout key) = lastPut puts key := by
  induction puts with
  | nil => rfl
  | cons put puts ih =>
    rw [List.map_cons, lastPut, lastPut, ih]
    congr 1
    by_cases hkey : put.1 = key
    · rw [if_pos hkey, if_pos (congrArg layout hkey)]
    · rw [if_neg hkey, if_neg (mt (hinj _ _) hkey)]

theorem putAll_getElem? (rows : Rows) (puts : List (Str × Bytes)) (key : Str) :
    (putAll rows puts)[key]? = (lastPut puts key).or rows[key]? := by
  induction puts generalizing rows with
  | nil => rfl
  | cons put puts ih =>
    show (putAll (rows.insert put.1 put.2) puts)[key]? = _
    rw [ih, lastPut, Option.or_assoc]
    congr 1
    by_cases hkey : put.1 = key
    · rw [if_pos hkey, hkey]
      exact Table.getElem?_set_self rows key (some put.2)
    · rw [if_neg hkey]
      exact Table.getElem?_set_of_ne rows put.1 key (some put.2) hkey

theorem eraseAll_getElem? (rows : Rows) (keys : List Str) (key : Str) (h : key ∉ keys) :
    (keys.foldl (fun rows key => rows.erase key) rows)[key]? = rows[key]? := by
  induction keys generalizing rows with
  | nil => rfl
  | cons gone keys ih =>
    rw [List.mem_cons, not_or] at h
    rw [List.foldl_cons, ih _ h.2]
    exact Table.getElem?_set_of_ne rows gone key none (Ne.symm h.1)

theorem eraseAll_none (rows : Rows) (keys : List Str) (key : Str) (h : rows[key]? = none) :
    (keys.foldl (fun rows key => rows.erase key) rows)[key]? = none := by
  induction keys generalizing rows with
  | nil => exact h
  | cons gone keys ih =>
    refine ih _ ?_
    by_cases hgone : gone = key
    · rw [hgone]
      exact Table.getElem?_set_self rows key none
    · exact (Table.getElem?_set_of_ne rows gone key none hgone).trans h

theorem commitDriverBatch_getElem? (rows : Rows) (batch : DriverBatch) (key : Str)
    (h : key ∉ batch.deletes) :
    (commitDriverBatch rows batch)[key]? = (lastPut batch.puts key).or rows[key]? := by
  unfold commitDriverBatch
  rw [eraseAll_getElem? _ _ _ h, putAll_getElem?]

def blobHead (digest : Str) : Prog Stores (Option Nat) :=
  Prog.read fun stores => stores.blobs[digest]?.map List.length

def KeepsRow (key : Str) (write : Stores → Stores) : Prop :=
  ∀ stores, (write stores).rows[key]? = stores.rows[key]?

theorem keepsRow_id (key : Str) : KeepsRow key id := fun _ => rfl

theorem always_putDriverValue (key other : Str) (value : Bytes) (h : key ≠ other) :
    (putDriverValue key value).Always (KeepsRow other) := by
  refine Prog.always_modify _ fun stores => ?_
  rw [Stores.putRow_getElem?, if_neg h]

theorem always_deleteDriverValue (key other : Str) (h : key ≠ other) :
    (deleteDriverValue key).Always (KeepsRow other) := by
  refine Prog.always_transact _ fun stores => ?_
  show (stores.eraseRow key).rows[other]? = _
  rw [Stores.eraseRow_getElem?, if_neg h]

end Peryx.Storage
