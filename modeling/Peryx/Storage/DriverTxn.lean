import Mathlib.Data.List.Sort
import Std.Data.ExtTreeSet.Lemmas
import Peryx.Core.Text
import Peryx.Library.Table

/-!
# Driver transactions and the journal (peryx-storage/src/meta/index.rs, journal.rs)

A driver transaction changes rows of the neutral key-value table and records journal
entries.
-/

namespace Peryx.Storage

abbrev Bytes := List UInt8

abbrev Rows := Table Str Bytes

abbrev BlobStore := Table Str Bytes

/-- `Digest::from_hex`: 64 lowercase hexadecimal digits, returned as they are. -/
def digestFromHex (hex : Str) : Option Str :=
  if hex.length = 64 ∧ hex.all (fun byte => (0x30 ≤ byte && byte ≤ 0x39) ||
      (0x61 ≤ byte && byte ≤ 0x66)) then some hex
  else none

theorem digestFromHex_eq (hex digest : Str) (h : digestFromHex hex = some digest) : digest = hex := by
  unfold digestFromHex at h
  split at h
  · cases h
    rfl
  · cases h

theorem digest_bytes {hex digest : Str} (h : digestFromHex hex = some digest) :
    ∀ byte ∈ hex, byte < 0x80 ∧ byte ≠ 0x0A := by
  unfold digestFromHex at h
  split at h
  · rename_i hhex
    intro byte hbyte
    have hdigit := List.all_eq_true.mp hhex.2 byte hbyte
    simp only [Bool.or_eq_true, Bool.and_eq_true, decide_eq_true_eq, UInt8.le_iff_toNat_le] at hdigit
    have hlow : (0x30 : UInt8).toNat = 48 ∧ (0x39 : UInt8).toNat = 57 ∧
        (0x61 : UInt8).toNat = 97 ∧ (0x66 : UInt8).toNat = 102 := ⟨rfl, rfl, rfl, rfl⟩
    constructor
    · rw [UInt8.lt_iff_toNat_lt]
      show byte.toNat < 128
      omega
    · rintro rfl
      have : (0x0A : UInt8).toNat = 10 := rfl
      omega
  · cases h

structure DriverBlobReference where
  sha256 : Str
  size : Nat
  deriving Repr, DecidableEq

inductive DriverMutation where
  | put (key : Str) (value : Bytes)
  | delete (key : Str)
  deriving Repr, DecidableEq

def DriverMutation.key : DriverMutation → Str
  | .put key _ => key
  | .delete key => key

def DriverMutation.value : DriverMutation → Option Bytes
  | .put _ value => some value
  | .delete _ => none

def blobLe (a b : DriverBlobReference) : Prop :=
  a.sha256 < b.sha256 ∨ a.sha256 = b.sha256 ∧ a.size ≤ b.size

instance : DecidableRel blobLe := fun _ _ => inferInstanceAs (Decidable (_ ∨ _))

structure DriverTxn where
  table : Rows
  touched : Std.ExtTreeSet Str := ∅
  blobs : List DriverBlobReference := []

def DriverTxn.upsert (txn : DriverTxn) (key : Str) (value : Bytes) : Bool × DriverTxn :=
  (txn.table[key]?.isNone,
    { txn with table := txn.table.insert key value, touched := txn.touched.insert key })

def DriverTxn.put (txn : DriverTxn) (key : Str) (value : Bytes) : DriverTxn :=
  (txn.upsert key value).2

def DriverTxn.putLocal (txn : DriverTxn) (key : Str) (value : Bytes) : DriverTxn :=
  { txn with table := txn.table.insert key value }

/-- `DriverTxn::remove`: removing an absent row touches nothing. -/
def DriverTxn.remove (txn : DriverTxn) (key : Str) : Bool × DriverTxn :=
  match txn.table[key]? with
  | some _ => (true, { txn with table := txn.table.erase key, touched := txn.touched.insert key })
  | none => (false, txn)

def DriverTxn.referenceBlob (txn : DriverTxn) (sha256 : Str) (size : Nat) : DriverTxn :=
  let reference : DriverBlobReference := ⟨sha256, size⟩
  if reference ∈ txn.blobs then txn
  else { txn with blobs := txn.blobs.orderedInsert blobLe reference }

def DriverTxn.mutations (txn : DriverTxn) : List DriverMutation :=
  txn.touched.toList.map fun key => match txn.table[key]? with
    | some value => .put key value
    | none => .delete key

inductive TxnOp where
  | put (key : Str) (value : Bytes)
  | upsert (key : Str) (value : Bytes)
  | putLocal (key : Str) (value : Bytes)
  | remove (key : Str)
  | referenceBlob (sha256 : Str) (size : Nat)
  deriving Repr, DecidableEq

def TxnOp.stage (txn : DriverTxn) : TxnOp → DriverTxn
  | .put key value => txn.put key value
  | .upsert key value => (txn.upsert key value).2
  | .putLocal key value => txn.putLocal key value
  | .remove key => (txn.remove key).2
  | .referenceBlob sha256 size => txn.referenceBlob sha256 size

/-- The tables `DRIVER_KV`, `JOURNAL`, `JOURNAL_MUTATIONS`, `JOURNAL_BLOBS`, `SERIAL`. -/
structure MetaStore where
  rows : Rows := ∅
  journal : Table Nat Bytes := ∅
  mutations : Table Nat (List DriverMutation) := ∅
  blobs : Table Nat (List DriverBlobReference) := ∅
  serial : Nat := 0

inductive CommitError (ε : Type) where
  | replicaSerialConflict (expected actual : Nat)
  | body (error : ε)
  deriving Repr, DecidableEq

abbrev TxnBody (ε : Type) := Rows → Except ε (List TxnOp × List Bytes)

def appendJournal (journal : Table Nat Bytes) (serial : Nat) : List Bytes → Table Nat Bytes × Nat
  | [] => (journal, serial)
  | entry :: rest => appendJournal (journal.insert (serial + 1) entry) (serial + 1) rest

def attach {V : Type} (table : Table Nat (List V)) (serial : Nat) (values : List V) :
    Table Nat (List V) :=
  if values = [] then table else table.insert serial values

def MetaStore.commit (store : MetaStore) (txn : DriverTxn) (entries : List Bytes) : MetaStore :=
  if entries = [] then { store with rows := txn.table }
  else
    let (journal, serial) := appendJournal store.journal store.serial entries
    { rows := txn.table
      journal := journal
      mutations := attach store.mutations serial txn.mutations
      blobs := attach store.blobs serial txn.blobs
      serial := serial }

def commitDriverTxnAt {ε : Type} (store : MetaStore) (expected : Option Nat) (body : TxnBody ε) :
    Except (CommitError ε) MetaStore :=
  match expected.filter fun expected => expected != store.serial with
  | some expected => .error (.replicaSerialConflict expected store.serial)
  | none =>
    match body store.rows with
    | .error error => .error (.body error)
    | .ok (ops, entries) =>
      .ok (store.commit (ops.foldl TxnOp.stage { table := store.rows }) entries)

structure JournalRecord where
  serial : Nat
  payload : Bytes
  mutations : List DriverMutation
  blobs : List DriverBlobReference
  deriving Repr, DecidableEq

def journalPageAfter (store : MetaStore) (after limit : Nat) : Nat × List JournalRecord :=
  (store.serial,
    ((store.journal.toList.filter fun entry => after < entry.1).take limit).map fun entry =>
      { serial := entry.1
        payload := entry.2
        mutations := store.mutations[entry.1]?.getD []
        blobs := store.blobs[entry.1]?.getD [] })

def lastEffect : List DriverMutation → Str → Option (Option Bytes)
  | [], _ => none
  | mutation :: rest, key =>
    (lastEffect rest key).or (if mutation.key = key then some mutation.value else none)

theorem lastEffect_append (a b : List DriverMutation) (key : Str) :
    lastEffect (a ++ b) key = (lastEffect b key).or (lastEffect a key) := by
  induction a with
  | nil => simp [lastEffect]
  | cons mutation a ih => simp only [List.cons_append, lastEffect, ih, Option.or_assoc]

theorem lastEffect_none (mutations : List DriverMutation) (key : Str)
    (h : ∀ mutation ∈ mutations, mutation.key ≠ key) : lastEffect mutations key = none := by
  induction mutations with
  | nil => rfl
  | cons mutation rest ih =>
    rw [lastEffect, ih fun m hm => h m (List.mem_cons_of_mem _ hm),
      if_neg (h mutation List.mem_cons_self)]
    rfl

theorem lastEffect_some (mutations : List DriverMutation) (key : Str) (value : Option Bytes)
    (hall : ∀ mutation ∈ mutations, mutation.key = key → mutation.value = value)
    (hsome : ∃ mutation ∈ mutations, mutation.key = key) :
    lastEffect mutations key = some value := by
  induction mutations with
  | nil =>
    obtain ⟨mutation, hm, _⟩ := hsome
    cases hm
  | cons mutation rest ih =>
    rw [lastEffect]
    by_cases hrest : ∃ m ∈ rest, m.key = key
    · rw [ih (fun m hm => hall m (List.mem_cons_of_mem _ hm)) hrest]
      rfl
    · have hnone : lastEffect rest key = none :=
        lastEffect_none rest key fun m hm hk => hrest ⟨m, hm, hk⟩
      have hkey : mutation.key = key := by
        obtain ⟨m, hm, hk⟩ := hsome
        rcases List.mem_cons.mp hm with rfl | hm
        · exact hk
        · exact absurd ⟨m, hm, hk⟩ hrest
      rw [hnone, if_pos hkey, hall mutation List.mem_cons_self hkey]
      rfl

section Staging
variable (shared : Str → Prop)

def TxnOp.KeepsLocal : TxnOp → Prop
  | .putLocal key _ => ¬ shared key
  | _ => True

def TxnOp.Unshared : TxnOp → Prop
  | .put key _ => ¬ shared key
  | .upsert key _ => ¬ shared key
  | .putLocal key _ => ¬ shared key
  | .remove key => ¬ shared key
  | .referenceBlob _ _ => True

theorem getElem?_insert_of_ne (rows : Rows) (key other : Str) (value : Bytes) (h : key ≠ other) :
    (rows.insert key value)[other]? = rows[other]? :=
  Table.getElem?_set_of_ne rows key other (some value) h

theorem getElem?_erase_of_ne (rows : Rows) (key other : Str) (h : key ≠ other) :
    (rows.erase key)[other]? = rows[other]? :=
  Table.getElem?_set_of_ne rows key other none h

theorem mem_touched_insert (touched : Std.ExtTreeSet Str) (key other : Str) :
    other ∈ touched.insert key ↔ key = other ∨ other ∈ touched := by
  rw [Std.ExtTreeSet.mem_insert]
  exact or_congr_left ⟨Std.LawfulEqCmp.eq_of_compare, fun h => h ▸ Std.ReflCmp.compare_self⟩

theorem stage_untouched (old : Rows) (txn : DriverTxn) (op : TxnOp) (key : Str) (hkey : shared key)
    (hop : op.KeepsLocal shared) (h : key ∉ txn.touched → txn.table[key]? = old[key]?)
    (hnot : key ∉ (op.stage txn).touched) : (op.stage txn).table[key]? = old[key]? := by
  have hput : ∀ k v, key ∉ (txn.upsert k v).2.touched →
      (txn.upsert k v).2.table[key]? = old[key]? := by
    intro k v hnot
    simp only [DriverTxn.upsert, mem_touched_insert, not_or] at hnot ⊢
    rw [getElem?_insert_of_ne _ _ _ _ hnot.1]
    exact h hnot.2
  cases op with
  | put k v => exact hput k v hnot
  | upsert k v => exact hput k v hnot
  | putLocal k v =>
    have hne : k ≠ key := fun heq => hop (heq ▸ hkey)
    simp only [TxnOp.stage, DriverTxn.putLocal] at hnot ⊢
    rw [getElem?_insert_of_ne _ _ _ _ hne]
    exact h hnot
  | remove k =>
    simp only [TxnOp.stage, DriverTxn.remove] at hnot ⊢
    cases hk : txn.table[k]? with
    | none =>
      simp only [hk] at hnot ⊢
      exact h hnot
    | some v =>
      simp only [hk, mem_touched_insert, not_or] at hnot ⊢
      rw [getElem?_erase_of_ne _ _ _ hnot.1]
      exact h hnot.2
  | referenceBlob sha256 size =>
    simp only [TxnOp.stage, DriverTxn.referenceBlob] at hnot ⊢
    split at hnot
    · rename_i hmem
      rw [if_pos hmem]
      exact h hnot
    · rename_i hmem
      rw [if_neg hmem]
      exact h hnot

theorem stageAll_untouched (old : Rows) (ops : List TxnOp) (txn : DriverTxn) (key : Str)
    (hkey : shared key) (hops : ∀ op ∈ ops, op.KeepsLocal shared)
    (h : key ∉ txn.touched → txn.table[key]? = old[key]?)
    (hnot : key ∉ (ops.foldl TxnOp.stage txn).touched) :
    (ops.foldl TxnOp.stage txn).table[key]? = old[key]? := by
  induction ops generalizing txn with
  | nil => exact h hnot
  | cons op ops ih =>
    apply ih (op.stage txn) (fun o ho => hops o (List.mem_cons_of_mem _ ho)) _ hnot
    exact stage_untouched shared old txn op key hkey (hops op List.mem_cons_self) h

theorem stage_unshared (txn : DriverTxn) (op : TxnOp) (key : Str) (hkey : shared key)
    (hop : op.Unshared shared) : (op.stage txn).table[key]? = txn.table[key]? := by
  have hne : ∀ k, ¬ shared k → k ≠ key := fun k hk heq => hk (heq ▸ hkey)
  cases op with
  | put k v => exact getElem?_insert_of_ne _ _ _ _ (hne k hop)
  | upsert k v => exact getElem?_insert_of_ne _ _ _ _ (hne k hop)
  | putLocal k v => exact getElem?_insert_of_ne _ _ _ _ (hne k hop)
  | remove k =>
    simp only [TxnOp.stage, DriverTxn.remove]
    cases hk : txn.table[k]? with
    | none => rfl
    | some v => exact getElem?_erase_of_ne _ _ _ (hne k hop)
  | referenceBlob sha256 size =>
    simp only [TxnOp.stage, DriverTxn.referenceBlob]
    split <;> rfl

theorem stageAll_unshared (ops : List TxnOp) (txn : DriverTxn) (key : Str) (hkey : shared key)
    (hops : ∀ op ∈ ops, op.Unshared shared) :
    (ops.foldl TxnOp.stage txn).table[key]? = txn.table[key]? := by
  induction ops generalizing txn with
  | nil => rfl
  | cons op ops ih =>
    rw [List.foldl_cons, ih _ fun o ho => hops o (List.mem_cons_of_mem _ ho)]
    exact stage_unshared shared txn op key hkey (hops op List.mem_cons_self)

theorem lastEffect_mutations (txn : DriverTxn) (key : Str) :
    lastEffect txn.mutations key = if key ∈ txn.touched then some txn.table[key]? else none := by
  have hshape : ∀ mutation ∈ txn.mutations,
      mutation.key ∈ txn.touched ∧ mutation.value = txn.table[mutation.key]? := by
    intro mutation hm
    obtain ⟨k, hk, rfl⟩ := List.mem_map.mp hm
    rw [Std.ExtTreeSet.mem_toList] at hk
    cases hv : txn.table[k]? with
    | none => exact ⟨hk, hv.symm⟩
    | some v => exact ⟨hk, hv.symm⟩
  split
  · rename_i hkey
    apply lastEffect_some
    · rintro mutation hm rfl
      exact (hshape mutation hm).2
    · refine ⟨_, List.mem_map.mpr ⟨key, Std.ExtTreeSet.mem_toList.mpr hkey, rfl⟩, ?_⟩
      cases txn.table[key]? <;> rfl
  · rename_i hkey
    apply lastEffect_none
    rintro mutation hm rfl
    exact hkey (hshape mutation hm).1

theorem staged_row (rows : Rows) (ops : List TxnOp) (key : Str) (hkey : shared key)
    (hops : ∀ op ∈ ops, op.KeepsLocal shared) :
    (ops.foldl TxnOp.stage { table := rows }).table[key]? =
      (lastEffect (ops.foldl TxnOp.stage { table := rows }).mutations key).getD rows[key]? := by
  rw [lastEffect_mutations]
  split
  · rfl
  · rename_i hnot
    exact stageAll_untouched shared rows ops { table := rows } key hkey hops (fun _ => rfl) hnot

end Staging

end Peryx.Storage
