import Peryx.Storage.Driver
import Peryx.Storage.Journal

/-!
# Driver transactions that may fail (peryx-storage/src/meta/index.rs:141-333)

The body of a transaction is a program of store calls, each of which may fail, as may the
journaling and the commit after it.
-/

namespace Peryx.Storage

abbrev TxnEnd (ε α : Type) := Except ε (α × List Bytes)

def txnGet (key : Str) : Prog DriverTxn (Option Bytes) := Prog.read fun txn => txn.table[key]?

def txnPrefix (start : Str) : Prog DriverTxn (List (Str × Bytes)) :=
  Prog.read fun txn => txn.table.toList.filter fun row => Str.startsWith row.1 start

def TxnOp.call (op : TxnOp) : Prog DriverTxn Unit := Prog.modify fun txn => op.stage txn

def txnPut (key : Str) (value : Bytes) : Prog DriverTxn Unit := (TxnOp.put key value).call

def txnRemove (key : Str) : Prog DriverTxn Unit := (TxnOp.remove key).call

@[simp] theorem run_txnGet (key : Str) (txn : DriverTxn) :
    (txnGet key).run txn = (txn.table[key]?, txn) := rfl

@[simp] theorem run_txnPut (key : Str) (value : Bytes) (txn : DriverTxn) :
    (txnPut key value).run txn = ((), txn.put key value) := rfl

@[simp] theorem run_txnRemove (key : Str) (txn : DriverTxn) :
    (txnRemove key).run txn = ((), (txn.remove key).2) := rfl

@[simp] theorem run_call (op : TxnOp) (txn : DriverTxn) : op.call.run txn = ((), op.stage txn) := rfl

theorem run_calls (ops : List TxnOp) (txn : DriverTxn) :
    (ops.forM TxnOp.call).run txn = ((), ops.foldl TxnOp.stage txn) := by
  induction ops generalizing txn with
  | nil => rfl
  | cons op ops ih =>
    have hcons : (op :: ops).forM TxnOp.call = (op.call >>= fun _ => ops.forM TxnOp.call) := rfl
    rw [hcons, Prog.run_bind, run_call, ih, List.foldl_cons]

theorem mem_txnPrefix (start : Str) (txn : DriverTxn) (row : Str × Bytes) :
    row ∈ ((txnPrefix start).run txn).1 ↔ txn.table[row.1]? = some row.2 ∧ start <+: row.1 := by
  have hrun : ((txnPrefix start).run txn).1 =
      txn.table.toList.filter fun row => Str.startsWith row.1 start := rfl
  rw [hrun, List.mem_filter, Str.startsWith_iff]
  exact and_congr_left fun _ => Std.ExtTreeMap.mem_toList_iff_getElem?_eq_some

def TxnOp.puts : TxnOp → List (Str × Bytes)
  | .put key value => [(key, value)]
  | _ => []

def TxnOp.OnlyPuts : TxnOp → Prop
  | .put _ _ | .referenceBlob _ _ => True
  | _ => False

theorem stage_getElem? (op : TxnOp) (h : op.OnlyPuts) (txn : DriverTxn) (key : Str) :
    (op.stage txn).table[key]? = (lastPut op.puts key).or txn.table[key]? := by
  cases op with
  | put written value =>
    have hset : (txn.table.insert written value)[key]? =
        if written = key then some value else txn.table[key]? :=
      Table.getElem?_set txn.table written key (some value)
    show (txn.table.insert written value)[key]? = _
    rw [hset]
    simp only [TxnOp.puts, lastPut, Option.none_or]
    split <;> rfl
  | referenceBlob digest size =>
    simp only [TxnOp.stage, DriverTxn.referenceBlob, TxnOp.puts, lastPut, Option.none_or]
    split <;> rfl
  | upsert | putLocal | remove => exact absurd h id

theorem stageAll_getElem? (ops : List TxnOp) (h : ∀ op ∈ ops, op.OnlyPuts) (txn : DriverTxn)
    (key : Str) : (ops.foldl TxnOp.stage txn).table[key]? =
      (lastPut (ops.flatMap TxnOp.puts) key).or txn.table[key]? := by
  induction ops generalizing txn with
  | nil => rfl
  | cons op ops ih =>
    rw [List.foldl_cons, ih (fun o ho => h o (List.mem_cons_of_mem _ ho)), List.flatMap_cons,
      lastPut_append, stage_getElem? op (h op List.mem_cons_self), Option.or_assoc]

theorem lastPut_of_mem (puts : List (Str × Bytes)) (hnodup : (puts.map Prod.fst).Nodup)
    (row : Str × Bytes) (h : row ∈ puts) : lastPut puts row.1 = some row.2 := by
  induction puts with
  | nil => cases h
  | cons put puts ih =>
    obtain ⟨hnot, hrest⟩ := List.nodup_cons.mp hnodup
    rw [lastPut]
    rcases List.mem_cons.mp h with rfl | h
    · rw [lastPut_none puts row.1 fun p hp heq => hnot (heq ▸ List.mem_map_of_mem hp), if_pos rfl]
      rfl
    · rw [ih hrest h]
      rfl

inductive Fault where
  | never
  | call (number : Nat)
  | commit
  deriving Repr, DecidableEq

inductive TxnError (ε : Type) where
  | store
  | body (error : ε)
  deriving Repr, DecidableEq

section Transact
variable {ε α : Type}

def txnEnding (body : Prog DriverTxn (TxnEnd ε α)) (fault : Fault) (rows : Rows) :
    Option (TxnEnd ε α × DriverTxn) :=
  match fault with
  | .call number => body.runUntil number { table := rows }
  | .never | .commit => some (body.run { table := rows })

def MetaStore.transact (store : MetaStore) (body : Prog DriverTxn (TxnEnd ε α)) (fault : Fault) :
    Except (TxnError ε) α × MetaStore :=
  match txnEnding body fault store.rows with
  | none => (.error .store, store)
  | some (.error error, _) => (.error (.body error), store)
  | some (.ok (answer, entries), txn) =>
    if fault = .commit then (.error .store, store) else (.ok answer, store.commit txn entries)

theorem transact_atomic (store : MetaStore) (body : Prog DriverTxn (TxnEnd ε α)) (fault : Fault) :
    (∃ error, store.transact body fault = (.error error, store)) ∨
      store.transact body fault = store.transact body .never := by
  cases fault with
  | never => exact .inr rfl
  | call number =>
    cases hend : body.runUntil number { table := store.rows } with
    | none =>
      refine .inl ⟨.store, ?_⟩
      simp only [MetaStore.transact, txnEnding, hend]
    | some last =>
      refine .inr ?_
      simp only [MetaStore.transact, txnEnding, hend, Prog.runUntil_eq_run body number _ last hend]
      rfl
  | commit =>
    rcases hend : body.run { table := store.rows } with ⟨error | ⟨answer, entries⟩, txn⟩
    · refine .inr ?_
      simp only [MetaStore.transact, txnEnding, hend]
    · refine .inl ⟨.store, ?_⟩
      simp only [MetaStore.transact, txnEnding, hend, if_true]

theorem transact_error (store : MetaStore) (body : Prog DriverTxn (TxnEnd ε α)) (fault : Fault)
    (error : TxnError ε) (after : MetaStore) (h : store.transact body fault = (.error error, after)) :
    after = store := by
  unfold MetaStore.transact at h
  split at h
  · exact (Prod.mk.inj h).2.symm
  · exact (Prod.mk.inj h).2.symm
  · split at h
    · exact (Prod.mk.inj h).2.symm
    · cases (Prod.mk.inj h).1

theorem transact_ok (store : MetaStore) (body : Prog DriverTxn (TxnEnd ε α)) (answer : α)
    (after : MetaStore)
    (h : store.transact body .never = (.ok answer, after)) :
    ∃ entries txn, body.run { table := store.rows } = (.ok (answer, entries), txn) ∧
      after = store.commit txn entries := by
  rcases hend : body.run { table := store.rows } with ⟨error | ⟨found, entries⟩, txn⟩
  · simp only [MetaStore.transact, txnEnding, hend] at h
    cases (Prod.mk.inj h).1
  · simp only [MetaStore.transact, txnEnding, hend] at h
    obtain ⟨hanswer, hafter⟩ := Prod.mk.inj h
    cases hanswer
    exact ⟨entries, txn, rfl, hafter.symm⟩

theorem transact_answers (store : MetaStore) (body : Prog DriverTxn (TxnEnd ε α)) (answer : α)
    (entries : List Bytes) (txn : DriverTxn)
    (h : body.run { table := store.rows } = (.ok (answer, entries), txn)) :
    store.transact body .never = (.ok answer, store.commit txn entries) := by
  simp only [MetaStore.transact, txnEnding, h]
  rfl

end Transact

structure Journaled (before after : MetaStore) (entries : List Bytes) : Prop where
  serial : after.serial = before.serial + entries.length
  journal : ∀ s, after.journal[s]? =
    if before.serial < s ∧ s ≤ before.serial + entries.length then entries[s - before.serial - 1]?
    else before.journal[s]?

theorem journaled_commit (store : MetaStore) (txn : DriverTxn) (entries : List Bytes) :
    Journaled store (store.commit txn entries) entries where
  serial := store.commit_serial txn entries
  journal := store.commit_journal txn entries

end Peryx.Storage
