import Peryx.Library.Confined
import Peryx.Storage.Transaction

/-!
# Calls on the metadata store (peryx-storage/src/meta/index.rs:14-179)

Every call is a transaction of its own, and may fail.
-/

namespace Peryx.Storage

/-- A store, and what is going to fail in the next transaction on it. -/
structure Disk where
  store : MetaStore := {}
  fault : Fault := .never

abbrev Calls (ε : Type) := ExceptT (TxnError ε) (Prog Disk)

section Calls
variable {ε α : Type}

def rowsCall (f : Rows → Except ε α × Rows) : Calls ε α :=
  ExceptT.mk (Prog.transact fun disk =>
    if disk.fault = .never then
      match f disk.store.rows with
      | (.ok answer, rows) => (.ok answer, { disk with store.rows := rows })
      | (.error error, _) => (.error (.body error), disk)
    else (.error .store, disk))

def readCall (f : Rows → α) : Calls ε α := rowsCall fun rows => (.ok (f rows), rows)

def txnCall (body : Prog DriverTxn (TxnEnd ε α)) : Calls ε α :=
  ExceptT.mk (Prog.transact fun disk =>
    let (answer, store) := disk.store.transact body disk.fault
    (answer, { disk with store := store }))

def getCall (key : Str) : Calls ε (Option Bytes) := readCall fun rows => rows[key]?

def putCall (key : Str) (value : Bytes) : Calls ε Unit :=
  rowsCall fun rows => (.ok (), rows.insert key value)

def keysCall (start : Str) : Calls ε (List Str) := readCall fun rows => keysUnder rows start

def limitedKeysCall (start : Str) (limit : Nat) : Calls ε (List Str) :=
  readCall fun rows => (keysUnder rows start).take limit

def visitCall (start : Str) : Calls ε (List (Str × Bytes)) :=
  readCall fun rows => rows.toList.filter fun row => Str.startsWith row.1 start

def batchCall (batch : DriverBatch) : Calls ε Unit :=
  rowsCall fun rows => (.ok (), commitDriverBatch rows batch)

end Calls

section Alone
variable {ε α β : Type} {disk : Disk}

theorem run_rowsCall (f : Rows → Except ε α × Rows) (h : disk.fault = .never) (answer : α)
    (rows : Rows) (hrun : f disk.store.rows = (.ok answer, rows)) :
    (rowsCall f).run.run disk = (.ok answer, { disk with store.rows := rows }) := by
  show (if disk.fault = .never then _ else _ : Except (TxnError ε) α × Disk) = _
  rw [if_pos h, hrun]

theorem run_readCall (f : Rows → α) (h : disk.fault = .never) :
    (readCall f : Calls ε α).run.run disk = (.ok (f disk.store.rows), disk) :=
  run_rowsCall _ h _ _ rfl

theorem run_calls_bind {p : Calls ε α} {f : α → Calls ε β} {a : α} {after : Disk}
    (h : p.run.run disk = (.ok a, after)) : (p >>= f).run.run disk = (f a).run.run after := by
  rw [ExceptT.run_bind, Prog.run_bind, h]

theorem run_mapM_reads (items : List α) (f : α → Calls ε β) (g : α → β)
    (h : ∀ item ∈ items, (f item).run.run disk = (.ok (g item), disk)) :
    (items.mapM f).run.run disk = (.ok (items.map g), disk) := by
  induction items with
  | nil => rfl
  | cons item items ih =>
    rw [List.mapM_cons, run_calls_bind (h item List.mem_cons_self),
      run_calls_bind (ih fun i hi => h i (List.mem_cons_of_mem _ hi))]
    rfl

end Alone

section Footprint
variable {ε α β : Type} {foot : Str → Prop}

def Disk.Same (foot : Str → Prop) (a b : Disk) : Prop :=
  a.fault = b.fault ∧ Table.AgreeOn foot a.store.rows b.store.rows

def Disk.Kept (foot : Str → Prop) (a b : Disk) : Prop :=
  Table.AgreeOn (fun key => ¬ foot key) a.store.rows b.store.rows

/-- The program reads and writes rows of `foot` only. -/
def Within (foot : Str → Prop) (p : Calls ε α) : Prop :=
  Prog.Confined (Disk.Same foot) (Disk.Kept foot) p.run

theorem within_pure (a : α) : Within foot (pure a : Calls ε α) := trivial

theorem within_throw (error : TxnError ε) : Within foot (throw error : Calls ε α) := trivial

theorem Within.bind {p : Calls ε α} {f : α → Calls ε β} (hp : Within foot p)
    (hf : ∀ a, Within foot (f a)) : Within foot (p >>= f) := by
  unfold Within
  rw [ExceptT.run_bind]
  refine Prog.Confined.bind hp fun a => ?_
  cases a with
  | error error => trivial
  | ok a => exact hf a

theorem Within.bind_of {ok : α → Prop} {p : Calls ε α} {f : α → Calls ε β} (hp : Within foot p)
    (hok : p.run.Ends (fun _ => True) fun result => ∀ a, result = .ok a → ok a)
    (hf : ∀ a, ok a → Within foot (f a)) : Within foot (p >>= f) := by
  unfold Within
  rw [ExceptT.run_bind]
  refine Prog.Confined.bind_of hp hok fun result hresult => ?_
  cases result with
  | error error => trivial
  | ok a => exact hf a (hresult a rfl)

theorem Within.widen {wider : Str → Prop} {p : Calls ε α} (h : Within foot p)
    (hwider : ∀ key, foot key → wider key) : Within wider p := by
  refine Prog.Confined.widen h ?_ ?_ ?_
  · exact fun a b hkept key hkey => hkept key fun hfoot => hkey (hwider key hfoot)
  · exact fun a b hsame => ⟨hsame.1, fun key hkey => hsame.2 key (hwider key hkey)⟩
  · intro a b a' b' hsame hafter ha hb
    refine ⟨hafter.1, fun key hkey => ?_⟩
    by_cases hfoot : foot key
    · exact hafter.2 key hfoot
    · rw [← ha key hfoot, ← hb key hfoot]
      exact hsame.2 key hkey

structure RowsWithin (foot : Str → Prop) (f : Rows → β × Rows) : Prop where
  kept : ∀ rows, Table.AgreeOn (fun key => ¬ foot key) rows (f rows).2
  answer : ∀ a b, Table.AgreeOn foot a b → (f a).1 = (f b).1
  same : ∀ a b, Table.AgreeOn foot a b → Table.AgreeOn foot (f a).2 (f b).2

theorem rowsWithin_answer (b : β) : RowsWithin foot fun rows => (b, rows) :=
  ⟨Table.AgreeOn.refl, fun _ _ _ => rfl, fun _ _ hab => hab⟩

theorem rowsWithin_get (key : Str) (h : foot key) (f : Option Bytes → Rows → β × Rows)
    (hf : ∀ row, RowsWithin foot (f row)) : RowsWithin foot fun rows => f rows[key]? rows where
  kept rows := (hf rows[key]?).kept rows
  answer a b hab := by
    rw [hab key h]
    exact (hf b[key]?).answer a b hab
  same a b hab := by
    rw [hab key h]
    exact (hf b[key]?).same a b hab

theorem RowsWithin.andThen {f : Rows → α × Rows} {g : α → Rows → β × Rows} (hf : RowsWithin foot f)
    (hg : ∀ a, RowsWithin foot (g a)) : RowsWithin foot fun rows => g (f rows).1 (f rows).2 where
  kept rows := (hf.kept rows).trans ((hg _).kept _)
  answer a b hab := by
    rw [hf.answer a b hab]
    exact (hg _).answer _ _ (hf.same a b hab)
  same a b hab := by
    rw [hf.answer a b hab]
    exact (hg _).same _ _ (hf.same a b hab)

theorem within_rowsCall (f : Rows → Except ε α × Rows) (h : RowsWithin foot f) :
    Within foot (rowsCall f) := by
  refine Prog.confined_transact _ ?_ ?_
  · intro disk
    show Table.AgreeOn _ _ _
    dsimp only
    split
    · split
      · rename_i answer rows hrun
        have hkept := h.kept disk.store.rows
        rw [hrun] at hkept
        exact hkept
      · exact Table.AgreeOn.refl _
    · exact Table.AgreeOn.refl _
  · intro a b hsame
    obtain ⟨hfault, hrows⟩ := hsame
    have hanswer := h.answer _ _ hrows
    have hafter := h.same _ _ hrows
    dsimp only
    rw [hfault]
    split
    · rcases hfa : f a.store.rows with ⟨error | answer, rows⟩ <;>
        rcases hfb : f b.store.rows with ⟨error' | answer', rows'⟩ <;>
        rw [hfa, hfb] at hanswer hafter <;> cases hanswer
      · exact ⟨rfl, hfault, hrows⟩
      · exact ⟨rfl, rfl, hafter⟩
    · exact ⟨rfl, hfault, hrows⟩

theorem within_readCall (f : Rows → α) (h : ∀ a b, Table.AgreeOn foot a b → f a = f b) :
    Within foot (readCall f : Calls ε α) := by
  refine within_rowsCall _ ⟨fun rows => Table.AgreeOn.refl rows, fun a b hab => ?_, fun a b hab => hab⟩
  show Except.ok (f a) = Except.ok (f b)
  rw [h a b hab]

theorem readCall_ends {ok : α → Prop} (f : Rows → α) (h : ∀ rows, ok (f rows)) :
    (readCall f : Calls ε α).run.Ends (fun _ => True) fun result => ∀ a, result = .ok a → ok a := by
  intro disk _
  show ∀ a, (if disk.fault = .never then _ else _ : Except (TxnError ε) α × Disk).1 = .ok a → ok a
  intro a ha
  split at ha
  · cases ha
    exact h disk.store.rows
  · cases ha

theorem within_getCall (key : Str) (h : foot key) : Within foot (getCall key : Calls ε _) :=
  within_readCall _ fun _ _ hab => hab key h

theorem agreeOn_keysUnder {a b : Rows} (h : Table.AgreeOn foot a b) (start : Str)
    (hfoot : ∀ key, start <+: key → foot key) : keysUnder a start = keysUnder b start :=
  h.keys_filter _ fun key hkey => hfoot key ((Str.startsWith_iff key start).mp hkey)

theorem within_keysCall (start : Str) (h : ∀ key, start <+: key → foot key) :
    Within foot (keysCall start : Calls ε _) :=
  within_readCall _ fun _ _ hab => agreeOn_keysUnder hab start h

theorem keysCall_ends (start : Str) : (keysCall start : Calls ε _).run.Ends (fun _ => True)
    fun result => ∀ keys, result = .ok keys → ∀ key ∈ keys, start <+: key :=
  readCall_ends _ fun rows key hkey => ((mem_keysUnder rows start key).mp hkey).2

theorem within_limitedKeysCall (start : Str) (limit : Nat) (h : ∀ key, start <+: key → foot key) :
    Within foot (limitedKeysCall start limit : Calls ε _) :=
  within_readCall _ fun _ _ hab => congrArg (List.take limit) (agreeOn_keysUnder hab start h)

theorem limitedKeysCall_ends (start : Str) (limit : Nat) :
    (limitedKeysCall start limit : Calls ε _).run.Ends (fun _ => True)
      fun result => ∀ keys, result = .ok keys → ∀ key ∈ keys, start <+: key :=
  readCall_ends _ fun rows key hkey =>
    ((mem_keysUnder rows start key).mp (List.mem_of_mem_take hkey)).2

theorem rowsWithin_set (b : β) (key : Str) (row : Option Bytes) (h : foot key) :
    RowsWithin foot fun rows => (b, Table.set rows key row) where
  kept rows := Table.agreeOn_set rows key row fun hnot => hnot h
  answer _ _ _ := rfl
  same _ _ hab := hab.set key row

theorem within_putCall (key : Str) (value : Bytes) (h : foot key) :
    Within foot (putCall key value : Calls ε _) :=
  within_rowsCall _ (rowsWithin_set _ key (some value) h)

theorem agreeOn_foldl_set {ι : Type} (change : ι → Str × Option Bytes) (changes : List ι)
    {a b : Rows} (h : Table.AgreeOn foot a b) : Table.AgreeOn foot
      (changes.foldl (fun rows c => Table.set rows (change c).1 (change c).2) a)
      (changes.foldl (fun rows c => Table.set rows (change c).1 (change c).2) b) := by
  induction changes generalizing a b with
  | nil => exact h
  | cons c changes ih => exact ih (h.set (change c).1 (change c).2)

theorem kept_foldl_set {ι : Type} (change : ι → Str × Option Bytes) (changes : List ι)
    (rows : Rows) (h : ∀ c ∈ changes, ¬ foot (change c).1) : Table.AgreeOn foot rows
      (changes.foldl (fun rows c => Table.set rows (change c).1 (change c).2) rows) := by
  induction changes generalizing rows with
  | nil => exact Table.AgreeOn.refl rows
  | cons c changes ih =>
    exact (Table.agreeOn_set rows (change c).1 (change c).2 (h c List.mem_cons_self)).trans
      (ih _ fun c' hc' => h c' (List.mem_cons_of_mem _ hc'))

def DriverBatch.Within (foot : Str → Prop) (batch : DriverBatch) : Prop :=
  (∀ put ∈ batch.puts, foot put.1) ∧ ∀ key ∈ batch.deletes, foot key

theorem rowsWithin_batch (b : β) (batch : DriverBatch) (h : batch.Within foot) :
    RowsWithin foot fun rows => (b, commitDriverBatch rows batch) where
  kept rows := by
    refine Table.AgreeOn.trans ?_ (kept_foldl_set (fun key => (key, none)) batch.deletes _ ?_)
    · exact kept_foldl_set (fun put : Str × Bytes => (put.1, some put.2)) batch.puts rows
        fun put hput hnot => hnot (h.1 put hput)
    · exact fun key hkey hnot => hnot (h.2 key hkey)
  answer _ _ _ := rfl
  same a b hab := by
    refine agreeOn_foldl_set (fun key => (key, none)) batch.deletes ?_
    exact agreeOn_foldl_set (fun put : Str × Bytes => (put.1, some put.2)) batch.puts hab

theorem within_batchCall (batch : DriverBatch) (h : batch.Within foot) :
    Within foot (batchCall batch : Calls ε _) :=
  within_rowsCall _ (rowsWithin_batch _ batch h)

theorem within_mapM (items : List α) (f : α → Calls ε β) (h : ∀ item ∈ items, Within foot (f item)) :
    Within foot (items.mapM f) := by
  induction items with
  | nil => exact within_pure []
  | cons item items ih =>
    rw [List.mapM_cons]
    refine (h item List.mem_cons_self).bind fun b => ?_
    exact (ih fun i hi => h i (List.mem_cons_of_mem _ hi)).bind fun _ => within_pure _

theorem within_forM (items : List α) (f : α → Calls ε Unit)
    (h : ∀ item ∈ items, Within foot (f item)) : Within foot (items.forM f) := by
  induction items with
  | nil => exact within_pure ()
  | cons item items ih =>
    refine (h item List.mem_cons_self).bind fun _ => ?_
    exact ih fun i hi => h i (List.mem_cons_of_mem _ hi)

def DriverTxn.Same (foot : Str → Prop) (a b : DriverTxn) : Prop := Table.AgreeOn foot a.table b.table

def DriverTxn.Kept (foot : Str → Prop) (a b : DriverTxn) : Prop :=
  Table.AgreeOn (fun key => ¬ foot key) a.table b.table

def BodyWithin (foot : Str → Prop) (body : Prog DriverTxn α) : Prop :=
  body.Confined (DriverTxn.Same foot) (DriverTxn.Kept foot)

theorem body_txnGet (key : Str) (h : foot key) : BodyWithin foot (txnGet key) :=
  Prog.confined_read _ (fun _ => Table.AgreeOn.refl _) fun _ _ hab => hab key h

theorem body_txnPrefix (start : Str) (h : ∀ key, start <+: key → foot key) :
    BodyWithin foot (txnPrefix start) :=
  Prog.confined_read _ (fun _ => Table.AgreeOn.refl _) fun _ _ hab =>
    hab.toList_filter _ fun key hkey => h key ((Str.startsWith_iff key start).mp hkey)

theorem txnPrefix_ends (start : Str) : (txnPrefix start).Ends (fun _ => True)
    fun rows => ∀ row ∈ rows, start <+: row.1 := by
  intro txn _ row hrow
  exact ((mem_txnPrefix start txn row).mp hrow).2

def TxnOp.Within (foot : Str → Prop) : TxnOp → Prop
  | .put key _ | .upsert key _ | .putLocal key _ | .remove key => foot key
  | .referenceBlob _ _ => True

theorem remove_table (txn : DriverTxn) (key : Str) :
    (txn.remove key).2.table = Table.set txn.table key none := by
  unfold DriverTxn.remove
  split
  · rfl
  · rename_i habsent
    exact (Table.erase_eq_self txn.table key habsent).symm

theorem referenceBlob_table (txn : DriverTxn) (digest : Str) (size : Nat) :
    (txn.referenceBlob digest size).table = txn.table := by
  unfold DriverTxn.referenceBlob
  dsimp only
  split <;> rfl

theorem body_call (op : TxnOp) (h : op.Within foot) : BodyWithin foot op.call := by
  refine Prog.confined_modify _ (fun txn => ?_) fun a b hab => ?_
  · show Table.AgreeOn _ _ (op.stage txn).table
    cases op with
    | put key value | upsert key value | putLocal key value =>
      exact Table.agreeOn_set txn.table key (some value) fun hnot => hnot h
    | remove key =>
      simp only [TxnOp.stage, remove_table]
      exact Table.agreeOn_set txn.table key none fun hnot => hnot h
    | referenceBlob digest size =>
      simp only [TxnOp.stage, referenceBlob_table]
      exact Table.AgreeOn.refl _
  · show Table.AgreeOn _ (op.stage a).table (op.stage b).table
    cases op with
    | put key value | upsert key value | putLocal key value =>
      exact Table.AgreeOn.set hab key (some value)
    | remove key =>
      simp only [TxnOp.stage, remove_table]
      exact Table.AgreeOn.set hab key none
    | referenceBlob digest size =>
      simp only [TxnOp.stage, referenceBlob_table]
      exact hab

theorem body_txnPut (key : Str) (value : Bytes) (h : foot key) : BodyWithin foot (txnPut key value) :=
  body_call (.put key value) h

theorem body_txnRemove (key : Str) (h : foot key) : BodyWithin foot (txnRemove key) :=
  body_call (.remove key) h

theorem txnEnding_same (body : Prog DriverTxn (TxnEnd ε α)) (h : BodyWithin foot body)
    (fault : Fault) (a b : Rows) (hab : Table.AgreeOn foot a b) :
    txnEnding body fault a = none ∧ txnEnding body fault b = none ∨
      ∃ ending s t, txnEnding body fault a = some (ending, s) ∧
        txnEnding body fault b = some (ending, t) ∧ DriverTxn.Same foot s t := by
  have hstart : DriverTxn.Same foot { table := a } { table := b } := hab
  cases fault with
  | call number => exact h.runUntil_same number _ _ hstart
  | never | commit =>
    obtain ⟨hanswer, hsame⟩ := h.run_same _ _ hstart
    refine .inr ⟨_, _, _, rfl, ?_, hsame⟩
    show some (body.run _) = some (_, _)
    rw [hanswer]

theorem txnEnding_kept (body : Prog DriverTxn (TxnEnd ε α)) (h : BodyWithin foot body)
    (fault : Fault) (rows : Rows) (ending : TxnEnd ε α) (txn : DriverTxn)
    (hend : txnEnding body fault rows = some (ending, txn)) :
    Table.AgreeOn (fun key => ¬ foot key) rows txn.table := by
  have hrun : body.run { table := rows } = (ending, txn) := by
    cases fault with
    | call number => exact Prog.runUntil_eq_run body number _ _ hend
    | never | commit => exact Option.some.inj hend
  have hkept := Prog.Confined.run_kept h (fun _ => Table.AgreeOn.refl _)
    (fun _ _ _ hst htu => hst.trans htu) { table := rows }
  rw [hrun] at hkept
  exact hkept

theorem within_txnCall (body : Prog DriverTxn (TxnEnd ε α)) (h : BodyWithin foot body) :
    Within foot (txnCall body) := by
  refine Prog.confined_transact _ ?_ ?_
  · intro disk
    show Table.AgreeOn _ _ (disk.store.transact body disk.fault).2.rows
    unfold MetaStore.transact
    split
    · exact Table.AgreeOn.refl _
    · exact Table.AgreeOn.refl _
    · rename_i answer entries txn hend
      split
      · exact Table.AgreeOn.refl _
      · rw [MetaStore.commit_rows]
        exact txnEnding_kept body h _ _ _ _ hend
  · intro a b hsame
    obtain ⟨hfault, hrows⟩ := hsame
    have hends := txnEnding_same body h b.fault _ _ hrows
    show (a.store.transact body a.fault).1 = (b.store.transact body b.fault).1 ∧
      a.fault = b.fault ∧ Table.AgreeOn foot (a.store.transact body a.fault).2.rows
        (b.store.transact body b.fault).2.rows
    rw [hfault]
    unfold MetaStore.transact
    rcases hends with ⟨ha, hb⟩ | ⟨ending, s, t, ha, hb, hst⟩
    · rw [ha, hb]
      exact ⟨rfl, rfl, hrows⟩
    · rw [ha, hb]
      rcases ending with error | ⟨answer, entries⟩
      · exact ⟨rfl, rfl, hrows⟩
      · dsimp only
        split
        · exact ⟨rfl, rfl, hrows⟩
        · refine ⟨rfl, rfl, ?_⟩
          rw [MetaStore.commit_rows, MetaStore.commit_rows]
          exact hst

end Footprint
end Peryx.Storage

/-!
## Laws of rows

A law says of a key what its row may hold. What is put meets the law of its key; what is
deleted is under no law.
-/

namespace Peryx.Storage

def Obeys (law : Str → Bytes → Prop) (rows : Rows) : Prop :=
  ∀ (key : Str) (value : Bytes), rows[key]? = some value → law key value

section Laws
variable {law : Str → Bytes → Prop} {rows : Rows}

theorem obeys_empty : Obeys law (∅ : Rows) := by
  intro key value h
  rw [Std.ExtTreeMap.getElem?_empty] at h
  cases h

theorem Obeys.set (h : Obeys law rows) (key : Str) (row : Option Bytes)
    (hrow : ∀ value, row = some value → law key value) : Obeys law (Table.set rows key row) := by
  intro other value hvalue
  rw [Table.getElem?_set] at hvalue
  split at hvalue
  · rename_i hkey
    exact hkey ▸ hrow value hvalue
  · exact h other value hvalue

theorem Obeys.insert (h : Obeys law rows) {key : Str} {value : Bytes} (hvalue : law key value) :
    Obeys law (rows.insert key value) :=
  h.set key (some value) fun _ heq => Option.some.inj heq ▸ hvalue

theorem Obeys.erase (h : Obeys law rows) (key : Str) : Obeys law (rows.erase key) :=
  h.set key none nofun

theorem Obeys.eraseAll (h : Obeys law rows) (keys : List Str) :
    Obeys law (keys.foldl (fun rows key => rows.erase key) rows) := by
  induction keys generalizing rows with
  | nil => exact h
  | cons key keys ih => exact ih (h.erase key)

theorem Obeys.putAll (h : Obeys law rows) (puts : List (Str × Bytes))
    (hputs : ∀ put ∈ puts, law put.1 put.2) : Obeys law (putAll rows puts) := by
  induction puts generalizing rows with
  | nil => exact h
  | cons put puts ih =>
    exact ih (h.insert (hputs put List.mem_cons_self)) fun p hp => hputs p (List.mem_cons_of_mem _ hp)

theorem Obeys.batch (h : Obeys law rows) (batch : DriverBatch)
    (hputs : ∀ put ∈ batch.puts, law put.1 put.2) : Obeys law (commitDriverBatch rows batch) :=
  (h.putAll batch.puts hputs).eraseAll batch.deletes

def BodyObeys {α : Type} (law : Str → Bytes → Prop) (ok : α → Prop) (body : Prog DriverTxn α) :
    Prop :=
  ∀ txn, Obeys law txn.table → Obeys law (body.run txn).2.table ∧ ok (body.run txn).1

variable {α β ε : Type} {ok : α → Prop}

theorem bodyObeys_pure (a : α) (h : ok a) : BodyObeys law ok (pure a : Prog DriverTxn α) :=
  fun _ htable => ⟨htable, h⟩

theorem BodyObeys.bind {thenOk : β → Prop} {body : Prog DriverTxn α} {f : α → Prog DriverTxn β}
    (h : BodyObeys law ok body) (hf : ∀ a, ok a → BodyObeys law thenOk (f a)) :
    BodyObeys law thenOk (body >>= f) := by
  intro txn htable
  obtain ⟨hafter, hanswer⟩ := h txn htable
  rw [Prog.run_bind]
  exact hf _ hanswer _ hafter

theorem bodyObeys_get (key : Str) :
    BodyObeys law (fun row => ∀ value, row = some value → law key value) (txnGet key) :=
  fun _ htable => ⟨htable, fun value hvalue => htable key value hvalue⟩

theorem bodyObeys_scan (start : Str) :
    BodyObeys law (fun found => ∀ row ∈ found, start <+: row.1 ∧ law row.1 row.2)
      (txnPrefix start) := by
  intro txn htable
  refine ⟨htable, fun row hrow => ?_⟩
  obtain ⟨hvalue, hstart⟩ := (mem_txnPrefix start txn row).mp hrow
  exact ⟨hstart, htable row.1 row.2 hvalue⟩

theorem bodyObeys_put {key : Str} {value : Bytes} (h : law key value) :
    BodyObeys law (fun _ => True) (txnPut key value) :=
  fun _ htable => ⟨htable.insert h, trivial⟩

theorem bodyObeys_remove (key : Str) : BodyObeys law (fun _ => True) (txnRemove key) := by
  intro txn htable
  refine ⟨?_, trivial⟩
  show Obeys law (txn.remove key).2.table
  rw [remove_table]
  exact htable.set key none nofun

theorem bodyObeys_call (op : TxnOp) (honly : op.OnlyPuts) (h : ∀ put ∈ op.puts, law put.1 put.2) :
    BodyObeys law (fun _ => True) op.call := by
  intro txn htable
  refine ⟨fun key value hvalue => ?_, trivial⟩
  have hrow : (op.stage txn).table[key]? = some value := hvalue
  rw [stage_getElem? op honly, Option.or_eq_some_iff] at hrow
  rcases hrow with hput | ⟨_, hold⟩
  · exact h _ (mem_of_lastPut _ _ _ hput)
  · exact htable key value hold

theorem bodyObeys_calls (ops : List TxnOp) (honly : ∀ op ∈ ops, op.OnlyPuts)
    (h : ∀ op ∈ ops, ∀ put ∈ op.puts, law put.1 put.2) :
    BodyObeys law (fun _ => True) (ops.forM TxnOp.call) := by
  induction ops with
  | nil => exact bodyObeys_pure () trivial
  | cons op ops ih =>
    have hfirst := bodyObeys_call op (honly op List.mem_cons_self) (h op List.mem_cons_self)
    exact hfirst.bind fun _ _ => ih (fun o ho => honly o (List.mem_cons_of_mem _ ho))
      fun o ho => h o (List.mem_cons_of_mem _ ho)

theorem Obeys.transact {store : MetaStore} (h : Obeys law store.rows)
    {body : Prog DriverTxn (TxnEnd ε α)} (hbody : BodyObeys law (fun _ => True) body)
    (fault : Fault) : Obeys law (store.transact body fault).2.rows := by
  rcases transact_atomic store body fault with ⟨error, hfailed⟩ | hsame
  · rw [hfailed]
    exact h
  · rw [hsame]
    rcases hrun : store.transact body .never with ⟨error | answer, after⟩
    · rw [transact_error store body .never error after hrun]
      exact h
    · obtain ⟨entries, txn, hbodyRun, rfl⟩ := transact_ok store body answer after hrun
      have hafter := (hbody { table := store.rows } h).1
      rw [hbodyRun] at hafter
      rw [MetaStore.commit_rows]
      exact hafter

end Laws
end Peryx.Storage
