import Peryx.Pypi.HostedDetail
import Peryx.Core.Utf8
import Peryx.Pypi.HostedJournal
import Peryx.Pypi.ResolveDependence

/-! # What a restore leaves of a removal -/

/-!
## Removing and restoring files (peryx-ecosystem-pypi/src/cache/mutate.rs:185-263)

A removal trashes the uploads of a project and hides the files that come from read-only
layers; a restore takes both back. Each file's row goes in by a transaction of its own.
-/

namespace Peryx.Pypi
open Storage

inductive RemovalError where
  | cache (error : CacheError)
  | hosted (error : TxnError HostedError)
  deriving Repr, DecidableEq

abbrev Removal := Except RemovalError Nat × MetaStore

section Removals
variable (json : UploadJson) (table : CaseMap) (pep : Pep440) [BEq pep.Version]
  (parseUploadTime : Str → Option Int) (recordVersion : Bytes → Option Str)

section Page
variable (errorText : HostedError → Str)

def storeReads (upstream : LayerReads) (project : Str) (store : MetaStore) : LayerReads :=
  { upstream with
    localDetail := fun index =>
      (localDetail json store.rows index.name project).mapError fun error => .failed (errorText error)
    currentSerial := .ok store.serial
    overrides := fun name => .ok (listOverrides store.rows name project) }

variable (upstream : LayerReads) (indexes : List Index) (project : Str)

def servedPage (serveRoute : Str) (denyNoFallbackMiss : Bool) (fuel position : Nat)
    (store : MetaStore) : Option (Except CacheError (Option DetailPage)) :=
  resolveDetailPageWith table pep parseUploadTime
    (storeReads json errorText upstream project store) indexes project serveRoute
    denyNoFallbackMiss fuel position

end Page

def servedFilenames (version : Option Str) (page : Option DetailPage) : List Str :=
  match page with
  | none => []
  | some page => (page.detail.files.map File.filename).filter fun filename =>
    version.all fun version => fileMatchesVersion pep filename version

def uploadFilenames (rows : Rows) (hosted project : Str) : List Str :=
  (listUploadEntries rows hosted project).map Prod.fst

def hideFiles (hosted project : Str) (uploaded : List Str) (time : Int) :
    List Str → Nat → MetaStore → Removal
  | [], affected, store => (.ok affected, store)
  | filename :: filenames, affected, store =>
    if filename ∈ uploaded then hideFiles hosted project uploaded time filenames affected store
    else
      match (HostedTxn.putOverride hosted project filename hidden time).apply json pep recordVersion
          .never store with
      | (.ok _, store) => hideFiles hosted project uploaded time filenames (affected + 1) store
      | (.error error, store) => (.error (.hosted error), store)

def removeFiles (hosted : Str) (isVolatile : Bool) (project : Str) (version : Option Str)
    (trash : TrashContext) (page : Except CacheError (Option DetailPage)) (store : MetaStore) :
    Removal :=
  match page with
  | .error error => (.error (.cache error), store)
  | .ok page =>
    let filenames := servedFilenames pep version page
    let uploaded := uploadFilenames store.rows hosted project
    match (HostedTxn.trash hosted project isVolatile version trash).apply json pep recordVersion
        .never store with
    | (.ok affected, store) =>
      hideFiles json pep recordVersion hosted project uploaded trash.deletedAtUnix filenames affected
        store
    | (.error error, store) => (.error (.hosted error), store)

def unhideFiles (hosted project : Str) (version : Option Str) (time : Int) :
    List (Str × Str) → Nat → MetaStore → Removal
  | [], restored, store => (.ok restored, store)
  | (filename, kind) :: overrides, restored, store =>
    if kind ≠ hidden then unhideFiles hosted project version time overrides restored store
    else if version.any fun version => !fileMatchesVersion pep filename version then
      unhideFiles hosted project version time overrides restored store
    else
      match (HostedTxn.deleteOverride hosted project filename time).apply json pep recordVersion
          .never store with
      | (.ok existed, store) =>
        unhideFiles hosted project version time overrides (restored + existed.toNat) store
      | (.error error, store) => (.error (.hosted error), store)

def restoreFiles (hosted project : Str) (version : Option Str) (time : Int) (store : MetaStore) :
    Removal :=
  match (HostedTxn.untrash hosted project version time).apply json pep recordVersion .never store with
  | (.ok restored, store) =>
    unhideFiles json pep recordVersion hosted project version time
      (listOverrides store.rows hosted project) restored store
  | (.error error, store) => (.error (.hosted error), store)

end Removals
end Peryx.Pypi

namespace Peryx.Pypi
open Storage

def UploadMutation.left (mutation : UploadMutation) (record : Bytes) : Option Bytes :=
  match mutation with
  | .keep => some record
  | .replace bytes => some bytes
  | .delete => none

section Rows
variable (json : UploadJson) (recordVersion : Bytes → Option Str)

theorem mutateRows_left {ε : Type} (index normalized action : Str) (time : Int)
    (mutate : Str → Bytes → Except ε UploadMutation) (rows : List (Str × Bytes))
    (journal : List JournalEntry) (txn last : DriverTxn) (journal' : List JournalEntry)
    (hnodup : (rows.map Prod.fst).Nodup) (hrows : ∀ row ∈ rows, txn.table[row.1]? = some row.2)
    (hrun : (mutateRows recordVersion index normalized action time mutate rows journal).run txn =
      (.ok journal', last)) :
    (∀ row ∈ rows, ∃ mutation, mutate (row.1.drop (projectUploadsPrefix index normalized).length)
        row.2 = .ok mutation ∧ last.table[row.1]? = mutation.left row.2) ∧
      ∀ key, key ∉ rows.map Prod.fst → last.table[key]? = txn.table[key]? := by
  induction rows generalizing journal txn with
  | nil =>
    cases hrun
    exact ⟨List.forall_mem_nil _, fun _ _ => rfl⟩
  | cons row rows ih =>
    obtain ⟨key, record⟩ := row
    obtain ⟨hfirst, hrest⟩ := List.nodup_cons.mp hnodup
    have hrecord := hrows (key, record) List.mem_cons_self
    have hothers : ∀ row ∈ rows, key ≠ row.1 :=
      fun row hrow heq => hfirst (List.mem_map.mpr ⟨row, hrow, heq.symm⟩)
    -- The round writes at most its own row, which the later rounds leave alone.
    have hround : ∀ (next : DriverTxn) (journal : List JournalEntry) (mutation : UploadMutation),
        mutate (key.drop (projectUploadsPrefix index normalized).length) record = .ok mutation →
        (∀ other, next.table[other]? = if key = other then mutation.left record
          else txn.table[other]?) →
        (mutateRows recordVersion index normalized action time mutate rows journal).run next =
          (.ok journal', last) →
        (∀ row ∈ (key, record) :: rows, ∃ mutation,
          mutate (row.1.drop (projectUploadsPrefix index normalized).length) row.2 = .ok mutation ∧
            last.table[row.1]? = mutation.left row.2) ∧
          ∀ other, other ∉ ((key, record) :: rows).map Prod.fst →
            last.table[other]? = txn.table[other]? := by
      intro next journal mutation hmutation hnext hrun
      obtain ⟨hlater, hoff⟩ := ih journal next hrest (fun row hrow => by
        rw [hnext, if_neg (hothers row hrow), hrows row (List.mem_cons_of_mem _ hrow)]) hrun
      constructor
      · rw [List.forall_mem_cons]
        refine ⟨⟨mutation, hmutation, ?_⟩, hlater⟩
        rw [hoff key hfirst, hnext, if_pos rfl]
      · intro other hother
        rw [List.map_cons, List.mem_cons, not_or] at hother
        rw [hoff other hother.2, hnext, if_neg (Ne.symm hother.1)]
    rw [mutateRows] at hrun
    cases hverdict : mutate (key.drop (projectUploadsPrefix index normalized).length) record with
    | error error =>
      simp only [hverdict] at hrun
      cases (Prod.mk.inj hrun).1
    | ok mutation =>
      cases mutation with
      | keep =>
        simp only [hverdict] at hrun
        refine hround txn journal .keep hverdict (fun other => ?_) hrun
        split
        · rename_i heq
          rw [← heq, hrecord]
          rfl
        · rfl
      | replace bytes =>
        simp only [hverdict, Prog.run_bind, run_txnPut] at hrun
        exact hround _ _ (.replace bytes) hverdict
          (fun other => Table.getElem?_set txn.table key other (some bytes)) hrun
      | delete =>
        simp only [hverdict, Prog.run_bind, run_txnRemove] at hrun
        exact hround _ _ .delete hverdict (fun other => txn.remove_getElem? key other) hrun

theorem mutateRows_answers {ε : Type} (index normalized action : Str) (time : Int)
    (mutate : Str → Bytes → Except ε UploadMutation) (rows : List (Str × Bytes))
    (journal : List JournalEntry) (txn : DriverTxn)
    (h : ∀ row ∈ rows, ∃ mutation,
      mutate (row.1.drop (projectUploadsPrefix index normalized).length) row.2 = .ok mutation) :
    ∃ journal' last, (mutateRows recordVersion index normalized action time mutate rows journal).run
      txn = (.ok journal', last) := by
  induction rows generalizing journal txn with
  | nil => exact ⟨journal, txn, rfl⟩
  | cons row rows ih =>
    obtain ⟨key, record⟩ := row
    obtain ⟨mutation, hmutation⟩ := h (key, record) List.mem_cons_self
    have hrest := fun row hrow => h row (List.mem_cons_of_mem _ hrow)
    rw [mutateRows]
    cases mutation with
    | keep =>
      simp only [hmutation]
      exact ih journal txn hrest
    | replace bytes =>
      simp only [hmutation, Prog.run_bind, run_txnPut]
      exact ih _ _ hrest
    | delete =>
      simp only [hmutation, Prog.run_bind, run_txnRemove]
      exact ih _ _ hrest

theorem mutateUploads_answers {ε : Type} (index normalized action : Str) (time : Int)
    (mutate : Str → Bytes → Except ε UploadMutation) (store : MetaStore)
    (h : ∀ filename record, store.rows[uploadKey index normalized filename]? = some record →
      ∃ mutation, mutate filename record = .ok mutation) :
    ∃ answer after, store.transact (mutateUploadsTxn json recordVersion index normalized action time
      mutate) .never = (.ok answer, after) := by
  have hscan : ((txnPrefix (projectUploadsPrefix index normalized)).run { table := store.rows }).2 =
    { table := store.rows } := rfl
  have hmem := mem_txnPrefix (projectUploadsPrefix index normalized) { table := store.rows }
  obtain ⟨journal, last, hloop⟩ := mutateRows_answers recordVersion index normalized action time
    mutate ((txnPrefix (projectUploadsPrefix index normalized)).run { table := store.rows }).1 []
    { table := store.rows } (fun row hrow => by
      obtain ⟨hrecord, filename, hname⟩ := (hmem row).mp hrow
      rw [← hname, List.drop_left]
      refine h filename row.2 ?_
      unfold uploadKey
      rw [hname]
      exact hrecord)
  refine ⟨journal.length, store.commit last (journal.map json.journalEntry),
    transact_answers store _ _ _ _ ?_⟩
  simp only [mutateUploadsTxn, Prog.run_bind, hscan, hloop]
  rfl

def LeftBy {ε : Type} (index normalized : Str) (mutate : Str → Bytes → Except ε UploadMutation)
    (before after : Rows) : Prop :=
  (∀ filename record, before[uploadKey index normalized filename]? = some record →
    ∃ mutation, mutate filename record = .ok mutation ∧
      after[uploadKey index normalized filename]? = mutation.left record) ∧
  ∀ key, ¬ (∃ filename, key = uploadKey index normalized filename) ∨ before[key]? = none →
    after[key]? = before[key]?

theorem mutateUploads_left {ε : Type} (index normalized action : Str) (time : Int)
    (mutate : Str → Bytes → Except ε UploadMutation) (store after : MetaStore) (answer : Nat)
    (h : store.transact (mutateUploadsTxn json recordVersion index normalized action time mutate)
      .never = (.ok answer, after)) :
    LeftBy index normalized mutate store.rows after.rows := by
  obtain ⟨entries, txn, hrun, rfl⟩ := transact_ok store _ answer after h
  have hscan : ((txnPrefix (projectUploadsPrefix index normalized)).run { table := store.rows }).2 =
    { table := store.rows } := rfl
  have hmem := mem_txnPrefix (projectUploadsPrefix index normalized) { table := store.rows }
  simp only [mutateUploadsTxn, Prog.run_bind, hscan] at hrun
  rcases hloop : (mutateRows recordVersion index normalized action time mutate
    ((txnPrefix (projectUploadsPrefix index normalized)).run { table := store.rows }).1 []).run
    { table := store.rows } with ⟨error | journal, last⟩
  · rw [hloop] at hrun
    cases (Prod.mk.inj hrun).1
  · rw [hloop] at hrun
    cases hrun
    obtain ⟨hleft, hoff⟩ := mutateRows_left recordVersion index normalized action time mutate _ []
      { table := store.rows } last journal (scan_nodup _ _)
      (fun row hrow => ((hmem row).mp hrow).1) hloop
    rw [MetaStore.commit_rows]
    constructor
    · intro filename record hrecord
      have hrow := hleft (uploadKey index normalized filename, record)
        ((hmem _).mpr ⟨hrecord, List.prefix_append _ _⟩)
      unfold uploadKey at hrow
      rw [List.drop_left] at hrow
      exact hrow
    · intro key hkey
      refine hoff key fun hscanned => ?_
      obtain ⟨row, hrow, rfl⟩ := List.mem_map.mp hscanned
      obtain ⟨hrecord, filename, hname⟩ := (hmem row).mp hrow
      rcases hkey with hkey | hnone
      · exact hkey ⟨filename, hname.symm⟩
      · rw [hrecord] at hnone
        cases hnone

end Rows

theorem overrideKey_ne_uploadKey (index normalized filename index' normalized' filename' : Str) :
    overrideKey index normalized filename ≠ uploadKey index' normalized' filename' := by
  unfold overrideKey projectOverridesPrefix
  rw [List.append_assoc]
  exact Ne.symm (uploadKey_ne index' normalized' filename' overridePrefix _ rfl (by decide))

theorem mem_listOverrides (rows : Rows) (index normalized filename kind : Str) :
    (filename, kind) ∈ listOverrides rows index normalized ↔
      (rows[overrideKey index normalized filename]?).bind Str.fromUtf8 = some kind := by
  unfold listOverrides
  rw [List.mem_filterMap]
  constructor
  · rintro ⟨key, hkey, hentry⟩
    obtain ⟨_, rest, rfl⟩ := (mem_keysUnder rows _ key).mp hkey
    obtain ⟨found, hfound, heq⟩ := Option.map_eq_some_iff.mp hentry
    rw [List.drop_left] at heq
    cases heq
    exact hfound
  · intro h
    refine ⟨overrideKey index normalized filename, (mem_keysUnder _ _ _).mpr
      ⟨?_, List.prefix_append _ _⟩, ?_⟩
    · cases hrow : rows[overrideKey index normalized filename]? with
      | none =>
        rw [hrow] at h
        cases h
      | some raw => rfl
    · rw [h, Option.map_some]
      exact congrArg (fun name => some (name, kind)) List.drop_left

section Overrides
variable (json : UploadJson) (pep : Pep440) [BEq pep.Version] (recordVersion : Bytes → Option Str)
  (hosted project : Str) (time : Int)

theorem putOverride_rows (filename kind : Str) (store after : MetaStore) (answer : Unit)
    (h : (HostedTxn.putOverride hosted project filename kind time).apply json pep recordVersion .never
      store = (.ok answer, after)) (key : Str) :
    after.rows[key]? = if overrideKey hosted project filename = key then some kind
      else store.rows[key]? := by
  obtain ⟨entries, txn, hrun, rfl⟩ := transact_ok store _ answer after h
  rw [MetaStore.commit_rows]
  change Prog.run (if store.rows[overrideKey hosted project filename]? = some kind then _ else _)
    ({ table := store.rows } : DriverTxn) = _ at hrun
  split at hrun
  · rename_i hsame
    cases hrun
    split
    · rename_i heq
      rw [← heq, hsame]
    · rfl
  · simp only [Prog.run_bind, run_txnPut] at hrun
    cases hrun
    exact Table.getElem?_set store.rows (overrideKey hosted project filename) key (some kind)

theorem deleteOverride_rows (filename : Str) (store after : MetaStore) (answer : Bool)
    (h : (HostedTxn.deleteOverride hosted project filename time).apply json pep recordVersion .never
      store = (.ok answer, after)) (key : Str) :
    after.rows[key]? = if overrideKey hosted project filename = key then none
      else store.rows[key]? := by
  obtain ⟨entries, txn, hrun, rfl⟩ := transact_ok store _ answer after h
  rw [MetaStore.commit_rows]
  simp only [HostedTxn.body, deleteOverrideTxn, Prog.run_bind, run_txnGet] at hrun
  cases hrow : store.rows[overrideKey hosted project filename]? with
  | none =>
    rw [hrow] at hrun
    cases hrun
    split
    · rename_i heq
      rw [← heq, hrow]
    · rfl
  | some prior =>
    rw [hrow] at hrun
    simp only [Prog.run_bind, run_txnRemove] at hrun
    cases hrun
    exact DriverTxn.remove_getElem? { table := store.rows } (overrideKey hosted project filename) key

theorem deleteOverride_answers (filename : Str) (store : MetaStore) : ∃ answer after,
    (HostedTxn.deleteOverride hosted project filename time).apply json pep recordVersion .never
      store = (.ok answer, after) := by
  have hends : ∃ answer entries txn, (deleteOverrideTxn json hosted project filename time :
      Prog DriverTxn (TxnEnd HostedError Bool)).run { table := store.rows } =
        (.ok (answer, entries), txn) := by
    unfold deleteOverrideTxn
    simp only [Prog.run_bind, run_txnGet]
    cases store.rows[overrideKey hosted project filename]? with
    | none => exact ⟨_, _, _, rfl⟩
    | some prior => exact ⟨_, _, _, rfl⟩
  obtain ⟨answer, entries, txn, hrun⟩ := hends
  exact ⟨answer, store.commit txn entries, transact_answers store _ answer entries txn hrun⟩

def hiddenKeys (uploaded filenames : List Str) : List Str :=
  (filenames.filter fun filename => filename ∉ uploaded).map (overrideKey hosted project)

theorem hideFiles_rows (uploaded filenames : List Str) (affected answer : Nat)
    (store after : MetaStore)
    (h : hideFiles json pep recordVersion hosted project uploaded time filenames affected store =
      (.ok answer, after)) (key : Str) :
    after.rows[key]? = if key ∈ hiddenKeys hosted project uploaded filenames then some hidden
      else store.rows[key]? := by
  induction filenames generalizing affected store with
  | nil =>
    cases h
    exact (if_neg List.not_mem_nil).symm
  | cons filename filenames ih =>
    unfold hideFiles at h
    unfold hiddenKeys at ih ⊢
    split at h
    · rename_i hmem
      rw [List.filter_cons_of_neg (by simpa using hmem)]
      exact ih _ _ h
    · rename_i hmem
      rw [List.filter_cons_of_pos (by simpa using hmem), List.map_cons]
      split at h
      · rename_i next hput
        rw [ih _ _ h, putOverride_rows json pep recordVersion hosted project time filename hidden
          store next _ hput key]
        by_cases hlater : key ∈ (filenames.filter fun filename => filename ∉ uploaded).map
          (overrideKey hosted project)
        · rw [if_pos hlater, if_pos (List.mem_cons_of_mem _ hlater)]
        · rw [if_neg hlater]
          by_cases hself : overrideKey hosted project filename = key
          · rw [if_pos hself, if_pos (hself ▸ List.mem_cons_self)]
          · rw [if_neg hself, if_neg fun hmem => (List.mem_cons.mp hmem).elim
              (fun heq => hself heq.symm) hlater]
      · cases (Prod.mk.inj h).1

def unhiddenKeys (version : Option Str) (overrides : List (Str × Str)) : List Str :=
  (overrides.filter fun override => override.2 = hidden ∧
    version.all fun version => fileMatchesVersion pep override.1 version).map
      fun override => overrideKey hosted project override.1

theorem unhideFiles_rows (version : Option Str) (overrides : List (Str × Str))
    (restored answer : Nat) (store after : MetaStore)
    (h : unhideFiles json pep recordVersion hosted project version time overrides restored store =
      (.ok answer, after)) (key : Str) :
    after.rows[key]? = if key ∈ unhiddenKeys pep hosted project version overrides then none
      else store.rows[key]? := by
  have hall : ∀ filename, (version.any fun version => !fileMatchesVersion pep filename version) =
      !version.all fun version => fileMatchesVersion pep filename version := by
    intro filename
    cases version with
    | none => rfl
    | some version => rfl
  induction overrides generalizing restored store with
  | nil =>
    cases h
    exact (if_neg List.not_mem_nil).symm
  | cons override overrides ih =>
    obtain ⟨filename, kind⟩ := override
    unfold unhideFiles at h
    unfold unhiddenKeys at ih ⊢
    split at h
    · rename_i hkind
      rw [List.filter_cons_of_neg (by simp [hkind])]
      exact ih _ _ h
    · rename_i hkind
      rw [hall] at h
      split at h
      · rename_i hversion
        rw [List.filter_cons_of_neg (by simpa using fun _ => hversion)]
        exact ih _ _ h
      · rename_i hversion
        rw [List.filter_cons_of_pos (by simpa using ⟨not_not.mp hkind, by simpa using hversion⟩),
          List.map_cons]
        split at h
        · rename_i next hdelete
          rw [ih _ _ h, deleteOverride_rows json pep recordVersion hosted project time filename
            store next _ hdelete key]
          dsimp only
          by_cases hlater : key ∈ (overrides.filter fun override => override.2 = hidden ∧
              version.all fun version => fileMatchesVersion pep override.1 version).map
                fun override => overrideKey hosted project override.1
          · rw [if_pos hlater, if_pos (List.mem_cons_of_mem _ hlater)]
          · rw [if_neg hlater]
            by_cases hself : overrideKey hosted project filename = key
            · rw [if_pos hself, if_pos (hself ▸ List.mem_cons_self)]
            · rw [if_neg hself, if_neg fun hmem => (List.mem_cons.mp hmem).elim
                (fun heq => hself heq.symm) hlater]
        · cases (Prod.mk.inj h).1

theorem unhideFiles_answers (version : Option Str) (overrides : List (Str × Str))
    (restored : Nat) (store : MetaStore) : ∃ answer after,
      unhideFiles json pep recordVersion hosted project version time overrides restored store =
        (.ok answer, after) := by
  induction overrides generalizing restored store with
  | nil => exact ⟨restored, store, rfl⟩
  | cons override overrides ih =>
    unfold unhideFiles
    split
    · exact ih restored store
    · split
      · exact ih restored store
      · obtain ⟨answer, after, hdelete⟩ := deleteOverride_answers json pep recordVersion hosted
          project time override.1 store
        rw [hdelete]
        exact ih _ after

end Overrides

theorem unyanked_setMetadata (file : File) :
    (file.setMetadata file.metadata).unyanked = file.unyanked := by
  have hmetadata : (file.setMetadata file.metadata).metadata = file.metadata := ite_self _
  unfold File.unyanked
  rw [hmetadata]
  rfl

structure UploadedAlike (agree : Str → Prop) (a b : Uploaded) : Prop where
  version : a.version = b.version
  trashed : a.trashed = b.trashed
  file : FileAlike agree a.file b.file

def RecordAlike (json : UploadJson) (agree : Str → Prop) (a b : Option Bytes) : Prop :=
  Option.Rel (fun old new => Option.Rel (UploadedAlike agree) (json.readUploaded old)
    (json.readUploaded new)) a b

theorem RecordAlike.refl (json : UploadJson) (agree : Str → Prop) (row : Option Bytes) :
    RecordAlike json agree row row := by
  unfold RecordAlike
  cases row with
  | none => exact .none
  | some record =>
    refine .some ?_
    cases json.readUploaded record with
    | none => exact .none
    | some uploaded => exact .some ⟨rfl, rfl, .refl _⟩

/-- No upload of the project is trashed, and no file of it hidden. -/
structure NothingRemoved (json : UploadJson) (rows : Rows) (hosted project : Str) : Prop where
  live : ∀ filename uploaded, HasRecord json rows hosted project filename uploaded →
    uploaded.trashed = none
  shown : ∀ filename, rows[overrideKey hosted project filename]? ≠ some hidden

section Records
variable {json : UploadJson} (pep : Pep440) [BEq pep.Version]

theorem trashUpload_replaced (volatile : Bool) (version : Option Str) (trash : TrashContext)
    (filename : Str) (record : Bytes) (uploaded : Uploaded) (mutation : UploadMutation)
    (hread : json.readUploaded record = some uploaded) (hlive : uploaded.trashed = none)
    (h : trashUpload json pep volatile version trash filename record = .ok mutation) :
    mutation = if otherVersion pep version uploaded then .keep
      else .replace (json.uploaded { uploaded with trashed := some trash.info }) := by
  obtain ⟨found, hfound, h⟩ := (bind_eq_ok _ _ _).mp h
  cases (decodeUploaded_ok json record found hfound).symm.trans hread
  rw [hlive, Option.isSome_none, Bool.or_false] at h
  split at h
  · rename_i hother
    cases h
    rw [if_pos hother]
  · rename_i hother
    split at h
    · cases h
    · cases h
      rw [if_neg hother]

theorem untrashUpload_replaced (version : Option Str) (filename : Str) (record : Bytes)
    (uploaded : Uploaded) (mutation : UploadMutation)
    (hread : json.readUploaded record = some uploaded)
    (h : untrashUpload json pep version filename record = .ok mutation) :
    mutation = if uploaded.trashed.isNone || otherVersion pep version uploaded then .keep
      else .replace (json.uploaded { uploaded with trashed := none }) := by
  obtain ⟨found, hfound, h⟩ := (bind_eq_ok _ _ _).mp h
  cases (decodeUploaded_ok json record found hfound).symm.trans hread
  split at h
  · rename_i hkept
    cases h
    rw [if_pos hkept]
  · rename_i hkept
    cases h
    rw [if_neg hkept]

theorem record_restored (hjson : json.Faithful) (agree : Str → Prop) (volatile : Bool)
    (version : Option Str) (trash : TrashContext) (filename : Str) (record : Bytes)
    (trashed restored : UploadMutation) (middle : Bytes)
    (hlive : ∀ uploaded, json.readUploaded record = some uploaded → uploaded.trashed = none)
    (htrash : trashUpload json pep volatile version trash filename record = .ok trashed)
    (hmiddle : trashed.left record = some middle)
    (hrestore : untrashUpload json pep version filename middle = .ok restored) :
    RecordAlike json agree (some record) (restored.left middle) := by
  obtain ⟨uploaded, hfound, _⟩ := (bind_eq_ok _ _ _).mp htrash
  have hread := decodeUploaded_ok json record uploaded hfound
  have hnone := hlive uploaded hread
  rw [trashUpload_replaced pep volatile version trash filename record uploaded trashed hread hnone
    htrash] at hmiddle
  split at hmiddle
  · cases hmiddle
    rw [untrashUpload_replaced pep version filename record uploaded restored hread hrestore, hnone]
    exact .refl json agree (some record)
  · rename_i hother
    cases hmiddle
    have hback := hjson.read { uploaded with trashed := some trash.info }
    have hversion : otherVersion pep version
        { uploaded with
          file := uploaded.file.setMetadata uploaded.file.metadata
          trashed := some trash.info } = otherVersion pep version uploaded := rfl
    rw [untrashUpload_replaced pep version filename _ _ restored hback hrestore, hversion,
      Option.isNone_some, Bool.false_or, if_neg hother]
    refine .some ?_
    rw [hread, hjson.read]
    have htwice : ∀ file : File, file.unyanked =
        ((file.setMetadata file.metadata).setMetadata
          (file.setMetadata file.metadata).metadata).unyanked := by
      intro file
      rw [unyanked_setMetadata, unyanked_setMetadata]
    exact .some ⟨rfl, hnone, htwice uploaded.file, fun _ => rfl⟩

theorem trashUpload_left (volatile : Bool) (version : Option Str) (trash : TrashContext)
    (filename : Str) (record : Bytes) (mutation : UploadMutation) (hjson : json.Faithful)
    (hlive : ∀ uploaded, json.readUploaded record = some uploaded → uploaded.trashed = none)
    (h : trashUpload json pep volatile version trash filename record = .ok mutation) :
    ∃ middle, mutation.left record = some middle ∧ (json.readUploaded middle).isSome := by
  obtain ⟨uploaded, hfound, _⟩ := (bind_eq_ok _ _ _).mp h
  have hread := decodeUploaded_ok json record uploaded hfound
  rw [trashUpload_replaced pep volatile version trash filename record uploaded mutation hread
    (hlive uploaded hread) h]
  split
  · exact ⟨record, rfl, by rw [hread]; rfl⟩
  · exact ⟨_, rfl, by rw [hjson.read]; rfl⟩

theorem untrashUpload_answers (version : Option Str) (filename : Str) (record : Bytes)
    (hread : (json.readUploaded record).isSome) :
    ∃ mutation, untrashUpload json pep version filename record = .ok mutation := by
  obtain ⟨uploaded, hread⟩ := Option.isSome_iff_exists.mp hread
  unfold untrashUpload decodeUploaded
  rw [hread]
  dsimp only [bind, Except.bind]
  split
  · exact ⟨_, rfl⟩
  · exact ⟨_, rfl⟩

end Records

section Removal
variable {json : UploadJson} (pep : Pep440) [BEq pep.Version] (recordVersion : Bytes → Option Str)
  (hosted project : Str) (isVolatile : Bool) (version : Option Str) (trash : TrashContext)
  (time : Int)

def removedKeys (rows : Rows) (page : Option DetailPage) : List Str :=
  hiddenKeys hosted project (uploadFilenames rows hosted project) (servedFilenames pep version page)

structure RestoredRows (json : UploadJson) (hosted project : Str) (removed : List Str)
    (before after : Rows) : Prop where
  uploads : ∀ agree filename, RecordAlike json agree
    before[uploadKey hosted project filename]? after[uploadKey hosted project filename]?
  others : ∀ key, (∀ filename, key ≠ uploadKey hosted project filename) →
    after[key]? = if key ∈ removed then none else before[key]?

theorem mem_unhiddenKeys (rows : Rows) (key : Str) :
    key ∈ unhiddenKeys pep hosted project version (listOverrides rows hosted project) ↔
      ∃ filename, rows[overrideKey hosted project filename]? = some hidden ∧
        (version.all fun version => fileMatchesVersion pep filename version) = true ∧
        overrideKey hosted project filename = key := by
  have hkind : ∀ row : Option Bytes, row.bind Str.fromUtf8 = some hidden ↔ row = some hidden := by
    intro row
    constructor
    · intro h
      obtain ⟨raw, hraw, h⟩ := Option.bind_eq_some_iff.mp h
      rw [hraw, ((Str.fromUtf8_eq_some _ _).mp h).2]
    · rintro rfl
      decide
  unfold unhiddenKeys
  rw [List.mem_map]
  constructor
  · rintro ⟨⟨filename, kind⟩, hentry, hkey⟩
    obtain ⟨hlisted, hversion⟩ := List.mem_filter.mp hentry
    obtain ⟨rfl, hversion⟩ := of_decide_eq_true hversion
    exact ⟨filename, (hkind _).mp ((mem_listOverrides _ _ _ _ _).mp hlisted), hversion, hkey⟩
  · rintro ⟨filename, hrow, hversion, hkey⟩
    refine ⟨(filename, hidden), List.mem_filter.mpr ⟨?_, decide_eq_true ⟨rfl, hversion⟩⟩, hkey⟩
    exact (mem_listOverrides _ _ _ _ _).mpr ((hkind _).mpr hrow)

theorem mem_removedKeys (rows : Rows) (page : Option DetailPage) (key : Str)
    (h : key ∈ removedKeys pep hosted project version rows page) :
    ∃ filename, overrideKey hosted project filename = key ∧
      (version.all fun version => fileMatchesVersion pep filename version) = true := by
  obtain ⟨filename, hfilename, rfl⟩ := List.mem_map.mp h
  refine ⟨filename, rfl, ?_⟩
  have hserved := (List.mem_filter.mp hfilename).1
  cases page with
  | none => cases hserved
  | some page => exact (List.mem_filter.mp hserved).2

omit [BEq pep.Version] pep in
theorem uploadKey_not_mem (keys : List Str)
    (h : ∀ key ∈ keys, ∃ filename, overrideKey hosted project filename = key) (filename : Str) :
    uploadKey hosted project filename ∉ keys := by
  intro hmem
  obtain ⟨name, hname⟩ := h _ hmem
  exact overrideKey_ne_uploadKey _ _ _ _ _ _ hname

structure RemovedRows (json : UploadJson) (removed : List Str) (before after : Rows) : Prop where
  uploads : ∀ filename record, before[uploadKey hosted project filename]? = some record →
    ∃ mutation middle, trashUpload json pep isVolatile version trash filename record =
        .ok mutation ∧ mutation.left record = some middle ∧ (json.readUploaded middle).isSome ∧
      after[uploadKey hosted project filename]? = some middle
  absent : ∀ filename, before[uploadKey hosted project filename]? = none →
    after[uploadKey hosted project filename]? = none
  others : ∀ key, (∀ filename, key ≠ uploadKey hosted project filename) →
    after[key]? = if key ∈ removed then some hidden else before[key]?

theorem removeFiles_rows (hjson : json.Faithful) (page : Except CacheError (Option DetailPage))
    (store removed : MetaStore) (affected : Nat)
    (hlive : ∀ filename uploaded, HasRecord json store.rows hosted project filename uploaded →
      uploaded.trashed = none)
    (hremove : removeFiles json pep recordVersion hosted isVolatile project version trash page store =
      (.ok affected, removed)) :
    ∃ found, page = .ok found ∧ RemovedRows pep hosted project isVolatile version trash json
      (removedKeys pep hosted project version store.rows found) store.rows removed.rows := by
  cases page with
  | error error => cases (Prod.mk.inj hremove).1
  | ok found =>
    unfold removeFiles at hremove
    dsimp only at hremove
    split at hremove
    case h_2 => cases (Prod.mk.inj hremove).1
    rename_i trashed htrash
    obtain ⟨htrashed, hkept⟩ := mutateUploads_left json recordVersion hosted project _ _ _ store
      trashed _ htrash
    have hhidden := hideFiles_rows json pep recordVersion hosted project _ _ _ _ _ trashed removed
      hremove
    have huploads : ∀ filename, removed.rows[uploadKey hosted project filename]? =
        trashed.rows[uploadKey hosted project filename]? := by
      intro filename
      rw [hhidden, if_neg (uploadKey_not_mem hosted project _ (fun key hkey => ?_) filename)]
      obtain ⟨name, hname, _⟩ := mem_removedKeys pep hosted project version store.rows found key hkey
      exact ⟨name, hname⟩
    refine ⟨found, rfl, ?_, ?_, ?_⟩
    · intro filename record hrow
      obtain ⟨mutation, hmutation, hleft⟩ := htrashed filename record hrow
      obtain ⟨middle, hmiddle, hread⟩ := trashUpload_left pep isVolatile version trash filename
        record mutation hjson (fun uploaded hread => hlive filename uploaded ⟨record, hrow, hread⟩)
        hmutation
      exact ⟨mutation, middle, hmutation, hmiddle, hread,
        (huploads filename).trans (hleft.trans hmiddle)⟩
    · intro filename hnone
      rw [huploads, hkept _ (.inr hnone), hnone]
    · intro key hkey
      rw [hhidden, hkept key (.inl fun ⟨filename, heq⟩ => hkey filename heq)]
      rfl

theorem restoreFiles_rows (hjson : json.Faithful) (page : Option DetailPage)
    (before : Rows) (removed : MetaStore) (hnothing : NothingRemoved json before hosted project)
    (hremoved : RemovedRows pep hosted project isVolatile version trash json
      (removedKeys pep hosted project version before page) before removed.rows) :
    ∃ count restored, restoreFiles json pep recordVersion hosted project version time removed =
        (.ok count, restored) ∧
      RestoredRows json hosted project (removedKeys pep hosted project version before page)
        before restored.rows := by
  obtain ⟨taken, untrashed, huntrash⟩ := mutateUploads_answers json recordVersion hosted project
    (str "restore") time (untrashUpload json pep version) removed (fun filename record hrow => by
      cases hstored : before[uploadKey hosted project filename]? with
      | none =>
        rw [hremoved.absent filename hstored] at hrow
        cases hrow
      | some stored =>
        obtain ⟨_, middle, _, _, hread, hmiddle⟩ := hremoved.uploads filename stored hstored
        rw [hmiddle] at hrow
        cases hrow
        exact untrashUpload_answers pep version filename record hread)
  obtain ⟨huntrashed, huntouched⟩ := mutateUploads_left json recordVersion hosted project _ _ _
    removed untrashed taken huntrash
  obtain ⟨count, restored, hrestore⟩ := unhideFiles_answers json pep recordVersion hosted project
    time version (listOverrides untrashed.rows hosted project) taken untrashed
  have hshown := unhideFiles_rows json pep recordVersion hosted project time version _ taken count
    untrashed restored hrestore
  refine ⟨count, restored, ?_, ?_, ?_⟩
  · have happly : (HostedTxn.untrash hosted project version time).apply json pep recordVersion
        .never removed = (.ok taken, untrashed) := huntrash
    unfold restoreFiles
    rw [happly]
    exact hrestore
  · intro agree filename
    rw [hshown, if_neg (uploadKey_not_mem hosted project _ (fun key hkey => ?_) filename)]
    · cases hrow : before[uploadKey hosted project filename]? with
      | none =>
        have hnone := hremoved.absent filename hrow
        rw [huntouched _ (.inr hnone), hnone]
        exact .none
      | some record =>
        obtain ⟨mutation, middle, hmutation, hleft, _, hmiddle⟩ :=
          hremoved.uploads filename record hrow
        obtain ⟨back, hback, hrestored⟩ := huntrashed filename middle hmiddle
        rw [hrestored]
        exact record_restored pep hjson agree isVolatile version trash filename record mutation back
          middle (fun uploaded hread => hnothing.live filename uploaded ⟨record, hrow, hread⟩)
          hmutation hleft hback
    · obtain ⟨name, _, _, hname⟩ := (mem_unhiddenKeys pep hosted project version _ key).mp hkey
      exact ⟨name, hname⟩
  · intro key hkey
    have hrow : untrashed.rows[key]? =
        if key ∈ removedKeys pep hosted project version before page then some hidden
        else before[key]? := by
      rw [huntouched key (.inl fun ⟨filename, heq⟩ => hkey filename heq), hremoved.others key hkey]
    -- The overrides that are dropped are those the removal wrote: nothing was hidden before.
    have hdropped : key ∈ unhiddenKeys pep hosted project version
          (listOverrides untrashed.rows hosted project) ↔
        key ∈ removedKeys pep hosted project version before page := by
      rw [mem_unhiddenKeys]
      constructor
      · rintro ⟨filename, hhidden, _, rfl⟩
        by_contra hnot
        rw [hrow, if_neg hnot] at hhidden
        exact hnothing.shown filename hhidden
      · intro hmem
        obtain ⟨filename, rfl, hversion⟩ := mem_removedKeys pep hosted project version before page
          key hmem
        exact ⟨filename, by rw [hrow, if_pos hmem], hversion, rfl⟩
    rw [hshown, hrow]
    simp only [hdropped]
    split
    · rfl
    · rfl

end Removal

end Peryx.Pypi
