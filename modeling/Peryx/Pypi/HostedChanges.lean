import Peryx.Pypi.HostedMutations

/-! # The rows and the entries of a hosted transaction -/

namespace Peryx.Pypi
open Storage

/-- The entries name the file rows that were changed, each once, and `siblings` are the
rows that go in with any of them. -/
structure RowsChanged (rowKey : JournalEntry → Str) (siblings : List (Str × Bytes))
    (how : Str → Option Bytes → Option Bytes → Prop) (before after : Rows)
    (entries : List JournalEntry) : Prop where
  files : Table.Rewrites (fun key => key ∉ siblings.map Prod.fst) how before after
    (entries.map rowKey)
  idle : entries = [] → after = before
  siblings : entries ≠ [] → ∀ row ∈ siblings, after[row.1]? = some row.2

def uploadRow (index : Str) (entry : JournalEntry) : Str :=
  uploadKey index entry.project (entry.filename.getD [])

def overrideRow (index : Str) (entry : JournalEntry) : Str :=
  overrideKey index entry.project (entry.filename.getD [])

def Created (_key : Str) (before after : Option Bytes) : Prop := before = none ∧ after.isSome

section Idle
variable {rowKey : JournalEntry → Str} {siblings : List (Str × Bytes)}
  {how : Str → Option Bytes → Option Bytes → Prop}

theorem RowsChanged.nothing (rows : Rows) : RowsChanged rowKey siblings how rows rows [] :=
  ⟨.nil _ _ _, fun _ => rfl, fun h => absurd rfl h⟩

theorem RowsChanged.one (before after : Rows) (entry : JournalEntry)
    (hother : ∀ key, rowKey entry ≠ key → after[key]? = before[key]?)
    (hne : before[rowKey entry]? ≠ after[rowKey entry]?)
    (hhow : how (rowKey entry) before[rowKey entry]? after[rowKey entry]?) :
    RowsChanged rowKey [] how before after [entry] where
  files := (Table.Rewrites.nil _ how before).write (rowKey entry) List.not_mem_nil List.not_mem_nil
    (fun key _ => hother key) hne hhow
  idle h := absurd h (List.cons_ne_nil _ _)
  siblings _ := List.forall_mem_nil _

theorem rows_ext (before after : Rows) (h : ∀ key : Str, after[key]? = before[key]?) :
    after = before :=
  Std.ExtTreeMap.ext_getElem? fun {key} => h key

end Idle

def PublishedFile.siblings (file : PublishedFile) : List (Str × Bytes) :=
  (file.metadata.elim [] fun sibling => [(metadataKey file.artifactSha256,
      metadataValue sibling.url sibling.metadataSha256 sibling.source)]) ++
    (file.provenance.elim [] fun sibling => [(provenanceKey file.artifactSha256,
      provenanceValue sibling.provenanceSha256 sibling.size)]) ++
    [(projectKey file.index file.normalized, file.display)]

section Publish
variable (file : PublishedFile)

theorem uploadKey_ne (index normalized filename : Str) (start rest : Str) (hlength : start.length = 7)
    (hne : uploadPrefix ≠ start) : uploadKey index normalized filename ≠ start ++ rest := by
  unfold uploadKey projectUploadsPrefix
  rw [List.append_assoc]
  exact key_ne uploadPrefix start rfl hlength hne _ _

theorem upload_not_sibling (index normalized filename : Str) :
    uploadKey index normalized filename ∉ file.siblings.map Prod.fst := by
  have hmetadata : ∀ sha256, uploadKey index normalized filename ≠ metadataKey sha256 :=
    fun sha256 => uploadKey_ne _ _ _ metadataPrefix sha256 rfl (by decide)
  have hprovenance : ∀ sha256, uploadKey index normalized filename ≠ provenanceKey sha256 :=
    fun sha256 => uploadKey_ne _ _ _ provenancePrefix sha256 rfl (by decide)
  have hproject : ∀ index' normalized', uploadKey index normalized filename ≠
      projectKey index' normalized' :=
    fun _ _ => uploadKey_ne _ _ _ projectsPrefix _ rfl (by decide)
  unfold PublishedFile.siblings
  cases file.metadata <;> cases file.provenance <;> simp [hmetadata, hprovenance, hproject]

theorem lastPut_siblings (index normalized filename : Str) :
    lastPut file.siblings (uploadKey index normalized filename) = none :=
  lastPut_none _ _ fun put hput heq =>
    upload_not_sibling file index normalized filename (List.mem_map.mpr ⟨put, hput, heq⟩)

theorem siblings_nodup : (file.siblings.map Prod.fst).Nodup := by
  have hmetadata : metadataKey file.artifactSha256 ≠ provenanceKey file.artifactSha256 :=
    key_ne metadataPrefix provenancePrefix rfl rfl (by decide) _ _
  have hproject : metadataKey file.artifactSha256 ≠ projectKey file.index file.normalized :=
    key_ne metadataPrefix projectsPrefix rfl rfl (by decide) _ _
  have hprovenance : provenanceKey file.artifactSha256 ≠ projectKey file.index file.normalized :=
    key_ne provenancePrefix projectsPrefix rfl rfl (by decide) _ _
  unfold PublishedFile.siblings
  cases file.metadata <;> cases file.provenance <;> simp [hmetadata, hproject, hprovenance]

theorem ops_puts (key : Str) : lastPut (file.ops.flatMap TxnOp.puts) key =
    (lastPut file.siblings key).or
      (if uploadKey file.index file.normalized file.filename = key then some file.record else none) := by
  have hnot := upload_not_sibling file file.index file.normalized file.filename
  have hpick : ∀ before after : List (Str × Bytes), before ++ after = file.siblings →
      lastPut (before ++ (uploadKey file.index file.normalized file.filename, file.record) :: after) key =
        (lastPut file.siblings key).or
          (if uploadKey file.index file.normalized file.filename = key then some file.record
            else none) := by
    intro before after hparts
    by_cases hkey : uploadKey file.index file.normalized file.filename = key
    · have habsent : ∀ put ∈ before ++ after, put.1 ≠ key := by
        intro put hput heq
        rw [hparts] at hput
        exact hnot (hkey ▸ heq ▸ List.mem_map_of_mem hput)
      rw [← hparts, lastPut_append, lastPut_none _ _ habsent, lastPut, if_pos hkey,
        lastPut_none after _ fun put hput => habsent put (List.mem_append_right _ hput)]
      rfl
    · rw [← hparts, lastPut_append, lastPut_append, lastPut, if_neg hkey, Option.or_none,
        Option.or_none]
  unfold PublishedFile.ops PublishedFile.siblings at *
  cases hmetadata : file.metadata <;> cases hprovenance : file.provenance <;>
    simp only [hmetadata, hprovenance, Option.elim_none, Option.elim_some] at hpick ⊢
  · exact hpick [] _ rfl
  · exact hpick [_] [_] rfl
  · exact hpick [_] [_] rfl
  · exact hpick [_, _] [_] rfl

theorem ops_onlyPuts : ∀ op ∈ file.ops, op.OnlyPuts := by
  unfold PublishedFile.ops
  cases file.metadata <;> cases file.provenance <;> simp [TxnOp.OnlyPuts]

theorem published_getElem? (rows : Rows) (key : Str) :
    (file.ops.foldl TxnOp.stage { table := rows }).table[key]? =
      ((lastPut file.siblings key).or
        (if uploadKey file.index file.normalized file.filename = key then some file.record
          else none)).or rows[key]? := by
  rw [stageAll_getElem? _ (ops_onlyPuts file), ops_puts]

theorem published_upload (rows : Rows) : (file.ops.foldl TxnOp.stage { table := rows }).table[uploadKey
    file.index file.normalized file.filename]? = some file.record := by
  rw [published_getElem?, lastPut_siblings, if_pos rfl]
  rfl

variable {ε : Type} (json : UploadJson)

theorem publishFileTxn_changes (guard : Option Bytes → Except ε Guard)
    (hguard : ∀ existing, guard existing = .ok .commit → existing = none) (rows : Rows)
    (answer : Bool) (journal : List Bytes) (txn : DriverTxn)
    (h : (publishFileTxn json file guard).run { table := rows } = (.ok (answer, journal), txn)) :
    ∃ entries, journal = entries.map json.journalEntry ∧
      RowsChanged (uploadRow file.index) file.siblings Created rows txn.table entries := by
  simp only [publishFileTxn, Prog.run_bind, run_txnGet] at h
  cases hverdict : guard rows[uploadKey file.index file.normalized file.filename]? with
  | error error =>
    rw [hverdict] at h
    cases (Prod.mk.inj h).1
  | ok verdict =>
    cases verdict with
    | skip =>
      rw [hverdict] at h
      cases h
      exact ⟨[], rfl, .nothing rows⟩
    | commit =>
      rw [hverdict] at h
      simp only [Prog.run_bind, run_calls] at h
      cases h
      have hnone := hguard _ hverdict
      have hupload := published_upload file rows
      refine ⟨[file.entry], rfl, ?_, fun hnil => absurd hnil (List.cons_ne_nil _ _), ?_⟩
      · refine (Table.Rewrites.nil _ Created rows).write
          (uploadKey file.index file.normalized file.filename) List.not_mem_nil
          (upload_not_sibling file _ _ _) ?_ ?_ ?_
        · intro key hwatched hne
          have habsent := lastPut_none file.siblings key fun put hput heq =>
            hwatched (heq ▸ List.mem_map_of_mem hput)
          rw [published_getElem?, habsent, if_neg hne]
          rfl
        · rw [hnone, hupload]
          exact (Option.some_ne_none _).symm
        · refine ⟨hnone, ?_⟩
          rw [hupload]
          rfl
      · intro _ row hrow
        rw [published_getElem?, lastPut_of_mem _ (siblings_nodup file) row hrow]
        rfl

end Publish

section Promote
variable {ε : Type} (json : UploadJson) (recordVersion : Bytes → Option Str)
  (release : PromotedRelease) (guard : Str → Str → Option Bytes → Except ε Guard)

def FreshOnly (guard : Str → Str → Option Bytes → Except ε Guard) : Prop :=
  ∀ filename token existing, guard filename token existing = .ok .commit → existing = none

def PromotedRelease.siblings : List (Str × Bytes) :=
  [(projectKey release.index release.normalized, release.display)]

theorem promoted_not_sibling (entry : JournalEntry) :
    uploadRow release.index entry ∉ release.siblings.map Prod.fst :=
  fun h => uploadKey_ne _ _ _ projectsPrefix _ rfl (by decide) (List.mem_singleton.mp h)

theorem promotedOps_onlyPuts (file : PromotedFile) : ∀ op ∈ release.ops file, op.OnlyPuts := by
  unfold PromotedRelease.ops
  cases release.blobSizes[file.token]? <;> simp [TxnOp.OnlyPuts]

theorem promotedOps_puts (file : PromotedFile) : (release.ops file).flatMap TxnOp.puts =
    [(uploadKey release.index release.normalized file.filename, file.record)] := by
  unfold PromotedRelease.ops
  cases release.blobSizes[file.token]? <;> rfl

theorem promoted_getElem? (file : PromotedFile) (txn : DriverTxn) (key : Str) :
    ((release.ops file).foldl TxnOp.stage txn).table[key]? =
      if uploadKey release.index release.normalized file.filename = key then some file.record
      else txn.table[key]? := by
  rw [stageAll_getElem? _ (promotedOps_onlyPuts release file), promotedOps_puts]
  simp only [lastPut, Option.none_or]
  split <;> rfl

def Promoting (rows : Rows) (txn : DriverTxn) (written : Nat) (journal : List JournalEntry) : Prop :=
  written = journal.length ∧ Table.Rewrites (fun _ => True) Created rows txn.table
    (journal.map (uploadRow release.index))

theorem Promoting.commit (hguard : FreshOnly guard) (rows : Rows) (txn : DriverTxn) (written : Nat)
    (journal : List JournalEntry) (file : PromotedFile)
    (h : Promoting release rows txn written journal)
    (hcommit : guard file.filename file.token
      txn.table[uploadKey release.index release.normalized file.filename]? = .ok .commit) :
    Promoting release rows ((release.ops file).foldl TxnOp.stage txn) (written + 1)
      (journal ++ [release.entry recordVersion file]) := by
  obtain ⟨hwritten, hrows⟩ := h
  have hnone := hguard _ _ _ hcommit
  have hnew : uploadKey release.index release.normalized file.filename ∉
      journal.map (uploadRow release.index) := by
    intro hmem
    have hcreated := (hrows.on _ hmem).2.2.2
    rw [hnone] at hcreated
    cases hcreated
  have hbefore := hrows.off _ trivial hnew
  have hafter : ((release.ops file).foldl TxnOp.stage txn).table[uploadKey release.index
      release.normalized file.filename]? = some file.record := by
    rw [promoted_getElem?, if_pos rfl]
  refine ⟨by rw [hwritten, List.length_append, List.length_singleton], ?_⟩
  rw [List.map_append]
  refine hrows.write (uploadKey release.index release.normalized file.filename) hnew trivial
    ?_ ?_ ?_
  · intro key _ hne
    rw [promoted_getElem?, if_neg hne]
  · rw [← hbefore, hnone, hafter]
    exact (Option.some_ne_none _).symm
  · rw [← hbefore, hnone, hafter]
    exact ⟨rfl, rfl⟩

theorem promoteRecords_changes (hguard : FreshOnly guard) (rows : Rows)
    (files : List PromotedFile) (written : Nat)
    (journal : List JournalEntry) (txn last : DriverTxn) (written' : Nat)
    (journal' : List JournalEntry) (h : Promoting release rows txn written journal)
    (hrun : (promoteRecords recordVersion release guard files written journal).run txn =
      (.ok (written', journal'), last)) : Promoting release rows last written' journal' := by
  induction files generalizing written journal txn with
  | nil =>
    cases hrun
    exact h
  | cons file files ih =>
    rw [promoteRecords, Prog.run_bind, run_txnGet] at hrun
    cases hverdict : guard file.filename file.token
        txn.table[uploadKey release.index release.normalized file.filename]? with
    | error error =>
      simp only [hverdict] at hrun
      cases (Prod.mk.inj hrun).1
    | ok verdict =>
      cases verdict with
      | skip =>
        simp only [hverdict] at hrun
        exact ih written journal txn h hrun
      | commit =>
        simp only [hverdict, Prog.run_bind, run_calls] at hrun
        exact ih _ _ _ (h.commit recordVersion release guard hguard rows txn written journal file hverdict) hrun

theorem promoteFilesTxn_changes (hguard : FreshOnly guard) (rows : Rows) (answer : Nat)
    (journal : List Bytes) (txn : DriverTxn)
    (h : (promoteFilesTxn json recordVersion release guard).run { table := rows } =
      (.ok (answer, journal), txn)) :
    ∃ entries, journal = entries.map json.journalEntry ∧
      RowsChanged (uploadRow release.index) release.siblings Created rows txn.table entries := by
  simp only [promoteFilesTxn, Prog.run_bind] at h
  rcases hloop : (promoteRecords recordVersion release guard release.records 0 []).run
    { table := rows } with ⟨error | ⟨written, entries⟩, last⟩
  · rw [hloop] at h
    cases (Prod.mk.inj h).1
  · have hstart : Promoting release rows { table := rows } 0 [] := ⟨rfl, .nil _ _ _⟩
    obtain ⟨hwritten, hrows⟩ := promoteRecords_changes recordVersion release guard hguard rows
      release.records 0 [] { table := rows } last written entries hstart hloop
    rw [hloop] at h
    cases written with
    | zero =>
      have hentries : entries = [] := List.length_eq_zero_iff.mp hwritten.symm
      subst hentries
      cases h
      refine ⟨[], rfl, ?_⟩
      rw [rows_ext rows last.table fun key => hrows.off key trivial List.not_mem_nil]
      exact .nothing rows
    | succ written =>
      simp only [Prog.run_bind, run_txnPut] at h
      cases h
      have hput : ∀ key, (last.put (projectKey release.index release.normalized)
          release.display).table[key]? = if projectKey release.index release.normalized = key
            then some release.display else last.table[key]? := fun key =>
        Table.getElem?_set last.table _ key (some release.display)
      have hentries : entries ≠ [] := by
        intro hnil
        rw [hnil] at hwritten
        cases hwritten
      refine ⟨entries, rfl, ?_, fun hnil => absurd hnil hentries, ?_⟩
      · refine (hrows.narrow _ (fun _ _ => trivial) ?_).unwatched ?_
        · intro key hkey
          obtain ⟨entry, _, rfl⟩ := List.mem_map.mp hkey
          exact promoted_not_sibling release entry
        · intro key hkey
          rw [hput, if_neg fun heq => hkey (List.mem_singleton.mpr heq.symm)]
      · intro _ row hrow
        rw [List.mem_singleton.mp hrow, hput, if_pos rfl]

end Promote

section Mutate
variable {ε : Type} (json : UploadJson) (recordVersion : Bytes → Option Str)
  (index normalized action : Str) (submittedAtUnix : Int)
  (mutate : Str → Bytes → Except ε UploadMutation)

def Mutated (key : Str) (before after : Option Bytes) : Prop :=
  ∃ record, before = some record ∧
    (∀ bytes, after = some bytes →
      mutate (key.drop (projectUploadsPrefix index normalized).length) record = .ok (.replace bytes))

def Proper (mutate : Str → Bytes → Except ε UploadMutation) : Prop :=
  ∀ filename record bytes, mutate filename record = .ok (.replace bytes) → bytes ≠ record

theorem scan_nodup (start : Str) (txn : DriverTxn) :
    (((txnPrefix start).run txn).1.map Prod.fst).Nodup := by
  have hkeys : (txn.table.toList.map Prod.fst).Nodup := by
    refine List.pairwise_map.mpr (txn.table.distinct_keys_toList.imp fun {a b} hab heq => hab ?_)
    rw [heq]
    exact Std.ReflCmp.compare_self
  exact hkeys.sublist (List.filter_sublist.map Prod.fst)

theorem scanned_row (key : Str) (version : Option Str)
    (h : projectUploadsPrefix index normalized <+: key) :
    uploadRow index (fileEntry action normalized version
      (key.drop (projectUploadsPrefix index normalized).length) submittedAtUnix) = key := by
  obtain ⟨filename, rfl⟩ := h
  simp only [uploadRow, fileEntry, Option.getD_some, uploadKey, List.drop_left]

theorem mutateRows_changes (hproper : Proper mutate) (before : Rows) (rows : List (Str × Bytes))
    (journal : List JournalEntry) (txn last : DriverTxn) (journal' : List JournalEntry)
    (h : Table.Rewrites (fun _ => True) (Mutated index normalized mutate) before txn.table
      (journal.map (uploadRow index)))
    (hrows : ∀ row ∈ rows, before[row.1]? = some row.2 ∧
      projectUploadsPrefix index normalized <+: row.1 ∧ row.1 ∉ journal.map (uploadRow index))
    (hnodup : (rows.map Prod.fst).Nodup)
    (hrun : (mutateRows recordVersion index normalized action submittedAtUnix mutate rows
      journal).run txn = (.ok journal', last)) :
    Table.Rewrites (fun _ => True) (Mutated index normalized mutate) before last.table
      (journal'.map (uploadRow index)) := by
  induction rows generalizing journal txn with
  | nil =>
    cases hrun
    exact h
  | cons row rows ih =>
    obtain ⟨key, record⟩ := row
    obtain ⟨hrecord, hkey, hnew⟩ := hrows (key, record) List.mem_cons_self
    obtain ⟨hfirst, hrest⟩ := List.nodup_cons.mp hnodup
    have hentry := scanned_row index normalized action submittedAtUnix key
      (journalVersion recordVersion (key.drop (projectUploadsPrefix index normalized).length) record)
      hkey
    -- A row that is written leaves the rows still to come as they were.
    have hwrite : ∀ next : DriverTxn, (∀ other, key ≠ other → next.table[other]? = txn.table[other]?) →
        before[key]? ≠ next.table[key]? →
        Mutated index normalized mutate key before[key]? next.table[key]? →
        (mutateRows recordVersion index normalized action submittedAtUnix mutate rows
          (journal ++ [fileEntry action normalized (journalVersion recordVersion
            (key.drop (projectUploadsPrefix index normalized).length) record)
            (key.drop (projectUploadsPrefix index normalized).length) submittedAtUnix])).run next =
          (.ok journal', last) →
        Table.Rewrites (fun _ => True) (Mutated index normalized mutate) before last.table
          (journal'.map (uploadRow index)) := by
      intro next hother hne hhow hrun
      refine ih _ next ?_ ?_ hrest hrun
      · rw [List.map_append, List.map_singleton, hentry]
        exact h.write key hnew trivial (fun other _ => hother other) hne hhow
      · intro row hrow
        obtain ⟨hsame, hstart, hnot⟩ := hrows row (List.mem_cons_of_mem _ hrow)
        refine ⟨hsame, hstart, ?_⟩
        rw [List.map_append, List.map_singleton, hentry, List.mem_append, List.mem_singleton, not_or]
        refine ⟨hnot, fun heq => hfirst ?_⟩
        show key ∈ _
        rw [← heq]
        exact List.mem_map_of_mem hrow
    have hlater : ∀ row ∈ rows, before[row.1]? = some row.2 ∧
        projectUploadsPrefix index normalized <+: row.1 ∧ row.1 ∉ journal.map (uploadRow index) :=
      fun row hrow => hrows row (List.mem_cons_of_mem _ hrow)
    rw [mutateRows] at hrun
    cases hverdict : mutate (key.drop (projectUploadsPrefix index normalized).length) record with
    | error error =>
      simp only [hverdict] at hrun
      cases (Prod.mk.inj hrun).1
    | ok mutation =>
      cases mutation with
      | keep =>
        simp only [hverdict] at hrun
        exact ih journal txn h hlater hrest hrun
      | replace bytes =>
        simp only [hverdict, Prog.run_bind, run_txnPut] at hrun
        have hput : ∀ other, (txn.put key bytes).table[other]? =
            if key = other then some bytes else txn.table[other]? := fun other =>
          Table.getElem?_set txn.table key other (some bytes)
        refine hwrite _ ?_ ?_ ?_ hrun
        · intro other hne
          rw [hput, if_neg hne]
        · rw [hput, if_pos rfl, hrecord]
          exact fun heq => hproper _ _ _ hverdict (Option.some.inj heq).symm
        · rw [hput, if_pos rfl]
          refine ⟨record, hrecord, fun other heq => ?_⟩
          rw [hverdict, Option.some.inj heq]
      | delete =>
        simp only [hverdict, Prog.run_bind, run_txnRemove] at hrun
        refine hwrite _ ?_ ?_ ?_ hrun
        · intro other hne
          rw [DriverTxn.remove_getElem?, if_neg hne]
        · rw [DriverTxn.remove_getElem?, if_pos rfl, hrecord]
          exact Option.some_ne_none _
        · rw [DriverTxn.remove_getElem?, if_pos rfl]
          exact ⟨record, hrecord, nofun⟩

theorem mutateUploadsTxn_changes (hproper : Proper mutate) (rows : Rows) (answer : Nat)
    (journal : List Bytes) (txn : DriverTxn)
    (h : (mutateUploadsTxn json recordVersion index normalized action submittedAtUnix mutate).run
      { table := rows } = (.ok (answer, journal), txn)) :
    ∃ entries, journal = entries.map json.journalEntry ∧ answer = entries.length ∧
      RowsChanged (uploadRow index) [] (Mutated index normalized mutate) rows txn.table entries := by
  have hscan : ((txnPrefix (projectUploadsPrefix index normalized)).run { table := rows }).2 =
    { table := rows } := rfl
  simp only [mutateUploadsTxn, Prog.run_bind, hscan] at h
  rcases hloop : (mutateRows recordVersion index normalized action submittedAtUnix mutate
    ((txnPrefix (projectUploadsPrefix index normalized)).run { table := rows }).1 []).run
    { table := rows } with ⟨error | entries, last⟩
  · rw [hloop] at h
    cases (Prod.mk.inj h).1
  · rw [hloop] at h
    cases h
    have hrewrites := mutateRows_changes recordVersion index normalized action submittedAtUnix mutate
      hproper rows _ [] { table := rows } last entries (.nil _ _ _)
      (fun row hrow => ⟨((mem_txnPrefix _ _ row).mp hrow).1, ((mem_txnPrefix _ _ row).mp hrow).2,
        List.not_mem_nil⟩) (scan_nodup _ _) hloop
    refine ⟨entries, rfl, rfl, hrewrites.narrow _ (fun _ _ => trivial) fun _ _ => List.not_mem_nil,
      ?_, fun _ => List.forall_mem_nil _⟩
    rintro rfl
    exact rows_ext rows last.table fun key => hrewrites.off key trivial List.not_mem_nil

end Mutate

section Single
variable {ε : Type} (json : UploadJson) (recordVersion : Bytes → Option Str)
  (index normalized filename : Str) (submittedAtUnix : Int)

def Removed (_key : Str) (_before after : Option Bytes) : Prop := after = none

theorem removed_changes (rowKey : JournalEntry → Str) (rows : Rows) (key : Str)
    (entry : JournalEntry) (prior : Bytes) (hkey : rowKey entry = key)
    (h : rows[key]? = some prior) :
    RowsChanged rowKey [] Removed rows (DriverTxn.remove { table := rows } key).2.table [entry] := by
  subst hkey
  refine .one rows _ entry ?_ ?_ ?_
  · intro key hne
    rw [DriverTxn.remove_getElem?, if_neg hne]
  · rw [DriverTxn.remove_getElem?, if_pos rfl, h]
    exact Option.some_ne_none _
  · rw [DriverTxn.remove_getElem?, if_pos rfl]
    rfl

theorem deleteUploadTxn_changes (rows : Rows) (answer : Bool) (journal : List Bytes)
    (txn : DriverTxn)
    (h : (deleteUploadTxn (ε := ε) json recordVersion index normalized filename
      submittedAtUnix).run { table := rows } = (.ok (answer, journal), txn)) :
    ∃ entries, journal = entries.map json.journalEntry ∧
      RowsChanged (uploadRow index) [] Removed rows txn.table entries := by
  simp only [deleteUploadTxn, Prog.run_bind, run_txnGet] at h
  cases hrow : rows[uploadKey index normalized filename]? with
  | none =>
    rw [hrow] at h
    cases h
    exact ⟨[], rfl, .nothing rows⟩
  | some record =>
    rw [hrow] at h
    simp only [Prog.run_bind, run_txnRemove] at h
    cases h
    exact ⟨[_], rfl, removed_changes (uploadRow index) rows (uploadKey index normalized filename) _
      record rfl hrow⟩

theorem putOverrideTxn_changes (kind : Str) (rows : Rows) (answer : Unit) (journal : List Bytes)
    (txn : DriverTxn)
    (h : (putOverrideTxn (ε := ε) json index normalized filename kind submittedAtUnix).run
      { table := rows } = (.ok (answer, journal), txn)) :
    ∃ entries, journal = entries.map json.journalEntry ∧
      RowsChanged (overrideRow index) [] (fun _ _ after => after = some kind) rows txn.table
        entries := by
  rw [putOverrideTxn, Prog.run_bind] at h
  change Prog.run (if rows[overrideKey index normalized filename]? = some kind then _ else _)
    ({ table := rows } : DriverTxn) = _ at h
  by_cases hsame : rows[overrideKey index normalized filename]? = some kind
  · rw [if_pos hsame] at h
    cases h
    exact ⟨[], rfl, .nothing rows⟩
  · rw [if_neg hsame] at h
    simp only [Prog.run_bind, run_txnPut] at h
    cases h
    have hput : ∀ other, (DriverTxn.put { table := rows } (overrideKey index normalized filename)
        kind).table[other]? = if overrideKey index normalized filename = other then some kind
          else rows[other]? := fun other => Table.getElem?_set rows _ other (some kind)
    have hself := hput (overrideKey index normalized filename)
    rw [if_pos rfl] at hself
    refine ⟨[_], rfl, .one rows _ _ ?_ ?_ hself⟩
    · intro key hne
      have hkey : overrideKey index normalized filename ≠ key := hne
      rw [hput, if_neg hkey]
    · intro heq
      exact hsame (heq.trans hself)

theorem deleteOverrideTxn_changes (rows : Rows) (answer : Bool) (journal : List Bytes)
    (txn : DriverTxn)
    (h : (deleteOverrideTxn (ε := ε) json index normalized filename submittedAtUnix).run
      { table := rows } = (.ok (answer, journal), txn)) :
    ∃ entries, journal = entries.map json.journalEntry ∧
      RowsChanged (overrideRow index) [] Removed rows txn.table entries := by
  simp only [deleteOverrideTxn, Prog.run_bind, run_txnGet] at h
  cases hrow : rows[overrideKey index normalized filename]? with
  | none =>
    rw [hrow] at h
    cases h
    exact ⟨[], rfl, .nothing rows⟩
  | some prior =>
    rw [hrow] at h
    simp only [Prog.run_bind, run_txnRemove] at h
    cases h
    exact ⟨[_], rfl, removed_changes (overrideRow index) rows
      (overrideKey index normalized filename) _ prior rfl hrow⟩

end Single

end Peryx.Pypi
