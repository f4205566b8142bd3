import Peryx.Pypi.HostedDetail
import Peryx.Pypi.HostedJournal

/-! # Whether what was accepted is served -/

namespace Peryx.Pypi
open Storage

section Promoted
variable {ε : Type} (json : UploadJson) (recordVersion : Bytes → Option Str)
  (release : PromotedRelease) (guard : Str → Str → Option Bytes → Except ε Guard)

def PromotedRelease.row (release : PromotedRelease) (files : List PromotedFile) (key : Str) :
    Option Bytes :=
  (files.find? fun file => uploadKey release.index release.normalized file.filename = key).map
    PromotedFile.record

structure KeepsExisting (guard : Str → Str → Option Bytes → Except ε Guard) : Prop where
  fresh : FreshOnly guard
  skip : ∀ filename token existing, guard filename token existing = .ok .skip → existing.isSome

theorem promoteRecords_rows (hguard : KeepsExisting guard) (files : List PromotedFile)
    (written : Nat) (journal : List JournalEntry) (txn last : DriverTxn) (written' : Nat)
    (journal' : List JournalEntry)
    (hrun : (promoteRecords recordVersion release guard files written journal).run txn =
      (.ok (written', journal'), last)) (key : Str) :
    last.table[key]? = (txn.table[key]?).or (release.row files key) := by
  induction files generalizing written journal txn with
  | nil =>
    cases hrun
    exact (Option.or_none).symm
  | cons file files ih =>
    rw [promoteRecords, Prog.run_bind, run_txnGet] at hrun
    have hrow : release.row (file :: files) key =
        if uploadKey release.index release.normalized file.filename = key then some file.record
        else release.row files key := by
      unfold PromotedRelease.row
      rw [List.find?_cons]
      split <;> simp_all
    rw [hrow]
    cases hverdict : guard file.filename file.token
        txn.table[uploadKey release.index release.normalized file.filename]? with
    | error error =>
      simp only [hverdict] at hrun
      cases (Prod.mk.inj hrun).1
    | ok verdict =>
      cases verdict with
      | skip =>
        simp only [hverdict] at hrun
        rw [ih written journal txn hrun]
        split
        · rename_i hkey
          obtain ⟨existing, hexisting⟩ := Option.isSome_iff_exists.mp
            (hguard.skip _ _ _ hverdict)
          rw [← hkey, hexisting]
          rfl
        · rfl
      | commit =>
        simp only [hverdict, Prog.run_bind, run_calls] at hrun
        rw [ih _ _ _ hrun, promoted_getElem?]
        split
        · rename_i hkey
          rw [← hkey, hguard.fresh _ _ _ hverdict]
          rfl
        · rfl

theorem promoteFilesTxn_rows (hguard : KeepsExisting guard) (rows : Rows) (answer : Nat)
    (journal : List Bytes) (txn : DriverTxn)
    (h : (promoteFilesTxn json recordVersion release guard).run { table := rows } =
      (.ok (answer, journal), txn)) (filename : Str) :
    txn.table[uploadKey release.index release.normalized filename]? =
      (rows[uploadKey release.index release.normalized filename]?).or
        (release.row release.records (uploadKey release.index release.normalized filename)) := by
  simp only [promoteFilesTxn, Prog.run_bind] at h
  rcases hloop : (promoteRecords recordVersion release guard release.records 0 []).run
    { table := rows } with ⟨error | ⟨written, entries⟩, last⟩
  · rw [hloop] at h
    cases (Prod.mk.inj h).1
  · have hrows := promoteRecords_rows recordVersion release guard hguard release.records 0 []
      { table := rows } last written entries hloop
      (uploadKey release.index release.normalized filename)
    rw [hloop] at h
    cases written with
    | zero =>
      cases h
      exact hrows
    | succ written =>
      simp only [Prog.run_bind, run_txnPut] at h
      cases h
      have hne : projectKey release.index release.normalized ≠
          uploadKey release.index release.normalized filename :=
        Ne.symm (uploadKey_ne _ _ _ projectsPrefix _ rfl (by decide))
      exact (Table.getElem?_set_of_ne last.table _ _ (some release.display) hne).trans hrows

end Promoted

section Requests
variable {json : UploadJson} (pep : Pep440) [BEq pep.Version] (recordVersion : Bytes → Option Str)

omit [BEq pep.Version] pep in
theorem promoteConflict_keeps : KeepsExisting fun filename digest existing =>
    (promoteConflict json filename digest existing).mapError HostedError.upload where
  fresh filename token existing hcommit := uploadConflict_fresh existing _ _ hcommit
  skip filename token existing hskip := by
    cases existing with
    | none => cases hskip
    | some record => rfl

theorem promote_rows (release : PromotedRelease) (store after : MetaStore)
    (answer : (HostedTxn.promote release).Answer)
    (h : (HostedTxn.promote release).apply json pep recordVersion .never store = (.ok answer, after))
    (filename : Str) :
    after.rows[uploadKey release.index release.normalized filename]? =
      (store.rows[uploadKey release.index release.normalized filename]?).or
        (release.row release.records (uploadKey release.index release.normalized filename)) := by
  obtain ⟨journal, txn, hrun, rfl⟩ := transact_ok store _ answer after h
  rw [MetaStore.commit_rows]
  exact promoteFilesTxn_rows json recordVersion release _ promoteConflict_keeps store.rows answer
    journal txn hrun filename

def promotedCopy (json : UploadJson) (targetRoute filename digest : Str) (uploaded : Uploaded) : Bytes :=
  json.uploaded { uploaded with file :=
    { uploaded.file with url := Core.localFileUrl targetRoute digest filename } }

theorem promotedRecord_some (targetRoute version : Str) (entry : Str × Bytes) (file : PromotedFile)
    (size : Option Nat)
    (h : promotedRecord json pep targetRoute version entry = .ok (some (file, size))) :
    ∃ uploaded digest, json.readUploaded entry.2 = some uploaded ∧
      versionsMatch pep uploaded.version version = true ∧ uploaded.file.sha256 = some digest ∧
      file = ⟨entry.1, digest, promotedCopy json targetRoute entry.1 digest uploaded⟩ := by
  unfold promotedRecord at h
  split at h
  · cases h
  · rename_i uploaded hread
    split at h
    · cases h
    · rename_i hversion
      split at h
      · cases h
      · rename_i digest hdigest
        cases h
        refine ⟨uploaded, digest, hread, ?_, hdigest, rfl⟩
        simpa using hversion

theorem promotedRecord_matching (targetRoute version : Str) (entry : Str × Bytes) (uploaded : Uploaded)
    (found : Option (PromotedFile × Option Nat)) (hread : json.readUploaded entry.2 = some uploaded)
    (hversion : versionsMatch pep uploaded.version version = true)
    (h : promotedRecord json pep targetRoute version entry = .ok found) :
    ∃ digest, uploaded.file.sha256 = some digest ∧ found = some
      (⟨entry.1, digest, promotedCopy json targetRoute entry.1 digest uploaded⟩, uploaded.file.size) := by
  unfold promotedRecord at h
  rw [hread] at h
  dsimp only at h
  rw [hversion] at h
  simp only [Bool.not_true, Bool.false_eq_true, if_false] at h
  split at h
  · cases h
  · rename_i digest hdigest
    cases h
    exact ⟨digest, hdigest, rfl⟩

omit [BEq pep.Version] pep in
theorem uploadKey_inj {index normalized a b : Str} :
    uploadKey index normalized a = uploadKey index normalized b ↔ a = b :=
  ⟨fun h => List.append_cancel_left h, fun h => h ▸ rfl⟩

theorem release_row (listed : Rows) (source targetRoute normalized version : Str)
    (found : List (Option (PromotedFile × Option Nat)))
    (hfound : (listUploadEntries listed source normalized).mapM
      (promotedRecord json pep targetRoute version) = .ok found)
    (release : PromotedRelease)
    (hrecords : release.records = (found.filterMap id).map Prod.fst) (filename : Str) (record : Bytes) :
    release.row release.records (uploadKey release.index release.normalized filename) = some record ↔
      ∃ uploaded digest, HasRecord json listed source normalized filename uploaded ∧
        versionsMatch pep uploaded.version version = true ∧ uploaded.file.sha256 = some digest ∧
        record = promotedCopy json targetRoute filename digest uploaded := by
  have hmem : ∀ file, file ∈ release.records ↔ ∃ entry size,
      entry ∈ listUploadEntries listed source normalized ∧
        promotedRecord json pep targetRoute version entry = .ok (some (file, size)) := by
    intro file
    rw [hrecords, List.mem_map]
    constructor
    · rintro ⟨⟨_, size⟩, hfile, rfl⟩
      obtain ⟨answer, hanswer, heq⟩ := List.mem_filterMap.mp hfile
      obtain ⟨entry, hentry, hrecord⟩ := (mapM_ok_mem_iff _ _ _ hfound answer).mp hanswer
      rw [show answer = some (_, size) from heq] at hrecord
      exact ⟨entry, size, hentry, hrecord⟩
    · rintro ⟨entry, size, hentry, hrecord⟩
      exact ⟨(file, size), List.mem_filterMap.mpr
        ⟨_, (mapM_ok_mem_iff _ _ _ hfound _).mpr ⟨entry, hentry, hrecord⟩, rfl⟩, rfl⟩
  constructor
  · intro h
    obtain ⟨file, hfile, hrow⟩ := Option.map_eq_some_iff.mp h
    have hname : file.filename = filename := by
      simpa [uploadKey_inj] using List.find?_some hfile
    obtain ⟨⟨name, bytes⟩, size, hentry, hrecord⟩ := (hmem file).mp (List.mem_of_find?_eq_some hfile)
    obtain ⟨uploaded, digest, hread, hversion, hdigest, rfl⟩ :=
      promotedRecord_some pep targetRoute version _ file size hrecord
    cases hname
    exact ⟨uploaded, digest, ⟨bytes, (mem_listUploadEntries _ _ _ _ _).mp hentry, hread⟩, hversion,
      hdigest, hrow.symm⟩
  · rintro ⟨uploaded, digest, ⟨bytes, hrow, hread⟩, hversion, hdigest, rfl⟩
    have hentry := (mem_listUploadEntries listed source normalized filename bytes).mpr hrow
    obtain ⟨answer, hanswer⟩ := mapM_ok_forall _ _ _ hfound _ hentry
    obtain ⟨digest', hdigest', rfl⟩ := promotedRecord_matching pep targetRoute version _ uploaded
      answer hread hversion hanswer
    rw [hdigest] at hdigest'
    cases hdigest'
    have hfile := (hmem _).mpr ⟨_, _, hentry, hanswer⟩
    cases hfind : release.records.find? fun file =>
        uploadKey release.index release.normalized file.filename =
          uploadKey release.index release.normalized filename with
    | none => exact absurd (decide_eq_true rfl) (List.find?_eq_none.mp hfind _ hfile)
    | some other =>
      have hname : other.filename = filename := by
        simpa [uploadKey_inj] using List.find?_some hfind
      obtain ⟨⟨name, bytes'⟩, size, hentry', hrecord'⟩ :=
        (hmem other).mp (List.mem_of_find?_eq_some hfind)
      obtain ⟨uploaded', digest', hread', _, hdigest', rfl⟩ :=
        promotedRecord_some pep targetRoute version _ other size hrecord'
      cases hname
      have hsame := (mem_listUploadEntries _ _ _ _ _).mp hentry'
      rw [hrow] at hsame
      cases hsame
      rw [hread] at hread'
      cases hread'
      rw [hdigest] at hdigest'
      cases hdigest'
      unfold PromotedRelease.row
      rw [hfind]
      rfl

variable (json) in
/-- The index's page of the project lists a live file of that name and digest. -/
def UploadServed (rows : Rows) (index normalized filename digest : Str) : Prop :=
  ∃ page, localDetail json rows index normalized = .ok (some page) ∧
    ∃ file ∈ page.files, (file.filename, file.sha256) = (filename, some digest)

variable (json) in
/-- The project can be read, and the filename is free or already shows a live file of that
digest. -/
def UploadFree (rows : Rows) (index normalized filename digest : Str) : Prop :=
  RecordsRead json rows index normalized ∧
    (rows[uploadKey index normalized filename]? = none ∨
      Lists json (fun _ => true) rows index normalized (filename, some digest))

omit [BEq pep.Version] pep in
theorem uploadServed_iff (rows : Rows) (index normalized filename digest : Str) :
    UploadServed json rows index normalized filename digest ↔ RecordsRead json rows index normalized ∧
      Lists json (fun _ => true) rows index normalized (filename, some digest) := by
  constructor
  · rintro ⟨page, hpage, hfile⟩
    exact ⟨(localDetail_ok json _ _ _).mp ⟨_, hpage⟩,
      (localDetail_lists json _ _ _ _ hpage _).mp ⟨page, rfl, hfile⟩⟩
  · rintro ⟨hread, hlists⟩
    obtain ⟨detail, hdetail⟩ := (localDetail_ok json _ _ _).mpr hread
    obtain ⟨page, rfl, hfile⟩ := (localDetail_lists json _ _ _ _ hdetail _).mpr hlists
    exact ⟨page, hdetail, hfile⟩

omit [BEq pep.Version] pep in
theorem storePrepared_cases (sha256 : Bytes → Str) (store stored : MetaStore)
    (blobs blobs' : BlobStore) (name : Str) (parts : UploadParts) (answer : Bool)
    (h : storePrepared json sha256 store blobs name (parts.prepared sha256) =
      (.ok (answer, stored), blobs')) :
    (store.rows[uploadKey name parts.normalized parts.filename]? = none ∧
        stored.rows[uploadKey name parts.normalized parts.filename]? =
          some ((parts.prepared sha256).publishedFile json sha256 name).record ∧
        ∀ other, uploadKey name parts.normalized parts.filename ≠ uploadKey name parts.normalized other →
          stored.rows[uploadKey name parts.normalized other]? =
            store.rows[uploadKey name parts.normalized other]?) ∨
      (store.rows[uploadKey name parts.normalized parts.filename]?.isSome ∧
        stored.rows = store.rows) := by
  unfold storePrepared at h
  have hpublish := (Prod.mk.inj h).1
  unfold publishFileIf at hpublish
  obtain ⟨verdict, hverdict, hrest⟩ := (bind_eq_ok _ _ _).mp hpublish
  set file := (parts.prepared sha256).publishedFile json sha256 name with hfile
  cases verdict with
  | skip =>
    cases hrest
    refine .inr ⟨?_, MetaStore.commit_rows _ _ _⟩
    cases hrow : store.rows[uploadKey file.index file.normalized file.filename]? with
    | none =>
      rw [hrow] at hverdict
      cases hverdict
    | some record =>
      have hsome : (store.rows[uploadKey file.index file.normalized file.filename]?).isSome := by
        rw [hrow]
        rfl
      exact hsome
  | commit =>
    cases hrest
    have hnone : store.rows[uploadKey file.index file.normalized file.filename]? = none := by
      exact uploadConflict_fresh _ _ _ (congrArg (Except.mapError HostedError.upload) hverdict)
    refine .inl ⟨hnone, ?_, fun other hother => ?_⟩
    · rw [MetaStore.commit_rows]
      exact published_upload file store.rows
    · have hkey : uploadKey file.index file.normalized file.filename ≠
          uploadKey name parts.normalized other := hother
      rw [MetaStore.commit_rows, published_getElem?, lastPut_siblings, if_neg hkey]
      rfl

omit [BEq pep.Version] pep in
theorem publishedRecord_reads (hjson : json.Faithful) (sha256 : Bytes → Str) (name : Str)
    (parts : UploadParts) : ∃ uploaded,
      json.readUploaded ((parts.prepared sha256).publishedFile json sha256 name).record =
        some uploaded ∧ uploaded.trashed = none ∧
      (uploaded.file.filename, uploaded.file.sha256) = (parts.filename, some (sha256 parts.content)) := by
  refine ⟨_, hjson.read _, rfl, congrArg (Prod.mk parts.filename) ?_⟩
  exact Std.ExtTreeMap.getElem?_ofList_of_mem Std.ReflCmp.compare_self
    (List.pairwise_singleton _ _) List.mem_cons_self

omit [BEq pep.Version] pep in
/-- After an upload succeeds its file is listed exactly when the name was free, or showed a
live file of the same bytes already. -/
theorem upload_served_iff (hjson : json.Faithful) (sha256 : Bytes → Str) (store stored : MetaStore)
    (blobs blobs' : BlobStore) (name : Str) (parts : UploadParts) (answer : Bool)
    (h : storePrepared json sha256 store blobs name (parts.prepared sha256) =
      (.ok (answer, stored), blobs')) :
    UploadServed json stored.rows name parts.normalized parts.filename (sha256 parts.content) ↔
      UploadFree json store.rows name parts.normalized parts.filename (sha256 parts.content) := by
  rw [uploadServed_iff]
  rcases storePrepared_cases sha256 store stored blobs blobs' name parts answer h with
    ⟨hnone, hrow, hother⟩ | ⟨hsome, hrows⟩
  · obtain ⟨uploaded, hread, htrashed, hshown⟩ := publishedRecord_reads hjson sha256 name parts
    have hlists : Lists json (fun _ => true) stored.rows name parts.normalized
        (parts.filename, some (sha256 parts.content)) :=
      ⟨parts.filename, uploaded, ⟨_, hrow, hread⟩, htrashed, rfl, hshown⟩
    have hreadable : RecordsRead json stored.rows name parts.normalized ↔
        RecordsRead json store.rows name parts.normalized := by
      refine forall_congr' fun filename => ?_
      by_cases hsame : parts.filename = filename
      · subst hsame
        rw [hnone, hrow]
        refine iff_of_true (fun record hrecord => ?_) nofun
        rw [← Option.some.inj hrecord, hread]
        rfl
      · rw [hother filename (mt uploadKey_inj.mp hsame)]
    rw [hreadable]
    exact and_congr_right fun _ => iff_of_true hlists (.inl hnone)
  · rw [hrows]
    have habsent : ¬ store.rows[uploadKey name parts.normalized parts.filename]? = none := by
      rw [← Option.not_isSome_iff_eq_none, not_not]
      exact hsome
    exact and_congr_right fun _ => ⟨Or.inr, fun h => h.resolve_left habsent⟩

/-- After a promotion the target lists, for the version, what it listed before and what the
source listed, and no file of the source's trash came onto it. -/
structure PromotionServed (json : UploadJson) (ofVersion : Str → Bool) (listed before after : Rows)
    (source target normalized : Str) : Prop where
  readable : ∃ detail, localDetail json after target normalized = .ok detail
  lists : ∀ shown, Lists json ofVersion after target normalized shown ↔
    Lists json ofVersion before target normalized shown ∨
      Lists json ofVersion listed source normalized shown
  noTrash : ∀ filename trashed uploaded, HasRecord json listed source normalized filename trashed →
    trashed.trashed.isSome → HasRecord json after target normalized filename uploaded →
    uploaded.trashed = none → HasRecord json before target normalized filename uploaded

/-- The target can be read, and each file the source lists for the version has a name that
is free on the target, or is listed there already. -/
structure PromotionFree (json : UploadJson) (ofVersion : Str → Bool) (listed before : Rows)
    (source target normalized : Str) : Prop where
  readable : RecordsRead json before target normalized
  free : ∀ shown, Lists json ofVersion listed source normalized shown →
    Lists json ofVersion before target normalized shown ∨
      ∃ filename uploaded, HasRecord json listed source normalized filename uploaded ∧
        uploaded.trashed = none ∧ ofVersion uploaded.version = true ∧
        (uploaded.file.filename, uploaded.file.sha256) = shown ∧
        before[uploadKey target normalized filename]? = none

theorem promoteRelease_rows (listed : Rows) (display : Option Str)
    (source target targetRoute normalized version : Str) (submittedAtUnix : Int)
    (store after : MetaStore) (count : Nat)
    (h : promoteRelease json pep recordVersion (listUploadEntries listed source normalized) display
      source target targetRoute normalized version submittedAtUnix store = .ok (count, after))
    (filename : Str) (record : Bytes) :
    after.rows[uploadKey target normalized filename]? = some record ↔
      store.rows[uploadKey target normalized filename]? = some record ∨
        store.rows[uploadKey target normalized filename]? = none ∧
          ∃ uploaded digest, HasRecord json listed source normalized filename uploaded ∧
            versionsMatch pep uploaded.version version = true ∧
            uploaded.file.sha256 = some digest ∧
            record = promotedCopy json targetRoute filename digest uploaded := by
  unfold promoteRelease at h
  obtain ⟨found, hfound, h⟩ := (bind_eq_ok _ _ _).mp h
  dsimp only at h
  split at h
  · cases h
  · split at h
    · rename_i promoted last happly
      cases h
      rw [promote_rows pep recordVersion _ store _ _ happly filename,
        Option.or_eq_some_iff, release_row pep listed source targetRoute normalized version found
          hfound _ rfl filename record]
    · cases h

theorem promoteRelease_digest (listed : Rows) (display : Option Str)
    (source target targetRoute normalized version : Str) (submittedAtUnix : Int)
    (store after : MetaStore) (count : Nat)
    (h : promoteRelease json pep recordVersion (listUploadEntries listed source normalized) display
      source target targetRoute normalized version submittedAtUnix store = .ok (count, after))
    (filename : Str) (uploaded : Uploaded)
    (hrecord : HasRecord json listed source normalized filename uploaded)
    (hversion : versionsMatch pep uploaded.version version = true) :
    ∃ digest, uploaded.file.sha256 = some digest := by
  unfold promoteRelease at h
  obtain ⟨found, hfound, _⟩ := (bind_eq_ok _ _ _).mp h
  obtain ⟨record, hrow, hread⟩ := hrecord
  obtain ⟨answer, hanswer⟩ := mapM_ok_forall _ _ _ hfound _
    ((mem_listUploadEntries listed source normalized filename record).mpr hrow)
  obtain ⟨digest, hdigest, _⟩ := promotedRecord_matching pep targetRoute version _ uploaded answer
    hread hversion hanswer
  exact ⟨digest, hdigest⟩

omit [BEq pep.Version] pep in
theorem HasRecord.unique {rows : Rows} {index normalized filename : Str} {a b : Uploaded}
    (ha : HasRecord json rows index normalized filename a)
    (hb : HasRecord json rows index normalized filename b) : a = b := by
  obtain ⟨record, hrow, hread⟩ := ha
  obtain ⟨record', hrow', hread'⟩ := hb
  rw [hrow] at hrow'
  cases hrow'
  rw [hread] at hread'
  exact Option.some.inj hread'

omit [BEq pep.Version] pep in
theorem promotedCopy_reads (hjson : json.Faithful) (targetRoute filename digest : Str)
    (uploaded : Uploaded) : ∃ copied,
      json.readUploaded (promotedCopy json targetRoute filename digest uploaded) = some copied ∧
        copied.trashed = uploaded.trashed ∧ copied.version = uploaded.version ∧
        (copied.file.filename, copied.file.sha256) = (uploaded.file.filename, uploaded.file.sha256) :=
  ⟨_, hjson.read _, rfl, rfl, rfl⟩

/-- After a promotion the target lists what it should exactly when each of the source's live
files had a free name there, or was listed there already. -/
theorem promotion_served_iff (hjson : json.Faithful) (listed : Rows) (display : Option Str)
    (source target targetRoute normalized version : Str) (submittedAtUnix : Int)
    (store after : MetaStore) (count : Nat)
    (h : promoteRelease json pep recordVersion (listUploadEntries listed source normalized) display
      source target targetRoute normalized version submittedAtUnix store = .ok (count, after)) :
    PromotionServed json (fun v => versionsMatch pep v version) listed store.rows after.rows source
        target normalized ↔
      PromotionFree json (fun v => versionsMatch pep v version) listed store.rows source target
        normalized := by
  have hrows := promoteRelease_rows pep recordVersion listed display source target targetRoute
    normalized version submittedAtUnix store after count h
  have hkept : ∀ filename record, store.rows[uploadKey target normalized filename]? = some record →
      after.rows[uploadKey target normalized filename]? = some record :=
    fun filename record hrow => (hrows filename record).mpr (.inl hrow)
  -- The files listed after are those listed before and the copies under free names.
  have hlists : ∀ shown, Lists json (fun v => versionsMatch pep v version) after.rows target
      normalized shown ↔
        Lists json (fun v => versionsMatch pep v version) store.rows target normalized shown ∨
          ∃ filename uploaded, HasRecord json listed source normalized filename uploaded ∧
            uploaded.trashed = none ∧ versionsMatch pep uploaded.version version = true ∧
            (uploaded.file.filename, uploaded.file.sha256) = shown ∧
            store.rows[uploadKey target normalized filename]? = none := by
    intro shown
    constructor
    · rintro ⟨filename, uploaded, ⟨record, hrow, hread⟩, hlive, hversion, hshown⟩
      rcases (hrows filename record).mp hrow with hbefore | ⟨hnone, original, digest, hrecord,
        hmatch, _, rfl⟩
      · exact .inl ⟨filename, uploaded, ⟨record, hbefore, hread⟩, hlive, hversion, hshown⟩
      · obtain ⟨copied, hcopy, htrashed, _, hsame⟩ :=
          promotedCopy_reads hjson targetRoute filename digest original
        rw [hread] at hcopy
        cases hcopy
        exact .inr ⟨filename, original, hrecord, htrashed ▸ hlive, hmatch, hsame ▸ hshown, hnone⟩
    · rintro (⟨filename, uploaded, ⟨record, hrow, hread⟩, hlive⟩ |
        ⟨filename, original, hrecord, hlive, hmatch, hshown, hnone⟩)
      · exact ⟨filename, uploaded, ⟨record, hkept filename record hrow, hread⟩, hlive⟩
      · obtain ⟨digest, hdigest⟩ := promoteRelease_digest pep recordVersion listed display source
          target targetRoute normalized version submittedAtUnix store after count h filename original
          hrecord hmatch
        obtain ⟨copied, hcopy, htrashed, hversion, hsame⟩ :=
          promotedCopy_reads hjson targetRoute filename digest original
        have hrow := (hrows filename _).mpr
          (.inr ⟨hnone, original, digest, hrecord, hmatch, hdigest, rfl⟩)
        exact ⟨filename, copied, ⟨_, hrow, hcopy⟩, htrashed.trans hlive, hversion ▸ hmatch,
          hsame.trans hshown⟩
  have hreadable : RecordsRead json after.rows target normalized ↔
      RecordsRead json store.rows target normalized := by
    constructor
    · exact fun hread filename record hrow => hread filename record (hkept filename record hrow)
    · intro hread filename record hrow
      rcases (hrows filename record).mp hrow with hbefore | ⟨_, original, digest, _, _, _, rfl⟩
      · exact hread filename record hbefore
      · obtain ⟨copied, hcopy, _⟩ := promotedCopy_reads hjson targetRoute filename digest original
        rw [hcopy]
        rfl
  constructor
  · rintro ⟨hpage, hexact, _⟩
    refine ⟨hreadable.mp ((localDetail_ok json _ _ _).mp hpage), fun shown hshown => ?_⟩
    exact (hlists shown).mp ((hexact shown).mpr (.inr hshown))
  · rintro ⟨hread, hfree⟩
    refine ⟨(localDetail_ok json _ _ _).mpr (hreadable.mpr hread), fun shown => ?_, ?_⟩
    · rw [hlists]
      constructor
      · rintro (hbefore | ⟨filename, uploaded, hrecord, hlive, hversion, hshown, _⟩)
        · exact .inl hbefore
        · exact .inr ⟨filename, uploaded, hrecord, hlive, hversion, hshown⟩
      · rintro (hbefore | hsource)
        · exact .inl hbefore
        · exact hfree shown hsource
    · rintro filename trashed uploaded hrecord hgone ⟨record, hrow, hread⟩ hlive
      rcases (hrows filename record).mp hrow with hbefore | ⟨_, original, digest, horiginal, _, _, rfl⟩
      · exact ⟨record, hbefore, hread⟩
      · obtain ⟨copied, hcopy, htrashed, _⟩ :=
          promotedCopy_reads hjson targetRoute filename digest original
        rw [hread] at hcopy
        cases hcopy
        rw [hrecord.unique horiginal, ← htrashed, hlive] at hgone
        cases hgone

/-- When an upload or a promotion that succeeds is served: the names it needs are free or
show its files already. Otherwise the record under a name is a trashed one. -/
theorem accepted_files_served_iff (hjson : json.Faithful) (sha256 : Bytes → Str) :
    (∀ (store stored : MetaStore) (blobs blobs' : BlobStore) (name : Str) (parts : UploadParts)
      (answer : Bool), storePrepared json sha256 store blobs name (parts.prepared sha256) =
        (.ok (answer, stored), blobs') →
      (UploadServed json stored.rows name parts.normalized parts.filename (sha256 parts.content) ↔
        UploadFree json store.rows name parts.normalized parts.filename (sha256 parts.content))) ∧
      ∀ (listed : Rows) (display : Option Str) (source target targetRoute normalized version : Str)
        (submittedAtUnix : Int) (store after : MetaStore) (count : Nat),
        promoteRelease json pep recordVersion (listUploadEntries listed source normalized) display
          source target targetRoute normalized version submittedAtUnix store = .ok (count, after) →
        (PromotionServed json (fun v => versionsMatch pep v version) listed store.rows after.rows
            source target normalized ↔
          PromotionFree json (fun v => versionsMatch pep v version) listed store.rows source target
            normalized) :=
  ⟨upload_served_iff hjson sha256, promotion_served_iff pep recordVersion hjson⟩

end Requests

namespace ServedSample
open HostedSample

def content : Bytes := str "wheel"

def metadata : Bytes := str "Metadata-Version: 2.1\n"

def sha256 (text : Bytes) : Str :=
  if text = content then digest
  else str "e70b13cf810d0a6d4c950f2e55982d40916857059c642abb5dcaf41bb93370bb"

def parts : UploadParts where
  index := str "hosted"
  normalized := str "app"
  displayName := str "App"
  filename := filename
  version := str "1"
  content := content
  metadata := metadata
  provenance := none
  provenanceMarker := .absent
  attestationPredicateTypes := ∅
  requiresPython := none
  uploadTime := str "1970-01-01T00:00:00Z"
  uploadTimeUnix := 0

def upload (store : MetaStore) : Except UploadStoreError (Bool × MetaStore) × BlobStore :=
  storePrepared UploadText.json sha256 store ∅ (str "hosted") (parts.prepared sha256)

def uploadedStore : MetaStore := (upload {}).1.toOption.elim {} Prod.snd

def trashedStore : MetaStore :=
  apply (.trash (str "hosted") (str "app") true none ⟨7, none, none⟩) .never uploadedStore

def stage (store : MetaStore) (version : Str) : Except PromoteError (Nat × MetaStore) :=
  promoteRelease UploadText.json wholeVersions UploadText.recordVersion
    (listUploadEntries store.rows (str "hosted") (str "app")) none (str "hosted") (str "release")
    (str "release") (str "app") version 9 store

def stagedStore : MetaStore := (stage uploadedStore (str "1")).toOption.elim {} Prod.snd

def duplicateStore : MetaStore := (upload trashedStore).1.toOption.elim {} Prod.snd

theorem uploaded_eq (store : MetaStore) (answer : Bool)
    (h : (upload store).1.toOption.map Prod.fst = some answer) :
    upload store = (.ok (answer, (upload store).1.toOption.elim {} Prod.snd), (upload store).2) := by
  rcases hupload : upload store with ⟨error | ⟨found, stored⟩, blobs⟩
  · rw [hupload] at h
    cases h
  · rw [hupload] at h
    cases h
    rfl

theorem staged_eq : stage uploadedStore (str "1") = .ok (1, stagedStore) := by
  have hcount : (stage uploadedStore (str "1")).toOption.map Prod.fst = some 1 := by decide +kernel
  unfold stagedStore
  rcases hstage : stage uploadedStore (str "1") with error | ⟨count, after⟩
  · rw [hstage] at hcount
    cases hcount
  · rw [hstage] at hcount
    cases hcount
    rfl

theorem free_of_empty (rows : Rows) (index normalized filename : Str)
    (h : listUploadEntries rows index normalized = []) :
    rows[uploadKey index normalized filename]? = none := by
  cases hrow : rows[uploadKey index normalized filename]? with
  | none => rfl
  | some record =>
    have hmem := (mem_listUploadEntries rows index normalized filename record).mpr hrow
    rw [h] at hmem
    cases hmem

end ServedSample

open ServedSample in
theorem fresh_upload_served :
    UploadServed UploadText.json uploadedStore.rows (str "hosted") (str "app") HostedSample.filename
        HostedSample.digest ∧
      PromotionServed UploadText.json (fun v => versionsMatch wholeVersions v (str "1"))
        uploadedStore.rows uploadedStore.rows stagedStore.rows (str "hosted") (str "release")
        (str "app") := by
  have hserved := accepted_files_served_iff wholeVersions UploadText.recordVersion
    UploadText.json_faithful ServedSample.sha256
  have hempty : ∀ filename, ({} : MetaStore).rows[uploadKey (str "hosted") (str "app") filename]? = none :=
    fun filename => free_of_empty _ _ _ filename (by decide +kernel)
  have htarget : ∀ filename, uploadedStore.rows[uploadKey (str "release") (str "app") filename]? = none :=
    fun filename => free_of_empty _ _ _ filename (by decide +kernel)
  constructor
  · refine (hserved.1 {} uploadedStore ∅ _ (str "hosted") parts true
      (uploaded_eq {} true (by decide +kernel))).mpr ⟨fun filename record hrow => ?_, .inl (hempty _)⟩
    exact absurd (hrow.symm.trans (hempty filename)) (Option.some_ne_none record)
  · refine (hserved.2 uploadedStore.rows none (str "hosted") (str "release") (str "release")
      (str "app") (str "1") 9 uploadedStore stagedStore 1 staged_eq).mpr
      ⟨fun filename record hrow => ?_, fun shown hshown => .inr ?_⟩
    · rw [htarget] at hrow
      cases hrow
    · obtain ⟨filename, uploaded, hrecord, hlive, hversion, heq⟩ := hshown
      exact ⟨filename, uploaded, hrecord, hlive, hversion, heq, htarget filename⟩

open ServedSample in
/-- The file was uploaded and trashed; its upload is accepted again, and stays unlisted. -/
theorem trashed_duplicate_unlisted :
    ¬ ∀ (store stored : MetaStore) (blobs blobs' : BlobStore) (name : Str) (parts : UploadParts)
      (answer : Bool), storePrepared UploadText.json ServedSample.sha256 store blobs name
        (parts.prepared ServedSample.sha256) = (.ok (answer, stored), blobs') →
      UploadServed UploadText.json stored.rows name parts.normalized parts.filename
        (ServedSample.sha256 parts.content) := by
  intro hclaim
  obtain ⟨page, hpage, _⟩ := hclaim trashedStore duplicateStore ∅ _ (str "hosted") parts false
    (uploaded_eq trashedStore false (by decide +kernel))
  have hnone : (localDetail UploadText.json duplicateStore.rows (str "hosted")
      (str "app")).toOption.map Option.isNone = some true := by decide +kernel
  have hsome : (localDetail UploadText.json duplicateStore.rows (str "hosted") (str "app")) =
    .ok (some page) := hpage
  rw [hsome] at hnone
  cases hnone

end Peryx.Pypi
