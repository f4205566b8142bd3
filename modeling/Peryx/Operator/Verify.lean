import Peryx.Library.Outcome
import Peryx.Operator.Backup

/-!
# What a verification without problems has seen
-/

namespace Peryx.Operator

open Storage (Bytes Rows digestFromHex)

def Recorded (host : Host) (tree : FileTree) (root : FilePath) (file : ManifestFile) : Prop :=
  ∃ bytes, tree.readAt root file.path = some bytes ∧ host.sha256 bytes = file.sha256 ∧
    sizeOf bytes = file.sizeBytes

/-- The blob is where its digest puts it, with that digest and the size of its row. -/
def Stored (host : Host) (tree : FileTree) (root : FilePath) (digest : Str) (entry : BlobIndexEntry) :
    Prop :=
  ∃ bytes, tree.readAt root entry.path = some bytes ∧ host.sha256 bytes = digest ∧
    sizeOf bytes = entry.sizeBytes

def Indexed (path : FilePath) (bytes : Bytes) (entries : Table Str BlobIndexEntry) : Prop :=
  readBlobIndex path bytes ⟨0, []⟩ = .ok ⟨entries, ⟨0, []⟩⟩

section Reports
variable (host : Host) (tree : FileTree) (root : FilePath) (report : Report)

theorem problem_ne (fields : List Str) : (report.problem fields).problems ≠ 0 :=
  Nat.succ_ne_zero report.problems

theorem check_problems (failed : Prop) [Decidable failed] (fields : List Str) :
    (if failed then report.problem fields else report).problems = 0 ↔ report.problems = 0 ∧ ¬ failed := by
  split
  · rename_i h
    exact iff_of_false (problem_ne report fields) fun hand => hand.2 h
  · rename_i h
    exact ⟨fun hr => ⟨hr, h⟩, And.left⟩

theorem check_report (failed : Prop) [Decidable failed] (fields : List Str)
    (h : (if failed then report.problem fields else report).problems = 0) :
    (if failed then report.problem fields else report) = report :=
  if_neg ((check_problems report failed fields).mp h).2

theorem verifyManifestFile_problems (expected : ManifestFile) (kind : Str) :
    (verifyManifestFile host tree root expected kind report).2.problems = 0 ↔
      report.problems = 0 ∧ Recorded host tree root expected := by
  unfold verifyManifestFile Recorded
  cases hread : tree.readAt root expected.path with
  | none => simp [Report.problem]
  | some bytes =>
    dsimp only
    rw [check_problems, check_problems, and_assoc]
    simp [hashed]

theorem verifyManifestFile_report (expected : ManifestFile) (kind : Str)
    (h : (verifyManifestFile host tree root expected kind report).2.problems = 0) :
    (verifyManifestFile host tree root expected kind report).2 = report := by
  unfold verifyManifestFile at h ⊢
  cases hread : tree.readAt root expected.path with
  | none =>
    rw [hread] at h
    exact absurd h (problem_ne _ _)
  | some bytes =>
    simp only [hread] at h ⊢
    have hfirst := ((check_problems _ _ _).mp h).1
    rw [check_report _ _ _ h, check_report _ _ _ hfirst]

theorem verifyManifestFile_found (expected : ManifestFile) (kind : Str) :
    (verifyManifestFile host tree root expected kind report).1.isNone =
      (tree.readAt root expected.path).isNone := by
  unfold verifyManifestFile
  cases tree.readAt root expected.path <;> rfl

theorem verifyBlob_problems (digest : Str) (entry : BlobIndexEntry) :
    (verifyBlob host tree root digest entry report).problems = 0 ↔
      report.problems = 0 ∧ Stored host tree root digest entry := by
  unfold verifyBlob Stored
  cases hread : tree.readAt root entry.path with
  | none => simp [Report.problem]
  | some bytes =>
    dsimp only
    rw [check_problems, check_problems, and_assoc]
    simp [hashed, and_comm]

theorem verifyBlobs_problems (rows : List (Str × BlobIndexEntry)) :
    (rows.foldl (fun report row => verifyBlob host tree root row.1 row.2 report) report).problems = 0 ↔
      report.problems = 0 ∧ ∀ row ∈ rows, Stored host tree root row.1 row.2 := by
  induction rows generalizing report with
  | nil => simp
  | cons row rows ih =>
    rw [List.foldl_cons, ih, verifyBlob_problems, List.forall_mem_cons, and_assoc]

theorem references_problems (entries : Table Str BlobIndexEntry) (digests : List Str) :
    (digests.foldl (fun report digest =>
      if entries[digest]?.isSome then report
      else report.problem [str "blob-index", digest, str "missing referenced digest"]) report).problems = 0 ↔
      report.problems = 0 ∧ ∀ digest ∈ digests, entries[digest]?.isSome = true := by
  induction digests generalizing report with
  | nil => simp
  | cons digest digests ih =>
    rw [List.foldl_cons, ih, List.forall_mem_cons, ← and_assoc]
    refine and_congr_left fun _ => ?_
    split
    · rename_i h
      exact ⟨fun hr => ⟨hr, h⟩, And.left⟩
    · rename_i h
      exact iff_of_false (problem_ne _ _) fun hand => h hand.2

end Reports
def WellPlaced (entries : Table Str BlobIndexEntry) : Prop :=
  ∀ (digest : Str) (entry : BlobIndexEntry), entries[digest]? = some entry →
    entry.path = backupBlobRelpath digest ∧ digestFromHex digest = some digest

theorem WellPlaced.insert (entries : Table Str BlobIndexEntry) (digest : Str) (entry : BlobIndexEntry)
    (h : WellPlaced entries) (hpath : entry.path = backupBlobRelpath digest)
    (hdigest : digestFromHex digest = some digest) : WellPlaced (entries.insert digest entry) := by
  intro other found hfound
  rw [show (entries.insert digest entry)[other]? = _ from
    Table.getElem?_set entries digest other (some entry)] at hfound
  split at hfound
  · rename_i heq
    subst heq
    obtain rfl := Option.some.inj hfound
    exact ⟨hpath, hdigest⟩
  · exact h other found hfound

theorem indexRow_clean (state : IndexState) (number : Nat) (line : Str)
    (h : (indexRow state number line).report.problems = 0) :
    (indexRow state number line).report = state.report ∧
      (WellPlaced state.entries → WellPlaced (indexRow state number line).entries) := by
  unfold indexRow at h ⊢
  dsimp only at h ⊢
  split at h
  · rename_i hempty
    rw [if_pos hempty]
    exact ⟨rfl, id⟩
  · rename_i hline
    rw [if_neg hline]
    split at h
    · rename_i digest size path hparts
      split at h
      · exact absurd h (problem_ne _ _)
      · rename_i hex hdigest
        obtain rfl := Storage.digestFromHex_eq digest hex hdigest
        split at h
        · exact absurd h (problem_ne _ _)
        · rename_i value hsize
          have hpath := ((check_problems _ _ _).mp h).1
          refine ⟨(check_report _ _ _ h).trans (check_report _ _ _ hpath), fun hplaced => ?_⟩
          have hplace := ((check_problems _ _ _).mp hpath).2
          exact hplaced.insert _ _ _ (by simpa using hplace) hdigest
    · exact absurd h (problem_ne _ _)

theorem indexStep_clean (path : FilePath) (state state' : IndexState) (line : Str × Nat)
    (hstep : indexStep path state line = .ok state') (h : state'.report.problems = 0) :
    state'.report = state.report ∧ (WellPlaced state.entries → WellPlaced state'.entries) := by
  obtain ⟨text, number⟩ := line
  obtain ⟨_, _, hstep⟩ := (bind_eq_ok _ _ _).mp hstep
  split at hstep
  · split at hstep
    · obtain rfl := Except.ok.inj hstep
      exact absurd h (problem_ne _ _)
    · obtain rfl := Except.ok.inj hstep
      exact ⟨rfl, id⟩
  · obtain rfl := Except.ok.inj hstep
    exact indexRow_clean state (number + 1) text h

theorem indexLines_clean (path : FilePath) (lines : List (Str × Nat)) (state state' : IndexState)
    (hrun : lines.foldlM (indexStep path) state = .ok state') (h : state'.report.problems = 0) :
    state'.report = state.report ∧ (WellPlaced state.entries → WellPlaced state'.entries) := by
  induction lines generalizing state with
  | nil =>
    obtain rfl := Except.ok.inj hrun
    exact ⟨rfl, id⟩
  | cons line lines ih =>
    obtain ⟨mid, hfirst, hrest⟩ := (bind_eq_ok _ _ _).mp hrun
    obtain ⟨hreport, hplaced⟩ := ih mid hrest
    rw [hreport] at h
    obtain ⟨hreport', hplaced'⟩ := indexStep_clean path state mid line hfirst h
    exact ⟨hreport.trans hreport', hplaced ∘ hplaced'⟩

theorem readBlobIndex_clean (path : FilePath) (bytes : Bytes) (report : Report) (state : IndexState)
    (hread : readBlobIndex path bytes report = .ok state) (h : state.report.problems = 0) :
    state.report = report ∧ WellPlaced state.entries := by
  obtain ⟨hreport, hplaced⟩ := indexLines_clean path _ _ _ hread h
  refine ⟨hreport, hplaced fun digest entry hnone => ?_⟩
  simp at hnone

def indexName (root : FilePath) (manifest : BackupManifest) : FilePath :=
  root ++ [manifest.blobIndex.file.path]

structure IndexIntact (host : Host) (tree : FileTree) (root : FilePath) (manifest : BackupManifest)
    (entries : Table Str BlobIndexEntry) : Prop where
  recorded : Recorded host tree root manifest.blobIndex.file
  indexed : ∃ bytes, tree.readAt root manifest.blobIndex.file.path = some bytes ∧
    Indexed (indexName root manifest) bytes entries
  placed : WellPlaced entries
  stored : ∀ (digest : Str) (entry : BlobIndexEntry), entries[digest]? = some entry →
    Stored host tree root digest entry

section Checks
variable (host : Host) (tree : FileTree) (root : FilePath) (manifest : BackupManifest)

theorem checkIndex_clean (report : Report) (check : BackupCheck)
    (hcheck : checkIndex host tree root manifest report = .ok check)
    (h : check.report.problems = 0) :
    report.problems = 0 ∧
      (report = ⟨0, []⟩ → IndexIntact host tree root manifest check.blobs) := by
  unfold checkIndex at hcheck
  have hproblems := verifyManifestFile_problems host tree root report manifest.blobIndex.file
    (str "blob-index")
  have hsame := verifyManifestFile_report host tree root report manifest.blobIndex.file (str "blob-index")
  have hfound := verifyManifestFile_found host tree root report manifest.blobIndex.file (str "blob-index")
  generalize verifyManifestFile host tree root manifest.blobIndex.file (str "blob-index") report =
    verified at hcheck hproblems hsame hfound
  obtain ⟨found, checked⟩ := verified
  dsimp only at hcheck hproblems hsame hfound
  split at hcheck
  · rename_i hnone
    obtain rfl := Except.ok.inj hcheck
    obtain ⟨_, bytes, hread, _⟩ := hproblems.mp h
    rw [hfound, hread] at hnone
    exact absurd hnone Bool.false_ne_true
  · obtain ⟨bytes, hbytes, hcheck⟩ := (bind_eq_ok _ _ _).mp hcheck
    obtain ⟨state, hstate, hcheck⟩ := (bind_eq_ok _ _ _).mp hcheck
    obtain rfl := Except.ok.inj hcheck
    dsimp only at h
    obtain ⟨hsum, hstored⟩ := (verifyBlobs_problems host tree root _ _).mp h
    obtain ⟨hcount, _⟩ := (check_problems _ _ _).mp hsum
    obtain ⟨hclean, _⟩ := (check_problems _ _ _).mp hcount
    obtain ⟨hreport, hplaced⟩ := readBlobIndex_clean _ bytes checked state hstate hclean
    rw [hreport] at hclean
    obtain ⟨hzero, hrecorded⟩ := hproblems.mp hclean
    refine ⟨hzero, fun hempty => ⟨hrecorded, ⟨bytes, ?_, ?_⟩, hplaced, fun digest entry hentry => ?_⟩⟩
    · revert hbytes
      cases tree.readAt root manifest.blobIndex.file.path <;> simp [context]
    · rw [hsame hclean, hempty] at hstate hreport
      have hentries : state = ⟨state.entries, ⟨0, []⟩⟩ := by rw [← hreport]
      rw [hentries] at hstate
      exact hstate
    · exact hstored (digest, entry) (Std.ExtTreeMap.mem_toList_iff_getElem?_eq_some.mpr hentry)

def References (digests : List Str) : Prop :=
  ∃ bytes rows closed, tree.readAt root manifest.metadata.path = some bytes ∧
    host.openExisting bytes = .ok (rows, closed) ∧ referencedBlobDigests host rows = .ok digests

structure Intact (entries : Table Str BlobIndexEntry) (digests : List Str) : Prop where
  config : Recorded host tree root manifest.config
  index : IndexIntact host tree root manifest entries
  metadata : References host tree root manifest digests
  referenced : ∀ digest ∈ digests, entries[digest]?.isSome = true

def Passes (tree' : FileTree) (check : BackupCheck) : Prop :=
  readManifest host tree root = .ok manifest ∧
    checkBackup host tree root manifest = .ok (tree', check) ∧ check.report.problems = 0

theorem checkBackup_clean (tree' : FileTree) (check : BackupCheck)
    (hcheck : checkBackup host tree root manifest = .ok (tree', check))
    (h : check.report.problems = 0) :
    ∃ digests, Intact host tree root manifest check.blobs digests ∧
      ∃ path bytes rows closed, tree.resolve root manifest.metadata.path = some path ∧
        tree.readFile path = some bytes ∧ host.openExisting bytes = .ok (rows, closed) ∧
        referencedBlobDigests host rows = .ok digests ∧ tree.createFile path closed = some tree' := by
  unfold checkBackup at hcheck
  have hproblems := verifyManifestFile_problems host tree root ⟨0, []⟩ manifest.config (str "config")
  have hsame := verifyManifestFile_report host tree root ⟨0, []⟩ manifest.config (str "config")
  generalize verifyManifestFile host tree root manifest.config (str "config") ⟨0, []⟩ = verified
    at hcheck hproblems hsame
  obtain ⟨found, report⟩ := verified
  dsimp only at hcheck hproblems hsame
  obtain ⟨indexed, hindexed, hcheck⟩ := (bind_eq_ok _ _ _).mp hcheck
  have hclean := checkIndex_clean host tree root manifest report indexed hindexed
  split at hcheck
  · obtain ⟨-, rfl⟩ := Prod.mk.inj (Except.ok.inj hcheck)
    exact absurd h (problem_ne _ _)
  rename_i path hpath
  split at hcheck
  · obtain ⟨-, rfl⟩ := Prod.mk.inj (Except.ok.inj hcheck)
    exact absurd h (problem_ne _ _)
  rename_i bytes hbytes
  split at hcheck
  · obtain ⟨-, rfl⟩ := Prod.mk.inj (Except.ok.inj hcheck)
    exact absurd h (problem_ne _ _)
  rename_i rows closed hopen
  obtain ⟨reported, hreported, hcheck⟩ := (bind_eq_ok _ _ _).mp hcheck
  obtain ⟨digests, hdigests, hreported⟩ := (bind_eq_ok _ _ _).mp hreported
  obtain rfl := Except.ok.inj hreported
  obtain ⟨left, hleft, hcheck⟩ := (bind_eq_ok _ _ _).mp hcheck
  obtain ⟨rfl, rfl⟩ := Prod.mk.inj (Except.ok.inj hcheck)
  obtain ⟨hzero, hreferenced⟩ := (references_problems indexed.report indexed.blobs digests).mp h
  obtain ⟨hreport, hindex⟩ := hclean hzero
  obtain ⟨_, hconfig⟩ := hproblems.mp hreport
  refine ⟨digests, ⟨hconfig, hindex (hsame hreport), ⟨bytes, rows, closed, ?_, hopen, hdigests⟩,
    hreferenced⟩, path, bytes, rows, closed, hpath, hbytes, hopen, hdigests, ?_⟩
  · unfold FileTree.readAt
    rw [hpath, Option.bind_some, hbytes]
  · revert hleft
    cases tree.createFile path closed <;> simp [context]

theorem Passes.intact (tree' : FileTree) (check : BackupCheck)
    (h : Passes host tree root manifest tree' check) :
    ∃ digests, Intact host tree root manifest check.blobs digests :=
  (checkBackup_clean host tree root manifest tree' check h.2.1 h.2.2).imp fun _ => And.left

theorem backupVerify_ok (tree' : FileTree) (out : Str) :
    backupVerify host tree root = .ok (tree', out) ↔ ∃ manifest check,
      Passes host tree root manifest tree' check ∧ out = check.report.out ++ str "ok\n" := by
  unfold backupVerify Passes
  constructor
  · intro h
    obtain ⟨manifest, hmanifest, h⟩ := (bind_eq_ok _ _ _).mp h
    obtain ⟨⟨left, check⟩, hcheck, h⟩ := (bind_eq_ok _ _ _).mp h
    obtain ⟨_, hzero, h⟩ := (bind_eq_ok _ _ _).mp h
    obtain ⟨rfl, rfl⟩ := Prod.mk.inj (Except.ok.inj h)
    refine ⟨manifest, check, ⟨hmanifest, hcheck, ?_⟩, rfl⟩
    by_contra hne
    simp [ensure, hne] at hzero
  · intro ⟨manifest, check, ⟨hmanifest, hcheck, hzero⟩, hout⟩
    rw [hmanifest, ok_bind, hcheck, ok_bind, hout]
    dsimp only
    rw [hzero]
    rfl

/-- The files whose bytes the verification compares: the config snapshot, the index and the
blobs that the metadata store refers to. -/
def Guarded (path : FilePath) : Prop :=
  tree.resolve root manifest.config.path = some path ∨
    tree.resolve root manifest.blobIndex.file.path = some path ∨
    ∃ digests, References host tree root manifest digests ∧
      ∃ digest ∈ digests, tree.resolve root (backupBlobRelpath digest) = some path

theorem readAt_of_resolve (text : Str) (path : FilePath) (h : tree.resolve root text = some path) :
    tree.readAt root text = tree.readFile path := by
  unfold FileTree.readAt
  rw [h, Option.bind_some]

theorem References.unique (digests digests' : List Str)
    (h : References host tree root manifest digests)
    (h' : References host tree root manifest digests') : digests = digests' := by
  obtain ⟨bytes, rows, closed, hread, hopen, hdigests⟩ := h
  obtain ⟨bytes', rows', closed', hread', hopen', hdigests'⟩ := h'
  obtain rfl := Option.some.inj (hread.symm.trans hread')
  obtain ⟨rfl, -⟩ := Prod.mk.inj (Except.ok.inj (hopen.symm.trans hopen'))
  exact Except.ok.inj (hdigests.symm.trans hdigests')

section Replacement
variable (tree' final final' : FileTree) (check check' : BackupCheck) (path : FilePath)
  (original bytes : Bytes)

theorem recorded_not_replaced (file : ManifestFile) (h : Recorded host tree root file)
    (h' : Recorded host tree' root file) (hsame : ∀ text, tree'.resolve root text = tree.resolve root text)
    (hpath : tree.resolve root file.path = some path) (horiginal : tree.readFile path = some original)
    (hbytes : tree'.readFile path = some bytes) : host.sha256 bytes = host.sha256 original := by
  obtain ⟨found, hfound, hdigest, -⟩ := h
  obtain ⟨found', hfound', hdigest', -⟩ := h'
  rw [readAt_of_resolve tree root _ path hpath, horiginal] at hfound
  rw [readAt_of_resolve tree' root _ path ((hsame _).trans hpath), hbytes] at hfound'
  obtain rfl := Option.some.inj hfound
  obtain rfl := Option.some.inj hfound'
  rw [hdigest, hdigest']

theorem replaced_reported (hpass : Passes host tree root manifest final check)
    (hguarded : Guarded host tree root manifest path) (horiginal : tree.readFile path = some original)
    (hreplaced : tree.createFile path bytes = some tree')
    (hpass' : Passes host tree' root manifest final' check') :
    host.sha256 bytes = host.sha256 original := by
  obtain ⟨digests, hintact⟩ := hpass.intact
  obtain ⟨digests', hintact'⟩ := hpass'.intact
  have hwrites := FileTree.createFile_writes bytes tree' hreplaced
  have hsame := FileTree.resolve_congr (FileTree.isDir_createFile bytes tree' hreplaced) root
  obtain hconfig | hindex | ⟨found, hfound, digest, hdigest, hblob⟩ := hguarded
  · exact recorded_not_replaced host tree root tree' path original bytes manifest.config hintact.config
      hintact'.config hsame hconfig horiginal hwrites.written
  · exact recorded_not_replaced host tree root tree' path original bytes manifest.blobIndex.file
      hintact.index.recorded hintact'.index.recorded hsame hindex horiginal hwrites.written
  by_cases hindex : tree.resolve root manifest.blobIndex.file.path = some path
  · exact recorded_not_replaced host tree root tree' path original bytes manifest.blobIndex.file
      hintact.index.recorded hintact'.index.recorded hsame hindex horiginal hwrites.written
  -- the index is not the replaced file, so both verifications have its rows
  have hentries : check'.blobs = check.blobs := by
    obtain ⟨rows, hrows, hindexed⟩ := hintact.index.indexed
    obtain ⟨rows', hrows', hindexed'⟩ := hintact'.index.indexed
    have hunread : tree'.readAt root manifest.blobIndex.file.path =
        tree.readAt root manifest.blobIndex.file.path := by
      unfold FileTree.readAt
      rw [hsame]
      cases htarget : tree.resolve root manifest.blobIndex.file.path with
      | none => rfl
      | some target => exact hwrites.others target fun heq => hindex (heq ▸ htarget)
    rw [hunread, hrows] at hrows'
    obtain rfl := Option.some.inj hrows'
    exact congrArg IndexState.entries (Except.ok.inj (hindexed'.symm.trans hindexed))
  obtain rfl := hfound.unique host tree root manifest found digests hintact.metadata
  obtain ⟨entry, hentry⟩ := Option.isSome_iff_exists.mp (hintact.referenced digest hdigest)
  obtain ⟨hplace, -⟩ := hintact.index.placed digest entry hentry
  obtain ⟨stored, hread, hsha, -⟩ := hintact.index.stored digest entry hentry
  obtain ⟨stored', hread', hsha', -⟩ := hintact'.index.stored digest entry (hentries ▸ hentry)
  rw [hplace, readAt_of_resolve tree root _ path hblob, horiginal] at hread
  rw [hplace, readAt_of_resolve tree' root _ path ((hsame _).trans hblob), hwrites.written] at hread'
  obtain rfl := Option.some.inj hread
  obtain rfl := Option.some.inj hread'
  rw [hsha, hsha']

end Replacement

end Checks

end Peryx.Operator
