import Peryx.Operator.Verify

/-!
# What a restore leaves

A copy changes its destination alone. The files a restore copies lie outside the data
directory, which it has emptied first, so each is copied as the verification saw it; no
two copies go to one place.
-/

namespace Peryx.Operator

open Storage (Bytes Rows digestFromHex)

theorem context_eq_ok {α : Type} (message : Str) (x : Option α) (a : α) :
    context message x = .ok a ↔ x = some a := by
  cases x <;> simp [context]

theorem blobComponents_getLast (digest : Str) : (blobComponents digest).getLast? = some digest := rfl

theorem backupBlobPath_inj (root root' : FilePath) (digest digest' : Str)
    (h : backupBlobPath root digest = backupBlobPath root' digest') : root = root' ∧ digest = digest' := by
  obtain ⟨hroot, hcomponents⟩ := List.append_inj' h rfl
  refine ⟨hroot, ?_⟩
  have hlast := congrArg List.getLast? hcomponents
  rw [blobComponents_getLast, blobComponents_getLast] at hlast
  exact Option.some.inj hlast

theorem digest_hex (digest : Str) (h : digestFromHex digest = some digest) :
    digest.length = 64 ∧ ∀ byte ∈ digest, (0x30 ≤ byte ∧ byte ≤ 0x39) ∨ (0x61 ≤ byte ∧ byte ≤ 0x66) := by
  unfold digestFromHex at h
  split at h
  · rename_i hok
    refine ⟨hok.1, fun byte hbyte => ?_⟩
    have hall := List.all_eq_true.mp hok.2 byte hbyte
    simpa using hall
  · cases h

theorem ne_backupBlobPath (root dataDir : FilePath) (name : Str) (digest : Str)
    (hdigest : digestFromHex digest = some digest) (hlength : name.length ≠ 64) :
    dataDir ++ [name] ≠ backupBlobPath root digest := by
  intro heq
  have hlast := congrArg List.getLast? heq
  unfold backupBlobPath at hlast
  rw [List.getLast?_append, List.getLast?_append, blobComponents_getLast] at hlast
  have hname : name = digest := Option.some.inj hlast
  exact hlength (hname ▸ (digest_hex digest hdigest).1)

theorem plainText_blobComponents (digest : Str) (h : digestFromHex digest = some digest) :
    FileTree.PlainText (blobComponents digest) := by
  obtain ⟨hlength, hhex⟩ := digest_hex digest h
  have hpart : ∀ part : Str, part ≠ [] → (∀ byte ∈ part, byte ∈ digest) →
      FileTree.Plain part ∧ 0x2F ∉ part ∧ 0x00 ∉ part := by
    intro part hne hsub
    have hdot : 0x2E ∉ part := fun hmem => absurd (hhex _ (hsub _ hmem)) (by decide)
    refine ⟨⟨hne, ?_, ?_⟩, ?_, ?_⟩
    · exact fun heq => hdot (heq ▸ List.mem_cons_self)
    · exact fun heq => hdot (heq ▸ List.mem_cons_self)
    · exact fun hmem => absurd (hhex _ (hsub _ hmem)) (by decide)
    · exact fun hmem => absurd (hhex _ (hsub _ hmem)) (by decide)
  have hfirst := hpart (digest.take 2) (by simp [← List.length_eq_zero_iff, hlength])
    fun byte hbyte => List.mem_of_mem_take hbyte
  have hsecond := hpart ((digest.drop 2).take 2) (by simp [← List.length_eq_zero_iff, hlength])
    fun byte hbyte => List.mem_of_mem_drop (List.mem_of_mem_take hbyte)
  have hwhole := hpart digest (by simp [← List.length_eq_zero_iff, hlength]) fun _ => id
  constructor
  · exact List.cons_ne_nil _ _
  · simp only [blobComponents, List.forall_mem_cons]
    exact ⟨by decide, by decide, hfirst.1, hsecond.1, hwhole.1, List.forall_mem_nil _⟩
  · simp only [blobComponents, List.forall_mem_cons]
    exact ⟨by decide, by decide, hfirst.2.1, hsecond.2.1, hwhole.2.1, List.forall_mem_nil _⟩
  · simp only [blobComponents, List.forall_mem_cons]
    exact ⟨by decide, by decide, hfirst.2.2, hsecond.2.2, hwhole.2.2, List.forall_mem_nil _⟩

theorem resolve_relpath (tree : FileTree) (root target : FilePath) (digest : Str)
    (h : digestFromHex digest = some digest)
    (hresolve : tree.resolve root (backupBlobRelpath digest) = some target) :
    target = backupBlobPath root digest :=
  FileTree.resolve_eq_some root target _ (plainText_blobComponents digest h) hresolve

section Copies
variable (host : Host) (tree tree' : FileTree)

theorem copyHashed_writes (source dest : FilePath) (text : Str) (file : ManifestFile)
    (h : copyHashed host tree source dest text = .ok (tree', file)) :
    ∃ original bytes, tree.readFile source = some original ∧ (source ≠ dest → bytes = original) ∧
      FileTree.Writes tree tree' dest bytes ∧ file = manifestFile host text bytes := by
  obtain ⟨made, hmade, h⟩ := (bind_eq_ok _ _ _).mp h
  obtain ⟨original, horiginal, h⟩ := (bind_eq_ok _ _ _).mp h
  obtain ⟨cut, hcut, h⟩ := (bind_eq_ok _ _ _).mp h
  obtain ⟨bytes, hbytes, h⟩ := (bind_eq_ok _ _ _).mp h
  obtain ⟨written, hwritten, h⟩ := (bind_eq_ok _ _ _).mp h
  obtain ⟨rfl, rfl⟩ := Prod.mk.inj (Except.ok.inj h)
  rw [context_eq_ok] at hmade horiginal hcut hbytes hwritten
  have hgrows := (FileTree.createDirAll_grows made hmade).1
  have hfirst := FileTree.createFile_writes [] cut hcut
  have hsecond := FileTree.createFile_writes bytes written hwritten
  refine ⟨original, bytes, ?_, fun hne => ?_, hgrows.writes (hfirst.again hsecond), rfl⟩
  · rw [← hgrows.files, horiginal]
  · rw [hfirst.others source hne, horiginal] at hbytes
    exact (Option.some.inj hbytes).symm

theorem prepareRestoreDir_files (dataDir : FilePath) (force : Bool)
    (h : prepareRestoreDir tree dataDir force = .ok tree') (path : FilePath) (bytes : Bytes)
    (hread : tree'.readFile path = some bytes) :
    tree.readFile path = some bytes ∧ FileTree.below dataDir path = false := by
  have hmade : ∀ start : FileTree, context (str "create restore target " ++ display dataDir)
      (start.createDirAll dataDir) = .ok tree' → start.readFile path = some bytes := by
    intro start hstart
    rw [context_eq_ok] at hstart
    rw [← (FileTree.createDirAll_grows tree' hstart).1.files, hread]
  have hcleared : ∀ start : FileTree, start.readFile path = some bytes →
      (FileTree.below dataDir path = true → start.readFile path = none) →
      FileTree.below dataDir path = false := by
    intro start hstart hnone
    by_contra hbelow
    rw [hnone (Bool.eq_true_of_not_eq_false hbelow)] at hstart
    cases hstart
  have hremoved : context (str "create restore target " ++ display dataDir)
      ((tree.removeAll dataDir).createDirAll dataDir) = .ok tree' →
      tree.readFile path = some bytes ∧ FileTree.below dataDir path = false := by
    intro hstart
    have hhere := hmade _ hstart
    rw [FileTree.readFile_removeAll] at hhere
    split at hhere
    · cases hhere
    · rename_i hnot
      refine ⟨hhere, hcleared tree hhere fun hbelow => ?_⟩
      exact absurd ((FileTree.below_iff dataDir path).mp hbelow).1 hnot
  unfold prepareRestoreDir at h
  dsimp only at h
  split at h
  · rename_i habsent
    have hhere := hmade tree h
    refine ⟨hhere, hcleared tree hhere (FileTree.readFile_below path ?_)⟩
    by_contra hdir
    rw [tree.exist_of_isDir dataDir (Bool.eq_true_of_not_eq_false hdir)] at habsent
    exact absurd habsent Bool.false_ne_true
  · split at h
    · split at h
      · rename_i hempty
        obtain rfl := Except.ok.inj h
        exact ⟨hread, hcleared tree hread (FileTree.readFile_isEmptyDir path hempty)⟩
      · obtain ⟨_, _, h⟩ := (bind_eq_ok _ _ _).mp h
        exact hremoved h
    · obtain ⟨_, _, h⟩ := (bind_eq_ok _ _ _).mp h
      exact hremoved h

theorem copyFrom_writes (root : FilePath) (text : Str) (dest : FilePath) (name : Str)
    (file : ManifestFile) (h : copyFrom host tree root text dest name = .ok (tree', file)) :
    ∃ source original bytes, tree.resolve root text = some source ∧
      tree.readFile source = some original ∧ (source ≠ dest → bytes = original) ∧
      FileTree.Writes tree tree' dest bytes := by
  obtain ⟨source, hsource, h⟩ := (bind_eq_ok _ _ _).mp h
  rw [context_eq_ok] at hsource
  obtain ⟨original, bytes, hread, hsame, hwrites, _⟩ := copyHashed_writes host tree tree' source dest _ _ h
  exact ⟨source, original, bytes, hsource, hread, hsame, hwrites⟩

structure BlobRows (rows : List (Str × BlobIndexEntry)) : Prop where
  placed : ∀ row ∈ rows, row.2.path = backupBlobRelpath row.1 ∧ digestFromHex row.1 = some row.1
  nodup : (rows.map Prod.fst).Nodup

theorem restoreBlob_writes (root dataDir : FilePath) (row : Str × BlobIndexEntry)
    (hplaced : row.2.path = backupBlobRelpath row.1) (hdigest : digestFromHex row.1 = some row.1)
    (h : restoreBlob host root dataDir tree row = .ok tree') :
    ∃ original bytes, tree.readFile (backupBlobPath root row.1) = some original ∧
      (root ≠ dataDir → bytes = original) ∧
      FileTree.Writes tree tree' (backupBlobPath dataDir row.1) bytes := by
  unfold restoreBlob at h
  rw [hdigest, show context _ (some row.1) = Except.ok row.1 from rfl, ok_bind] at h
  obtain ⟨⟨copied, file⟩, hcopied, h⟩ := (bind_eq_ok _ _ _).mp h
  obtain rfl := Except.ok.inj h
  obtain ⟨source, original, bytes, hsource, hread, hsame, hwrites⟩ :=
    copyFrom_writes host tree copied root _ _ _ file hcopied
  rw [hplaced] at hsource
  obtain rfl := resolve_relpath tree root source row.1 hdigest hsource
  refine ⟨original, bytes, hread, fun hne => hsame fun heq => ?_, hwrites⟩
  exact hne (backupBlobPath_inj root dataDir row.1 row.1 heq).1

theorem restoreBlobs_writes (root dataDir : FilePath) (hne : root ≠ dataDir)
    (rows : List (Str × BlobIndexEntry)) (hrows : BlobRows rows)
    (h : rows.foldlM (restoreBlob host root dataDir) tree = .ok tree') :
    (∀ path, (∀ row ∈ rows, path ≠ backupBlobPath dataDir row.1) →
      tree'.readFile path = tree.readFile path) ∧
    ∀ row ∈ rows, ∃ bytes, tree.readFile (backupBlobPath root row.1) = some bytes ∧
      tree'.readFile (backupBlobPath dataDir row.1) = some bytes := by
  induction rows generalizing tree with
  | nil =>
    obtain rfl := Except.ok.inj h
    exact ⟨fun _ _ => rfl, List.forall_mem_nil _⟩
  | cons row rows ih =>
    obtain ⟨mid, hfirst, hrest⟩ := (bind_eq_ok _ _ _).mp h
    obtain ⟨⟨hplaced, hdigest⟩, hplaced'⟩ := List.forall_mem_cons.mp hrows.placed
    obtain ⟨hnew, hnodup⟩ := List.nodup_cons.mp hrows.nodup
    obtain ⟨original, bytes, hread, hsame, hwrites⟩ :=
      restoreBlob_writes host tree mid root dataDir row hplaced hdigest hfirst
    obtain rfl := hsame hne
    obtain ⟨hothers, hcopies⟩ := ih mid ⟨hplaced', hnodup⟩ hrest
    have hdistinct : ∀ later ∈ rows, row.1 ≠ later.1 := fun later hlater heq =>
      hnew (heq ▸ List.mem_map_of_mem hlater)
    constructor
    · intro path hpath
      obtain ⟨hhere, hlater⟩ := List.forall_mem_cons.mp hpath
      rw [hothers path hlater, hwrites.others path hhere]
    · rw [List.forall_mem_cons]
      constructor
      · refine ⟨bytes, hread, ?_⟩
        rw [hothers _ fun later hlater heq => ?_]
        · exact hwrites.written
        · exact hdistinct later hlater (backupBlobPath_inj _ _ _ _ heq).2
      · intro later hlater
        obtain ⟨found, hfound, hcopied⟩ := hcopies later hlater
        refine ⟨found, ?_, hcopied⟩
        rw [hwrites.others _ fun heq => ?_] at hfound
        · exact hfound
        · exact hdistinct later hlater (backupBlobPath_inj _ _ _ _ heq).2.symm

end Copies
/-- What a restore is made of: the verification, the copies of the store and of the config
snapshot, and the copies of the blobs. -/
structure RestoreSteps (host : Host) (tree : FileTree) (root dataDir : FilePath) (force : Bool)
    (tree' : FileTree) (manifest : BackupManifest) (check : BackupCheck) (path : FilePath)
    (closed : Bytes) (digests : List Str) : Prop where
  intact : Intact host tree root manifest check.blobs digests
  resolved : tree.resolve root manifest.metadata.path = some path
  opened : ∃ bytes rows, tree.readFile path = some bytes ∧ host.openExisting bytes = .ok (rows, closed) ∧
    referencedBlobDigests host rows = .ok digests
  /-- What the copies can read: the files of the verified tree outside the data directory. -/
  readable : ∃ ready : FileTree,
    (∀ other bytes, ready.readFile other = some bytes →
      (other = path → bytes = closed) ∧ (other ≠ path → tree.readFile other = some bytes) ∧
        FileTree.below dataDir other = false) ∧
    ∃ stored configured : FileTree, ∃ source storedFile configFile,
      copyFrom host ready root manifest.metadata.path (storePath dataDir) (str "peryx.redb") =
        .ok (stored, storedFile) ∧
      ready.resolve root manifest.metadata.path = some source ∧
      copyFrom host stored root manifest.config.path (configPath dataDir) (str "config.toml") =
        .ok (configured, configFile) ∧
      check.blobs.toList.foldlM (restoreBlob host root dataDir) configured = .ok tree'

theorem restore_steps (host : Host) (tree : FileTree) (root dataDir : FilePath) (force : Bool)
    (tree' : FileTree) (out : Str) (h : restore host tree root dataDir force = .ok (tree', out)) :
    ∃ manifest left check path closed digests, Passes host tree root manifest left check ∧
      RestoreSteps host tree root dataDir force tree' manifest check path closed digests := by
  obtain ⟨manifest, hmanifest, h⟩ := (bind_eq_ok _ _ _).mp h
  obtain ⟨⟨left, check⟩, hcheck, h⟩ := (bind_eq_ok _ _ _).mp h
  obtain ⟨_, hzero, h⟩ := (bind_eq_ok _ _ _).mp h
  obtain ⟨warning, _, h⟩ := (bind_eq_ok _ _ _).mp h
  obtain ⟨ready, hready, h⟩ := (bind_eq_ok _ _ _).mp h
  obtain ⟨⟨stored, storedFile⟩, hstored, h⟩ := (bind_eq_ok _ _ _).mp h
  obtain ⟨⟨configured, configFile⟩, hconfigured, h⟩ := (bind_eq_ok _ _ _).mp h
  obtain ⟨final, hfinal, h⟩ := (bind_eq_ok _ _ _).mp h
  obtain ⟨rfl, -⟩ := Prod.mk.inj (Except.ok.inj h)
  have hproblems : check.report.problems = 0 := by
    by_contra hne
    simp [ensure, hne] at hzero
  obtain ⟨digests, hintact, path, bytes, rows, closed, hpath, hbytes, hopen, hdigests, hleft⟩ :=
    checkBackup_clean host tree root manifest left check hcheck hproblems
  have hwrites := FileTree.createFile_writes closed left hleft
  refine ⟨manifest, left, check, path, closed, digests, ⟨hmanifest, hcheck, hproblems⟩, hintact, hpath,
    ⟨bytes, rows, hbytes, hopen, hdigests⟩, ready, fun other found hfound => ?_, stored, configured, ?_⟩
  · obtain ⟨hother, hbelow⟩ := prepareRestoreDir_files left ready dataDir force hready other found hfound
    refine ⟨fun heq => ?_, fun hne => ?_, hbelow⟩
    · rw [heq, hwrites.written] at hother
      exact (Option.some.inj hother).symm
    · rw [← hwrites.others other hne, hother]
  · obtain ⟨source, _, _, hsource, _⟩ := copyFrom_writes host ready stored root _ _ _ _ hstored
    exact ⟨source, storedFile, configFile, hstored, hsource, hconfigured, hfinal⟩

theorem storePath_below (dataDir : FilePath) : FileTree.below dataDir (storePath dataDir) = true :=
  (FileTree.below_iff _ _).mpr ⟨List.prefix_append _ _, by simp [storePath]⟩

theorem backupBlobPath_below (dataDir : FilePath) (digest : Str) :
    FileTree.below dataDir (backupBlobPath dataDir digest) = true :=
  (FileTree.below_iff _ _).mpr ⟨List.prefix_append _ _, by simp [backupBlobPath, blobComponents]⟩

theorem blobRows (entries : Table Str BlobIndexEntry) (h : WellPlaced entries) :
    BlobRows entries.toList where
  placed := fun row hrow =>
    h row.1 row.2 (Std.ExtTreeMap.mem_toList_iff_getElem?_eq_some.mp hrow)
  nodup := by
    rw [Std.ExtTreeMap.map_fst_toList_eq_keys]
    refine (Std.ExtTreeMap.distinct_keys).imp fun {a b} hab heq => hab ?_
    rw [heq]
    exact Std.ReflCmp.compare_self

theorem restore_result (host : Host) (tree : FileTree) (root dataDir : FilePath) (force : Bool)
    (tree' : FileTree) (manifest : BackupManifest) (check : BackupCheck) (path : FilePath)
    (closed : Bytes) (digests : List Str)
    (h : RestoreSteps host tree root dataDir force tree' manifest check path closed digests) :
    tree'.readFile (storePath dataDir) = some closed ∧
      ∀ digest ∈ digests, backupBlobPath root digest ≠ path → ∃ blob,
        tree.readFile (backupBlobPath root digest) = some blob ∧ host.sha256 blob = digest ∧
          tree'.readFile (backupBlobPath dataDir digest) = some blob := by
  obtain ⟨ready, hready, stored, configured, source, storedFile, configFile, hstored, hsource,
    hconfigured, hfinal⟩ := h.readable
  obtain rfl := FileTree.resolve_unique root source path _ hsource h.resolved
  obtain ⟨source', original, bytes, hsource', hread, hsame, hwrites⟩ :=
    copyFrom_writes host ready stored root _ _ _ _ hstored
  obtain rfl := Option.some.inj (hsource.symm.trans hsource')
  obtain ⟨hclosed, -, houtside⟩ := hready source original hread
  obtain rfl := hclosed rfl
  obtain rfl := hsame fun heq => by
    rw [heq, storePath_below] at houtside
    cases houtside
  obtain ⟨_, _, configBytes, _, _, _, hwrites'⟩ :=
    copyFrom_writes host stored configured root _ _ _ _ hconfigured
  have hrows := blobRows check.blobs h.intact.index.placed
  have hstore : configured.readFile (storePath dataDir) = some bytes := by
    rw [hwrites'.others _ (by simp [storePath, configPath]; decide)]
    exact hwrites.written
  -- a blob of the backup is still what it was before the first copy
  have hkeep : ∀ digest, digestFromHex digest = some digest →
      configured.readFile (backupBlobPath root digest) = ready.readFile (backupBlobPath root digest) := by
    intro digest hdigest
    rw [hwrites'.others _ (ne_backupBlobPath root dataDir _ digest hdigest (by decide)).symm,
      hwrites.others _ (ne_backupBlobPath root dataDir _ digest hdigest (by decide)).symm]
  have hseparate : check.blobs.toList ≠ [] → root ≠ dataDir := by
    intro hsome heq
    obtain ⟨row, rest, hcons⟩ := List.exists_cons_of_ne_nil hsome
    rw [hcons] at hfinal hrows
    obtain ⟨mid, hfirst, _⟩ := (bind_eq_ok _ _ _).mp hfinal
    obtain ⟨hplaced, hdigest⟩ := hrows.placed row List.mem_cons_self
    obtain ⟨found, _, hfound, _⟩ :=
      restoreBlob_writes host configured mid root dataDir row hplaced hdigest hfirst
    rw [hkeep row.1 hdigest] at hfound
    have hbelow := (hready _ found hfound).2.2
    rw [heq, backupBlobPath_below] at hbelow
    cases hbelow
  by_cases hempty : check.blobs.toList = []
  · rw [hempty] at hfinal
    obtain rfl := Except.ok.inj hfinal
    refine ⟨hstore, fun digest hdigest => ?_⟩
    obtain ⟨entry, hentry⟩ := Option.isSome_iff_exists.mp (h.intact.referenced digest hdigest)
    rw [← Std.ExtTreeMap.mem_toList_iff_getElem?_eq_some, hempty] at hentry
    exact absurd hentry List.not_mem_nil
  obtain ⟨hothers, hcopies⟩ := restoreBlobs_writes host configured tree' root dataDir
    (hseparate hempty) check.blobs.toList hrows hfinal
  constructor
  · rw [hothers _ fun row hrow => ?_]
    · exact hstore
    · exact ne_backupBlobPath dataDir dataDir _ row.1 (hrows.placed row hrow).2 (by decide)
  · intro digest hdigest hnot
    obtain ⟨entry, hentry⟩ := Option.isSome_iff_exists.mp (h.intact.referenced digest hdigest)
    obtain ⟨hplaced, hhex⟩ := h.intact.index.placed digest entry hentry
    have hrow := Std.ExtTreeMap.mem_toList_iff_getElem?_eq_some.mpr hentry
    obtain ⟨blob, hblob, hcopied⟩ := hcopies (digest, entry) hrow
    rw [hkeep digest hhex] at hblob
    have hverified := (hready _ blob hblob).2.1 hnot
    refine ⟨blob, hverified, ?_, hcopied⟩
    obtain ⟨seen, hseen, hsha, -⟩ := h.intact.index.stored digest entry hentry
    rw [hplaced] at hseen
    obtain ⟨target, htarget, hseen⟩ := Option.bind_eq_some_iff.mp hseen
    obtain rfl := resolve_relpath tree root target digest hhex htarget
    obtain rfl := Option.some.inj (hverified.symm.trans hseen)
    exact hsha

end Peryx.Operator
