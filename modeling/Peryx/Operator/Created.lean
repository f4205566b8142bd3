import Peryx.Operator.BlobIndex

/-!
# A created backup verifies
-/

namespace Peryx.Operator

open Storage (Bytes Rows digestFromHex)

theorem rowTable_toList (rows : List (Str × UInt64)) (entries : Table Str BlobIndexEntry)
    (hnodup : (rows.map Prod.fst).Nodup) (hnew : ∀ row ∈ rows, entries[row.1]? = none) :
    (rowTable entries rows).toList.Perm
      (rows.map (fun row => (row.1, ⟨row.2, backupBlobRelpath row.1⟩)) ++ entries.toList) := by
  induction rows generalizing entries with
  | nil => exact List.Perm.refl _
  | cons row rows ih =>
    obtain ⟨hfirst, hrest⟩ := List.forall_mem_cons.mp hnew
    obtain ⟨hout, hnodup'⟩ := List.nodup_cons.mp hnodup
    have hlater : ∀ later ∈ rows,
        (entries.insert row.1 ⟨row.2, backupBlobRelpath row.1⟩)[later.1]? = none := by
      intro later hlater
      have hne : row.1 ≠ later.1 := fun heq => hout (heq ▸ List.mem_map_of_mem hlater)
      exact (Table.getElem?_set_of_ne entries row.1 later.1 (some _) hne).trans (hrest later hlater)
    refine (ih _ hnodup' hlater).trans ?_
    refine (List.Perm.append_left _ (Table.toList_insert_new entries row.1 _ hfirst)).trans ?_
    exact List.perm_middle

theorem sum_perm (sizes sizes' : List UInt64) (h : sizes.Perm sizes') : sizes.sum = sizes'.sum := by
  induction h with
  | nil => rfl
  | cons size _ ih => rw [List.sum_cons, List.sum_cons, ih]
  | swap a b rest =>
    rw [List.sum_cons, List.sum_cons, List.sum_cons, List.sum_cons, ← UInt64.add_assoc,
      ← UInt64.add_assoc, UInt64.add_comm b a]
  | trans _ _ ih ih' => exact ih.trans ih'

section Creation
variable (host : Host) (dataDir root : FilePath)

structure Held (tree : FileTree) (row : Str × UInt64) : Prop where
  digest : RowOk row
  blob : ∃ bytes, tree.readFile (backupBlobPath root row.1) = some bytes ∧
    host.sha256 bytes = row.1 ∧ sizeOf bytes = row.2
  dirs : ∀ start, start <+: (backupBlobPath root row.1).dropLast → tree.isDir start = true

theorem Held.mono (tree tree' : FileTree) (row : Str × UInt64) (h : Held host root tree row)
    (hread : tree'.readFile (backupBlobPath root row.1) = tree.readFile (backupBlobPath root row.1))
    (hdirs : ∀ path, tree.isDir path = true → tree'.isDir path = true) : Held host root tree' row :=
  ⟨h.digest, by rw [hread]; exact h.blob, fun start hstart => hdirs start (h.dirs start hstart)⟩

theorem copyHashed_dirs (tree tree' : FileTree) (source dest : FilePath) (text : Str)
    (file : ManifestFile) (h : copyHashed host tree source dest text = .ok (tree', file)) :
    ∀ start, start <+: dest.dropLast → tree'.isDir start = true := by
  obtain ⟨made, hmade, h⟩ := (bind_eq_ok _ _ _).mp h
  obtain ⟨original, horiginal, h⟩ := (bind_eq_ok _ _ _).mp h
  obtain ⟨cut, hcut, h⟩ := (bind_eq_ok _ _ _).mp h
  obtain ⟨bytes, hbytes, h⟩ := (bind_eq_ok _ _ _).mp h
  obtain ⟨written, hwritten, h⟩ := (bind_eq_ok _ _ _).mp h
  obtain ⟨rfl, rfl⟩ := Prod.mk.inj (Except.ok.inj h)
  rw [context_eq_ok] at hmade hcut hwritten
  have hfirst := FileTree.createFile_writes [] cut hcut
  have hsecond := FileTree.createFile_writes bytes written hwritten
  exact fun start hstart => hsecond.dirs start (hfirst.dirs start
    ((FileTree.createDirAll_grows made hmade).2 start hstart))

theorem copyBlob_held (copied copied' : Copied) (digest : Str)
    (hcopy : copyBlob host dataDir root copied digest = .ok copied') :
    ∃ size, Held host root copied'.tree (digest, size) ∧
      copied'.count = copied.count + 1 ∧ copied'.bytes = copied.bytes + size ∧
      copied'.index = copied.index ++ indexLine digest size ∧
      (∀ path, path ≠ backupBlobPath root digest →
        copied'.tree.readFile path = copied.tree.readFile path) ∧
      ∀ path, copied.tree.isDir path = true → copied'.tree.isDir path = true := by
  obtain ⟨hex, hhex, h⟩ := (bind_eq_ok _ _ _).mp hcopy
  rw [context_eq_ok] at hhex
  obtain rfl := Storage.digestFromHex_eq digest hex hhex
  obtain ⟨_, _, h⟩ := (bind_eq_ok _ _ _).mp h
  obtain ⟨⟨tree, file⟩, hcopied, h⟩ := (bind_eq_ok _ _ _).mp h
  obtain ⟨_, hdigest, h⟩ := (bind_eq_ok _ _ _).mp h
  obtain rfl := Except.ok.inj h
  obtain ⟨original, bytes, _, _, hwrites, rfl⟩ :=
    copyHashed_writes host copied.tree tree _ _ _ file hcopied
  have hsha : host.sha256 bytes = hex := by
    by_contra hne
    simp [ensure, manifestFile, hne] at hdigest
  refine ⟨sizeOf bytes, ⟨hhex, ⟨bytes, hwrites.written, hsha, rfl⟩, ?_⟩, rfl, rfl, rfl, hwrites.others,
    hwrites.dirs⟩
  exact copyHashed_dirs host copied.tree tree _ _ _ _ hcopied

theorem copyBlobs_held (digests : List Str) (copied copied' : Copied) (hnodup : digests.Nodup)
    (h : digests.foldlM (copyBlob host dataDir root) copied = .ok copied') :
    ∃ rows : List (Str × UInt64), rows.map Prod.fst = digests ∧
      (∀ row ∈ rows, Held host root copied'.tree row) ∧
      copied'.count = copied.count + UInt64.ofNat rows.length ∧
      copied'.bytes = copied.bytes + (rows.map Prod.snd).sum ∧
      copied'.index = copied.index ++ rows.flatMap (fun row => indexLine row.1 row.2) ∧
      (∀ path, (∀ digest ∈ digests, path ≠ backupBlobPath root digest) →
        copied'.tree.readFile path = copied.tree.readFile path) ∧
      ∀ path, copied.tree.isDir path = true → copied'.tree.isDir path = true := by
  induction digests generalizing copied with
  | nil =>
    obtain rfl := Except.ok.inj h
    exact ⟨[], rfl, List.forall_mem_nil _, by simp, by simp, by simp, fun _ _ => rfl, fun _ => id⟩
  | cons digest digests ih =>
    obtain ⟨mid, hfirst, hrest⟩ := (bind_eq_ok _ _ _).mp h
    obtain ⟨hout, hnodup'⟩ := List.nodup_cons.mp hnodup
    obtain ⟨size, hheld, hcount, hbytes, hindex, hothers, hdirs⟩ :=
      copyBlob_held host dataDir root copied mid digest hfirst
    obtain ⟨rows, hdigests, hrows, hcount', hbytes', hindex', hothers', hdirs'⟩ := ih mid hnodup' hrest
    refine ⟨(digest, size) :: rows, ?_, ?_, ?_, ?_, ?_, ?_, fun path hdir => hdirs' path (hdirs path hdir)⟩
    · rw [List.map_cons, hdigests]
    · rw [List.forall_mem_cons]
      refine ⟨hheld.mono host root mid.tree copied'.tree _ (hothers' _ fun later hlater heq => ?_) hdirs',
        hrows⟩
      have hsame : digest = later := (backupBlobPath_inj root root digest later heq).2
      exact hout (hsame ▸ hlater)
    · rw [hcount', hcount, List.length_cons, UInt64.ofNat_add, UInt64.add_assoc,
        UInt64.add_comm (UInt64.ofNat rows.length)]
      rfl
    · rw [hbytes', hbytes, List.map_cons, List.sum_cons, UInt64.add_assoc]
    · rw [hindex', hindex, List.flatMap_cons, List.append_assoc]
    · intro path hpath
      obtain ⟨hhere, hlater⟩ := List.forall_mem_cons.mp hpath
      rw [hothers' path hlater, hothers path hhere]

structure Layout (created : Created) (snapshot stored closed : Bytes) (digests : List Str)
    (rows : List (Str × UInt64)) : Prop where
  config : created.tree.readFile (configPath root) = some snapshot
  metadata : created.tree.readFile (metadataPath root) = some closed
  index : created.tree.readFile (indexPath root) =
    some (blobIndexHeader ++ [0x0A] ++ rows.flatMap fun row => indexLine row.1 row.2)
  manifest : created.tree.readFile (manifestPath root) =
    some (host.encodeManifest created.manifest ++ [0x0A])
  held : ∀ row ∈ rows, Held host root created.tree row
  digests_eq : rows.map Prod.fst = digests
  digests_nodup : digests.Nodup
  opened : ∃ metadata, host.openExisting stored = .ok (metadata, closed) ∧
    referencedBlobDigests host metadata = .ok digests
  dirs : created.tree.isDir root = true ∧ created.tree.isDir (root ++ [str "metadata"]) = true
  format : created.manifest.format = backupFormat
  config_eq : created.manifest.config = manifestFile host (str "config.toml") snapshot
  metadata_eq : created.manifest.metadata = manifestFile host (str "metadata/peryx.redb") closed
  index_eq : created.manifest.blobIndex = ⟨manifestFile host (str "blobs.tsv")
    (blobIndexHeader ++ [0x0A] ++ rows.flatMap fun row => indexLine row.1 row.2),
    UInt64.ofNat rows.length, (rows.map Prod.snd).sum⟩

theorem names_ne (name name' : Str) (h : name ≠ name') : root ++ [name] ≠ root ++ [name'] := fun heq =>
  h (List.cons.inj (List.append_cancel_left heq)).1

theorem name_ne_metadataPath (name : Str) : root ++ [name] ≠ metadataPath root := by
  intro heq
  have hlength := congrArg List.length heq
  simp [metadataPath] at hlength

theorem writeHashed_writes (tree tree' : FileTree) (path : FilePath) (bytes : Bytes) (text : Str)
    (file : ManifestFile) (h : writeHashed host tree path bytes text = .ok (tree', file)) :
    FileTree.Writes tree tree' path bytes ∧ tree'.isDir path.dropLast = true ∧
      file = manifestFile host text bytes := by
  obtain ⟨made, hmade, h⟩ := (bind_eq_ok _ _ _).mp h
  obtain ⟨written, hwritten, h⟩ := (bind_eq_ok _ _ _).mp h
  obtain ⟨rfl, rfl⟩ := Prod.mk.inj (Except.ok.inj h)
  rw [context_eq_ok] at hmade hwritten
  obtain ⟨hgrows, hdirs⟩ := FileTree.createDirAll_grows made hmade
  have hwrites := FileTree.createFile_writes bytes written hwritten
  exact ⟨hgrows.writes hwrites, hwrites.dirs _ (hdirs _ List.prefix_rfl), rfl⟩

theorem hashExistingFile_eq (tree : FileTree) (path : FilePath) (bytes : Bytes) (info : HashedFile)
    (hread : tree.readFile path = some bytes) (h : hashExistingFile host tree path = .ok info) :
    info = hashed host bytes := by
  unfold hashExistingFile at h
  rw [hread] at h
  exact (Except.ok.inj h).symm

theorem backupCreate_layout (snapshot : Except Str Bytes) (tree : FileTree) (created : Created)
    (h : backupCreate host snapshot dataDir root tree = .ok created) :
    ∃ text stored closed digests rows, Layout host root created text stored closed digests rows := by
  obtain ⟨prepared, hprepared, h⟩ := (bind_eq_ok _ _ _).mp h
  obtain ⟨text, htext, h⟩ := (bind_eq_ok _ _ _).mp h
  obtain ⟨⟨configured, config⟩, hconfig, h⟩ := (bind_eq_ok _ _ _).mp h
  obtain ⟨⟨copiedStore, storeFile⟩, hstore, h⟩ := (bind_eq_ok _ _ _).mp h
  obtain ⟨stored, hstored, h⟩ := (bind_eq_ok _ _ _).mp h
  obtain ⟨⟨metadata, closed⟩, hopen, h⟩ := (bind_eq_ok _ _ _).mp h
  obtain ⟨begun, hbegun, h⟩ := (bind_eq_ok _ _ _).mp h
  obtain ⟨digests, hdigests, h⟩ := (bind_eq_ok _ _ _).mp h
  obtain ⟨copied, hcopied, h⟩ := (bind_eq_ok _ _ _).mp h
  obtain ⟨indexed, hindexed, h⟩ := (bind_eq_ok _ _ _).mp h
  obtain ⟨settled, hsettled, h⟩ := (bind_eq_ok _ _ _).mp h
  obtain ⟨metadataInfo, hmetadataInfo, h⟩ := (bind_eq_ok _ _ _).mp h
  obtain ⟨indexInfo, hindexInfo, h⟩ := (bind_eq_ok _ _ _).mp h
  obtain ⟨written, hwritten, h⟩ := (bind_eq_ok _ _ _).mp h
  obtain rfl := Except.ok.inj h
  rw [context_eq_ok] at hstored hbegun hindexed hsettled hwritten
  have hnodup := referencedBlobDigests_nodup host metadata digests hdigests
  obtain ⟨wconfig, hroot, rfl⟩ := writeHashed_writes host prepared configured _ _ _ config hconfig
  obtain ⟨_, _, _, _, wstore, _⟩ := copyHashed_writes host configured copiedStore _ _ _ storeFile hstore
  have hstoreDir := copyHashed_dirs host configured copiedStore _ _ _ storeFile hstore
    (root ++ [str "metadata"]) (by simp [metadataPath])
  have wbegun := FileTree.createFile_writes _ begun hbegun
  obtain ⟨rows, hrows, hheld, hcount, hbytes, hindex, hothers, hdirs⟩ :=
    copyBlobs_held host dataDir root digests _ copied hnodup hcopied
  have windexed := FileTree.createFile_writes _ indexed hindexed
  have wsettled := FileTree.createFile_writes _ settled hsettled
  have wwritten := FileTree.createFile_writes _ written hwritten
  have hblob : ∀ row ∈ rows, ∀ name : Str, name.length ≠ 64 → ∀ start : FilePath,
      start ++ [name] ≠ backupBlobPath root row.1 := fun row hrow name hname start =>
    ne_backupBlobPath root start name row.1 (hheld row hrow).digest hname
  have hkept : ∀ name : Str, name.length ≠ 64 → ∀ start : FilePath, start ++ [name] ≠ indexPath root →
      copied.tree.readFile (start ++ [name]) = copiedStore.readFile (start ++ [name]) := by
    intro name hname start hne
    rw [hothers _ fun digest hdigest => ?_, wbegun.others _ hne]
    rw [← hrows] at hdigest
    obtain ⟨row, hrow, rfl⟩ := List.mem_map.mp hdigest
    exact hblob row hrow name hname start
  have hgrown : ∀ path, copiedStore.isDir path = true → written.isDir path = true := fun path hdir =>
    wwritten.dirs _ (wsettled.dirs _ (windexed.dirs _ (hdirs _ (wbegun.dirs _ hdir))))
  obtain rfl := hashExistingFile_eq host settled _ closed metadataInfo wsettled.written hmetadataInfo
  have hstoreIndex : indexPath root ≠ metadataPath root := name_ne_metadataPath root _
  have hstoreConfig : configPath root ≠ metadataPath root := name_ne_metadataPath root _
  have hstoreManifest : manifestPath root ≠ metadataPath root := name_ne_metadataPath root _
  have hconfigManifest : configPath root ≠ manifestPath root := names_ne root _ _ (by decide)
  have hconfigIndex : configPath root ≠ indexPath root := names_ne root _ _ (by decide)
  have hindexManifest : indexPath root ≠ manifestPath root := names_ne root _ _ (by decide)
  have hindexText : settled.readFile (indexPath root) = some copied.index := by
    rw [wsettled.others _ hstoreIndex, windexed.written]
  obtain rfl := hashExistingFile_eq host settled _ _ indexInfo hindexText hindexInfo
  refine ⟨text, stored, closed, digests, rows, ?_⟩
  constructor
  · have hkeptConfig : copied.tree.readFile (configPath root) = copiedStore.readFile (configPath root) :=
      hkept _ (by decide) root hconfigIndex
    rw [wwritten.others _ hconfigManifest, wsettled.others _ hstoreConfig, windexed.others _ hconfigIndex,
      hkeptConfig, wstore.others _ hstoreConfig]
    exact wconfig.written
  · rw [wwritten.others _ hstoreManifest.symm]
    exact wsettled.written
  · rw [wwritten.others _ hindexManifest, hindexText, hindex]
  · exact wwritten.written
  · intro row hrow
    refine (hheld row hrow).mono host root copied.tree written row ?_ fun path hdir =>
      wwritten.dirs _ (wsettled.dirs _ (windexed.dirs _ hdir))
    have hstoreBlob : metadataPath root ≠ backupBlobPath root row.1 := by
      have hne := hblob row hrow (str "peryx.redb") (by decide) (root ++ [str "metadata"])
      rwa [List.append_assoc] at hne
    rw [wwritten.others _ (hblob row hrow _ (by decide) root).symm, wsettled.others _ hstoreBlob.symm,
      windexed.others _ (hblob row hrow _ (by decide) root).symm]
  · exact hrows
  · exact hnodup
  · exact ⟨metadata, hopen, hdigests⟩
  · refine ⟨hgrown root (wstore.dirs root ?_), hgrown _ hstoreDir⟩
    simpa [configPath] using hroot
  · rfl
  · rfl
  · rfl
  · rw [hindex, hcount, hbytes]
    simp [manifestFile, hashed]

end Creation
section Verification
variable (host : Host) (tree : FileTree) (root : FilePath) (manifest : BackupManifest)

theorem checkIndex_passes (bytes : Bytes) (entries : Table Str BlobIndexEntry)
    (hrecorded : Recorded host tree root manifest.blobIndex.file)
    (hread : tree.readAt root manifest.blobIndex.file.path = some bytes)
    (hindexed : Indexed (indexName root manifest) bytes entries)
    (hcount : UInt64.ofNat entries.toList.length = manifest.blobIndex.count)
    (hbytes : (entries.toList.map fun row => row.2.sizeBytes).sum = manifest.blobIndex.blobBytes)
    (hstored : ∀ row ∈ entries.toList, Stored host tree root row.1 row.2) :
    ∃ check, checkIndex host tree root manifest ⟨0, []⟩ = .ok check ∧ check.report.problems = 0 ∧
      check.blobs = entries := by
  have hclean := (verifyManifestFile_problems host tree root ⟨0, []⟩ manifest.blobIndex.file
    (str "blob-index")).mpr ⟨rfl, hrecorded⟩
  have hsame := verifyManifestFile_report host tree root ⟨0, []⟩ manifest.blobIndex.file _ hclean
  have hfound := verifyManifestFile_found host tree root ⟨0, []⟩ manifest.blobIndex.file (str "blob-index")
  unfold checkIndex
  generalize verifyManifestFile host tree root manifest.blobIndex.file (str "blob-index") ⟨0, []⟩ =
    verified at hclean hsame hfound ⊢
  obtain ⟨found, report⟩ := verified
  dsimp only at hclean hsame hfound ⊢
  subst hsame
  have hthere : ¬ found.isNone = true := by
    rw [hfound, hread]
    exact Bool.false_ne_true
  rw [if_neg hthere, hread, show context _ (some bytes) = Except.ok bytes from rfl, ok_bind,
    show readBlobIndex (root ++ [manifest.blobIndex.file.path]) bytes ⟨0, []⟩ = _ from hindexed, ok_bind]
  refine ⟨_, rfl, (verifyBlobs_problems host tree root _ _).mpr ⟨?_, hstored⟩, rfl⟩
  refine (check_problems _ _ _).mpr ⟨(check_problems _ _ _).mpr ⟨rfl, ?_⟩, ?_⟩
  · exact fun hne => hne hcount
  · exact fun hne => hne hbytes

theorem checkBackup_passes (check : BackupCheck) (path : FilePath) (bytes closed : Bytes) (rows : Rows)
    (digests : List Str) (tree' : FileTree) (hconfig : Recorded host tree root manifest.config)
    (hindex : checkIndex host tree root manifest ⟨0, []⟩ = .ok check) (hclean : check.report.problems = 0)
    (hpath : tree.resolve root manifest.metadata.path = some path)
    (hread : tree.readFile path = some bytes) (hopen : host.openExisting bytes = .ok (rows, closed))
    (hdigests : referencedBlobDigests host rows = .ok digests)
    (hreferenced : ∀ digest ∈ digests, check.blobs[digest]?.isSome = true)
    (hclose : tree.createFile path closed = some tree') :
    ∃ check', checkBackup host tree root manifest = .ok (tree', check') ∧ check'.report.problems = 0 := by
  have hfirst := (verifyManifestFile_problems host tree root ⟨0, []⟩ manifest.config (str "config")).mpr
    ⟨rfl, hconfig⟩
  have hsame := verifyManifestFile_report host tree root ⟨0, []⟩ manifest.config _ hfirst
  have hreferences := (references_problems check.report check.blobs digests).mpr ⟨hclean, hreferenced⟩
  unfold checkBackup checkMetadataReferences
  generalize verifyManifestFile host tree root manifest.config (str "config") ⟨0, []⟩ = verified
    at hsame ⊢
  obtain ⟨found, report⟩ := verified
  dsimp only at hsame ⊢
  rw [hsame, hindex, ok_bind, hpath]
  dsimp only
  rw [hread]
  dsimp only
  rw [hopen]
  dsimp only
  rw [hdigests, ok_bind, hclose]
  exact ⟨_, rfl, hreferences⟩

theorem readAt_name (name : Str) (hplain : FileTree.PlainText [name]) (hroot : tree.isDir root = true) :
    tree.readAt root name = tree.readFile (root ++ [name]) := by
  have hread := tree.readAt_plain root [name] hplain fun start hstart hne => ?_
  · rwa [List.intercalate_singleton] at hread
  · obtain ⟨rest, hrest⟩ := hstart
    cases start with
    | nil => rwa [List.append_nil]
    | cons first start =>
      obtain ⟨rfl, hnil⟩ := List.cons.inj hrest
      obtain ⟨rfl, -⟩ := List.append_eq_nil_iff.mp hnil
      exact absurd rfl hne

theorem Held.stored (row : Str × UInt64) (h : Held host root tree row) :
    Stored host tree root row.1 ⟨row.2, backupBlobRelpath row.1⟩ := by
  obtain ⟨bytes, hread, hsha, hsize⟩ := h.blob
  refine ⟨bytes, ?_, hsha, hsize⟩
  have hat := tree.readAt_plain root (blobComponents row.1) (plainText_blobComponents row.1 h.digest)
  refine (hat fun start hstart hne => h.dirs _ ?_).trans hread
  obtain ⟨rest, hrest⟩ := hstart
  have hrest' : rest ≠ [] := fun hnil => hne (by rw [← hrest, hnil, List.append_nil])
  rw [backupBlobPath, ← hrest, ← List.append_assoc, List.dropLast_append_of_ne_nil hrest']
  exact List.prefix_append _ _

theorem resolve_metadata (hroot : tree.isDir root = true)
    (hmetadata : tree.isDir (root ++ [str "metadata"]) = true) :
    tree.resolve root (str "metadata/peryx.redb") = some (metadataPath root) := by
  have hplain : FileTree.PlainText [str "metadata", str "peryx.redb"] :=
    ⟨by decide, by decide, by decide, by decide⟩
  refine tree.resolve_plain root _ hplain fun start hstart hne => ?_
  obtain rfl | ⟨rest, rfl, hrest⟩ := List.prefix_cons_iff.mp hstart
  · rwa [List.append_nil]
  obtain rfl | ⟨rest', rfl, hrest'⟩ := List.prefix_cons_iff.mp hrest
  · exact hmetadata
  · obtain rfl := List.prefix_nil.mp hrest'
    exact absurd rfl hne

def ReadsBack : Prop := host.decodeManifest (host.encodeManifest manifest ++ [0x0A]) = .ok manifest

/-- A database file that was opened and closed opens again, with the same rows. -/
def Reopens : Prop := ∀ bytes rows closed, host.openExisting bytes = .ok (rows, closed) →
  ∃ closed', host.openExisting closed = .ok (rows, closed')

theorem plainText_config : FileTree.PlainText [str "config.toml"] :=
  ⟨by decide, by decide, by decide, by decide⟩

theorem plainText_index : FileTree.PlainText [str "blobs.tsv"] :=
  ⟨by decide, by decide, by decide, by decide⟩

section Laid
variable (created : Created) (snapshot stored closed : Bytes) (digests : List Str)
  (rows : List (Str × UInt64))

theorem recorded_manifestFile (text : Str) (bytes : Bytes) (hread : tree.readAt root text = some bytes) :
    Recorded host tree root (manifestFile host text bytes) :=
  ⟨bytes, hread, rfl, rfl⟩

theorem Layout.config_recorded
    (layout : Layout host root created snapshot stored closed digests rows) :
    Recorded host created.tree root created.manifest.config := by
  rw [layout.config_eq]
  exact recorded_manifestFile host created.tree root _ snapshot
    ((readAt_name created.tree root _ plainText_config layout.dirs.1).trans layout.config)

theorem Layout.metadata_resolved
    (layout : Layout host root created snapshot stored closed digests rows) :
    created.tree.resolve root created.manifest.metadata.path = some (metadataPath root) := by
  rw [layout.metadata_eq]
  exact resolve_metadata created.tree root layout.dirs.1 layout.dirs.2

theorem Layout.metadata_recorded
    (layout : Layout host root created snapshot stored closed digests rows) :
    Recorded host created.tree root created.manifest.metadata := by
  have hresolve := layout.metadata_resolved
  rw [layout.metadata_eq] at hresolve ⊢
  exact recorded_manifestFile host created.tree root _ closed
    ((readAt_of_resolve created.tree root _ _ hresolve).trans layout.metadata)

theorem Layout.index_read
    (layout : Layout host root created snapshot stored closed digests rows) :
    created.tree.readAt root created.manifest.blobIndex.file.path =
      some (blobIndexHeader ++ [0x0A] ++ rows.flatMap fun row => indexLine row.1 row.2) := by
  rw [layout.index_eq]
  exact (readAt_name created.tree root _ plainText_index layout.dirs.1).trans layout.index

theorem Layout.index_recorded
    (layout : Layout host root created snapshot stored closed digests rows) :
    Recorded host created.tree root created.manifest.blobIndex.file := by
  have hread := layout.index_read
  rw [layout.index_eq] at hread ⊢
  exact recorded_manifestFile host created.tree root _ _ hread

theorem Layout.index_passes
    (layout : Layout host root created snapshot stored closed digests rows) :
    ∃ check, checkIndex host created.tree root created.manifest ⟨0, []⟩ = .ok check ∧
      check.report.problems = 0 ∧ ∀ digest ∈ digests, check.blobs[digest]?.isSome = true := by
  have hnodup : (rows.map Prod.fst).Nodup := layout.digests_eq ▸ layout.digests_nodup
  have hindexed := indexed_written (indexName root created.manifest) rows
    (fun row hrow => (layout.held row hrow).digest) hnodup
  have hrows := rowTable_toList rows ∅ hnodup fun row _ => by simp
  rw [show (∅ : Table Str BlobIndexEntry).toList = [] from rfl, List.append_nil] at hrows
  have hcount : UInt64.ofNat (rowTable ∅ rows).toList.length = created.manifest.blobIndex.count := by
    rw [hrows.length_eq, List.length_map, layout.index_eq]
  have hbytes : ((rowTable ∅ rows).toList.map fun row => row.2.sizeBytes).sum =
      created.manifest.blobIndex.blobBytes := by
    rw [sum_perm _ _ (hrows.map _), List.map_map, layout.index_eq]
    rfl
  have hstored : ∀ row ∈ (rowTable ∅ rows).toList, Stored host created.tree root row.1 row.2 := by
    intro row hrow
    obtain ⟨source, hsource, rfl⟩ := List.mem_map.mp (hrows.mem_iff.mp hrow)
    exact (layout.held source hsource).stored host created.tree root source
  obtain ⟨check, hcheck, hclean, hblobs⟩ := checkIndex_passes host created.tree root created.manifest _ _
    layout.index_recorded layout.index_read hindexed hcount hbytes hstored
  refine ⟨check, hcheck, hclean, fun digest hdigest => ?_⟩
  rw [← layout.digests_eq] at hdigest
  obtain ⟨row, hrow, rfl⟩ := List.mem_map.mp hdigest
  have hmem := hrows.mem_iff.mpr (List.mem_map_of_mem hrow)
  rw [hblobs, Std.ExtTreeMap.mem_toList_iff_getElem?_eq_some.mp hmem]
  rfl

end Laid

theorem created_verifies (hreopens : Reopens host) (snapshot : Except Str Bytes) (dataDir : FilePath)
    (created : Created) (h : backupCreate host snapshot dataDir root tree = .ok created)
    (hback : ReadsBack host created.manifest) :
    Recorded host created.tree root created.manifest.metadata ∧
      ∃ tree' check, Passes host created.tree root created.manifest tree' check := by
  obtain ⟨text, stored, closed, digests, rows, layout⟩ :=
    backupCreate_layout host dataDir root snapshot tree created h
  obtain ⟨metadata, hopened, hdigests⟩ := layout.opened
  obtain ⟨closed', hreopened⟩ := hreopens _ _ _ hopened
  obtain ⟨check, hcheck, hclean, hreferenced⟩ := layout.index_passes
  obtain ⟨tree', hclose⟩ := FileTree.createFile_over closed closed' layout.metadata (by simp [metadataPath])
  obtain ⟨check', hcheck', hclean'⟩ := checkBackup_passes host created.tree root created.manifest check
    (metadataPath root) closed closed' metadata digests tree' layout.config_recorded hcheck hclean
    layout.metadata_resolved layout.metadata hreopened hdigests hreferenced hclose
  refine ⟨layout.metadata_recorded, tree', check', ?_, hcheck', hclean'⟩
  unfold readManifest
  rw [layout.manifest, show context _ (some _) = Except.ok _ from rfl, ok_bind,
    show host.decodeManifest _ = _ from hback, ok_bind, layout.format]
  rfl

end Verification
end Peryx.Operator
