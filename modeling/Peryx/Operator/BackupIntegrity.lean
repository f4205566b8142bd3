import Peryx.Operator.Created

/-! # What a backup promises -/

namespace Peryx.Operator

open Storage (Bytes Rows digestFromHex)

theorem readManifest_congr (host : Host) (tree tree' : FileTree) (root : FilePath)
    (h : tree'.readFile (manifestPath root) = tree.readFile (manifestPath root)) :
    readManifest host tree' root = readManifest host tree root := by
  unfold readManifest
  rw [h]

/-- Creation gives a backup that verifies; what verifies is as recorded, but for the bytes of the
metadata store; replacing a compared file is reported; a restore gives the store as it was
verified and the blobs it refers to. -/
theorem backup_integrity (host : Host) (hreopens : Reopens host) (tree : FileTree) (root : FilePath) :
    (∀ snapshot dataDir created, backupCreate host snapshot dataDir root tree = .ok created →
      ReadsBack host created.manifest →
        Recorded host created.tree root created.manifest.metadata ∧
          ∃ tree' out, backupVerify host created.tree root = .ok (tree', out)) ∧
    (∀ tree' out, backupVerify host tree root = .ok (tree', out) → ∃ manifest entries digests,
      readManifest host tree root = .ok manifest ∧ Intact host tree root manifest entries digests ∧
        ∀ digest ∈ digests, ∃ entry, entries[digest]? = some entry ∧
          Stored host tree root digest entry) ∧
    (∀ tree' out manifest path original bytes replaced,
      backupVerify host tree root = .ok (tree', out) → readManifest host tree root = .ok manifest →
      Guarded host tree root manifest path → path ≠ manifestPath root →
      tree.readFile path = some original → host.sha256 bytes ≠ host.sha256 original →
      tree.createFile path bytes = some replaced →
        ∀ final out', backupVerify host replaced root ≠ .ok (final, out')) ∧
    ∀ dataDir force tree' out, restore host tree root dataDir force = .ok (tree', out) →
      ∃ manifest path bytes rows closed digests, readManifest host tree root = .ok manifest ∧
        tree.resolve root manifest.metadata.path = some path ∧ tree.readFile path = some bytes ∧
        host.openExisting bytes = .ok (rows, closed) ∧ referencedBlobDigests host rows = .ok digests ∧
        tree'.readFile (storePath dataDir) = some closed ∧
        ∀ digest ∈ digests, backupBlobPath root digest ≠ path → ∃ blob,
          tree.readFile (backupBlobPath root digest) = some blob ∧ host.sha256 blob = digest ∧
            tree'.readFile (backupBlobPath dataDir digest) = some blob := by
  refine ⟨?_, ?_, ?_, ?_⟩
  · intro snapshot dataDir created hcreated hback
    obtain ⟨hrecorded, tree', check, hpass⟩ :=
      created_verifies host tree root hreopens snapshot dataDir created hcreated hback
    exact ⟨hrecorded, tree', check.report.out ++ str "ok\n",
      (backupVerify_ok host created.tree root tree' _).mpr ⟨created.manifest, check, hpass, rfl⟩⟩
  · intro tree' out hverify
    obtain ⟨manifest, check, hpass, -⟩ := (backupVerify_ok host tree root tree' out).mp hverify
    obtain ⟨digests, hintact⟩ := hpass.intact
    refine ⟨manifest, check.blobs, digests, hpass.1, hintact, fun digest hdigest => ?_⟩
    obtain ⟨entry, hentry⟩ := Option.isSome_iff_exists.mp (hintact.referenced digest hdigest)
    exact ⟨entry, hentry, hintact.index.stored digest entry hentry⟩
  · intro tree' out manifest path original bytes replaced hverify hmanifest hguarded hother horiginal
      hdigest hreplaced final out' hverify'
    obtain ⟨found, check, hpass, -⟩ := (backupVerify_ok host tree root tree' out).mp hverify
    obtain ⟨found', check', hpass', -⟩ := (backupVerify_ok host replaced root final out').mp hverify'
    obtain rfl := Except.ok.inj (hmanifest.symm.trans hpass.1)
    have hwrites := FileTree.createFile_writes bytes replaced hreplaced
    have hsame := readManifest_congr host tree replaced root (hwrites.others _ hother.symm)
    obtain rfl := Except.ok.inj (hmanifest.symm.trans (hsame.symm.trans hpass'.1))
    exact hdigest (replaced_reported host tree root _ replaced tree' final check check' path original
      bytes hpass hguarded horiginal hreplaced hpass')
  · intro dataDir force tree' out hrestore
    obtain ⟨manifest, left, check, path, closed, digests, hpass, hsteps⟩ :=
      restore_steps host tree root dataDir force tree' out hrestore
    obtain ⟨bytes, rows, hread, hopen, hdigests⟩ := hsteps.opened
    obtain ⟨hstore, hblobs⟩ := restore_result host tree root dataDir force tree' manifest check path
      closed digests hsteps
    exact ⟨manifest, path, bytes, rows, closed, digests, hpass.1, hsteps.resolved, hread, hopen, hdigests,
      hstore, hblobs⟩

def wheelDigest : Str := str "ba59926159d2aa256eb8739b8da7e2b574b960e1202c6d624cbe981cef996c91"

def wheelSnapshot : Bytes := str "data_dir = \"/data\"\n"

def wheelManifest : BackupManifest where
  format := 1
  createdAtUnix := 1700000000
  config := ⟨str "config.toml", str "0753737d1a1b86196530740ee960b88860e279e97b88dd05db0ffe3f0e408073", 19⟩
  metadata := ⟨str "metadata/peryx.redb",
    str "36fbca83cc28a4345db9a249485193055f9e7b96810f90a54793c2bc8c0dd64a", 6⟩
  blobIndex := ⟨⟨str "blobs.tsv",
    str "8cb1ddb07fb3c29f6fdc0641e742f5d2d4589e2bd30723c73232d902d58c9c4d", 174⟩, 1, 5⟩

def wheelManifestText : Bytes := str "\x7b
  \"format\": 1,
  \"created_at_unix\": 1700000000,
  \"config\": \x7b
    \"path\": \"config.toml\",
    \"sha256\": \"0753737d1a1b86196530740ee960b88860e279e97b88dd05db0ffe3f0e408073\",
    \"size_bytes\": 19
  \x7d,
  \"metadata\": \x7b
    \"path\": \"metadata/peryx.redb\",
    \"sha256\": \"36fbca83cc28a4345db9a249485193055f9e7b96810f90a54793c2bc8c0dd64a\",
    \"size_bytes\": 6
  \x7d,
  \"blob_index\": \x7b
    \"path\": \"blobs.tsv\",
    \"sha256\": \"8cb1ddb07fb3c29f6fdc0641e742f5d2d4589e2bd30723c73232d902d58c9c4d\",
    \"size_bytes\": 174,
    \"count\": 1,
    \"blob_bytes\": 5
  \x7d
\x7d"

/-- The host of this backup: two database files that refer to the wheel, and the digests of the
files of the backup. -/
def wheelHost : Host where
  sha256 := fun bytes =>
    if bytes = str "wheel" then wheelDigest
    else if bytes = str "redb 1" then wheelManifest.metadata.sha256
    else if bytes = str "redb 2" then
      str "59c55db3a9dd2c0c86b9cb5621b9116ccacf142f577b7f324c9918fddf9890b6"
    else if bytes = wheelSnapshot then wheelManifest.config.sha256
    else wheelManifest.blobIndex.file.sha256
  openExisting := fun bytes =>
    if bytes = str "redb 1" ∨ bytes = str "redb 2" then
      .ok ((∅ : Rows).insert (str "file") wheelDigest, bytes)
    else .error (str "not a database")
  drivers := [fun rows => .ok (rows.toList.map Prod.snd)]
  encodeManifest := fun _ => wheelManifestText
  decodeManifest := fun bytes =>
    if bytes = wheelManifestText ++ [0x0A] then .ok wheelManifest else .error (str "invalid manifest")
  configDataDir := fun _ => .ok [str "data"]
  now := 1700000000

theorem wheelHost_reopens : Reopens wheelHost := by
  intro bytes rows closed hopen
  have hsame : closed = bytes := by
    unfold wheelHost at hopen
    dsimp only at hopen
    split at hopen
    · exact (Prod.mk.inj (Except.ok.inj hopen)).2.symm
    · cases hopen
  exact ⟨bytes, hsame ▸ hopen⟩

def wheelTree : Option FileTree := do
  let tree ← FileTree.empty.createDirAll [str "data", str "blobs", str "sha256", str "ba", str "59"]
  let tree ← tree.createFile (storePath [str "data"]) (str "redb 1")
  tree.createFile (backupBlobPath [str "data"] wheelDigest) (str "wheel")

theorem toOption_eq_some {α : Type} (x : Except Str α) (a : α) : x.toOption = some a ↔ x = .ok a := by
  cases x <;> simp [Except.toOption]

def wheelBackup : Option Created := do
  let tree ← wheelTree
  (backupCreate wheelHost (.ok wheelSnapshot) [str "data"] [str "backup"] tree).toOption

def replacedVerify (created : Created) : Option (FileTree × FileTree × Str) := do
  let replaced ← created.tree.createFile (metadataPath [str "backup"]) (str "redb 2")
  let (left, out) ← (backupVerify wheelHost replaced [str "backup"]).toOption
  return (replaced, left, out)

-- One evaluation for all three: the backup is most of the work of each.
theorem wheelBackup_runs : wheelBackup.any (fun created =>
    created.manifest == wheelManifest &&
      (restore wheelHost created.tree [str "backup"] [str "restored"] false).toOption.isSome &&
      (replacedVerify created).any (fun run =>
        (readManifest wheelHost run.1 [str "backup"]).toOption == some wheelManifest &&
          run.1.readAt [str "backup"] wheelManifest.metadata.path == some (str "redb 2"))) = true := by
  decide +kernel

theorem wheelBackup_created : ∃ tree created, wheelTree = some tree ∧
    backupCreate wheelHost (.ok wheelSnapshot) [str "data"] [str "backup"] tree = .ok created ∧
    created.manifest = wheelManifest ∧
    (restore wheelHost created.tree [str "backup"] [str "restored"] false).toOption.isSome = true ∧
    ∃ run, replacedVerify created = some run ∧
      (readManifest wheelHost run.1 [str "backup"]).toOption = some wheelManifest ∧
      run.1.readAt [str "backup"] wheelManifest.metadata.path = some (str "redb 2") := by
  obtain ⟨created, hcreated, hruns⟩ := (Option.any_eq_true _ _).mp wheelBackup_runs
  simp only [Bool.and_eq_true, beq_iff_eq, Option.any_eq_true] at hruns
  obtain ⟨⟨hmanifest, hrestores⟩, run, hrun, hread, hstore⟩ := hruns
  unfold wheelBackup at hcreated
  obtain ⟨tree, htree, hbackup⟩ := Option.bind_eq_some_iff.mp hcreated
  exact ⟨tree, created, htree, (toOption_eq_some _ _).mp hbackup, hmanifest, hrestores, run, hrun, hread,
    hstore⟩

theorem wheel_backup_restores : ∃ tree created tree' out restored text closed, wheelTree = some tree ∧
    backupCreate wheelHost (.ok wheelSnapshot) [str "data"] [str "backup"] tree = .ok created ∧
    backupVerify wheelHost created.tree [str "backup"] = .ok (tree', out) ∧
    restore wheelHost created.tree [str "backup"] [str "restored"] false = .ok (restored, text) ∧
    restored.readFile (storePath [str "restored"]) = some closed := by
  obtain ⟨tree, created, htree, hcreated, hmanifest, hrestores, -⟩ := wheelBackup_created
  have hback : ReadsBack wheelHost created.manifest := by
    rw [hmanifest]
    unfold ReadsBack
    decide +kernel
  obtain ⟨-, tree', out, hverify⟩ :=
    (backup_integrity wheelHost wheelHost_reopens tree [str "backup"]).1 _ _ created hcreated hback
  obtain ⟨⟨restored, text⟩, hrestored⟩ := Option.isSome_iff_exists.mp hrestores
  rw [toOption_eq_some] at hrestored
  obtain ⟨-, -, -, -, closed, -, -, -, -, -, -, hstore, -⟩ :=
    (backup_integrity wheelHost wheelHost_reopens created.tree [str "backup"]).2.2.2 _ _ _ _ hrestored
  exact ⟨tree, created, tree', out, restored, text, closed, htree, hcreated, hverify, hrestored, hstore⟩

/-- A replaced metadata store that opens and refers to the same blobs is not reported. -/
theorem replaced_store_passes : ∃ tree created replaced left out, wheelTree = some tree ∧
    backupCreate wheelHost (.ok wheelSnapshot) [str "data"] [str "backup"] tree = .ok created ∧
    created.tree.createFile (metadataPath [str "backup"]) (str "redb 2") = some replaced ∧
    backupVerify wheelHost replaced [str "backup"] = .ok (left, out) ∧
    readManifest wheelHost replaced [str "backup"] = .ok wheelManifest ∧
    ¬ Recorded wheelHost replaced [str "backup"] wheelManifest.metadata := by
  obtain ⟨tree, created, htree, hcreated, -, -, ⟨replaced, left, out⟩, hrun, hmanifest, hstore⟩ :=
    wheelBackup_created
  unfold replacedVerify at hrun
  obtain ⟨changed, hchanged, hrun⟩ := Option.bind_eq_some_iff.mp hrun
  obtain ⟨⟨left', out'⟩, hverify, hrun⟩ := Option.bind_eq_some_iff.mp hrun
  obtain ⟨rfl, hleft⟩ := Prod.mk.inj (Option.some.inj hrun)
  refine ⟨tree, created, changed, left', out', htree, hcreated, hchanged,
    (toOption_eq_some _ _).mp hverify, (toOption_eq_some _ _).mp hmanifest, fun hrecorded => ?_⟩
  obtain ⟨bytes, hread, hsha, -⟩ := hrecorded
  obtain rfl := Option.some.inj (hstore.symm.trans hread)
  exact absurd hsha (by decide +kernel)

end Peryx.Operator
