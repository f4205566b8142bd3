import Mathlib
import Peryx.Operator.Manifest

/-!
# Creating, verifying and restoring a backup
-/

namespace Peryx.Operator

open Storage (Bytes Rows digestFromHex)

section
variable (host : Host)

def prepareNewBackupDir (tree : FileTree) (root : FilePath) : Except Str FileTree := do
  if tree.exist root then
    ensure (tree.isDir root)
      (str "backup path " ++ display root ++ str " exists and is not a directory")
    ensure (tree.isEmptyDir root) (str "backup path " ++ display root ++ str " is not empty")
  context (str "create backup directory " ++ display root) (tree.createDirAll root)

structure Copied where
  tree : FileTree
  count : UInt64
  bytes : UInt64
  index : Str

def indexLine (digest : Str) (size : UInt64) : Str :=
  [0x09].intercalate [digest, u64 size, backupBlobRelpath digest] ++ [0x0A]

def copyBlob (dataDir root : FilePath) (copied : Copied) (digest : Str) : Except Str Copied := do
  let digest ← context (str "metadata scan returned an invalid digest") (digestFromHex digest)
  let source := backupBlobPath dataDir digest
  let _ ← context (str "referenced blob " ++ digest ++ str " is missing") (copied.tree.readFile source)
  let (tree, file) ← copyHashed host copied.tree source (backupBlobPath root digest)
    (backupBlobRelpath digest)
  ensure (file.sha256 == digest)
    (str "referenced blob " ++ digest ++ str " hashed as " ++ file.sha256 ++ str " while copying")
  return ⟨tree, copied.count + 1, copied.bytes + file.sizeBytes,
    copied.index ++ indexLine digest file.sizeBytes⟩

structure Created where
  tree : FileTree
  manifest : BackupManifest
  out : Str

/-- `backup_create`; `snapshot` is the `config_snapshot` of the configuration, `dataDir` its data
directory. -/
def backupCreate (snapshot : Except Str Bytes) (dataDir root : FilePath) (tree : FileTree) :
    Except Str Created := do
  let tree ← prepareNewBackupDir tree root
  let (tree, config) ← writeHashed host tree (configPath root) (← snapshot) (str "config.toml")
  let (tree, _) ← copyHashed host tree (storePath dataDir) (metadataPath root) (str "metadata/peryx.redb")
  let (rows, closed) ← host.openExisting
    (← context (str "open copied metadata store") (tree.readFile (metadataPath root)))
  let tree ← context (str "create blobs.tsv") (tree.createFile (indexPath root) [])
  let digests ← referencedBlobDigests host rows
  let copied ← digests.foldlM (copyBlob host dataDir root) ⟨tree, 0, 0, blobIndexHeader ++ [0x0A]⟩
  let tree ← context (str "write blobs.tsv") (copied.tree.createFile (indexPath root) copied.index)
  let tree ← context (str "close metadata store") (tree.createFile (metadataPath root) closed)
  let metadata ← hashExistingFile host tree (metadataPath root)
  let index ← hashExistingFile host tree (indexPath root)
  let manifest : BackupManifest := {
    format := backupFormat
    createdAtUnix := host.now
    config := config
    metadata := ⟨str "metadata/peryx.redb", metadata.sha256, metadata.sizeBytes⟩
    blobIndex := ⟨⟨str "blobs.tsv", index.sha256, index.sizeBytes⟩, copied.count, copied.bytes⟩ }
  let tree ← context (str "create manifest.json")
    (tree.createFile (manifestPath root) (host.encodeManifest manifest ++ [0x0A]))
  return ⟨tree, manifest,
    str "created\t" ++ display root ++ str "\nmetadata\t" ++ display (storePath dataDir) ++
      str "\nblobs\t" ++ u64 copied.count ++ str "\t" ++ u64 copied.bytes ++ str "\n"⟩

structure Report where
  problems : Nat
  out : Str

def Report.problem (report : Report) (fields : List Str) : Report :=
  ⟨report.problems + 1, report.out ++ [0x09].intercalate (str "problem" :: fields) ++ [0x0A]⟩

def readManifest (tree : FileTree) (root : FilePath) : Except Str BackupManifest := do
  let bytes ← context (str "open " ++ display (manifestPath root)) (tree.readFile (manifestPath root))
  let manifest ← host.decodeManifest bytes
  ensure (manifest.format == backupFormat)
    (str "unsupported backup format " ++ Str.decimal manifest.format.toNat)
  return manifest

def expectedFound (what expected found : Str) : Str :=
  what ++ str " expected " ++ expected ++ str ", found " ++ found

def verifyManifestFile (tree : FileTree) (root : FilePath) (expected : ManifestFile) (kind : Str)
    (report : Report) : Option HashedFile × Report :=
  match tree.readAt root expected.path with
  | none => (none, report.problem [kind, expected.path, str "missing"])
  | some bytes =>
    let actual := hashed host bytes
    let report := if actual.sha256 ≠ expected.sha256 then
        report.problem [kind, expected.path,
          expectedFound (str "sha256") expected.sha256 actual.sha256]
      else report
    let report := if actual.sizeBytes ≠ expected.sizeBytes then
        report.problem [kind, expected.path,
          expectedFound (str "size") (u64 expected.sizeBytes) (u64 actual.sizeBytes)]
      else report
    (some actual, report)

structure IndexState where
  entries : Table Str BlobIndexEntry
  report : Report

def indexRow (state : IndexState) (number : Nat) (line : Str) : IndexState :=
  let line_ := str "line " ++ Str.decimal number
  let refuse (fields : List Str) : IndexState :=
    { state with report := state.report.problem (str "blob-index" :: fields) }
  if line = [] then state
  else match line.splitOn 0x09 with
    | [digest, size, path] =>
      match digestFromHex digest with
      | none => refuse [line_, str "invalid digest"]
      | some digest =>
        match Str.parseU64 size with
        | none => refuse [digest, str "invalid size"]
        | some size =>
          let report := if path ≠ backupBlobRelpath digest then
              state.report.problem [str "blob-index", digest, str "invalid path"]
            else state.report
          let report := if state.entries[digest]?.isSome then
              report.problem [str "blob-index", line_, str "duplicate digest"]
            else report
          ⟨state.entries.insert digest ⟨UInt64.ofNat size, path⟩, report⟩
    | _ => refuse [line_, str "invalid row"]

/-- `BufRead::lines` without its UTF-8 check: a line loses its newline and a carriage return in
front of it; what follows the last newline is a line unless it is empty. -/
def bufLines (bytes : Bytes) : List Str :=
  let parts := bytes.splitOn 0x0A
  let last := parts.getLast?.getD []
  parts.dropLast.map (fun line => (Str.stripSuffix line [0x0D]).getD line) ++
    if last = [] then [] else [last]

def indexStep (path : FilePath) (state : IndexState) (line : Str × Nat) : Except Str IndexState := do
  let (text, number) := line
  ensure (Str.fromUtf8 text).isSome
    (str "read " ++ display path ++ str " line " ++ Str.decimal (number + 1))
  if number = 0 then
    if text ≠ blobIndexHeader then
      return { state with
        report := state.report.problem [str "blob-index", str "header", str "invalid header"] }
    else return state
  else return indexRow state (number + 1) text

def readBlobIndex (path : FilePath) (bytes : Bytes) (report : Report) : Except Str IndexState :=
  (bufLines bytes).zipIdx.foldlM (indexStep path) ⟨∅, report⟩

def verifyBlob (tree : FileTree) (root : FilePath) (digest : Str) (entry : BlobIndexEntry)
    (report : Report) : Report :=
  match tree.readAt root entry.path with
  | none => report.problem [str "blob", digest, str "missing"]
  | some bytes =>
    let actual := hashed host bytes
    let report := if actual.sizeBytes ≠ entry.sizeBytes then
        report.problem [str "blob", digest,
          expectedFound (str "size") (u64 entry.sizeBytes) (u64 actual.sizeBytes)]
      else report
    if actual.sha256 ≠ digest then
      report.problem [str "blob", digest, expectedFound (str "sha256") digest actual.sha256]
    else report

def checkMetadataReferences (entries : Table Str BlobIndexEntry) (rows : Rows) (report : Report) :
    Except Str Report := do
  let digests ← referencedBlobDigests host rows
  return digests.foldl (fun report digest =>
    if entries[digest]?.isSome then report
    else report.problem [str "blob-index", digest, str "missing referenced digest"]) report

structure BackupCheck where
  report : Report
  blobs : Table Str BlobIndexEntry

def checkIndex (tree : FileTree) (root : FilePath) (manifest : BackupManifest) (report : Report) :
    Except Str BackupCheck := do
  let (found, report) := verifyManifestFile host tree root manifest.blobIndex.file (str "blob-index") report
  if found.isNone then return ⟨report, ∅⟩
  let path := root ++ [manifest.blobIndex.file.path]
  let bytes ← context (str "open " ++ display path) (tree.readAt root manifest.blobIndex.file.path)
  let state ← readBlobIndex path bytes report
  let found := UInt64.ofNat state.entries.toList.length
  let report := if found ≠ manifest.blobIndex.count then
      state.report.problem [str "blob-index", str "count",
        str "expected " ++ u64 manifest.blobIndex.count ++ str ", found " ++ u64 found]
    else state.report
  let indexed := (state.entries.toList.map fun row => row.2.sizeBytes).sum
  let report := if indexed ≠ manifest.blobIndex.blobBytes then
      report.problem [str "blob-index", str "bytes",
        str "expected " ++ u64 manifest.blobIndex.blobBytes ++ str ", found " ++ u64 indexed]
    else report
  return ⟨state.entries.toList.foldl (fun report row => verifyBlob host tree root row.1 row.2 report)
    report, state.entries⟩

def checkBackup (tree : FileTree) (root : FilePath) (manifest : BackupManifest) :
    Except Str (FileTree × BackupCheck) := do
  let (_, report) := verifyManifestFile host tree root manifest.config (str "config") ⟨0, []⟩
  let check ← checkIndex host tree root manifest report
  let refuse (reason : Str) : FileTree × BackupCheck :=
    (tree, { check with report := check.report.problem [str "metadata", manifest.metadata.path, reason] })
  match tree.resolve root manifest.metadata.path with
  | none => return refuse (str "missing")
  | some path =>
    match tree.readFile path with
    | none => return refuse (str "missing")
    | some bytes =>
      match host.openExisting bytes with
      | .error reason => return refuse reason
      | .ok (rows, closed) =>
        let report ← checkMetadataReferences host check.blobs rows check.report
        let tree ← context (str "close metadata store") (tree.createFile path closed)
        return (tree, { check with report })

/-- `backup_verify`: the tree it leaves and what it prints. -/
def backupVerify (tree : FileTree) (root : FilePath) : Except Str (FileTree × Str) := do
  let manifest ← readManifest host tree root
  let (tree, check) ← checkBackup host tree root manifest
  ensure (check.report.problems == 0)
    (str "backup verification failed with " ++ Str.decimal check.report.problems ++ str " problem(s)")
  return (tree, check.report.out ++ str "ok\n")

def prepareRestoreDir (tree : FileTree) (dataDir : FilePath) (force : Bool) : Except Str FileTree := do
  let make (tree : FileTree) : Except Str FileTree :=
    context (str "create restore target " ++ display dataDir) (tree.createDirAll dataDir)
  if !tree.exist dataDir then make tree
  else if tree.isDir dataDir then
    if tree.isEmptyDir dataDir then return tree
    ensure force (str "restore target " ++ display dataDir ++
      str " is not empty; pass --force to replace it")
    make (tree.removeAll dataDir)
  else
    ensure force (str "restore target " ++ display dataDir ++
      str " exists and is not a directory; pass --force to replace it")
    make (tree.removeAll dataDir)

def copyFrom (tree : FileTree) (root : FilePath) (text : Str) (dest : FilePath) (manifestPath : Str) :
    Except Str (FileTree × ManifestFile) := do
  let source ← context (str "open " ++ text) (tree.resolve root text)
  copyHashed host tree source dest manifestPath

def restoreBlob (root dataDir : FilePath) (tree : FileTree) (row : Str × BlobIndexEntry) :
    Except Str FileTree := do
  let digest ← context (str "backup blob index contained an invalid digest") (digestFromHex row.1)
  let (tree, _) ← copyFrom host tree root row.2.path (backupBlobPath dataDir digest) row.2.path
  return tree

def warnConfigMismatch (tree : FileTree) (root : FilePath) (manifest : BackupManifest)
    (dataDir : FilePath) : Except Str Str := do
  let text ← context (str "read backup config " ++ manifest.config.path)
    (tree.readAt root manifest.config.path)
  let backupDir ← host.configDataDir text
  if backupDir = dataDir then return []
  return str "warning\tconfig\tdata_dir\tbackup=" ++ display backupDir ++ str "\trestore=" ++
    display dataDir ++ str "\n"

/-- `restore`: the tree it leaves and what it prints. -/
def restore (tree : FileTree) (root dataDir : FilePath) (force : Bool) :
    Except Str (FileTree × Str) := do
  let manifest ← readManifest host tree root
  let (tree, check) ← checkBackup host tree root manifest
  ensure (check.report.problems == 0)
    (str "backup verification failed with " ++ Str.decimal check.report.problems ++
      str " problem(s): " ++ check.report.out)
  let warning ← warnConfigMismatch host tree root manifest dataDir
  let tree ← prepareRestoreDir tree dataDir force
  let (tree, _) ← copyFrom host tree root manifest.metadata.path (storePath dataDir) (str "peryx.redb")
  let (tree, _) ← copyFrom host tree root manifest.config.path (configPath dataDir) (str "config.toml")
  let tree ← check.blobs.toList.foldlM (restoreBlob host root dataDir) tree
  return (tree, warning ++ str "restored\t" ++ display dataDir ++ str "\nblobs\t" ++
    u64 manifest.blobIndex.count ++ str "\t" ++ u64 manifest.blobIndex.blobBytes ++ str "\n")

end
end Peryx.Operator
