import Peryx.Core.Utf8
import Peryx.Library.FileTree
import Peryx.Storage.DriverTxn

/-! # Backup directories -/

namespace Peryx.Operator

open Storage (Bytes Rows digestFromHex)

def backupFormat : UInt32 := 1

def blobIndexHeader : Str := str "sha256\tsize_bytes\tpath"

structure ManifestFile where
  path : Str
  sha256 : Str
  sizeBytes : UInt64
deriving DecidableEq

structure ManifestBlobIndex where
  file : ManifestFile
  count : UInt64
  blobBytes : UInt64
deriving DecidableEq

structure BackupManifest where
  format : UInt32
  createdAtUnix : Int
  config : ManifestFile
  metadata : ManifestFile
  blobIndex : ManifestBlobIndex
deriving DecidableEq

structure HashedFile where
  sha256 : Str
  sizeBytes : UInt64

structure BlobIndexEntry where
  sizeBytes : UInt64
  path : Str
deriving DecidableEq

structure Host where
  sha256 : Bytes → Str
  /-- `Database::open`: the rows of a database file, and the file once it is closed again. -/
  openExisting : Bytes → Except Str (Rows × Bytes)
  /-- `referenced_blob_digests` of each installed driver. -/
  drivers : List (Rows → Except Str (List Str))
  encodeManifest : BackupManifest → Bytes
  decodeManifest : Bytes → Except Str BackupManifest
  /-- `data_dir` of a config text applied to the defaults. -/
  configDataDir : Bytes → Except Str FilePath
  now : Int

def display (path : FilePath) : Str := path.flatMap fun component => 0x2F :: component

/-- `anyhow::Context` on an operation that fails without a text of its own. -/
def context {α : Type} (message : Str) : Option α → Except Str α
  | some a => .ok a
  | none => .error message

def ensure (condition : Bool) (message : Str) : Except Str Unit :=
  if condition then .ok () else .error message

def sizeOf (bytes : Bytes) : UInt64 := UInt64.ofNat bytes.length

def u64 (n : UInt64) : Str := Str.decimal n.toNat

section Files
variable (host : Host)

def hashed (bytes : Bytes) : HashedFile := ⟨host.sha256 bytes, sizeOf bytes⟩

def manifestFile (path : Str) (bytes : Bytes) : ManifestFile := ⟨path, host.sha256 bytes, sizeOf bytes⟩

def copyHashed (tree : FileTree) (source dest : FilePath) (manifestPath : Str) :
    Except Str (FileTree × ManifestFile) := do
  let tree ← context (str "create " ++ display dest.dropLast) (tree.createDirAll dest.dropLast)
  let _ ← context (str "open " ++ display source) (tree.readFile source)
  let tree ← context (str "create " ++ display dest) (tree.createFile dest [])
  let bytes ← context (str "read " ++ display source) (tree.readFile source)
  let tree ← context (str "write " ++ display dest) (tree.createFile dest bytes)
  return (tree, manifestFile host manifestPath bytes)

def writeHashed (tree : FileTree) (path : FilePath) (bytes : Bytes) (manifestPath : Str) :
    Except Str (FileTree × ManifestFile) := do
  let tree ← context (str "create " ++ display path.dropLast) (tree.createDirAll path.dropLast)
  let tree ← context (str "create " ++ display path) (tree.createFile path bytes)
  return (tree, manifestFile host manifestPath bytes)

def hashExistingFile (tree : FileTree) (path : FilePath) : Except Str HashedFile := do
  let bytes ← context (str "open " ++ display path) (tree.readFile path)
  return hashed host bytes

/-- `app::referenced_blob_digests`: every driver's digests, sorted and once each. -/
def referencedBlobDigests (rows : Rows) : Except Str (List Str) := do
  let found ← host.drivers.mapM fun driver => driver rows
  let digests : Table Str Unit := found.flatten.foldl (fun set digest => set.insert digest ()) ∅
  return digests.keys

theorem referencedBlobDigests_nodup (rows : Rows) (digests : List Str)
    (h : referencedBlobDigests host rows = .ok digests) : digests.Nodup := by
  unfold referencedBlobDigests at h
  cases hfound : host.drivers.mapM fun driver => driver rows with
  | error e => rw [hfound] at h; cases h
  | ok found =>
    rw [hfound] at h
    cases h
    refine (Std.ExtTreeMap.distinct_keys).imp fun {a b} hab heq => hab ?_
    rw [heq]
    exact Std.ReflCmp.compare_self

end Files

def configPath (root : FilePath) : FilePath := root ++ [str "config.toml"]

def metadataPath (root : FilePath) : FilePath := root ++ [str "metadata", str "peryx.redb"]

def indexPath (root : FilePath) : FilePath := root ++ [str "blobs.tsv"]

def manifestPath (root : FilePath) : FilePath := root ++ [str "manifest.json"]

def storePath (dataDir : FilePath) : FilePath := dataDir ++ [str "peryx.redb"]

def blobComponents (digest : Str) : List Str :=
  [str "blobs", str "sha256", digest.take 2, (digest.drop 2).take 2, digest]

/-- `backup_blob_path`, and `BlobStore::path_for` of the store in `blobs`. -/
def backupBlobPath (root : FilePath) (digest : Str) : FilePath := root ++ blobComponents digest

def backupBlobRelpath (digest : Str) : Str := [0x2F].intercalate (blobComponents digest)

end Peryx.Operator
