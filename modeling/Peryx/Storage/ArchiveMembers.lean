import Peryx.Core.Utf8Errors
import Peryx.Library.Table

/-!
# Reading archive members (peryx-storage/src/archive: mod.rs, model.rs, engine.rs)

A member of a zip or tar archive is read by chunks, each from an offset. The crates that
read the formats are not under the sources: an archive is what they make of its bytes, each
member the bytes its reader gives until the end of input.
-/

namespace Peryx.Archive
open Str

inductive ArchiveError where
  | unsupported
  | memberNotFound
  | invalidRange (offset size : Nat)
  | unsafeMember (path : Str)
  | binaryMember (path : Str)
  | read (message : Str)
  deriving DecidableEq

structure MemberChunk where
  bytes : Str
  size : Nat
  offset : Nat
  nextOffset : Option Nat
  deriving DecidableEq

def maxDecompressedInspectBytes : Nat := 512 * 1024 * 1024

def fileName (path : Str) : Option Str :=
  let components := (split 0x2F path).filter fun part => part ≠ [] ∧ part ≠ str "."
  components.getLast?.filter (· ≠ str "..")

def splitLastDot (name : Str) : Option (Str × Str) :=
  (splitOnce 0x2E name.reverse).map fun pair => (pair.2.reverse, pair.1.reverse)

def extension (path : Str) : Option Str :=
  (fileName path).bind fun name =>
    (splitLastDot name).bind fun pair => if pair.1 = [] then none else some pair.2

def isZip (filename : Str) : Bool :=
  (extension filename).any fun ext =>
    eqIgnoreAsciiCase ext (str "whl") || eqIgnoreAsciiCase ext (str "zip") ||
      eqIgnoreAsciiCase ext (str "egg")

def isTar (filename : Str) : Bool :=
  (extension filename).any fun ext => eqIgnoreAsciiCase ext (str "tar")

def lastBytes (filename : Str) (count : Nat) : Option Str :=
  let tail := filename.drop (filename.length - count)
  if tail.head?.any isContinuation then none else some tail

def isTarGz (filename : Str) : Bool :=
  (lastBytes filename 7).any (fun suffix => eqIgnoreAsciiCase suffix (str ".tar.gz")) ||
    (lastBytes filename 4).any (fun suffix => eqIgnoreAsciiCase suffix (str ".tgz"))

def isSupportedArchive (filename : Str) : Bool := isZip filename || isTar filename || isTarGz filename

def safeMemberName (path : Str) : Except ArchiveError Str :=
  let safe := path ≠ [] ∧ ¬ startsWith path (str "/") ∧ ¬ startsWith path (str "\\") ∧
    0x5C ∉ path ∧ 0x00 ∉ path ∧
    ∀ part ∈ split 0x2F path, part ≠ [] ∧ part ≠ str "." ∧ part ≠ str ".."
  if safe then .ok path else .error (.unsafeMember path)

def textNames : List Str :=
  [str "METADATA", str "PKG-INFO", str "WHEEL", str "RECORD", str "INSTALLER", str "REQUESTED",
    str "entry_points.txt", str "top_level.txt", str "namespace_packages.txt", str "SOURCES.txt"]

def textExtensions : List Str :=
  [str "asc", str "cfg", str "cjs", str "conf", str "css", str "csv", str "h", str "hpp", str "html",
    str "ini", str "js", str "json", str "lock", str "md", str "mjs", str "py", str "pyi", str "rst",
    str "svg", str "toml", str "tsv", str "txt", str "xml", str "yaml", str "yml"]

def isTextMember (path : Str) : Bool :=
  let filename := (split 0x2F path).getLastD path
  textNames.contains filename ||
    (extension filename).any fun ext => textExtensions.contains (ext.map asciiLower)

/-- `member_kind(path) == MemberKind::Text`. -/
def isPreviewableMember (path : Str) : Bool := !isSupportedArchive path && isTextMember path

structure Entry where
  size : Nat
  bytes : Str
  within : bytes.length ≤ size

structure ZipEntry extends Entry where
  stored : Bool
  /-- Whether `by_name` opens it: it is not encrypted, and its method is known. -/
  opens : Bool

structure TarEntry extends Entry where
  path : Str
  isFile : Bool
  start : Nat

/-- What the crates make of the bytes of an archive, whichever of them its name calls for. -/
structure Readers where
  zip : Except Str (Table Str ZipEntry)
  tar : List (Except Str TarEntry)
  tarGz : List (Except Str TarEntry)

def readFromCurrent (reader : Str) (size offset limit : Nat) : MemberChunk :=
  let count := min (size - offset) limit
  let bytes := reader.take count
  let next := offset + bytes.length
  { bytes, size, offset, nextOffset := if next < size then some next else none }

def readSlice (reader : Str) (size offset limit : Nat) : Except ArchiveError MemberChunk :=
  if offset > size then .error (.invalidRange offset size)
  else .ok (readFromCurrent (reader.drop offset) size offset limit)

def readByName (archive : Table Str ZipEntry) (member : Str) (offset limit : Nat) :
    Except ArchiveError MemberChunk :=
  match (archive[member]?).filter (·.opens) with
  | none => .error .memberNotFound
  | some entry => do
    let _ ← safeMemberName member
    let inspectable := min entry.size maxDecompressedInspectBytes
    if offset > inspectable then .error (.invalidRange offset inspectable)
    else readSlice entry.bytes entry.size offset limit

def readSought (entry : ZipEntry) (member : Str) (offset limit : Nat) :
    Except ArchiveError MemberChunk := do
  let _ ← safeMemberName member
  if offset > entry.size then .error (.invalidRange offset entry.size)
  else .ok (readFromCurrent (entry.bytes.drop offset) entry.size offset limit)

def readZipMember (zip : Except Str (Table Str ZipEntry)) (member : Str) (offset limit : Nat) :
    Except ArchiveError MemberChunk := do
  let member ← safeMemberName member
  let archive ← zip.mapError .read
  if offset > 0 then
    match archive[member]? with
    | none => .error .memberNotFound
    | some entry =>
      if entry.stored then readSought entry member offset limit
      else readByName archive member offset limit
  else readByName archive member offset limit

def TarEntry.readable (entry : TarEntry) : Str :=
  entry.bytes.take (maxDecompressedInspectBytes - entry.start)

def readTarEntries (member : Str) (offset limit : Nat) :
    List (Except Str TarEntry) → Except ArchiveError MemberChunk
  | [] => .error .memberNotFound
  | item :: rest => do
    let entry ← item.mapError .read
    if !entry.isFile then readTarEntries member offset limit rest
    else
      let path ← safeMemberName entry.path
      if path = member then readSlice entry.readable entry.size offset limit
      else readTarEntries member offset limit rest

def readTarMember (tar : List (Except Str TarEntry)) (member : Str) (offset limit : Nat) :
    Except ArchiveError MemberChunk := do
  let member ← safeMemberName member
  readTarEntries member offset limit tar

/-- `read_member_chunk_source`. -/
def readMemberChunk (filename : Str) (archive : Readers) (member : Str) (offset limit : Nat) :
    Except ArchiveError MemberChunk := do
  let member ← safeMemberName member
  if isZip filename then readZipMember archive.zip member offset limit
  else if isTar filename then readTarMember archive.tar member offset limit
  else if isTarGz filename then readTarMember archive.tarGz member offset limit
  else throw .unsupported

def realignToCharBoundary (chunk : MemberChunk) : MemberChunk :=
  if chunk.offset = 0 then chunk
  else
    let lead := (chunk.bytes.takeWhile isContinuation).length
    if 1 ≤ lead ∧ lead ≤ 3 then
      { chunk with bytes := chunk.bytes.drop lead, offset := chunk.offset + lead }
    else chunk

def textChunk (member : Str) (chunk : MemberChunk) : Except ArchiveError MemberChunk :=
  let chunk := realignToCharBoundary chunk
  match Query.utf8Error chunk.bytes with
  | none => .ok chunk
  | some err =>
    if err.errorLen.isNone ∧ chunk.nextOffset.isSome ∧ err.validUpTo > 0 then
      let bytes := chunk.bytes.take err.validUpTo
      let next := chunk.offset + bytes.length
      .ok { chunk with bytes, nextOffset := if next < chunk.size then some next else none }
    else .error (.binaryMember member)

/-- `read_text_member_chunk_nested_path`, behind what `resolve_container_stack` makes of the
path and its containers. -/
def readTextMemberChunk (resolved : Except ArchiveError (Str × Readers)) (member : Str)
    (offset limit : Nat) : Except ArchiveError MemberChunk := do
  let member ← safeMemberName member
  if !isPreviewableMember member then throw (.binaryMember member)
  let (filename, archive) ← resolved
  let chunk ← readMemberChunk filename archive member offset limit
  textChunk member chunk

end Peryx.Archive
