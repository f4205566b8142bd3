import Peryx.Core.Replace
import Peryx.Pypi.CentralDir
import Peryx.Pypi.Filename
import Peryx.Storage.ArchiveMembers
import Peryx.Upstream.RangeFetch

/-!
# Wheel metadata by range (peryx-ecosystem-pypi/src/cache/metadata.rs, archive/wheel)

The `METADATA` member of a wheel is read from the upstream by four ranges: the tail of the
file, the central directory, the member's local header and its bytes. The crate that opens
a whole archive and the one that inflates are not under the sources.
-/

namespace Peryx.Wheel
open Str CentralDir Upstream Pypi

/-- `MAX_WHEEL_METADATA_BYTES`. -/
def maxWheelMetadataBytes : Nat := 16 * 1024 * 1024

inductive WheelError where
  | invalidFilename (filename : Str) (error : DistributionFilenameError)
  | notWheel (filename : Str)
  | tooLarge (path : Str) (size : Nat)
  | read (message : Str)
  deriving DecidableEq

inductive RemoteMetadata where
  | found (metadata : Str)
  | missing
  | unsupported
  deriving DecidableEq

inductive Halt where
  | panic (panic : Panic)
  | range (error : RangeError)
  deriving DecidableEq

abbrev Inflate := Str → Except Str Str

structure ZipFile where
  isFile : Bool
  size : Nat
  read : Except Str Str

/-- `ZipArchive::new` and then `by_name`, which may know no such entry. -/
abbrev OpenZip := Str → Except Str (Str → Except Str (Option ZipFile))

def isWheel (filename : Str) : Bool :=
  (Archive.extension filename).any fun ext => eqIgnoreAsciiCase ext (str "whl")

section Names
variable (table : CaseMap) (pep : Pep440)

def expectedWheelDistInfoDir (filename : Str) : Except WheelError Str :=
  match parseDistributionFilename table pep filename with
  | .error error => .error (.invalidFilename filename error)
  | .ok parsed =>
    if parsed.kind ≠ .wheel then .error (.notWheel filename)
    else
      let name := replace parsed.normalizedName (str "-") (str "_")
      let version := replace (pep.versionString parsed.version) (str "-") (str "_")
      .ok (name ++ str "-" ++ version ++ str ".dist-info")

def wheelMetadataMemberPath (filename : Str) : Except WheelError (Option Str) :=
  if !isWheel filename then .ok none
  else (expectedWheelDistInfoDir table pep filename).map fun dir => some (dir ++ str "/METADATA")

/-- `wheel_metadata_reader`: the member of the whole archive. -/
def wheelMetadataReader (openZip : OpenZip) (filename bytes : Str) : Except WheelError (Option Str) := do
  match ← wheelMetadataMemberPath table pep filename with
  | none => return none
  | some metadataPath =>
    let byName ← (openZip bytes).mapError .read
    match ← (byName metadataPath).mapError .read with
    | none => return none
    | some entry =>
      if !entry.isFile then return none
      else if entry.size > maxWheelMetadataBytes then .error (.tooLarge metadataPath entry.size)
      else
        let bytes ← entry.read.mapError .read
        return some bytes

end Names

def checked {α : Type} (result : Except Panic α) : Except Halt α := result.mapError .panic

def fetched {α : Type} (result : Except RangeError α) : Except Halt α := result.mapError .range

def completeHeader : Str := str "fixed hosted header range is complete"

section Extraction
variable (inflate : Inflate) (fetch : Nat → Nat → Except RangeError Str)

def zipDataStart (localHeaderOffset : Nat) : Except Halt Nat := do
  let header ← fetched (fetch localHeaderOffset (← checked (add localHeaderOffset 29)))
  if !startsWith header zipLocalSignature then
    .error (.range (.invalid (.other (str "hosted file header signature mismatch"))))
  else
    let nameLen ← checked (expect (← checked (readU16 header 26)) completeHeader)
    let extraLen ← checked (expect (← checked (readU16 header 28)) completeHeader)
    let fixedEnd ← checked (add localHeaderOffset 30)
    checked (add (← checked (add fixedEnd nameLen)) extraLen)

def compressedBytes (entry : CentralDirectoryEntry) : Except Halt Str := do
  let dataStart ← zipDataStart fetch entry.localHeaderOffset
  if entry.compressedSize = 0 then return []
  else
    let stop ← checked (sub (← checked (add dataStart entry.compressedSize)) 1)
    fetched (fetch dataStart stop)

def extractEntry (entry : CentralDirectoryEntry) : Except Halt RemoteMetadata :=
  if entry.uncompressedSize > maxWheelMetadataBytes ∨ entry.compressedSize > maxWheelMetadataBytes then
    .ok .unsupported
  else do
    let compressed ← compressedBytes fetch entry
    if entry.compressionMethod = zipCompressionStored then return .found compressed
    else if entry.compressionMethod = zipCompressionDeflated then
      match inflate compressed with
      | .error message => .error (.range (.invalid (.other message)))
      | .ok metadata =>
        if metadata.length = entry.uncompressedSize then return .found metadata
        else return .unsupported
    else return .unsupported

def extractMember (metadataPath : Str) (len : Nat) : Except Halt RemoteMetadata :=
  if len = 0 then .ok .unsupported
  else do
    let tail ← fetched (fetch (len - zipTailBytes) (← checked (sub len 1)))
    match ← checked (centralDirectory tail) with
    | none => return .unsupported
    | some directory =>
      if directory.len = 0 then return .unsupported
      else
        let directoryEnd ← checked (sub (← checked (add directory.offset directory.len)) 1)
        let directoryBytes ← fetched (fetch directory.offset directoryEnd)
        match ← checked (findCentralDirectoryEntry directoryBytes metadataPath) with
        | .found entry => extractEntry inflate fetch entry
        | .missing => return .missing
        | .invalid => return .unsupported

end Extraction

/-- `display` is how the error of a filename is written. -/
def wheelMetadataByRange (standard : Url.Standard) (parse : ParseUrl) (table : CaseMap) (pep : Pep440)
    (display : WheelError → Str) (inflate : Inflate) (web : Web) (client : ArtifactClient)
    (url filename : Str) : Except Halt RemoteMetadata :=
  match wheelMetadataMemberPath table pep filename with
  | .ok none => .ok .unsupported
  | .error error => .error (.range (.invalid (.other (display error))))
  | .ok (some metadataPath) => do
    let len ← fetched (client.headFileForRange standard parse web url)
    extractMember inflate (client.fetchRange standard parse web url) metadataPath len

def IsPanic (halt : Halt) : Prop := ∃ panic, halt = .panic panic

@[simp] theorem checked_ok {α : Type} (a : α) : checked (.ok a) = .ok a := rfl

@[simp] theorem fetched_ok {α : Type} (a : α) : fetched (.ok a) = .ok a := rfl

theorem fetched_ensures {α : Type} (result : Except RangeError α) :
    Ensures IsPanic (fetched result) (fun a => result = .ok a) := by
  cases result with
  | error error => exact Ensures.error (by rintro ⟨panic, h⟩; cases h)
  | ok a => exact rfl

section Extraction
variable {inflate : Inflate} {fetch : Nat → Nat → Except RangeError Str}

def dataStart (entry : CentralDirectoryEntry) (header : Str) : Nat :=
  entry.localHeaderOffset + 30 + LittleEndian.field header 26 2 + LittleEndian.field header 28 2

def EntryBytes (fetch : Nat → Nat → Except RangeError Str) (entry : CentralDirectoryEntry)
    (compressed : Str) : Prop :=
  compressed.length = entry.compressedSize ∧
    ∃ header, fetch entry.localHeaderOffset (entry.localHeaderOffset + 29) = .ok header ∧
      (entry.compressedSize ≠ 0 →
        fetch (dataStart entry header) (dataStart entry header + entry.compressedSize - 1) = .ok compressed)

def Extracted (inflate : Inflate) (fetch : Nat → Nat → Except RangeError Str)
    (entry : CentralDirectoryEntry) (metadata : Str) : Prop :=
  metadata.length ≤ maxWheelMetadataBytes ∧ entry.compressedSize ≤ maxWheelMetadataBytes ∧
  ∃ compressed, EntryBytes fetch entry compressed ∧
    ((entry.compressionMethod = 0 ∧ metadata = compressed) ∨
      (entry.compressionMethod = 8 ∧ inflate compressed = .ok metadata))

def ExactRanges (fetch : Nat → Nat → Except RangeError Str) : Prop :=
  ∀ start stop bytes, fetch start stop = .ok bytes → bytes.length = stop - start + 1

theorem zipDataStart_ok (entry : CentralDirectoryEntry) {header : Str}
    (hoffset : entry.localHeaderOffset < 2 ^ 32)
    (hheader : fetch entry.localHeaderOffset (entry.localHeaderOffset + 29) = .ok header)
    (hlength : header.length = 30) (hsignature : zipLocalSignature <+: header) :
    zipDataStart fetch entry.localHeaderOffset = .ok (dataStart entry header) := by
  have hname := LittleEndian.field_lt header 26 2
  have hextra := LittleEndian.field_lt header 28 2
  have hstart : startsWith header zipLocalSignature = true := (startsWith_iff _ _).mpr hsignature
  unfold zipDataStart
  rw [add_ok (by omega), checked_ok, ok_bind, hheader, fetched_ok, ok_bind, hstart]
  simp only [Bool.not_true, Bool.false_eq_true, if_false, readU16,
    readLe_ok (show header.length < 2 ^ 63 by omega) (show 26 + 2 ≤ header.length by omega),
    readLe_ok (show header.length < 2 ^ 63 by omega) (show 28 + 2 ≤ header.length by omega),
    checked_ok, ok_bind, expect, add_ok (show entry.localHeaderOffset + 30 < 2 ^ 64 by omega),
    add_ok (show entry.localHeaderOffset + 30 + LittleEndian.field header 26 2 < 2 ^ 64 by omega),
    add_ok (show entry.localHeaderOffset + 30 + LittleEndian.field header 26 2 +
      LittleEndian.field header 28 2 < 2 ^ 64 by omega)]
  rfl

theorem zipDataStart_ensures (hexact : ExactRanges fetch) (entry : CentralDirectoryEntry)
    (hfits : entry.Fits) :
    Ensures IsPanic (zipDataStart fetch entry.localHeaderOffset) (fun start =>
      ∃ header, fetch entry.localHeaderOffset (entry.localHeaderOffset + 29) = .ok header ∧
        start = dataStart entry header) := by
  have hoffset := hfits.2
  cases hheader : fetch entry.localHeaderOffset (entry.localHeaderOffset + 29) with
  | error error =>
    unfold zipDataStart
    rw [add_ok (by omega), checked_ok, ok_bind, hheader]
    exact Ensures.error (by rintro ⟨panic, h⟩; cases h)
  | ok header =>
    have hlength := hexact _ _ _ hheader
    by_cases hsignature : zipLocalSignature <+: header
    · rw [zipDataStart_ok entry hoffset hheader (by omega) hsignature]
      exact ⟨header, rfl, rfl⟩
    · have hstart : startsWith header zipLocalSignature = false := by
        rw [Bool.eq_false_iff]
        exact fun h => hsignature ((startsWith_iff _ _).mp h)
      unfold zipDataStart
      rw [add_ok (by omega), checked_ok, ok_bind, hheader, fetched_ok, ok_bind, hstart]
      exact Ensures.error (by rintro ⟨panic, h⟩; cases h)

theorem compressedBytes_ensures (hexact : ExactRanges fetch) (entry : CentralDirectoryEntry)
    (hfits : entry.Fits) :
    Ensures IsPanic (compressedBytes fetch entry) (EntryBytes fetch entry) := by
  apply Ensures.bind (zipDataStart_ensures hexact entry hfits)
  rintro start ⟨header, hheader, rfl⟩
  apply Ensures.ite
  · intro hempty
    exact ⟨hempty.symm, header, hheader, fun hne => absurd hempty hne⟩
  · intro hne
    have hsize := hfits.1
    have hoffset := hfits.2
    have hname := LittleEndian.field_lt header 26 2
    have hextra := LittleEndian.field_lt header 28 2
    have hlt : dataStart entry header + entry.compressedSize < 2 ^ 64 := by
      unfold dataStart
      omega
    have hsub : sub (dataStart entry header + entry.compressedSize) 1 =
        .ok (dataStart entry header + entry.compressedSize - 1) := if_pos (by omega)
    rw [add_ok hlt, checked_ok, ok_bind, hsub, checked_ok, ok_bind]
    apply Ensures.mono (fetched_ensures _)
    intro compressed hcompressed
    have hlength := hexact _ _ _ hcompressed
    exact ⟨by omega, header, hheader, fun _ => hcompressed⟩

theorem extractEntry_ensures (hexact : ExactRanges fetch) (entry : CentralDirectoryEntry)
    (hfits : entry.Fits) :
    Ensures IsPanic (extractEntry inflate fetch entry)
      (fun remote => ∀ metadata, remote = .found metadata → Extracted inflate fetch entry metadata) := by
  apply Ensures.ite
  · intro _
    exact nofun
  · intro hsmall
    apply Ensures.bind (compressedBytes_ensures hexact entry hfits)
    intro compressed hread
    apply Ensures.ite
    · intro hstored metadata hmetadata
      cases hmetadata
      have hlength := hread.1
      exact ⟨by omega, by omega, compressed, hread, Or.inl ⟨hstored, rfl⟩⟩
    · intro _
      apply Ensures.ite
      · intro hdeflated
        cases hinflate : inflate compressed with
        | error message => exact Ensures.error (by rintro ⟨panic, h⟩; cases h)
        | ok content =>
          apply Ensures.ite
          · intro hlength metadata hmetadata
            cases hmetadata
            exact ⟨by omega, by omega, compressed, hread, Or.inr ⟨hdeflated, hinflate⟩⟩
          · intro _
            exact nofun
      · intro _
        exact nofun

structure Found (inflate : Inflate) (fetch : Nat → Nat → Except RangeError Str) (metadataPath : Str)
    (len : Nat) (metadata : Str) where
  tail : Str
  directory : CentralDirectory
  directoryBytes : Str
  entry : CentralDirectoryEntry
  len_ne : len ≠ 0
  tail_fetched : fetch (len - zipTailBytes) (len - 1) = .ok tail
  directory_read : centralDirectory tail = .ok (some directory)
  directory_ne : directory.len ≠ 0
  directory_fetched :
    fetch directory.offset (directory.offset + directory.len - 1) = .ok directoryBytes
  entry_found : findCentralDirectoryEntry directoryBytes metadataPath = .ok (.found entry)
  extracted : Extracted inflate fetch entry metadata

theorem extractMember_ensures (hexact : ExactRanges fetch) (metadataPath : Str) (len : Nat) :
    Ensures IsPanic (extractMember inflate fetch metadataPath len) (fun remote =>
      ∀ metadata, remote = .found metadata → Nonempty (Found inflate fetch metadataPath len metadata)) := by
  apply Ensures.ite
  · intro _
    exact nofun
  · intro hlen
    have hsub : sub len 1 = .ok (len - 1) := if_pos (by omega)
    rw [hsub, checked_ok, ok_bind]
    apply Ensures.bind (fetched_ensures _)
    intro tail htail
    have htailLength := hexact _ _ _ htail
    unfold zipTailBytes at htailLength
    have htailLt : tail.length < 2 ^ 63 := by omega
    obtain ⟨found, hfound, hspec⟩ := centralDirectory_ok htailLt
    rw [hfound, checked_ok, ok_bind]
    cases found with
    | none => exact nofun
    | some directory =>
      apply Ensures.ite
      · intro _
        exact nofun
      · intro hne
        obtain ⟨eocd, -, -, hdirLen, hdirOffset⟩ := hspec directory rfl
        have hlenLt := LittleEndian.field_lt tail (eocd + 12) 4
        have hoffsetLt := LittleEndian.field_lt tail (eocd + 16) 4
        have hend : sub (directory.offset + directory.len) 1 =
            .ok (directory.offset + directory.len - 1) := if_pos (by omega)
        rw [add_ok (by omega), checked_ok, ok_bind, hend, checked_ok, ok_bind]
        apply Ensures.bind (fetched_ensures _)
        intro directoryBytes hdirectory
        have hlength := hexact _ _ _ hdirectory
        have hdirectoryLt : directoryBytes.length < 2 ^ 63 := by omega
        obtain ⟨search, hsearch⟩ := findCentralDirectoryEntry_ok metadataPath hdirectoryLt
        rw [hsearch, checked_ok, ok_bind]
        cases search with
        | missing => exact nofun
        | invalid => exact nofun
        | found entry =>
          have hfits := findCentralDirectoryEntry_fits metadataPath hdirectoryLt hsearch
          apply Ensures.mono (extractEntry_ensures hexact entry hfits)
          intro remote hremote metadata hmetadata
          exact ⟨⟨tail, directory, directoryBytes, entry, hlen, htail, hfound, hne, hdirectory, hsearch,
            hremote metadata hmetadata⟩⟩

def PartsOf (file : Str) (fetch : Nat → Nat → Except RangeError Str) : Prop :=
  ∀ start stop bytes, fetch start stop = .ok bytes → bytes = (file.drop start).take (stop - start + 1)

abbrev WheelArchive (inflate : Inflate) : Type :=
  ZipFormat.Archive fun stored => (inflate stored).toOption

section Archive
variable (archive : WheelArchive inflate) (hparts : PartsOf archive.bytes fetch)

def LastSignature : Prop :=
  ∀ position, position + 22 ≤ archive.bytes.length →
    ZipFormat.endSignature <+: archive.bytes.drop position → position ≤ archive.endOffset

def tailStart (len : Nat) : Nat := len - zipTailBytes

theorem tailStart_le : tailStart archive.bytes.length ≤ archive.endOffset := by
  have hcomment := archive.comment_lt
  unfold tailStart zipTailBytes
  rw [archive.length_bytes]
  omega

include hparts in
theorem tail_eq {tail : Str}
    (h : fetch (archive.bytes.length - zipTailBytes) (archive.bytes.length - 1) = .ok tail) :
    tail = archive.bytes.drop (tailStart archive.bytes.length) := by
  rw [hparts _ _ _ h]
  unfold tailStart
  apply List.take_of_length_le
  rw [List.length_drop]
  omega

theorem directory_eq (hone : archive.OneEnd) {directory : CentralDirectory}
    (hlen : (archive.bytes.drop (tailStart archive.bytes.length)).length < 2 ^ 63)
    (h : centralDirectory (archive.bytes.drop (tailStart archive.bytes.length)) = .ok (some directory)) :
    directory = ⟨archive.body.length, archive.directory.length⟩ ∧ LastSignature archive := by
  have hstart := tailStart_le archive
  obtain ⟨found, hfound, hspec⟩ := centralDirectory_ok hlen
  rw [h, Except.ok.injEq] at hfound
  obtain ⟨eocd, hends, hlast, hdirLen, hdirOffset⟩ := hspec directory hfound.symm
  have hle := hone _ ((ZipFormat.endsAt_drop _ _ _).mp hends)
  have hown : ZipFormat.EndsAt (archive.bytes.drop (tailStart archive.bytes.length))
      (archive.endOffset - tailStart archive.bytes.length) := by
    rw [ZipFormat.endsAt_drop, Nat.add_sub_cancel' hstart]
    exact archive.endsAt
  have hge := hlast _ (by have := hown.2; omega) hown.1
  have hplace : tailStart archive.bytes.length + eocd = archive.endOffset := by omega
  rw [LittleEndian.field_drop, ← Nat.add_assoc, hplace] at hdirLen hdirOffset
  rw [archive.end_directoryLength] at hdirLen
  rw [archive.end_directoryOffset] at hdirOffset
  refine ⟨by rw [← hdirLen, ← hdirOffset], fun position hfits hposition => ?_⟩
  by_cases hbefore : position < tailStart archive.bytes.length
  · omega
  · have hbehind : tailStart archive.bytes.length + (position - tailStart archive.bytes.length) = position := by
      omega
    have hlater := hlast (position - tailStart archive.bytes.length)
      (by rw [List.length_drop]; omega) (by rwa [List.drop_drop, hbehind])
    omega

include hparts in
theorem directoryBytes_eq {bytes : Str} (hne : archive.directory.length ≠ 0)
    (h : fetch archive.body.length (archive.body.length + archive.directory.length - 1) = .ok bytes) :
    bytes = archive.directory := by
  have hcount : archive.body.length + archive.directory.length - 1 - archive.body.length + 1 =
      archive.directory.length := by omega
  rw [hparts _ _ _ h, hcount, archive.directory_stands]

theorem dataStart_member (member : ZipFormat.Member) (hmem : member ∈ archive.members) :
    (archive.bytes.drop (dataStart (memberEntry member)
      ((archive.bytes.drop member.offset).take 30))).take member.stored.length = member.stored := by
  obtain ⟨rest, hrest⟩ := archive.record_stands member hmem
  have hstart : dataStart (memberEntry member) ((archive.bytes.drop member.offset).take 30) =
      member.offset + (30 + member.name.length + member.localExtra.length) := by
    unfold dataStart
    rw [LittleEndian.field_take _ 30 26 2 (by omega), LittleEndian.field_take _ 30 28 2 (by omega), hrest,
      member.record_nameLength, member.record_extraLength]
    unfold memberEntry
    dsimp only
    omega
  rw [hstart, ← List.drop_drop, hrest, member.record_stored]

include hparts in
theorem entryBytes_member {member : ZipFormat.Member} (hmem : member ∈ archive.members) {compressed : Str}
    (h : EntryBytes fetch (memberEntry member) compressed) : compressed = member.stored := by
  obtain ⟨hlength, header, hheader, hfetched⟩ := h
  by_cases hempty : (memberEntry member).compressedSize = 0
  · rw [hempty] at hlength
    have hstored : member.stored = [] := List.length_eq_zero_iff.mp hempty
    rw [hstored]
    exact List.length_eq_zero_iff.mp hlength
  · have hbytes := hparts _ _ _ (hfetched hempty)
    have hcount : dataStart (memberEntry member) header + (memberEntry member).compressedSize - 1 -
        dataStart (memberEntry member) header + 1 = member.stored.length := by
      unfold memberEntry at hempty ⊢
      dsimp only at hempty ⊢
      omega
    have hfixed : (memberEntry member).localHeaderOffset + 29 - (memberEntry member).localHeaderOffset + 1 =
        30 := by omega
    have hheaderBytes := hparts _ _ _ hheader
    rw [hfixed] at hheaderBytes
    rw [hbytes, hcount, hheaderBytes]
    exact dataStart_member archive member hmem

include hparts in
theorem extracted_member {member : ZipFormat.Member} (hmem : member ∈ archive.members)
    (hplain : member.encrypted = false) {metadata : Str}
    (h : Extracted inflate fetch (memberEntry member) metadata) : metadata = member.content := by
  obtain ⟨-, -, compressed, hread, hmethod⟩ := h
  have hstored := entryBytes_member archive hparts hmem hread
  unfold memberEntry at hmethod
  dsimp only at hmethod
  rcases archive.holds member hmem hplain with ⟨hzero, hsame⟩ | ⟨height, hinflate⟩
  · rcases hmethod with ⟨-, hmetadata⟩ | ⟨hother, -⟩
    · rw [hmetadata, hstored, hsame]
    · rw [hzero] at hother
      cases hother
  · rcases hmethod with ⟨hother, -⟩ | ⟨-, hmetadata⟩
    · rw [height] at hother
      cases hother
    · rw [hstored] at hmetadata
      dsimp only at hinflate
      rw [hmetadata] at hinflate
      exact Option.some.inj hinflate

include hparts in
theorem found_member (hone : archive.OneEnd) {metadataPath metadata : Str}
    (hlen : archive.bytes.length < 2 ^ 63)
    (found : Found inflate fetch metadataPath archive.bytes.length metadata) :
    LastSignature archive ∧ ∃ first, archive.members.find? (isMember metadataPath) = some first ∧
      metadata = first.content ∧ metadata.length ≤ maxWheelMetadataBytes ∧
      first.stored.length ≤ maxWheelMetadataBytes := by
  have htail := tail_eq archive hparts found.tail_fetched
  have hread := found.directory_read
  rw [htail] at hread
  obtain ⟨hdirectory, hlast⟩ := directory_eq archive hone (by rw [List.length_drop]; omega) hread
  have hne := found.directory_ne
  have hfetched := found.directory_fetched
  rw [hdirectory] at hne hfetched
  have hbytes := directoryBytes_eq archive hparts hne hfetched
  have hsearch := found.entry_found
  rw [hbytes, findCentralDirectoryEntry_archive, Except.ok.injEq] at hsearch
  cases hfirst : archive.members.find? (isMember metadataPath) with
  | none =>
    rw [hfirst] at hsearch
    cases hsearch
  | some first =>
    rw [hfirst, Option.elim_some, DirectoryEntrySearch.found.injEq] at hsearch
    have hplain := List.find?_some hfirst
    unfold isMember at hplain
    rw [Bool.and_eq_true, Bool.not_eq_true'] at hplain
    have hextracted := found.extracted
    rw [← hsearch] at hextracted
    exact ⟨hlast, first, rfl,
      extracted_member archive hparts (List.mem_of_find?_eq_some hfirst) hplain.2 hextracted,
      hextracted.1, hextracted.2.1⟩

def Answers (file : Str) (fetch : Nat → Nat → Except RangeError Str) : Prop :=
  ∀ start stop, start ≤ stop → stop < file.length →
    fetch start stop = .ok ((file.drop start).take (stop - start + 1))

variable (hanswers : Answers archive.bytes fetch)

theorem record_fits (member : ZipFormat.Member) (hmem : member ∈ archive.members) :
    member.offset + 30 + member.name.length + member.localExtra.length + member.stored.length ≤
      archive.bytes.length := by
  obtain ⟨rest, hrest⟩ := archive.record_stands member hmem
  have hlength := congrArg List.length hrest
  rw [List.length_drop, List.length_append, member.length_record] at hlength
  omega

include hanswers in
theorem compressedBytes_member (member : ZipFormat.Member) (hmem : member ∈ archive.members) :
    compressedBytes fetch (memberEntry member) = .ok member.stored := by
  have hoffset : member.offset < 2 ^ 32 := by
    have hlt := member.offset_lt
    unfold ZipFormat.limit32 at hlt
    omega
  have hstored : member.stored.length < 2 ^ 32 := by
    have hlt := member.stored_lt
    unfold ZipFormat.limit32 at hlt
    omega
  have hfits := record_fits archive member hmem
  obtain ⟨rest, hrest⟩ := archive.record_stands member hmem
  have hheader := hanswers member.offset (member.offset + 29) (by omega) (by omega)
  have hfixed : member.offset + 29 - member.offset + 1 = 30 := by omega
  rw [hfixed] at hheader
  have hstart := zipDataStart_ok (memberEntry member) hoffset hheader
    (by rw [List.length_take, List.length_drop]; omega)
    (by
      rw [hrest, List.prefix_take_iff]
      exact ⟨member.record_signature rest, by decide⟩)
  have hplace : dataStart (memberEntry member) ((archive.bytes.drop member.offset).take 30) =
      member.offset + 30 + member.name.length + member.localExtra.length := by
    unfold dataStart memberEntry
    dsimp only
    rw [LittleEndian.field_take _ 30 26 2 (by omega), LittleEndian.field_take _ 30 28 2 (by omega), hrest,
      member.record_nameLength, member.record_extraLength]
  have hbytes := dataStart_member archive member hmem
  unfold compressedBytes
  rw [hstart, ok_bind]
  split
  · rename_i hempty
    have hnil : member.stored = [] := List.length_eq_zero_iff.mp hempty
    rw [hnil]
    rfl
  · rename_i hne
    have hsize : (memberEntry member).compressedSize = member.stored.length := rfl
    rw [hplace] at hbytes ⊢
    rw [hsize] at hne ⊢
    have hsub : sub (member.offset + 30 + member.name.length + member.localExtra.length +
        member.stored.length) 1 = .ok (member.offset + 30 + member.name.length +
          member.localExtra.length + member.stored.length - 1) := if_pos (by omega)
    have hname := member.name_lt
    have hextra := member.localExtra_lt
    rw [add_ok (by omega), checked_ok, ok_bind, hsub, checked_ok, ok_bind,
      hanswers _ _ (by omega) (by omega), fetched_ok]
    have hcount : member.offset + 30 + member.name.length + member.localExtra.length +
        member.stored.length - 1 -
          (member.offset + 30 + member.name.length + member.localExtra.length) + 1 =
        member.stored.length := by omega
    rw [hcount, hbytes]

include hanswers in
theorem extractEntry_member {member : ZipFormat.Member} (hmem : member ∈ archive.members)
    (hplain : member.encrypted = false) (hcontent : member.content.length ≤ maxWheelMetadataBytes)
    (hstored : member.stored.length ≤ maxWheelMetadataBytes) :
    extractEntry inflate fetch (memberEntry member) = .ok (.found member.content) := by
  have hsmall : ¬ ((memberEntry member).uncompressedSize > maxWheelMetadataBytes ∨
      (memberEntry member).compressedSize > maxWheelMetadataBytes) := by
    unfold memberEntry
    dsimp only
    omega
  have hmethod : (memberEntry member).compressionMethod = member.method := rfl
  unfold extractEntry zipCompressionStored zipCompressionDeflated
  rw [if_neg hsmall, compressedBytes_member archive hanswers member hmem, ok_bind, hmethod]
  rcases archive.holds member hmem hplain with ⟨hzero, hsame⟩ | ⟨height, hinflate⟩
  · rw [if_pos hzero, hsame]
    rfl
  · rw [if_neg (by rw [height]; decide), if_pos height]
    dsimp only at hinflate
    cases hresult : inflate member.stored with
    | error message =>
      rw [hresult] at hinflate
      cases hinflate
    | ok content =>
      rw [hresult] at hinflate
      cases hinflate
      exact if_pos rfl

theorem centralDirectory_archive (hlast : LastSignature archive)
    (hlen : archive.bytes.length < 2 ^ 63) :
    centralDirectory (archive.bytes.drop (tailStart archive.bytes.length)) =
      .ok (some ⟨archive.body.length, archive.directory.length⟩) := by
  have hstart := tailStart_le archive
  have hplace : tailStart archive.bytes.length +
      (archive.endOffset - tailStart archive.bytes.length) = archive.endOffset := Nat.add_sub_cancel' hstart
  have hown : ZipFormat.EndsAt (archive.bytes.drop (tailStart archive.bytes.length))
      (archive.endOffset - tailStart archive.bytes.length) := by
    rw [ZipFormat.endsAt_drop, hplace]
    exact archive.endsAt
  have hfits := hown.2
  have hbody := archive.body_lt
  have hdirectory := archive.directory_lt
  unfold ZipFormat.limit32 at hbody hdirectory
  have hdirLen : LittleEndian.field (archive.bytes.drop (tailStart archive.bytes.length))
      (archive.endOffset - tailStart archive.bytes.length + 12) 4 = archive.directory.length := by
    rw [LittleEndian.field_drop, ← Nat.add_assoc, hplace, archive.end_directoryLength]
  have hdirOffset : LittleEndian.field (archive.bytes.drop (tailStart archive.bytes.length))
      (archive.endOffset - tailStart archive.bytes.length + 16) 4 = archive.body.length := by
    rw [LittleEndian.field_drop, ← Nat.add_assoc, hplace, archive.end_directoryOffset]
  rw [centralDirectory_last (by omega) hown.1, endRecord_ok (by rw [List.length_drop]; omega) (by omega)]
  · rw [hdirLen, hdirOffset, if_neg]
    rintro (hcomment | hlimit | hlimit)
    · exact hcomment hfits
    · unfold ZipFormat.Archive.directory u32Max at hlimit
      omega
    · unfold u32Max at hlimit
      omega
  · intro position hfits hposition
    rw [List.drop_drop] at hposition
    rw [List.length_drop] at hfits
    have hle := hlast _ (by omega) hposition
    omega

include hanswers in
theorem extractMember_archive (hlast : LastSignature archive) (hlen : archive.bytes.length < 2 ^ 63)
    {metadataPath : Str} {first : ZipFormat.Member}
    (hfirst : archive.members.find? (isMember metadataPath) = some first)
    (hcontent : first.content.length ≤ maxWheelMetadataBytes)
    (hstored : first.stored.length ≤ maxWheelMetadataBytes) :
    extractMember inflate fetch metadataPath archive.bytes.length = .ok (.found first.content) := by
  have hmem := List.mem_of_find?_eq_some hfirst
  have hplain := List.find?_some hfirst
  unfold isMember at hplain
  rw [Bool.and_eq_true, Bool.not_eq_true'] at hplain
  have hlength := archive.length_bytes
  have hdirectory : archive.directory.length ≠ 0 := by
    have hcount := length_members_le archive.members
    have hpos := List.length_pos_of_mem hmem
    unfold ZipFormat.Archive.directory
    omega
  have htail := hanswers (archive.bytes.length - zipTailBytes) (archive.bytes.length - 1)
    (by unfold zipTailBytes; omega) (by omega)
  have hwhole : (archive.bytes.drop (archive.bytes.length - zipTailBytes)).take
      (archive.bytes.length - 1 - (archive.bytes.length - zipTailBytes) + 1) =
        archive.bytes.drop (tailStart archive.bytes.length) := by
    apply List.take_of_length_le
    rw [List.length_drop]
    unfold zipTailBytes
    omega
  rw [hwhole] at htail
  have hbody := archive.body_lt
  have hdirectoryLt := archive.directory_lt
  unfold ZipFormat.limit32 at hbody hdirectoryLt
  have hend : archive.body.length + archive.directory.length ≤ archive.bytes.length := by
    rw [hlength]
    unfold ZipFormat.Archive.endOffset
    omega
  have hfetched := hanswers archive.body.length (archive.body.length + archive.directory.length - 1)
    (by omega) (by rw [hlength]; unfold ZipFormat.Archive.endOffset; omega)
  have hcount : archive.body.length + archive.directory.length - 1 - archive.body.length + 1 =
      archive.directory.length := by omega
  rw [hcount, archive.directory_stands] at hfetched
  have hsub : sub archive.bytes.length 1 = .ok (archive.bytes.length - 1) := if_pos (by omega)
  have hsubDirectory : sub (archive.body.length + archive.directory.length) 1 =
      .ok (archive.body.length + archive.directory.length - 1) := if_pos (by omega)
  unfold extractMember
  rw [if_neg (by omega), hsub, checked_ok, ok_bind, htail, fetched_ok, ok_bind,
    centralDirectory_archive archive hlast hlen, checked_ok, ok_bind]
  dsimp only
  rw [if_neg hdirectory, add_ok (by omega), checked_ok, ok_bind, hsubDirectory, checked_ok, ok_bind, hfetched,
    fetched_ok, ok_bind, findCentralDirectoryEntry_archive, hfirst, checked_ok, ok_bind]
  exact extractEntry_member archive hanswers hmem hplain.2 hcontent hstored

end Archive

end Extraction

end Peryx.Wheel
