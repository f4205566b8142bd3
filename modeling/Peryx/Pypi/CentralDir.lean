import Peryx.Core.Text
import Peryx.Library.Outcome
import Peryx.Library.ZipFormat

/-! # The ZIP central directory (peryx-ecosystem-pypi/src/cache/metadata/central_dir.rs) -/

namespace Peryx.CentralDir
open Str

inductive Panic where
  | overflow
  | outOfRange
  | expected (message : Str)
  | endless
  deriving DecidableEq

def zipTailBytes : Nat := 66000
def zipEocdLen : Nat := 22
def zipEocdSignature : Str := [0x50, 0x4B, 0x05, 0x06]
def zipCentralSignature : Str := [0x50, 0x4B, 0x01, 0x02]
def zipLocalSignature : Str := [0x50, 0x4B, 0x03, 0x04]
def zipCompressionStored : Nat := 0
def zipCompressionDeflated : Nat := 8
def u32Max : Nat := 2 ^ 32 - 1

structure CentralDirectory where
  offset : Nat
  len : Nat
  deriving DecidableEq

structure CentralDirectoryEntry where
  compressionMethod : Nat
  compressedSize : Nat
  uncompressedSize : Nat
  localHeaderOffset : Nat
  deriving DecidableEq

inductive DirectoryEntrySearch where
  | found (entry : CentralDirectoryEntry)
  | missing
  | invalid
  deriving DecidableEq

def add (a b : Nat) : Except Panic Nat := if a + b < 2 ^ 64 then .ok (a + b) else .error .overflow

def sub (a b : Nat) : Except Panic Nat := if b ≤ a then .ok (a - b) else .error .overflow

def sliceFrom (bytes : Str) (start : Nat) : Except Panic Str :=
  if start ≤ bytes.length then .ok (bytes.drop start) else .error .outOfRange

def slice (bytes : Str) (start stop : Nat) : Except Panic Str :=
  if start ≤ stop ∧ stop ≤ bytes.length then .ok ((bytes.drop start).take (stop - start))
  else .error .outOfRange

def expect {α : Type} (value : Option α) (message : Str) : Except Panic α :=
  match value with
  | some value => .ok value
  | none => .error (.expected message)

def readLe (width : Nat) (bytes : Str) (offset : Nat) : Except Panic (Option Nat) := do
  let stop ← add offset width
  if offset ≤ stop ∧ stop ≤ bytes.length then
    return some (LittleEndian.ofBytes ((bytes.drop offset).take (stop - offset)))
  else return none

def readU16 (bytes : Str) (offset : Nat) : Except Panic (Option Nat) := readLe 2 bytes offset

def readU32 (bytes : Str) (offset : Nat) : Except Panic (Option Nat) := readLe 4 bytes offset

def rfind (holds : Nat → Except Panic Bool) : Nat → Except Panic (Option Nat)
  | 0 => do if ← holds 0 then return some 0 else return none
  | last + 1 => do if ← holds (last + 1) then return some (last + 1) else rfind holds last

def startsEocd (tail : Str) (position : Nat) : Except Panic Bool := do
  return startsWith (← sliceFrom tail position) zipEocdSignature

def endRecord (tail : Str) (eocd : Nat) : Except Panic (Option CentralDirectory) := do
  let some commentLen ← readU16 tail (← add eocd 20) | return none
  if (← add (← add eocd zipEocdLen) commentLen) ≠ tail.length then return none
  else
    let some len ← readU32 tail (← add eocd 12) | return none
    let some offset ← readU32 tail (← add eocd 16) | return none
    if len = u32Max ∨ offset = u32Max then return none
    else return some { offset, len }

def centralDirectory (tail : Str) : Except Panic (Option CentralDirectory) :=
  if tail.length < zipEocdLen then .ok none
  else do
    match ← rfind (startsEocd tail) (tail.length - zipEocdLen) with
    | none => return none
    | some eocd => endRecord tail eocd

inductive Pass where
  | stop (search : DirectoryEntrySearch)
  | next (position : Nat)

def fixedHeader : Str := str "central directory fixed header is in bounds"

def isWanted (directory metadataPath : Str) (flags nameStart nameEnd : Nat)
    (entry : CentralDirectoryEntry) : Except Panic Bool :=
  if flags % 2 = 0 ∧ entry.compressedSize ≠ u32Max ∧ entry.uncompressedSize ≠ u32Max ∧
      entry.localHeaderOffset ≠ u32Max then do
    return (← slice directory nameStart nameEnd) == metadataPath
  else .ok false

def entryAt (directory metadataPath : Str) (position : Nat) : Except Panic Pass := do
  if !startsWith (← sliceFrom directory position) zipCentralSignature then return .stop .invalid
  else
    let flags ← expect (← readU16 directory (← add position 8)) fixedHeader
    let compressionMethod ← expect (← readU16 directory (← add position 10)) fixedHeader
    let compressedSize ← expect (← readU32 directory (← add position 20)) fixedHeader
    let uncompressedSize ← expect (← readU32 directory (← add position 24)) fixedHeader
    let nameLen ← expect (← readU16 directory (← add position 28)) fixedHeader
    let extraLen ← expect (← readU16 directory (← add position 30)) fixedHeader
    let commentLen ← expect (← readU16 directory (← add position 32)) fixedHeader
    let localHeaderOffset ← expect (← readU32 directory (← add position 42)) fixedHeader
    let nameStart ← add position 46
    let nameEnd ← add nameStart nameLen
    let next ← add (← add nameEnd extraLen) commentLen
    if next > directory.length then return .stop .invalid
    else
      let entry : CentralDirectoryEntry :=
        { compressionMethod, compressedSize, uncompressedSize, localHeaderOffset }
      if ← isWanted directory metadataPath flags nameStart nameEnd entry then
        return .stop (.found entry)
      else return .next next

def searchFrom (directory metadataPath : Str) : Nat → Nat → Except Panic DirectoryEntrySearch
  | 0, _ => .error .endless
  | fuel + 1, position => do
    if (← add position 46) ≤ directory.length then
      match ← entryAt directory metadataPath position with
      | .stop search => return search
      | .next next => searchFrom directory metadataPath fuel next
    else return .missing

def findCentralDirectoryEntry (directory metadataPath : Str) : Except Panic DirectoryEntrySearch :=
  searchFrom directory metadataPath (directory.length + 1) 0

theorem add_ok {a b : Nat} (h : a + b < 2 ^ 64) : add a b = .ok (a + b) := if_pos h

theorem sliceFrom_ok {bytes : Str} {start : Nat} (h : start ≤ bytes.length) :
    sliceFrom bytes start = .ok (bytes.drop start) := if_pos h

theorem slice_ok {bytes : Str} {start stop : Nat} (h : start ≤ stop) (h' : stop ≤ bytes.length) :
    slice bytes start stop = .ok ((bytes.drop start).take (stop - start)) := if_pos ⟨h, h'⟩

theorem readLe_ok {bytes : Str} {width offset : Nat} (hlen : bytes.length < 2 ^ 63)
    (h : offset + width ≤ bytes.length) :
    readLe width bytes offset = .ok (some (LittleEndian.field bytes offset width)) := by
  have hadd : add offset width = .ok (offset + width) := add_ok (by omega)
  have hwidth : offset + width - offset = width := by omega
  unfold readLe
  rw [hadd, ok_bind, if_pos ⟨by omega, h⟩, hwidth]
  rfl

/-! What stands at a place of the directory, read without the checks. -/

section Read
open LittleEndian
variable (directory metadataPath : Str) (position : Nat)

def entryOf : CentralDirectoryEntry where
  compressionMethod := field directory (position + 10) 2
  compressedSize := field directory (position + 20) 4
  uncompressedSize := field directory (position + 24) 4
  localHeaderOffset := field directory (position + 42) 4

def nameEndOf : Nat := position + 46 + field directory (position + 28) 2

def nextOf : Nat :=
  nameEndOf directory position + field directory (position + 30) 2 + field directory (position + 32) 2

def Wanted : Prop :=
  (field directory (position + 8) 2 % 2 = 0 ∧ (entryOf directory position).compressedSize ≠ u32Max ∧
    (entryOf directory position).uncompressedSize ≠ u32Max ∧
    (entryOf directory position).localHeaderOffset ≠ u32Max) ∧
  (directory.drop (position + 46)).take (nameEndOf directory position - (position + 46)) = metadataPath

instance : Decidable (Wanted directory metadataPath position) := inferInstanceAs (Decidable (_ ∧ _))

def passAt : Pass :=
  if ¬ zipCentralSignature <+: directory.drop position ∨ nextOf directory position > directory.length then
    .stop .invalid
  else if Wanted directory metadataPath position then .stop (.found (entryOf directory position))
  else .next (nextOf directory position)

end Read

variable {directory : Str} (metadataPath : Str)

theorem isWanted_eq {position : Nat} (h : nameEndOf directory position ≤ directory.length) :
    isWanted directory metadataPath (LittleEndian.field directory (position + 8) 2) (position + 46)
      (nameEndOf directory position) (entryOf directory position) =
        .ok (decide (Wanted directory metadataPath position)) := by
  have hstart : position + 46 ≤ nameEndOf directory position := by
    unfold nameEndOf
    omega
  unfold isWanted
  split
  · rename_i hplain
    rw [slice_ok hstart h, ok_bind]
    refine congrArg Except.ok ?_
    rw [Bool.eq_iff_iff, beq_iff_eq, decide_eq_true_iff]
    exact ⟨fun hname => ⟨hplain, hname⟩, And.right⟩
  · rename_i hplain
    rw [decide_eq_false fun hwanted : Wanted directory metadataPath position => hplain hwanted.1]

theorem entryAt_eq (hlen : directory.length < 2 ^ 63) {position : Nat}
    (h : position + 46 ≤ directory.length) :
    entryAt directory metadataPath position = .ok (passAt directory metadataPath position) := by
  have hname := LittleEndian.field_lt directory (position + 28) 2
  have hextra := LittleEndian.field_lt directory (position + 30) 2
  have hcomment := LittleEndian.field_lt directory (position + 32) 2
  have hadd : ∀ offset ≤ 46, add position offset = .ok (position + offset) :=
    fun offset hoffset => add_ok (by omega)
  have hfield : ∀ offset width, offset + width ≤ 46 →
      readLe width directory (position + offset) =
        .ok (some (LittleEndian.field directory (position + offset) width)) :=
    fun offset width hwidth => readLe_ok hlen (by omega)
  have hnameEnd : add (position + 46) (LittleEndian.field directory (position + 28) 2) =
      .ok (nameEndOf directory position) := add_ok (by omega)
  have hextraEnd : add (nameEndOf directory position) (LittleEndian.field directory (position + 30) 2) =
      .ok (nameEndOf directory position + LittleEndian.field directory (position + 30) 2) :=
    add_ok (by unfold nameEndOf; omega)
  have hnext : add (nameEndOf directory position + LittleEndian.field directory (position + 30) 2)
      (LittleEndian.field directory (position + 32) 2) = .ok (nextOf directory position) :=
    add_ok (by unfold nameEndOf; omega)
  unfold entryAt passAt
  rw [sliceFrom_ok (by omega), ok_bind]
  by_cases hsig : zipCentralSignature <+: directory.drop position
  · have hstart : startsWith (directory.drop position) zipCentralSignature = true :=
      (startsWith_iff _ _).mpr hsig
    simp only [hstart, hsig, Bool.not_true, Bool.false_eq_true, if_false, not_true_eq_false, false_or,
      readU16, readU32, hadd _ (show 8 ≤ 46 by omega), hadd _ (show 10 ≤ 46 by omega),
      hadd _ (show 20 ≤ 46 by omega), hadd _ (show 24 ≤ 46 by omega), hadd _ (show 28 ≤ 46 by omega),
      hadd _ (show 30 ≤ 46 by omega), hadd _ (show 32 ≤ 46 by omega), hadd _ (show 42 ≤ 46 by omega),
      hadd _ (show 46 ≤ 46 by omega), ok_bind, expect,
      hfield 8 2 (by omega), hfield 10 2 (by omega), hfield 20 4 (by omega), hfield 24 4 (by omega),
      hfield 28 2 (by omega), hfield 30 2 (by omega), hfield 32 2 (by omega), hfield 42 4 (by omega),
      hnameEnd, hextraEnd, hnext]
    split
    · rfl
    · rename_i hlong
      have hend : nameEndOf directory position ≤ directory.length := by
        unfold nextOf at hlong
        omega
      have hwanted := isWanted_eq metadataPath hend
      unfold entryOf at hwanted
      rw [hwanted, ok_bind]
      by_cases h : Wanted directory metadataPath position
      · rw [decide_eq_true h, if_pos rfl, if_pos h]
        rfl
      · rw [decide_eq_false h, if_neg h]
        rfl
  · have hstart : startsWith (directory.drop position) zipCentralSignature = false := by
      rw [← Bool.not_eq_true, startsWith_iff]
      exact hsig
    simp only [hstart, hsig, Bool.not_false, if_true, not_false_eq_true, true_or]
    rfl

theorem position_lt_nextOf (directory : Str) (position : Nat) :
    position + 46 ≤ nextOf directory position := by
  unfold nextOf nameEndOf
  omega

theorem passAt_next {position next : Nat} (h : passAt directory metadataPath position = .next next) :
    next = nextOf directory position ∧ next ≤ directory.length := by
  unfold passAt at h
  split at h
  · cases h
  · rename_i hlong
    split at h
    · cases h
    · cases h
      exact ⟨rfl, by omega⟩

theorem searchFrom_ok (hlen : directory.length < 2 ^ 63) (fuel position : Nat)
    (hfuel : directory.length - position < fuel) (hposition : position ≤ directory.length) :
    ∃ search, searchFrom directory metadataPath fuel position = .ok search := by
  induction fuel generalizing position with
  | zero => omega
  | succ fuel ih =>
    rw [searchFrom, add_ok (by omega), ok_bind]
    by_cases hfits : position + 46 ≤ directory.length
    · rw [if_pos hfits, entryAt_eq metadataPath hlen hfits, ok_bind]
      cases hpass : passAt directory metadataPath position with
      | stop search => exact ⟨search, rfl⟩
      | next next =>
        obtain ⟨hnext, hle⟩ := passAt_next metadataPath hpass
        have hfurther := position_lt_nextOf directory position
        exact ih next (by omega) hle
    · rw [if_neg hfits]
      exact ⟨.missing, rfl⟩

theorem findCentralDirectoryEntry_ok (hlen : directory.length < 2 ^ 63) :
    ∃ search, findCentralDirectoryEntry directory metadataPath = .ok search :=
  searchFrom_ok metadataPath hlen _ 0 (by omega) (by omega)

def CentralDirectoryEntry.Fits (entry : CentralDirectoryEntry) : Prop :=
  entry.compressedSize < 2 ^ 32 ∧ entry.localHeaderOffset < 2 ^ 32

theorem passAt_found {position : Nat} {entry : CentralDirectoryEntry}
    (h : passAt directory metadataPath position = .stop (.found entry)) : entry.Fits := by
  unfold passAt at h
  split at h
  · cases h
  · split at h
    · cases h
      exact ⟨LittleEndian.field_lt _ _ 4, LittleEndian.field_lt _ _ 4⟩
    · cases h

theorem searchFrom_fits (hlen : directory.length < 2 ^ 63) (fuel position : Nat)
    (hposition : position ≤ directory.length) {entry : CentralDirectoryEntry}
    (h : searchFrom directory metadataPath fuel position = .ok (.found entry)) : entry.Fits := by
  induction fuel generalizing position with
  | zero => cases h
  | succ fuel ih =>
    rw [searchFrom, add_ok (by omega), ok_bind] at h
    split at h
    · rename_i hfits
      rw [entryAt_eq metadataPath hlen hfits, ok_bind] at h
      cases hpass : passAt directory metadataPath position with
      | stop search =>
        rw [hpass] at h
        cases h
        exact passAt_found metadataPath hpass
      | next next =>
        rw [hpass] at h
        exact ih next (passAt_next metadataPath hpass).2 h
    · cases h

theorem findCentralDirectoryEntry_fits (hlen : directory.length < 2 ^ 63)
    {entry : CentralDirectoryEntry}
    (h : findCentralDirectoryEntry directory metadataPath = .ok (.found entry)) : entry.Fits :=
  searchFrom_fits metadataPath hlen _ 0 (by omega) h

theorem rfind_ok {holds : Nat → Except Panic Bool} {test : Nat → Bool} (last : Nat)
    (h : ∀ position ≤ last, holds position = .ok (test position)) :
    ∃ found, rfind holds last = .ok found ∧ ∀ position, found = some position →
      position ≤ last ∧ test position = true ∧ ∀ later ≤ last, position < later → test later = false := by
  induction last with
  | zero =>
    rw [rfind, h 0 (by omega), ok_bind]
    by_cases htest : test 0 = true
    · rw [if_pos htest]
      refine ⟨some 0, rfl, fun position hposition => ?_⟩
      cases hposition
      exact ⟨by omega, htest, fun later hlast hlater => absurd hlater (by omega)⟩
    · rw [if_neg htest]
      exact ⟨none, rfl, nofun⟩
  | succ last ih =>
    rw [rfind, h (last + 1) (by omega), ok_bind]
    by_cases htest : test (last + 1) = true
    · rw [if_pos htest]
      refine ⟨some (last + 1), rfl, fun position hposition => ?_⟩
      cases hposition
      exact ⟨by omega, htest, fun later hlast hlater => absurd hlater (by omega)⟩
    · rw [if_neg htest]
      obtain ⟨found, hfound, hspec⟩ := ih fun position hposition => h position (by omega)
      refine ⟨found, hfound, fun position hposition => ?_⟩
      obtain ⟨hle, hheld, hlater⟩ := hspec position hposition
      refine ⟨by omega, hheld, fun later hlast hlt => ?_⟩
      by_cases hlatest : later = last + 1
      · rw [hlatest]
        exact Bool.eq_false_of_not_eq_true htest
      · exact hlater later (by omega) hlt

theorem rfind_last {holds : Nat → Except Panic Bool} {test : Nat → Bool} (last position : Nat)
    (h : ∀ position ≤ last, holds position = .ok (test position)) (hle : position ≤ last)
    (hheld : test position = true) (hlater : ∀ later ≤ last, position < later → test later = false) :
    rfind holds last = .ok (some position) := by
  induction last with
  | zero =>
    obtain rfl : position = 0 := by omega
    rw [rfind, h 0 (by omega), ok_bind, if_pos hheld]
    rfl
  | succ last ih =>
    rw [rfind, h (last + 1) (by omega), ok_bind]
    by_cases hlast : position = last + 1
    · rw [← hlast, if_pos hheld]
      rfl
    · rw [hlater (last + 1) (by omega) (by omega)]
      exact ih (fun place hplace => h place (by omega)) (by omega)
        fun later hle' hlt => hlater later (by omega) hlt

variable {tail : Str}

theorem startsEocd_ok {position : Nat} (h : position ≤ tail.length) :
    startsEocd tail position = .ok (startsWith (tail.drop position) zipEocdSignature) := by
  unfold startsEocd
  rw [sliceFrom_ok h]
  rfl

theorem endRecord_ok (hlen : tail.length < 2 ^ 63) {eocd : Nat} (h : eocd + 22 ≤ tail.length) :
    endRecord tail eocd = .ok (
      if eocd + 22 + LittleEndian.field tail (eocd + 20) 2 ≠ tail.length ∨
          LittleEndian.field tail (eocd + 12) 4 = u32Max ∨ LittleEndian.field tail (eocd + 16) 4 = u32Max then
        none
      else some ⟨LittleEndian.field tail (eocd + 16) 4, LittleEndian.field tail (eocd + 12) 4⟩) := by
  have hcomment := LittleEndian.field_lt tail (eocd + 20) 2
  have hadd : ∀ offset ≤ 22, add eocd offset = .ok (eocd + offset) :=
    fun offset hoffset => add_ok (by omega)
  have hend : add (eocd + 22) (LittleEndian.field tail (eocd + 20) 2) =
      .ok (eocd + 22 + LittleEndian.field tail (eocd + 20) 2) := add_ok (by omega)
  unfold endRecord
  simp only [readU16, readU32, zipEocdLen, hadd 20 (by omega), hadd 22 (by omega), hadd 12 (by omega),
    hadd 16 (by omega), ok_bind, readLe_ok hlen (show eocd + 20 + 2 ≤ tail.length by omega),
    readLe_ok hlen (show eocd + 12 + 4 ≤ tail.length by omega),
    readLe_ok hlen (show eocd + 16 + 4 ≤ tail.length by omega), hend]
  by_cases hends : eocd + 22 + LittleEndian.field tail (eocd + 20) 2 = tail.length
  · simp only [hends, ne_eq, not_true_eq_false, if_false, false_or]
    split <;> rfl
  · simp only [hends, ne_eq, not_false_eq_true, if_true, true_or]
    rfl

theorem centralDirectory_ok (hlen : tail.length < 2 ^ 63) :
    ∃ found, centralDirectory tail = .ok found ∧ ∀ directory, found = some directory →
      ∃ eocd, ZipFormat.EndsAt tail eocd ∧
        (∀ position, position + 22 ≤ tail.length → zipEocdSignature <+: tail.drop position →
          position ≤ eocd) ∧
        directory.len = LittleEndian.field tail (eocd + 12) 4 ∧
        directory.offset = LittleEndian.field tail (eocd + 16) 4 := by
  unfold centralDirectory
  by_cases hshort : tail.length < zipEocdLen
  · rw [if_pos hshort]
    exact ⟨none, rfl, nofun⟩
  · rw [if_neg hshort]
    unfold zipEocdLen at hshort
    have hstarts : ∀ position ≤ tail.length - zipEocdLen, startsEocd tail position =
        .ok (startsWith (tail.drop position) zipEocdSignature) :=
      fun position hposition => startsEocd_ok (by omega)
    obtain ⟨found, hfound, hspec⟩ := rfind_ok _ hstarts
    rw [hfound, ok_bind]
    cases found with
    | none => exact ⟨none, rfl, nofun⟩
    | some eocd =>
      obtain ⟨hle, hstarts, hlater⟩ := hspec eocd rfl
      unfold zipEocdLen at hle hlater
      refine ⟨_, endRecord_ok hlen (by omega), fun directory hdirectory => ?_⟩
      split at hdirectory
      · cases hdirectory
      · rename_i hends
        cases hdirectory
        have hcomment : eocd + 22 + LittleEndian.field tail (eocd + 20) 2 = tail.length := by
          by_contra hne
          exact hends (Or.inl hne)
        refine ⟨eocd, ⟨(startsWith_iff _ _).mp hstarts, hcomment⟩, fun position hfits hposition => ?_,
          rfl, rfl⟩
        by_contra hlt
        have hno := hlater position (by omega) (by omega)
        have hyes : startsWith (tail.drop position) zipEocdSignature = true :=
          (startsWith_iff _ _).mpr hposition
        rw [hyes] at hno
        cases hno

theorem centralDirectory_last {eocd : Nat} (h : eocd + 22 ≤ tail.length)
    (hstarts : zipEocdSignature <+: tail.drop eocd)
    (hlast : ∀ position, position + 22 ≤ tail.length → zipEocdSignature <+: tail.drop position →
      position ≤ eocd) :
    centralDirectory tail = endRecord tail eocd := by
  have hfind : rfind (startsEocd tail) (tail.length - zipEocdLen) = .ok (some eocd) := by
    unfold zipEocdLen
    apply rfind_last _ eocd (fun position hposition => startsEocd_ok (by omega)) (by omega)
    · exact (startsWith_iff _ _).mpr hstarts
    · intro later hlater hlt
      rw [← Bool.not_eq_true, startsWith_iff]
      intro hlaterStarts
      have hle := hlast later (by omega) hlaterStarts
      omega
  unfold centralDirectory
  rw [if_neg (by unfold zipEocdLen; omega), hfind, ok_bind]

def memberEntry (member : ZipFormat.Member) : CentralDirectoryEntry where
  compressionMethod := member.method
  compressedSize := member.stored.length
  uncompressedSize := member.content.length
  localHeaderOffset := member.offset

def isMember (metadataPath : Str) (member : ZipFormat.Member) : Bool :=
  member.name == metadataPath && !member.encrypted

section Members
open ZipFormat
variable (member : Member) (front rest : Str)

theorem field_header (offset width : Nat) :
    LittleEndian.field (front ++ (member.central ++ rest)) (front.length + offset) width =
      LittleEndian.field (member.central ++ rest) offset width := by
  rw [← LittleEndian.field_drop, List.drop_left]

theorem entryOf_header :
    entryOf (front ++ (member.central ++ rest)) front.length = memberEntry member := by
  unfold entryOf memberEntry
  simp only [field_header, member.central_method, member.central_stored, member.central_content,
    member.central_offset]

theorem nameEndOf_header :
    nameEndOf (front ++ (member.central ++ rest)) front.length =
      front.length + 46 + member.name.length := by
  unfold nameEndOf
  rw [field_header, member.central_nameLength]

theorem nextOf_header :
    nextOf (front ++ (member.central ++ rest)) front.length = front.length + member.central.length := by
  unfold nextOf
  rw [nameEndOf_header, field_header, field_header, member.central_extraLength,
    member.central_commentLength, member.length_central]
  omega

theorem wanted_header :
    Wanted (front ++ (member.central ++ rest)) metadataPath front.length ↔
      isMember metadataPath member = true := by
  have hstored := member.stored_lt
  have hcontent := member.content_lt
  have hoffset := member.offset_lt
  have hname : (front ++ (member.central ++ rest)).drop (front.length + 46) =
      (member.central ++ rest).drop 46 := by
    rw [← List.drop_drop, List.drop_left]
  unfold limit32 at hstored hcontent hoffset
  unfold Wanted isMember
  rw [entryOf_header, nameEndOf_header, Nat.add_sub_cancel_left, hname, member.central_name,
    field_header, member.central_flags, Bool.and_eq_true, beq_iff_eq, Bool.not_eq_true']
  unfold memberEntry Member.encrypted u32Max
  rw [beq_eq_false_iff_ne]
  dsimp only
  constructor
  · intro h
    have heven := h.1.1
    exact ⟨h.2, by omega⟩
  · intro h
    have hplain := h.2
    exact ⟨⟨by omega, by omega, by omega, by omega⟩, h.1⟩

theorem passAt_header :
    passAt (front ++ (member.central ++ rest)) metadataPath front.length =
      if isMember metadataPath member then .stop (.found (memberEntry member))
      else .next (front.length + member.central.length) := by
  have hsignature : zipCentralSignature <+: (front ++ (member.central ++ rest)).drop front.length := by
    rw [List.drop_left]
    exact member.central_signature rest
  have hlong : ¬ front.length + member.central.length > (front ++ (member.central ++ rest)).length := by
    rw [List.length_append, List.length_append]
    omega
  unfold passAt
  rw [nextOf_header, if_neg (by simp only [hsignature, not_true_eq_false, hlong, or_self,
    not_false_eq_true]), entryOf_header]
  by_cases h : isMember metadataPath member = true
  · rw [if_pos ((wanted_header metadataPath member front rest).mpr h), if_pos h]
  · rw [if_neg fun hwanted => h ((wanted_header metadataPath member front rest).mp hwanted), if_neg h]

end Members

theorem searchFrom_members (members : List ZipFormat.Member) (front : Str) (fuel : Nat)
    (hlen : (front ++ members.flatMap ZipFormat.Member.central).length < 2 ^ 63)
    (hfuel : members.length < fuel) :
    searchFrom (front ++ members.flatMap ZipFormat.Member.central) metadataPath fuel front.length =
      .ok ((members.find? (isMember metadataPath)).elim .missing
        fun member => .found (memberEntry member)) := by
  induction members generalizing front fuel with
  | nil =>
    obtain ⟨fuel, rfl⟩ : ∃ less, fuel = less + 1 := ⟨fuel - 1, by simp at hfuel; omega⟩
    rw [List.flatMap_nil, List.append_nil] at hlen ⊢
    rw [searchFrom, add_ok (by omega), ok_bind, if_neg (by omega)]
    rfl
  | cons member members ih =>
    obtain ⟨fuel, rfl⟩ : ∃ less, fuel = less + 1 := ⟨fuel - 1, by simp at hfuel; omega⟩
    rw [List.flatMap_cons] at hlen ⊢
    have hcentral := member.length_central
    have hfits : front.length + 46 ≤
        (front ++ (member.central ++ members.flatMap ZipFormat.Member.central)).length := by
      rw [List.length_append, List.length_append]
      omega
    rw [searchFrom, add_ok (by omega), ok_bind, if_pos hfits, entryAt_eq metadataPath hlen hfits, ok_bind,
      passAt_header, List.find?_cons]
    by_cases h : isMember metadataPath member = true
    · rw [if_pos h, h]
      rfl
    · have hrest := ih (front ++ member.central) fuel (by rwa [List.append_assoc])
        (by simp at hfuel; omega)
      rw [List.append_assoc, List.length_append] at hrest
      rw [if_neg h, Bool.eq_false_of_not_eq_true h]
      exact hrest

theorem length_members_le (members : List ZipFormat.Member) :
    members.length ≤ (members.flatMap ZipFormat.Member.central).length := by
  induction members with
  | nil => exact Nat.zero_le _
  | cons member members ih =>
    have hcentral := member.length_central
    rw [List.flatMap_cons, List.length_append, List.length_cons]
    omega

theorem findCentralDirectoryEntry_archive {inflate : Str → Option Str}
    (archive : ZipFormat.Archive inflate) :
    findCentralDirectoryEntry archive.directory metadataPath =
      .ok ((archive.members.find? (isMember metadataPath)).elim .missing
        fun member => .found (memberEntry member)) := by
  have hlt := archive.directory_lt
  have hcount := length_members_le archive.members
  unfold ZipFormat.limit32 at hlt
  exact searchFrom_members metadataPath archive.members [] _ (by rw [List.nil_append]; omega)
    (by unfold ZipFormat.Archive.directory; omega)

end Peryx.CentralDir
