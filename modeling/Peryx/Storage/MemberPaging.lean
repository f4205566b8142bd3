import Peryx.Library.Cursor
import Peryx.Storage.ArchiveMembers

/-! # Paging through an archive member -/

namespace Peryx.Archive
open Str Paging

/-- A member that was found: its bytes, what the reader gives of them, and whether offsets
past the cap are refused. -/
structure Opened where
  size : Nat
  bytes : Str
  yields : Str
  capped : Bool
  start : yields <+: bytes
  within : bytes.length ≤ size
  whole : capped = true → yields = bytes

def ZipEntry.opened (entry : ZipEntry) : Opened where
  size := entry.size
  bytes := entry.bytes
  yields := entry.bytes
  capped := !entry.stored
  start := List.prefix_refl _
  within := entry.within
  whole _ := rfl

def TarEntry.opened (entry : TarEntry) : Opened where
  size := entry.size
  bytes := entry.bytes
  yields := entry.readable
  capped := false
  start := List.take_prefix ..
  within := entry.within
  whole := nofun

def Opened.read (opened : Opened) (offset limit : Nat) : Except ArchiveError MemberChunk :=
  if opened.capped ∧ offset > min opened.size maxDecompressedInspectBytes then
    .error (.invalidRange offset (min opened.size maxDecompressedInspectBytes))
  else readSlice opened.yields opened.size offset limit

def openZip (zip : Except Str (Table Str ZipEntry)) (member : Str) : Option Opened :=
  match zip with
  | .error _ => none
  | .ok archive => ((archive[member]?).filter (·.opens)).map ZipEntry.opened

def openTar (member : Str) : List (Except Str TarEntry) → Option Opened
  | [] => none
  | .error _ :: _ => none
  | .ok entry :: rest =>
    if !entry.isFile then openTar member rest
    else if (safeMemberName entry.path).isOk then
      if entry.path = member then some entry.opened else openTar member rest
    else none

def openMember (filename : Str) (archive : Readers) (member : Str) : Option Opened :=
  if !(safeMemberName member).isOk then none
  else if isZip filename then openZip archive.zip member
  else if isTar filename then openTar member archive.tar
  else if isTarGz filename then openTar member archive.tarGz
  else none

theorem safeMemberName_ok (path : Str) (h : (safeMemberName path).isOk = true) :
    safeMemberName path = .ok path := by
  unfold safeMemberName at *
  dsimp only at *
  split at h
  · rename_i hsafe
    rw [if_pos hsafe]
  · cases h

theorem readByName_opened {archive : Table Str ZipEntry} {member : Str} {entry : ZipEntry}
    (hsafe : safeMemberName member = .ok member)
    (hentry : (archive[member]?).filter (·.opens) = some entry) (offset limit : Nat)
    (h : offset = 0 ∨ entry.stored = false) :
    readByName archive member offset limit = entry.opened.read offset limit := by
  unfold readByName Opened.read ZipEntry.opened
  rw [hentry]
  dsimp only
  rw [hsafe]
  simp only [bind, Except.bind]
  rcases h with hzero | hstored
  · rw [if_neg (by omega), if_neg (by omega)]
  · simp only [hstored, Bool.not_false, true_and]

theorem readSought_opened {member : Str} {entry : ZipEntry} (hstored : entry.stored = true)
    (hsafe : safeMemberName member = .ok member) (offset limit : Nat) :
    readSought entry member offset limit = entry.opened.read offset limit := by
  unfold readSought Opened.read ZipEntry.opened readSlice
  rw [hsafe]
  simp only [bind, Except.bind, hstored, Bool.not_true, Bool.false_eq_true, false_and, if_false]

theorem readZipMember_opened {zip : Except Str (Table Str ZipEntry)} {member : Str} {opened : Opened}
    (hsafe : safeMemberName member = .ok member) (h : openZip zip member = some opened)
    (offset limit : Nat) : readZipMember zip member offset limit = opened.read offset limit := by
  unfold openZip at h
  cases zip with
  | error message => cases h
  | ok archive =>
    dsimp only at h
    obtain ⟨entry, hentry, rfl⟩ := Option.map_eq_some_iff.mp h
    obtain ⟨hrow, _⟩ := Option.filter_eq_some_iff.mp hentry
    unfold readZipMember
    simp only [hsafe, hrow, bind, Except.bind, Except.mapError]
    by_cases hoffset : offset > 0
    · rw [if_pos hoffset]
      cases hstored : entry.stored with
      | false => exact readByName_opened hsafe hentry offset limit (.inr hstored)
      | true => exact readSought_opened hstored hsafe offset limit
    · rw [if_neg hoffset]
      exact readByName_opened hsafe hentry offset limit (.inl (by omega))

theorem readTarEntries_opened {member : Str} (tar : List (Except Str TarEntry)) {opened : Opened}
    (h : openTar member tar = some opened) (offset limit : Nat) :
    readTarEntries member offset limit tar = opened.read offset limit := by
  induction tar with
  | nil => cases h
  | cons item rest ih =>
    cases item with
    | error message => cases h
    | ok entry =>
      unfold openTar at h
      unfold readTarEntries
      simp only [bind, Except.bind, Except.mapError]
      by_cases hfile : entry.isFile
      · simp only [hfile, Bool.not_true, Bool.false_eq_true, if_false] at h ⊢
        by_cases hpath : (safeMemberName entry.path).isOk
        · rw [if_pos hpath] at h
          rw [safeMemberName_ok entry.path hpath]
          dsimp only
          split at h
          · cases h
            rename_i heq
            rw [if_pos heq]
            rfl
          · rename_i hne
            rw [if_neg hne]
            exact ih h
        · rw [if_neg hpath] at h
          cases h
      · simp only [hfile, Bool.not_false, if_true] at h ⊢
        exact ih h

theorem readMemberChunk_opened {filename member : Str} {archive : Readers} {opened : Opened}
    (h : openMember filename archive member = some opened) (offset limit : Nat) :
    readMemberChunk filename archive member offset limit = opened.read offset limit := by
  unfold openMember at h
  split at h
  · cases h
  · rename_i hok
    have hsafe := safeMemberName_ok member (by simpa using hok)
    unfold readMemberChunk readTarMember
    simp only [hsafe, bind, Except.bind]
    split at h
    · rename_i hzip
      rw [if_pos hzip]
      exact readZipMember_opened hsafe h offset limit
    · rename_i hzip
      rw [if_neg hzip]
      split at h
      · rename_i htar
        rw [if_pos htar]
        exact readTarEntries_opened _ h offset limit
      · rename_i htar
        rw [if_neg htar]
        split at h
        · rename_i hgz
          rw [if_pos hgz]
          exact readTarEntries_opened _ h offset limit
        · cases h

def chunkOf (rest : Str) (size offset count : Nat) : MemberChunk where
  bytes := rest.take count
  size := size
  offset := offset
  nextOffset := if offset + count < size then some (offset + count) else none

/-- When paging ends: the reader gives all that is declared, or passes the cap. -/
def Opened.Reaches (opened : Opened) : Prop :=
  opened.yields.length = opened.size ∨
    (opened.capped = true ∧ maxDecompressedInspectBytes < opened.yields.length)

theorem Opened.yields_le (opened : Opened) : opened.yields.length ≤ opened.size :=
  Nat.le_trans opened.start.length_le opened.within

theorem Opened.Reaches.yields_eq {opened : Opened} (h : opened.Reaches) :
    opened.yields = opened.bytes := by
  rcases h with hsize | ⟨hcapped, _⟩
  · exact opened.start.eq_of_length_le (by rw [hsize]; exact opened.within)
  · exact opened.whole hcapped

def Opened.count (opened : Opened) (offset limit : Nat) : Nat :=
  min (min (opened.size - offset) limit) (opened.yields.length - offset)

theorem Opened.read_eq (opened : Opened) (offset limit : Nat) (h : offset ≤ opened.yields.length) :
    opened.read offset limit =
      if opened.capped ∧ offset > min opened.size maxDecompressedInspectBytes then
        .error (.invalidRange offset (min opened.size maxDecompressedInspectBytes))
      else .ok (chunkOf (opened.yields.drop offset) opened.size offset (opened.count offset limit)) := by
  have hsize := opened.yields_le
  unfold Opened.read
  split
  · rfl
  · unfold readSlice readFromCurrent chunkOf count
    rw [if_neg (by omega)]
    dsimp only
    have htake : (opened.yields.drop offset).take (min (opened.size - offset) limit) =
        (opened.yields.drop offset).take
          (min (min (opened.size - offset) limit) (opened.yields.length - offset)) := by
      rw [← List.length_drop, ← List.take_eq_take_min]
    have hlength : ((opened.yields.drop offset).take
        (min (min (opened.size - offset) limit) (opened.yields.length - offset))).length =
        min (min (opened.size - offset) limit) (opened.yields.length - offset) := by
      rw [List.length_take, List.length_drop]
      omega
    rw [htake, hlength]

section Chunks
variable (opened : Opened) (offset limit : Nat)

theorem Opened.count_le (h : offset ≤ opened.yields.length) :
    offset + opened.count offset limit ≤ opened.yields.length := by
  unfold count
  omega

theorem Opened.count_pos (hlimit : 4 ≤ limit) (hreaches : opened.Reaches)
    (h : offset ≤ opened.yields.length)
    (hcap : ¬ (opened.capped ∧ offset > min opened.size maxDecompressedInspectBytes))
    (hnext : offset + opened.count offset limit < opened.size) :
    0 < opened.count offset limit ∧
      (opened.count offset limit < opened.yields.length - offset → 4 ≤ opened.count offset limit) := by
  have hsize := opened.yields_le
  unfold count at *
  rcases hreaches with hwhole | ⟨hcapped, hlong⟩
  · omega
  · have hle : offset ≤ maxDecompressedInspectBytes := by
      by_contra hlt
      exact hcap ⟨hcapped, by omega⟩
    omega

end Chunks

def Opened.PastCap (opened : Opened) (offset : Nat) (err : ArchiveError) : Prop :=
  opened.capped = true ∧ maxDecompressedInspectBytes < offset ∧
    err = .invalidRange offset (min opened.size maxDecompressedInspectBytes)

def Opened.inspectable (opened : Opened) : Nat :=
  if opened.capped then min opened.yields.length maxDecompressedInspectBytes
  else opened.yields.length

/-- Following `next_offset` from the beginning ends, asks for no offset twice and gives the
member's bytes in order, all that can be inspected of them. -/
def Opened.PagedBy (opened : Opened) (read : Nat → Except ArchiveError MemberChunk)
    (Good : MemberChunk → Prop) : Prop :=
  ∃ pages err, Paged read MemberChunk.nextOffset 0 pages err ∧
    (pages.map Prod.fst).Nodup ∧
    (∀ page ∈ pages, page.2.offset = page.1 ∧ Good page.2) ∧
    pages.flatMap (fun page => page.2.bytes) <+: opened.bytes ∧
    opened.inspectable ≤ (pages.flatMap fun page => page.2.bytes).length ∧
    ∀ fault ∈ err, ∃ offset, opened.PastCap offset fault

theorem Opened.pagedBy_of_cuts (opened : Opened) {read : Nat → Except ArchiveError MemberChunk}
    {Good : MemberChunk → Prop} (Inv : Nat → Prop) (hinv : Inv 0)
    (h : Cuts opened.yields MemberChunk.bytes MemberChunk.offset read MemberChunk.nextOffset Inv Good
      opened.PastCap) : opened.PagedBy read Good := by
  obtain ⟨stop, pages, err, hpaged, hended⟩ := h.ends 0 hinv
  have hjoined : pages.flatMap (fun page => page.2.bytes) = opened.yields.take stop := by
    rw [hended.joined, List.drop_zero]
  refine ⟨pages, err, hpaged, ?_, fun page hpage => (hended.good page hpage).symm, ?_, ?_, ?_⟩
  · exact List.pairwise_map.mpr (hended.increasing.imp Nat.ne_of_lt)
  · rw [hjoined]
    exact (List.take_prefix ..).trans opened.start
  · rw [hjoined, List.length_take, Nat.min_eq_left hended.within]
    have hfinish := hended.finish
    unfold inspectable
    cases err with
    | none =>
      have hstop : stop = opened.yields.length := hfinish
      split <;> omega
    | some fault =>
      have hpast : opened.PastCap stop fault := hfinish
      have hlong := hpast.2.1
      rw [if_pos hpast.1]
      omega
  · intro fault hfault
    rw [Option.mem_def] at hfault
    subst hfault
    exact ⟨stop, hended.finish⟩

theorem Opened.PastCap.of_refused {opened : Opened} {offset : Nat}
    (h : offset ≤ opened.yields.length)
    (hcap : opened.capped ∧ offset > min opened.size maxDecompressedInspectBytes) :
    opened.PastCap offset (.invalidRange offset (min opened.size maxDecompressedInspectBytes)) := by
  have hsize := opened.yields_le
  exact ⟨hcap.1, by omega, rfl⟩

theorem chunkOf_next (opened : Opened) (rest : Str) (offset count : Nat)
    (h : offset + count ≤ opened.yields.length) (hpos : offset + count < opened.size → 0 < count) :
    ((chunkOf rest opened.size offset count).nextOffset = none ∧
        offset + count = opened.yields.length) ∨
      ((chunkOf rest opened.size offset count).nextOffset = some (offset + count) ∧ 0 < count) := by
  have hsize := opened.yields_le
  unfold chunkOf
  dsimp only
  split
  · rename_i hlt
    exact Or.inr ⟨rfl, hpos hlt⟩
  · exact Or.inl ⟨rfl, by omega⟩

theorem Opened.cuts_bytes (opened : Opened) (limit : Nat) (hlimit : 4 ≤ limit)
    (hreaches : opened.Reaches) : Cuts opened.yields MemberChunk.bytes MemberChunk.offset
      (fun offset => opened.read offset limit) MemberChunk.nextOffset
      (fun offset => offset ≤ opened.yields.length) (fun _ => True) opened.PastCap where
  within offset h := h
  reads offset h := by
    rw [opened.read_eq offset limit h]
    split
    · rename_i hcap
      exact Or.inl ⟨_, rfl, .of_refused h hcap⟩
    · rename_i hcap
      have hcount := opened.count_le offset limit h
      refine Or.inr ⟨_, opened.count offset limit, rfl, trivial, rfl, hcount, rfl, ?_⟩
      rcases chunkOf_next opened (opened.yields.drop offset) offset _ hcount
          (fun hlt => (opened.count_pos offset limit hlimit hreaches h hcap hlt).1) with
        hlast | ⟨hnext, hpos⟩
      · exact Or.inl hlast
      · exact Or.inr ⟨hnext, hpos, hcount⟩

theorem Opened.not_reaches_iff (opened : Opened) : ¬ opened.Reaches ↔
    opened.yields.length < opened.size ∧
      (opened.capped = true → opened.yields.length ≤ maxDecompressedInspectBytes) := by
  have hsize := opened.yields_le
  unfold Reaches
  rw [not_or, not_and]
  constructor
  · intro h
    exact ⟨by omega, fun hcapped => Nat.le_of_not_lt (h.2 hcapped)⟩
  · intro h
    exact ⟨by omega, fun hcapped => Nat.not_lt.mpr (h.2 hcapped)⟩

theorem Opened.read_stuck (opened : Opened) (limit : Nat) (h : ¬ opened.Reaches) (offset : Nat)
    (hoffset : offset ≤ opened.yields.length) : opened.read offset limit =
      .ok (chunkOf (opened.yields.drop offset) opened.size offset (opened.count offset limit)) := by
  obtain ⟨hshort, hcap⟩ := opened.not_reaches_iff.mp h
  rw [opened.read_eq offset limit hoffset, if_neg]
  intro hrefused
  have hle := hcap hrefused.1
  have hlt := hrefused.2
  omega

theorem Opened.not_pagedBy_bytes (opened : Opened) (limit : Nat) (h : ¬ opened.Reaches)
    (Good : MemberChunk → Prop) : ¬ opened.PagedBy (fun offset => opened.read offset limit) Good := by
  intro hpaged
  obtain ⟨pages, err, hpaged, _⟩ := hpaged
  have hnext : ∀ offset page, offset ≤ opened.yields.length →
      opened.read offset limit = .ok page →
      ∃ after, page.nextOffset = some after ∧ after ≤ opened.yields.length := by
    intro offset page hoffset hread
    rw [opened.read_stuck limit h offset hoffset, Except.ok.injEq] at hread
    have hcount := opened.count_le offset limit hoffset
    have hshort := (opened.not_reaches_iff.mp h).1
    refine ⟨offset + opened.count offset limit, ?_, hcount⟩
    rw [← hread]
    exact if_pos (by omega)
  obtain ⟨fault, _, hfalse⟩ := hpaged.stuck (fun offset => offset ≤ opened.yields.length)
    (fun _ => False) (Nat.zero_le _) hnext
    fun offset err hoffset hread => by
      rw [opened.read_stuck limit h offset hoffset] at hread
      cases hread
  exact hfalse

theorem Opened.pagedBy_bytes_iff (opened : Opened) (limit : Nat) (hlimit : 4 ≤ limit) :
    opened.PagedBy (fun offset => opened.read offset limit) (fun _ => True) ↔ opened.Reaches := by
  constructor
  · intro h
    by_contra hnot
    exact opened.not_pagedBy_bytes limit hnot _ h
  · intro h
    exact opened.pagedBy_of_cuts (fun offset => offset ≤ opened.yields.length) (Nat.zero_le _)
      (opened.cuts_bytes limit hlimit h)

def Opened.readText (opened : Opened) (member : Str) (offset limit : Nat) :
    Except ArchiveError MemberChunk := do
  let chunk ← opened.read offset limit
  textChunk member chunk

theorem readTextMemberChunk_opened {filename member : Str} {archive : Readers} {opened : Opened}
    (h : openMember filename archive member = some opened) (htext : isPreviewableMember member = true)
    (offset limit : Nat) : readTextMemberChunk (.ok (filename, archive)) member offset limit =
      opened.readText member offset limit := by
  have hsafe : safeMemberName member = .ok member := by
    apply safeMemberName_ok
    unfold openMember at h
    split at h
    · cases h
    · rename_i hok
      simpa using hok
  unfold readTextMemberChunk Opened.readText
  simp only [hsafe, htext, bind, Except.bind, Bool.not_true, Bool.false_eq_true, if_false,
    readMemberChunk_opened h]

theorem takeWhile_take (rest : Str) (count : Nat) (h : rest.takeWhile isContinuation = []) :
    (rest.take count).takeWhile isContinuation = [] := by
  cases rest with
  | nil => simp
  | cons byte rest =>
    cases count with
    | zero => rfl
    | succ count =>
      rw [List.takeWhile_eq_nil_iff] at *
      intro hpos
      exact h (Nat.succ_pos _)

theorem textChunk_chunkOf (member rest : Str) (hrest : IsUtf8 rest) (size offset count : Nat)
    (hcount : count ≤ rest.length) :
    ∃ stop, stop ≤ count ∧ count < stop + 4 ∧ IsUtf8 (rest.take stop) ∧ IsUtf8 (rest.drop stop) ∧
      (count = rest.length → stop = count) ∧
      textChunk member (chunkOf rest size offset count) =
        if stop = count then .ok (chunkOf rest size offset count)
        else if offset + count < size ∧ 0 < stop then .ok (chunkOf rest size offset stop)
        else .error (.binaryMember member) := by
  obtain ⟨stop, hcut, herror⟩ := Query.utf8Error_take rest hrest count
  have hmin : min count rest.length = count := Nat.min_eq_left hcount
  have hle := hcut.le
  have hshort := hcut.short
  rw [hmin] at hle hshort herror
  have hrealign : realignToCharBoundary (chunkOf rest size offset count) =
      chunkOf rest size offset count := by
    unfold realignToCharBoundary
    split
    · rfl
    · dsimp only [chunkOf]
      rw [takeWhile_take rest count (Query.IsUtf8.no_continuation rest hrest), if_neg (by simp)]
  refine ⟨stop, hle, hshort, hcut.front, hcut.rest, ?_, ?_⟩
  · intro hall
    by_contra hne
    rw [if_neg hne, hall, List.take_length, Query.utf8Error_utf8 rest hrest] at herror
    cases herror
  · unfold textChunk
    rw [hrealign]
    dsimp only
    have hbytes : (chunkOf rest size offset count).bytes = rest.take count := rfl
    rw [hbytes, herror]
    by_cases hstop : stop = count
    · rw [if_pos hstop, if_pos hstop]
    · rw [if_neg hstop, if_neg hstop]
      dsimp only
      have hlength : ((rest.take count).take stop).length = stop := by
        rw [List.length_take, List.length_take]
        omega
      have htake : (rest.take count).take stop = rest.take stop := by
        rw [List.take_take, Nat.min_eq_left hle]
      have hnext : (chunkOf rest size offset count).nextOffset.isSome = true ↔
          offset + count < size := by
        unfold chunkOf
        dsimp only
        split
        · simp_all
        · simp_all
      simp only [hnext, Option.isNone_none, true_and]
      split
      · dsimp only [chunkOf]
        rw [hlength, htake]
        rfl
      · rfl

theorem Opened.cuts_text (opened : Opened) (member : Str) (limit : Nat) (hlimit : 4 ≤ limit)
    (hreaches : opened.Reaches) : Cuts opened.yields MemberChunk.bytes MemberChunk.offset
      (fun offset => opened.readText member offset limit) MemberChunk.nextOffset
      (fun offset => offset ≤ opened.yields.length ∧ IsUtf8 (opened.yields.drop offset))
      (fun chunk => IsUtf8 chunk.bytes) opened.PastCap where
  within offset h := h.1
  reads offset h := by
    obtain ⟨hoffset, hutf8⟩ := h
    unfold readText
    rw [opened.read_eq offset limit hoffset]
    split
    · rename_i hcap
      exact Or.inl ⟨_, rfl, .of_refused hoffset hcap⟩
    · rename_i hcap
      have hcount := opened.count_le offset limit hoffset
      have hpos := opened.count_pos offset limit hlimit hreaches hoffset hcap
      have hsize := opened.yields_le
      generalize opened.count offset limit = count at *
      obtain ⟨stop, hle, hshort, hfront, hrest, hall, hchunk⟩ := textChunk_chunkOf member
        (opened.yields.drop offset) hutf8 opened.size offset count
        (by rw [List.length_drop]; omega)
      rw [List.drop_drop] at hrest
      rw [List.length_drop] at hall
      right
      by_cases hstop : stop = count
      · rw [if_pos hstop] at hchunk
        rw [hstop] at hfront hrest
        refine ⟨_, count, hchunk, hfront, rfl, hcount, rfl, ?_⟩
        rcases chunkOf_next opened (opened.yields.drop offset) offset _ hcount
            (fun hlt => (hpos hlt).1) with hlast | ⟨hnext, hlt⟩
        · exact Or.inl hlast
        · exact Or.inr ⟨hnext, hlt, hcount, hrest⟩
      · have hlt : offset + count < opened.yields.length := by
          have hne : count ≠ opened.yields.length - offset := fun heq => hstop (hall heq)
          omega
        have hfour := (hpos (by omega)).2 (by omega)
        rw [if_neg hstop, if_pos ⟨by omega, by omega⟩] at hchunk
        refine ⟨_, stop, hchunk, hfront, rfl, by omega, rfl, Or.inr ⟨?_, by omega, by omega, hrest⟩⟩
        exact if_pos (by omega)

theorem Opened.chunkOf_bytes (opened : Opened) (offset count : Nat)
    (h : offset + count ≤ opened.yields.length) :
    chunkOf (opened.yields.drop offset) opened.size offset count =
      chunkOf (opened.bytes.drop offset) opened.size offset count := by
  obtain ⟨rest, hrest⟩ := opened.start
  unfold chunkOf
  rw [← hrest, List.drop_append_of_le_length (by omega),
    List.take_append_of_le_length (by rw [List.length_drop]; omega)]

theorem Opened.not_pagedBy_text (opened : Opened) (member : Str) (limit : Nat)
    (h : ¬ opened.Reaches) (hutf8 : IsUtf8 opened.bytes) (Good : MemberChunk → Prop) :
    ¬ opened.PagedBy (fun offset => opened.readText member offset limit) Good := by
  intro hpaged
  obtain ⟨pages, err, hpaged, _, _, _, _, hpast⟩ := hpaged
  have hshort := (opened.not_reaches_iff.mp h).1
  have hstep : ∀ offset, offset ≤ opened.yields.length → IsUtf8 (opened.bytes.drop offset) →
      opened.readText member offset limit = .error (.binaryMember member) ∨
      ∃ page after, opened.readText member offset limit = .ok page ∧ page.nextOffset = some after ∧
        after ≤ opened.yields.length ∧ IsUtf8 (opened.bytes.drop after) := by
    intro offset hoffset hrest
    have hcount := opened.count_le offset limit hoffset
    have hbytes := opened.start.length_le
    unfold readText
    rw [opened.read_stuck limit h offset hoffset, opened.chunkOf_bytes offset _ hcount]
    generalize opened.count offset limit = count at *
    obtain ⟨stop, hle, _, _, hafter, _, hchunk⟩ := textChunk_chunkOf member
      (opened.bytes.drop offset) hrest opened.size offset count (by rw [List.length_drop]; omega)
    rw [List.drop_drop] at hafter
    by_cases hstop : stop = count
    · rw [if_pos hstop] at hchunk
      rw [hstop] at hafter
      exact Or.inr ⟨_, offset + count, hchunk, if_pos (by omega), hcount, hafter⟩
    · rw [if_neg hstop] at hchunk
      by_cases hzero : 0 < stop
      · rw [if_pos ⟨by omega, hzero⟩] at hchunk
        exact Or.inr ⟨_, offset + stop, hchunk, if_pos (by omega), by omega, hafter⟩
      · rw [if_neg fun hboth => hzero hboth.2] at hchunk
        exact Or.inl hchunk
  obtain ⟨fault, hfault, hbinary⟩ := hpaged.stuck
    (fun offset => offset ≤ opened.yields.length ∧ IsUtf8 (opened.bytes.drop offset))
    (fun fault => fault = .binaryMember member) ⟨Nat.zero_le _, hutf8⟩
    (fun offset page hinv hread => by
      rcases hstep offset hinv.1 hinv.2 with hfailed | ⟨page', after, hread', hnext, hafter⟩
      · rw [hfailed] at hread
        cases hread
      · rw [hread', Except.ok.injEq] at hread
        rw [← hread]
        exact ⟨after, hnext, hafter⟩)
    fun offset err hinv hread => by
      rcases hstep offset hinv.1 hinv.2 with hfailed | ⟨page', after, hread', _⟩
      · rw [hfailed, Except.error.injEq] at hread
        exact hread.symm
      · rw [hread'] at hread
        cases hread
  obtain ⟨offset, _, _, hrange⟩ := hpast fault (by rw [hfault]; rfl)
  rw [hbinary] at hrange
  cases hrange

theorem Opened.pagedBy_text_iff (opened : Opened) (member : Str) (limit : Nat) (hlimit : 4 ≤ limit)
    (hutf8 : IsUtf8 opened.bytes) :
    opened.PagedBy (fun offset => opened.readText member offset limit)
      (fun chunk => IsUtf8 chunk.bytes) ↔ opened.Reaches := by
  constructor
  · intro h
    by_contra hnot
    exact opened.not_pagedBy_text member limit hnot hutf8 _ h
  · intro h
    refine opened.pagedBy_of_cuts
      (fun offset => offset ≤ opened.yields.length ∧ IsUtf8 (opened.yields.drop offset))
      ⟨Nat.zero_le _, ?_⟩ (opened.cuts_text member limit hlimit h)
    rw [List.drop_zero, h.yields_eq]
    exact hutf8

/-- Chunks of a member, and text chunks of a member that is a text, are paged through when
the reader gives all that is declared or passes the cap, and never otherwise. -/
theorem member_paged_iff (filename member : Str) (archive : Readers) (opened : Opened)
    (h : openMember filename archive member = some opened) (limit : Nat) (hlimit : 4 ≤ limit) :
    (opened.PagedBy (fun offset => readMemberChunk filename archive member offset limit)
        (fun _ => True) ↔ opened.Reaches) ∧
      (isPreviewableMember member = true → IsUtf8 opened.bytes →
        (opened.PagedBy (fun offset => readTextMemberChunk (.ok (filename, archive)) member offset limit)
          (fun chunk => IsUtf8 chunk.bytes) ↔ opened.Reaches)) := by
  constructor
  · simp only [readMemberChunk_opened h]
    exact opened.pagedBy_bytes_iff limit hlimit
  · intro htext hutf8
    simp only [readTextMemberChunk_opened h htext]
    exact opened.pagedBy_text_iff member limit hlimit hutf8

def notesEntry : TarEntry where
  size := 2
  bytes := str "hi"
  within := by decide
  path := str "notes.txt"
  isFile := true
  start := 512

/-- A tar with one short text, and the same text as the zip crate would find it. -/
def notesArchive : Readers where
  zip := .error []
  tar := [.ok notesEntry]
  tarGz := []

theorem notes_paged : notesEntry.opened.PagedBy
    (fun offset => readTextMemberChunk (.ok (str "a.tar", notesArchive)) (str "notes.txt") offset 4)
    (fun chunk => IsUtf8 chunk.bytes) :=
  ((member_paged_iff (str "a.tar") (str "notes.txt") notesArchive notesEntry.opened
    (by rfl) 4 (by decide)).2 (by decide) (by decide)).mpr (Or.inl (by decide))

/-- A text of 600 bytes whose data begins 512 bytes before the cap. -/
def lateEntry : TarEntry where
  size := 600
  bytes := List.replicate 600 0x61
  within := by rw [List.length_replicate]
  path := str "late.txt"
  isFile := true
  start := maxDecompressedInspectBytes - 512

def lateArchive : Readers where
  zip := .error []
  tar := [.ok lateEntry]
  tarGz := []

theorem late_text_never_ends :
    openMember (str "big.tar") lateArchive (str "late.txt") = some lateEntry.opened ∧
      ¬ lateEntry.opened.PagedBy
        (fun offset => readMemberChunk (str "big.tar") lateArchive (str "late.txt") offset 256)
        (fun _ => True) ∧
      ¬ lateEntry.opened.PagedBy
        (fun offset => readTextMemberChunk (.ok (str "big.tar", lateArchive)) (str "late.txt") offset 256)
        (fun chunk => IsUtf8 chunk.bytes) := by
  have hopen : openMember (str "big.tar") lateArchive (str "late.txt") = some lateEntry.opened := rfl
  have hyields : lateEntry.opened.yields.length = 512 := by
    change (lateEntry.bytes.take _).length = 512
    rw [List.length_take, show lateEntry.bytes.length = 600 from List.length_replicate]
    rfl
  have hstuck : ¬ lateEntry.opened.Reaches := by
    rw [Opened.not_reaches_iff, hyields]
    exact ⟨by decide, nofun⟩
  refine ⟨hopen, ?_, ?_⟩
  · simp only [readMemberChunk_opened hopen]
    exact lateEntry.opened.not_pagedBy_bytes 256 hstuck _
  · simp only [readTextMemberChunk_opened hopen (by decide)]
    refine lateEntry.opened.not_pagedBy_text (str "late.txt") 256 hstuck ?_ _
    apply isUtf8_ascii
    intro byte hbyte
    rw [List.eq_of_mem_replicate hbyte]
    decide

end Peryx.Archive
