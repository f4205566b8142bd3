import Mathlib.Data.List.DropRight
import Mathlib.Data.List.Infix
import Std.Data.ExtTreeMap.Lemmas

/-!
# Text as UTF-8 bytes

A Rust `str` is its UTF-8 bytes: comparisons, prefixes and the patterns of the
access model all work on bytes. The operations below are the standard library
calls the sources make on them, under the library's names.
-/

namespace Peryx

/-- A `str` or `String` of the sources: its UTF-8 bytes. -/
abbrev Str := List UInt8

instance : LawfulBEq Str := inferInstanceAs (LawfulBEq (List UInt8))

instance : Std.TransOrd Str := inferInstanceAs (Std.TransOrd (List UInt8))

instance : Std.LawfulEqOrd Str := inferInstanceAs (Std.LawfulEqOrd (List UInt8))

def str (s : String) : Str := s.toUTF8.data.toList

namespace Str

theorem forall_of_all {α : Type} {holds : α → Prop} [DecidablePred holds] {items : List α}
    (h : (items.all fun item => decide (holds item)) = true) : ∀ item ∈ items, holds item := by
  simpa using h

def stripPrefix (subject start : Str) : Option Str := start.isPrefixOf? subject

@[simp] theorem stripPrefix_eq_some (subject start rest : Str) :
    stripPrefix subject start = some rest ↔ subject = start ++ rest := by
  unfold stripPrefix
  rw [List.isPrefixOf?_eq_some_iff_append_eq]
  exact eq_comm

def startsWith (subject start : Str) : Bool := start.isPrefixOf subject

@[simp] theorem startsWith_iff (subject start : Str) :
    startsWith subject start = true ↔ start <+: subject :=
  List.isPrefixOf_iff_prefix

def contains (subject needle : Str) : Bool := subject.tails.any fun tail => startsWith tail needle

def splitOnce (separator : UInt8) : Str → Option (Str × Str)
  | [] => none
  | byte :: rest =>
    if byte = separator then some ([], rest)
    else (splitOnce separator rest).map fun (before, after) => (byte :: before, after)

theorem mem_intercalate (separator byte : UInt8) (segments : List Str)
    (h : byte ∈ [separator].intercalate segments) :
    byte = separator ∨ ∃ segment ∈ segments, byte ∈ segment := by
  induction segments with
  | nil => simp at h
  | cons segment segments ih =>
    cases segments with
    | nil =>
      rw [List.intercalate_singleton] at h
      exact Or.inr ⟨segment, List.mem_singleton_self _, h⟩
    | cons next segments =>
      rw [List.intercalate_cons_cons, List.mem_append, List.mem_append, List.mem_singleton] at h
      rcases h with (h | h) | h
      · exact Or.inr ⟨segment, List.mem_cons_self, h⟩
      · exact Or.inl h
      · exact (ih h).imp id fun ⟨s, hs, hb⟩ => ⟨s, List.mem_cons_of_mem _ hs, hb⟩

theorem mem_intercalate_of_mem (separator : UInt8) (segments : List Str) (segment : Str)
    (h : segment ∈ segments) (byte : UInt8) (hbyte : byte ∈ segment) :
    byte ∈ [separator].intercalate segments := by
  induction segments with
  | nil => cases h
  | cons first segments ih =>
    cases segments with
    | nil =>
      rw [List.mem_singleton.mp h] at hbyte
      rw [List.intercalate_singleton]
      exact hbyte
    | cons next segments =>
      rw [List.intercalate_cons_cons, List.mem_append]
      rcases List.mem_cons.mp h with rfl | h
      · exact .inl (List.mem_append_left _ hbyte)
      · exact .inr (ih h)

theorem splitOnce_eq_some (separator : UInt8) (subject before after : Str)
    (h : splitOnce separator subject = some (before, after)) :
    subject = before ++ separator :: after := by
  induction subject generalizing before with
  | nil => cases h
  | cons byte rest ih =>
    by_cases hb : byte = separator
    · simp only [splitOnce, hb, if_true, Option.some.injEq, Prod.mk.injEq] at h
      obtain ⟨rfl, rfl⟩ := h
      rw [hb, List.nil_append]
    · simp only [splitOnce, hb, if_false, Option.map_eq_some_iff, Prod.mk.injEq] at h
      obtain ⟨⟨b, a⟩, hs, rfl, rfl⟩ := h
      rw [ih b hs, List.cons_append]

theorem splitOnce_not_mem (separator : UInt8) (subject before after : Str)
    (h : splitOnce separator subject = some (before, after)) : separator ∉ before := by
  induction subject generalizing before with
  | nil => cases h
  | cons byte rest ih =>
    unfold splitOnce at h
    split at h
    · cases h
      exact List.not_mem_nil
    · rename_i hne
      obtain ⟨⟨b, a⟩, hs, hpair⟩ := Option.map_eq_some_iff.mp h
      cases hpair
      rw [List.mem_cons, not_or]
      exact ⟨Ne.symm hne, ih b hs⟩

theorem splitOnce_append (separator : UInt8) (before after : Str) (h : separator ∉ before) :
    splitOnce separator (before ++ separator :: after) = some (before, after) := by
  induction before with
  | nil => simp [splitOnce]
  | cons byte before ih =>
    rw [List.mem_cons, not_or] at h
    rw [List.cons_append, splitOnce, if_neg (Ne.symm h.1), ih h.2]
    rfl

theorem splitOnce_eq_none (separator : UInt8) (subject : Str) :
    splitOnce separator subject = none ↔ separator ∉ subject := by
  induction subject with
  | nil => exact iff_of_true rfl List.not_mem_nil
  | cons byte rest ih =>
    rw [List.mem_cons, not_or, splitOnce]
    by_cases hbyte : byte = separator
    · rw [if_pos hbyte]
      exact iff_of_false nofun fun h => h.1 hbyte.symm
    · rw [if_neg hbyte, Option.map_eq_none_iff, ih]
      exact ⟨fun h => ⟨Ne.symm hbyte, h⟩, fun h => h.2⟩

/-- `str::split` at a one-byte separator. -/
def split (separator : UInt8) (subject : Str) : List Str := subject.splitOn separator

theorem mem_of_split (separator byte : UInt8) (subject : Str) (h : byte ∈ subject) :
    byte = separator ∨ ∃ segment ∈ split separator subject, byte ∈ segment := by
  have hjoin : [separator].intercalate (subject.splitOn separator) = subject :=
    List.intercalate_splitOn separator
  rw [← hjoin] at h
  exact mem_intercalate separator byte _ h

theorem mem_of_mem_split (separator : UInt8) (subject segment : Str)
    (h : segment ∈ split separator subject) (byte : UInt8) (hbyte : byte ∈ segment) :
    byte ∈ subject := by
  have hjoin : [separator].intercalate (subject.splitOn separator) = subject :=
    List.intercalate_splitOn separator
  rw [← hjoin]
  exact mem_intercalate_of_mem separator _ segment h byte hbyte

def asciiLower (byte : UInt8) : UInt8 :=
  if 0x41 ≤ byte ∧ byte ≤ 0x5A then byte + 0x20 else byte

def eqIgnoreAsciiCase (a b : Str) : Bool := a.map asciiLower == b.map asciiLower

def isAsciiSpace (byte : UInt8) : Bool := (0x09 ≤ byte && byte ≤ 0x0D) || byte == 0x20

def trimAscii (subject : Str) : Str :=
  ((subject.dropWhile isAsciiSpace).reverse.dropWhile isAsciiSpace).reverse

def stripSuffix (subject ending : Str) : Option Str :=
  if ending.isSuffixOf subject then some (subject.take (subject.length - ending.length)) else none

theorem stripSuffix_eq_some (subject ending base : Str) (h : stripSuffix subject ending = some base) :
    subject = base ++ ending := by
  unfold stripSuffix at h
  split at h
  · rename_i hs
    obtain ⟨front, hfront⟩ := List.isSuffixOf_iff_suffix.mp hs
    rw [Option.some.injEq] at h
    rw [← h, ← hfront]
    simp
  · cases h

def endsWith (subject ending : Str) : Bool := ending.isSuffixOf subject

/-- `str::trim_start_matches` of a one-byte pattern. -/
def trimStart (byte : UInt8) (subject : Str) : Str := subject.dropWhile (· == byte)

def trimEnd (byte : UInt8) (subject : Str) : Str := subject.rdropWhile (· == byte)

def trimMatches (byte : UInt8) (subject : Str) : Str := trimEnd byte (trimStart byte subject)

theorem trimEnd_append (byte : UInt8) (subject : Str) :
    ∃ rest, subject = trimEnd byte subject ++ rest ∧ ∀ b ∈ rest, b = byte := by
  refine ⟨subject.rtakeWhile (· == byte), ?_, ?_⟩
  · unfold trimEnd List.rdropWhile List.rtakeWhile
    rw [← List.reverse_append, List.takeWhile_append_dropWhile, List.reverse_reverse]
  · intro b hb
    have := List.mem_rtakeWhile_imp hb
    simpa using this

def isContinuation (byte : UInt8) : Bool := 0x80 ≤ byte && byte < 0xC0

def chars : Str → List Str
  | [] => []
  | byte :: rest =>
    match chars rest with
    | (next :: tail) :: groups =>
      if 0x80 ≤ byte ∧ isContinuation next then (byte :: next :: tail) :: groups
      else [byte] :: (next :: tail) :: groups
    | groups => [byte] :: groups

def IsChar (ch : Str) : Prop :=
  (∃ byte : UInt8, ch = [byte] ∧ byte < 0x80) ∨ ∀ byte ∈ ch, (0x80 : UInt8) ≤ byte

theorem chars_isChar (subject : Str) : ∀ ch ∈ chars subject, IsChar ch := by
  have hsingle : ∀ byte : UInt8, IsChar [byte] := by
    intro byte
    by_cases hb : byte < 0x80
    · exact Or.inl ⟨byte, rfl, hb⟩
    · refine Or.inr fun b hmem => ?_
      rw [List.mem_singleton.mp hmem]
      exact UInt8.not_lt.mp hb
  induction subject with
  | nil => nofun
  | cons byte rest ih =>
    intro ch hch
    unfold chars at hch
    split at hch
    · rename_i next tail groups hrest
      have hnext := ih (next :: tail) (by rw [hrest]; exact List.mem_cons_self)
      split at hch
      · rename_i hjoin
        rcases List.mem_cons.mp hch with rfl | hmem
        · rcases hnext with ⟨single, hsingle, hlt⟩ | hall
          · -- a continuation byte is not ASCII
            cases hsingle
            have hcont := hjoin.2
            simp only [isContinuation, Bool.and_eq_true, decide_eq_true_eq] at hcont
            exact absurd hlt (UInt8.not_lt.mpr hcont.1)
          · refine Or.inr fun b hb => ?_
            rcases List.mem_cons.mp hb with rfl | hb
            · exact hjoin.1
            · exact hall b hb
        · exact ih ch (by rw [hrest]; exact List.mem_cons_of_mem _ hmem)
      · rcases List.mem_cons.mp hch with rfl | hmem
        · exact hsingle byte
        · exact ih ch (by rw [hrest]; exact hmem)
    · rcases List.mem_cons.mp hch with rfl | hmem
      · exact hsingle byte
      · exact ih ch hmem

theorem chars_flatten (subject : Str) : (chars subject).flatten = subject := by
  induction subject with
  | nil => rfl
  | cons byte rest ih =>
    unfold chars
    split
    · rename_i next tail groups hrest
      rw [hrest] at ih
      split
      · rw [List.flatten_cons, List.cons_append, ← List.flatten_cons, ih]
      · rw [List.flatten_cons, ih]
        rfl
    · rw [List.flatten_cons, ih]
      rfl

def isControl : Str → Bool
  | [byte] => byte < 0x20 || byte == 0x7F
  | [lead, byte] => lead == 0xC2 && 0x80 ≤ byte && byte < 0xA0
  | _ => false

def fromUtf8 (bytes : List UInt8) : Option Str :=
  if (ByteArray.mk bytes.toArray).validateUTF8 then some bytes else none

end Str
end Peryx
