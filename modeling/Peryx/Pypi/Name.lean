import Peryx.Core.Text

/-! # Project names (peryx-ecosystem-pypi/src/name.rs) -/

namespace Peryx.Pypi

def isAsciiUppercase (byte : UInt8) : Bool := 0x41 ≤ byte && byte ≤ 0x5A

def isAsciiLowercase (byte : UInt8) : Bool := 0x61 ≤ byte && byte ≤ 0x7A

def isAsciiDigit (byte : UInt8) : Bool := 0x30 ≤ byte && byte ≤ 0x39

def isAsciiAlphanumeric (byte : UInt8) : Bool :=
  isAsciiUppercase byte || isAsciiLowercase byte || isAsciiDigit byte

/-- `char::to_lowercase` beyond ASCII, on the UTF-8 bytes of a character. The Unicode
table is a parameter: the ASCII characters in it are small letters. -/
structure CaseMap where
  lower : Str → Str
  ascii_lower : ∀ ch, (∀ byte ∈ ch, (0x80 : UInt8) ≤ byte) →
    ∀ byte ∈ lower ch, byte < 0x80 → isAsciiLowercase byte = true

def CaseMap.caseless : CaseMap where
  lower := id
  ascii_lower := by
    intro ch hch byte hbyte hlt
    exact absurd hlt (UInt8.not_lt.mpr (hch byte hbyte))

def CaseMap.toLowercase (table : CaseMap) : Str → Str
  | [byte] => if byte < 0x80 then [Str.asciiLower byte] else table.lower [byte]
  | ch => table.lower ch

def isNameSeparator (ch : Str) : Bool := ch == [0x2D] || ch == [0x5F] || ch == [0x2E]

def normalizeChars (table : CaseMap) (inSeparator : Bool) : List Str → Str
  | [] => []
  | ch :: rest =>
    if isNameSeparator ch then
      if inSeparator then normalizeChars table true rest
      else 0x2D :: normalizeChars table true rest
    else table.toLowercase ch ++ normalizeChars table false rest

def normalizeName (table : CaseMap) (name : Str) : Str :=
  normalizeChars table false (Str.chars name)

def isValidName (name : Str) : Bool :=
  name.head?.any isAsciiAlphanumeric && name.getLast?.any isAsciiAlphanumeric &&
    name.all fun byte => isAsciiAlphanumeric byte || byte == 0x2E || byte == 0x5F || byte == 0x2D

def isNameSymbol (byte : UInt8) : Bool :=
  byte < 0x80 && !isAsciiUppercase byte && !isAsciiLowercase byte && byte != 0x2D && byte != 0x5F &&
    byte != 0x2E

theorem asciiLower_symbol (byte : UInt8) :
    [Str.asciiLower byte].filter isNameSymbol = [byte].filter isNameSymbol := by
  by_cases hupper : 0x41 ≤ byte ∧ byte ≤ 0x5A
  · have hsymbol : isNameSymbol byte = false := by
      simp [isNameSymbol, isAsciiUppercase, hupper.1, hupper.2]
    have hlower : isAsciiLowercase (byte + 0x20) = true := by
      obtain ⟨hlow, hhigh⟩ := hupper
      rw [UInt8.le_iff_toNat_le] at hlow hhigh
      have hsum : (byte + 0x20).toNat = byte.toNat + 0x20 := by
        rw [UInt8.toNat_add]
        have : (0x20 : UInt8).toNat = 0x20 := rfl
        have : (0x5A : UInt8).toNat = 0x5A := rfl
        omega
      simp only [isAsciiLowercase, Bool.and_eq_true, decide_eq_true_eq, UInt8.le_iff_toNat_le, hsum]
      have : (0x41 : UInt8).toNat = 0x41 := rfl
      have : (0x5A : UInt8).toNat = 0x5A := rfl
      have : (0x61 : UInt8).toNat = 0x61 := rfl
      have : (0x7A : UInt8).toNat = 0x7A := rfl
      omega
    have hlowered : isNameSymbol (byte + 0x20) = false := by simp [isNameSymbol, hlower]
    simp [Str.asciiLower, hupper, hsymbol, hlowered]
  · rw [Str.asciiLower, if_neg hupper]

theorem toLowercase_symbols (table : CaseMap) (ch : Str) (h : Str.IsChar ch) :
    (table.toLowercase ch).filter isNameSymbol = ch.filter isNameSymbol := by
  have hnone : ∀ l : Str, (∀ byte ∈ l, byte < 0x80 → isAsciiLowercase byte = true) →
      l.filter isNameSymbol = [] := by
    intro l hl
    rw [List.filter_eq_nil_iff]
    intro byte hbyte hsymbol
    simp only [isNameSymbol, Bool.and_eq_true, decide_eq_true_eq, Bool.not_eq_eq_eq_not,
      Bool.not_true] at hsymbol
    have hlower := hl byte hbyte hsymbol.1.1.1.1.1
    rw [hsymbol.1.1.1.2] at hlower
    cases hlower
  rcases h with ⟨byte, rfl, hlt⟩ | hall
  · rw [CaseMap.toLowercase, if_pos hlt]
    exact asciiLower_symbol byte
  · have hlower : table.toLowercase ch = table.lower ch := by
      unfold CaseMap.toLowercase
      split
      · rename_i byte
        rw [if_neg (UInt8.not_lt.mpr (hall byte List.mem_cons_self))]
      · rfl
    rw [hlower, hnone _ (table.ascii_lower ch hall),
      hnone ch fun byte hbyte hlt => absurd hlt (UInt8.not_lt.mpr (hall byte hbyte))]

theorem normalizeChars_symbols (table : CaseMap) (inSeparator : Bool) (groups : List Str)
    (h : ∀ ch ∈ groups, Str.IsChar ch) :
    (normalizeChars table inSeparator groups).filter isNameSymbol =
      groups.flatten.filter isNameSymbol := by
  induction groups generalizing inSeparator with
  | nil => rfl
  | cons ch rest ih =>
    have hrest := fun flag => ih flag fun c hc => h c (List.mem_cons_of_mem _ hc)
    rw [normalizeChars, List.flatten_cons, List.filter_append]
    split
    · rename_i hsep
      have hdrop : ch.filter isNameSymbol = [] := by
        simp only [isNameSeparator, Bool.or_eq_true, beq_iff_eq] at hsep
        rcases hsep with (rfl | rfl) | rfl <;> decide
      have hdash : isNameSymbol 0x2D = false := by decide
      split
      · rw [hrest true, hdrop, List.nil_append]
      · rw [List.filter_cons, hdash, if_neg Bool.false_ne_true, hrest true, hdrop, List.nil_append]
    · rw [List.filter_append, hrest false, toLowercase_symbols table ch (h ch List.mem_cons_self)]

theorem normalizeName_symbols (table : CaseMap) (name : Str) :
    (normalizeName table name).filter isNameSymbol = name.filter isNameSymbol := by
  rw [normalizeName, normalizeChars_symbols table false _ (Str.chars_isChar name),
    Str.chars_flatten]

theorem mem_normalizeName (table : CaseMap) (name : Str) (byte : UInt8)
    (hs : isNameSymbol byte = true) : byte ∈ normalizeName table name ↔ byte ∈ name := by
  have hfilter := normalizeName_symbols table name
  have hmem : ∀ l : Str, byte ∈ l ↔ byte ∈ l.filter isNameSymbol := by
    intro l
    rw [List.mem_filter, and_iff_left hs]
  rw [hmem, hfilter, ← hmem]

example : normalizeName .caseless (str "Flask_.Login") = str "flask-login" := by decide

end Peryx.Pypi
