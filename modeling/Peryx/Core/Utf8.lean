import Mathlib.Data.Nat.Digits.Lemmas
import Peryx.Core.Text

/-!
# Bytes that are a text

`String::from_utf8` of the sources takes bytes that are a text and refuses the others.
-/

namespace Peryx.Str

/-- What `String::from_utf8` accepts. -/
def IsUtf8 (bytes : Str) : Prop := fromUtf8 bytes = some bytes

instance : DecidablePred IsUtf8 := fun _ => inferInstanceAs (Decidable (_ = _))

theorem fromUtf8_eq_some (bytes text : Str) :
    fromUtf8 bytes = some text ↔ IsUtf8 bytes ∧ bytes = text := by
  unfold IsUtf8 fromUtf8
  split <;> simp

theorem isUtf8_iff (bytes : Str) :
    IsUtf8 bytes ↔ (ByteArray.mk bytes.toArray).IsValidUTF8 := by
  unfold IsUtf8 fromUtf8
  rw [← ByteArray.validateUTF8_eq_true_iff]
  split <;> simp_all

theorem mk_append (a b : Str) : ByteArray.mk (a ++ b).toArray =
    ByteArray.mk a.toArray ++ ByteArray.mk b.toArray := by
  apply ByteArray.ext
  simp

theorem IsUtf8.append {a b : Str} (ha : IsUtf8 a) (hb : IsUtf8 b) : IsUtf8 (a ++ b) := by
  rw [isUtf8_iff, mk_append]
  exact ((isUtf8_iff a).mp ha).append ((isUtf8_iff b).mp hb)

theorem isUtf8_str (s : String) : IsUtf8 (str s) := by
  rw [isUtf8_iff]
  unfold str
  rw [Array.toArray_toList]
  exact s.isValidUTF8

theorem isUtf8_ascii (bytes : Str) (h : ∀ byte ∈ bytes, byte < 0x80) : IsUtf8 bytes := by
  have hall : ∀ n < 128, IsUtf8 [UInt8.ofNat n] := by decide
  induction bytes with
  | nil => decide
  | cons byte bytes ih =>
    have hbyte := hall byte.toNat (UInt8.lt_iff_toNat_lt.mp (h byte List.mem_cons_self))
    rw [UInt8.ofNat_toNat] at hbyte
    exact hbyte.append (ih fun b hb => h b (List.mem_cons_of_mem _ hb))

theorem isUTF8FirstByte_ascii (byte : UInt8) (h : byte < 0x80) : byte.IsUTF8FirstByte := by
  have hall : ∀ n < 128, UInt8.ofNat n &&& 0x80 = 0 := by decide
  have hlow := hall byte.toNat (UInt8.lt_iff_toNat_lt.mp h)
  rw [UInt8.ofNat_toNat] at hlow
  exact Or.inl hlow

theorem isUtf8_split_ascii (front rest : Str) (byte : UInt8) (hbyte : byte < 0x80)
    (h : IsUtf8 (front ++ byte :: rest)) : IsUtf8 front ∧ IsUtf8 (byte :: rest) := by
  let whole : String := ⟨_, (isUtf8_iff _).mp h⟩
  let cut : String.Pos.Raw := ⟨front.length⟩
  have hbytes : whole.toByteArray = ByteArray.mk front.toArray ++ ByteArray.mk (byte :: rest).toArray :=
    mk_append front (byte :: rest)
  have hvalid : cut.IsValid whole := by
    refine String.Pos.Raw.isValid_iff_isUTF8FirstByte.mpr (Or.inr ⟨?_, ?_⟩)
    · simp [cut, whole, String.Pos.Raw.lt_iff, String.rawEndPos, String.utf8ByteSize, ByteArray.size]
    · have hget : whole.getUTF8Byte cut (by
          simp [cut, whole, String.Pos.Raw.lt_iff, String.rawEndPos, String.utf8ByteSize,
            ByteArray.size]) = byte := by
        simp [String.getUTF8Byte, cut, whole, ByteArray.getElem_eq_getElem_data]
      rw [hget]
      exact isUTF8FirstByte_ascii byte hbyte
  have hfront := hvalid.isValidUTF8_extract_zero
  have hrest := hvalid.isValidUTF8_extract_utf8ByteSize
  constructor
  · rw [isUtf8_iff]
    have : whole.toByteArray.extract 0 cut.byteIdx = ByteArray.mk front.toArray := by
      apply ByteArray.ext
      simp [cut, whole]
    rwa [this] at hfront
  · rw [isUtf8_iff]
    have : whole.toByteArray.extract cut.byteIdx whole.utf8ByteSize =
        ByteArray.mk (byte :: rest).toArray := by
      apply ByteArray.ext
      simp [cut, whole, String.utf8ByteSize, ByteArray.size]
    rwa [this] at hrest

def parseU64 (subject : Str) : Option Nat :=
  let digits := (stripPrefix subject [0x2B]).getD subject
  let value := Nat.ofDigits 10 (digits.reverse.map fun byte => byte.toNat - 0x30)
  if digits ≠ [] ∧ digits.all (fun byte => 0x30 ≤ byte && byte ≤ 0x39) ∧ value < 2 ^ 64 then some value
  else none

def decimal (n : Nat) : Str :=
  if n = 0 then [0x30] else ((Nat.digits 10 n).map fun digit => UInt8.ofNat (0x30 + digit)).reverse

theorem isDigit_of_lt_ten (digit : Nat) (h : digit < 10) :
    (0x30 ≤ UInt8.ofNat (0x30 + digit) ∧ UInt8.ofNat (0x30 + digit) ≤ 0x39) ∧
      (UInt8.ofNat (0x30 + digit)).toNat - 0x30 = digit := by
  have hall : ∀ digit < 10, (0x30 ≤ UInt8.ofNat (0x30 + digit) ∧ UInt8.ofNat (0x30 + digit) ≤ 0x39) ∧
      (UInt8.ofNat (0x30 + digit)).toNat - 0x30 = digit := by decide
  exact hall digit h

theorem decimal_digits (n : Nat) : decimal n ≠ [] ∧ ∀ byte ∈ decimal n, 0x30 ≤ byte ∧ byte ≤ 0x39 := by
  unfold decimal
  split
  · exact ⟨by decide, Str.forall_of_all (by decide)⟩
  · rename_i hn
    refine ⟨by simpa [Nat.digits_eq_nil_iff_eq_zero] using hn, fun byte hbyte => ?_⟩
    rw [List.mem_reverse, List.mem_map] at hbyte
    obtain ⟨digit, hdigit, rfl⟩ := hbyte
    exact (isDigit_of_lt_ten digit (Nat.digits_lt_base (by decide) hdigit)).1

theorem ofDigits_decimal (n : Nat) :
    Nat.ofDigits 10 ((decimal n).reverse.map fun byte => byte.toNat - 0x30) = n := by
  unfold decimal
  split
  · rename_i hn
    rw [hn]
    rfl
  · rw [List.reverse_reverse, List.map_map]
    have hback : (Nat.digits 10 n).map ((fun byte : UInt8 => byte.toNat - 0x30) ∘
        fun digit => UInt8.ofNat (0x30 + digit)) = Nat.digits 10 n := by
      refine (List.map_congr_left fun digit hdigit => ?_).trans (List.map_id _)
      exact (isDigit_of_lt_ten digit (Nat.digits_lt_base (by decide) hdigit)).2
    rw [hback, Nat.ofDigits_digits]

theorem parseU64_decimal (n : Nat) (h : n < 2 ^ 64) : parseU64 (decimal n) = some n := by
  obtain ⟨hne, hdigits⟩ := decimal_digits n
  have hplus : stripPrefix (decimal n) [0x2B] = none := by
    cases hs : stripPrefix (decimal n) [0x2B] with
    | none => rfl
    | some rest =>
      have heq := (stripPrefix_eq_some (decimal n) [0x2B] rest).mp hs
      have hmem := hdigits 0x2B (by rw [heq]; exact List.mem_cons_self)
      exact absurd hmem.1 (by decide)
  have hall : (decimal n).all (fun byte => 0x30 ≤ byte && byte ≤ 0x39) = true := by
    rw [List.all_eq_true]
    intro byte hbyte
    rw [Bool.and_eq_true, decide_eq_true_eq, decide_eq_true_eq]
    exact hdigits byte hbyte
  unfold parseU64
  simp only [hplus, Option.getD_none, ofDigits_decimal]
  exact if_pos ⟨hne, hall, h⟩

theorem str_toString (n : Nat) :
    str (toString n) = (Nat.toDigits 10 n).flatMap String.utf8EncodeChar := by
  rw [Nat.toString_eq_ofList_toDigits]
  show (String.ofList (Nat.toDigits 10 n)).toByteArray.data.toList = _
  rw [String.toByteArray_ofList]
  unfold List.utf8Encode
  simp

theorem utf8EncodeChar_digit (c : Char) (h : c.isDigit) :
    String.utf8EncodeChar c = [UInt8.ofNat c.toNat] ∧
      (UInt8.ofNat c.toNat).toNat = c.toNat ∧ UInt8.ofNat c.toNat ≠ 0x2F := by
  have hall : ∀ n < 0x3A, 0x30 ≤ n → String.utf8EncodeChar (Char.ofNat n) = [UInt8.ofNat n] ∧
      (UInt8.ofNat n).toNat = n ∧ UInt8.ofNat n ≠ 0x2F := by decide
  simp only [Char.isDigit, Bool.and_eq_true, decide_eq_true_eq] at h
  have hlow : 0x30 ≤ c.toNat := h.1
  have hhigh : c.toNat ≤ 0x39 := h.2
  have hdigit := hall c.toNat (by omega) hlow
  rw [Char.ofNat_toNat] at hdigit
  exact hdigit

theorem flatMap_digits (digits : List Char) (h : ∀ c ∈ digits, c.isDigit) :
    digits.flatMap String.utf8EncodeChar = digits.map fun c => UInt8.ofNat c.toNat := by
  induction digits with
  | nil => rfl
  | cons c digits ih =>
    rw [List.flatMap_cons, (utf8EncodeChar_digit c (h c List.mem_cons_self)).1,
      ih fun d hd => h d (List.mem_cons_of_mem _ hd)]
    rfl

theorem toDigits_isDigit (n : Nat) : ∀ c ∈ Nat.toDigits 10 n, c.isDigit :=
  fun _ hc => Nat.isDigit_of_mem_toDigits (by decide) (by decide) hc

theorem str_toString_eq_decimal (n : Nat) : str (toString n) = decimal n := by
  have hdigit : ∀ digit < 10, UInt8.ofNat (Nat.digitChar digit).toNat = UInt8.ofNat (0x30 + digit) :=
    fun digit hlt => congrArg UInt8.ofNat (Nat.toNat_digitChar_of_lt_ten hlt)
  rw [str_toString, flatMap_digits _ (toDigits_isDigit n)]
  induction n using Nat.strongRecOn with
  | ind n ih =>
    rcases Nat.lt_or_ge n 10 with hsmall | hlarge
    · rw [Nat.toDigits_of_lt_base hsmall, List.map_singleton, hdigit n hsmall]
      unfold decimal
      split
      · rename_i hzero
        rw [hzero]
        rfl
      · rename_i hzero
        rw [Nat.digits_of_lt 10 n hzero hsmall]
        rfl
    · have hdiv : n / 10 ≠ 0 := by omega
      have hdigits : Nat.digits 10 n = n % 10 :: Nat.digits 10 (n / 10) :=
        Nat.digits_def' (by decide) (by omega)
      rw [Nat.toDigits_of_base_le (by decide) hlarge, List.map_append, List.map_singleton,
        hdigit _ (Nat.mod_lt n (by decide)), ih (n / 10) (by omega)]
      unfold decimal
      rw [if_neg hdiv, if_neg (by omega), hdigits, List.map_cons, List.reverse_cons]

end Peryx.Str
