import Peryx.Core.Json
import Peryx.Core.Numeral

/-! # The compact writer of JSON texts (serde_json::to_vec) -/

namespace Peryx.Json
open Numeral

def escapeByte (byte : UInt8) : Str :=
  if byte = 0x22 ∨ byte = 0x5C then [0x5C, byte]
  else if byte = 0x08 then str "\\b"
  else if byte = 0x09 then str "\\t"
  else if byte = 0x0A then str "\\n"
  else if byte = 0x0C then str "\\f"
  else if byte = 0x0D then str "\\r"
  else if byte < 0x20 then
    [0x5C, 0x75, 0x30, 0x30, digitByte (byte.toNat / 16), digitByte (byte.toNat % 16)]
  else [byte]

def escape (value : Str) : Str := value.flatMap escapeByte

mutual

def write : Json → Str
  | null => str "null"
  | bool value => if value then str "true" else str "false"
  | number text => text
  | string value => quote (escape value)
  | array items => 0x5B :: (writeItems items ++ [0x5D])
  | object members => 0x7B :: (writeMembers members ++ [0x7D])

def writeItems : List Json → Str
  | [] => []
  | item :: items => item.write ++ if items.isEmpty then [] else 0x2C :: writeItems items

def writeMembers : List (Str × Json) → Str
  | [] => []
  | member :: members =>
    quote (escape member.1) ++ 0x3A :: member.2.write ++
      if members.isEmpty then [] else 0x2C :: writeMembers members

end

theorem stringBody_escapeByte (byte : UInt8) (rest : Str) (h : StringBody rest) :
    StringBody (escapeByte byte ++ rest) := by
  have hletters : ∀ letter ∈ escapeLetters, StringBody ([0x5C, letter] ++ rest) :=
    fun letter hletter => .escape letter rest hletter h
  unfold escapeByte
  split
  · rename_i hbyte
    apply hletters
    rcases hbyte with rfl | rfl <;> decide
  · rename_i hplain
    split
    · exact hletters 0x62 (by decide)
    split
    · exact hletters 0x74 (by decide)
    split
    · exact hletters 0x6E (by decide)
    split
    · exact hletters 0x66 (by decide)
    split
    · exact hletters 0x72 (by decide)
    split
    · rename_i hcontrol
      have hdigits : ∀ n < 16, isHexDigit (digitByte n) = true := by decide
      have hlow : byte.toNat < 32 := UInt8.lt_iff_toNat_lt.mp hcontrol
      refine .unicode 0x30 0x30 _ _ rest ?_ h
      simp only [List.forall_mem_cons]
      exact ⟨rfl, rfl, hdigits _ (by omega), hdigits _ (by omega),
        fun _ h => absurd h List.not_mem_nil⟩
    · rename_i hcontrol
      rw [not_or] at hplain
      exact .plain byte rest (UInt8.not_lt.mp hcontrol) hplain.1 hplain.2 h

theorem stringBody_escape (value : Str) : StringBody (escape value) := by
  induction value with
  | nil => exact .nil
  | cons byte value ih => exact stringBody_escapeByte byte _ ih

theorem integer_decimal (n : Nat) : Integer (Str.decimal n) := by
  by_cases hzero : n = 0
  · subst hzero
    exact Or.inl rfl
  · obtain ⟨hne, hdigits⟩ := Str.decimal_digits n
    refine Or.inr ⟨⟨hne, fun byte hbyte => ?_⟩, ?_⟩
    · have hrange := hdigits byte hbyte
      simp [isDigit, hrange.1, hrange.2]
    · -- The first digit is the last of `Nat.digits`, which is not zero.
      have hdigitsne : Nat.digits 10 n ≠ [] := Nat.digits_ne_nil_iff_ne_zero.mpr hzero
      have hlast := Nat.getLast_digit_ne_zero 10 hzero
      have hlt := Nat.digits_lt_base (by decide : 1 < 10) (List.getLast_mem hdigitsne)
      have hbyte : ∀ digit < 10, digit ≠ 0 → UInt8.ofNat (0x30 + digit) ≠ 0x30 := by decide
      unfold Str.decimal
      rw [if_neg hzero, List.head?_reverse, List.getLast?_map, List.getLast?_eq_getLast_of_ne_nil hdigitsne]
      intro heq
      exact hbyte _ hlt hlast (Option.some.inj heq)

theorem number_decimal (n : Nat) : Number (Str.decimal n) := by
  refine ⟨[], List.mem_cons_self, Str.decimal n, [], [], integer_decimal n, Or.inl rfl,
    Or.inl rfl, ?_⟩
  rw [List.nil_append, List.append_nil, List.append_nil]

theorem Ws.nil : Ws [] := fun _ h => absurd h List.not_mem_nil

theorem Text.bare {text : Str} {n : Nat} (h : Text .value text n) : Text .element text n := by
  have helement := Text.element [] text [] n Ws.nil Ws.nil h
  rwa [List.nil_append, List.append_nil] at helement

theorem text_writeItems (items : List Json) (hne : items ≠ [])
    (h : ∀ item ∈ items, Text .value item.write item.nesting) :
    Text .elements (writeItems items) (nestingItems items) := by
  induction items with
  | nil => exact absurd rfl hne
  | cons item items ih =>
    have hitem := (h item List.mem_cons_self).bare
    unfold writeItems nestingItems
    cases items with
    | nil =>
      rw [List.isEmpty_nil, if_pos rfl, List.append_nil]
      unfold nestingItems
      rw [Nat.max_zero]
      exact .lastElement _ _ hitem
    | cons next items =>
      rw [List.isEmpty_cons, if_neg Bool.false_ne_true]
      exact .elements _ _ _ _ hitem (ih (List.cons_ne_nil _ _)
        fun item hitem => h item (List.mem_cons_of_mem _ hitem))

theorem text_writeMembers (members : List (Str × Json)) (hne : members ≠ [])
    (h : ∀ member ∈ members, Text .value member.2.write member.2.nesting) :
    Text .members (writeMembers members) (nestingMembers members) := by
  induction members with
  | nil => exact absurd rfl hne
  | cons member members ih =>
    have hmember : Text .member (quote (escape member.1) ++ 0x3A :: member.2.write)
        member.2.nesting := by
      have htext := Text.member [] (escape member.1) [] _ _ Ws.nil (stringBody_escape member.1)
        Ws.nil (h member List.mem_cons_self).bare
      rwa [List.nil_append, List.nil_append] at htext
    unfold writeMembers nestingMembers
    cases members with
    | nil =>
      rw [List.isEmpty_nil, if_pos rfl, List.append_nil]
      unfold nestingMembers
      rw [Nat.max_zero]
      exact .lastMember _ _ hmember
    | cons next members =>
      rw [List.isEmpty_cons, if_neg Bool.false_ne_true]
      exact .members _ _ _ _ hmember (ih (List.cons_ne_nil _ _)
        fun member hmember => h member (List.mem_cons_of_mem _ hmember))

theorem text_write (value : Json) (h : value.Sound) : Text .value value.write value.nesting := by
  induction h with
  | null =>
    unfold write nesting
    exact .null
  | bool value =>
    unfold write nesting
    cases value with
    | true => exact .true
    | false => exact .false
  | number value _ =>
    unfold write nesting
    exact .number _ (number_decimal value)
  | string value _ =>
    unfold write nesting
    exact .string _ (stringBody_escape value)
  | array items _ ih =>
    unfold write nesting
    cases items with
    | nil => exact .emptyArray [] Ws.nil
    | cons item items => exact .array _ _ (text_writeItems _ (List.cons_ne_nil _ _) ih)
  | object members _ _ ih =>
    unfold write nesting
    cases members with
    | nil => exact .emptyObject [] Ws.nil
    | cons member members => exact .object _ _ (text_writeMembers _ (List.cons_ne_nil _ _) ih)

end Peryx.Json
