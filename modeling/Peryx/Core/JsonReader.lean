import Mathlib.Data.List.TakeWhile
import Peryx.Core.JsonWriter

/-! # A reader of JSON texts -/

namespace Peryx.Json
open Numeral

def hexDigit (byte : UInt8) : Option Nat :=
  if isDigit byte then some (byte.toNat - 0x30)
  else if 0x61 ≤ byte ∧ byte ≤ 0x66 then some (byte.toNat - 0x57)
  else if 0x41 ≤ byte ∧ byte ≤ 0x46 then some (byte.toNat - 0x37)
  else none

def codeUnit (a b c d : UInt8) : Option Nat := do
  return (((← hexDigit a) * 16 + (← hexDigit b)) * 16 + (← hexDigit c)) * 16 + (← hexDigit d)

def utf8 (code : Nat) : Str := String.utf8EncodeChar (Char.ofNat code)

def shortEscape (letter : UInt8) : Option UInt8 :=
  if letter = 0x22 ∨ letter = 0x5C ∨ letter = 0x2F then some letter
  else if letter = 0x62 then some 0x08
  else if letter = 0x66 then some 0x0C
  else if letter = 0x6E then some 0x0A
  else if letter = 0x72 then some 0x0D
  else if letter = 0x74 then some 0x09
  else none

def readString : Str → Option (Str × Str)
  | [] => none
  | byte :: rest =>
    if byte = 0x22 then some ([], rest)
    else if byte = 0x5C then
      match rest with
      | 0x75 :: a :: b :: c :: d :: rest =>
        match codeUnit a b c d with
        | none => none
        | some unit =>
          if 0xD800 ≤ unit ∧ unit < 0xDC00 then
            match rest with
            | 0x5C :: 0x75 :: a :: b :: c :: d :: rest =>
              match codeUnit a b c d with
              | none => none
              | some low =>
                if 0xDC00 ≤ low ∧ low < 0xE000 then
                  (readString rest).map fun (value, rest) =>
                    (utf8 (0x10000 + (unit - 0xD800) * 0x400 + (low - 0xDC00)) ++ value, rest)
                else none
            | _ => none
          else if 0xDC00 ≤ unit ∧ unit < 0xE000 then none
          else (readString rest).map fun (value, rest) => (utf8 unit ++ value, rest)
      | letter :: rest =>
        match shortEscape letter with
        | none => none
        | some plain => (readString rest).map fun (value, rest) => (plain :: value, rest)
      | [] => none
    else if byte < 0x20 then none
    else (readString rest).map fun (value, rest) => (byte :: value, rest)

def dropWs (text : Str) : Str := text.dropWhile isWs

def isToken (byte : UInt8) : Bool :=
  isDigit byte || (0x61 ≤ byte && byte ≤ 0x7A) || byte == 0x45 || byte == 0x2B || byte == 0x2D ||
    byte == 0x2E

def literal (token : Str) : Option Json :=
  if token = str "null" then some null
  else if token = str "true" then some (bool true)
  else if token = str "false" then some (bool false)
  else if (Str.parseU64 token).map Str.decimal = some token then some (number token)
  else none

def expect (byte : UInt8) (text : Str) : Option Str :=
  match dropWs text with
  | [] => none
  | first :: rest => if first = byte then some rest else none

mutual

def readValue : Nat → Str → Option (Json × Str)
  | 0, _ => none
  | fuel + 1, text =>
    match expect 0x22 text with
    | some rest => (readString rest).map fun (value, rest) => (string value, rest)
    | none =>
      match expect 0x5B text with
      | some rest =>
        match expect 0x5D rest with
        | some rest => some (array [], rest)
        | none => (readItems fuel rest).map fun (items, rest) => (array items, rest)
      | none =>
        match expect 0x7B text with
        | some rest =>
          match expect 0x7D rest with
          | some rest => some (object [], rest)
          | none => (readMembers fuel rest).map fun (members, rest) => (object members, rest)
        | none =>
          (literal ((dropWs text).takeWhile isToken)).map fun value =>
            (value, (dropWs text).dropWhile isToken)

def readItems : Nat → Str → Option (List Json × Str)
  | 0, _ => none
  | fuel + 1, text => do
    let (item, rest) ← readValue fuel text
    match expect 0x5D rest with
    | some rest => return ([item], rest)
    | none =>
      let (items, rest) ← readItems fuel (← expect 0x2C rest)
      return (item :: items, rest)

def readMembers : Nat → Str → Option (List (Str × Json) × Str)
  | 0, _ => none
  | fuel + 1, text => do
    let (key, rest) ← readString (← expect 0x22 text)
    let (value, rest) ← readValue fuel (← expect 0x3A rest)
    match expect 0x7D rest with
    | some rest => return ([(key, value)], rest)
    | none =>
      let (members, rest) ← readMembers fuel (← expect 0x2C rest)
      return ((key, value) :: members, rest)

end

/-- `serde_json::from_slice`. -/
def read (text : Str) : Option Json := do
  let (value, rest) ← readValue text.length text
  if dropWs rest = [] then some value else none

theorem readString_plain (byte : UInt8) (rest : Str) (hquote : byte ≠ 0x22) (hslash : byte ≠ 0x5C)
    (hcontrol : ¬ byte < 0x20) :
    readString (byte :: rest) = (readString rest).map fun read => (byte :: read.1, read.2) := by
  conv => lhs; unfold readString
  rw [if_neg hquote, if_neg hslash, if_neg hcontrol]

theorem readString_letter (letter plain : UInt8) (rest : Str) (h : shortEscape letter = some plain) :
    readString (0x5C :: letter :: rest) =
      (readString rest).map fun read => (plain :: read.1, read.2) := by
  have hletter : letter ≠ 0x75 := by
    rintro rfl
    cases h
  conv => lhs; unfold readString
  rw [if_neg (by decide), if_pos rfl]
  split
  · rename_i heq
    exact absurd (List.cons.inj heq).1 hletter
  · rename_i heq
    obtain ⟨rfl, rfl⟩ := List.cons.inj heq
    rw [h]
  · rename_i heq
    cases heq

theorem readString_unicode (a b c d : UInt8) (rest : Str) (unit : Nat)
    (h : codeUnit a b c d = some unit) (hunit : unit < 0x80) :
    readString (0x5C :: 0x75 :: a :: b :: c :: d :: rest) =
      (readString rest).map fun read => (utf8 unit ++ read.1, read.2) := by
  conv => lhs; unfold readString
  rw [if_neg (by decide), if_pos rfl]
  simp only [h]
  rw [if_neg (by omega), if_neg (by omega)]

theorem readString_escapeByte (byte : UInt8) (rest : Str) :
    readString (escapeByte byte ++ rest) =
      (readString rest).map fun read => (byte :: read.1, read.2) := by
  unfold escapeByte
  split
  · rename_i hbyte
    apply readString_letter
    rcases hbyte with rfl | rfl <;> rfl
  · rename_i hplain
    split
    · rename_i hbyte
      rw [hbyte]
      exact readString_letter 0x62 0x08 rest rfl
    split
    · rename_i hbyte
      rw [hbyte]
      exact readString_letter 0x74 0x09 rest rfl
    split
    · rename_i hbyte
      rw [hbyte]
      exact readString_letter 0x6E 0x0A rest rfl
    split
    · rename_i hbyte
      rw [hbyte]
      exact readString_letter 0x66 0x0C rest rfl
    split
    · rename_i hbyte
      rw [hbyte]
      exact readString_letter 0x72 0x0D rest rfl
    split
    · rename_i hcontrol
      have hall : ∀ n < 32, codeUnit 0x30 0x30 (digitByte (n / 16)) (digitByte (n % 16)) = some n ∧
          utf8 n = [UInt8.ofNat n] := by decide
      have hlow : byte.toNat < 32 := UInt8.lt_iff_toNat_lt.mp hcontrol
      obtain ⟨hunit, hutf8⟩ := hall byte.toNat hlow
      refine (readString_unicode _ _ _ _ rest byte.toNat hunit (by omega)).trans ?_
      rw [hutf8, UInt8.ofNat_toNat]
      rfl
    · rename_i hcontrol
      rw [not_or] at hplain
      exact readString_plain byte rest hplain.1 hplain.2 hcontrol

theorem readString_escape (value rest : Str) :
    readString (escape value ++ 0x22 :: rest) = some (value, rest) := by
  induction value with
  | nil =>
    show readString (0x22 :: rest) = _
    unfold readString
    exact if_pos rfl
  | cons byte value ih =>
    unfold escape at ih ⊢
    rw [List.flatMap_cons, List.append_assoc, readString_escapeByte, ih]
    rfl

theorem dropWs_cons (byte : UInt8) (rest : Str) (h : isWs byte = false) :
    dropWs (byte :: rest) = byte :: rest :=
  List.dropWhile_cons_of_neg (by rw [h]; exact Bool.false_ne_true)

theorem expect_hit (byte : UInt8) (rest : Str) (h : isWs byte = false) :
    expect byte (byte :: rest) = some rest := by
  unfold expect
  rw [dropWs_cons byte rest h]
  exact if_pos rfl

theorem expect_miss (byte first : UInt8) (rest : Str) (h : isWs first = false)
    (hne : first ≠ byte) : expect byte (first :: rest) = none := by
  unfold expect
  rw [dropWs_cons first rest h]
  exact if_neg hne

def Stops (rest : Str) : Prop := ∀ byte ∈ rest.head?, isToken byte = false

theorem token_special (byte : UInt8) (h : isToken byte = true) :
    isWs byte = false ∧ byte ≠ 0x22 ∧ byte ≠ 0x5B ∧ byte ≠ 0x7B ∧ byte ≠ 0x5D := by
  have hnot : ∀ special ∈ str " \t\n\r\"[\x7b]", byte ≠ special := by
    intro special hspecial heq
    have hfalse : ∀ special ∈ str " \t\n\r\"[\x7b]", isToken special = false :=
      Str.forall_of_all (by decide)
    rw [heq, hfalse special hspecial] at h
    cases h
  refine ⟨?_, hnot _ (by decide), hnot _ (by decide), hnot _ (by decide), hnot _ (by decide)⟩
  simp [isWs, hnot 0x20 (by decide), hnot 0x09 (by decide), hnot 0x0A (by decide),
    hnot 0x0D (by decide)]

theorem readValue_token (token : Str) (value : Json) (rest : Str) (fuel : Nat) (hne : token ≠ [])
    (htoken : ∀ byte ∈ token, isToken byte = true) (h : literal token = some value)
    (hstops : Stops rest) : readValue (fuel + 1) (token ++ rest) = some (value, rest) := by
  obtain ⟨first, tail, rfl⟩ := List.exists_cons_of_ne_nil hne
  obtain ⟨hws, hquote, hbracket, hbrace, -⟩ := token_special first (htoken first List.mem_cons_self)
  have hdrop : dropWs (first :: tail ++ rest) = first :: tail ++ rest := dropWs_cons first _ hws
  have hrest : rest.takeWhile isToken = [] ∧ rest.dropWhile isToken = rest := by
    cases rest with
    | nil => exact ⟨rfl, rfl⟩
    | cons byte rest =>
      have hbyte : ¬ isToken byte = true := by
        rw [hstops byte rfl]
        exact Bool.false_ne_true
      exact ⟨List.takeWhile_cons_of_neg hbyte, List.dropWhile_cons_of_neg hbyte⟩
  unfold readValue
  rw [hdrop, List.takeWhile_append_of_pos htoken, List.dropWhile_append_of_pos htoken, hrest.1,
    hrest.2, List.append_nil, h, List.cons_append, expect_miss 0x22 first _ hws hquote,
    expect_miss 0x5B first _ hws hbracket, expect_miss 0x7B first _ hws hbrace]
  rfl

theorem isToken_decimal (n : Nat) : ∀ byte ∈ Str.decimal n, isToken byte = true := by
  intro byte hbyte
  have hrange := (Str.decimal_digits n).2 byte hbyte
  simp [isToken, isDigit, hrange.1, hrange.2]

theorem literal_decimal (n : Nat) (h : n < 2 ^ 64) :
    literal (Str.decimal n) = some (number (Str.decimal n)) := by
  have hname : ∀ name : Str, (∃ byte ∈ name, 0x39 < byte) → Str.decimal n ≠ name := by
    rintro name ⟨byte, hbyte, hlarge⟩ heq
    rw [← heq] at hbyte
    exact absurd ((Str.decimal_digits n).2 byte hbyte).2 (UInt8.not_le.mpr hlarge)
  unfold literal
  rw [if_neg (hname _ ⟨0x6E, by decide, by decide⟩), if_neg (hname _ ⟨0x74, by decide, by decide⟩),
    if_neg (hname _ ⟨0x66, by decide, by decide⟩), Str.parseU64_decimal n h]
  exact if_pos rfl

theorem write_head (value : Json) (h : value.Sound) : ∃ first tail, value.write = first :: tail ∧
    isWs first = false ∧ first ≠ 0x5D := by
  cases h with
  | null => exact ⟨_, _, rfl, by decide, by decide⟩
  | bool value =>
    cases value with
    | true => exact ⟨_, _, rfl, by decide, by decide⟩
    | false => exact ⟨_, _, rfl, by decide, by decide⟩
  | number value _ =>
    obtain ⟨first, tail, heq⟩ := List.exists_cons_of_ne_nil (Str.decimal_digits value).1
    have hfirst := isToken_decimal value first (by rw [heq]; exact List.mem_cons_self)
    obtain ⟨hws, -, -, -, hclose⟩ := token_special first hfirst
    exact ⟨first, tail, heq, hws, hclose⟩
  | string value _ => exact ⟨_, _, rfl, by decide, by decide⟩
  | array items _ => exact ⟨_, _, rfl, by decide, by decide⟩
  | object members _ _ => exact ⟨_, _, rfl, by decide, by decide⟩

def ReadsBack (value : Json) : Prop := ∀ fuel rest, value.write.length ≤ fuel → Stops rest →
  readValue fuel (value.write ++ rest) = some (value, rest)

theorem stops_cons (byte : UInt8) (rest : Str) (h : isToken byte = false) : Stops (byte :: rest) := by
  intro first hfirst
  rw [← Option.some.inj hfirst]
  exact h

theorem readItems_write (items : List Json) (hne : items ≠ [])
    (hread : ∀ item ∈ items, item.ReadsBack) (fuel : Nat) (rest : Str)
    (h : (writeItems items).length < fuel) :
    readItems fuel (writeItems items ++ 0x5D :: rest) = some (items, rest) := by
  induction items generalizing fuel with
  | nil => exact absurd rfl hne
  | cons item items ih =>
    obtain ⟨fuel, rfl⟩ : ∃ n, fuel = n + 1 := ⟨fuel - 1, by omega⟩
    have hitem := hread item List.mem_cons_self
    unfold writeItems at h ⊢
    unfold readItems
    cases items with
    | nil =>
      rw [List.isEmpty_nil, if_pos rfl, List.append_nil] at h ⊢
      rw [hitem fuel _ (by omega) (stops_cons 0x5D rest rfl)]
      simp only [Option.bind_eq_bind, Option.bind_some, expect_hit 0x5D rest rfl, Option.pure_def]
    | cons next items =>
      rw [List.isEmpty_cons, if_neg Bool.false_ne_true] at h ⊢
      rw [List.append_assoc, List.cons_append]
      rw [List.length_append, List.length_cons] at h
      rw [hitem fuel _ (by omega) (stops_cons 0x2C _ rfl)]
      have hrest := ih (List.cons_ne_nil _ _) (fun i hi => hread i (List.mem_cons_of_mem _ hi))
        fuel (by omega)
      simp only [Option.bind_eq_bind, Option.bind_some, expect_miss 0x5D 0x2C _ rfl (by decide),
        expect_hit 0x2C _ rfl, hrest, Option.pure_def]

theorem readMembers_write (members : List (Str × Json)) (hne : members ≠ [])
    (hread : ∀ member ∈ members, member.2.ReadsBack) (fuel : Nat) (rest : Str)
    (h : (writeMembers members).length < fuel) :
    readMembers fuel (writeMembers members ++ 0x7D :: rest) = some (members, rest) := by
  induction members generalizing fuel with
  | nil => exact absurd rfl hne
  | cons member members ih =>
    obtain ⟨fuel, rfl⟩ : ∃ n, fuel = n + 1 := ⟨fuel - 1, by omega⟩
    have hmember := hread member List.mem_cons_self
    unfold writeMembers at h ⊢
    unfold readMembers quote
    have hkey : ∀ behind, readString (escape member.1 ++ 0x22 :: 0x3A :: behind) =
        some (member.1, 0x3A :: behind) := fun behind => readString_escape member.1 _
    cases members with
    | nil =>
      rw [List.isEmpty_nil, if_pos rfl, List.append_nil] at h ⊢
      rw [List.length_append, List.length_cons] at h
      have hvalue := hmember fuel (0x7D :: rest) (by omega) (stops_cons 0x7D rest rfl)
      simp only [List.cons_append, List.append_assoc, List.nil_append, Option.bind_eq_bind,
        Option.bind_some, expect_hit 0x22 _ rfl, hkey, expect_hit 0x3A _ rfl, hvalue,
        expect_hit 0x7D rest rfl, Option.pure_def]
    | cons next members =>
      rw [List.isEmpty_cons, if_neg Bool.false_ne_true] at h ⊢
      rw [List.length_append, List.length_append, List.length_cons, List.length_cons] at h
      have hvalue := fun behind => hmember fuel (0x2C :: behind) (by omega) (stops_cons 0x2C _ rfl)
      have hrest := ih (List.cons_ne_nil _ _) (fun m hm => hread m (List.mem_cons_of_mem _ hm))
        fuel (by omega)
      simp only [List.cons_append, List.append_assoc, List.nil_append, Option.bind_eq_bind,
        Option.bind_some, expect_hit 0x22 _ rfl, hkey, expect_hit 0x3A _ rfl, hvalue,
        expect_miss 0x7D 0x2C _ rfl (by decide), expect_hit 0x2C _ rfl, hrest, Option.pure_def]

theorem readsBack (value : Json) (h : value.Sound) : value.ReadsBack := by
  have htoken : ∀ (value : Json) (token : Str), value.write = token → token ≠ [] →
      (∀ byte ∈ token, isToken byte = true) → literal token = some value → value.ReadsBack := by
    intro value token hwrite hne htoken hliteral fuel rest hfuel hstops
    rw [hwrite] at hfuel ⊢
    have hpos := List.length_pos_iff.mpr hne
    obtain ⟨fuel, rfl⟩ : ∃ n, fuel = n + 1 := ⟨fuel - 1, by omega⟩
    exact readValue_token token value rest fuel hne htoken hliteral hstops
  induction h with
  | null =>
    exact htoken _ (str "null") (by unfold write; rfl) (by decide) (Str.forall_of_all (by decide))
      rfl
  | bool value =>
    cases value with
    | true =>
      exact htoken _ (str "true") (by unfold write; rfl) (by decide) (Str.forall_of_all (by decide))
        rfl
    | false =>
      exact htoken _ (str "false") (by unfold write; rfl) (by decide) (Str.forall_of_all (by decide))
        rfl
  | number value hvalue =>
    exact htoken _ (Str.decimal value) (by unfold write; rfl) (Str.decimal_digits value).1
      (isToken_decimal value) (literal_decimal value hvalue)
  | string value _ =>
    intro fuel rest hfuel _
    unfold write quote at hfuel ⊢
    rw [List.length_cons] at hfuel
    obtain ⟨fuel, rfl⟩ : ∃ n, fuel = n + 1 := ⟨fuel - 1, by omega⟩
    unfold readValue
    rw [List.cons_append, expect_hit 0x22 _ rfl, List.append_assoc, List.singleton_append]
    simp only [readString_escape, Option.map_some]
  | array items hitems ih =>
    intro fuel rest hfuel _
    unfold write at hfuel ⊢
    rw [List.length_cons, List.length_append, List.length_singleton] at hfuel
    obtain ⟨fuel, rfl⟩ : ∃ n, fuel = n + 1 := ⟨fuel - 1, by omega⟩
    unfold readValue
    rw [List.cons_append, expect_miss 0x22 0x5B _ rfl (by decide), expect_hit 0x5B _ rfl,
      List.append_assoc, List.singleton_append]
    cases items with
    | nil =>
      unfold writeItems
      simp only [List.nil_append, expect_hit 0x5D rest rfl]
    | cons item items =>
      have hread := readItems_write (item :: items) (List.cons_ne_nil _ _) ih fuel rest (by omega)
      obtain ⟨first, tail, hhead, hws, hclose⟩ := write_head item (hitems item List.mem_cons_self)
      have hmiss : expect 0x5D (writeItems (item :: items) ++ 0x5D :: rest) = none := by
        unfold writeItems
        rw [hhead]
        exact expect_miss 0x5D first _ hws hclose
      simp only [hmiss, hread, Option.map_some]
  | object members _ hmembers ih =>
    intro fuel rest hfuel _
    unfold write at hfuel ⊢
    rw [List.length_cons, List.length_append, List.length_singleton] at hfuel
    obtain ⟨fuel, rfl⟩ : ∃ n, fuel = n + 1 := ⟨fuel - 1, by omega⟩
    unfold readValue
    rw [List.cons_append, expect_miss 0x22 0x7B _ rfl (by decide),
      expect_miss 0x5B 0x7B _ rfl (by decide), expect_hit 0x7B _ rfl, List.append_assoc,
      List.singleton_append]
    cases members with
    | nil =>
      unfold writeMembers
      simp only [List.nil_append, expect_hit 0x7D rest rfl]
    | cons member members =>
      have hread := readMembers_write (member :: members) (List.cons_ne_nil _ _) ih fuel rest
        (by omega)
      have hmiss : expect 0x7D (writeMembers (member :: members) ++ 0x7D :: rest) = none := by
        unfold writeMembers quote
        exact expect_miss 0x7D 0x22 _ rfl (by decide)
      simp only [hmiss, hread, Option.map_some]

theorem read_write (value : Json) (h : value.Sound) : read value.write = some value := by
  have hread := readsBack value h value.write.length [] (Nat.le_refl _)
    fun byte hbyte => by cases hbyte
  rw [List.append_nil] at hread
  unfold read
  rw [hread]
  rfl

end Peryx.Json
