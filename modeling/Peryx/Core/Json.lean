import Peryx.Core.Text
import Peryx.Core.Utf8

/-! # JSON values (serde_json::Value) -/

namespace Peryx

inductive Json where
  | null
  | bool (value : Bool)
  | number (text : Str)
  | string (value : Str)
  | array (items : List Json)
  | object (members : List (Str × Json))

namespace Json

def get : Json → Str → Option Json
  | object members, key => (members.reverse.find? fun member => member.1 = key).map (·.2)
  | _, _ => none

def field (document : Json) (key : Str) : Json := (document.get key).getD null

def asStr : Json → Option Str
  | string value => some value
  | _ => none

def asArray : Json → Option (List Json)
  | array items => some items
  | _ => none

def isObject : Json → Bool
  | object _ => true
  | _ => false

def isWs (byte : UInt8) : Bool := byte == 0x20 || byte == 0x09 || byte == 0x0A || byte == 0x0D

def Ws (bytes : Str) : Prop := ∀ byte ∈ bytes, isWs byte = true

def isDigit (byte : UInt8) : Bool := 0x30 ≤ byte && byte ≤ 0x39

def isHexDigit (byte : UInt8) : Bool :=
  isDigit byte || (0x41 ≤ byte && byte ≤ 0x46) || (0x61 ≤ byte && byte ≤ 0x66)

def escapeLetters : Str := str "\"\\/bfnrt"

inductive StringBody : Str → Prop
  | nil : StringBody []
  | plain (byte : UInt8) (rest : Str) (hcontrol : 0x20 ≤ byte) (hquote : byte ≠ 0x22)
    (hslash : byte ≠ 0x5C) (h : StringBody rest) : StringBody (byte :: rest)
  | escape (letter : UInt8) (rest : Str) (hletter : letter ∈ escapeLetters)
    (h : StringBody rest) : StringBody (0x5C :: letter :: rest)
  | unicode (a b c d : UInt8) (rest : Str) (hhex : ∀ byte ∈ [a, b, c, d], isHexDigit byte = true)
    (h : StringBody rest) : StringBody (0x5C :: 0x75 :: a :: b :: c :: d :: rest)

def quote (body : Str) : Str := 0x22 :: (body ++ [0x22])

def Digits (digits : Str) : Prop := digits ≠ [] ∧ ∀ byte ∈ digits, isDigit byte = true

def Integer (text : Str) : Prop := text = [0x30] ∨ (Digits text ∧ text.head? ≠ some 0x30)

def Fraction (text : Str) : Prop := text = [] ∨ ∃ digits, Digits digits ∧ text = 0x2E :: digits

def Exponent (text : Str) : Prop :=
  text = [] ∨ ∃ letter ∈ str "eE", ∃ sign ∈ [[], str "+", str "-"], ∃ digits, Digits digits ∧
    text = letter :: (sign ++ digits)

def Number (text : Str) : Prop :=
  ∃ sign ∈ [[], str "-"], ∃ integer fraction exponent, Integer integer ∧ Fraction fraction ∧
    Exponent exponent ∧ text = sign ++ integer ++ fraction ++ exponent

inductive Part where
  | value
  | element
  | elements
  | member
  | members

inductive Text : Part → Str → Nat → Prop
  | null : Text .value (str "null") 0
  | true : Text .value (str "true") 0
  | false : Text .value (str "false") 0
  | number (text : Str) (h : Number text) : Text .value text 0
  | string (body : Str) (h : StringBody body) : Text .value (quote body) 0
  | emptyArray (space : Str) (h : Ws space) : Text .value (0x5B :: (space ++ [0x5D])) 1
  | array (inner : Str) (n : Nat) (h : Text .elements inner n) :
    Text .value (0x5B :: (inner ++ [0x5D])) (n + 1)
  | emptyObject (space : Str) (h : Ws space) : Text .value (0x7B :: (space ++ [0x7D])) 1
  | object (inner : Str) (n : Nat) (h : Text .members inner n) :
    Text .value (0x7B :: (inner ++ [0x7D])) (n + 1)
  | element (before text after : Str) (n : Nat) (hbefore : Ws before) (hafter : Ws after)
    (h : Text .value text n) : Text .element (before ++ (text ++ after)) n
  | lastElement (text : Str) (n : Nat) (h : Text .element text n) : Text .elements text n
  | elements (text rest : Str) (n m : Nat) (h : Text .element text n)
    (hrest : Text .elements rest m) : Text .elements (text ++ 0x2C :: rest) (max n m)
  | member (before key mid text : Str) (n : Nat) (hbefore : Ws before) (hkey : StringBody key)
    (hmid : Ws mid) (h : Text .element text n) :
    Text .member (before ++ (quote key ++ (mid ++ 0x3A :: text))) n
  | lastMember (text : Str) (n : Nat) (h : Text .member text n) : Text .members text n
  | members (text rest : Str) (n m : Nat) (h : Text .member text n)
    (hrest : Text .members rest m) : Text .members (text ++ 0x2C :: rest) (max n m)

def IsText (text : Str) (nesting : Nat) : Prop := Text .element text nesting

mutual

def nesting : Json → Nat
  | array items => nestingItems items + 1
  | object members => nestingMembers members + 1
  | _ => 0

def nestingItems : List Json → Nat
  | [] => 0
  | item :: items => max item.nesting (nestingItems items)

def nestingMembers : List (Str × Json) → Nat
  | [] => 0
  | member :: members => max member.2.nesting (nestingMembers members)

end

/-- A value of `String`s and unsigned integers. -/
inductive Sound : Json → Prop
  | null : Sound null
  | bool (value : Bool) : Sound (bool value)
  | number (value : Nat) (h : value < 2 ^ 64) : Sound (number (Str.decimal value))
  | string (value : Str) (h : Str.IsUtf8 value) : Sound (string value)
  | array (items : List Json) (h : ∀ item ∈ items, Sound item) : Sound (array items)
  | object (members : List (Str × Json)) (hkeys : ∀ member ∈ members, Str.IsUtf8 member.1)
    (h : ∀ member ∈ members, Sound member.2) : Sound (object members)

def isPlain (byte : UInt8) : Bool :=
  byte != 0x22 && byte != 0x5B && byte != 0x5D && byte != 0x7B && byte != 0x7D

def Plain (text : Str) : Prop := ∀ byte ∈ text, isPlain byte = true

theorem Plain.append {a b : Str} (ha : Plain a) (hb : Plain b) : Plain (a ++ b) := by
  intro byte hbyte
  exact (List.mem_append.mp hbyte).elim (ha byte) (hb byte)

theorem special_of_not_plain (byte : UInt8) (h : isPlain byte = false) :
    byte ∈ [0x22, 0x5B, 0x5D, 0x7B, 0x7D] := by
  by_contra hnot
  simp only [List.mem_cons, List.not_mem_nil, or_false, not_or] at hnot
  simp [isPlain, hnot] at h

theorem plain_of_test (test : UInt8 → Bool)
    (htest : ∀ byte ∈ [0x22, 0x5B, 0x5D, 0x7B, 0x7D], test byte = false) (text : Str)
    (h : ∀ byte ∈ text, test byte = true) : Plain text := by
  intro byte hbyte
  by_contra hplain
  have hspecial := special_of_not_plain byte (eq_false_of_ne_true hplain)
  have hfalse := htest byte hspecial
  rw [h byte hbyte] at hfalse
  cases hfalse

theorem Ws.plain {text : Str} (h : Ws text) : Plain text :=
  plain_of_test isWs (Str.forall_of_all (by decide)) text h

theorem Digits.plain {text : Str} (h : Digits text) : Plain text :=
  plain_of_test isDigit (Str.forall_of_all (by decide)) text h.2

theorem Integer.plain {text : Str} (h : Integer text) : Plain text := by
  rcases h with rfl | h
  · exact Str.forall_of_all (by decide)
  · exact h.1.plain

theorem Fraction.plain {text : Str} (h : Fraction text) : Plain text := by
  rcases h with rfl | ⟨digits, hdigits, rfl⟩
  · exact Str.forall_of_all (by decide)
  · have hpoint : Plain [0x2E] := Str.forall_of_all (by decide)
    exact hpoint.append hdigits.plain

theorem Exponent.plain {text : Str} (h : Exponent text) : Plain text := by
  rcases h with rfl | ⟨letter, hletter, sign, hsign, digits, hdigits, rfl⟩
  · exact Str.forall_of_all (by decide)
  · have hletters : Plain (str "eE") := Str.forall_of_all (by decide)
    have hletter : Plain [letter] := by
      intro byte hbyte
      rw [List.mem_singleton.mp hbyte]
      exact hletters letter hletter
    have hsigns : ∀ sign ∈ [[], str "+", str "-"], Plain sign := by
      simp only [List.forall_mem_cons]
      exact ⟨Str.forall_of_all (by decide), Str.forall_of_all (by decide),
        Str.forall_of_all (by decide), fun _ h => absurd h List.not_mem_nil⟩
    exact hletter.append ((hsigns sign hsign).append hdigits.plain)

theorem Number.plain {text : Str} (h : Number text) : Plain text := by
  obtain ⟨sign, hsign, integer, fraction, exponent, hinteger, hfraction, hexponent, rfl⟩ := h
  have hsigns : ∀ sign ∈ [[], str "-"], Plain sign := by
    simp only [List.forall_mem_cons]
    exact ⟨Str.forall_of_all (by decide), Str.forall_of_all (by decide),
      fun _ h => absurd h List.not_mem_nil⟩
  exact (((hsigns sign hsign).append hinteger.plain).append hfraction.plain).append
    hexponent.plain

end Json
end Peryx
