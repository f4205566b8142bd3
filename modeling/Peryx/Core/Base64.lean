import Peryx.Core.Text

/-! # Base64 with padding (base64::STANDARD) -/

namespace Peryx.Base64

def alphabet : Str := str "ABCDEFGHIJKLMNOPQRSTUVWXYZabcdefghijklmnopqrstuvwxyz0123456789+/"

def symbol (value : Nat) : UInt8 := alphabet.getD value 0

def index (byte : UInt8) : Option Nat := alphabet.findIdx? fun symbol => symbol = byte

def padding : UInt8 := 0x3D

def encode : List UInt8 → Str
  | [] => []
  | [a] => [symbol (a.toNat / 4), symbol (a.toNat % 4 * 16), padding, padding]
  | [a, b] => [symbol (a.toNat / 4), symbol (a.toNat % 4 * 16 + b.toNat / 16),
      symbol (b.toNat % 16 * 4), padding]
  | a :: b :: c :: rest => symbol (a.toNat / 4) :: symbol (a.toNat % 4 * 16 + b.toNat / 16) ::
      symbol (b.toNat % 16 * 4 + c.toNat / 64) :: symbol (c.toNat % 64) :: encode rest

def decode : Str → Option (List UInt8)
  | [] => some []
  | w :: x :: y :: z :: rest => do
    let p ← index w
    let q ← index x
    let first := UInt8.ofNat (p * 4 + q / 16)
    if y = padding ∧ z = padding ∧ rest = [] then
      if q % 16 = 0 then some [first] else none
    else
      let r ← index y
      let second := UInt8.ofNat (q % 16 * 16 + r / 4)
      if z = padding ∧ rest = [] then
        if r % 4 = 0 then some [first, second] else none
      else
        let s ← index z
        return first :: second :: UInt8.ofNat (r % 4 * 64 + s) :: (← decode rest)
  | _ => none

theorem index_symbol (value : Nat) (h : value < 64) :
    index (symbol value) = some value ∧ symbol value ≠ padding ∧ symbol value < 0x80 := by
  have hall : ∀ value < 64, index (symbol value) = some value ∧ symbol value ≠ padding ∧
      symbol value < 0x80 := by decide
  exact hall value h

theorem index_of_lt (value : Nat) (h : value < 64) : index (symbol value) = some value :=
  (index_symbol value h).1

theorem symbol_ne_padding (value : Nat) (h : value < 64) : symbol value ≠ padding :=
  (index_symbol value h).2.1

theorem ofNat_of_eq (byte : UInt8) (n : Nat) (h : n = byte.toNat) : UInt8.ofNat n = byte := by
  rw [h]
  exact UInt8.ofNat_toNat

theorem decode_encode (bytes : List UInt8) : decode (encode bytes) = some bytes := by
  fun_induction encode bytes with
  | case1 => rfl
  | case2 a =>
    have ha := a.toNat_lt
    unfold decode
    rw [index_of_lt _ (by omega), index_of_lt _ (by omega)]
    simp only [Option.bind_eq_bind, Option.bind_some, and_self, if_true]
    rw [if_pos (by omega), ofNat_of_eq a _ (by omega)]
  | case3 a b =>
    have ha := a.toNat_lt
    have hb := b.toNat_lt
    unfold decode
    rw [index_of_lt _ (by omega), index_of_lt _ (by omega), index_of_lt _ (by omega)]
    simp only [Option.bind_eq_bind, Option.bind_some]
    rw [if_neg fun h => symbol_ne_padding _ (by omega) h.1, if_pos ⟨trivial, trivial⟩,
      if_pos (by omega), ofNat_of_eq a _ (by omega), ofNat_of_eq b _ (by omega)]
  | case4 a b c rest ih =>
    have ha := a.toNat_lt
    have hb := b.toNat_lt
    have hc := c.toNat_lt
    unfold decode
    rw [index_of_lt _ (by omega), index_of_lt _ (by omega), index_of_lt _ (by omega),
      index_of_lt _ (by omega)]
    simp only [Option.bind_eq_bind, Option.bind_some, ih]
    rw [if_neg fun h => symbol_ne_padding _ (by omega) h.1,
      if_neg fun h => symbol_ne_padding _ (by omega) h.1, ofNat_of_eq a _ (by omega),
      ofNat_of_eq b _ (by omega), ofNat_of_eq c _ (by omega)]
    rfl

theorem encode_ascii (bytes : List UInt8) : ∀ byte ∈ encode bytes, byte < 0x80 := by
  have hsymbol : ∀ value < 64, symbol value < 0x80 := fun value h => (index_symbol value h).2.2
  have hpadding : padding < 0x80 := by decide
  fun_induction encode bytes with
  | case1 => exact fun byte h => absurd h List.not_mem_nil
  | case2 a =>
    have ha := a.toNat_lt
    simp only [List.forall_mem_cons]
    exact ⟨hsymbol _ (by omega), hsymbol _ (by omega), hpadding, hpadding,
      fun byte h => absurd h List.not_mem_nil⟩
  | case3 a b =>
    have ha := a.toNat_lt
    have hb := b.toNat_lt
    simp only [List.forall_mem_cons]
    exact ⟨hsymbol _ (by omega), hsymbol _ (by omega), hsymbol _ (by omega), hpadding,
      fun byte h => absurd h List.not_mem_nil⟩
  | case4 a b c rest ih =>
    have ha := a.toNat_lt
    have hb := b.toNat_lt
    have hc := c.toNat_lt
    simp only [List.forall_mem_cons]
    exact ⟨hsymbol _ (by omega), hsymbol _ (by omega), hsymbol _ (by omega), hsymbol _ (by omega), ih⟩

end Peryx.Base64
