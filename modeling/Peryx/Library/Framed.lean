import Mathlib.Data.List.Induction
import Mathlib.Tactic.Ring

/-!
# Records with one length-prefixed field

A record is a lead of a fixed size, a big-endian length, the field it measures and whatever
is left. What is left has no length of its own, so a record may end anywhere behind its
field.
-/

/-!
## Unsigned integers as big-endian bytes

`toBytes width n` are the last `width` bytes of `n`, the most significant first, and
`ofBytes` is the number that bytes stand for.
-/

namespace Peryx.BigEndian

def toBytes (width n : ℕ) : List UInt8 :=
  (List.range width).map fun place => UInt8.ofNat (n / 256 ^ (width - 1 - place))

def ofBytes (bytes : List UInt8) : ℕ := bytes.foldl (fun value byte => value * 256 + byte.toNat) 0

@[simp] theorem length_toBytes (width n : ℕ) : (toBytes width n).length = width := by
  simp [toBytes]

@[simp] theorem ofBytes_nil : ofBytes [] = 0 := rfl

@[simp] theorem ofBytes_concat (bytes : List UInt8) (byte : UInt8) :
    ofBytes (bytes ++ [byte]) = ofBytes bytes * 256 + byte.toNat := by
  simp [ofBytes]

theorem toBytes_succ (width n : ℕ) :
    toBytes (width + 1) n = toBytes width (n / 256) ++ [UInt8.ofNat n] := by
  unfold toBytes
  rw [List.range_succ, List.map_append, List.map_singleton]
  congr 1
  · apply List.map_congr_left
    intro place hplace
    have hlt := List.mem_range.mp hplace
    have hpower : width + 1 - 1 - place = width - 1 - place + 1 := by omega
    rw [hpower, pow_succ', Nat.div_div_eq_div_mul]
  · have hpower : width + 1 - 1 - width = 0 := by omega
    rw [hpower, pow_zero, Nat.div_one]

theorem ofBytes_toBytes (width n : ℕ) : ofBytes (toBytes width n) = n % 256 ^ width := by
  induction width generalizing n with
  | zero => simp [toBytes, Nat.mod_one]
  | succ width ih =>
    have hsplit := Nat.mod_mul (x := n) (a := 256) (b := 256 ^ width)
    have hbyte : (UInt8.ofNat n).toNat = n % 256 := UInt8.toNat_ofNat'
    rw [toBytes_succ, ofBytes_concat, ih, hbyte, pow_succ', hsplit]
    ring

theorem ofBytes_toBytes_of_lt (width n : ℕ) (h : n < 256 ^ width) :
    ofBytes (toBytes width n) = n := by
  rw [ofBytes_toBytes, Nat.mod_eq_of_lt h]

theorem toBytes_ofBytes (bytes : List UInt8) : toBytes bytes.length (ofBytes bytes) = bytes := by
  induction bytes using List.reverseRecOn with
  | nil => rfl
  | append_singleton bytes byte ih =>
    have hbyte : byte.toNat < 256 := byte.toNat_lt
    have hhigh : (ofBytes bytes * 256 + byte.toNat) / 256 = ofBytes bytes := by omega
    have hlow : UInt8.ofNat (ofBytes bytes * 256 + byte.toNat) = byte := by
      apply UInt8.toNat_inj.mp
      rw [UInt8.toNat_ofNat']
      omega
    rw [List.length_append, List.length_singleton, toBytes_succ, ofBytes_concat, hhigh, ih, hlow]

theorem ofBytes_lt (bytes : List UInt8) : ofBytes bytes < 256 ^ bytes.length := by
  rw [← toBytes_ofBytes bytes, ofBytes_toBytes, length_toBytes]
  exact Nat.mod_lt _ (Nat.pow_pos (by omega))

end Peryx.BigEndian

namespace Peryx.Framed
open BigEndian

/-- The largest length `width` bytes hold. -/
def limit (width : ℕ) : ℕ := 256 ^ width - 1

theorem lt_of_le_limit (width n : ℕ) (h : n ≤ limit width) : n < 256 ^ width := by
  have hpos : 0 < 256 ^ width := Nat.pow_pos (by omega)
  unfold limit at h
  omega

def encode (width : ℕ) (lead field rest : List UInt8) : List UInt8 :=
  lead ++ toBytes width (min field.length (limit width)) ++ field ++ rest

def decode (fixed width : ℕ) (raw : List UInt8) :
    Option (List UInt8 × List UInt8 × List UInt8) :=
  if raw.length < fixed + width then none
  else
    let length := ofBytes ((raw.drop fixed).take width)
    let rest := raw.drop (fixed + width)
    if rest.length < length then none
    else some (raw.take fixed, rest.take length, rest.drop length)

theorem length_encode (width : ℕ) (lead field rest : List UInt8) :
    (encode width lead field rest).length =
      lead.length + width + field.length + rest.length := by
  simp only [encode, List.length_append, length_toBytes]

theorem decode_encode (width : ℕ) (lead field rest : List UInt8)
    (h : field.length ≤ limit width) :
    decode lead.length width (encode width lead field rest) = some (lead, field, rest) := by
  have hmin : min field.length (limit width) = field.length := Nat.min_eq_left h
  have hfield : ((encode width lead field rest).drop lead.length).take width =
      toBytes width field.length := by
    unfold encode
    rw [hmin, List.append_assoc, List.append_assoc, List.drop_left,
      List.take_left' (length_toBytes width _)]
  have hrest : (encode width lead field rest).drop (lead.length + width) = field ++ rest := by
    unfold encode
    rw [List.append_assoc, List.drop_left' (by simp)]
  unfold decode
  rw [if_neg (by rw [length_encode]; omega)]
  simp only [hfield, hrest, ofBytes_toBytes_of_lt width _ (lt_of_le_limit width _ h)]
  rw [if_neg (by simp), List.take_left, List.drop_left]
  unfold encode
  rw [List.append_assoc, List.append_assoc, List.take_left]

theorem decode_eq_some (fixed width : ℕ) (raw lead field rest : List UInt8) :
    decode fixed width raw = some (lead, field, rest) ↔
      lead.length = fixed ∧ field.length ≤ limit width ∧ raw = encode width lead field rest := by
  constructor
  · intro h
    unfold decode at h
    split at h
    · cases h
    · rename_i hlong
      dsimp only at h
      split at h
      · cases h
      · rename_i hrest
        simp only [Option.some.injEq, Prod.mk.injEq] at h
        obtain ⟨rfl, rfl, rfl⟩ := h
        have hwidth : ((raw.drop fixed).take width).length = width := by
          rw [List.length_take, List.length_drop]
          omega
        have hlt := ofBytes_lt ((raw.drop fixed).take width)
        rw [hwidth] at hlt
        have hlength : ((raw.drop (fixed + width)).take
            (ofBytes ((raw.drop fixed).take width))).length =
              ofBytes ((raw.drop fixed).take width) := by
          rw [List.length_take]
          omega
        have hle : ofBytes ((raw.drop fixed).take width) ≤ limit width := by
          unfold limit
          omega
        refine ⟨by rw [List.length_take]; omega, by rw [hlength]; exact hle, ?_⟩
        have hbytes := toBytes_ofBytes ((raw.drop fixed).take width)
        rw [hwidth] at hbytes
        unfold encode
        rw [hlength, Nat.min_eq_left hle, hbytes, List.append_assoc, List.append_assoc,
          List.take_append_drop, ← List.drop_drop, List.take_append_drop, List.take_append_drop]
  · rintro ⟨rfl, hfield, rfl⟩
    exact decode_encode width lead field rest hfield

theorem encode_limit (width : ℕ) (lead field rest : List UInt8) : encode width lead field rest =
    encode width lead (field.take (limit width)) (field.drop (limit width) ++ rest) := by
  unfold encode
  rw [List.length_take, Nat.min_comm (limit width), Nat.min_assoc, Nat.min_self,
    List.append_assoc _ field, List.append_assoc _ (field.take _), ← List.append_assoc (field.take _),
    List.take_append_drop]

theorem decode_encode_limit (width : ℕ) (lead field rest : List UInt8) :
    decode lead.length width (encode width lead field rest) =
      some (lead, field.take (limit width), field.drop (limit width) ++ rest) := by
  rw [encode_limit]
  exact decode_encode width lead _ _ (by rw [List.length_take]; omega)

theorem encode_take (width cut : ℕ) (lead field rest : List UInt8) :
    (encode width lead field rest).take (lead.length + width + field.length + cut) =
      encode width lead field (rest.take cut) := by
  have hhead : (lead ++ toBytes width (min field.length (limit width)) ++ field).length =
      lead.length + width + field.length := by
    rw [List.length_append, List.length_append, length_toBytes]
  unfold encode
  rw [List.take_append, hhead, List.take_of_length_le (by omega)]
  congr 2
  omega

theorem encode_field_inj (width : ℕ) (lead a b rest : List UInt8) :
    encode width lead a rest = encode width lead b rest ↔ a = b := by
  refine ⟨fun h => ?_, fun h => by rw [h]⟩
  have hlength := congrArg List.length h
  rw [length_encode, length_encode] at hlength
  unfold encode at h
  have hsame : a.length = b.length := by omega
  rw [hsame, List.append_left_inj, List.append_right_inj] at h
  exact h

theorem decode_cut (width cut : ℕ) (lead field rest : List UInt8) :
    decode lead.length width ((encode width lead field rest).take cut) = none ↔
      cut < lead.length + width + min field.length (limit width) := by
  have hcut : ((encode width lead field rest).take cut).length =
      min cut (lead.length + width + field.length + rest.length) := by
    rw [List.length_take, length_encode]
  unfold decode
  split
  · rename_i hshort
    rw [hcut] at hshort
    refine ⟨fun _ => by omega, fun _ => rfl⟩
  · rename_i hlong
    rw [hcut] at hlong
    have hlength : ofBytes ((((encode width lead field rest).take cut).drop lead.length).take
        width) = min field.length (limit width) := by
      have hfield : (((encode width lead field rest).take cut).drop lead.length).take width =
          toBytes width (min field.length (limit width)) := by
        rw [List.drop_take, List.take_take, Nat.min_eq_left (by omega)]
        unfold encode
        rw [List.append_assoc, List.append_assoc, List.drop_left,
          List.take_left' (length_toBytes width _)]
      rw [hfield]
      exact ofBytes_toBytes_of_lt width _ (lt_of_le_limit width _ (Nat.min_le_right _ _))
    dsimp only
    rw [hlength, List.length_drop, hcut]
    split
    · refine ⟨fun _ => by omega, fun _ => rfl⟩
    · refine ⟨fun h => ?_, fun h => by omega⟩
      cases h

theorem decode_cut_some (width cut : ℕ) (lead field rest : List UInt8)
    (h : lead.length + width + min field.length (limit width) ≤ cut) :
    ∃ later, decode lead.length width ((encode width lead field rest).take cut) =
      some (lead, field.take (limit width), later) := by
  have hfield : (field.take (limit width)).length = min field.length (limit width) := by
    rw [List.length_take, Nat.min_comm]
  obtain ⟨more, hmore⟩ := Nat.exists_eq_add_of_le h
  rw [← hfield] at hmore
  refine ⟨(field.drop (limit width) ++ rest).take more, ?_⟩
  rw [encode_limit, hmore, encode_take]
  exact decode_encode width lead _ _ (by omega)

end Peryx.Framed
