import Peryx.Core.Path
import Peryx.Core.Utf8

/-! # Percent-encoding read back (url_encoding.rs and `decode_percent`) -/

namespace Peryx.Core

theorem hexByte_hexDigit (byte : UInt8) :
    hexByte (hexDigit (byte >>> 4)) (hexDigit (byte &&& 0x0F)) = some byte := by
  have hall : ∀ n < 256, hexByte (hexDigit (UInt8.ofNat n >>> 4)) (hexDigit (UInt8.ofNat n &&& 0x0F)) =
      some (UInt8.ofNat n) := by
    set_option maxRecDepth 8000 in decide
  have hbyte := hall byte.toNat byte.toNat_lt
  rw [UInt8.ofNat_toNat] at hbyte
  exact hbyte

theorem decodeBytes_plain (byte : UInt8) (rest : List UInt8) (h : byte ≠ 0x25) :
    decodeBytes (byte :: rest) = (decodeBytes rest).map (byte :: ·) := by
  conv => lhs; unfold decodeBytes
  exact if_neg h

theorem decodeBytes_percentByte (byte : UInt8) (rest : List UInt8) :
    decodeBytes (percentByte byte ++ rest) = (decodeBytes rest).map (byte :: ·) := by
  simp only [percentByte, List.cons_append, List.nil_append]
  conv => lhs; unfold decodeBytes
  rw [if_pos rfl]
  dsimp only
  rw [hexByte_hexDigit]
  cases decodeBytes rest with
  | none => rfl
  | some decoded => rfl

def escaped (keeps : UInt8 → Bool) (text : Str) : Str :=
  text.flatMap fun byte => if keeps byte then [byte] else percentByte byte

section Escaped
variable (keeps : UInt8 → Bool)

theorem escaped_cons (byte : UInt8) (text : Str) :
    escaped keeps (byte :: text) =
      (if keeps byte then [byte] else percentByte byte) ++ escaped keeps text :=
  List.flatMap_cons

theorem escaped_kept (text : Str) (h : ∀ byte ∈ text, keeps byte = true) :
    escaped keeps text = text := by
  induction text with
  | nil => rfl
  | cons byte text ih =>
    rw [escaped_cons, if_pos (h byte List.mem_cons_self),
      ih fun b hb => h b (List.mem_cons_of_mem _ hb)]
    rfl

theorem escaped_plain (text : Str) (h : 0x25 ∉ escaped keeps text) :
    escaped keeps text = text := by
  refine escaped_kept keeps text fun byte hbyte => ?_
  cases hkeeps : keeps byte with
  | true => rfl
  | false =>
    refine absurd (List.mem_flatMap.mpr ⟨byte, hbyte, ?_⟩) h
    rw [hkeeps, if_neg Bool.false_ne_true]
    exact List.mem_cons_self

variable (hpercent : keeps 0x25 = false)
include hpercent

theorem decodeBytes_escaped (text : Str) : decodeBytes (escaped keeps text) = some text := by
  induction text with
  | nil => rfl
  | cons byte text ih =>
    rw [escaped_cons]
    by_cases hkeeps : keeps byte = true
    · have hne : byte ≠ 0x25 := by
        intro heq
        rw [heq, hpercent] at hkeeps
        cases hkeeps
      rw [if_pos hkeeps, List.singleton_append, decodeBytes_plain byte _ hne, ih]
      rfl
    · rw [if_neg hkeeps, decodeBytes_percentByte, ih]
      rfl

theorem decodePercent_escaped_text (text : Str) (h : Str.IsUtf8 text) :
    decodePercent (escaped keeps text) = .ok text := by
  by_cases hplain : 0x25 ∉ escaped keeps text
  · rw [decodePercent_plain _ hplain, escaped_plain keeps text hplain]
  · have hutf8 : Str.fromUtf8 text = some text := h
    unfold decodePercent
    rw [if_neg hplain, decodeBytes_escaped keeps hpercent text, Option.bind_some, hutf8]

end Escaped

theorem decodePercent_encodeComponent (text : Str) (h : Str.IsUtf8 text) :
    decodePercent (encodeComponent text) = .ok text :=
  decodePercent_escaped_text isUnreserved (by decide) text h

theorem decodePercent_encodePath (text : Str) (h : Str.IsUtf8 text) :
    decodePercent (encodePath text) = .ok text :=
  decodePercent_escaped_text (fun byte => byte == 0x2F || isUnreserved byte) (by decide) text h

theorem encodePath_route (route : Str) (h : validateRoute route = .ok ()) :
    encodePath route = route := by
  refine escaped_kept _ route fun byte hbyte => ?_
  rcases (validateRoute_ok route h).2 byte hbyte with rfl | hunreserved
  · rfl
  · rw [hunreserved, Bool.or_true]

theorem chars_nul (value : Str) (h : 0 ∈ value) : [0] ∈ Str.chars value := by
  rw [← Str.chars_flatten value, List.mem_flatten] at h
  obtain ⟨ch, hch, hmem⟩ := h
  rcases Str.chars_isChar value ch hch with ⟨byte, rfl, _⟩ | hhigh
  · rw [List.mem_singleton.mp hmem]
    exact hch
  · exact absurd (hhigh 0 hmem) (by decide)

theorem split_whole (separator : UInt8) (value : Str) (h : separator ∉ value) :
    Str.split separator value = [value] := by
  unfold Str.split
  exact List.splitOn_eq_singleton h

structure Confined (value : Str) : Prop where
  slash : 0x2F ∉ value
  backslash : 0x5C ∉ value
  nul : 0x00 ∉ value
  slashDots : str ".." ∉ Str.split 0x2F value
  backslashDots : str ".." ∉ Str.split 0x5C value

theorem isSafeSegment_confined (value : Str) (h : isSafeSegment value = true) : Confined value := by
  simp only [isSafeSegment, Bool.not_eq_true', Bool.or_eq_false_iff, beq_eq_false_iff_ne,
    List.any_eq_false] at h
  obtain ⟨⟨⟨⟨⟨_, _⟩, hdots⟩, hslash⟩, hbackslash⟩, hcontrol⟩ := h
  have hnoSlash : 0x2F ∉ value := fun hmem => by
    rw [List.elem_eq_true_of_mem hmem] at hslash
    cases hslash
  have hnoBackslash : 0x5C ∉ value := fun hmem => by
    rw [List.elem_eq_true_of_mem hmem] at hbackslash
    cases hbackslash
  refine ⟨hnoSlash, hnoBackslash, fun hnul => ?_, ?_, ?_⟩
  · exact hcontrol [0] (chars_nul value hnul) (by decide)
  · rw [split_whole 0x2F value hnoSlash, List.mem_singleton]
    exact Ne.symm hdots
  · rw [split_whole 0x5C value hnoBackslash, List.mem_singleton]
    exact Ne.symm hdots

theorem validatePathSegment_iff (kind value : Str) :
    validatePathSegment kind value = .ok () ↔ isSafeSegment value = true := by
  unfold validatePathSegment
  split <;> simp_all

end Peryx.Core
