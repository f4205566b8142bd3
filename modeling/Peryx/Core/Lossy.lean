import Peryx.Core.Query
import Peryx.Core.Scalars

/-! # What a lossy conversion keeps -/

namespace Peryx.Query
open Str

theorem lossyFrom_fresh (byte : UInt8) (rest : Str) : lossyFrom [] 0 (byte :: rest) =
    if byte < 0x80 then byte :: lossyFrom [] 0 rest
    else if followers byte = 0 then replacement ++ lossyFrom [] 0 rest
    else lossyFrom [byte] (followers byte) rest := by
  rw [lossyFrom, if_neg (fun hpending => hpending.1 rfl), if_pos rfl]
  rfl

theorem lossyFrom_ascii (byte : UInt8) (rest : Str) (h : byte < 0x80) :
    lossyFrom [] 0 (byte :: rest) = byte :: lossyFrom [] 0 rest := by
  rw [lossyFrom_fresh, if_pos h]

theorem lossyFrom_lead (byte : UInt8) (rest : Str) (h : ¬ byte < 0x80) (hlead : followers byte ≠ 0) :
    lossyFrom [] 0 (byte :: rest) = lossyFrom [byte] (followers byte) rest := by
  rw [lossyFrom_fresh, if_neg h, if_neg hlead]

theorem lossyFrom_last (pending : Str) (byte : UInt8) (rest : Str) (hpending : pending ≠ [])
    (h : continues pending byte = true) :
    lossyFrom pending 1 (byte :: rest) = pending ++ byte :: lossyFrom [] 0 rest := by
  rw [lossyFrom, if_pos ⟨hpending, h⟩, if_pos rfl]

theorem lossyFrom_more (pending : Str) (missing next : Nat) (byte : UInt8) (rest : Str)
    (hmissing : missing = next + 1) (hnext : next ≠ 0) (hpending : pending ≠ [])
    (h : continues pending byte = true) :
    lossyFrom pending missing (byte :: rest) = lossyFrom (pending ++ [byte]) next rest := by
  rw [lossyFrom, if_pos ⟨hpending, h⟩, if_neg (by omega), hmissing, Nat.add_sub_cancel]

theorem lossyFrom_break (pending : Str) (missing : Nat) (byte : UInt8) (rest : Str)
    (hpending : pending ≠ []) (h : continues pending byte = false) :
    lossyFrom pending missing (byte :: rest) = replacement ++ lossyFrom [] 0 (byte :: rest) := by
  have hnot : ¬ (pending ≠ [] ∧ continues pending byte = true) := by simp [h]
  rw [lossyFrom_fresh, lossyFrom, if_neg hnot, if_neg hpending]

def lowest (lead : Nat) : Nat := if lead = 0xE0 then 0xA0 else if lead = 0xF0 then 0x90 else 0x80

def highest (lead : Nat) : Nat := if lead = 0xED then 0x9F else if lead = 0xF4 then 0x8F else 0xBF

theorem continues_lead (lead byte : UInt8) : continues [lead] byte = true ↔
    lowest lead.toNat ≤ byte.toNat ∧ byte.toNat ≤ highest lead.toNat := by
  have hsingle : ∀ value : UInt8, ([lead] = [value]) ↔ lead.toNat = value.toNat := by
    intro value
    rw [List.singleton_inj, UInt8.toNat_inj]
  unfold continues lowest highest
  simp only [hsingle, isContinuation, UInt8.le_iff_toNat_le, UInt8.lt_iff_toNat_lt,
    UInt8.reduceToNat]
  split
  · rename_i hlead
    simp [hlead]
  · split
    · rename_i hlead
      simp [hlead]
    · split
      · rename_i hlead
        simp [hlead]
      · split
        · simp
        · simp only [Bool.and_eq_true, decide_eq_true_eq]
          omega

theorem lowest_le_iff (lead n : Nat) :
    lowest lead ≤ n ↔ 0x80 ≤ n ∧ (lead = 0xE0 → 0xA0 ≤ n) ∧ (lead = 0xF0 → 0x90 ≤ n) := by
  unfold lowest
  split
  · omega
  · split
    · omega
    · omega

theorem le_highest_iff (lead n : Nat) :
    n ≤ highest lead ↔ n ≤ 0xBF ∧ (lead = 0xED → n ≤ 0x9F) ∧ (lead = 0xF4 → n ≤ 0x8F) := by
  unfold highest
  split
  · omega
  · split
    · omega
    · omega

theorem continues_later (first second : UInt8) (pending : Str) (byte : UInt8) :
    continues (first :: second :: pending) byte = true ↔ 0x80 ≤ byte.toNat ∧ byte.toNat ≤ 0xBF := by
  have hne : ∀ value : UInt8, first :: second :: pending ≠ [value] := by simp
  unfold continues
  simp only [hne, if_false, isContinuation, Bool.and_eq_true, decide_eq_true_eq,
    UInt8.le_iff_toNat_le, UInt8.lt_iff_toNat_lt, UInt8.reduceToNat]
  omega

theorem followers_eq (lead : UInt8) : followers lead =
    if 0xC2 ≤ lead.toNat ∧ lead.toNat ≤ 0xDF then 1
    else if 0xE0 ≤ lead.toNat ∧ lead.toNat ≤ 0xEF then 2
    else if 0xF0 ≤ lead.toNat ∧ lead.toNat ≤ 0xF4 then 3
    else 0 := by
  unfold followers
  simp only [UInt8.le_iff_toNat_le, UInt8.reduceToNat]

theorem not_ascii (byte : UInt8) (h : 0x80 ≤ byte.toNat) : ¬ byte < 0x80 := by
  rw [UInt8.lt_iff_toNat_lt]
  simpa using h

theorem lossyFrom_two (a b : UInt8) (rest : Str) (ha : ¬ a < 0x80) (hlead : followers a = 1)
    (hb : continues [a] b = true) :
    lossyFrom [] 0 (a :: b :: rest) = a :: b :: lossyFrom [] 0 rest := by
  rw [lossyFrom_lead a _ ha (by omega), hlead, lossyFrom_last [a] b rest (by simp) hb]
  rfl

theorem lossyFrom_three (a b c : UInt8) (rest : Str) (ha : ¬ a < 0x80) (hlead : followers a = 2)
    (hb : continues [a] b = true) (hc : continues [a, b] c = true) :
    lossyFrom [] 0 (a :: b :: c :: rest) = a :: b :: c :: lossyFrom [] 0 rest := by
  rw [lossyFrom_lead a _ ha (by omega), hlead,
    lossyFrom_more [a] 2 1 b _ rfl (by omega) (by simp) hb]
  exact lossyFrom_last [a, b] c rest (by simp) hc

theorem lossyFrom_four (a b c d : UInt8) (rest : Str) (ha : ¬ a < 0x80) (hlead : followers a = 3)
    (hb : continues [a] b = true) (hc : continues [a, b] c = true)
    (hd : continues [a, b, c] d = true) :
    lossyFrom [] 0 (a :: b :: c :: d :: rest) = a :: b :: c :: d :: lossyFrom [] 0 rest := by
  rw [lossyFrom_lead a _ ha (by omega), hlead,
    lossyFrom_more [a] 3 2 b _ rfl (by omega) (by simp) hb]
  refine (lossyFrom_more [a, b] 2 1 c _ rfl (by omega) (by simp) hc).trans ?_
  exact lossyFrom_last [a, b, c] d rest (by simp) hd

theorem scalar_range (c : Char) :
    c.val.toNat < 0xD800 ∨ (0xDFFF < c.val.toNat ∧ c.val.toNat < 0x110000) := c.valid

inductive Sequence : Str → Prop
  | one (a : UInt8) (ha : a < 0x80) : Sequence [a]
  | two (a b : UInt8) (ha : ¬ a < 0x80) (hlead : followers a = 1) (hb : continues [a] b = true) :
      Sequence [a, b]
  | three (a b c : UInt8) (ha : ¬ a < 0x80) (hlead : followers a = 2) (hb : continues [a] b = true)
      (hc : continues [a, b] c = true) : Sequence [a, b, c]
  | four (a b c d : UInt8) (ha : ¬ a < 0x80) (hlead : followers a = 3)
      (hb : continues [a] b = true) (hc : continues [a, b] c = true)
      (hd : continues [a, b, c] d = true) : Sequence [a, b, c, d]

theorem sequence_char (c : Char) : Sequence (String.utf8EncodeChar c) := by
  have hrange := scalar_range c
  have hbyte : ∀ n : Nat, (UInt8.ofNat (n % 0x40 + 0x80)).toNat = n % 0x40 + 0x80 :=
    fun n => toNat_lead _ _ (by omega)
  have hlater : ∀ (a b : UInt8) (pending : Str) (n : Nat),
      continues (a :: b :: pending) (UInt8.ofNat (n % 0x40 + 0x80)) = true := by
    intro a b pending n
    rw [continues_later, hbyte]
    omega
  unfold String.utf8EncodeChar
  dsimp only
  split
  · rename_i hv
    have hlead := toNat_lead c.val.toNat 0 (by omega)
    rw [Nat.add_zero] at hlead
    have hascii : (UInt8.ofNat c.val.toNat).toNat < 0x80 := by omega
    exact Sequence.one _ (UInt8.lt_iff_toNat_lt.mpr hascii)
  · split
    · have hlead := toNat_lead (c.val.toNat / 64 % 0x20) 0xC0 (by omega)
      refine Sequence.two _ _ (not_ascii _ (by omega)) ?_ ?_
      · rw [followers_eq, hlead, if_pos (by omega)]
      · rw [continues_lead, lowest_le_iff, le_highest_iff, hlead, hbyte]
        omega
    · split
      · have hlead := toNat_lead (c.val.toNat / 4096 % 0x10) 0xE0 (by omega)
        refine Sequence.three _ _ _ (not_ascii _ (by omega)) ?_ ?_ (hlater _ _ _ _)
        · rw [followers_eq, hlead, if_neg (by omega), if_pos (by omega)]
        · rw [continues_lead, lowest_le_iff, le_highest_iff, hlead, hbyte]
          omega
      · have hlead := toNat_lead (c.val.toNat / 262144 % 0x08) 0xF0 (by omega)
        refine Sequence.four _ _ _ _ (not_ascii _ (by omega)) ?_ ?_ (hlater _ _ _ _)
          (hlater _ _ _ _)
        · rw [followers_eq, hlead, if_neg (by omega), if_neg (by omega), if_pos (by omega)]
        · rw [continues_lead, lowest_le_iff, le_highest_iff, hlead, hbyte]
          omega

theorem lossyFrom_char (c : Char) (rest : Str) :
    lossyFrom [] 0 (String.utf8EncodeChar c ++ rest) =
      String.utf8EncodeChar c ++ lossyFrom [] 0 rest := by
  have hseq := sequence_char c
  generalize String.utf8EncodeChar c = bytes at hseq
  cases hseq with
  | one a ha => exact lossyFrom_ascii a rest ha
  | two a b ha hlead hb => exact lossyFrom_two a b rest ha hlead hb
  | three a b c ha hlead hb hc => exact lossyFrom_three a b c rest ha hlead hb hc
  | four a b c d ha hlead hb hc hd => exact lossyFrom_four a b c d rest ha hlead hb hc hd

theorem fromUtf8Lossy_str (s : String) : fromUtf8Lossy (str s) = str s := by
  rw [str_encoded]
  unfold fromUtf8Lossy
  induction s.toList with
  | nil => rfl
  | cons c scalars ih =>
    rw [encoded, List.map_cons, List.flatten_cons, lossyFrom_char]
    exact congrArg _ ih

theorem exists_str (bytes : Str) (h : IsUtf8 bytes) : ∃ s : String, bytes = str s :=
  ⟨⟨_, (isUtf8_iff bytes).mp h⟩, rfl⟩

theorem fromUtf8Lossy_utf8 (bytes : Str) (h : IsUtf8 bytes) : fromUtf8Lossy bytes = bytes := by
  obtain ⟨s, rfl⟩ := exists_str bytes h
  exact fromUtf8Lossy_str s

theorem isUtf8_char (c : Char) : IsUtf8 (String.utf8EncodeChar c) := by
  have hstring := isUtf8_str (String.ofList [c])
  rw [str_ofList, encoded, List.map_singleton, List.flatten_singleton] at hstring
  exact hstring

theorem exists_scalar (n : Nat) (h : n < 0xD800 ∨ (0xDFFF < n ∧ n < 0x110000)) :
    ∃ c : Char, c.val.toNat = n :=
  ⟨Char.ofNatAux n h, rfl⟩

theorem ofNat_eq (n : Nat) (byte : UInt8) (h : n = byte.toNat) : UInt8.ofNat n = byte := by
  rw [h, UInt8.ofNat_toNat]

theorem isUtf8_two (a b : UInt8) (ha : followers a = 1) (hb : continues [a] b = true) :
    IsUtf8 [a, b] := by
  rw [continues_lead, lowest_le_iff, le_highest_iff] at hb
  rw [followers_eq] at ha
  have hlead : 0xC2 ≤ a.toNat ∧ a.toNat ≤ 0xDF := by
    split at ha
    · assumption
    · split at ha
      · omega
      · split at ha <;> omega
  obtain ⟨c, hc⟩ := exists_scalar ((a.toNat - 0xC0) * 64 + (b.toNat - 0x80)) (by omega)
  have hencode : String.utf8EncodeChar c = [a, b] := by
    unfold String.utf8EncodeChar
    dsimp only
    rw [hc, if_neg (by omega), if_pos (by omega), ofNat_eq _ a (by omega), ofNat_eq _ b (by omega)]
  rw [← hencode]
  exact isUtf8_char c

theorem isUtf8_three (a b c : UInt8) (ha : followers a = 2) (hb : continues [a] b = true)
    (hc : continues [a, b] c = true) : IsUtf8 [a, b, c] := by
  rw [continues_later] at hc
  rw [continues_lead, lowest_le_iff, le_highest_iff] at hb
  rw [followers_eq] at ha
  have hlead : 0xE0 ≤ a.toNat ∧ a.toNat ≤ 0xEF := by
    split at ha
    · omega
    · split at ha
      · assumption
      · split at ha <;> omega
  obtain ⟨scalar, hscalar⟩ := exists_scalar
    ((a.toNat - 0xE0) * 4096 + (b.toNat - 0x80) * 64 + (c.toNat - 0x80)) (by omega)
  have hencode : String.utf8EncodeChar scalar = [a, b, c] := by
    unfold String.utf8EncodeChar
    dsimp only
    rw [hscalar, if_neg (by omega), if_neg (by omega), if_pos (by omega),
      ofNat_eq _ a (by omega), ofNat_eq _ b (by omega), ofNat_eq _ c (by omega)]
  rw [← hencode]
  exact isUtf8_char scalar

theorem isUtf8_four (a b c d : UInt8) (ha : followers a = 3) (hb : continues [a] b = true)
    (hc : continues [a, b] c = true) (hd : continues [a, b, c] d = true) :
    IsUtf8 [a, b, c, d] := by
  rw [continues_later] at hc hd
  rw [continues_lead, lowest_le_iff, le_highest_iff] at hb
  rw [followers_eq] at ha
  have hlead : 0xF0 ≤ a.toNat ∧ a.toNat ≤ 0xF4 := by
    split at ha
    · omega
    · split at ha
      · omega
      · split at ha
        · assumption
        · omega
  obtain ⟨scalar, hscalar⟩ := exists_scalar ((a.toNat - 0xF0) * 262144 +
    (b.toNat - 0x80) * 4096 + (c.toNat - 0x80) * 64 + (d.toNat - 0x80)) (by omega)
  have hencode : String.utf8EncodeChar scalar = [a, b, c, d] := by
    unfold String.utf8EncodeChar
    dsimp only
    rw [hscalar, if_neg (by omega), if_neg (by omega), if_neg (by omega),
      ofNat_eq _ a (by omega), ofNat_eq _ b (by omega), ofNat_eq _ c (by omega),
      ofNat_eq _ d (by omega)]
  rw [← hencode]
  exact isUtf8_char scalar

inductive Begun : Str → Nat → Prop
  | fresh : Begun [] 0
  | one (a : UInt8) (ha : followers a ≠ 0) : Begun [a] (followers a)
  | two (a b : UInt8) (missing : Nat) (ha : followers a = missing + 1) (hmissing : missing ≠ 0)
      (hb : continues [a] b = true) : Begun [a, b] missing
  | three (a b c : UInt8) (ha : followers a = 3) (hb : continues [a] b = true)
      (hc : continues [a, b] c = true) : Begun [a, b, c] 1

theorem followers_le (lead : UInt8) : followers lead ≤ 3 := by
  rw [followers_eq]
  split
  · omega
  · split
    · omega
    · split <;> omega

theorem Begun.last {pending : Str} (h : Begun pending 1) (byte : UInt8)
    (hbyte : continues pending byte = true) : IsUtf8 (pending ++ [byte]) := by
  generalize hone : 1 = missing at h
  cases h with
  | fresh => omega
  | one a ha => exact isUtf8_two a byte hone.symm hbyte
  | two a b _ ha hmissing hb => exact isUtf8_three a b byte (by omega) hb hbyte
  | three a b c ha hb hc => exact isUtf8_four a b c byte ha hb hc hbyte

theorem Begun.more {pending : Str} {missing : Nat} (h : Begun pending missing) (byte : UInt8)
    (hpending : pending ≠ []) (hmissing : missing ≠ 1) (hbyte : continues pending byte = true) :
    Begun (pending ++ [byte]) (missing - 1) := by
  cases h with
  | fresh => exact absurd rfl hpending
  | one a ha => exact Begun.two a byte _ (by omega) (by omega) hbyte
  | two a b _ ha hne hb =>
    have hle := followers_le a
    have htwo : missing - 1 = 1 := by omega
    rw [htwo]
    exact Begun.three a b byte (by omega) hb hbyte
  | three a b c ha hb hc => exact absurd rfl hmissing

theorem isUtf8_replacement : IsUtf8 replacement := by decide

theorem isUtf8_lossyFrom (bytes pending : Str) (missing : Nat) (h : Begun pending missing) :
    IsUtf8 (lossyFrom pending missing bytes) := by
  induction bytes generalizing pending missing with
  | nil =>
    rw [lossyFrom]
    split
    · decide
    · exact isUtf8_replacement
  | cons byte rest ih =>
    have hfresh : IsUtf8 (lossyFrom [] 0 (byte :: rest)) := by
      rw [lossyFrom_fresh]
      split
      · rename_i hascii
        have hbyte : IsUtf8 [byte] := isUtf8_ascii [byte] (by simpa using hascii)
        exact hbyte.append (ih [] 0 Begun.fresh)
      · split
        · exact isUtf8_replacement.append (ih [] 0 Begun.fresh)
        · rename_i hlead
          exact ih [byte] _ (Begun.one byte hlead)
    by_cases hpending : pending = []
    · subst hpending
      have hzero : missing = 0 := by
        cases h
        rfl
      rw [hzero]
      exact hfresh
    · cases hbyte : continues pending byte with
      | false =>
        rw [lossyFrom_break pending missing byte rest hpending hbyte]
        exact isUtf8_replacement.append hfresh
      | true =>
        rw [lossyFrom, if_pos ⟨hpending, hbyte⟩]
        split
        · rename_i hone
          rw [hone] at h
          have hwhole := (h.last byte hbyte).append (ih [] 0 Begun.fresh)
          rwa [List.append_assoc, List.singleton_append] at hwhole
        · rename_i hmore
          exact ih _ _ (h.more byte hpending hmore hbyte)

theorem isUtf8_fromUtf8Lossy (bytes : Str) : IsUtf8 (fromUtf8Lossy bytes) :=
  isUtf8_lossyFrom bytes [] 0 Begun.fresh

theorem fromUtf8Lossy_eq_iff (bytes : Str) : fromUtf8Lossy bytes = bytes ↔ IsUtf8 bytes :=
  ⟨fun h => h ▸ isUtf8_fromUtf8Lossy bytes, fromUtf8Lossy_utf8 bytes⟩

end Peryx.Query
