import Peryx.Core.Lossy

/-! # Where bytes stop being a text -/

namespace Peryx.Query
open Str

structure Utf8Error where
  validUpTo : Nat
  /-- `none` when the bytes end inside a sequence. -/
  errorLen : Option Nat
  deriving DecidableEq

def utf8ErrorFrom (validUpTo : Nat) (pending : Str) (missing : Nat) : Str → Option Utf8Error
  | [] => if pending = [] then none else some ⟨validUpTo, none⟩
  | byte :: rest =>
    if pending = [] then
      if byte < 0x80 then utf8ErrorFrom (validUpTo + 1) [] 0 rest
      else if followers byte = 0 then some ⟨validUpTo, some 1⟩
      else utf8ErrorFrom validUpTo [byte] (followers byte) rest
    else if continues pending byte then
      if missing = 1 then utf8ErrorFrom (validUpTo + pending.length + 1) [] 0 rest
      else utf8ErrorFrom validUpTo (pending ++ [byte]) (missing - 1) rest
    else some ⟨validUpTo, some pending.length⟩

def utf8Error (bytes : Str) : Option Utf8Error := utf8ErrorFrom 0 [] 0 bytes

section Sequences
variable (validUpTo : Nat) (rest : Str)

theorem utf8ErrorFrom_lead (a : UInt8) (ha : ¬ a < 0x80) (hlead : followers a ≠ 0) :
    utf8ErrorFrom validUpTo [] 0 (a :: rest) = utf8ErrorFrom validUpTo [a] (followers a) rest := by
  rw [utf8ErrorFrom, if_pos rfl, if_neg ha, if_neg hlead]

theorem utf8ErrorFrom_more (pending : Str) (missing : Nat) (byte : UInt8) (hpending : pending ≠ [])
    (hmissing : missing ≠ 1) (h : continues pending byte = true) :
    utf8ErrorFrom validUpTo pending missing (byte :: rest) =
      utf8ErrorFrom validUpTo (pending ++ [byte]) (missing - 1) rest := by
  rw [utf8ErrorFrom, if_neg hpending, if_pos h, if_neg hmissing]

theorem utf8ErrorFrom_last (pending : Str) (byte : UInt8) (hpending : pending ≠ [])
    (h : continues pending byte = true) :
    utf8ErrorFrom validUpTo pending 1 (byte :: rest) =
      utf8ErrorFrom (validUpTo + pending.length + 1) [] 0 rest := by
  rw [utf8ErrorFrom, if_neg hpending, if_pos h, if_pos rfl]

theorem utf8ErrorFrom_end (pending : Str) (missing : Nat) (hpending : pending ≠ []) :
    utf8ErrorFrom validUpTo pending missing [] = some ⟨validUpTo, none⟩ := by
  rw [utf8ErrorFrom, if_neg hpending]

theorem utf8ErrorFrom_sequence {sequence : Str} (h : Sequence sequence) :
    utf8ErrorFrom validUpTo [] 0 (sequence ++ rest) =
      utf8ErrorFrom (validUpTo + sequence.length) [] 0 rest := by
  cases h with
  | one a ha =>
    rw [List.singleton_append, utf8ErrorFrom, if_pos rfl, if_pos ha]
    rfl
  | two a b ha hlead hb =>
    change utf8ErrorFrom validUpTo [] 0 (a :: b :: rest) = _
    rw [utf8ErrorFrom_lead _ _ a ha (by omega), hlead, utf8ErrorFrom_last _ _ _ b (by simp) hb]
    rfl
  | three a b c ha hlead hb hc =>
    change utf8ErrorFrom validUpTo [] 0 (a :: b :: c :: rest) = _
    rw [utf8ErrorFrom_lead _ _ a ha (by omega), hlead,
      utf8ErrorFrom_more _ _ _ 2 b (by simp) (by omega) hb]
    exact utf8ErrorFrom_last _ _ [a, b] c (by simp) hc
  | four a b c d ha hlead hb hc hd =>
    change utf8ErrorFrom validUpTo [] 0 (a :: b :: c :: d :: rest) = _
    rw [utf8ErrorFrom_lead _ _ a ha (by omega), hlead,
      utf8ErrorFrom_more _ _ _ 3 b (by simp) (by omega) hb]
    refine (utf8ErrorFrom_more _ _ [a, b] 2 c (by simp) (by omega) hc).trans ?_
    exact utf8ErrorFrom_last _ _ [a, b, c] d (by simp) hd

theorem utf8ErrorFrom_cut {sequence : Str} (h : Sequence sequence) (k : Nat) (hpos : 0 < k)
    (hk : k < sequence.length) :
    utf8ErrorFrom validUpTo [] 0 (sequence.take k) = some ⟨validUpTo, none⟩ := by
  cases h with
  | one a ha =>
    rw [List.length_singleton] at hk
    omega
  | two a b ha hlead hb =>
    have hone : k = 1 := by
      simp only [List.length_cons, List.length_nil] at hk
      omega
    subst hone
    change utf8ErrorFrom validUpTo [] 0 [a] = _
    rw [utf8ErrorFrom_lead _ _ a ha (by omega), utf8ErrorFrom_end _ [a] _ (by simp)]
  | three a b c ha hlead hb hc =>
    have hle : k = 1 ∨ k = 2 := by
      simp only [List.length_cons, List.length_nil] at hk
      omega
    rcases hle with rfl | rfl
    · change utf8ErrorFrom validUpTo [] 0 [a] = _
      rw [utf8ErrorFrom_lead _ _ a ha (by omega), utf8ErrorFrom_end _ [a] _ (by simp)]
    · change utf8ErrorFrom validUpTo [] 0 [a, b] = _
      rw [utf8ErrorFrom_lead _ _ a ha (by omega), hlead,
        utf8ErrorFrom_more _ _ _ 2 b (by simp) (by omega) hb]
      exact utf8ErrorFrom_end _ [a, b] _ (by simp)
  | four a b c d ha hlead hb hc hd =>
    have hle : k = 1 ∨ k = 2 ∨ k = 3 := by
      simp only [List.length_cons, List.length_nil] at hk
      omega
    rcases hle with rfl | rfl | rfl
    · change utf8ErrorFrom validUpTo [] 0 [a] = _
      rw [utf8ErrorFrom_lead _ _ a ha (by omega), utf8ErrorFrom_end _ [a] _ (by simp)]
    · change utf8ErrorFrom validUpTo [] 0 [a, b] = _
      rw [utf8ErrorFrom_lead _ _ a ha (by omega), hlead,
        utf8ErrorFrom_more _ _ _ 3 b (by simp) (by omega) hb]
      exact utf8ErrorFrom_end _ [a, b] _ (by simp)
    · change utf8ErrorFrom validUpTo [] 0 [a, b, c] = _
      rw [utf8ErrorFrom_lead _ _ a ha (by omega), hlead,
        utf8ErrorFrom_more _ _ _ 3 b (by simp) (by omega) hb]
      refine (utf8ErrorFrom_more _ _ [a, b] 2 c (by simp) (by omega) hc).trans ?_
      exact utf8ErrorFrom_end _ [a, b, c] _ (by simp)

end Sequences

theorem Sequence.length_le {sequence : Str} (h : Sequence sequence) :
    0 < sequence.length ∧ sequence.length ≤ 4 := by
  cases h <;> simp

theorem utf8ErrorFrom_encoded (scalars : List Char) (validUpTo : Nat) :
    utf8ErrorFrom validUpTo [] 0 (encoded scalars).flatten = none := by
  induction scalars generalizing validUpTo with
  | nil => rfl
  | cons c scalars ih => exact (utf8ErrorFrom_sequence validUpTo _ (sequence_char c)).trans (ih _)

theorem utf8Error_utf8 (text : Str) (h : IsUtf8 text) : utf8Error text = none := by
  obtain ⟨s, rfl⟩ := exists_str text h
  rw [str_encoded]
  exact utf8ErrorFrom_encoded s.toList 0

structure CutAt (text : Str) (k stop : Nat) : Prop where
  le : stop ≤ min k text.length
  short : min k text.length < stop + 4
  front : IsUtf8 (text.take stop)
  rest : IsUtf8 (text.drop stop)

theorem cut_encoded (scalars : List Char) (validUpTo k : Nat) :
    ∃ stop, CutAt (encoded scalars).flatten k stop ∧
      utf8ErrorFrom validUpTo [] 0 ((encoded scalars).flatten.take k) =
        if stop = min k (encoded scalars).flatten.length then none
        else some ⟨validUpTo + stop, none⟩ := by
  induction scalars generalizing validUpTo k with
  | nil =>
    refine ⟨0, ⟨by simp, by simp [encoded], by decide, by decide⟩, ?_⟩
    simp [encoded, utf8ErrorFrom]
  | cons c scalars ih =>
    have hseq := sequence_char c
    have hlen := hseq.length_le
    have hwhole : IsUtf8 (String.utf8EncodeChar c) := isUtf8_char c
    have hrest : IsUtf8 (encoded scalars).flatten := by
      rw [← str_ofList]
      exact isUtf8_str _
    have hflat : (encoded (c :: scalars)).flatten =
        String.utf8EncodeChar c ++ (encoded scalars).flatten := rfl
    rw [hflat]
    generalize String.utf8EncodeChar c = first at *
    by_cases hk : k < first.length
    · have hmin : min k (first ++ (encoded scalars).flatten).length = k := by
        rw [List.length_append]
        omega
      refine ⟨0, ⟨by omega, by omega, isUtf8_str "", hwhole.append hrest⟩, ?_⟩
      rw [hmin, List.take_append_of_le_length hk.le]
      by_cases hzero : k = 0
      · rw [hzero, if_pos rfl]
        rfl
      · rw [if_neg (Ne.symm hzero), utf8ErrorFrom_cut validUpTo hseq k (by omega) hk]
        rfl
    · obtain ⟨stop, hcut, herror⟩ := ih (validUpTo + first.length) (k - first.length)
      have hmin : min k (first ++ (encoded scalars).flatten).length =
          first.length + min (k - first.length) (encoded scalars).flatten.length := by
        rw [List.length_append]
        omega
      have hle := hcut.le
      have hshort := hcut.short
      refine ⟨first.length + stop, ⟨by omega, by omega, ?_, ?_⟩, ?_⟩
      · rw [List.take_length_add_append]
        exact hwhole.append hcut.front
      · rw [List.drop_length_add_append]
        exact hcut.rest
      · have htake : (first ++ (encoded scalars).flatten).take k =
            first ++ (encoded scalars).flatten.take (k - first.length) := by
          rw [List.take_append, List.take_of_length_le (by omega)]
        rw [htake, utf8ErrorFrom_sequence _ _ hseq, herror, hmin, Nat.add_assoc]
        simp only [Nat.add_left_cancel_iff]

theorem utf8Error_take (text : Str) (h : IsUtf8 text) (k : Nat) :
    ∃ stop, CutAt text k stop ∧ utf8Error (text.take k) =
      if stop = min k text.length then none else some ⟨stop, none⟩ := by
  obtain ⟨s, rfl⟩ := exists_str text h
  rw [str_encoded]
  obtain ⟨stop, hcut, herror⟩ := cut_encoded s.toList 0 k
  refine ⟨stop, hcut, ?_⟩
  rw [Nat.zero_add] at herror
  exact herror

theorem IsUtf8.no_continuation (text : Str) (h : IsUtf8 text) :
    text.takeWhile isContinuation = [] := by
  obtain ⟨s, rfl⟩ := exists_str text h
  rw [str_encoded]
  have hat := atBoundary_flatten (encoded s.toList) (encoded_utf8 s.toList)
  generalize (encoded s.toList).flatten = bytes at hat
  cases bytes with
  | nil => rfl
  | cons byte rest => rw [List.takeWhile_cons_of_neg (by simp [hat byte (by simp)])]

end Peryx.Query
