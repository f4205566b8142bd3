import Peryx.Core.Chars
import Peryx.Library.WildcardPositions

/-! # The bytes of a string and its scalar values -/

namespace Peryx.Str

def encoded (scalars : List Char) : List Str := scalars.map String.utf8EncodeChar

theorem isContinuation_low (low : Nat) (h : low < 64) :
    isContinuation (UInt8.ofNat (low + 0x80)) = true := by
  simp only [isContinuation, Bool.and_eq_true, decide_eq_true_eq, UInt8.le_iff_toNat_le,
    UInt8.lt_iff_toNat_lt, UInt8.toNat_ofNat']
  have hsmall : (low + 0x80) % 2 ^ 8 = low + 0x80 := Nat.mod_eq_of_lt (by omega)
  rw [hsmall]
  exact ⟨by simp, by simp; omega⟩

theorem charWidth_of_toNat (lead : UInt8) : charWidth lead =
    if lead.toNat < 0x80 then 1 else if lead.toNat < 0xC0 then 0
    else if lead.toNat < 0xE0 then 2 else if lead.toNat < 0xF0 then 3 else 4 := by
  simp only [charWidth, UInt8.lt_iff_toNat_lt]
  rfl

theorem toNat_lead (high base : Nat) (h : high + base < 256) :
    (UInt8.ofNat (high + base)).toNat = high + base := by
  rw [UInt8.toNat_ofNat']
  exact Nat.mod_eq_of_lt h

theorem isUtf8Char_encode (c : Char) : IsUtf8Char (String.utf8EncodeChar c) := by
  unfold String.utf8EncodeChar
  dsimp only
  have hlow : ∀ n : Nat, isContinuation (UInt8.ofNat (n % 0x40 + 0x80)) = true :=
    fun n => isContinuation_low (n % 0x40) (Nat.mod_lt n (by omega))
  split
  · rename_i hv
    refine ⟨_, [], rfl, ?_, nofun⟩
    have hlead : (UInt8.ofNat c.val.toNat).toNat = c.val.toNat := by
      have := toNat_lead c.val.toNat 0 (by omega)
      simpa using this
    rw [charWidth_of_toNat, hlead, if_pos (by omega)]
    rfl
  · split
    · refine ⟨_, _, rfl, ?_, ?_⟩
      · have hsmall : c.val.toNat / 64 % 0x20 < 0x20 := Nat.mod_lt _ (by omega)
        rw [charWidth_of_toNat, toNat_lead _ _ (by omega), if_neg (by omega), if_neg (by omega),
          if_pos (by omega)]
        rfl
      · intro byte hbyte
        rw [List.mem_singleton] at hbyte
        rw [hbyte]
        exact hlow _
    · split
      · refine ⟨_, _, rfl, ?_, ?_⟩
        · have hsmall : c.val.toNat / 4096 % 0x10 < 0x10 := Nat.mod_lt _ (by omega)
          rw [charWidth_of_toNat, toNat_lead _ _ (by omega), if_neg (by omega), if_neg (by omega),
            if_neg (by omega), if_pos (by omega)]
          rfl
        · intro byte hbyte
          simp only [List.mem_cons, List.not_mem_nil, or_false] at hbyte
          rcases hbyte with rfl | rfl
          · exact hlow _
          · exact hlow _
      · refine ⟨_, _, rfl, ?_, ?_⟩
        · have hsmall : c.val.toNat / 262144 % 0x08 < 0x08 := Nat.mod_lt _ (by omega)
          rw [charWidth_of_toNat, toNat_lead _ _ (by omega), if_neg (by omega), if_neg (by omega),
            if_neg (by omega), if_neg (by omega)]
          rfl
        · intro byte hbyte
          simp only [List.mem_cons, List.not_mem_nil, or_false] at hbyte
          rcases hbyte with rfl | rfl | rfl
          · exact hlow _
          · exact hlow _
          · exact hlow _

theorem encoded_utf8 (scalars : List Char) : ∀ ch ∈ encoded scalars, IsUtf8Char ch := by
  intro ch hch
  obtain ⟨c, _, rfl⟩ := List.mem_map.mp hch
  exact isUtf8Char_encode c

theorem utf8EncodeChar_injective : Function.Injective String.utf8EncodeChar := by
  intro a b h
  have hencode : [a].utf8Encode = [b].utf8Encode := by
    rw [List.utf8Encode_singleton, List.utf8Encode_singleton, h]
  have hstring : String.ofList [a] = String.ofList [b] := by
    apply String.toByteArray_inj.mp
    rw [String.toByteArray_ofList, String.toByteArray_ofList, hencode]
  have hlist : [a] = [b] := by
    rw [← String.toList_ofList (l := [a]), hstring, String.toList_ofList]
  exact List.singleton_inj.mp hlist

theorem str_encoded (s : String) : str s = (encoded s.toList).flatten := by
  have hbytes : s.toUTF8 = s.toList.utf8Encode := (String.utf8Encode_toList (b := s)).symm
  unfold str encoded
  rw [hbytes, List.utf8Encode, List.flatMap_def]
  simp

theorem str_append (s t : String) : str (s ++ t) = str s ++ str t := by
  rw [str_encoded, str_encoded s, str_encoded t, String.toList_append, encoded, encoded, encoded,
    List.map_append, List.flatten_append]

theorem str_ofList (scalars : List Char) :
    str (String.ofList scalars) = (encoded scalars).flatten := by
  rw [str_encoded, String.toList_ofList]

theorem cut_flatten (groups : List Str) (h : ∀ ch ∈ groups, IsUtf8Char ch) (front rest : Str)
    (heq : groups.flatten = front ++ rest) :
    AtBoundary rest ∨ ∃ before first more, front = before ++ first ∧ IsUtf8Char (first ++ more) ∧
      first ≠ [] ∧ more ≠ [] := by
  induction groups generalizing front with
  | nil =>
    obtain ⟨_, rfl⟩ := List.append_eq_nil_iff.mp heq.symm
    exact Or.inl nofun
  | cons ch groups ih =>
    have hgroups := fun c hc => h c (List.mem_cons_of_mem ch hc)
    rw [List.flatten_cons] at heq
    rcases List.append_eq_append_iff.mp heq with ⟨middle, hfront, hrest⟩ | ⟨middle, hch, hrest⟩
    · rcases ih hgroups middle hrest with hat | ⟨before, first, more, hmiddle, hchar, hne, hmore⟩
      · exact Or.inl hat
      · exact Or.inr ⟨ch ++ before, first, more, by rw [hfront, hmiddle, List.append_assoc],
          hchar, hne, hmore⟩
    · have hchar := h ch List.mem_cons_self
      by_cases hmiddle : middle = []
      · rw [hmiddle, List.nil_append] at hrest
        rw [hrest]
        exact Or.inl (atBoundary_flatten groups hgroups)
      · by_cases hfront : front = []
        · rw [hfront, List.nil_append] at hch
          rw [hrest, ← hch, ← List.flatten_cons]
          exact Or.inl (atBoundary_flatten (ch :: groups) h)
        · exact Or.inr ⟨[], front, middle, rfl, hch ▸ hchar, hfront, hmiddle⟩

theorem not_suffix_of_longer (groups : List Str) (h : ∀ ch ∈ groups, IsUtf8Char ch)
    (first more : Str) (hchar : IsUtf8Char (first ++ more)) (hne : first ≠ []) (hmore : more ≠ []) :
    ¬ first <:+ groups.flatten := by
  intro hsuffix
  obtain ⟨lead, tail, hsplit, hlength, _⟩ := hchar
  obtain ⟨byte, rest, rfl⟩ := List.exists_cons_of_ne_nil hne
  rw [List.cons_append, List.cons.injEq] at hsplit
  obtain ⟨rfl, hsplit⟩ := hsplit
  have hlead : isContinuation byte = false := by
    apply isContinuation_width
    rw [← hlength]
    simp
  have hboundary : AtBoundary (byte :: rest) := by
    intro b hb
    rw [List.head?_cons, Option.mem_some_iff] at hb
    rw [← hb]
    exact hlead
  obtain ⟨later, hlater, heq⟩ := suffix_flatten groups h (byte :: rest) hsuffix hboundary
  cases later with
  | nil => cases heq
  | cons ch later =>
    obtain ⟨lead', tail', rfl, hlength', _⟩ := h ch (hlater.subset List.mem_cons_self)
    rw [List.flatten_cons, List.cons_append, List.cons.injEq] at heq
    obtain ⟨rfl, htail⟩ := heq
    have hshort : tail'.length ≤ rest.length := by
      rw [← htail, List.length_append]
      omega
    have hlong := List.length_pos_iff.mpr hmore
    simp only [List.cons_append, List.length_cons, List.length_append] at hlength hlength'
    omega

theorem remainder_atBoundary (pattern start : List Str) (hp : ∀ ch ∈ pattern, IsUtf8Char ch)
    (hs : ∀ ch ∈ start, IsUtf8Char ch) (rest : Str)
    (h : rest ∈ Wildcard.remaindersAfter starByte pattern.flatten start.flatten) :
    AtBoundary rest := by
  obtain ⟨front, hsplit, hfront⟩ := Wildcard.remaindersAfter_consumed starByte _ _ rest h
  rcases hfront with hcovers | hstar
  · rcases cut_flatten pattern hp front rest hsplit with
      hat | ⟨before, first, more, hcut, hchar, hne, hmore⟩
    · exact hat
    · -- the letters of a half character would have to end the prefix
      have hletters : starByte ∉ first ++ more := by
        apply star_not_mem_char _ hchar
        intro hsingle
        have hone := congrArg List.length hsingle
        have hlong := List.length_pos_iff.mpr hmore
        have hfirst := List.length_pos_iff.mpr hne
        simp only [List.length_append, List.length_singleton] at hone
        omega
      rw [hcut] at hcovers
      obtain ⟨u, v, hstart, _, hd⟩ := (Wildcard.denotes_append starByte before first _).mp hcovers
      have hv := (Wildcard.denotes_literal starByte first v
        (fun hmem => hletters (List.mem_append_left more hmem))).mp hd
      rw [hv] at hstart
      exact absurd ⟨u, hstart.symm⟩ (not_suffix_of_longer start hs first more hchar hne hmore)
  · intro byte hbyte
    rw [hstar, Option.mem_some_iff] at hbyte
    rw [← hbyte]
    rfl

theorem remainder_encoded (pattern start : String) (rest : Str)
    (h : rest ∈ Wildcard.remaindersAfter starByte (str pattern) (str start)) :
    ∃ later, later <:+ pattern.toList ∧ rest = str (String.ofList later) := by
  rw [str_encoded, str_encoded start] at h
  have hboundary := remainder_atBoundary _ _ (encoded_utf8 pattern.toList)
    (encoded_utf8 start.toList) rest h
  obtain ⟨front, hsplit, _⟩ := Wildcard.remaindersAfter_consumed starByte _ _ rest h
  obtain ⟨later, hlater, hrest⟩ := suffix_flatten _ (encoded_utf8 pattern.toList) rest
    ⟨front, hsplit.symm⟩ hboundary
  obtain ⟨scalars, hscalars, rfl⟩ := List.suffix_map_iff.mp hlater
  exact ⟨scalars, hscalars, by rw [← hrest, str_ofList, encoded]⟩

theorem denotes_str (pattern subject : String) :
    Wildcard.Denotes starByte (str pattern) (str subject) ↔
      Wildcard.Denotes '*' pattern.toList subject.toList := by
  have hstar : String.utf8EncodeChar '*' = [starByte] := rfl
  rw [str_encoded, str_encoded subject, denotes_flatten _ _ (encoded_utf8 _) (encoded_utf8 _),
    ← hstar]
  exact Wildcard.denotes_map '*' String.utf8EncodeChar utf8EncodeChar_injective _ _

end Peryx.Str
