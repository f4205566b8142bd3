import Peryx.Core.Text
import Peryx.Library.WildcardPrefix

/-! # Characters of a text -/

namespace Peryx.Str

def charWidth (lead : UInt8) : Nat :=
  if lead < 0x80 then 1 else if lead < 0xC0 then 0 else if lead < 0xE0 then 2
  else if lead < 0xF0 then 3 else 4

def IsUtf8Char (ch : Str) : Prop :=
  ∃ lead tail, ch = lead :: tail ∧ ch.length = charWidth lead ∧
    ∀ byte ∈ tail, isContinuation byte = true

def IsText (subject : Str) : Prop := ∀ ch ∈ chars subject, IsUtf8Char ch

theorem isContinuation_width (byte : UInt8) (h : charWidth byte ≠ 0) :
    isContinuation byte = false := by
  unfold charWidth at h
  unfold isContinuation
  split at h
  · rename_i hascii
    have hlow : ¬ (0x80 : UInt8) ≤ byte := UInt8.not_le.mpr hascii
    simp [hlow]
  · split at h
    · exact absurd rfl h
    · rename_i hhigh
      simp [hhigh]

theorem IsUtf8Char.lead_not_continuation (lead : UInt8) (tail : Str)
    (h : IsUtf8Char (lead :: tail)) : isContinuation lead = false := by
  obtain ⟨lead', tail', heq, hlength, _⟩ := h
  cases heq
  apply isContinuation_width
  rw [← hlength]
  simp

theorem chars_head (byte : UInt8) (rest : Str) :
    ∃ tail groups, chars (byte :: rest) = (byte :: tail) :: groups := by
  unfold chars
  split
  · split
    · exact ⟨_, _, rfl⟩
    · exact ⟨[], _, rfl⟩
  · exact ⟨[], _, rfl⟩

theorem chars_ascii (byte : UInt8) (rest : Str) (h : byte < 0x80) :
    chars (byte :: rest) = [byte] :: chars rest := by
  have hlow : ¬ (0x80 : UInt8) ≤ byte := UInt8.not_le.mpr h
  conv => lhs; unfold chars
  split
  · rename_i hrest
    rw [if_neg (fun hboth => hlow hboth.1), hrest]
  · rfl

def AtBoundary (subject : Str) : Prop := ∀ byte ∈ subject.head?, isContinuation byte = false

theorem chars_boundary (byte : UInt8) (rest : Str) (h : AtBoundary rest) :
    chars (byte :: rest) = [byte] :: chars rest := by
  cases rest with
  | nil => rfl
  | cons next rest =>
    obtain ⟨tail, groups, hgroups⟩ := chars_head next rest
    conv => lhs; unfold chars
    rw [hgroups]
    have hnext : isContinuation next = false := h next (by simp)
    simp [hnext]

theorem chars_continuations (byte : UInt8) (tail rest : Str)
    (h : ∀ b ∈ byte :: tail, isContinuation b = true) (hrest : AtBoundary rest) :
    chars (byte :: tail ++ rest) = (byte :: tail) :: chars rest := by
  induction tail generalizing byte with
  | nil => exact chars_boundary byte rest hrest
  | cons next tail ih =>
    have hgroups := ih next fun b hb => h b (List.mem_cons_of_mem _ hb)
    have hbyte : (0x80 : UInt8) ≤ byte := by
      have := h byte List.mem_cons_self
      simp only [isContinuation, Bool.and_eq_true, decide_eq_true_eq] at this
      exact this.1
    have hnext : isContinuation next = true := h next (by simp)
    rw [List.cons_append]
    conv => lhs; unfold chars
    rw [hgroups]
    simp [hbyte, hnext]

theorem chars_append_char (ch rest : Str) (hch : IsUtf8Char ch) (hrest : AtBoundary rest) :
    chars (ch ++ rest) = ch :: chars rest := by
  obtain ⟨lead, tail, rfl, hlength, htail⟩ := hch
  cases tail with
  | nil => exact chars_boundary lead rest hrest
  | cons next tail =>
    have hlead : (0x80 : UInt8) ≤ lead := by
      by_contra hlow
      rw [charWidth, if_pos (UInt8.not_le.mp hlow)] at hlength
      simp at hlength
    have hnext : isContinuation next = true := htail next List.mem_cons_self
    rw [List.cons_append]
    conv => lhs; unfold chars
    rw [chars_continuations next tail rest htail hrest]
    simp [hlead, hnext]

theorem atBoundary_flatten (groups : List Str) (h : ∀ ch ∈ groups, IsUtf8Char ch) :
    AtBoundary groups.flatten := by
  cases groups with
  | nil => nofun
  | cons ch groups =>
    obtain ⟨lead, tail, rfl, hlength, htail⟩ := h ch List.mem_cons_self
    intro byte hbyte
    simp only [List.flatten_cons, List.cons_append, List.head?_cons, Option.mem_some_iff] at hbyte
    rw [← hbyte]
    exact IsUtf8Char.lead_not_continuation lead tail ⟨lead, tail, rfl, hlength, htail⟩

theorem chars_flatten_chars (groups : List Str) (h : ∀ ch ∈ groups, IsUtf8Char ch) :
    chars groups.flatten = groups := by
  induction groups with
  | nil => rfl
  | cons ch groups ih =>
    have hgroups := fun c hc => h c (List.mem_cons_of_mem ch hc)
    rw [List.flatten_cons, chars_append_char ch _ (h ch List.mem_cons_self)
      (atBoundary_flatten groups hgroups), ih hgroups]

theorem chars_append_ascii (front rest : Str) (byte : UInt8) (h : byte < 0x80) :
    chars (front ++ byte :: rest) = chars front ++ [byte] :: chars rest := by
  have hboundary : isContinuation byte = false :=
    isContinuation_width byte (by rw [charWidth, if_pos h]; exact Nat.one_ne_zero)
  induction front with
  | nil => exact chars_ascii byte rest h
  | cons first front ih =>
    rw [List.cons_append]
    conv => lhs; unfold chars
    conv => rhs; arg 1; unfold chars
    rw [ih]
    cases hf : chars front with
    | nil => simp [hboundary]
    | cons group groups =>
      cases group with
      | nil =>
        exfalso
        rcases chars_isChar front [] (by rw [hf]; exact List.mem_cons_self) with ⟨_, hnil, _⟩ | _
        · cases hnil
        · cases front with
          | nil => cases hf
          | cons b rest =>
            obtain ⟨tail, groups', hg⟩ := chars_head b rest
            rw [hg] at hf
            cases hf
      | cons next tail =>
        dsimp only [List.cons_append]
        split <;> rfl

theorem isUtf8Char_ascii (byte : UInt8) (h : byte < 0x80) : IsUtf8Char [byte] :=
  ⟨byte, [], rfl, by rw [charWidth, if_pos h]; rfl, nofun⟩

theorem isText_ascii (subject : Str) (h : ∀ byte ∈ subject, byte < 0x80) : IsText subject := by
  induction subject with
  | nil => nofun
  | cons byte rest ih =>
    have hbyte := h byte List.mem_cons_self
    intro ch hch
    rw [chars_ascii byte rest hbyte] at hch
    rcases List.mem_cons.mp hch with rfl | hch
    · exact isUtf8Char_ascii byte hbyte
    · exact ih (fun b hb => h b (List.mem_cons_of_mem _ hb)) ch hch

theorem IsText.behind_ascii (front rest : Str) (byte : UInt8) (hbyte : byte < 0x80)
    (h : IsText (front ++ byte :: rest)) : IsText (byte :: rest) ∧ IsText rest := by
  have hrest : ∀ ch ∈ [byte] :: chars rest, IsUtf8Char ch := by
    intro ch hch
    apply h
    rw [chars_append_ascii front rest byte hbyte]
    exact List.mem_append_right _ hch
  constructor
  · intro ch hch
    rw [chars_ascii byte rest hbyte] at hch
    exact hrest ch hch
  · exact fun ch hch => hrest ch (List.mem_cons_of_mem _ hch)

theorem suffix_flatten (groups : List Str) (h : ∀ ch ∈ groups, IsUtf8Char ch) (tail : Str)
    (hsuffix : tail <:+ groups.flatten) (hboundary : AtBoundary tail) :
    ∃ later, later <:+ groups ∧ later.flatten = tail := by
  induction groups with
  | nil =>
    obtain rfl : tail = [] := by simpa using hsuffix
    exact ⟨[], List.suffix_refl _, rfl⟩
  | cons ch groups ih =>
    have hgroups := fun c hc => h c (List.mem_cons_of_mem ch hc)
    obtain ⟨lead, rest, rfl, _, hrest⟩ := h ch List.mem_cons_self
    obtain ⟨cut, hcut⟩ := hsuffix
    rw [List.flatten_cons] at hcut
    rcases List.append_eq_append_iff.mp hcut with ⟨middle, hch, htail⟩ | ⟨middle, hcut', hflat⟩
    · -- the suffix starts inside the first character: at its lead or behind it
      cases cut with
      | nil =>
        rw [List.nil_append] at hch
        exact ⟨_, List.suffix_refl _, by rw [List.flatten_cons, htail, hch]⟩
      | cons first cut =>
        rw [List.cons_append, List.cons.injEq] at hch
        cases middle with
        | nil =>
          rw [List.nil_append] at htail
          exact ⟨groups, List.suffix_cons _ _, htail.symm⟩
        | cons byte middle =>
          have hcont := hrest byte (by rw [hch.2]; simp)
          have hlead := hboundary byte (by rw [htail]; simp)
          rw [hlead] at hcont
          cases hcont
    · obtain ⟨later, hlater, heq⟩ := ih hgroups ⟨middle, hflat.symm⟩
      exact ⟨later, hlater.trans (List.suffix_cons _ _), heq⟩

theorem head_char_eq (ch rest : Str) (groups : List Str) (hch : IsUtf8Char ch)
    (h : ∀ c ∈ groups, IsUtf8Char c) (heq : groups.flatten = ch ++ rest) :
    ∃ later, groups = ch :: later ∧ later.flatten = rest := by
  obtain ⟨lead, tail, rfl, hlength, _⟩ := hch
  cases groups with
  | nil => cases heq
  | cons first groups =>
    obtain ⟨lead', tail', rfl, hlength', _⟩ := h first List.mem_cons_self
    rw [List.flatten_cons, List.cons_append, List.cons_append, List.cons.injEq] at heq
    obtain ⟨rfl, htail⟩ := heq
    have hsame : tail'.length = tail.length := by
      simp only [List.length_cons] at hlength hlength'
      omega
    obtain ⟨rfl, hrest⟩ := List.append_inj htail hsame
    exact ⟨groups, rfl, hrest⟩

def starByte : UInt8 := 0x2A

theorem star_not_mem_char (ch : Str) (h : IsUtf8Char ch) (hne : ch ≠ [starByte]) : starByte ∉ ch := by
  obtain ⟨lead, tail, rfl, hlength, htail⟩ := h
  intro hmem
  rcases List.mem_cons.mp hmem with rfl | hmem
  · have hone : tail.length + 1 = 1 := by simpa [charWidth, starByte] using hlength
    have hnil : tail = [] := List.length_eq_zero_iff.mp (by omega)
    exact hne (by rw [hnil])
  · exact absurd (htail starByte hmem) (by decide)

theorem denotes_flatten (pattern subject : List Str) (hp : ∀ ch ∈ pattern, IsUtf8Char ch)
    (hs : ∀ ch ∈ subject, IsUtf8Char ch) :
    Wildcard.Denotes starByte pattern.flatten subject.flatten ↔
      Wildcard.Denotes [starByte] pattern subject := by
  induction pattern generalizing subject with
  | nil =>
    rw [List.flatten_nil, Wildcard.denotes_nil, Wildcard.denotes_nil, List.flatten_eq_nil_iff]
    constructor
    · intro hnil
      cases subject with
      | nil => rfl
      | cons ch subject =>
        obtain ⟨lead, tail, rfl, _⟩ := hs ch List.mem_cons_self
        cases hnil _ List.mem_cons_self
    · rintro rfl
      nofun
  | cons ch pattern ih =>
    have hpattern := fun c hc => hp c (List.mem_cons_of_mem ch hc)
    have hch := hp ch List.mem_cons_self
    rw [List.flatten_cons]
    by_cases hstar : ch = [starByte]
    · subst hstar
      rw [List.singleton_append, Wildcard.denotes_star, Wildcard.denotes_star]
      constructor
      · rintro ⟨tail, htail, hd⟩
        -- the rest of the subject can be taken from where a character begins
        have hmove : ∃ tail', tail' <:+ subject.flatten ∧ AtBoundary tail' ∧
            Wildcard.Denotes starByte pattern.flatten tail' := by
          cases pattern with
          | nil =>
            rw [List.flatten_nil, Wildcard.denotes_nil] at hd
            exact ⟨[], List.nil_suffix, nofun, rfl⟩
          | cons next pattern =>
            by_cases hnext : next = [starByte]
            · subst hnext
              rw [List.flatten_cons, List.singleton_append, Wildcard.denotes_star] at hd
              obtain ⟨inner, hinner, hd⟩ := hd
              refine ⟨subject.flatten, List.suffix_refl _, atBoundary_flatten subject hs, ?_⟩
              rw [List.flatten_cons, List.singleton_append, Wildcard.denotes_star]
              exact ⟨inner, hinner.trans htail, hd⟩
            · have hnext' := hpattern next List.mem_cons_self
              obtain ⟨lead, more, rfl, hlength, hmore⟩ := hnext'
              have hlead : lead ≠ starByte := by
                rintro rfl
                exact star_not_mem_char _ ⟨_, more, rfl, hlength, hmore⟩ hnext List.mem_cons_self
              have hd' := hd
              rw [List.flatten_cons, List.cons_append,
                Wildcard.denotes_letter _ _ _ _ hlead] at hd'
              obtain ⟨rest, rfl, _⟩ := hd'
              refine ⟨_, htail, ?_, hd⟩
              intro byte hbyte
              rw [List.head?_cons, Option.mem_some_iff] at hbyte
              rw [← hbyte]
              exact IsUtf8Char.lead_not_continuation lead more ⟨lead, more, rfl, hlength, hmore⟩
        obtain ⟨tail', htail', hboundary, hd'⟩ := hmove
        obtain ⟨later, hlater, rfl⟩ := suffix_flatten subject hs tail' htail' hboundary
        exact ⟨later, hlater, (ih later hpattern fun c hc => hs c (hlater.subset hc)).mp hd'⟩
      · rintro ⟨later, hlater, hd⟩
        refine ⟨later.flatten, ?_, (ih later hpattern fun c hc => hs c (hlater.subset hc)).mpr hd⟩
        obtain ⟨cut, rfl⟩ := hlater
        rw [List.flatten_append]
        exact List.suffix_append _ _
    · rw [Wildcard.denotes_literal_append _ _ _ _ (star_not_mem_char ch hch hstar),
        Wildcard.denotes_letter _ _ _ _ hstar]
      constructor
      · rintro ⟨rest, heq, hd⟩
        obtain ⟨later, rfl, rfl⟩ := head_char_eq ch rest subject hch hs heq
        have hlater := fun c hc => hs c (List.mem_cons_of_mem ch hc)
        exact ⟨later, rfl, (ih later hpattern hlater).mp hd⟩
      · rintro ⟨later, rfl, hd⟩
        have hlater := fun c hc => hs c (List.mem_cons_of_mem ch hc)
        exact ⟨later.flatten, List.flatten_cons, (ih later hpattern hlater).mpr hd⟩

theorem denotes_chars (pattern subject : Str) (hp : IsText pattern) (hs : IsText subject) :
    Wildcard.Denotes starByte pattern subject ↔
      Wildcard.Denotes [starByte] (chars pattern) (chars subject) := by
  rw [← denotes_flatten (chars pattern) (chars subject) hp hs, chars_flatten, chars_flatten]

theorem isText_remainder (pattern start rest : Str) (h : IsText pattern)
    (hstart : ∀ last ∈ start.getLast?, last < 0x80)
    (hrest : rest ∈ Wildcard.remaindersAfter starByte pattern start) : IsText rest := by
  obtain ⟨front, rfl, hentered⟩ := Wildcard.remaindersAfter_entered starByte pattern start rest hrest
  have hbehind : ∀ byte : UInt8, byte < 0x80 → front.getLast? = some byte → IsText rest := by
    intro byte hbyte hlast
    obtain ⟨before, rfl⟩ := List.getLast?_eq_some_iff.mp hlast
    rw [List.append_assoc, List.singleton_append] at h
    exact (IsText.behind_ascii before rest byte hbyte h).2
  rcases hentered with hnone | hstar | ⟨hne, hsame⟩ | hhead
  · rw [List.getLast?_eq_none_iff.mp hnone] at h
    exact h
  · exact hbehind starByte (by decide) hstar
  · cases hlast : start.getLast? with
    | none => exact absurd (List.getLast?_eq_none_iff.mp hlast) hne
    | some last =>
      rw [hlast] at hsame
      exact hbehind last (hstart last (by rw [hlast]; rfl)) hsame
  · cases rest with
    | nil => cases hhead
    | cons byte rest =>
      rw [List.head?_cons, Option.some.injEq] at hhead
      rw [hhead] at h ⊢
      exact (IsText.behind_ascii front rest starByte (by decide) h).1

end Peryx.Str
