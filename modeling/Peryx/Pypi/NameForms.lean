import Peryx.Core.Lossy
import Peryx.Pypi.Filename

/-! # Two readings of a name and of a filename (name.rs, filename.rs) -/

namespace Peryx.Pypi
open Str

inductive Cow where
  | borrowed (text : Str)
  | owned (text : Str)
  deriving Repr, DecidableEq

def Cow.text : Cow → Str
  | .borrowed text => text
  | .owned text => text

def normalizedFrom (prevDash : Bool) : Str → Bool
  | [] => true
  | byte :: rest =>
    if isAsciiLowercase byte || isAsciiDigit byte then normalizedFrom false rest
    else if byte == 0x2D && !prevDash then normalizedFrom true rest
    else false

def isNormalized (name : Str) : Bool := normalizedFrom false name

def normalizeNameCow (table : CaseMap) (name : Str) : Cow :=
  if isNormalized name then .borrowed name else .owned (normalizeName table name)

theorem lowered_plain (byte : UInt8) (h : (isAsciiLowercase byte || isAsciiDigit byte) = true) :
    byte < 0x80 ∧ isNameSeparator [byte] = false ∧ asciiLower byte = byte := by
  have hall : ∀ n < 256, (isAsciiLowercase (UInt8.ofNat n) || isAsciiDigit (UInt8.ofNat n)) = true →
      UInt8.ofNat n < 0x80 ∧ isNameSeparator [UInt8.ofNat n] = false ∧
        asciiLower (UInt8.ofNat n) = UInt8.ofNat n := by
    set_option maxRecDepth 4000 in decide
  have hbyte := hall byte.toNat byte.toNat_lt
  rw [UInt8.ofNat_toNat] at hbyte
  exact hbyte h

section Names
variable (table : CaseMap)

theorem normalizeChars_normalized (name : Str) (flag : Bool) (h : normalizedFrom flag name = true) :
    normalizeChars table flag (chars name) = name := by
  induction name generalizing flag with
  | nil => rfl
  | cons byte rest ih =>
    unfold normalizedFrom at h
    split at h
    · rename_i hplain
      obtain ⟨hascii, hseparator, hlower⟩ := lowered_plain byte hplain
      rw [chars_ascii byte rest hascii, normalizeChars, if_neg (by rw [hseparator]; exact Bool.false_ne_true),
        CaseMap.toLowercase, if_pos hascii, hlower, ih false h]
      rfl
    · split at h
      · rename_i hdash
        simp only [Bool.and_eq_true, beq_iff_eq, Bool.not_eq_true'] at hdash
        obtain ⟨rfl, rfl⟩ := hdash
        rw [chars_ascii 0x2D rest (by decide), normalizeChars, if_pos (by decide),
          if_neg (by decide), ih true h]
      · cases h

theorem normalizeName_normalized (name : Str) (h : isNormalized name = true) :
    normalizeName table name = name := normalizeChars_normalized table name false h

theorem normalizeNameCow_text (name : Str) :
    (normalizeNameCow table name).text = normalizeName table name := by
  unfold normalizeNameCow
  split
  · rename_i h
    exact (normalizeName_normalized table name h).symm
  · rfl

theorem normalizeNameCow_borrowed (name borrowed : Str)
    (h : normalizeNameCow table name = .borrowed borrowed) :
    borrowed = name ∧ normalizeName table name = name := by
  unfold normalizeNameCow at h
  split at h
  · rename_i hnormal
    cases h
    exact ⟨rfl, normalizeName_normalized table name hnormal⟩
  · cases h

/-- What the Unicode table promises: the lower case of a character is one or more
characters, each of which is its own lower case. -/
def CaseMap.Settled : Prop :=
  ∀ c : Char, ∃ lowered : List Char, lowered ≠ [] ∧
    table.toLowercase (String.utf8EncodeChar c) = (encoded lowered).flatten ∧
    ∀ d ∈ lowered, table.toLowercase (String.utf8EncodeChar d) = String.utf8EncodeChar d

def Settles : Bool → List Str → Prop
  | _, [] => True
  | flag, ch :: rest =>
    if isNameSeparator ch then ch = [0x2D] ∧ flag = false ∧ Settles true rest
    else table.toLowercase ch = ch ∧ Settles false rest

theorem normalizeChars_settles (groups : List Str) (flag : Bool) (h : Settles table flag groups) :
    normalizeChars table flag groups = groups.flatten := by
  induction groups generalizing flag with
  | nil => rfl
  | cons ch rest ih =>
    unfold Settles at h
    rw [normalizeChars, List.flatten_cons]
    split at h
    · rename_i hseparator
      obtain ⟨rfl, rfl, hrest⟩ := h
      rw [if_pos hseparator, if_neg Bool.false_ne_true, ih true hrest]
      rfl
    · rename_i hother
      rw [if_neg hother, h.1, ih false h.2]

theorem settles_append (front rest : List Str) (hne : front ≠ [])
    (hfront : ∀ ch ∈ front, isNameSeparator ch = false ∧ table.toLowercase ch = ch)
    (hrest : Settles table false rest) (flag : Bool) : Settles table flag (front ++ rest) := by
  induction front generalizing flag with
  | nil => exact absurd rfl hne
  | cons ch front ih =>
    obtain ⟨hother, hlower⟩ := hfront ch List.mem_cons_self
    rw [List.cons_append, Settles, if_neg (by rw [hother]; nofun)]
    refine ⟨hlower, ?_⟩
    cases front with
    | nil => exact hrest
    | cons next front =>
      exact ih (List.cons_ne_nil _ _) (fun c hc => hfront c (List.mem_cons_of_mem _ hc)) false

theorem toLowercase_separator (c : Char) (hc : isNameSeparator (String.utf8EncodeChar c) = false)
    (lowered : List Char)
    (hlowered : table.toLowercase (String.utf8EncodeChar c) = (encoded lowered).flatten) :
    ∀ d ∈ lowered, isNameSeparator (String.utf8EncodeChar d) = false := by
  intro d hd
  rw [Bool.eq_false_iff]
  intro hseparator
  obtain ⟨byte, hbyte, hsingle⟩ : ∃ byte : UInt8,
      (byte = 0x2D ∨ byte = 0x5F ∨ byte = 0x2E) ∧ String.utf8EncodeChar d = [byte] := by
    simp only [isNameSeparator, Bool.or_eq_true, beq_iff_eq] at hseparator
    rcases hseparator with (h | h) | h
    · exact ⟨_, Or.inl rfl, h⟩
    · exact ⟨_, Or.inr (Or.inl rfl), h⟩
    · exact ⟨_, Or.inr (Or.inr rfl), h⟩
  have hmem : byte ∈ table.toLowercase (String.utf8EncodeChar c) := by
    rw [hlowered, List.mem_flatten]
    exact ⟨[byte], List.mem_map.mpr ⟨d, hd, hsingle⟩, List.mem_singleton.mpr rfl⟩
  have hchar := chars_isChar (String.utf8EncodeChar c)
  have hutf8 : chars (String.utf8EncodeChar c) = [String.utf8EncodeChar c] := by
    have h := chars_flatten_chars [String.utf8EncodeChar c] (encoded_utf8 [c])
    rw [List.flatten_singleton] at h
    exact h
  rw [hutf8] at hchar
  rcases hchar _ (List.mem_singleton.mpr rfl) with ⟨single, hsame, hascii⟩ | hhigh
  · rw [hsame] at hmem hc
    rw [CaseMap.toLowercase, if_pos hascii, List.mem_singleton] at hmem
    have hall : ∀ n < 256, isNameSeparator [asciiLower (UInt8.ofNat n)] = true →
        isNameSeparator [UInt8.ofNat n] = true := by
      set_option maxRecDepth 4000 in decide
    have hback := hall single.toNat single.toNat_lt
    rw [UInt8.ofNat_toNat, ← hmem, ← hsingle] at hback
    rw [hback hseparator] at hc
    cases hc
  · have hlower : table.toLowercase (String.utf8EncodeChar c) = table.lower (String.utf8EncodeChar c) := by
      unfold CaseMap.toLowercase
      split
      · rename_i single hsame
        rw [hsame] at hhigh
        rw [if_neg (UInt8.not_lt.mpr (hhigh single List.mem_cons_self)), hsame]
      · rfl
    rw [hlower] at hmem
    have hletter := table.ascii_lower _ hhigh byte hmem
    rcases hbyte with rfl | rfl | rfl <;> exact absurd (hletter (by decide)) (by decide)

variable (hsettled : table.Settled)
include hsettled

theorem normalizeChars_written (scalars : List Char) (flag : Bool) : ∃ written : List Char,
    normalizeChars table flag (encoded scalars) = (encoded written).flatten ∧
      Settles table flag (encoded written) := by
  induction scalars generalizing flag with
  | nil => exact ⟨[], rfl, trivial⟩
  | cons c scalars ih =>
    have hcons : encoded (c :: scalars) = String.utf8EncodeChar c :: encoded scalars := rfl
    rw [hcons, normalizeChars]
    cases hseparator : isNameSeparator (String.utf8EncodeChar c) with
    | true =>
      obtain ⟨written, hwritten, hsettles⟩ := ih true
      rw [if_pos rfl]
      cases flag with
      | true => exact ⟨written, hwritten, hsettles⟩
      | false =>
        have hdash : String.utf8EncodeChar '-' = [0x2D] := by decide
        refine ⟨'-' :: written, ?_, ?_⟩
        · rw [if_neg Bool.false_ne_true, hwritten]
          unfold encoded
          rw [List.map_cons, List.flatten_cons, hdash]
          rfl
        · unfold encoded at hsettles ⊢
          rw [List.map_cons, hdash, Settles, if_pos (by decide)]
          exact ⟨rfl, rfl, hsettles⟩
    | false =>
      obtain ⟨written, hwritten, hsettles⟩ := ih false
      obtain ⟨lowered, hne, hlowered, hfixed⟩ := hsettled c
      have happend : encoded (lowered ++ written) = encoded lowered ++ encoded written :=
        List.map_append
      refine ⟨lowered ++ written, ?_, ?_⟩
      · rw [if_neg Bool.false_ne_true, hlowered, hwritten, happend, List.flatten_append]
      · rw [happend]
        refine settles_append table _ _ (by simpa [encoded] using hne) (fun ch hch => ?_) hsettles flag
        obtain ⟨d, hd, rfl⟩ := List.mem_map.mp hch
        exact ⟨toLowercase_separator table c hseparator lowered hlowered d hd, hfixed d hd⟩

theorem normalizeName_again (name : Str) (hname : IsUtf8 name) :
    normalizeName table (normalizeName table name) = normalizeName table name := by
  obtain ⟨s, rfl⟩ := Query.exists_str name hname
  have hchars : ∀ scalars : List Char, chars (encoded scalars).flatten = encoded scalars :=
    fun scalars => chars_flatten_chars _ (encoded_utf8 scalars)
  obtain ⟨written, hwritten, hsettles⟩ := normalizeChars_written table hsettled s.toList false
  have honce : normalizeName table (str s) = (encoded written).flatten := by
    unfold normalizeName
    rw [str_encoded, hchars, hwritten]
  rw [honce]
  unfold normalizeName
  rw [hchars]
  exact normalizeChars_settles table _ false hsettles

end Names

structure DistributionParts where
  name : Str
  version : Str
  tags : List Str
  kind : DistributionKind
  deriving Repr, DecidableEq

def wheelParts (stem : Str) : Except DistributionFilenameError DistributionParts :=
  match split 0x2D stem with
  | [name, version, python, abi, platform] => .ok ⟨name, version, [python, abi, platform], .wheel⟩
  | [name, version, build, python, abi, platform] => do
    validateBuildTag build
    return ⟨name, version, [python, abi, platform], .wheel⟩
  | _ => .error .invalidWheelShape

def sdistParts (stem : Str) (kind : DistributionKind) :
    Except DistributionFilenameError DistributionParts :=
  match rsplitOnce 0x2D stem with
  | none => .error .invalidSdistShape
  | some (name, version) => .ok ⟨name, version, [], kind⟩

def distributionParts (filename : Str) : Except DistributionFilenameError DistributionParts :=
  if (stripAsciiSuffixIgnoreCase filename (str ".egg")).isSome then .error .legacyEgg
  else match stripAsciiSuffixIgnoreCase filename (str ".whl") with
  | some stem => wheelParts stem
  | none =>
    match stripAsciiSuffixIgnoreCase filename (str ".tar.gz") with
    | some stem => sdistParts stem .sdistTarGz
    | none =>
      match stripAsciiSuffixIgnoreCase filename (str ".zip") with
      | some stem => sdistParts stem .sdistZip
      | none => .error .unsupportedExtension

section Filenames
variable (table : CaseMap) (pep : Pep440)

def DistributionParts.parsed (parts : DistributionParts) :
    Except DistributionFilenameError (DistributionFilename pep) :=
  Pypi.parsed table pep parts.name parts.version parts.tags parts.kind

theorem parseWheelFilename_parts (stem : Str) :
    parseWheelFilename table pep stem = wheelParts stem >>= (·.parsed table pep) := by
  unfold parseWheelFilename wheelParts
  generalize Str.split 0x2D stem = parts
  match parts with
  | [name, version, python, abi, platform] => rfl
  | [name, version, build, python, abi, platform] =>
    dsimp only
    cases validateBuildTag build with
    | error err => rfl
    | ok _ => rfl
  | [] | [_] | [_, _] | [_, _, _] | [_, _, _, _] | _ :: _ :: _ :: _ :: _ :: _ :: _ :: _ => rfl

theorem parseSdistFilename_parts (stem : Str) (kind : DistributionKind) :
    parseSdistFilename table pep stem kind = sdistParts stem kind >>= (·.parsed table pep) := by
  unfold parseSdistFilename sdistParts
  cases rsplitOnce 0x2D stem with
  | none => rfl
  | some parts => rfl

theorem parseDistributionFilename_parts (filename : Str) :
    parseDistributionFilename table pep filename =
      distributionParts filename >>= (·.parsed table pep) := by
  unfold parseDistributionFilename distributionParts
  by_cases hegg : (stripAsciiSuffixIgnoreCase filename (str ".egg")).isSome = true
  · rw [if_pos hegg, if_pos hegg]
    rfl
  · rw [if_neg hegg, if_neg hegg]
    cases stripAsciiSuffixIgnoreCase filename (str ".whl") with
    | some stem => exact parseWheelFilename_parts table pep stem
    | none =>
      cases stripAsciiSuffixIgnoreCase filename (str ".tar.gz") with
      | some stem => exact parseSdistFilename_parts table pep stem _
      | none =>
        cases stripAsciiSuffixIgnoreCase filename (str ".zip") with
        | some stem => exact parseSdistFilename_parts table pep stem _
        | none => rfl

theorem splitOnce_of_split (stem name version : Str) (more : List Str)
    (h : split 0x2D stem = name :: version :: more) :
    ∃ rest, splitOnce 0x2D stem = some (name, rest) ∧ split 0x2D rest = version :: more := by
  cases hsplit : splitOnce 0x2D stem with
  | none =>
    rw [split, List.splitOn_eq_singleton ((splitOnce_eq_none _ _).mp hsplit)] at h
    cases h
  | some parts =>
    obtain ⟨front, rest⟩ := parts
    have hstem := splitOnce_eq_some 0x2D stem front rest hsplit
    have hfront := splitOnce_not_mem 0x2D stem front rest hsplit
    rw [split, hstem, List.splitOn_append_cons_self_of_not_mem hfront, List.cons.injEq] at h
    obtain ⟨rfl, hrest⟩ := h
    exact ⟨rest, rfl, hrest⟩

theorem wheel_not_sdist (filename stem : Str)
    (h : stripAsciiSuffixIgnoreCase filename (str ".whl") = some stem) :
    stripAsciiSuffixIgnoreCase filename (str ".tar.gz") = none ∧
      stripAsciiSuffixIgnoreCase filename (str ".zip") = none := by
  have hwheel := stripAsciiSuffix_last filename _ stem 0x6C (by decide) h
  constructor
  · rw [Option.eq_none_iff_forall_ne_some]
    intro other hother
    have hlast := stripAsciiSuffix_last filename _ other 0x7A (by decide) hother
    rw [hwheel] at hlast
    exact absurd hlast (by decide)
  · rw [Option.eq_none_iff_forall_ne_some]
    intro other hother
    have hlast := stripAsciiSuffix_last filename _ other 0x70 (by decide) hother
    rw [hwheel] at hlast
    exact absurd hlast (by decide)

theorem wheelParts_version (stem : Str) (parts : DistributionParts) (h : wheelParts stem = .ok parts) :
    (splitOnce 0x2D stem).map (fun (_, rest) => (split 0x2D rest).headD rest) = some parts.version := by
  unfold wheelParts at h
  split at h
  · rename_i hsplit
    obtain ⟨rest, honce, hrest⟩ := splitOnce_of_split stem _ _ _ hsplit
    cases h
    rw [honce, Option.map_some]
    dsimp only
    rw [hrest]
    rfl
  · rename_i build python abi platform hsplit
    obtain ⟨rest, honce, hrest⟩ := splitOnce_of_split stem _ _ _ hsplit
    cases hbuild : validateBuildTag build with
    | error err =>
      rw [hbuild] at h
      cases h
    | ok _ =>
      rw [hbuild] at h
      cases h
      rw [honce, Option.map_some]
      dsimp only
      rw [hrest]
      rfl
  · cases h

theorem sdistParts_version (stem : Str) (kind : DistributionKind) (parts : DistributionParts)
    (h : sdistParts stem kind = .ok parts) :
    (rsplitOnce 0x2D stem).map Prod.snd = some parts.version := by
  unfold sdistParts at h
  split at h
  · cases h
  · rename_i hsplit
    cases h
    rw [hsplit, Option.map_some]

theorem distributionVersionSegment_parts (filename : Str) (parts : DistributionParts)
    (h : distributionParts filename = .ok parts) :
    distributionVersionSegment filename = some parts.version := by
  unfold distributionParts at h
  unfold distributionVersionSegment
  split at h
  · cases h
  · split at h
    · rename_i stem hwheel
      obtain ⟨htar, hzip⟩ := wheel_not_sdist filename stem hwheel
      rw [htar, hzip, hwheel]
      exact wheelParts_version stem parts h
    · split at h
      · rename_i stem htar
        rw [htar]
        exact sdistParts_version stem _ parts h
      · rename_i htar
        split at h
        · rename_i stem hzip
          rw [htar, hzip]
          exact sdistParts_version stem _ parts h
        · cases h

theorem parsed_version (parts : DistributionParts) (file : DistributionFilename pep)
    (h : parts.parsed table pep = .ok file) : pep.parseVersion parts.version = some file.version := by
  unfold DistributionParts.parsed Pypi.parsed at h
  split at h
  · cases h
  · cases htags : parts.tags.forM validateTag with
    | error err =>
      rw [htags] at h
      cases h
    | ok _ =>
      rw [htags] at h
      cases hversion : pep.parseVersion parts.version with
      | none =>
        simp only [hversion] at h
        cases h
      | some version =>
        simp only [hversion] at h
        cases h
        rfl

theorem fileMatchesVersion_parsed [BEq pep.Version] [ReflBEq pep.Version] (filename version : Str)
    (parts : DistributionParts) (file : DistributionFilename pep)
    (hparts : distributionParts filename = .ok parts) (hfile : parts.parsed table pep = .ok file) :
    fileMatchesVersion pep filename version =
      (pep.parseVersion version).any fun asked => file.version == asked := by
  have hread := parsed_version table pep parts file hfile
  unfold fileMatchesVersion versionsMatch
  rw [distributionVersionSegment_parts filename parts hparts, Option.any_some, hread]
  by_cases hsame : parts.version = version
  · rw [← hsame, hread, Option.any_some, beq_self_eq_true, Bool.true_or]
    exact (ReflBEq.rfl (a := file.version)).symm
  · rw [beq_eq_false_iff_ne.mpr hsame, Bool.false_or]
    cases pep.parseVersion version with
    | none => rfl
    | some asked => rfl

/-- The two readings of a name agree, and so do those of a filename the parser accepts. -/
theorem names_and_filenames_agree (hsettled : table.Settled) [BEq pep.Version]
    [ReflBEq pep.Version] :
    (∀ name, (normalizeNameCow table name).text = normalizeName table name ∧
      ∀ borrowed, normalizeNameCow table name = .borrowed borrowed →
        borrowed = name ∧ normalizeName table name = name) ∧
      (∀ name, IsUtf8 name →
        normalizeName table (normalizeName table name) = normalizeName table name) ∧
      ∀ filename file, parseDistributionFilename table pep filename = .ok file →
        ∃ parts, distributionParts filename = .ok parts ∧ parts.parsed table pep = .ok file ∧
          pep.parseVersion parts.version = some file.version ∧
          distributionVersionSegment filename = some parts.version ∧
          ∀ version, fileMatchesVersion pep filename version =
            (pep.parseVersion version).any fun asked => file.version == asked := by
  refine ⟨fun name => ⟨normalizeNameCow_text table name, normalizeNameCow_borrowed table name⟩,
    normalizeName_again table hsettled, fun filename file h => ?_⟩
  rw [parseDistributionFilename_parts] at h
  cases hparts : distributionParts filename with
  | error err =>
    rw [hparts] at h
    cases h
  | ok parts =>
    rw [hparts] at h
    exact ⟨parts, rfl, h, parsed_version table pep parts file h,
      distributionVersionSegment_parts filename parts hparts,
      fun version => fileMatchesVersion_parsed table pep filename version parts file hparts h⟩

end Filenames

theorem utf8EncodeChar_ascii (byte : UInt8) (h : byte < 0x80) :
    ∃ c : Char, String.utf8EncodeChar c = [byte] := by
  have hall : ∀ n < 128, String.utf8EncodeChar (Char.ofNat n) = [UInt8.ofNat n] := by decide
  have hbyte := hall byte.toNat (UInt8.lt_iff_toNat_lt.mp h)
  rw [UInt8.ofNat_toNat] at hbyte
  exact ⟨_, hbyte⟩

theorem asciiLower_twice (byte : UInt8) (h : byte < 0x80) :
    asciiLower byte < 0x80 ∧ asciiLower (asciiLower byte) = asciiLower byte := by
  have hall : ∀ n < 128, asciiLower (UInt8.ofNat n) < 0x80 ∧
      asciiLower (asciiLower (UInt8.ofNat n)) = asciiLower (UInt8.ofNat n) := by decide
  have hbyte := hall byte.toNat (UInt8.lt_iff_toNat_lt.mp h)
  rw [UInt8.ofNat_toNat] at hbyte
  exact hbyte

theorem caseless_settled : CaseMap.caseless.Settled := by
  intro c
  by_cases hascii : ∃ byte : UInt8, byte < 0x80 ∧ String.utf8EncodeChar c = [byte]
  · obtain ⟨byte, hlt, hc⟩ := hascii
    obtain ⟨hlower, htwice⟩ := asciiLower_twice byte hlt
    obtain ⟨d, hd⟩ := utf8EncodeChar_ascii (asciiLower byte) hlower
    refine ⟨[d], List.cons_ne_nil _ _, ?_, fun e he => ?_⟩
    · rw [hc, CaseMap.toLowercase, if_pos hlt, ← hd]
      exact List.flatten_singleton.symm
    · rw [List.mem_singleton.mp he, hd, CaseMap.toLowercase, if_pos hlower, htwice]
  · have hsame : CaseMap.caseless.toLowercase (String.utf8EncodeChar c) = String.utf8EncodeChar c := by
      unfold CaseMap.toLowercase
      split
      · rename_i byte hc
        rw [if_neg fun hlt => hascii ⟨byte, hlt, hc⟩, hc]
        rfl
      · rfl
    refine ⟨[c], List.cons_ne_nil _ _, ?_, fun e he => ?_⟩
    · rw [hsame]
      exact List.flatten_singleton.symm
    · rw [List.mem_singleton.mp he, hsame]

theorem login_names_and_filenames_agree :
    normalizeNameCow .caseless (str "flask-login") = .borrowed (str "flask-login") ∧
      (normalizeNameCow .caseless (str "Flask_.Login")).text = str "flask-login" ∧
      normalizeName .caseless (normalizeName .caseless (str "Flask_.Login")) = str "flask-login" ∧
      distributionVersionSegment (str "flask-login-7.tar.gz") = some (str "7") ∧
      distributionVersionSegment (str "flask_login-7-1-py3-none-any.whl") = some (str "7") := by
  let _ : BEq wholeVersions.Version := inferInstanceAs (BEq { text : Str // isWhole text = true })
  have _ : ReflBEq wholeVersions.Version :=
    inferInstanceAs (ReflBEq { text : Str // isWhole text = true })
  have hagree := names_and_filenames_agree CaseMap.caseless wholeVersions caseless_settled
  have hnormal : normalizeName .caseless (str "Flask_.Login") = str "flask-login" := by decide
  have hsegment : ∀ filename parts file, distributionParts filename = .ok parts →
      parts.parsed CaseMap.caseless wholeVersions = .ok file →
        distributionVersionSegment filename = some parts.version := by
    intro filename parts file hparts hfile
    obtain ⟨found, hfound, _, _, hread, _⟩ := hagree.2.2 filename file
      (by rw [parseDistributionFilename_parts, hparts]; exact hfile)
    rw [hparts, Except.ok.injEq] at hfound
    rw [hread, hfound]
  refine ⟨by decide, (hagree.1 _).1.trans hnormal, (hagree.2.1 _ (isUtf8_str _)).trans hnormal, ?_, ?_⟩
  · exact hsegment _ ⟨str "flask-login", str "7", [], .sdistTarGz⟩ _ (by decide) rfl
  · exact hsegment _ ⟨str "flask_login", str "7", [str "py3", str "none", str "any"], .wheel⟩ _
      (by decide) rfl

end Peryx.Pypi
