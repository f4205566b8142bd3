import Std.Data.ExtTreeSet.Lemmas
import Peryx.Pypi.NameForms
import Peryx.Search.GlobRegex

/-! # Searching a text (peryx-search/src/engine.rs:245-274, 290-312, 375-446) -/

namespace Peryx.Search
open Str
open Pypi (CaseMap)

def minNgram : Nat := 2

def maxNgram : Nat := 12

def rawRegexBytes : Nat := 32 * 1024

inductive SearchError where
  | tantivy
  deriving DecidableEq

inductive TextQuery where
  | all
  | regex (pattern : Str)
  | terms (terms : List Str)
  deriving DecidableEq

def isCharBoundary (value : Str) (index : Nat) : Bool :=
  (value.drop index).head?.all fun byte => !isContinuation byte

def boundaryAt (value : Str) : Nat → Nat
  | 0 => 0
  | n + 1 => if isCharBoundary value (n + 1) then n + 1 else boundaryAt value n

def truncateToChars (value : Str) (maxBytes : Nat) : Str :=
  if value.length ≤ maxBytes then value else value.take (boundaryAt value maxBytes)

structure IndexedText where
  search : Str
  raw : Str

def indexedText (text : Str) : IndexedText where
  search := text
  raw := truncateToChars (text.map asciiLower) rawRegexBytes

def queryTerms (query : Str) : List Str :=
  let chars := chars query
  if chars.length ≤ 1 then []
  else if chars.length ≤ maxNgram then [query]
  else (Std.ExtTreeSet.ofList ((List.range (chars.length - maxNgram + 1)).map fun start =>
    ((chars.drop start).take maxNgram).flatten) : Std.ExtTreeSet Str).toList

/-- What is used of the search library: the tokens of the `search` field, and regular
expressions. -/
structure Engine where
  tokens : Str → List Str
  compiles : Str → Bool
  regex : Str → Str → Bool

def Engine.regexQuery (engine : Engine) (pattern : Str) : Except SearchError TextQuery :=
  if engine.compiles pattern then .ok (.regex pattern) else .error .tantivy

def Engine.textQuery (engine : Engine) (query : Str) : Except SearchError TextQuery :=
  if query = [] then .ok .all
  else match stripPrefix query (str "re:") with
    | some pattern =>
      if pattern = [] then .ok .all
      else engine.regexQuery (str ".*" ++ pattern.map asciiLower ++ str ".*")
    | none =>
      let query := query.map asciiLower
      let terms := queryTerms query
      if terms = [] then engine.regexQuery (str ".*" ++ escapeRegex query ++ str ".*")
      else .ok (.terms terms)

/-- Whether a document is among the hits of a query: a term is looked up among the tokens,
an expression has to match the whole `raw` field. -/
def Engine.finds (engine : Engine) (document : IndexedText) : TextQuery → Bool
  | .all => true
  | .regex pattern => engine.regex pattern document.raw
  | .terms terms => terms.all fun term => (engine.tokens document.search).contains term

def Engine.Hit (engine : Engine) (query text : Str) : Prop :=
  ∃ found, engine.textQuery query = .ok found ∧ engine.finds (indexedText text) found = true

/-- The library as documented: all n-grams, each character of them lowercased; expressions
that compile when they are written as their syntax is, and match as it says. -/
structure Engine.Documented (table : CaseMap) (engine : Engine) : Prop where
  tokens : ∀ text token, token ∈ engine.tokens text ↔ ∃ gram, gram <:+: chars text ∧
    minNgram ≤ gram.length ∧ gram.length ≤ maxNgram ∧ token = (gram.map table.toLowercase).flatten
  compiles : ∀ pieces, WrittenInChars pieces → engine.compiles (source pieces) = true
  regex : DocumentedRegex engine.regex

/-- The query occurs in the text, both lowercased character by character. -/
def Occurs (table : CaseMap) (query text : Str) : Prop :=
  (chars query).map table.toLowercase <:+: (chars text).map table.toLowercase

def FoldsAlike (table : CaseMap) (ch : Str) : Prop := table.toLowercase ch = ch.map asciiLower

instance (table : CaseMap) (query text : Str) : Decidable (Occurs table query text) :=
  inferInstanceAs (Decidable (_ <:+: _))

instance (table : CaseMap) (ch : Str) : Decidable (FoldsAlike table ch) :=
  inferInstanceAs (Decidable (_ = _))

/-- What makes a query find the texts it occurs in: a single character stands in the
beginning of the text, with no line feed around it; the characters of a longer one are
ASCII or have no lowercase of their own. -/
structure Findable (table : CaseMap) (query text : Str) : Prop where
  single : ∀ ch, chars query = [ch] → ∃ front back,
    chars (indexedText text).raw = front ++ ch.map asciiLower :: back ∧ newline ∉ front ∧ newline ∉ back
  longer : minNgram ≤ (chars query).length → ∀ ch ∈ chars query, FoldsAlike table ch

theorem isContinuation_asciiLower (byte : UInt8) :
    isContinuation (asciiLower byte) = isContinuation byte := by
  have hall : ∀ n < 256, isContinuation (asciiLower (UInt8.ofNat n)) = isContinuation (UInt8.ofNat n) := by
    set_option maxRecDepth 8000 in decide
  have hbyte := hall byte.toNat byte.toNat_lt
  rwa [UInt8.ofNat_toNat] at hbyte

theorem high_asciiLower (byte : UInt8) : (0x80 : UInt8) ≤ asciiLower byte ↔ (0x80 : UInt8) ≤ byte := by
  have hall : ∀ n < 256, ((0x80 : UInt8) ≤ asciiLower (UInt8.ofNat n) ↔ (0x80 : UInt8) ≤ UInt8.ofNat n) := by
    set_option maxRecDepth 8000 in decide
  have hbyte := hall byte.toNat byte.toNat_lt
  rwa [UInt8.ofNat_toNat] at hbyte

theorem chars_asciiLower (text : Str) :
    chars (text.map asciiLower) = (chars text).map (List.map asciiLower) := by
  induction text with
  | nil => rfl
  | cons byte rest ih =>
    rw [List.map_cons, chars, chars, ih]
    cases chars rest with
    | nil => rfl
    | cons group groups =>
      cases group with
      | nil => rfl
      | cons next tail =>
        rw [List.map_cons, List.map_cons]
        dsimp only
        simp only [isContinuation_asciiLower, high_asciiLower]
        split
        · rfl
        · rfl

theorem isChar_of_utf8 {ch : Str} (h : IsUtf8Char ch) : IsChar ch := by
  obtain ⟨lead, tail, rfl, hlength, htail⟩ := h
  unfold charWidth at hlength
  split at hlength
  · rename_i hascii
    have hnil : tail = [] := List.length_eq_zero_iff.mp (by simpa using hlength)
    exact Or.inl ⟨lead, by rw [hnil], hascii⟩
  · rename_i hhigh
    refine Or.inr (List.forall_mem_cons.mpr ⟨UInt8.not_lt.mp hhigh, fun byte hbyte => ?_⟩)
    have hcontinues := htail byte hbyte
    simp only [isContinuation, Bool.and_eq_true, decide_eq_true_eq] at hcontinues
    exact hcontinues.1

theorem asciiLower_high (ch : Str) (h : ∀ byte ∈ ch, (0x80 : UInt8) ≤ byte) :
    ch.map asciiLower = ch := by
  refine (List.map_congr_left fun byte hbyte => ?_).trans (List.map_id ch)
  have hle := h byte hbyte
  unfold asciiLower
  rw [if_neg]
  · rfl
  · intro hrange
    rw [UInt8.le_iff_toNat_le] at *
    have hupper := UInt8.le_iff_toNat_le.mp hrange.2
    have h80 : (0x80 : UInt8).toNat = 128 := rfl
    have h5a : (0x5A : UInt8).toNat = 90 := rfl
    omega

theorem asciiLower_again (byte : UInt8) : asciiLower (asciiLower byte) = asciiLower byte := by
  have hall : ∀ n < 256, asciiLower (asciiLower (UInt8.ofNat n)) = asciiLower (UInt8.ofNat n) := by
    set_option maxRecDepth 8000 in decide
  have hbyte := hall byte.toNat byte.toNat_lt
  rwa [UInt8.ofNat_toNat] at hbyte

theorem isUtf8Char_asciiLower {ch : Str} (h : IsUtf8Char ch) : IsUtf8Char (ch.map asciiLower) := by
  rcases isChar_of_utf8 h with ⟨byte, rfl, hascii⟩ | hhigh
  · apply isUtf8Char_ascii
    rw [← UInt8.not_le, high_asciiLower, UInt8.not_le]
    exact hascii
  · rwa [asciiLower_high ch hhigh]

theorem toLowercase_asciiLower (table : CaseMap) {ch : Str} (h : IsUtf8Char ch) :
    table.toLowercase (ch.map asciiLower) = table.toLowercase ch := by
  rcases isChar_of_utf8 h with ⟨byte, rfl, hascii⟩ | hhigh
  · have hlow : asciiLower byte < 0x80 := by
      rw [← UInt8.not_le, high_asciiLower, UInt8.not_le]
      exact hascii
    rw [List.map_singleton, CaseMap.toLowercase, CaseMap.toLowercase, if_pos hlow, if_pos hascii,
      asciiLower_again]
  · rw [asciiLower_high ch hhigh]

section Terms
variable {table : CaseMap} {engine : Engine}

theorem settled_of_lowered (hsettled : table.Settled) (grams : List Str)
    (hgrams : ∀ ch ∈ grams, ∃ c : Char, ch = String.utf8EncodeChar c) (part : List Str)
    (hpart : ∀ ch ∈ part, IsUtf8Char ch)
    (h : part.flatten = (grams.map table.toLowercase).flatten) :
    ∀ ch ∈ part, table.toLowercase ch = ch := by
  have hlowered : ∃ scalars : List Char, (grams.map table.toLowercase).flatten =
      (encoded scalars).flatten ∧ ∀ ch ∈ encoded scalars, table.toLowercase ch = ch := by
    clear h
    induction grams with
    | nil => exact ⟨[], rfl, by simp [encoded]⟩
    | cons gram grams ih =>
      obtain ⟨⟨c, hc⟩, hrest⟩ := List.forall_mem_cons.mp hgrams
      obtain ⟨scalars, hflat, hfixed⟩ := ih hrest
      obtain ⟨lowered, _, hlowered, hsettles⟩ := hsettled c
      have happend : encoded (lowered ++ scalars) = encoded lowered ++ encoded scalars :=
        List.map_append
      refine ⟨lowered ++ scalars, ?_, ?_⟩
      · rw [List.map_cons, List.flatten_cons, hc, hlowered, hflat, happend, List.flatten_append]
      · rw [happend]
        refine List.forall_mem_append.mpr ⟨fun ch hch => ?_, hfixed⟩
        obtain ⟨d, hd, rfl⟩ := List.mem_map.mp hch
        exact hsettles d hd
  obtain ⟨scalars, hflat, hfixed⟩ := hlowered
  have hsame : part = encoded scalars := by
    rw [← chars_flatten_chars part hpart, h, hflat, chars_flatten_chars _ (encoded_utf8 scalars)]
  rw [hsame]
  exact hfixed

theorem token_iff (hdoc : engine.Documented table) (hsettled : table.Settled) (text : Str)
    (htext : IsUtf8 text) (part : List Str) (hpart : ∀ ch ∈ part, IsUtf8Char ch)
    (hoccurs : part.map table.toLowercase <:+: (chars text).map table.toLowercase)
    (hmin : minNgram ≤ part.length) (hmax : part.length ≤ maxNgram) :
    part.flatten ∈ engine.tokens text ↔ ∀ ch ∈ part, table.toLowercase ch = ch := by
  obtain ⟨s, rfl⟩ := Query.exists_str text htext
  have hchars : chars (str s) = encoded s.toList := by
    rw [str_encoded, chars_flatten_chars _ (encoded_utf8 s.toList)]
  rw [hdoc.tokens]
  constructor
  · intro h
    obtain ⟨gram, hgram, _, _, hflat⟩ := h
    refine settled_of_lowered hsettled gram (fun ch hch => ?_) part hpart hflat
    have hmem := hgram.subset hch
    rw [hchars] at hmem
    obtain ⟨c, _, hc⟩ := List.mem_map.mp hmem
    exact ⟨c, hc.symm⟩
  · intro h
    obtain ⟨gram, hgram, hmap⟩ := List.infix_map_iff.mp hoccurs
    have hlength : gram.length = part.length := by
      have hlengths := congrArg List.length hmap
      rw [List.length_map, List.length_map] at hlengths
      exact hlengths.symm
    refine ⟨gram, hgram, by rw [hlength]; exact hmin, by rw [hlength]; exact hmax, ?_⟩
    rw [← hmap, List.map_congr_left h, List.map_id']

def Parts (query : Str) (part : List Str) : Prop :=
  part <:+: chars query ∧ minNgram ≤ part.length ∧ part.length ≤ maxNgram

theorem queryTerms_parts (query : Str) (h : minNgram ≤ (chars query).length) :
    ∃ parts : List (List Str), (∀ part ∈ parts, Parts query part) ∧
      (∀ term, term ∈ queryTerms query ↔ ∃ part ∈ parts, part.flatten = term) ∧
      ∀ ch ∈ chars query, ∃ part ∈ parts, ch ∈ part := by
  have htwo : minNgram = 2 := rfl
  have htwelve : maxNgram = 12 := rfl
  unfold queryTerms
  dsimp only
  rw [if_neg (by omega)]
  split
  · rename_i hshort
    refine ⟨[chars query], ?_, ?_, ?_⟩
    · intro part hpart
      rw [List.mem_singleton.mp hpart]
      exact ⟨List.infix_refl _, h, hshort⟩
    · intro term
      simp [chars_flatten, eq_comm]
    · intro ch hch
      exact ⟨chars query, List.mem_singleton_self _, hch⟩
  · rename_i hlong
    refine ⟨(List.range ((chars query).length - maxNgram + 1)).map fun start =>
      ((chars query).drop start).take maxNgram, ?_, ?_, ?_⟩
    · intro part hpart
      obtain ⟨start, hstart, rfl⟩ := List.mem_map.mp hpart
      rw [List.mem_range] at hstart
      refine ⟨(List.take_prefix _ _).isInfix.trans (List.drop_suffix _ _).isInfix, ?_, ?_⟩
      · rw [List.length_take, List.length_drop]
        omega
      · exact List.length_take_le ..
    · intro term
      rw [Std.ExtTreeSet.mem_toList, Std.ExtTreeSet.mem_ofList, List.contains_iff_mem, List.mem_map]
      simp
    · intro ch hch
      obtain ⟨i, hi, rfl⟩ := List.mem_iff_getElem.mp hch
      refine ⟨_, List.mem_map.mpr ⟨min i ((chars query).length - maxNgram), by
        rw [List.mem_range]; omega, rfl⟩, ?_⟩
      apply List.mem_iff_getElem.mpr
      refine ⟨i - min i ((chars query).length - maxNgram), ?_, ?_⟩
      · rw [List.length_take, List.length_drop]
        omega
      · rw [List.getElem_take, List.getElem_drop]
        congr 1
        omega

theorem finds_terms_iff (hdoc : engine.Documented table) (hsettled : table.Settled) (text : Str)
    (htext : IsUtf8 text) (query : Str) (hquery : ∀ ch ∈ chars query, IsUtf8Char ch)
    (hoccurs : Occurs table query text) (hmin : minNgram ≤ (chars query).length) :
    engine.finds (indexedText text) (.terms (queryTerms query)) = true ↔
      ∀ ch ∈ chars query, table.toLowercase ch = ch := by
  obtain ⟨parts, hparts, hterms, hcover⟩ := queryTerms_parts query hmin
  have hpart : ∀ part ∈ parts, part.flatten ∈ engine.tokens text ↔
      ∀ ch ∈ part, table.toLowercase ch = ch := by
    intro part hmem
    obtain ⟨hwithin, hlow, hhigh⟩ := hparts part hmem
    exact token_iff hdoc hsettled text htext part (fun ch hch => hquery ch (hwithin.subset hch))
      ((hwithin.map _).trans hoccurs) hlow hhigh
  have hfinds : engine.finds (indexedText text) (.terms (queryTerms query)) = true ↔
      ∀ part ∈ parts, part.flatten ∈ engine.tokens text := by
    unfold Engine.finds indexedText
    dsimp only
    rw [List.all_eq_true]
    constructor
    · intro h part hmem
      have hterm := h part.flatten ((hterms _).mpr ⟨part, hmem, rfl⟩)
      rwa [List.contains_iff_mem] at hterm
    · intro h term hterm
      obtain ⟨part, hmem, rfl⟩ := (hterms term).mp hterm
      rw [List.contains_iff_mem]
      exact h part hmem
  rw [hfinds]
  constructor
  · intro h ch hch
    obtain ⟨part, hmem, hin⟩ := hcover ch hch
    exact (hpart part hmem).mp (h part hmem) ch hin
  · intro h part hmem
    exact (hpart part hmem).mpr fun ch hch => h ch ((hparts part hmem).1.subset hch)

end Terms

theorem isText_truncateToChars (value : Str) (h : ∀ ch ∈ chars value, IsUtf8Char ch) (maxBytes : Nat) :
    IsText (truncateToChars value maxBytes) := by
  unfold truncateToChars
  split
  · exact h
  · have hboundary : AtBoundary (value.drop (boundaryAt value maxBytes)) := by
      induction maxBytes with
      | zero =>
        unfold boundaryAt
        rw [List.drop_zero, ← chars_flatten value]
        exact atBoundary_flatten _ h
      | succ n ih =>
        unfold boundaryAt
        split
        · rename_i hat
          intro byte hbyte
          unfold isCharBoundary at hat
          rw [Option.mem_def] at hbyte
          rw [hbyte] at hat
          simpa using hat
        · exact ih (by omega)
    obtain ⟨later, hlater, hflat⟩ := suffix_flatten (chars value) h
      (value.drop (boundaryAt value maxBytes)) (by
        rw [chars_flatten]
        exact List.drop_suffix _ _) hboundary
    obtain ⟨earlier, hearlier⟩ := hlater
    have htake : value.take (boundaryAt value maxBytes) = earlier.flatten := by
      have hwhole : value.take (boundaryAt value maxBytes) ++ later.flatten =
          earlier.flatten ++ later.flatten := by
        rw [← List.flatten_append, hearlier, chars_flatten, hflat, List.take_append_drop]
      exact List.append_cancel_right hwhole
    have hchars : ∀ ch ∈ earlier, IsUtf8Char ch := by
      intro ch hch
      exact h ch (by rw [← hearlier]; exact List.mem_append_left _ hch)
    intro ch hch
    rw [htake, chars_flatten_chars earlier hchars] at hch
    exact hchars ch hch

def singlePieces (ch : Str) : List (Regex.Piece Str) :=
  [⟨.any, true⟩, ⟨.letter ch, false⟩, ⟨.any, true⟩]

theorem source_single (ch : Str) (h : IsUtf8Char ch) :
    str ".*" ++ escapeRegex ch ++ str ".*" = source (singlePieces ch) := by
  have hone : chars ch = [ch] := by
    have hflat := chars_flatten_chars [ch] (by simpa using h)
    rwa [List.flatten_singleton] at hflat
  unfold escapeRegex source singlePieces
  have hdot : str ".*" = str "." ++ str "*" := by decide
  rw [hone, hdot]
  simp [pieceSource, atomSource]

theorem writtenInChars_single {ch : Str} (h : IsUtf8Char ch) : WrittenInChars (singlePieces ch) := by
  intro piece hpiece c hc
  simp only [singlePieces, List.mem_cons, List.not_mem_nil, or_false] at hpiece
  rcases hpiece with rfl | rfl | rfl
  · cases hc
  · cases hc
    exact h
  · cases hc

theorem finds_single_iff {table : CaseMap} {engine : Engine} (hdoc : engine.Documented table)
    (text : Str) (htext : ∀ ch ∈ chars text, IsUtf8Char ch) (ch : Str) (hch : IsUtf8Char ch) :
    engine.finds (indexedText text) (.regex (source (singlePieces ch))) = true ↔
      ∃ front back, chars (indexedText text).raw = front ++ ch :: back ∧ newline ∉ front ∧
        newline ∉ back := by
  have hraw : IsText (indexedText text).raw := by
    apply isText_truncateToChars
    rw [chars_asciiLower]
    intro lowered hlowered
    obtain ⟨c, hc, rfl⟩ := List.mem_map.mp hlowered
    exact isUtf8Char_asciiLower (htext c hc)
  unfold Engine.finds
  dsimp only
  rw [hdoc.regex.full_match _ _ (writtenInChars_single hch) hraw, singlePieces, Regex.matches_any_iff]
  constructor
  · intro h
    obtain ⟨front, rest, hsplit, hfront, hmatch⟩ := h
    obtain ⟨c, back, rfl, hc, hmatch⟩ := (Regex.matches_once _ _ _ _).mp hmatch
    obtain ⟨more, last, rfl, hmore, hlast⟩ := (Regex.matches_any_iff _ _ _).mp hmatch
    rw [Regex.matches_nil] at hlast
    subst hlast
    rw [List.append_nil] at hsplit
    have hletter : c = ch := hc
    rw [hletter] at hsplit
    exact ⟨front, more, hsplit, hfront, hmore⟩
  · intro h
    obtain ⟨front, back, hsplit, hfront, hback⟩ := h
    refine ⟨front, ch :: back, hsplit, hfront, (Regex.matches_once _ _ _ _).mpr ⟨ch, back, rfl, rfl, ?_⟩⟩
    exact (Regex.matches_any_iff _ _ _).mpr
      ⟨back, [], (List.append_nil back).symm, hback, Regex.Matches.nil⟩

section Queries
variable {table : CaseMap} {engine : Engine} (query text : Str)

theorem chars_utf8 (text : Str) (h : IsUtf8 text) : ∀ ch ∈ chars text, IsUtf8Char ch := by
  obtain ⟨s, rfl⟩ := Query.exists_str text h
  rw [str_encoded, chars_flatten_chars _ (encoded_utf8 s.toList)]
  exact encoded_utf8 s.toList

theorem hit_single_iff (hdoc : engine.Documented table) (hquery : IsUtf8 query) (htext : IsUtf8 text)
    (hregex : stripPrefix query (str "re:") = none) (ch : Str) (hch : chars query = [ch]) :
    engine.Hit query text ↔ ∃ front back,
      chars (indexedText text).raw = front ++ ch.map asciiLower :: back ∧ newline ∉ front ∧
        newline ∉ back := by
  have hutf8 : IsUtf8Char ch := chars_utf8 query hquery ch (by rw [hch]; exact List.mem_singleton_self ch)
  have hlower := isUtf8Char_asciiLower hutf8
  have hne : query ≠ [] := by
    intro hnil
    rw [hnil] at hch
    cases hch
  have hflat : query.map asciiLower = ch.map asciiLower := by
    rw [← chars_flatten query, hch, List.flatten_singleton]
  have hterms : queryTerms (query.map asciiLower) = [] := by
    unfold queryTerms
    dsimp only
    rw [if_pos]
    rw [chars_asciiLower, hch]
    exact Nat.le_refl 1
  have hfound : engine.textQuery query =
      .ok (.regex (source (singlePieces (ch.map asciiLower)))) := by
    have hpieces : WrittenInChars (singlePieces (ch.map asciiLower)) := writtenInChars_single hlower
    unfold Engine.textQuery Engine.regexQuery
    rw [if_neg hne, hregex]
    dsimp only
    rw [if_pos hterms, hflat, source_single _ hlower, if_pos (hdoc.compiles _ hpieces)]
  rw [← finds_single_iff hdoc text (chars_utf8 text htext) _ hlower]
  unfold Engine.Hit
  rw [hfound]
  simp

theorem hit_longer_iff (hdoc : engine.Documented table) (hsettled : table.Settled)
    (hquery : IsUtf8 query) (htext : IsUtf8 text) (hregex : stripPrefix query (str "re:") = none)
    (hoccurs : Occurs table query text) (hlong : minNgram ≤ (chars query).length) :
    engine.Hit query text ↔ ∀ ch ∈ chars query, FoldsAlike table ch := by
  have hutf8 := chars_utf8 query hquery
  have hne : query ≠ [] := by
    intro hnil
    rw [hnil] at hlong
    exact absurd hlong (by decide)
  have hlength : minNgram ≤ (chars (query.map asciiLower)).length := by
    rw [chars_asciiLower, List.length_map]
    exact hlong
  have hlowered : ∀ ch ∈ chars (query.map asciiLower), IsUtf8Char ch := by
    rw [chars_asciiLower]
    intro lowered hmem
    obtain ⟨ch, hch, rfl⟩ := List.mem_map.mp hmem
    exact isUtf8Char_asciiLower (hutf8 ch hch)
  have hfolded : Occurs table (query.map asciiLower) text := by
    unfold Occurs
    rw [chars_asciiLower, List.map_map]
    have hsame : (chars query).map (table.toLowercase ∘ List.map asciiLower) =
        (chars query).map table.toLowercase :=
      List.map_congr_left fun ch hch => toLowercase_asciiLower table (hutf8 ch hch)
    rwa [hsame]
  have hterms : queryTerms (query.map asciiLower) ≠ [] := by
    obtain ⟨parts, hparts, hterms, hcover⟩ := queryTerms_parts _ hlength
    obtain ⟨ch, hch⟩ := List.exists_mem_of_length_pos (Nat.lt_of_lt_of_le (by decide) hlength)
    obtain ⟨part, hpart, _⟩ := hcover ch hch
    exact List.ne_nil_of_mem ((hterms _).mpr ⟨part, hpart, rfl⟩)
  have hfound : engine.textQuery query = .ok (.terms (queryTerms (query.map asciiLower))) := by
    unfold Engine.textQuery
    rw [if_neg hne, hregex]
    dsimp only
    rw [if_neg hterms]
  have hhit : engine.Hit query text ↔
      engine.finds (indexedText text) (.terms (queryTerms (query.map asciiLower))) = true := by
    unfold Engine.Hit
    rw [hfound]
    simp
  rw [hhit, finds_terms_iff hdoc hsettled text htext _ hlowered hfolded hlength, chars_asciiLower,
    List.forall_mem_map]
  refine forall₂_congr fun ch hch => ?_
  rw [toLowercase_asciiLower table (hutf8 ch hch)]
  rfl

theorem hit_iff (hdoc : engine.Documented table) (hsettled : table.Settled) (hquery : IsUtf8 query)
    (htext : IsUtf8 text) (hne : query ≠ []) (hregex : stripPrefix query (str "re:") = none)
    (hoccurs : Occurs table query text) : engine.Hit query text ↔ Findable table query text := by
  by_cases hlong : minNgram ≤ (chars query).length
  · rw [hit_longer_iff query text hdoc hsettled hquery htext hregex hoccurs hlong]
    constructor
    · intro h
      refine ⟨fun ch hch => ?_, fun _ => h⟩
      rw [hch] at hlong
      have htwo : minNgram = 2 := rfl
      rw [List.length_singleton] at hlong
      omega
    · exact fun h => h.longer hlong
  · have hone : ∃ ch, chars query = [ch] := by
      have hpos : (chars query).length ≠ 0 := by
        intro hzero
        apply hne
        rw [← chars_flatten query, List.length_eq_zero_iff.mp hzero]
        rfl
      have htwo : minNgram = 2 := rfl
      exact List.length_eq_one_iff.mp (by omega)
    obtain ⟨ch, hch⟩ := hone
    rw [hit_single_iff query text hdoc hquery htext hregex ch hch]
    constructor
    · intro h
      refine ⟨fun other hother => ?_, fun hmin => absurd hmin hlong⟩
      rw [hch, List.singleton_inj] at hother
      rwa [← hother]
    · exact fun h => h.single ch hch

end Queries

/-- A text is found by the queries that occur in it, ignoring case, exactly when these are
findable. -/
theorem substring_search_complete_iff (table : CaseMap) (engine : Engine)
    (hdoc : engine.Documented table) (hsettled : table.Settled) (query text : Str)
    (hquery : IsUtf8 query) (htext : IsUtf8 text) (hne : query ≠ [])
    (hregex : stripPrefix query (str "re:") = none) :
    (Occurs table query text → engine.Hit query text) ↔
      (Occurs table query text → Findable table query text) :=
  imp_congr_right fun hoccurs => hit_iff query text hdoc hsettled hquery htext hne hregex hoccurs

def acuteTable : CaseMap where
  lower ch := if ch = str "É" then str "é" else ch
  ascii_lower := by
    intro ch hch byte hbyte hlt
    split at hbyte
    · have hhigh : ∀ b ∈ str "é", (0x80 : UInt8) ≤ b := Str.forall_of_all (by decide)
      exact absurd hlt (UInt8.not_lt.mpr (hhigh byte hbyte))
    · exact absurd hlt (UInt8.not_lt.mpr (hch byte hbyte))

theorem encode_ascii (byte : UInt8) (h : byte < 0x80) :
    String.utf8EncodeChar (Char.ofNat byte.toNat) = [byte] := by
  have hall : ∀ n < 128, String.utf8EncodeChar (Char.ofNat n) = [UInt8.ofNat n] := by
    set_option maxRecDepth 8000 in decide
  have hbyte := hall byte.toNat (UInt8.lt_iff_toNat_lt.mp h)
  rwa [UInt8.ofNat_toNat] at hbyte

theorem acuteTable_high (ch : Str) (h : ∀ byte ∈ ch, (0x80 : UInt8) ≤ byte) :
    acuteTable.toLowercase ch = if ch = str "É" then str "é" else ch := by
  unfold CaseMap.toLowercase
  split
  · rename_i byte
    rw [if_neg (UInt8.not_lt.mpr (h byte (List.mem_singleton_self byte)))]
    rfl
  · rfl

theorem acuteTable_settled : acuteTable.Settled := by
  intro c
  rcases isChar_of_utf8 (isUtf8Char_encode c) with ⟨byte, hbyte, hascii⟩ | hhigh
  · have hlow : asciiLower byte < 0x80 := by
      rw [← UInt8.not_le, high_asciiLower, UInt8.not_le]
      exact hascii
    refine ⟨[Char.ofNat (asciiLower byte).toNat], by simp, ?_, ?_⟩
    · rw [hbyte, CaseMap.toLowercase, if_pos hascii]
      simp [encoded, encode_ascii _ hlow]
    · intro d hd
      rw [List.mem_singleton.mp hd, encode_ascii _ hlow, CaseMap.toLowercase, if_pos hlow,
        asciiLower_again]
  · rw [acuteTable_high _ hhigh]
    split
    · have he : String.utf8EncodeChar 'é' = str "é" := by decide
      refine ⟨['é'], by simp, by simp [encoded, he], ?_⟩
      intro d hd
      rw [List.mem_singleton.mp hd]
      decide
    · rename_i hne
      refine ⟨[c], by simp, by simp [encoded], ?_⟩
      intro d hd
      rw [List.mem_singleton.mp hd, acuteTable_high _ hhigh, if_neg hne]

def ngrams (chars : List Str) : List (List Str) :=
  chars.tails.flatMap fun tail =>
    (List.range' minNgram (maxNgram - minNgram + 1)).filterMap fun count =>
      if count ≤ tail.length then some (tail.take count) else none

theorem mem_ngrams (chars gram : List Str) : gram ∈ ngrams chars ↔
    gram <:+: chars ∧ minNgram ≤ gram.length ∧ gram.length ≤ maxNgram := by
  have htwo : minNgram = 2 := rfl
  have htwelve : maxNgram = 12 := rfl
  unfold ngrams
  rw [List.mem_flatMap]
  constructor
  · intro h
    obtain ⟨tail, htail, hmem⟩ := h
    obtain ⟨count, hcount, htake⟩ := List.mem_filterMap.mp hmem
    rw [List.mem_range'_1] at hcount
    split at htake
    · rename_i hle
      rw [Option.some.injEq] at htake
      rw [← htake, List.length_take, Nat.min_eq_left hle]
      refine ⟨(List.take_prefix _ _).isInfix.trans ((List.mem_tails _ _).mp htail).isInfix, ?_, ?_⟩
      · omega
      · omega
    · cases htake
  · intro h
    obtain ⟨⟨front, back, hsplit⟩, hmin, hmax⟩ := h
    refine ⟨gram ++ back, (List.mem_tails _ _).mpr ⟨front, by rw [← hsplit, List.append_assoc]⟩,
      List.mem_filterMap.mpr ⟨gram.length, ?_, ?_⟩⟩
    · rw [List.mem_range'_1]
      omega
    · rw [if_pos (by simp), List.take_left]

def acuteEngine : Engine where
  tokens text := (ngrams (chars text)).map fun gram => (gram.map acuteTable.toLowercase).flatten
  compiles _ := true
  regex := readRegex

theorem acuteEngine_documented : acuteEngine.Documented acuteTable where
  tokens text token := by
    unfold acuteEngine
    dsimp only
    rw [List.mem_map]
    constructor
    · intro h
      obtain ⟨gram, hgram, htoken⟩ := h
      obtain ⟨hwithin, hmin, hmax⟩ := (mem_ngrams _ _).mp hgram
      exact ⟨gram, hwithin, hmin, hmax, htoken.symm⟩
    · intro h
      obtain ⟨gram, hwithin, hmin, hmax, htoken⟩ := h
      exact ⟨gram, (mem_ngrams _ _).mpr ⟨hwithin, hmin, hmax⟩, htoken.symm⟩
  compiles _ _ := rfl
  regex := readRegex_documented

theorem numpy_found : acuteEngine.Hit (str "NumPy") (str "numpy 2.0") := by
  have hlong : ∀ ch, chars (str "NumPy") ≠ [ch] := fun ch hch =>
    absurd (congrArg List.length hch) (show ¬ (chars (str "NumPy")).length = 1 by decide)
  exact (substring_search_complete_iff acuteTable acuteEngine acuteEngine_documented
    acuteTable_settled (str "NumPy") (str "numpy 2.0") (by decide) (by decide) (by decide)
    (by decide)).mpr (fun _ => ⟨fun ch hch => absurd hch (hlong ch), fun _ => by decide⟩) (by decide)

/-- A text is not found by its own name. -/
theorem ecole_not_found : Occurs acuteTable (str "École") (str "École") ∧
    ¬ acuteEngine.Hit (str "École") (str "École") := by
  have hoccurs : Occurs acuteTable (str "École") (str "École") := List.infix_refl _
  refine ⟨hoccurs, ?_⟩
  rw [hit_iff (str "École") (str "École") acuteEngine_documented acuteTable_settled (by decide)
    (by decide) (by decide) (by decide) hoccurs]
  intro h
  exact absurd (h.longer (by decide)) (by decide)

end Peryx.Search
