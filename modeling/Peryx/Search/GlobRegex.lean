import Peryx.Core.Chars
import Peryx.Library.Regex

/-!
# The regular expression of a glob (peryx-search/src/engine.rs)

The search query turns every glob into the source of a regular expression. What the
expression matches is the search library's business: `regex` stands for it, and
`DocumentedRegex` is what its syntax promises of the sources written here.
-/

namespace Peryx.Search
open Regex

def regexSpecials : Str := str "\\.+*?()|[]\x7b\x7d^$"

def special (ch : Str) : Bool := List.elem ch (regexSpecials.map fun byte => [byte])

def escapeChar (ch : Str) : List Str := if special ch then [str "\\", ch] else [ch]

def escapeRegex (value : Str) : Str := ((Str.chars value).flatMap escapeChar).flatten

def globRegex (value : Str) : Str :=
  match List.splitOn Str.starByte value with
  | [] => []
  | first :: parts => escapeRegex first ++ parts.flatMap fun part => str ".*" ++ escapeRegex part

def newline : Str := [0x0A]

def atomSource : Atom Str → List Str
  | .letter ch => escapeChar ch
  | .any => [str "."]

def pieceSource (piece : Piece Str) : List Str :=
  atomSource piece.atom ++ if piece.starred then [str "*"] else []

def source (pieces : List (Piece Str)) : Str := (pieces.flatMap pieceSource).flatten

def WrittenInChars (pieces : List (Piece Str)) : Prop :=
  ∀ piece ∈ pieces, ∀ ch, piece.atom = .letter ch → Str.IsUtf8Char ch

/-- `RegexQuery::from_pattern` and its matching: a term is found when the whole of it
matches the expression; a backslash takes the meaning from a special letter. -/
structure DocumentedRegex (regex : Str → Str → Bool) : Prop where
  full_match : ∀ (pieces : List (Piece Str)) (term : Str), WrittenInChars pieces →
    Str.IsText term → (regex (source pieces) term = true ↔ Matches newline pieces (Str.chars term))

def globPieces (glob : Str) : List (Piece Str) := ofStars [Str.starByte] (Str.chars glob)

theorem source_append (front back : List (Piece Str)) :
    source (front ++ back) = source front ++ source back := by
  simp [source]

theorem source_ofStars_literal (chs : List Str) (h : [Str.starByte] ∉ chs) :
    source (ofStars [Str.starByte] chs) = (chs.flatMap escapeChar).flatten := by
  induction chs with
  | nil => rfl
  | cons ch chs ih =>
    obtain ⟨hch, hrest⟩ := not_or.mp (mt List.mem_cons.mpr h)
    rw [ofStars, List.map_cons, if_neg (Ne.symm hch), ← ofStars, ← List.singleton_append,
      source_append, ih hrest, List.flatMap_cons, List.flatten_append]
    congr 1
    simp [source, pieceSource, atomSource]

theorem star_not_mem_chars (value : Str) (h : Str.starByte ∉ value) :
    [Str.starByte] ∉ Str.chars value := by
  intro hmem
  apply h
  rw [← Str.chars_flatten value]
  exact List.mem_flatten.mpr ⟨_, hmem, List.mem_singleton_self _⟩

theorem escapeRegex_source (value : Str) (h : Str.starByte ∉ value) :
    escapeRegex value = source (globPieces value) :=
  (source_ofStars_literal _ (star_not_mem_chars value h)).symm

theorem source_star : source [⟨.any, true⟩] = str ".*" := by decide

theorem globPieces_star (front rest : Str) :
    globPieces (front ++ Str.starByte :: rest) =
      globPieces front ++ ⟨.any, true⟩ :: globPieces rest := by
  rw [globPieces, Str.chars_append_ascii front rest Str.starByte (by decide), ofStars,
    List.map_append, List.map_cons, if_pos rfl]
  rfl

theorem globRegex_star (front rest : Str) (h : Str.starByte ∉ front) :
    globRegex (front ++ Str.starByte :: rest) = escapeRegex front ++ str ".*" ++ globRegex rest := by
  unfold globRegex
  rw [List.splitOn_append_cons_self_of_not_mem h]
  cases hrest : List.splitOn Str.starByte rest with
  | nil => exact absurd hrest (List.splitOn_ne_nil _ _)
  | cons first parts =>
    dsimp only
    rw [List.flatMap_cons, List.append_assoc, List.append_assoc]

theorem globRegex_source (glob : Str) : globRegex glob = source (globPieces glob) := by
  induction hlength : glob.length using Nat.strongRecOn generalizing glob with
  | ind length ih =>
    by_cases hstar : Str.starByte ∈ glob
    · obtain ⟨front, rest, rfl, hfront⟩ := List.eq_append_cons_of_mem hstar
      have hshorter : rest.length < length := by
        rw [← hlength, List.length_append, List.length_cons]
        omega
      rw [globRegex_star front rest hfront, ih rest.length hshorter rest rfl,
        escapeRegex_source front hfront, globPieces_star, source_append,
        ← List.singleton_append, source_append, source_star, List.append_assoc]
    · unfold globRegex
      rw [List.splitOn_eq_singleton hstar]
      dsimp only
      rw [List.flatMap_nil, List.append_nil, escapeRegex_source glob hstar]

theorem regex_glob_iff (regex : Str → Str → Bool) (hregex : DocumentedRegex regex) (glob term : Str)
    (hglob : Str.IsText glob) (hterm : Str.IsText term) (hline : 0x0A ∉ term) :
    regex (globRegex glob) term = true ↔ Wildcard.Denotes Str.starByte glob term := by
  have hchars : WrittenInChars (globPieces glob) := by
    intro piece hpiece ch hch
    obtain ⟨c, hc, rfl⟩ := List.mem_map.mp hpiece
    split at hch
    · cases hch
    · cases hch
      exact hglob _ hc
  have heol : newline ∉ Str.chars term := by
    intro hmem
    apply hline
    rw [← Str.chars_flatten term]
    exact List.mem_flatten.mpr ⟨_, hmem, List.mem_singleton_self _⟩
  rw [globRegex_source, hregex.full_match _ term hchars hterm, globPieces,
    matches_ofStars _ _ _ _ heol, Str.denotes_chars glob term hglob hterm]

def withPending (pending : Option (Atom Str)) (pieces : List (Piece Str)) : List (Piece Str) :=
  match pending with
  | some atom => ⟨atom, false⟩ :: pieces
  | none => pieces

def readPieces : Bool → Option (Atom Str) → List Str → Option (List (Piece Str))
  | false, pending, [] => some (withPending pending [])
  | true, _, [] => none
  | true, pending, ch :: rest =>
    (readPieces false (some (.letter ch)) rest).map (withPending pending)
  | false, pending, ch :: rest =>
    if ch = str "*" then
      pending.bind fun atom =>
        (readPieces false none rest).map fun pieces => ⟨atom, true⟩ :: pieces
    else if ch = str "\\" then readPieces true pending rest
    else if ch = str "." then (readPieces false (some .any) rest).map (withPending pending)
    else if special ch then none
    else (readPieces false (some (.letter ch)) rest).map (withPending pending)

/-- The part of the library's matching that the sources written here need. -/
def readRegex (pattern term : Str) : Bool :=
  (readPieces false none (Str.chars pattern)).any fun pieces => run newline pieces (Str.chars term)

theorem readPieces_atom (pending : Option (Atom Str)) (atom : Atom Str) (rest : List Str) :
    readPieces false pending (atomSource atom ++ rest) =
      (readPieces false (some atom) rest).map (withPending pending) := by
  cases atom with
  | any =>
    have hstar : str "." ≠ str "*" := by decide
    have hslash : str "." ≠ str "\\" := by decide
    rw [atomSource, List.singleton_append, readPieces, if_neg hstar, if_neg hslash, if_pos rfl]
  | letter ch =>
    rw [atomSource, escapeChar]
    by_cases hspecial : special ch = true
    · have hstar : str "\\" ≠ str "*" := by decide
      rw [if_pos hspecial, List.cons_append, readPieces, if_neg hstar, if_pos rfl,
        List.singleton_append, readPieces]
    · have hplain : ∀ other, special other = true → ch ≠ other := by
        rintro other hother rfl
        exact hspecial hother
      rw [if_neg hspecial, List.singleton_append, readPieces, if_neg (hplain _ (by decide)),
        if_neg (hplain _ (by decide)), if_neg (hplain _ (by decide)), if_neg hspecial]

theorem readPieces_source (pending : Option (Atom Str)) (pieces : List (Piece Str)) :
    readPieces false pending (pieces.flatMap pieceSource) = some (withPending pending pieces) := by
  induction pieces generalizing pending with
  | nil => rfl
  | cons piece pieces ih =>
    obtain ⟨atom, starred⟩ := piece
    rw [List.flatMap_cons, pieceSource, List.append_assoc, readPieces_atom]
    cases starred with
    | false =>
      rw [if_neg Bool.false_ne_true, List.nil_append, ih]
      rfl
    | true =>
      rw [if_pos rfl, List.singleton_append, readPieces, if_pos rfl, Option.bind_some, ih]
      rfl

theorem pieceSource_utf8 (pieces : List (Piece Str)) (h : WrittenInChars pieces) :
    ∀ ch ∈ pieces.flatMap pieceSource, Str.IsUtf8Char ch := by
  intro ch hch
  obtain ⟨⟨atom, starred⟩, hpiece, hsource⟩ := List.mem_flatMap.mp hch
  rcases List.mem_append.mp hsource with hatom | hstar
  · cases atom with
    | any =>
      obtain rfl := List.mem_singleton.mp hatom
      exact Str.isUtf8Char_ascii 0x2E (by decide)
    | letter c =>
      have hc := h _ hpiece c rfl
      dsimp only [atomSource, escapeChar] at hatom
      split at hatom
      · rcases List.mem_cons.mp hatom with rfl | hatom
        · exact Str.isUtf8Char_ascii 0x5C (by decide)
        · rwa [List.mem_singleton.mp hatom]
      · rwa [List.mem_singleton.mp hatom]
  · dsimp only at hstar
    split at hstar
    · obtain rfl := List.mem_singleton.mp hstar
      exact Str.isUtf8Char_ascii 0x2A (by decide)
    · cases hstar

theorem readRegex_documented : DocumentedRegex readRegex where
  full_match := by
    intro pieces term hpieces _
    unfold readRegex source
    rw [Str.chars_flatten_chars _ (pieceSource_utf8 pieces hpieces), readPieces_source]
    exact run_iff newline pieces (Str.chars term)

end Peryx.Search
