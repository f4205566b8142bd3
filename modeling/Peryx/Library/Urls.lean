import Peryx.Core.Text

/-!
# Paths of special URLs and relative references

The part of the URL standard that says what a reference is resolved to against a base of
a special scheme other than `file`: where a scheme is found, what counts as a separator,
how dot segments and bytes outside the path set are written.
-/

namespace Peryx.Url
open Str

/-! ### Bytes and segments -/

def isAsciiLetter (byte : UInt8) : Bool :=
  (0x41 ≤ byte && byte ≤ 0x5A) || (0x61 ≤ byte && byte ≤ 0x7A)

def isSchemeByte (byte : UInt8) : Bool :=
  isAsciiLetter byte || (0x30 ≤ byte && byte ≤ 0x39) || byte == 0x2B || byte == 0x2D || byte == 0x2E

/-- The scheme in front of the first colon, in small letters, and what follows it. -/
def splitScheme (input : Str) : Option (Str × Str) :=
  match input with
  | [] => none
  | first :: _ =>
    if isAsciiLetter first then
      (splitOnce 0x3A input).bind fun parts =>
        if parts.1.all isSchemeByte then some (parts.1.map asciiLower, parts.2) else none
    else none

def encodesInPath (byte : UInt8) : Bool :=
  byte < 0x20 || 0x7E < byte ||
    List.elem byte [0x20, 0x22, 0x23, 0x3C, 0x3E, 0x3F, 0x5E, 0x60, 0x7B, 0x7D]

def upperHex (nibble : UInt8) : UInt8 := if nibble < 10 then 0x30 + nibble else 0x37 + nibble

def encodePathByte (byte : UInt8) : Str :=
  if encodesInPath byte then [0x25, upperHex (byte >>> 4), upperHex (byte &&& 0x0F)] else [byte]

def encodeSegment (segment : Str) : Str := segment.flatMap encodePathByte

def singleDots : List Str := [str ".", str "%2e"]

def doubleDots : List Str := [str "..", str ".%2e", str "%2e.", str "%2e%2e"]

def isSingleDot (segment : Str) : Bool := singleDots.contains (segment.map asciiLower)

def isDoubleDot (segment : Str) : Bool := doubleDots.contains (segment.map asciiLower)

def isDots (segment : Str) : Bool := isSingleDot segment || isDoubleDot segment

/-- A slash, or the backslash that a special scheme takes for one. -/
def isSeparator (byte : UInt8) : Bool := byte == 0x2F || byte == 0x5C

def segmentsOf (input : Str) : List Str := input.splitOnP isSeparator

def pathTo (path : List Str) : List Str → List Str
  | [] => path
  | [last] =>
    if isDoubleDot last then path.dropLast ++ [[]]
    else if isSingleDot last then path ++ [[]]
    else path ++ [encodeSegment last]
  | segment :: rest =>
    if isDoubleDot segment then pathTo path.dropLast rest
    else if isSingleDot segment then pathTo path rest
    else pathTo (path ++ [encodeSegment segment]) rest

def pathText (path : List Str) : Str := path.flatMap fun segment => 0x2F :: segment

/-- A byte that the path state writes as it is and takes for no separator. -/
def isPathByte (byte : UInt8) : Bool := !encodesInPath byte && byte != 0x5C

def PathText (text : Str) : Prop := ∀ byte ∈ text, isPathByte byte = true

def beforeQuery (input : Str) : Str := input.takeWhile fun byte => byte != 0x3F && byte != 0x23

/-! ### Resolving a reference -/

structure Absolute where
  scheme : Str
  host : Str
  port : Option Nat
  path : Str
  deriving Repr, DecidableEq

/-- What the parser does with an authority and with references of other schemes. -/
structure Standard where
  authority : Str → Option (Str × Option Nat)
  /-- Host, port and path of a URL of another scheme, from what follows its colon. -/
  foreign : Str → Str → Option (Str × Option Nat × Str)

/-- The schemes whose URLs have a host, other than that of files. -/
def hostedSchemes : List Str := [str "ftp", str "http", str "https", str "ws", str "wss"]

structure Base where
  scheme : Str
  host : Str
  port : Option Nat
  directory : List Str
  hosted : scheme ∈ hostedSchemes
  written : ∀ segment ∈ directory, PathText segment ∧ 0x2F ∉ segment

def Base.path (base : Base) : Str := pathText (base.directory ++ [[]])

def Base.toAbsolute (base : Base) : Absolute := ⟨base.scheme, base.host, base.port, base.path⟩

/-- Control characters and spaces around an input are stripped, and breaks inside it. -/
def cleaned (input : Str) : Str :=
  ((input.dropWhile (· ≤ 0x20)).rdropWhile (· ≤ 0x20)).filter fun byte =>
    byte != 0x09 && byte != 0x0A && byte != 0x0D

section Resolve
variable (standard : Standard) (base : Base)

/-- The authority state of a special scheme, which ignores slashes in front of it. -/
def fromAuthority (input : Str) : Option Absolute :=
  let text := beforeQuery (input.dropWhile isSeparator)
  let host := text.takeWhile fun byte => !isSeparator byte
  let rest := text.drop (host.length + 1)
  (standard.authority host).map fun parts =>
    ⟨base.scheme, parts.1, parts.2, pathText (pathTo [] (segmentsOf rest))⟩

def resolveRelative (input : Str) : Option Absolute :=
  match input with
  | [] => some base.toAbsolute
  | first :: rest =>
    if isSeparator first then
      if rest.head?.any isSeparator then fromAuthority standard base rest
      else some { base.toAbsolute with path := pathText (pathTo [] (segmentsOf (beforeQuery rest))) }
    else if first == 0x3F || first == 0x23 then some base.toAbsolute
    else some { base.toAbsolute with
      path := pathText (pathTo base.directory (segmentsOf (beforeQuery input))) }

/-- `base.join(reference)`. -/
def resolve (reference : Str) : Option Absolute :=
  let input := cleaned reference
  match splitScheme input with
  | some (scheme, rest) =>
    if scheme = base.scheme then
      if startsWith rest (str "//") then fromAuthority standard base rest
      else resolveRelative standard base rest
    else (standard.foreign scheme rest).map fun parts => ⟨scheme, parts.1, parts.2.1, parts.2.2⟩
  | none => resolveRelative standard base input

end Resolve

/-! ### What a written path holds -/

theorem pathText_append (front back : List Str) :
    pathText (front ++ back) = pathText front ++ pathText back :=
  List.flatMap_append

theorem pathText_cons (segment : Str) (rest : List Str) :
    pathText (segment :: rest) = 0x2F :: segment ++ pathText rest := List.flatMap_cons

theorem PathText.pathText {path : List Str} (h : ∀ segment ∈ path, PathText segment) :
    PathText (pathText path) := by
  intro byte hbyte
  obtain ⟨segment, hsegment, hmem⟩ := List.mem_flatMap.mp hbyte
  rcases List.mem_cons.mp hmem with rfl | hmem
  · decide
  · exact h segment hsegment byte hmem

theorem encodePathByte_plain (byte : UInt8) (h : encodesInPath byte = false) :
    encodePathByte byte = [byte] := by
  unfold encodePathByte
  rw [if_neg (by rw [h]; nofun)]

theorem encodePathByte_pathText (byte : UInt8) (h : byte ≠ 0x5C) : PathText (encodePathByte byte) := by
  have hall : ∀ n < 256, encodesInPath (UInt8.ofNat n) = true →
      (encodePathByte (UInt8.ofNat n)).all isPathByte = true := by
    set_option maxRecDepth 8000 in decide
  cases hencodes : encodesInPath byte with
  | true =>
    have hbyte := hall byte.toNat byte.toNat_lt
    rw [UInt8.ofNat_toNat] at hbyte
    exact List.all_eq_true.mp (hbyte hencodes)
  | false =>
    rw [encodePathByte_plain byte hencodes]
    intro b hb
    rw [List.mem_singleton.mp hb, isPathByte, hencodes]
    simpa using h

theorem encodeSegment_pathText (segment : Str) (h : 0x5C ∉ segment) : PathText (encodeSegment segment) := by
  intro byte hbyte
  obtain ⟨source, hsource, hmem⟩ := List.mem_flatMap.mp hbyte
  exact encodePathByte_pathText source (fun heq => h (heq ▸ hsource)) byte hmem

theorem encodeSegment_plain (segment : Str) (h : PathText segment) : encodeSegment segment = segment := by
  induction segment with
  | nil => rfl
  | cons byte rest ih =>
    have hbyte := h byte List.mem_cons_self
    rw [isPathByte, Bool.and_eq_true, Bool.not_eq_true'] at hbyte
    unfold encodeSegment at ih ⊢
    rw [List.flatMap_cons, encodePathByte_plain byte hbyte.1,
      ih fun b hb => h b (List.mem_cons_of_mem _ hb)]
    rfl

/-! ### Segments -/

theorem not_separator_of_segment (input : Str) :
    ∀ segment ∈ segmentsOf input, ∀ byte ∈ segment, isSeparator byte = false := by
  induction input with
  | nil =>
    intro segment hsegment
    rw [segmentsOf, List.splitOnP_nil, List.mem_singleton] at hsegment
    rw [hsegment]
    exact fun _ h => absurd h List.not_mem_nil
  | cons first rest ih =>
    intro segment hsegment
    unfold segmentsOf at ih hsegment
    rw [List.splitOnP_cons_eq_if_modifyHead] at hsegment
    split at hsegment
    · rcases List.mem_cons.mp hsegment with rfl | hmem
      · exact fun _ h => absurd h List.not_mem_nil
      · exact ih segment hmem
    · rename_i hfirst
      obtain ⟨head, tail, hsplit⟩ := List.exists_cons_of_ne_nil (List.splitOnP_ne_nil isSeparator rest)
      rw [hsplit] at hsegment ih
      rw [List.modifyHead_cons] at hsegment
      rcases List.mem_cons.mp hsegment with rfl | hmem
      · intro byte hbyte
        rcases List.mem_cons.mp hbyte with rfl | hbyte
        · simpa using hfirst
        · exact ih head List.mem_cons_self byte hbyte
      · exact ih segment (List.mem_cons_of_mem _ hmem)

theorem pathText_segmentsOf (input : Str) (h : 0x5C ∉ input) :
    pathText (segmentsOf input) = 0x2F :: input := by
  induction input with
  | nil => rfl
  | cons first rest ih =>
    rw [List.mem_cons, not_or] at h
    have hrest := ih h.2
    unfold segmentsOf at hrest ⊢
    rw [List.splitOnP_cons_eq_if_modifyHead]
    split
    · rename_i hfirst
      have hslash : first = 0x2F := by
        simp only [isSeparator, Bool.or_eq_true, beq_iff_eq] at hfirst
        exact hfirst.resolve_right (Ne.symm h.1)
      rw [pathText_cons, hrest, hslash]
      rfl
    · obtain ⟨head, tail, hsplit⟩ := List.exists_cons_of_ne_nil (List.splitOnP_ne_nil isSeparator rest)
      rw [hsplit] at hrest ⊢
      rw [pathText_cons] at hrest
      rw [List.modifyHead_cons, pathText_cons]
      simp only [List.cons_append, List.cons.injEq, true_and] at hrest ⊢
      exact hrest

/-! ### How much a path grows -/

def weight (w : UInt8 → Nat) (text : Str) : Nat := text.foldr (fun byte n => w byte + n) 0

section Weight
variable (w : UInt8 → Nat)

theorem weight_cons (byte : UInt8) (rest : Str) :
    weight w (byte :: rest) = w byte + weight w rest := rfl

theorem weight_append (a b : Str) : weight w (a ++ b) = weight w a + weight w b := by
  induction a with
  | nil => exact (Nat.zero_add _).symm
  | cons byte a ih =>
    rw [List.cons_append, weight_cons, weight_cons, ih, Nat.add_assoc]

theorem weight_sublist {a b : Str} (h : a.Sublist b) : weight w a ≤ weight w b := by
  induction h with
  | slnil => exact Nat.le_refl _
  | cons byte _ ih =>
    rw [weight_cons]
    omega
  | cons_cons byte _ ih =>
    rw [weight_cons, weight_cons]
    omega

theorem weight_dropLast (path : List Str) :
    weight w (pathText path.dropLast) ≤ weight w (pathText path) := by
  have hsplit : ∀ segments : List Str, (pathText segments.dropLast).Sublist (pathText segments) := by
    intro segments
    induction segments with
    | nil => exact List.Sublist.refl _
    | cons segment rest ih =>
      cases rest with
      | nil => exact List.nil_sublist _
      | cons next rest =>
        rw [List.dropLast_cons_cons, pathText_cons, pathText_cons]
        exact (List.Sublist.refl _).append ih
  exact weight_sublist w (hsplit path)

theorem weight_pathTo (raw path : List Str)
    (h : ∀ segment ∈ raw, weight w (encodeSegment segment) = weight w segment) :
    weight w (pathText (pathTo path raw)) ≤ weight w (pathText path) + weight w (pathText raw) := by
  have hempty : pathText [[]] = [0x2F] := rfl
  have hone : ∀ segment, pathText [segment] = 0x2F :: segment := fun segment => by
    rw [pathText_cons]
    exact List.append_nil _
  induction raw generalizing path with
  | nil => exact Nat.le_add_right _ _
  | cons segment rest ih =>
    have hsegment := h segment List.mem_cons_self
    have hdropped := weight_dropLast w path
    cases rest with
    | nil =>
      rw [hone, weight_cons]
      unfold pathTo
      split
      · rw [pathText_append, weight_append, hempty, weight_cons]
        have : weight w [] = 0 := rfl
        omega
      · split
        · rw [pathText_append, weight_append, hempty, weight_cons]
          have : weight w [] = 0 := rfl
          omega
        · rw [pathText_append, weight_append, hone, weight_cons]
          omega
    | cons next rest =>
      have hrest := fun s hs => h s (List.mem_cons_of_mem segment hs)
      rw [pathText_cons, weight_append, weight_cons]
      unfold pathTo
      split
      · have := ih path.dropLast hrest
        omega
      · split
        · have := ih path hrest
          omega
        · have := ih (path ++ [encodeSegment segment]) hrest
          rw [pathText_append, weight_append, hone, weight_cons] at this
          omega

end Weight

theorem weight_one (text : Str) : weight (fun _ => 1) text = text.length := by
  induction text with
  | nil => rfl
  | cons byte rest ih =>
    rw [weight_cons, ih, List.length_cons]
    omega

theorem pathTo_dots (raw path : List Str) (hplain : ∀ segment ∈ raw, PathText segment)
    (hdots : ∃ segment ∈ raw, isDots segment = true) :
    (pathText (pathTo path raw)).length < (pathText path).length + (pathText raw).length := by
  have hone : ∀ segment, pathText [segment] = 0x2F :: segment := fun segment => by
    rw [pathText_cons]
    exact List.append_nil _
  have hshort : ∀ path : List Str, (pathText path.dropLast).length ≤ (pathText path).length := by
    intro path
    have h := weight_dropLast (fun _ => 1) path
    rw [weight_one, weight_one] at h
    exact h
  have hgrows : ∀ raw path : List Str, (∀ segment ∈ raw, PathText segment) →
      (pathText (pathTo path raw)).length ≤ (pathText path).length + (pathText raw).length := by
    intro raw path hall
    have h := weight_pathTo (fun _ => 1) raw path fun segment hsegment => by
      rw [encodeSegment_plain segment (hall segment hsegment)]
    rw [weight_one, weight_one, weight_one] at h
    exact h
  have hlength : ∀ segment, isDots segment = true → 1 ≤ segment.length := by
    intro segment h
    cases segment with
    | nil => exact absurd h (by decide)
    | cons byte rest => simp
  induction raw generalizing path with
  | nil =>
    obtain ⟨segment, hsegment, _⟩ := hdots
    cases hsegment
  | cons segment rest ih =>
    have hdropped := hshort path
    cases rest with
    | nil =>
      obtain ⟨found, hfound, hdot⟩ := hdots
      rw [List.mem_singleton.mp hfound] at hdot
      have hlong := hlength segment hdot
      unfold pathTo
      rw [isDots, Bool.or_eq_true] at hdot
      rw [hone, List.length_cons]
      split
      · rw [pathText_append, List.length_append, hone, List.length_singleton]
        omega
      · rename_i hdouble
        rw [if_pos (hdot.resolve_right hdouble), pathText_append, List.length_append, hone,
          List.length_singleton]
        omega
    | cons next rest =>
      have hrest := fun s hs => hplain s (List.mem_cons_of_mem segment hs)
      rw [pathText_cons, List.length_append, List.length_cons]
      unfold pathTo
      split
      · rename_i hdouble
        have hlong := hlength segment (by rw [isDots, hdouble, Bool.or_true])
        have := hgrows (next :: rest) path.dropLast hrest
        omega
      · split
        · rename_i hsingle
          have hlong := hlength segment (by rw [isDots, hsingle, Bool.true_or])
          have := hgrows (next :: rest) path hrest
          omega
        · rename_i hdouble hsingle
          have hlater : ∃ s ∈ next :: rest, isDots s = true := by
            obtain ⟨found, hfound, hdot⟩ := hdots
            rcases List.mem_cons.mp hfound with rfl | hmem
            · rw [isDots, Bool.or_eq_true] at hdot
              exact (hdot.elim hsingle hdouble).elim
            · exact ⟨found, hmem, hdot⟩
          have := ih (path ++ [encodeSegment segment]) hrest hlater
          rw [encodeSegment_plain segment (hplain segment List.mem_cons_self), pathText_append,
            List.length_append, hone, List.length_cons] at this
          rw [encodeSegment_plain segment (hplain segment List.mem_cons_self)]
          omega

theorem pathTo_plain (raw path : List Str) (hplain : ∀ segment ∈ raw, PathText segment)
    (hdots : ∀ segment ∈ raw, isDots segment = false) : pathTo path raw = path ++ raw := by
  induction raw generalizing path with
  | nil => exact (List.append_nil _).symm
  | cons segment rest ih =>
    have hdot := hdots segment List.mem_cons_self
    rw [isDots, Bool.or_eq_false_iff] at hdot
    have hsame := encodeSegment_plain segment (hplain segment List.mem_cons_self)
    have hsingle : ¬ isSingleDot segment = true := by rw [hdot.1]; nofun
    have hdouble : ¬ isDoubleDot segment = true := by rw [hdot.2]; nofun
    cases rest with
    | nil => rw [pathTo, if_neg hdouble, if_neg hsingle, hsame]
    | cons next rest =>
      rw [pathTo, if_neg hdouble, if_neg hsingle, hsame,
        ih _ (fun s hs => hplain s (List.mem_cons_of_mem _ hs))
          fun s hs => hdots s (List.mem_cons_of_mem _ hs), List.append_assoc]
      · rfl
      · nofun

theorem pathTo_pathText (raw path : List Str) (hpath : ∀ segment ∈ path, PathText segment)
    (hraw : ∀ segment ∈ raw, 0x5C ∉ segment) : ∀ segment ∈ pathTo path raw, PathText segment := by
  have hempty : PathText [] := fun _ h => absurd h List.not_mem_nil
  have hadd : ∀ (path : List Str) (segment : Str), (∀ s ∈ path, PathText s) → PathText segment →
      ∀ s ∈ path ++ [segment], PathText s := by
    intro path segment hall hsegment s hs
    rcases List.mem_append.mp hs with h | h
    · exact hall s h
    · rw [List.mem_singleton.mp h]
      exact hsegment
  have hdrop : ∀ path : List Str, (∀ s ∈ path, PathText s) → ∀ s ∈ path.dropLast, PathText s :=
    fun path hall s hs => hall s (List.mem_of_mem_dropLast hs)
  induction raw generalizing path with
  | nil => exact hpath
  | cons segment rest ih =>
    have hencoded := encodeSegment_pathText segment (hraw segment List.mem_cons_self)
    have hrest := fun s hs => hraw s (List.mem_cons_of_mem segment hs)
    cases rest with
    | nil =>
      unfold pathTo
      split
      · exact hadd _ _ (hdrop path hpath) hempty
      · split
        · exact hadd _ _ hpath hempty
        · exact hadd _ _ hpath hencoded
    | cons next rest =>
      unfold pathTo
      split
      · exact ih _ (hdrop path hpath) hrest
      · split
        · exact ih _ hpath hrest
        · exact ih _ (hadd _ _ hpath hencoded) hrest

/-! ### References -/

section Confined
variable (standard : Standard) (base : Base)

theorem backslash_not_mem_segments (input : Str) : ∀ segment ∈ segmentsOf input, 0x5C ∉ segment :=
  fun segment hsegment hmem => by
    have h := not_separator_of_segment input segment hsegment 0x5C hmem
    exact absurd h (by decide)

theorem Base.directory_pathText : ∀ segment ∈ base.directory, PathText segment :=
  fun segment hsegment => (base.written segment hsegment).1

theorem Base.path_pathText : PathText base.path := by
  refine PathText.pathText fun segment hsegment => ?_
  rcases List.mem_append.mp hsegment with h | h
  · exact base.directory_pathText segment h
  · rw [List.mem_singleton.mp h]
    exact fun _ hmem => absurd hmem List.not_mem_nil

theorem resolveRelative_pathText (input : Str) (url : Absolute)
    (h : resolveRelative standard base input = some url) : PathText url.path := by
  have hwritten : ∀ path : List Str, (∀ segment ∈ path, PathText segment) → ∀ text,
      PathText (pathText (pathTo path (segmentsOf text))) := fun path hpath text =>
    PathText.pathText (pathTo_pathText _ path hpath (backslash_not_mem_segments text))
  have hnone : ∀ segment ∈ ([] : List Str), PathText segment := fun _ h => absurd h List.not_mem_nil
  unfold resolveRelative at h
  split at h
  · cases h
    exact base.path_pathText
  · split at h
    · split at h
      · unfold fromAuthority at h
        obtain ⟨parts, _, rfl⟩ := Option.map_eq_some_iff.mp h
        exact hwritten [] hnone _
      · cases h
        exact hwritten [] hnone _
    · split at h
      · cases h
        exact base.path_pathText
      · cases h
        exact hwritten base.directory base.directory_pathText _

def colon (byte : UInt8) : Nat := if byte = 0x3A then 1 else 0

theorem colon_encodeSegment (segment : Str) :
    weight colon (encodeSegment segment) = weight colon segment := by
  have hall : ∀ n < 256, weight colon (encodePathByte (UInt8.ofNat n)) = colon (UInt8.ofNat n) := by
    set_option maxRecDepth 8000 in decide
  induction segment with
  | nil => rfl
  | cons byte rest ih =>
    have hbyte := hall byte.toNat byte.toNat_lt
    rw [UInt8.ofNat_toNat] at hbyte
    unfold encodeSegment at ih ⊢
    rw [List.flatMap_cons, weight_append, weight_cons, hbyte, ih]

theorem colon_segmentsOf (input : Str) :
    weight colon (pathText (segmentsOf input)) = weight colon input := by
  induction input with
  | nil => rfl
  | cons first rest ih =>
    unfold segmentsOf at ih ⊢
    rw [List.splitOnP_cons_eq_if_modifyHead, weight_cons]
    split
    · rename_i hfirst
      have hcolon : colon first = 0 := by
        simp only [isSeparator, Bool.or_eq_true, beq_iff_eq] at hfirst
        rcases hfirst with rfl | rfl <;> rfl
      rw [pathText_cons, weight_append, ih, hcolon]
      rfl
    · obtain ⟨head, tail, hsplit⟩ := List.exists_cons_of_ne_nil (List.splitOnP_ne_nil isSeparator rest)
      rw [hsplit] at ih ⊢
      rw [pathText_cons, weight_append, weight_cons] at ih
      rw [List.modifyHead_cons, pathText_cons, weight_append, weight_cons, weight_cons]
      omega

theorem colon_pathTo (path : List Str) (text : Str) :
    weight colon (pathText (pathTo path (segmentsOf text))) ≤
      weight colon (pathText path) + weight colon text := by
  have h := weight_pathTo colon (segmentsOf text) path fun segment _ => colon_encodeSegment segment
  rw [colon_segmentsOf] at h
  exact h

theorem colon_sublist {a b : Str} (h : a.Sublist b) : weight colon a ≤ weight colon b :=
  weight_sublist colon h

theorem colon_fromAuthority (input : Str) (url : Absolute)
    (h : fromAuthority standard base input = some url) : weight colon url.path ≤ weight colon input := by
  unfold fromAuthority at h
  obtain ⟨parts, _, rfl⟩ := Option.map_eq_some_iff.mp h
  refine (colon_pathTo [] _).trans ?_
  have hnil : weight colon (pathText []) = 0 := rfl
  rw [hnil, Nat.zero_add]
  exact colon_sublist (((List.drop_sublist _ _).trans (List.takeWhile_sublist _)).trans
    (List.dropWhile_sublist _))

theorem colon_resolveRelative (input : Str) (url : Absolute)
    (h : resolveRelative standard base input = some url) :
    weight colon url.path ≤ weight colon base.path + weight colon input := by
  have hdirectory : weight colon (pathText base.directory) ≤ weight colon base.path := by
    unfold Base.path
    rw [pathText_append, weight_append]
    omega
  have hbefore : ∀ text, weight colon (beforeQuery text) ≤ weight colon text :=
    fun text => colon_sublist (List.takeWhile_sublist _)
  have hnil : weight colon (pathText []) = 0 := rfl
  unfold resolveRelative at h
  split at h
  · cases h
    exact Nat.le_add_right _ _
  · rename_i first rest
    have hrest : weight colon rest ≤ weight colon (first :: rest) :=
      colon_sublist (List.sublist_cons_self first rest)
    split at h
    · split at h
      · have := colon_fromAuthority standard base rest url h
        omega
      · cases h
        have := colon_pathTo [] (beforeQuery rest)
        have := hbefore rest
        dsimp only at *
        omega
    · split at h
      · cases h
        exact Nat.le_add_right _ _
      · cases h
        have := colon_pathTo base.directory (beforeQuery (first :: rest))
        have := hbefore (first :: rest)
        dsimp only at *
        omega

/-- The resolved URL is on the base's host, and its path is the base's with the reference
behind it. -/
structure Under (reference : Str) (url : Absolute) : Prop where
  scheme : url.scheme = base.scheme
  host : url.host = base.host
  port : url.port = base.port
  path : url.path = base.path ++ reference

/-- A reference that is a path as it stands: no scheme, nothing to escape and no dots. -/
structure PlainReference (reference : Str) : Prop where
  schemeless : splitScheme reference = none
  pathText : PathText reference
  dotless : ∀ segment ∈ segmentsOf reference, isDots segment = false

theorem colon_splitScheme (input scheme rest : Str) (h : splitScheme input = some (scheme, rest)) :
    weight colon rest < weight colon input := by
  unfold splitScheme at h
  split at h
  · cases h
  · split at h
    · obtain ⟨parts, hparts, hscheme⟩ := Option.bind_eq_some_iff.mp h
      obtain ⟨front, back⟩ := parts
      split at hscheme
      · cases hscheme
        change weight colon back < _
        rw [splitOnce_eq_some 0x3A _ front back hparts, weight_append, weight_cons]
        have : colon 0x3A = 1 := rfl
        omega
      · cases hscheme
    · cases h

theorem cleaned_sublist (reference : Str) : (cleaned reference).Sublist reference := by
  unfold cleaned
  exact List.filter_sublist.trans ((List.rdropWhile_prefix _ _).sublist.trans
    (List.dropWhile_sublist fun byte => decide (byte ≤ 0x20)))

theorem pathByte_bounds (byte : UInt8) (h : isPathByte byte = true) :
    ¬ byte ≤ 0x20 ∧ byte ≠ 0x3F ∧ byte ≠ 0x23 ∧ byte ≠ 0x5C := by
  have hall : ∀ n < 256, isPathByte (UInt8.ofNat n) = true → ¬ UInt8.ofNat n ≤ 0x20 ∧
      UInt8.ofNat n ≠ 0x3F ∧ UInt8.ofNat n ≠ 0x23 ∧ UInt8.ofNat n ≠ 0x5C := by
    set_option maxRecDepth 8000 in decide
  have hbyte := hall byte.toNat byte.toNat_lt
  rw [UInt8.ofNat_toNat] at hbyte
  exact hbyte h

theorem cleaned_plain (reference : Str) (h : PathText reference) : cleaned reference = reference := by
  have hkept : ∀ byte ∈ reference, ¬ byte ≤ 0x20 := fun byte hbyte =>
    (pathByte_bounds byte (h byte hbyte)).1
  have hfront : reference.dropWhile (fun byte => decide (byte ≤ 0x20)) = reference := by
    cases reference with
    | nil => rfl
    | cons byte rest =>
      exact List.dropWhile_cons_of_neg (by simpa using hkept byte List.mem_cons_self)
  have hback : reference.rdropWhile (fun byte => decide (byte ≤ 0x20)) = reference := by
    rw [List.rdropWhile_eq_self_iff]
    intro hne
    simpa using hkept _ (List.getLast_mem hne)
  unfold cleaned
  rw [hfront, hback, List.filter_eq_self]
  intro byte hbyte
  have hlarge := hkept byte hbyte
  have hne : ∀ small : UInt8, small ≤ 0x20 → byte ≠ small := fun small hsmall heq =>
    hlarge (heq ▸ hsmall)
  simp [hne 0x09 (by decide), hne 0x0A (by decide), hne 0x0D (by decide)]

theorem beforeQuery_plain (reference : Str) (h : PathText reference) :
    beforeQuery reference = reference := by
  unfold beforeQuery
  rw [List.takeWhile_eq_self_iff]
  intro byte hbyte
  obtain ⟨_, hquery, hfragment, _⟩ := pathByte_bounds byte (h byte hbyte)
  simp [hquery, hfragment]

theorem resolveRelative_plain (reference : Str) (h : PathText reference)
    (hslash : reference.head? ≠ some 0x2F) : ∃ path, resolveRelative standard base reference =
      some { base.toAbsolute with path } ∧
      (reference = [] ∧ path = base.path ∨
        path = pathText (pathTo base.directory (segmentsOf reference))) := by
  cases reference with
  | nil => exact ⟨base.path, rfl, Or.inl ⟨rfl, rfl⟩⟩
  | cons first rest =>
    obtain ⟨_, hquery, hfragment, hbackslash⟩ := pathByte_bounds first (h first List.mem_cons_self)
    have hfirst : first ≠ 0x2F := fun heq => hslash (by rw [heq]; rfl)
    refine ⟨_, ?_, Or.inr rfl⟩
    unfold resolveRelative
    dsimp only
    rw [if_neg (by simp [isSeparator, hfirst, hbackslash]), if_neg (by simp [hquery, hfragment]),
      beforeQuery_plain _ h]

theorem Base.path_append (reference : Str) (h : 0x5C ∉ reference) :
    base.path ++ reference = pathText base.directory ++ pathText (segmentsOf reference) := by
  rw [pathText_segmentsOf reference h]
  unfold Base.path
  rw [pathText_append, List.append_assoc]
  rfl

theorem resolve_under_iff (reference : Str) (hslash : reference.head? ≠ some 0x2F) :
    (∃ url, resolve standard base reference = some url ∧ Under base reference url) ↔
      PlainReference reference := by
  have hbackslash : PathText reference → 0x5C ∉ reference := fun h hmem =>
    (pathByte_bounds 0x5C (h 0x5C hmem)).2.2.2 rfl
  have hplain : PathText reference → ∀ segment ∈ segmentsOf reference, PathText segment := by
    intro h segment hsegment byte hbyte
    refine h byte ?_
    have hmem : byte ∈ pathText (segmentsOf reference) :=
      List.mem_flatMap.mpr ⟨segment, hsegment, List.mem_cons_of_mem _ hbyte⟩
    rw [pathText_segmentsOf reference (hbackslash h)] at hmem
    refine (List.mem_cons.mp hmem).resolve_left fun heq => ?_
    have hseparator := not_separator_of_segment reference segment hsegment byte hbyte
    rw [heq] at hseparator
    exact absurd hseparator (by decide)
  constructor
  · rintro ⟨url, hresolve, hunder⟩
    have hcolons : weight colon url.path = weight colon base.path + weight colon reference := by
      rw [hunder.path, weight_append]
    have hcleaned := colon_sublist (cleaned_sublist reference)
    unfold resolve at hresolve
    dsimp only at hresolve
    split at hresolve
    · -- a scheme takes a colon that the path would have to keep
      rename_i scheme rest hscheme
      have hfewer := colon_splitScheme _ scheme rest hscheme
      split at hresolve
      · split at hresolve
        · have := colon_fromAuthority standard base rest url hresolve
          omega
        · have := colon_resolveRelative standard base rest url hresolve
          omega
      · rename_i hforeign
        obtain ⟨parts, _, rfl⟩ := Option.map_eq_some_iff.mp hresolve
        exact absurd hunder.scheme hforeign
    · rename_i hscheme
      have htext := resolveRelative_pathText standard base _ url hresolve
      rw [hunder.path] at htext
      have hreference : PathText reference := fun byte hbyte =>
        htext byte (List.mem_append_right _ hbyte)
      rw [cleaned_plain reference hreference] at hscheme hresolve
      refine ⟨hscheme, hreference, fun segment hsegment => ?_⟩
      obtain ⟨path, hpath, hbehind⟩ := resolveRelative_plain standard base reference hreference hslash
      rw [hpath, Option.some.injEq] at hresolve
      have hwhole : path = base.path ++ reference := by
        rw [← hunder.path, ← hresolve]
      rcases hbehind with ⟨rfl, _⟩ | hbehind
      · rw [segmentsOf, List.splitOnP_nil, List.mem_singleton] at hsegment
        rw [hsegment]
        decide
      · rw [Bool.eq_false_iff]
        intro hdots
        have hshort := pathTo_dots (segmentsOf reference) base.directory (hplain hreference)
          ⟨segment, hsegment, hdots⟩
        rw [← hbehind, hwhole, base.path_append reference (hbackslash hreference),
          List.length_append] at hshort
        omega
  · rintro ⟨hscheme, hreference, hdotless⟩
    obtain ⟨path, hpath, hbehind⟩ := resolveRelative_plain standard base reference hreference hslash
    refine ⟨{ base.toAbsolute with path }, ?_, rfl, rfl, rfl, ?_⟩
    · unfold resolve
      rw [cleaned_plain reference hreference]
      dsimp only
      rw [hscheme]
      exact hpath
    · rcases hbehind with ⟨rfl, rfl⟩ | rfl
      · exact (List.append_nil _).symm
      · rw [pathTo_plain _ _ (hplain hreference) hdotless, pathText_append,
          base.path_append reference (hbackslash hreference)]

/-! ### Paths that the parser wrote -/

def ParsedPath (path : Str) : Prop := ∃ segments : List Str, path = pathText segments ∧
  ∀ segment ∈ segments, PathText segment ∧ 0x2F ∉ segment ∧ isDots segment = false

theorem isDots_encodeSegment (segment : Str) (h : isDots segment = false) :
    isDots (encodeSegment segment) = false := by
  have hall : ∀ n < 256, encodesInPath (UInt8.ofNat n) = true →
      ∀ dots ∈ singleDots ++ doubleDots,
        ¬ (encodePathByte (UInt8.ofNat n)).map asciiLower <:+: dots := by
    decide +kernel
  by_cases hplain : ∀ byte ∈ segment, encodesInPath byte = false
  · have hsame : encodeSegment segment = segment := by
      unfold encodeSegment
      calc segment.flatMap encodePathByte = segment.flatMap fun byte => [byte] :=
            List.flatMap_congr fun byte hbyte => encodePathByte_plain byte (hplain byte hbyte)
        _ = segment := List.flatMap_singleton' segment
    rw [hsame, h]
  · simp only [not_forall, Bool.not_eq_false] at hplain
    obtain ⟨byte, hbyte, hencodes⟩ := hplain
    rw [Bool.eq_false_iff]
    intro hdots
    obtain ⟨front, back, rfl⟩ := List.append_of_mem hbyte
    have hwithin : (encodePathByte byte).map asciiLower <:+:
        (encodeSegment (front ++ byte :: back)).map asciiLower := by
      unfold encodeSegment
      rw [List.flatMap_append, List.flatMap_cons, List.map_append, List.map_append]
      exact ⟨_, _, by rw [List.append_assoc]⟩
    have hone := hall byte.toNat byte.toNat_lt
    rw [UInt8.ofNat_toNat] at hone
    rw [isDots, isSingleDot, isDoubleDot, Bool.or_eq_true, List.contains_iff_mem,
      List.contains_iff_mem] at hdots
    exact hone hencodes _ (List.mem_append.mpr hdots) hwithin

theorem parsedPath_pathTo (raw : List Str)
    (hraw : ∀ segment ∈ raw, ∀ byte ∈ segment, isSeparator byte = false) :
    ParsedPath (pathText (pathTo [] raw)) := by
  have hslash : ∀ segment, (∀ byte ∈ segment, isSeparator byte = false) →
      0x2F ∉ encodeSegment segment := by
    intro segment hsegment hmem
    have hall : ∀ n < 256, 0x2F ∈ encodePathByte (UInt8.ofNat n) → UInt8.ofNat n = 0x2F := by
      set_option maxRecDepth 8000 in decide
    obtain ⟨byte, hbyte, hescape⟩ := List.mem_flatMap.mp hmem
    have hone := hall byte.toNat byte.toNat_lt
    rw [UInt8.ofNat_toNat] at hone
    have hseparator := hsegment byte hbyte
    rw [hone hescape] at hseparator
    exact absurd hseparator (by decide)
  have hwritten : ∀ segment, (∀ byte ∈ segment, isSeparator byte = false) → isDots segment = false →
      PathText (encodeSegment segment) ∧ 0x2F ∉ encodeSegment segment ∧
        isDots (encodeSegment segment) = false := by
    intro segment hsegment hdots
    refine ⟨encodeSegment_pathText segment fun hmem => ?_, hslash segment hsegment,
      isDots_encodeSegment segment hdots⟩
    exact absurd (hsegment 0x5C hmem) (by decide)
  have hempty : PathText [] ∧ (0x2F : UInt8) ∉ ([] : Str) ∧ isDots [] = false :=
    ⟨fun _ h => absurd h List.not_mem_nil, List.not_mem_nil, by decide⟩
  suffices h : ∀ path : List Str, (∀ segment ∈ path, PathText segment ∧ 0x2F ∉ segment ∧
      isDots segment = false) → ∀ segment ∈ pathTo path raw, PathText segment ∧ 0x2F ∉ segment ∧
        isDots segment = false from ⟨_, rfl, h [] fun _ hmem => absurd hmem List.not_mem_nil⟩
  have hadd : ∀ (path : List Str) (segment : Str), (∀ s ∈ path, PathText s ∧ 0x2F ∉ s ∧
      isDots s = false) → (PathText segment ∧ 0x2F ∉ segment ∧ isDots segment = false) →
        ∀ s ∈ path ++ [segment], PathText s ∧ 0x2F ∉ s ∧ isDots s = false := by
    intro path segment hall hsegment s hs
    rcases List.mem_append.mp hs with hmem | hmem
    · exact hall s hmem
    · rw [List.mem_singleton.mp hmem]
      exact hsegment
  induction raw with
  | nil => exact fun _ hpath => hpath
  | cons segment rest ih =>
    intro path hpath
    have hseparators := hraw segment List.mem_cons_self
    have hrest := ih fun s hs => hraw s (List.mem_cons_of_mem segment hs)
    have hdrop : ∀ s ∈ path.dropLast, PathText s ∧ 0x2F ∉ s ∧ isDots s = false :=
      fun s hs => hpath s (List.mem_of_mem_dropLast hs)
    have hnew : isSingleDot segment = false → isDoubleDot segment = false →
        PathText (encodeSegment segment) ∧ 0x2F ∉ encodeSegment segment ∧
          isDots (encodeSegment segment) = false := by
      intro hsingle hdouble
      exact hwritten segment hseparators (by rw [isDots, hsingle, hdouble, Bool.or_false])
    cases rest with
    | nil =>
      unfold pathTo
      split
      · exact hadd _ _ hdrop hempty
      · split
        · exact hadd _ _ hpath hempty
        · rename_i hdouble hsingle
          exact hadd _ _ hpath (hnew (by simpa using hsingle) (by simpa using hdouble))
    | cons next rest =>
      unfold pathTo
      split
      · exact hrest _ hdrop
      · split
        · exact hrest _ hpath
        · rename_i hdouble hsingle
          exact hrest _ (hadd _ _ hpath (hnew (by simpa using hsingle) (by simpa using hdouble)))

theorem segmentsOf_join (segment : Str) (rest : List Str)
    (h : ∀ s ∈ segment :: rest, ∀ byte ∈ s, isSeparator byte = false) :
    segmentsOf (segment ++ pathText rest) = segment :: rest := by
  induction rest generalizing segment with
  | nil =>
    have hnil : segment ++ pathText [] = segment := List.append_nil segment
    rw [hnil]
    exact List.splitOnP_eq_singleton (h segment List.mem_cons_self)
  | cons next rest ih =>
    have hnext := ih next fun s hs => h s (List.mem_cons_of_mem _ hs)
    unfold segmentsOf at hnext ⊢
    rw [pathText_cons, List.cons_append,
      List.splitOnP_append_cons_of_forall_mem (h segment List.mem_cons_self) 0x2F (by decide), hnext]

theorem segmentsOf_trimStart (segments : List Str)
    (h : ∀ segment ∈ segments, ∀ byte ∈ segment, isSeparator byte = false) :
    ∀ segment ∈ segmentsOf (trimStart 0x2F (pathText segments)), segment ∈ segments ∨ segment = [] := by
  induction segments with
  | nil =>
    intro segment hsegment
    exact Or.inr (List.mem_singleton.mp hsegment)
  | cons first rest ih =>
    have hrest := ih fun s hs => h s (List.mem_cons_of_mem first hs)
    rw [pathText_cons]
    cases first with
    | nil =>
      intro segment hsegment
      exact (hrest segment hsegment).imp (List.mem_cons_of_mem _) id
    | cons byte tail =>
      have hbyte : byte ≠ 0x2F := by
        intro heq
        have hseparator := h (byte :: tail) List.mem_cons_self byte List.mem_cons_self
        rw [heq] at hseparator
        exact absurd hseparator (by decide)
      have htrim : trimStart 0x2F (0x2F :: (byte :: tail) ++ pathText rest) =
          (byte :: tail) ++ pathText rest := by
        unfold trimStart
        rw [List.cons_append, List.dropWhile_cons_of_pos (by decide), List.cons_append,
          List.dropWhile_cons_of_neg (by simpa using hbyte)]
      rw [htrim, segmentsOf_join (byte :: tail) rest h]
      exact fun segment hsegment => Or.inl hsegment

theorem plainReference_parsed (path : Str) (h : ParsedPath path) :
    PlainReference (trimStart 0x2F path) ↔ splitScheme (trimStart 0x2F path) = none := by
  refine ⟨fun hplain => hplain.schemeless, fun hscheme => ?_⟩
  obtain ⟨segments, rfl, hsegments⟩ := h
  have htext : PathText (pathText segments) :=
    PathText.pathText fun segment hsegment => (hsegments segment hsegment).1
  refine ⟨hscheme, fun byte hbyte => ?_, ?_⟩
  · exact htext byte ((List.dropWhile_sublist _).subset hbyte)
  · intro segment hsegment
    have hseparators : ∀ s ∈ segments, ∀ byte ∈ s, isSeparator byte = false := by
      intro s hs byte hbyte
      obtain ⟨hs, hslash, _⟩ := hsegments s hs
      have hbackslash := (pathByte_bounds byte (hs byte hbyte)).2.2.2
      have hne : byte ≠ 0x2F := fun heq => hslash (heq ▸ hbyte)
      simp [isSeparator, hne, hbackslash]
    rcases segmentsOf_trimStart segments hseparators segment hsegment with hmem | rfl
    · exact (hsegments segment hmem).2.2
    · decide

end Confined

end Peryx.Url
