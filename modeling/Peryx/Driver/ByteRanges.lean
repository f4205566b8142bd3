import Peryx.Core.Utf8

/-! # Ranges of a request (peryx-driver/src/range.rs) -/

namespace Peryx.Driver

inductive RangeSpec where
  | ignore
  | unsatisfiable
  | satisfiable (first last : Nat)
  deriving DecidableEq, Repr

def parseRange (header : Str) (size : Nat) : RangeSpec :=
  if 0x2C ∈ header then .ignore
  else
    match Str.stripPrefix header (str "bytes=") with
    | none => .ignore
    | some spec =>
      match Str.splitOnce 0x2D spec with
      | none => .ignore
      | some (first, last) =>
        if size = 0 then .unsatisfiable
        else
          match first.isEmpty, last.isEmpty with
          | true, false =>
            match Str.parseU64 last with
            | some suffix =>
              if suffix = 0 then .unsatisfiable else .satisfiable (size - suffix) (size - 1)
            | none => .ignore
          | false, true =>
            match Str.parseU64 first with
            | some start =>
              if start > size - 1 then .unsatisfiable else .satisfiable start (size - 1)
            | none => .ignore
          | false, false =>
            match Str.parseU64 first, Str.parseU64 last with
            | some start, some stop =>
              if start > stop then .ignore
              else if start > size - 1 then .unsatisfiable
              else .satisfiable start (min stop (size - 1))
            | _, _ => .ignore
          | true, true => .ignore

inductive ByteRange where
  | suffix (length : Nat)
  | open (first : Nat)
  | closed (first last : Nat)
  deriving DecidableEq, Repr

def digits (text : Str) : Option Nat :=
  if text ≠ [] ∧ text.all (fun byte => 0x30 ≤ byte && byte ≤ 0x39) then
    some (Nat.ofDigits 10 (text.reverse.map fun byte => byte.toNat - 0x30))
  else none

/-- A range, where numbers are read so; one that ends before it begins is none. -/
def ByteRange.read (number : Str → Option Nat) (spec : Str) : Option ByteRange :=
  match Str.splitOnce 0x2D spec with
  | none => none
  | some ([], []) => none
  | some ([], last) => (number last).map .suffix
  | some (first, []) => (number first).map .open
  | some (first, last) =>
    match number first, number last with
    | some start, some stop => if start ≤ stop then some (.closed start stop) else none
    | _, _ => none

def requested (header : Str) : Option ByteRange :=
  match Str.splitOnce 0x3D header with
  | some (unit, spec) =>
    if Str.eqIgnoreAsciiCase unit (str "bytes") then ByteRange.read digits spec else none
  | none => none

def ByteRange.answer (size : Nat) : ByteRange → RangeSpec
  | .suffix length =>
    if length = 0 ∨ size = 0 then .unsatisfiable else .satisfiable (size - length) (size - 1)
  | .open first => if size ≤ first then .unsatisfiable else .satisfiable first (size - 1)
  | .closed first last =>
    if size ≤ first then .unsatisfiable else .satisfiable first (min last (size - 1))

def answerTo (range : Option ByteRange) (size : Nat) : RangeSpec :=
  range.elim .ignore (ByteRange.answer size)

def prescribed (header : Str) (size : Nat) : RangeSpec := answerTo (requested header) size

/-- `int-range` and `suffix-range`, as they are written. -/
inductive Written : Str → ByteRange → Prop
  | suffix (length : Str) (n : Nat) (h : digits length = some n) :
    Written (0x2D :: length) (.suffix n)
  | open (first : Str) (n : Nat) (h : digits first = some n) : Written (first ++ [0x2D]) (.open n)
  | closed (first last : Str) (start stop : Nat) (hfirst : digits first = some start)
    (hlast : digits last = some stop) (h : start ≤ stop) :
    Written (first ++ 0x2D :: last) (.closed start stop)

theorem digits_eq_some {text : Str} {n : Nat} (h : digits text = some n) :
    text ≠ [] ∧ ∀ byte ∈ text, 0x30 ≤ byte ∧ byte ≤ 0x39 := by
  unfold digits at h
  split at h
  · rename_i hall
    refine ⟨hall.1, fun byte hbyte => ?_⟩
    have hdigit := List.all_eq_true.mp hall.2 byte hbyte
    rwa [Bool.and_eq_true, decide_eq_true_iff, decide_eq_true_iff] at hdigit
  · cases h

theorem not_mem_digits {text : Str} {n : Nat} (h : digits text = some n) (sign : UInt8)
    (hsign : sign < 0x30) : sign ∉ text :=
  fun hmem => absurd hsign (UInt8.not_lt.mpr ((digits_eq_some h).2 sign hmem).1)

theorem read_iff_written (spec : Str) (range : ByteRange) :
    ByteRange.read digits spec = some range ↔ Written spec range := by
  constructor
  · intro h
    unfold ByteRange.read at h
    split at h
    · cases h
    · cases h
    · rename_i last hne hsplit
      obtain ⟨n, hn, rfl⟩ := Option.map_eq_some_iff.mp h
      rw [Str.splitOnce_eq_some _ _ _ _ hsplit]
      exact .suffix last n hn
    · rename_i first hne hsplit
      obtain ⟨n, hn, rfl⟩ := Option.map_eq_some_iff.mp h
      rw [Str.splitOnce_eq_some _ _ _ _ hsplit]
      exact .open first n hn
    · rename_i first last _ _ _ hsplit
      split at h
      · rename_i start stop hstart hstop
        split at h
        · rename_i hle
          cases h
          rw [Str.splitOnce_eq_some _ _ _ _ hsplit]
          exact .closed first last start stop hstart hstop hle
        · cases h
      · cases h
  · intro h
    unfold ByteRange.read
    cases h with
    | suffix length n h =>
      obtain ⟨byte, rest, rfl⟩ := List.exists_cons_of_ne_nil (digits_eq_some h).1
      have hsplit := Str.splitOnce_append 0x2D [] (byte :: rest) List.not_mem_nil
      rw [List.nil_append] at hsplit
      simp only [hsplit, h, Option.map_some]
    | «open» first n h =>
      obtain ⟨byte, rest, rfl⟩ := List.exists_cons_of_ne_nil (digits_eq_some h).1
      have hsplit := Str.splitOnce_append 0x2D (byte :: rest) [] (not_mem_digits h 0x2D (by decide))
      simp only [hsplit, h, Option.map_some]
    | closed first last start stop hfirst hlast h =>
      obtain ⟨byte, rest, rfl⟩ := List.exists_cons_of_ne_nil (digits_eq_some hfirst).1
      obtain ⟨byte', rest', rfl⟩ := List.exists_cons_of_ne_nil (digits_eq_some hlast).1
      have hsplit := Str.splitOnce_append 0x2D (byte :: rest) (byte' :: rest')
        (not_mem_digits hfirst 0x2D (by decide))
      simp only [hsplit, hfirst, hlast, if_pos h]

theorem requested_bytes (spec : Str) :
    requested (str "bytes=" ++ spec) = ByteRange.read digits spec := by
  have hunit : str "bytes=" ++ spec = str "bytes" ++ 0x3D :: spec := by
    have hequals : str "bytes=" = str "bytes" ++ [0x3D] := by decide
    rw [hequals, List.append_assoc]
    rfl
  unfold requested
  rw [hunit, Str.splitOnce_append 0x3D _ _ (by decide)]
  exact if_pos (by decide)

theorem parseU64_digits {text : Str} {n : Nat} (h : digits text = some n) (hn : n < 2 ^ 64) :
    Str.parseU64 text = some n := by
  have hplus : Str.stripPrefix text [0x2B] = none := by
    refine Option.eq_none_iff_forall_ne_some.mpr fun rest hrest => ?_
    rw [Str.stripPrefix_eq_some] at hrest
    exact not_mem_digits h 0x2B (by decide) (hrest ▸ List.mem_append_left _ List.mem_cons_self)
  unfold digits at h
  split at h
  · rename_i hall
    unfold Str.parseU64
    rw [hplus]
    cases h
    exact if_pos ⟨hall.1, hall.2, hn⟩
  · cases h

theorem digits_parseU64 {text : Str} {n : Nat} (h : Str.parseU64 text = some n)
    (hplus : 0x2B ∉ text) : digits text = some n ∧ n < 2 ^ 64 := by
  have hnone : Str.stripPrefix text [0x2B] = none := by
    refine Option.eq_none_iff_forall_ne_some.mpr fun rest hrest => ?_
    rw [Str.stripPrefix_eq_some] at hrest
    exact hplus (hrest ▸ List.mem_append_left _ List.mem_cons_self)
  unfold Str.parseU64 at h
  rw [hnone] at h
  dsimp only [Option.getD_none] at h
  split at h
  · rename_i hall
    cases h
    exact ⟨if_pos ⟨hall.1, hall.2.1⟩, hall.2.2⟩
  · cases h

def ByteRange.Fits : ByteRange → Prop
  | .suffix length => length < 2 ^ 64
  | .open first => first < 2 ^ 64
  | .closed first last => first < 2 ^ 64 ∧ last < 2 ^ 64

instance : DecidablePred ByteRange.Fits
  | .suffix _ => inferInstanceAs (Decidable (_ < _))
  | .open _ => inferInstanceAs (Decidable (_ < _))
  | .closed _ _ => inferInstanceAs (Decidable (_ ∧ _))

theorem read_parseU64 {spec : Str} {range : ByteRange} (h : ByteRange.read digits spec = some range)
    (hfits : range.Fits) : ByteRange.read Str.parseU64 spec = some range := by
  unfold ByteRange.read at h ⊢
  split at h
  · cases h
  · cases h
  · rename_i last hne hsplit
    obtain ⟨n, hn, rfl⟩ := Option.map_eq_some_iff.mp h
    simp only [parseU64_digits hn hfits, Option.map_some]
  · rename_i first hne hsplit
    obtain ⟨n, hn, rfl⟩ := Option.map_eq_some_iff.mp h
    simp only [parseU64_digits hn hfits, Option.map_some]
  · split at h
    · rename_i start stop hstart hstop
      split at h
      · rename_i hle
        cases h
        simp only [parseU64_digits hstart hfits.1, parseU64_digits hstop hfits.2, if_pos hle]
      · cases h
    · cases h

theorem read_digits {spec : Str} {range : ByteRange}
    (h : ByteRange.read Str.parseU64 spec = some range) (hplus : 0x2B ∉ spec) :
    ByteRange.read digits spec = some range ∧ range.Fits := by
  have hsides : ∀ first last, Str.splitOnce 0x2D spec = some (first, last) →
      0x2B ∉ first ∧ 0x2B ∉ last := by
    intro first last hsplit
    rw [Str.splitOnce_eq_some _ _ _ _ hsplit, List.mem_append, List.mem_cons, not_or, not_or] at hplus
    exact ⟨hplus.1, hplus.2.2⟩
  unfold ByteRange.read at h ⊢
  split at h
  · cases h
  · cases h
  · rename_i last hne hsplit
    obtain ⟨n, hn, rfl⟩ := Option.map_eq_some_iff.mp h
    obtain ⟨hdigits, hfits⟩ := digits_parseU64 hn (hsides _ _ hsplit).2
    simp only [hdigits, Option.map_some]
    exact ⟨trivial, hfits⟩
  · rename_i first hne hsplit
    obtain ⟨n, hn, rfl⟩ := Option.map_eq_some_iff.mp h
    obtain ⟨hdigits, hfits⟩ := digits_parseU64 hn (hsides _ _ hsplit).1
    simp only [hdigits, Option.map_some]
    exact ⟨trivial, hfits⟩
  · rename_i first last _ _ _ hsplit
    split at h
    · rename_i start stop hstart hstop
      split at h
      · rename_i hle
        cases h
        obtain ⟨hfirst, hfirstFits⟩ := digits_parseU64 hstart (hsides _ _ hsplit).1
        obtain ⟨hlast, hlastFits⟩ := digits_parseU64 hstop (hsides _ _ hsplit).2
        simp only [hfirst, hlast, if_pos hle]
        exact ⟨trivial, hfirstFits, hlastFits⟩
      · cases h
    · cases h

theorem not_mem_written {spec : Str} {range : ByteRange} (h : Written spec range) (sign : UInt8)
    (hsign : sign < 0x30) (hne : sign ≠ 0x2D) : sign ∉ spec := by
  cases h with
  | suffix length n h =>
    rw [List.mem_cons, not_or]
    exact ⟨hne, not_mem_digits h sign hsign⟩
  | «open» first n h =>
    rw [List.mem_append, List.mem_singleton, not_or]
    exact ⟨not_mem_digits h sign hsign, hne⟩
  | closed first last start stop hfirst hlast h =>
    rw [List.mem_append, List.mem_cons, not_or, not_or]
    exact ⟨not_mem_digits hfirst sign hsign, hne, not_mem_digits hlast sign hsign⟩

theorem answer_ne_ignore (size : Nat) (range : ByteRange) : range.answer size ≠ .ignore := by
  unfold ByteRange.answer
  cases range <;> dsimp only <;> split <;> nofun

theorem answer_bounds (size : Nat) (range : ByteRange) (a b : Nat)
    (hordered : ∀ first last, range = .closed first last → first ≤ last)
    (h : range.answer size = .satisfiable a b) : a ≤ b ∧ b < size := by
  unfold ByteRange.answer at h
  split at h
  · split at h
    · cases h
    · cases h
      omega
  · split at h
    · cases h
    · cases h
      omega
  · have hle := hordered _ _ rfl
    split at h
    · cases h
    · cases h
      omega

theorem read_ordered {number : Str → Option Nat} {spec : Str} {first last : Nat}
    (h : ByteRange.read number spec = some (.closed first last)) : first ≤ last := by
  unfold ByteRange.read at h
  split at h
  · cases h
  · cases h
  · obtain ⟨n, -, hn⟩ := Option.map_eq_some_iff.mp h
    cases hn
  · obtain ⟨n, -, hn⟩ := Option.map_eq_some_iff.mp h
    cases hn
  · split at h
    · split at h
      · rename_i hle
        cases h
        exact hle
      · cases h
    · cases h

theorem parseRange_bytes (spec : Str) (size : Nat) (hcomma : 0x2C ∉ spec) :
    parseRange (str "bytes=" ++ spec) size =
      if 0x2D ∉ spec then .ignore
      else if size = 0 then .unsatisfiable
      else answerTo (ByteRange.read Str.parseU64 spec) size := by
  have hheader : (0x2C : UInt8) ∉ str "bytes=" ++ spec := by
    rw [List.mem_append, not_or]
    exact ⟨by decide, hcomma⟩
  have hstrip : Str.stripPrefix (str "bytes=" ++ spec) (str "bytes=") = some spec :=
    (Str.stripPrefix_eq_some _ _ _).mpr rfl
  unfold parseRange
  rw [if_neg hheader, hstrip]
  dsimp only
  cases hsplit : Str.splitOnce 0x2D spec with
  | none => exact (if_pos ((Str.splitOnce_eq_none _ _).mp hsplit)).symm
  | some sides =>
    have hhyphen : 0x2D ∈ spec := by
      refine Classical.not_not.mp fun hnot => ?_
      rw [(Str.splitOnce_eq_none _ _).mpr hnot] at hsplit
      cases hsplit
    rw [if_neg (not_not_intro hhyphen)]
    obtain ⟨first, last⟩ := sides
    dsimp only
    by_cases hsize : size = 0
    · rw [if_pos hsize, if_pos hsize]
    · rw [if_neg hsize, if_neg hsize]
      unfold ByteRange.read answerTo ByteRange.answer
      rw [hsplit]
      cases first with
      | nil =>
        cases last with
        | nil => rfl
        | cons byte rest =>
          cases hlast : Str.parseU64 (byte :: rest) with
          | none => simp [hlast]
          | some suffix => simp [hlast, hsize]
      | cons byte rest =>
        cases hfirst : Str.parseU64 (byte :: rest) with
        | none => cases last <;> simp [hfirst]
        | some start =>
          have hpast : start > size - 1 ↔ size ≤ start := by omega
          cases last with
          | nil => simp only [hfirst, List.isEmpty_cons, List.isEmpty_nil, hpast]; rfl
          | cons byte' rest' =>
            cases hlast : Str.parseU64 (byte' :: rest') with
            | none => simp [hfirst, hlast]
            | some stop =>
              simp only [hfirst, hlast, List.isEmpty_cons, hpast]
              by_cases hle : start ≤ stop
              · rw [if_neg (by omega), if_pos hle]
                rfl
              · rw [if_pos (by omega), if_neg hle]
                rfl

structure ReadAlike (header : Str) (size : Nat) : Prop where
  unit : (requested header).isSome → Str.startsWith header (str "bytes=") = true
  empty : ∀ spec, header = str "bytes=" ++ spec → size = 0 → 0x2C ∉ spec → 0x2D ∈ spec →
    (ByteRange.read digits spec).isSome
  numbers : ∀ spec, header = str "bytes=" ++ spec → size ≠ 0 →
    ∀ range, ByteRange.read digits spec = some range → range.Fits
  signs : ∀ spec, header = str "bytes=" ++ spec → size ≠ 0 → 0x2C ∉ spec →
    (ByteRange.read Str.parseU64 spec).isSome → 0x2B ∉ spec

theorem answerTo_eq_ignore (size : Nat) (range : Option ByteRange) :
    answerTo range size = .ignore ↔ range = none := by
  cases range with
  | none => exact iff_of_true rfl rfl
  | some range => exact iff_of_false (answer_ne_ignore size range) nofun

theorem answer_empty (range : ByteRange) : range.answer 0 = .unsatisfiable := by
  unfold ByteRange.answer
  cases range <;> simp

theorem parseRange_comma (header : Str) (size : Nat) (h : 0x2C ∈ header) :
    parseRange header size = .ignore ∧ (Str.startsWith header (str "bytes=") = true →
      requested header = none) := by
  constructor
  · unfold parseRange
    exact if_pos h
  · intro hstart
    obtain ⟨spec, rfl⟩ := (Str.startsWith_iff _ _).mp hstart
    rw [requested_bytes]
    refine Option.eq_none_iff_forall_ne_some.mpr fun range hrange => ?_
    have hwritten := (read_iff_written spec range).mp hrange
    rcases List.mem_append.mp h with hmem | hmem
    · exact absurd hmem (by decide)
    · exact not_mem_written hwritten 0x2C (by decide) (by decide) hmem

theorem parseRange_unit (header : Str) (size : Nat)
    (h : ¬ Str.startsWith header (str "bytes=") = true) : parseRange header size = .ignore := by
  have hstrip : Str.stripPrefix header (str "bytes=") = none := by
    refine Option.eq_none_iff_forall_ne_some.mpr fun rest hrest => ?_
    rw [Str.stripPrefix_eq_some] at hrest
    exact h ((Str.startsWith_iff _ _).mpr ⟨rest, hrest.symm⟩)
  unfold parseRange
  rw [hstrip]
  split <;> rfl

theorem answerTo_eq_iff (spec : Str) (size : Nat) :
    answerTo (ByteRange.read Str.parseU64 spec) size = answerTo (ByteRange.read digits spec) size ↔
      (∀ range, ByteRange.read digits spec = some range → range.Fits) ∧
        ((ByteRange.read Str.parseU64 spec).isSome → 0x2B ∉ spec) := by
  constructor
  · intro h
    have hboth : ByteRange.read Str.parseU64 spec = none ↔ ByteRange.read digits spec = none := by
      rw [← answerTo_eq_ignore size, ← answerTo_eq_ignore size, h]
    have hplus : (ByteRange.read Str.parseU64 spec).isSome → 0x2B ∉ spec := by
      intro hsome
      cases hread : ByteRange.read digits spec with
      | none =>
        rw [hboth.mpr hread] at hsome
        cases hsome
      | some range =>
        exact not_mem_written ((read_iff_written spec range).mp hread) 0x2B (by decide) (by decide)
    refine ⟨fun range hread => ?_, hplus⟩
    cases hparsed : ByteRange.read Str.parseU64 spec with
    | none =>
      rw [hboth.mp hparsed] at hread
      cases hread
    | some other =>
      obtain ⟨hdigits, hfits⟩ := read_digits hparsed (hplus (hparsed ▸ rfl))
      rw [hread, Option.some.injEq] at hdigits
      rw [hdigits]
      exact hfits
  · rintro ⟨hfits, hplus⟩
    cases hread : ByteRange.read digits spec with
    | some range => rw [read_parseU64 hread (hfits range hread)]
    | none =>
      cases hparsed : ByteRange.read Str.parseU64 spec with
      | none => rfl
      | some other =>
        rw [(read_digits hparsed (hplus (hparsed ▸ rfl))).1] at hread
        cases hread

theorem read_hyphen (number : Str → Option Nat) {spec : Str}
    (h : (ByteRange.read number spec).isSome) : 0x2D ∈ spec := by
  refine Classical.not_not.mp fun hnot => ?_
  unfold ByteRange.read at h
  rw [(Str.splitOnce_eq_none _ _).mpr hnot] at h
  cases h

theorem parseRange_bytes_iff (spec : Str) (size : Nat) (hcomma : 0x2C ∉ spec) :
    parseRange (str "bytes=" ++ spec) size = answerTo (ByteRange.read digits spec) size ↔
      (size = 0 → 0x2D ∈ spec → (ByteRange.read digits spec).isSome) ∧
        (size ≠ 0 → (∀ range, ByteRange.read digits spec = some range → range.Fits) ∧
          ((ByteRange.read Str.parseU64 spec).isSome → 0x2B ∉ spec)) := by
  rw [parseRange_bytes spec size hcomma]
  by_cases hhyphen : 0x2D ∈ spec
  · rw [if_neg (not_not_intro hhyphen)]
    by_cases hsize : size = 0
    · rw [if_pos hsize, hsize]
      cases hread : ByteRange.read digits spec with
      | none => simp [answerTo, hhyphen]
      | some range => simp [answerTo, answer_empty]
    · rw [if_neg hsize, answerTo_eq_iff]
      simp [hsize]
  · rw [if_pos hhyphen]
    have hnone : ∀ number, ByteRange.read number spec = none := fun number =>
      Option.eq_none_iff_forall_ne_some.mpr fun range hrange =>
        hhyphen (read_hyphen number (hrange ▸ rfl))
    rw [hnone digits, hnone Str.parseU64]
    simp [answerTo, hhyphen]

theorem parseRange_eq_iff (header : Str) (size : Nat) :
    parseRange header size = prescribed header size ↔ ReadAlike header size := by
  unfold prescribed
  by_cases hstart : Str.startsWith header (str "bytes=") = true
  · obtain ⟨spec, rfl⟩ := (Str.startsWith_iff _ _).mp hstart
    have hspec : ∀ other, str "bytes=" ++ spec = str "bytes=" ++ other → other = spec :=
      fun other heq => (List.append_cancel_left heq).symm
    by_cases hcomma : 0x2C ∈ spec
    · obtain ⟨hignore, hnone⟩ := parseRange_comma (str "bytes=" ++ spec) size
        (List.mem_append_right _ hcomma)
      have hread := hnone hstart
      rw [hignore, hread]
      refine iff_of_true rfl ⟨fun _ => hstart, ?_, ?_, ?_⟩
      · intro other heq _ hother
        exact absurd (hspec other heq ▸ hcomma) hother
      · intro other heq _ range hrange
        rw [hspec other heq, ← requested_bytes, hread] at hrange
        cases hrange
      · intro other heq _ hother
        exact absurd (hspec other heq ▸ hcomma) hother
    · rw [requested_bytes, parseRange_bytes_iff spec size hcomma]
      constructor
      · rintro ⟨hempty, hserved⟩
        refine ⟨fun _ => hstart, ?_, ?_, ?_⟩
        · intro other heq hsize _ hhyphen
          rw [hspec other heq] at hhyphen ⊢
          exact hempty hsize hhyphen
        · intro other heq hsize
          rw [hspec other heq]
          exact (hserved hsize).1
        · intro other heq hsize _
          rw [hspec other heq]
          exact (hserved hsize).2
      · intro h
        exact ⟨fun hsize => h.empty spec rfl hsize hcomma,
          fun hsize => ⟨h.numbers spec rfl hsize, h.signs spec rfl hsize hcomma⟩⟩
  · rw [parseRange_unit header size hstart, eq_comm, answerTo_eq_ignore]
    have hother : ∀ spec, header ≠ str "bytes=" ++ spec := fun spec heq =>
      hstart ((Str.startsWith_iff _ _).mpr ⟨spec, heq.symm⟩)
    constructor
    · intro hnone
      refine ⟨fun hsome => ?_, fun spec heq => absurd heq (hother spec),
        fun spec heq => absurd heq (hother spec), fun spec heq => absurd heq (hother spec)⟩
      rw [hnone] at hsome
      cases hsome
    · intro h
      cases hasked : requested header with
      | none => rfl
      | some range => exact absurd (h.unit (hasked ▸ rfl)) hstart

theorem parseRange_bounds (header : Str) (size a b : Nat)
    (h : parseRange header size = .satisfiable a b) : a ≤ b ∧ b < size := by
  by_cases hstart : Str.startsWith header (str "bytes=") = true
  · obtain ⟨spec, rfl⟩ := (Str.startsWith_iff _ _).mp hstart
    by_cases hcomma : 0x2C ∈ spec
    · rw [(parseRange_comma _ size (List.mem_append_right _ hcomma)).1] at h
      cases h
    · rw [parseRange_bytes spec size hcomma] at h
      split at h
      · cases h
      · split at h
        · cases h
        · cases hread : ByteRange.read Str.parseU64 spec with
          | none =>
            rw [hread] at h
            cases h
          | some range =>
            rw [hread] at h
            refine answer_bounds size range a b (fun first last heq => ?_) h
            exact read_ordered (heq ▸ hread)
  · rw [parseRange_unit header size hstart] at h
    cases h

/-- A header is answered as the grammar prescribes when it is read as the grammar reads it;
what is served of one is always inside of the representation. -/
theorem range_as_prescribed (header : Str) (size : Nat) :
    (parseRange header size = prescribed header size ∧
      ∀ a b, parseRange header size = .satisfiable a b → a ≤ b ∧ b < size ∧ b - a + 1 ≤ size) ↔
        ReadAlike header size := by
  rw [parseRange_eq_iff]
  refine and_iff_left fun a b h => ?_
  obtain ⟨hle, hlt⟩ := parseRange_bounds header size a b h
  omega

/-- What is no range is refused where there is nothing to serve; a signed number is read as
one, and a number of more than sixty-four bits is not. -/
theorem misread_ranges :
    parseRange (str "bytes=abc-") 0 ≠ prescribed (str "bytes=abc-") 0 ∧
      parseRange (str "bytes=+1-2") 10 ≠ prescribed (str "bytes=+1-2") 10 ∧
      parseRange (str "bytes=0-18446744073709551616") 10 ≠
        prescribed (str "bytes=0-18446744073709551616") 10 := by
  decide

end Peryx.Driver
