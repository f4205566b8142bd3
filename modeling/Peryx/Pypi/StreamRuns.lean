import Peryx.Pypi.StreamedPages

/-!
# The transformer's runs over a page

What one byte does, then what whitespace, a key, a value, a member and the whole page do.
-/

namespace Peryx.Pypi.PageTransformer
open Json Stored

section Running
variable (readers : Readers)

/-- The bytes of a text, one after the other. -/
def run (state : PageTransformer × Str) (text : Str) : Except TransformError (PageTransformer × Str) :=
  text.foldlM (step readers) state

theorem run_append (state : PageTransformer × Str) (first second : Str) :
    run readers state (first ++ second) = run readers state first >>= fun state =>
        run readers state second :=
  List.foldlM_append

theorem run_cons (state : PageTransformer × Str) (byte : UInt8) (rest : Str) :
    run readers state (byte :: rest) = step readers state byte >>= fun state =>
        run readers state rest :=
  List.foldlM_cons

variable {readers}

theorem run_next {state next : PageTransformer × Str} {byte : UInt8}
    (h : step readers state byte = .ok next) (rest : Str) : run readers state (byte :: rest) =
      run readers next rest := by
  rw [run_cons, h]
  rfl

theorem run_then {state next : PageTransformer × Str} {first : Str}
    (h : run readers state first = .ok next) (second : Str) : run readers state (first ++ second) =
      run readers next second := by
  rw [run_append, h]
  rfl

variable (readers)

/-! ### Between the members -/

/-- The transformer passes bytes on, and is in no string. -/
structure Quiet (t : PageTransformer) : Prop where
  mode : t.mode = .passthrough
  inString : t.inString = false
  escaped : t.escaped = false
  capturingKey : t.capturingKey = false
  capturingName : t.capturingName = false
  closed : t.closed = false
  trailing : t.trailing = false
  capture : t.capture = []
  key : t.key.length = maxKeyBytes

def progress (t : PageTransformer) : StreamProgress where
  name := t.name
  projectStatus := t.projectStatus
  projectStatusReason := t.projectStatusReason
  filesSeen := t.filesSeen
  registrations := t.registrations
  metaSeen := t.metaSeen
  filesBeforeMeta := t.filesBeforeMeta

/-- The bytes after which a passing transformer is as it was. -/
theorem run_ws (t : PageTransformer) (hmode : t.mode = .passthrough) (hstring : t.inString = false)
    (text out : Str) (h : Ws text) : run readers (t, out) text = .ok (t, out ++ text) := by
  induction text generalizing out with
  | nil =>
    rw [List.append_nil]
    rfl
  | cons byte rest ih =>
    have hbyte := h byte List.mem_cons_self
    have hstep : step readers (t, out) byte = .ok (t, out ++ [byte]) := by
      simp only [isWs, Bool.or_eq_true, beq_iff_eq] at hbyte
      simp only [step, hmode, stepPassthrough, hstring]
      rcases hbyte with ((rfl | rfl) | rfl) | rfl <;> simp [isAsciiWhitespace]
    rw [run_cons, hstep, show out ++ byte :: rest = out ++ [byte] ++ rest by simp]
    exact ih _ fun later hlater => h later (List.mem_cons_of_mem _ hlater)

/-! ### Keys -/

def captureKey (t : PageTransformer) (body : Str) : PageTransformer := body.foldl captureKeyByte t

theorem captureKey_eq (t : PageTransformer) (body : Str) (hkey : t.key.length = maxKeyBytes)
    (hlen : t.keyLen = 0) :
    ∃ key, t.captureKey body = { t with key := key, keyLen := body.length } ∧ key.length = maxKeyBytes ∧
      key.take (min body.length maxKeyBytes) = body.take maxKeyBytes := by
  unfold captureKey
  induction body using List.reverseRecOn with
  | nil =>
    refine ⟨t.key, ?_, hkey, by simp⟩
    rw [List.foldl_nil, List.length_nil, ← hlen]
  | append_singleton body byte ih =>
    obtain ⟨key, heq, hlength, htake⟩ := ih
    refine ⟨key.set body.length byte, ?_, by rw [List.length_set, hlength], ?_⟩
    · rw [List.foldl_append, heq, List.length_append]
      rfl
    · rw [List.length_append, List.length_singleton]
      by_cases hlt : body.length < maxKeyBytes
      · have hbody : key.take body.length = body := by
          rw [Nat.min_eq_left (by omega), List.take_of_length_le (l := body) (by omega)] at htake
          exact htake
        have hwhole : (body ++ [byte]).take maxKeyBytes = body ++ [byte] :=
          List.take_of_length_le (by rw [List.length_append, List.length_singleton]; omega)
        rw [hwhole, Nat.min_eq_left (by omega), List.take_add_one, List.take_set_of_le (by omega), hbody,
          List.getElem?_set_self (by omega)]
        rfl
      · rw [List.set_eq_of_length_le (by omega), Nat.min_eq_right (by omega),
          List.take_append_of_le_length (by omega), ← htake, Nat.min_eq_right (by omega)]

theorem captureKey_text (t : PageTransformer) (body : Str) (hkey : t.key.length = maxKeyBytes)
    (hlen : t.keyLen = 0) :
    (t.captureKey body).keyText = if body.length ≤ maxKeyBytes then body else [] := by
  obtain ⟨key, heq, hlength, htake⟩ := captureKey_eq t body hkey hlen
  rw [heq]
  unfold keyText
  dsimp only
  rw [hlength]
  split
  · rename_i hle
    rw [Nat.min_eq_left hle, List.take_of_length_le hle] at htake
    exact htake
  · rfl

theorem captureKey_fields (t : PageTransformer) (body : Str) : t.captureKey body =
      { t with key := (t.captureKey body).key, keyLen := (t.captureKey body).keyLen } := by
  unfold captureKey
  induction body generalizing t with
  | nil => rfl
  | cons byte rest ih =>
    rw [List.foldl_cons, ih]
    rfl

/-! ### One byte of a passing transformer -/

section Passing
variable {t : PageTransformer} (h : Quiet t) (out : Str)
include h

theorem step_quote : step readers (t, out) 0x22 = .ok (t.passQuote, out ++ [0x22]) := by
  simp [step, h.mode, stepPassthrough, h.inString, h.closed]

theorem step_opening (byte : UInt8) (hbyte : byte = 0x7B ∨ byte = 0x5B) :
    step readers (t, out) byte =
      .ok ({ t with expectNameValue := false, depth := t.depth + 1 }.passOpening
        readers byte out) := by
  rcases hbyte with rfl | rfl <;> simp [step, h.mode, stepPassthrough, h.inString, h.closed]

theorem step_closing (byte : UInt8) (hbyte : byte = 0x7D ∨ byte = 0x5D) :
    step readers (t, out) byte =
      .ok ({ t with depth := t.depth - 1, closed := t.depth - 1 == 0 }, out ++ [byte]) := by
  rcases hbyte with rfl | rfl <;> simp [step, h.mode, stepPassthrough, h.inString, h.closed]

theorem step_colon (hdepth : t.depth = 1) : step readers (t, out) 0x3A = .ok ({ t with
          expectNameValue := t.keyText == str "name"
          filesBeforeMeta := t.filesBeforeMeta || (!t.metaSeen && t.keyText == str "files") },
        out ++ [0x3A]) := by
  simp [step, h.mode, stepPassthrough, h.inString, h.closed, hdepth]

theorem step_passed (byte : UInt8)
    (hbyte : byte ≠ 0x22 ∧ byte ≠ 0x7B ∧ byte ≠ 0x5B ∧ byte ≠ 0x7D ∧ byte ≠ 0x5D)
    (hcolon : byte ≠ 0x3A ∨ t.depth ≠ 1) : step readers (t, out) byte =
      .ok ({ t with expectNameValue := t.expectNameValue && isAsciiWhitespace byte }, out ++ [byte]) := by
  have hno : ¬(byte = 0x3A ∧ t.depth = 1) := by
    rintro ⟨hbyte, hdepth⟩
    exact hcolon.elim (· hbyte) (· hdepth)
  simp [step, h.mode, stepPassthrough, h.inString, h.closed, hbyte, hno]

end Passing

theorem passQuote_key {t : PageTransformer} (hdepth : t.depth = 1) (hname : t.expectNameValue = false) :
    t.passQuote = { t with inString := true, keyLen := 0, capturingKey := true } := by
  unfold passQuote
  dsimp only
  rw [if_pos hdepth, if_neg (by rw [hname]; exact Bool.false_ne_true), ← hname]

theorem passQuote_name {t : PageTransformer} (hdepth : t.depth = 1) (hname : t.expectNameValue = true) :
    t.passQuote =
      { t with inString := true, capturingName := true, name := [], expectNameValue := false } := by
  unfold passQuote
  dsimp only
  rw [if_pos hdepth, if_pos hname]

theorem run_keyBody (t : PageTransformer) (hmode : t.mode = .passthrough) (hstring : t.inString = true)
    (hescaped : t.escaped = false) (hkey : t.capturingKey = true) (hname : t.capturingName = false)
    (body out : Str) (h : StringBody body) : run readers (t, out) body =
      .ok (t.captureKey body, out ++ body) := by
  let inside (escaped : Bool) (seen : Str) : PageTransformer × Str :=
    ({ t.captureKey seen with escaped }, out ++ seen)
  have hkept : ∀ seen, (t.captureKey seen).mode = .passthrough ∧ (t.captureKey seen).inString = true ∧
      (t.captureKey seen).capturingKey = true ∧ (t.captureKey seen).capturingName = false := by
    intro seen
    rw [captureKey_fields]
    exact ⟨hmode, hstring, hkey, hname⟩
  have hnext : ∀ seen byte, t.captureKey (seen ++ [byte]) = (t.captureKey seen).captureKeyByte byte :=
    fun seen byte => List.foldl_append
  have hrun := foldlM_body (step readers) inside
    (by
      intro seen byte hquote hslash
      simp [step, inside, hkept, stepPassthrough, passString, hquote, hslash, hnext, captureKeyByte]
      rfl)
    (by
      intro seen
      simp [step, inside, hkept, stepPassthrough, passString, hnext, captureKeyByte]
      rfl)
    (by
      intro seen byte
      simp [step, inside, hkept, stepPassthrough, passString, hnext, captureKeyByte]
      rfl) body h []
  have hstart : inside false [] = (t, out) := by
    simp only [inside, captureKey, List.foldl_nil, List.append_nil, ← hescaped]
  have hend : inside false body = (t.captureKey body, out ++ body) := by
    have hsame : (t.captureKey body).escaped = false := by
      rw [captureKey_fields]
      exact hescaped
    simp only [inside, ← hsame]
  rw [hstart, List.nil_append, hend] at hrun
  exact hrun

/-- What a key leaves behind. -/
structure Keyed (t next : PageTransformer) (key : Str) : Prop where
  quiet : Quiet next
  depth : next.depth = t.depth
  context : next.context = t.context
  progress : next.progress = t.progress
  expectNameValue : next.expectNameValue = false
  keyText : next.keyText = if key.length ≤ maxKeyBytes then key else []

theorem run_key (t : PageTransformer) (h : Quiet t) (hdepth : t.depth = 1)
    (hname : t.expectNameValue = false) (body out : Str) (hbody : StringBody body) :
    ∃ next, run readers (t, out) (quote body) =
      .ok (next, out ++ quote body) ∧ Keyed t next body := by
  have hopen := step_quote readers h out
  rw [passQuote_key hdepth hname] at hopen
  have hrun := run_keyBody readers
    { t with inString := true, keyLen := 0, capturingKey := true }
    h.mode rfl h.escaped rfl h.capturingName body (out ++ [0x22]) hbody
  obtain ⟨key, heq, hkey, -⟩ := captureKey_eq
    { t with inString := true, keyLen := 0, capturingKey := true } body h.key rfl
  have htext := captureKey_text
    { t with inString := true, keyLen := 0, capturingKey := true } body h.key rfl
  rw [heq] at hrun htext
  dsimp only at hrun htext
  let next : PageTransformer :=
    { t with inString := false, key, keyLen := body.length, capturingKey := false, capturingName := false }
  have hclose : step readers
      ({ t with inString := true, key, keyLen := body.length, capturingKey := true },
        out ++ [0x22] ++ body) 0x22 = .ok (next, out ++ [0x22] ++ body ++ [0x22]) := by
    simp [step, next, h.mode, h.escaped, h.capturingName, stepPassthrough, passString]
  refine ⟨next, ?_, ?_⟩
  · unfold quote
    rw [run_next hopen, run_then hrun, run_next hclose]
    simp only [List.append_assoc, List.singleton_append]
    rfl
  · have hquiet : Quiet next :=
      ⟨h.mode, rfl, h.escaped, rfl, rfl, h.closed, h.trailing, h.capture, hkey⟩
    exact ⟨hquiet, rfl, rfl, rfl, hname, htext⟩

theorem keyText_iff (key special : Str) (hne : special ≠ []) (hshort : special.length ≤ maxKeyBytes) :
    (if key.length ≤ maxKeyBytes then key else []) = special ↔ key = special := by
  split
  · exact Iff.rfl
  · rename_i hlong
    constructor
    · exact fun h => absurd h.symm hne
    · rintro rfl
      exact absurd hshort hlong

/-- The transformer stands between two members, and has learned this. -/
structure Between (context : StreamContext) (t : PageTransformer) (progress : StreamProgress) : Prop where
  quiet : Quiet t
  depth : t.depth = 1
  expectNameValue : t.expectNameValue = false
  context : t.context = context
  progress : t.progress = progress

/-- The transformer stands before the value of a member. -/
structure Expecting (context : StreamContext) (t : PageTransformer) (key : Str)
    (progress : StreamProgress) : Prop where
  quiet : Quiet t
  depth : t.depth = 1
  expectNameValue : t.expectNameValue = (key == str "name")
  context : t.context = context
  progress : t.progress = progress
  keyText : t.keyText = if key.length ≤ maxKeyBytes then key else []

variable {context : StreamContext} {t : PageTransformer}

theorem run_head {progress : StreamProgress} (h : Between context t progress) (member : PageMember)
    (out : Str) : ∃ next, run readers (t, out) member.head =
      .ok (next, out ++ member.head) ∧ Expecting context next member.key (seeKey progress member.key) := by
  have hbefore := run_ws readers t h.quiet.mode h.quiet.inString member.before out member.beforeWs
  obtain ⟨keyed, hkey, hkeyed⟩ := run_key readers t h.quiet h.depth h.expectNameValue member.key
    (out ++ member.before) member.keyBody
  have hmid := run_ws readers keyed hkeyed.quiet.mode hkeyed.quiet.inString member.mid
    (out ++ member.before ++ quote member.key) member.midWs
  have hcolon := step_colon readers hkeyed.quiet
    (out ++ member.before ++ quote member.key ++ member.mid) (hkeyed.depth.trans h.depth)
  have hspecial : ∀ special : Str, special ≠ [] → special.length ≤ maxKeyBytes →
      (keyed.keyText == special) = (member.key == special) := by
    intro special hne hshort
    rw [hkeyed.keyText, Bool.eq_iff_iff, beq_iff_eq, beq_iff_eq]
    exact keyText_iff member.key special hne hshort
  rw [hspecial (str "name") (by decide) (by decide),
    hspecial (str "files") (by decide) (by decide)] at hcolon
  let next : PageTransformer :=
    { keyed with
      expectNameValue := member.key == str "name"
      filesBeforeMeta := keyed.filesBeforeMeta || (!keyed.metaSeen && member.key == str "files") }
  have hlead := run_ws readers next hkeyed.quiet.mode hkeyed.quiet.inString member.lead
    (out ++ member.before ++ quote member.key ++ member.mid ++ [0x3A]) member.leadWs
  refine ⟨next, ?_, ?_⟩
  · unfold PageMember.head
    rw [run_then hbefore, run_then hkey, run_then hmid, run_next hcolon, hlead]
    simp only [List.append_assoc, List.singleton_append]
  · have hprogress : keyed.progress = progress := hkeyed.progress.trans h.progress
    obtain ⟨hquiet, hd, hc, hp, he, ht⟩ := hkeyed
    refine ⟨{ hquiet with }, hd.trans h.depth, rfl, hc.trans h.context, ?_, ht⟩
    rw [← hprogress]
    rfl

/-! ### Values that are passed on -/

theorem run_string {key : Str} {progress : StreamProgress} (h : Expecting context t key progress)
    (body out : Str) (hbody : StringBody body) : ∃ next, run readers (t, out) (quote body) =
      .ok (next, out ++ quote body) ∧
      Between context next (if key = str "name" then { progress with name := body } else progress) := by
  by_cases hname : key = str "name"
  · have hexpect : t.expectNameValue = true := by rw [h.expectNameValue, hname]; rfl
    have hopen := step_quote readers h.quiet out
    rw [passQuote_name h.depth hexpect] at hopen
    let inside (escaped : Bool) (seen : Str) : PageTransformer × Str :=
      ({ t with
          inString := true
          capturingName := true
          expectNameValue := false
          name := seen
          escaped }, out ++ [0x22] ++ seen)
    have hrun := foldlM_body (step readers) inside
      (by
        intro seen byte hquote hslash
        simp [step, inside, h.quiet.mode, h.quiet.capturingKey, stepPassthrough, passString, hquote,
          hslash]
        rfl)
      (by
        intro seen
        simp [step, inside, h.quiet.mode, h.quiet.capturingKey, stepPassthrough, passString]
        rfl)
      (by
        intro seen byte
        simp [step, inside, h.quiet.mode, h.quiet.capturingKey, stepPassthrough, passString]
        rfl) body hbody []
    have hstart : inside false [] = ({ t with
        inString := true, capturingName := true, name := [], expectNameValue := false },
        out ++ [0x22]) := by
      simp only [inside, List.append_nil, h.quiet.escaped]
    rw [hstart] at hrun
    let next : PageTransformer :=
      { t with name := body, expectNameValue := false, capturingKey := false, capturingName := false,
               inString := false, escaped := false }
    have hclose : step readers (inside false body) 0x22 =
        .ok (next, out ++ [0x22] ++ body ++ [0x22]) := by
      simp [step, inside, next, h.quiet.mode, h.quiet.capturingKey, stepPassthrough, passString]
    refine ⟨next, ?_, ?_⟩
    · unfold quote
      rw [run_next hopen, run_then hrun]
      show run readers (inside false body) [0x22] = _
      rw [run_next hclose]
      simp only [List.append_assoc, List.singleton_append]
      rfl
    · rw [if_pos hname, ← h.progress]
      have hquiet : Quiet next := ⟨h.quiet.mode, rfl, rfl, rfl, rfl, h.quiet.closed, h.quiet.trailing,
        h.quiet.capture, h.quiet.key⟩
      exact ⟨hquiet, h.depth, rfl, h.context, rfl⟩
  · have hexpect : t.expectNameValue = false := by
      rw [h.expectNameValue]
      exact beq_false_of_ne hname
    obtain ⟨next, hrun, hnext⟩ := run_key readers t h.quiet h.depth
      hexpect body out hbody
    rw [if_neg hname]
    exact ⟨next, hrun, hnext.quiet, hnext.depth.trans h.depth, hnext.expectNameValue,
      hnext.context.trans h.context, hnext.progress.trans h.progress⟩

theorem isLiteral_passed (byte : UInt8) (h : isLiteral byte = true) :
    (byte ≠ 0x22 ∧ byte ≠ 0x7B ∧ byte ≠ 0x5B ∧ byte ≠ 0x7D ∧ byte ≠ 0x5D) ∧ byte ≠ 0x3A ∧
      isAsciiWhitespace byte = false := by
  have hspecial : ∀ other ∈ [0x22, 0x7B, 0x5B, 0x7D, 0x5D, 0x3A, 0x20, 0x09, 0x0A, 0x0C, 0x0D],
      byte ≠ other := by
    intro other hother heq
    have hall : ([0x22, 0x7B, 0x5B, 0x7D, 0x5D, 0x3A, 0x20, 0x09, 0x0A, 0x0C, 0x0D].all
      fun byte => !isLiteral byte) = true := by decide
    have hno := List.all_eq_true.mp hall other hother
    rw [← heq, h] at hno
    cases hno
  simp only [List.forall_mem_cons] at hspecial
  obtain ⟨h1, h2, h3, h4, h5, h6, h7, h8, h9, h10, h11, -⟩ := hspecial
  exact ⟨⟨h1, h2, h3, h4, h5⟩, h6, by simp [isAsciiWhitespace, h7, h8, h9, h10, h11]⟩

theorem run_literal {t : PageTransformer} (h : Quiet t) (text out : Str) (htext : Literal text) :
    run readers (t, out) text = .ok ({ t with expectNameValue := false }, out ++ text) := by
  have hstep : ∀ (expect : Bool) (out : Str) (byte : UInt8), isLiteral byte = true →
      step readers ({ t with expectNameValue := expect }, out) byte =
        .ok ({ t with expectNameValue := false }, out ++ [byte]) := by
    intro expect out byte hbyte
    obtain ⟨hpassed, hcolon, hspace⟩ := isLiteral_passed byte hbyte
    have hquiet : Quiet { t with expectNameValue := expect } := { h with }
    rw [step_passed _ hquiet out byte hpassed (.inl hcolon), hspace, Bool.and_false]
  have hrest : ∀ (rest out : Str), (∀ byte ∈ rest, isLiteral byte = true) →
      run readers ({ t with expectNameValue := false }, out) rest =
        .ok ({ t with expectNameValue := false }, out ++ rest) := by
    intro rest
    induction rest with
    | nil =>
      intro out _
      rw [List.append_nil]
      rfl
    | cons byte rest ih =>
      intro out hall
      rw [run_next (hstep false out byte (hall byte List.mem_cons_self)),
        ih _ fun later hlater => hall later (List.mem_cons_of_mem _ hlater)]
      simp only [List.append_assoc, List.singleton_append]
  obtain ⟨hne, hall⟩ := htext
  cases text with
  | nil => exact absurd rfl hne
  | cons byte rest =>
    rw [run_next (hstep t.expectNameValue out byte (hall byte List.mem_cons_self)),
      hrest rest _ fun later hlater => hall later (List.mem_cons_of_mem _ hlater)]
    simp only [List.append_assoc, List.singleton_append]

/-! ### Brackets -/

/-- A value that is passed on, with `base` brackets open around its inside. -/
theorem run_inner {t : PageTransformer} (h : Quiet t) (hname : t.expectNameValue = false) (base : Nat)
    (hbase : 2 ≤ base) (inner out : Str) (hinner : Place.walk { depth := 0 } inner = some { depth := 0 }) :
    run readers ({ t with depth := base }, out) inner =
      .ok ({ t with depth := base }, out ++ inner) := by
  let at_ (place : Place) (seen : Str) : PageTransformer × Str :=
    ({ t with depth := base + place.depth, inString := place.inString, escaped := place.escaped },
      out ++ seen)
  have hrun := foldlM_walk (step readers) at_
    (by
      intro place next seen byte hnext
      have hflags := And.intro h.mode (And.intro h.capturingKey (And.intro h.capturingName h.closed))
      cases hnext with
      | escaped | slash | unquote => simp [step, at_, hflags, stepPassthrough, passString]
      | inside depth byte hquote hslash =>
        simp [step, at_, hflags, stepPassthrough, passString, hquote, hslash]
      | quote depth escaped =>
        have hdepth : base + depth ≠ 1 := by omega
        simp [step, at_, hflags, stepPassthrough, passQuote, hdepth, hname]
      | opening depth escaped byte hbyte =>
        have hdepth : base + (depth + 1) ≠ 2 := by omega
        rcases hbyte with rfl | rfl <;>
          simp [step, at_, hflags, stepPassthrough, passOpening, hdepth, hname, Nat.add_assoc]
      | closing depth escaped byte hbyte =>
        have hdepth : base + (depth + 1) - 1 = base + depth := by omega
        have hopen : (base + depth == 0) = false := by
          rw [beq_eq_false_iff_ne]
          omega
        rcases hbyte with rfl | rfl <;>
          simp [step, at_, hflags, stepPassthrough, hdepth, hopen]
      | plain depth escaped byte hbyte =>
        have hdepth : base + depth ≠ 1 := by omega
        simp [step, at_, hflags, stepPassthrough, hbyte, hdepth, hname])
    inner { depth := 0 } { depth := 0 } [] hinner
  have hstart : ∀ seen, at_ { depth := 0 } seen = ({ t with depth := base }, out ++ seen) := by
    intro seen
    simp only [at_, Nat.add_zero, h.inString, h.escaped]
  rw [hstart, hstart, List.append_nil] at hrun
  exact hrun

/-- A captured value, with `base` brackets open around its inside; `floor` is the depth at
which the mode acts. -/
theorem capture_inner (mode : Mode) (hmode : mode ≠ .passthrough) {t : PageTransformer} (floor base : Nat)
    (harray : t.arrayDepth = floor + 1)
    (hbase : match mode with | .files => floor + 2 ≤ base | _ => floor + 1 ≤ base)
    (hstring : t.inString = false) (hescaped : t.escaped = false) (seen inner out : Str) (hseen : seen ≠ [])
    (hinner : Place.walk { depth := 0 } inner = some { depth := 0 }) : run readers
        ({ t with mode, depth := base, capture := seen }, out) inner =
      .ok ({ t with mode, depth := base, capture := seen ++ inner }, out) := by
  let at_ (place : Place) (read : Str) : PageTransformer × Str :=
    ({ t with
        mode
        depth := base + place.depth
        inString := place.inString
        escaped := place.escaped
        capture := seen ++ read }, out)
  have hlow : floor + 1 ≤ base := by
    cases mode <;> simp only at hbase <;> omega
  have hrun := foldlM_walk (step readers) at_
    (by
      intro place next read byte hnext
      have hempty : (seen ++ read).isEmpty = false := by simp [hseen]
      cases hnext with
      | escaped | slash | unquote =>
        cases mode <;>
          simp [step, at_, stepMeta, stepFiles, stepVersions, captureString, captured] at hmode ⊢
      | inside depth byte hquote hslash =>
        cases mode <;>
          simp [step, at_, stepMeta, stepFiles, stepVersions, captureString, captured, hquote, hslash] at hmode ⊢
      | quote depth escaped =>
        cases mode <;> simp [step, at_, stepMeta, stepFiles, stepVersions, captured] at hmode ⊢
      | opening depth escaped byte hbyte =>
        cases mode <;> rcases hbyte with rfl | rfl <;>
          simp [step, at_, stepMeta, stepFiles, stepVersions, captured, Nat.add_assoc] at hmode ⊢
      | closing depth escaped byte hbyte =>
        have hdepth : base + (depth + 1) - 1 = base + depth := by omega
        have hfloor : base + depth ≠ floor := by omega
        cases mode with
        | passthrough => exact absurd rfl hmode
        | info =>
          rcases hbyte with rfl | rfl <;> simp [step, at_, stepMeta, captured, hdepth, hfloor, harray]
        | files =>
          have hfiles : base + depth ≠ floor + 1 := by
            simp only at hbase
            omega
          rcases hbyte with rfl | rfl <;>
            simp [step, at_, stepFiles, captured, hdepth, hfloor, harray, hfiles]
        | versions =>
          rcases hbyte with rfl | rfl <;> simp [step, at_, stepVersions, captured, hdepth, hfloor, harray]
      | plain depth escaped byte hbyte =>
        cases mode with
        | passthrough => exact absurd rfl hmode
        | info => simp [step, at_, stepMeta, captured, hbyte]
        | files =>
          have hfiles : base + depth ≠ floor + 1 := by
            simp only at hbase
            omega
          simp [step, at_, stepFiles, captured, hbyte, harray, hfiles, hseen]
        | versions => simp [step, at_, stepVersions, captured, hbyte])
    inner { depth := 0 } { depth := 0 } [] hinner
  have hstart : ∀ read, at_ { depth := 0 } read =
      ({ t with mode, depth := base, capture := seen ++ read }, out) := by
    intro read
    simp only [at_, Nat.add_zero, hstring, hescaped]
  rw [hstart, hstart, List.append_nil] at hrun
  exact hrun

theorem Expecting.keyText_eq {key : Str} {progress : StreamProgress} (h : Expecting context t key progress)
    (special : Str) (hne : special ≠ []) (hshort : special.length ≤ maxKeyBytes) :
    t.keyText = special ↔ key = special := by
  rw [h.keyText]
  exact keyText_iff key special hne hshort

/-- A transformer that goes on after a value of a member. -/
theorem Expecting.between {key : Str} {progress last : StreamProgress} (h : Expecting context t key progress)
    {next : PageTransformer} (hmode : next.mode = .passthrough) (hdepth : next.depth = 1)
    (hname : next.expectNameValue = false) (hcapture : next.capture = [])
    (hsame : (next.inString, next.escaped, next.capturingKey, next.capturingName, next.closed,
        next.trailing, next.key, next.context) =
      (t.inString, t.escaped, t.capturingKey, t.capturingName, t.closed, t.trailing, t.key, t.context))
    (hlast : next.progress = last) : Between context next last := by
  simp only [Prod.mk.injEq] at hsame
  obtain ⟨h1, h2, h3, h4, h5, h6, h7, h8⟩ := hsame
  have hquiet : Quiet next := ⟨hmode, h1.trans h.quiet.inString, h2.trans h.quiet.escaped,
    h3.trans h.quiet.capturingKey, h4.trans h.quiet.capturingName, h5.trans h.quiet.closed,
    h6.trans h.quiet.trailing, hcapture, (congrArg List.length h7).trans h.quiet.key⟩
  exact ⟨hquiet, hdepth, hname, h8.trans h.context, hlast⟩

theorem run_brackets {key : Str} {progress : StreamProgress} (h : Expecting context t key progress)
    (opening closing : UInt8) (inner out : Str)
    (hbrackets : opening = 0x7B ∧ closing = 0x7D ∨ opening = 0x5B ∧ closing = 0x5D)
    (hinner : Place.walk { depth := 0 } inner = some { depth := 0 })
    (hmeta : ¬(opening = 0x7B ∧ key = str "meta")) (hfiles : ¬(opening = 0x5B ∧ key = str "files"))
    (hversions : ¬(opening = 0x5B ∧ key = str "versions")) :
    ∃ next, run readers (t, out) (opening :: (inner ++ [closing])) =
      .ok (next, out ++ opening :: (inner ++ [closing])) ∧ Between context next progress := by
  have hopen := step_opening readers h.quiet out opening (hbrackets.imp And.left And.left)
  let inside : PageTransformer := { t with expectNameValue := false }
  have hquiet : Quiet inside := { h.quiet with }
  have hpass : { t with expectNameValue := false, depth := t.depth + 1 }.passOpening readers opening out =
      ({ inside with depth := 2 }, out ++ [opening]) := by
    unfold passOpening
    rw [if_neg, if_neg, if_neg]
    · simp only [inside, h.depth]
    · rintro ⟨hbyte, -, htext⟩
      exact hversions ⟨hbyte, (h.keyText_eq (str "versions") (by decide) (by decide)).mp htext⟩
    · rintro ⟨hbyte, -, htext⟩
      exact hfiles ⟨hbyte, (h.keyText_eq (str "files") (by decide) (by decide)).mp htext⟩
    · rintro ⟨hbyte, -, htext⟩
      exact hmeta ⟨hbyte, (h.keyText_eq (str "meta") (by decide) (by decide)).mp htext⟩
  rw [hpass] at hopen
  have hrun := run_inner readers hquiet rfl 2 (Nat.le_refl 2) inner
    (out ++ [opening]) hinner
  have hquiet2 : Quiet { inside with depth := 2 } := { hquiet with }
  have hclose := step_closing readers hquiet2
    (out ++ [opening] ++ inner) closing (hbrackets.imp And.right And.right)
  refine ⟨{ inside with depth := 1, closed := false }, ?_, ?_⟩
  · rw [run_next hopen, run_then hrun, run_next hclose]
    simp only [List.append_assoc, List.singleton_append]
    rfl
  · refine h.between hquiet.mode rfl rfl hquiet.capture ?_ h.progress
    simp only [inside, h.quiet.closed]

/-- `meta` is captured whole, and written anew. -/
theorem run_info {progress : StreamProgress} (h : Expecting context t (str "meta") progress)
    (inner out : Str)
    (hinner : Place.walk { depth := 0 } inner = some { depth := 0 }) :
    run readers (t, out) (0x7B :: (inner ++ [0x7D])) =
      match parseMeta readers (0x7B :: (inner ++ [0x7D])) with
      | .error error => .error (.simple error)
      | .ok info => .ok ({ t with
          expectNameValue := false
          arrayDepth := 2
          projectStatus := info.projectStatus
          projectStatusReason := info.projectStatusReason
          metaSeen := true }, out ++ (Json.object (Serde.presentFields (metaEntries info))).write) := by
  have hopen := step_opening readers h.quiet out 0x7B (.inl rfl)
  have hpass : { t with expectNameValue := false, depth := t.depth + 1 }.passOpening readers 0x7B out =
      ({ t with
        expectNameValue := false
        mode := .info
        arrayDepth := 2
        depth := 2
        capture := [0x7B] }, out) := by
    unfold passOpening
    rw [if_pos ⟨rfl, by rw [h.depth], (h.keyText_eq (str "meta") (by decide) (by decide)).mpr rfl⟩]
    simp only [h.depth]
  rw [hpass] at hopen
  have hrun := capture_inner readers .info (by decide)
    (t := { t with expectNameValue := false, arrayDepth := 2 }) 1 2 rfl (Nat.le_refl 2) h.quiet.inString
    h.quiet.escaped [0x7B] inner out (List.cons_ne_nil _ _) hinner
  have hcapture : [0x7B] ++ inner ++ [0x7D] = 0x7B :: (inner ++ [0x7D]) := rfl
  rw [run_next hopen, run_then hrun, run_cons]
  simp only [step, stepMeta, h.quiet.inString, captured, emitMeta, hcapture]
  cases parseMeta readers (0x7B :: (inner ++ [0x7D])) with
  | error error => rfl
  | ok info =>
    have hstate : t.depth = 1 ∧ t.capture = [] ∧ t.mode = .passthrough :=
      ⟨h.depth, h.quiet.capture, h.quiet.mode⟩
    simp [Except.map, bind, Except.bind, run, pure, Except.pure, hstate]

/-- `versions` is captured whole, and merged. -/
theorem run_versions {progress : StreamProgress} (h : Expecting context t (str "versions") progress)
    (inner out : Str) (hinner : Place.walk { depth := 0 } inner = some { depth := 0 }) :
    run readers (t, out) (0x5B :: (inner ++ [0x5D])) =
      match (readers.fromSlice (0x5B :: (inner ++ [0x5D]))).bind stringsOfJson with
      | none => .error .parse
      | some versions => .ok ({ t with expectNameValue := false, arrayDepth := 2 },
          out ++ (Json.array
            ((mergedVersions (versions ++ context.localVersions)).map Json.string)).write) := by
  have hopen := step_opening readers h.quiet out 0x5B (.inr rfl)
  have hpass : { t with expectNameValue := false, depth := t.depth + 1 }.passOpening readers 0x5B out =
      ({ t with
        expectNameValue := false
        mode := .versions
        arrayDepth := 2
        depth := 2
        capture := [0x5B] }, out) := by
    have hkey : ({ t with expectNameValue := false, depth := t.depth + 1 } : PageTransformer).keyText =
        str "versions" := (h.keyText_eq (str "versions") (by decide) (by decide)).mpr rfl
    unfold passOpening
    rw [hkey, if_neg fun hall => absurd hall.2.2 (by decide), if_neg fun hall => absurd hall.2.2 (by decide),
      if_pos ⟨rfl, by rw [h.depth], rfl⟩]
    simp only [h.depth]
  rw [hpass] at hopen
  have hrun := capture_inner readers .versions (by decide)
    (t := { t with expectNameValue := false, arrayDepth := 2 }) 1 2 rfl (Nat.le_refl 2) h.quiet.inString
    h.quiet.escaped [0x5B] inner out (List.cons_ne_nil _ _) hinner
  have hcapture : [0x5B] ++ inner ++ [0x5D] = 0x5B :: (inner ++ [0x5D]) := rfl
  rw [run_next hopen, run_then hrun, run_cons]
  simp only [step, stepVersions, h.quiet.inString, captured, emitVersions, hcapture]
  cases (readers.fromSlice (0x5B :: (inner ++ [0x5D]))).bind stringsOfJson with
  | none => rfl
  | some versions =>
    have hstate : t.depth = 1 ∧ t.capture = [] ∧ t.mode = .passthrough ∧ t.context = context :=
      ⟨h.depth, h.quiet.capture, h.quiet.mode, h.context⟩
    simp [Except.map, bind, Except.bind, run, pure, Except.pure, hstate]

/-! ### The files of a page -/

theorem writeItems_snoc (items : List Json) (item : Json) : writeItems (items ++ [item]) =
      (if items.isEmpty then [] else writeItems items ++ [0x2C]) ++ item.write := by
  induction items with
  | nil => simp [writeItems]
  | cons first items ih =>
    rw [List.cons_append, writeItems, ih]
    cases items with
    | nil => simp [writeItems]
    | cons second items => simp [writeItems]

/-- The transformer in a `files` array, with these files sent downstream. -/
def inFiles (t : PageTransformer) (progress : StreamProgress) (served : List File) : PageTransformer :=
  { t with
    expectNameValue := false
    mode := .files
    depth := 2
    arrayDepth := 2
    capture := []
    emittedInArray := !served.isEmpty
    filesSeen := progress.filesSeen
    registrations := progress.registrations }

def sent (served : List File) : Str := writeItems (served.map fileToJson)

theorem writeFile_sent (t : PageTransformer) (served : List File) (file : File) (out : Str)
    (h : t.emittedInArray = !served.isEmpty) : t.writeFile file (out ++ sent served) =
      ({ t with emittedInArray := !(served ++ [file]).isEmpty }, out ++ sent (served ++ [file])) := by
  unfold writeFile sent
  rw [h, List.map_append, List.map_singleton, writeItems_snoc]
  cases served with
  | nil => simp [writeItems]
  | cons first served => simp

theorem emitLocalFile_sent (t : PageTransformer) (served : List File) (file : File) (out : Str)
    (hcontext : t.context = context) :
    emitLocalFile readers ({ t with emittedInArray := !served.isEmpty }, out ++ sent served)
        file = let served := served ++ (servedLocally readers context file).toList
      ({ t with emittedInArray := !served.isEmpty }, out ++ sent served) := by
  subst hcontext
  have hwrite : ∀ file, ({ t with emittedInArray := !served.isEmpty } : PageTransformer).writeFile file
      (out ++ sent served) =
      ({ t with emittedInArray := !(served ++ [file]).isEmpty }, out ++ sent (served ++ [file])) :=
    fun file => writeFile_sent _ served file out rfl
  unfold emitLocalFile servedLocally servable
  dsimp only
  by_cases hhidden : file.filename ∈ t.context.hidden
  · simp [hhidden]
  · cases hcheck : (checkFile readers.table readers.pep readers.parseUploadTime t.context.policy .serve
        t.context.project file).isOk with
    | false => simp [hhidden]
    | true =>
      rw [if_neg hhidden, if_neg (by simp), if_neg (by simp [hhidden])]
      cases t.context.yanked[file.filename]? with
      | none => exact hwrite file
      | some yanked => exact hwrite _

theorem emitLocalFiles_sent (t : PageTransformer) (out : Str) (hcontext : t.context = context)
    (h : t.emittedInArray = false) : t.emitLocalFiles readers out =
      let served := localServed readers context t.projectStatus
      ({ t with emittedInArray := !served.isEmpty }, out ++ sent served) := by
  subst hcontext
  have hstart : (t, out) = ({ t with emittedInArray := !([] : List File).isEmpty }, out ++ sent []) := by
    rw [show sent [] = [] from rfl, List.append_nil]
    simp only [List.isEmpty_nil, Bool.not_true, ← h]
  have hfold : ∀ (files served : List File),
      files.foldl (emitLocalFile readers)
        ({ t with emittedInArray := !served.isEmpty }, out ++ sent served) =
      ({ t with emittedInArray :=
          !(served ++ files.filterMap (servedLocally readers t.context)).isEmpty },
        out ++ sent (served ++ files.filterMap (servedLocally readers t.context))) := by
    intro files
    induction files with
    | nil =>
      intro served
      rw [List.filterMap_nil, List.append_nil]
      rfl
    | cons file files ih =>
      intro served
      rw [List.foldl_cons, emitLocalFile_sent readers t served file out rfl, ih,
        List.filterMap_cons]
      cases servedLocally readers t.context file with
      | none => simp
      | some kept => simp
  unfold emitLocalFiles localServed projectIsQuarantined
  cases hstatus : t.projectStatus == some (str "quarantined") with
  | true => exact hstart
  | false =>
    have hall := hfold t.context.localFiles []
    rw [← hstart, List.nil_append] at hall
    exact hall

theorem emitFile_sent (t : PageTransformer) (progress : StreamProgress) (served : List File) (text out : Str)
    (hcontext : t.context = context) (hstatus : t.projectStatus = progress.projectStatus) :
    ({ inFiles t progress served with capture := text }.emitFile readers (out ++ sent served)) =
      (rewriteElement readers context (progress, served) text).map
        fun (progress, served) =>
          ({ inFiles t progress served with capture := text }, out ++ sent served) := by
  subst hcontext
  unfold emitFile rewriteElement withheld
  dsimp only [inFiles, projectIsQuarantined, servable]
  rw [hstatus]
  by_cases hmany : maxPageFiles < progress.filesSeen + 1
  · rw [if_pos hmany, if_pos hmany]
    rfl
  · rw [if_neg hmany, if_neg hmany]
    cases (readers.fromSlice text).bind File.ofJson with
    | none => rfl
    | some file =>
      dsimp only
      rcases Bool.eq_false_or_eq_true (progress.projectStatus == some (str "quarantined")) with
        hquarantined | hquarantined
      · simp [hquarantined, Except.map]
      · by_cases hskip : file.filename ∈ t.context.skip
        · simp [hquarantined, hskip, Except.map]
        · rcases Bool.eq_false_or_eq_true
            (checkFile readers.table readers.pep readers.parseUploadTime t.context.policy .serve
              t.context.project file).isOk with
            hcheck | hcheck
          · simp only [hquarantined, hskip, hcheck, if_false, Bool.not_true, Bool.false_eq_true,
              Bool.or_false, decide_false, Except.map, List.flatMap_cons, List.flatMap_nil, List.append_nil,
              List.map_cons, List.map_nil]
            rw [writeFile_sent _ served _ out rfl]
          · simp [hquarantined, hskip, hcheck, Except.map]

/-- An element changes nothing but what was seen and registered. -/
theorem rewriteElement_kept {state last : StreamProgress × List File} {text : Str}
    (helement : rewriteElement readers context state text = .ok last) :
    ∃ filesSeen registrations, last.1 = { state.1 with filesSeen, registrations } := by
  unfold rewriteElement at helement
  split at helement
  · cases helement
  · split at helement
    · cases helement
    · cases helement
      exact ⟨_, _, rfl⟩

section Array
variable {t : PageTransformer} (h : Quiet t)
include h

/-- Whitespace and commas between the elements are dropped. -/
theorem step_between (progress : StreamProgress) (served : List File) (out : Str) (byte : UInt8)
    (hbyte : isWs byte = true ∨ byte = 0x2C) : step readers (inFiles t progress served, out) byte =
      .ok (inFiles t progress served, out) := by
  simp only [isWs, Bool.or_eq_true, beq_iff_eq] at hbyte
  simp only [step, inFiles, stepFiles, h.inString]
  rcases hbyte with (((rfl | rfl) | rfl) | rfl) | rfl <;> simp [isAsciiWhitespace]

theorem run_between (progress : StreamProgress) (served : List File) (out text : Str) (htext : Ws text) :
    run readers (inFiles t progress served, out) text = .ok (inFiles t progress served, out) := by
  induction text with
  | nil => rfl
  | cons byte rest ih =>
    rw [run_next (step_between readers h progress served out byte
      (.inl (htext byte List.mem_cons_self)))]
    exact ih fun later hlater => htext later (List.mem_cons_of_mem _ hlater)

/-- The file behind what is sent of an array. -/
def afterElement (t : PageTransformer) (out : Str) (state : StreamProgress × List File) :
    PageTransformer × Str :=
  (inFiles t state.1 state.2, out ++ sent state.2)

theorem run_element (progress : StreamProgress) (served : List File) (item : PageFile) (out : Str)
    (hcontext : t.context = context) (hstatus : t.projectStatus = progress.projectStatus) :
    run readers (afterElement t out (progress, served)) item.bytes =
      (rewriteElement readers context (progress, served) item.text).map (afterElement t out) := by
  obtain ⟨inner, htext, hinner⟩ : ∃ inner, item.text = 0x7B :: (inner ++ [0x7D]) ∧
      Place.walk { depth := 0 } inner = some { depth := 0 } := by
    rcases item.isText.shape with ⟨body, -, htext⟩ | hliteral |
      ⟨opening, closing, inner, hbrackets, htext, hinner⟩
    · have hobject := item.isObject
      rw [htext] at hobject
      cases hobject
    · have hobject := item.isObject
      cases htext : item.text with
      | nil => rw [htext] at hobject; cases hobject
      | cons byte rest =>
        rw [htext] at hobject hliteral
        cases hobject
        exact absurd (hliteral.2 0x7B List.mem_cons_self) (by decide)
    · have hobject := item.isObject
      rw [htext] at hobject
      cases hobject
      rcases hbrackets with ⟨-, rfl⟩ | ⟨hno, -⟩
      · exact ⟨inner, htext, hinner⟩
      · exact absurd hno (by decide)
  have hbefore := run_between readers h progress served (out ++ sent served) item.before item.beforeWs
  have hopen : step readers (inFiles t progress served, out ++ sent served) 0x7B =
      .ok ({ inFiles t progress served with mode := .files, depth := 3, capture := [0x7B] },
        out ++ sent served) := by
    simp [step, inFiles, stepFiles, h.inString, captured]
  have hrun := capture_inner readers .files (by decide)
    (t := inFiles t progress served) 1 3 rfl (Nat.le_refl 3) h.inString h.escaped [0x7B] inner
    (out ++ sent served) (List.cons_ne_nil _ _) hinner
  have hcapture : [0x7B] ++ inner ++ [0x7D] = item.text := htext.symm
  have hclose : step readers
      ({ inFiles t progress served with mode := .files, depth := 3, capture := [0x7B] ++ inner },
        out ++ sent served) 0x7D =
      (rewriteElement readers context (progress, served) item.text).map (afterElement t out) := by
    have hstep : step readers
        ({ inFiles t progress served with mode := .files, depth := 3, capture := [0x7B] ++ inner },
          out ++ sent served) 0x7D =
        ({ inFiles t progress served with capture := item.text }.emitFile readers (out ++ sent served)).map
          fun (state : PageTransformer × Str) => ({ state.1 with capture := [] }, state.2) := by
      rw [← hcapture]
      simp only [step, stepFiles, inFiles, h.inString, captured]
      rfl
    rw [hstep, emitFile_sent readers t progress served item.text out hcontext hstatus]
    cases rewriteElement readers context (progress, served) item.text with
    | error error => rfl
    | ok state => rfl
  unfold PageFile.bytes afterElement
  rw [htext] at hclose ⊢
  dsimp only
  rw [run_then hbefore, List.cons_append, run_next hopen, List.append_assoc, run_then hrun]
  have hlast : [0x7D] ++ item.after = 0x7D :: item.after := rfl
  rw [hlast, run_cons, hclose]
  cases rewriteElement readers context (progress, served) (0x7B :: (inner ++ [0x7D])) with
  | error error => rfl
  | ok state =>
    exact run_between readers h state.1 state.2 _ item.after item.afterWs

theorem run_elements (items : List PageFile) (state : StreamProgress × List File) (out : Str)
    (hcontext : t.context = context) (hstatus : t.projectStatus = state.1.projectStatus) :
    run readers (afterElement t out state)
        (joined (items.map PageFile.bytes)) = (items.foldlM (fun state item =>
        rewriteElement readers context state item.text) state).map
        (afterElement t out) := by
  induction items generalizing state with
  | nil => rfl
  | cons item items ih =>
    rw [List.map_cons, joined, run_append,
      run_element readers h state.1 state.2 item out hcontext hstatus,
      List.foldlM_cons]
    cases helement : rewriteElement readers context state item.text with
    | error error => rfl
    | ok next =>
      obtain ⟨filesSeen, registrations, hkept⟩ := rewriteElement_kept readers helement
      have hnext : t.projectStatus = next.1.projectStatus := by
        rw [hkept]
        exact hstatus
      have hrest := ih next hnext
      cases items with
      | nil => exact hrest
      | cons second items =>
        have hcomma := step_between readers h next.1 next.2
          (out ++ sent next.2) 0x2C (.inr rfl)
        exact (run_next hcomma _).trans hrest

end Array

/-- A `files` array is written anew, the hosted files first. -/
theorem run_files {progress : StreamProgress} (h : Expecting context t (str "files") progress)
    (space : Str) (items : List PageFile) (hspace : Ws space) (out : Str) :
    run readers (t, out) (PageValue.list space items hspace).text =
      (rewriteFiles readers context progress items).map
        fun state => ({ inFiles t state.1 state.2 with mode := .passthrough, depth := 1 },
          out ++ (Json.array (state.2.map fileToJson)).write) := by
  have hstatus : t.projectStatus = progress.projectStatus := by
    rw [← h.progress]
    rfl
  have hopen := step_opening readers h.quiet out 0x5B (.inr rfl)
  have hpass : { t with expectNameValue := false, depth := t.depth + 1 }.passOpening readers 0x5B out =
      afterElement t (out ++ [0x5B]) (progress, localServed readers context progress.projectStatus) := by
    have hkey : ({ t with expectNameValue := false, depth := t.depth + 1 } : PageTransformer).keyText =
        str "files" := (h.keyText_eq (str "files") (by decide) (by decide)).mpr rfl
    have hlocal := emitLocalFiles_sent readers
      { t with
        expectNameValue := false, depth := 2, mode := .files, arrayDepth := 2, emittedInArray := false }
      (out ++ [0x5B]) h.context rfl
    have hseen : t.filesSeen = progress.filesSeen ∧ t.registrations = progress.registrations := by
      rw [← h.progress]
      exact ⟨rfl, rfl⟩
    unfold passOpening
    rw [hkey, if_neg fun hall => absurd hall.2.2 (by decide), if_pos ⟨rfl, by rw [h.depth], rfl⟩]
    simp only [h.depth]
    refine hlocal.trans ?_
    simp only [afterElement, inFiles, h.quiet.capture, ← hseen.1, ← hseen.2, hstatus]
  rw [hpass] at hopen
  have helements := run_elements readers h.quiet items
    (progress, localServed readers context progress.projectStatus) (out ++ [0x5B])
    h.context hstatus
  have hinner : run readers (afterElement t (out ++ [0x5B])
      (progress, localServed readers context progress.projectStatus))
      (if items.isEmpty then space else joined (items.map PageFile.bytes)) =
      (rewriteFiles readers context progress items).map
        (afterElement t (out ++ [0x5B])) := by
    cases items with
    | nil => exact run_between readers h.quiet _ _ _ space hspace
    | cons item items => exact helements
  unfold PageValue.text
  rw [run_next hopen, run_append, hinner]
  cases rewriteFiles readers context progress items with
  | error error => rfl
  | ok state =>
    have hclose : step readers (afterElement t (out ++ [0x5B]) state)
        0x5D = .ok ({ inFiles t state.1 state.2 with mode := .passthrough, depth := 1 },
          out ++ [0x5B] ++ sent state.2 ++ [0x5D]) := by
      simp [step, afterElement, inFiles, stepFiles, h.quiet.inString]
    refine (run_next hclose []).trans ?_
    simp only [Json.write, sent, List.append_assoc, List.singleton_append]
    rfl

/-- A run leaves what a value is rewritten to, and stands behind the value. -/
def Lands (context : StreamContext) (out : Str) (result : Except TransformError (PageTransformer × Str)) :
    Except TransformError (StreamProgress × Str) → Prop
  | .error error => result = .error error
  | .ok (progress, text) => ∃ next, result = .ok (next, out ++ text) ∧ Between context next progress

theorem run_text {key : Str} {progress : StreamProgress} (h : Expecting context t key progress)
    (text out : Str) (nesting : Nat) (htext : Text .value text nesting)
    (hname : text.head? ≠ some 0x22) (hfiles : text.head? = some 0x5B → key ≠ str "files") :
    Lands context out (run readers (t, out) text)
      (rewriteText readers context progress key text) := by
  unfold rewriteText
  rcases htext.shape with ⟨body, -, rfl⟩ | hliteral | ⟨opening, closing, inner, hbrackets, rfl, hinner⟩
  · exact absurd rfl hname
  · have hplain : ∀ byte, isLiteral byte = false → text.head? ≠ some byte := by
      intro byte hbyte hhead
      cases text with
      | nil => cases hhead
      | cons first rest =>
        cases hhead
        rw [hliteral.2 byte List.mem_cons_self] at hbyte
        cases hbyte
    rw [if_neg fun hall => hplain 0x7B (by decide) hall.1, if_neg fun hall => hplain 0x5B (by decide) hall.1]
    exact ⟨_, run_literal readers h.quiet text out hliteral,
      h.between h.quiet.mode h.depth rfl h.quiet.capture rfl h.progress⟩
  · simp only [List.head?_cons, Option.some.injEq] at hfiles ⊢
    by_cases hmeta : opening = 0x7B ∧ key = str "meta"
    · obtain ⟨rfl, rfl⟩ := hmeta
      rcases hbrackets with ⟨-, rfl⟩ | ⟨hno, -⟩
      · rw [if_pos ⟨rfl, rfl⟩, run_info readers h inner out hinner]
        cases parseMeta readers (0x7B :: (inner ++ [0x7D])) with
        | error error => rfl
        | ok info =>
          refine ⟨_, rfl, h.between h.quiet.mode h.depth rfl h.quiet.capture rfl ?_⟩
          rw [← h.progress]
          rfl
      · exact absurd hno (by decide)
    · rw [if_neg hmeta]
      by_cases hversions : opening = 0x5B ∧ key = str "versions"
      · obtain ⟨rfl, rfl⟩ := hversions
        rcases hbrackets with ⟨hno, -⟩ | ⟨-, rfl⟩
        · exact absurd hno (by decide)
        · rw [if_pos ⟨rfl, rfl⟩, run_versions readers h inner out hinner]
          cases (readers.fromSlice (0x5B :: (inner ++ [0x5D]))).bind stringsOfJson with
          | none => rfl
          | some versions =>
            exact ⟨_, rfl, h.between h.quiet.mode h.depth rfl h.quiet.capture rfl h.progress⟩
      · rw [if_neg hversions]
        exact run_brackets readers h opening closing inner out hbrackets
          hinner hmeta (fun hall => hfiles hall.1 hall.2) hversions

theorem Text.element_of_file (item : PageFile) : Text .element item.bytes item.nesting :=
  Text.element item.before item.text item.after item.nesting item.beforeWs item.afterWs item.isText

theorem text_elements (items : List PageFile) (hne : items ≠ []) :
    ∃ nesting, Text .elements (joined (items.map PageFile.bytes)) nesting := by
  induction items with
  | nil => exact absurd rfl hne
  | cons item items ih =>
    rw [List.map_cons, joined]
    cases items with
    | nil =>
      rw [show (if (List.map PageFile.bytes []).isEmpty = true then [] else _) = ([] : Str) from rfl,
        List.append_nil]
      exact ⟨_, .lastElement _ _ (Text.element_of_file item)⟩
    | cons second items =>
      obtain ⟨nesting, hrest⟩ := ih (List.cons_ne_nil _ _)
      exact ⟨_, .elements _ _ _ _ (Text.element_of_file item) hrest⟩

theorem PageValue.isText (value : PageValue) : ∃ nesting, Text .value value.text nesting := by
  cases value with
  | string body h => exact ⟨0, .string body h⟩
  | list space items h =>
    cases items with
    | nil => exact ⟨1, .emptyArray space h⟩
    | cons item items =>
      obtain ⟨nesting, hinner⟩ := text_elements (item :: items) (List.cons_ne_nil _ _)
      exact ⟨nesting + 1, .array _ nesting hinner⟩
  | other text nesting h hother => exact ⟨nesting, h⟩

theorem rewriteFiles_kept {progress : StreamProgress} {items : List PageFile}
    {last : StreamProgress × List File}
    (h : rewriteFiles readers context progress items = .ok last) :
    ∃ filesSeen registrations, last.1 = { progress with filesSeen, registrations } := by
  have hfold : ∀ (items : List PageFile) (state : StreamProgress × List File),
      items.foldlM (fun state item =>
        rewriteElement readers context state item.text) state = .ok last →
      ∃ filesSeen registrations, last.1 = { state.1 with filesSeen, registrations } := by
    intro items
    induction items with
    | nil =>
      intro state h
      cases h
      exact ⟨_, _, rfl⟩
    | cons item items ih =>
      intro state h
      rw [List.foldlM_cons, bind_eq_ok] at h
      obtain ⟨next, helement, hrest⟩ := h
      obtain ⟨seen, registered, hnext⟩ := rewriteElement_kept readers helement
      obtain ⟨filesSeen, registrations, hlast⟩ := ih next hrest
      refine ⟨filesSeen, registrations, ?_⟩
      rw [hlast, hnext]
  exact hfold items _ h

theorem run_value {member : PageMember} {progress : StreamProgress}
    (h : Expecting context t member.key progress) (out : Str) :
    Lands context out (run readers (t, out) member.value.text)
      (rewriteValue readers context progress member.key member.value) := by
  have hlisted := member.listed
  obtain ⟨nesting, htext⟩ := member.value.isText
  cases hvalue : member.value with
  | string body hbody => exact run_string readers h body out hbody
  | list space items hspace =>
    rw [hvalue] at htext
    dsimp only [rewriteValue]
    by_cases hfiles : member.key = str "files"
    · rw [if_pos hfiles]
      rw [hfiles] at h
      rw [run_files readers h space items hspace out]
      cases hrewrite : rewriteFiles readers context progress items with
      | error error => rfl
      | ok state =>
        refine ⟨_, rfl, h.between rfl rfl rfl rfl rfl ?_⟩
        obtain ⟨filesSeen, registrations, hkept⟩ := rewriteFiles_kept readers hrewrite
        rw [hkept, ← h.progress]
        rfl
    · rw [if_neg hfiles]
      exact run_text readers h _ out nesting htext
        (by simp [PageValue.text]) fun _ => hfiles
  | other text n hother hquote =>
    rw [hvalue] at htext hlisted
    exact run_text readers h text out nesting htext hquote
      fun hhead hfiles => hlisted hfiles text n hother hquote rfl hhead

theorem run_member {progress : StreamProgress} (h : Between context t progress) (member : PageMember)
    (out : Str) : Lands context out
      (run readers (t, out) (member.around member.value.text))
      (rewriteMember readers context progress member) := by
  obtain ⟨expecting, hhead, hexpecting⟩ := run_head readers h member out
  have hvalue := run_value readers hexpecting (out ++ member.head)
  unfold PageMember.around rewriteMember
  rw [run_then hhead, run_append]
  cases hrewrite : rewriteValue readers context
      (seeKey progress member.key) member.key member.value with
  | error error =>
    rw [hrewrite] at hvalue
    rw [show run readers (expecting, out ++ member.head)
      member.value.text = .error error from hvalue]
    rfl
  | ok state =>
    rw [hrewrite] at hvalue
    obtain ⟨next, hrun, hnext⟩ := hvalue
    have hafter := run_ws readers next hnext.quiet.mode
      hnext.quiet.inString member.after (out ++ member.head ++ state.2) member.afterWs
    refine ⟨next, ?_, hnext⟩
    rw [hrun]
    refine hafter.trans ?_
    simp only [List.append_assoc, PageMember.around]

theorem rewriteMembers_cons (progress : StreamProgress) (member : PageMember) (members : List PageMember) :
    rewriteMembers readers context progress (member :: members) =
      rewriteMember readers context progress member >>= fun state =>
        (rewriteMembers readers context state.1 members).map fun rest =>
          (rest.1, state.2 :: rest.2) := by
  rw [rewriteMembers]
  cases rewriteMember readers context progress member with
  | error error => rfl
  | ok state =>
    cases h : rewriteMembers readers context state.1 members <;>
      simp [bind, Except.bind, pure, Except.pure, h, Except.map]

theorem rewriteMembers_ok {progress : StreamProgress} {member : PageMember} {members : List PageMember}
    {last : StreamProgress × List Str}
    (h : rewriteMembers readers context progress (member :: members) = .ok last) :
    ∃ next rest, rewriteMember readers context progress member = .ok next ∧
      rewriteMembers readers context next.1 members = .ok rest ∧ last = (rest.1, next.2 :: rest.2) := by
  rw [rewriteMembers_cons, bind_eq_ok] at h
  obtain ⟨next, hmember, hrest⟩ := h
  cases hmembers : rewriteMembers readers context next.1 members with
  | error error =>
    rw [hmembers] at hrest
    cases hrest
  | ok rest =>
    rw [hmembers] at hrest
    cases hrest
    exact ⟨next, rest, hmember, hmembers, rfl⟩

theorem rewriteMembers_length {progress : StreamProgress} {members : List PageMember}
    {last : StreamProgress × List Str}
    (h : rewriteMembers readers context progress members = .ok last) :
    last.2.length = members.length := by
  induction members generalizing progress last with
  | nil =>
    cases h
    rfl
  | cons member members ih =>
    obtain ⟨next, rest, -, hrest, rfl⟩ := rewriteMembers_ok readers h
    rw [List.length_cons, List.length_cons, ih hrest]

theorem run_members {progress : StreamProgress} (h : Between context t progress) (members : List PageMember)
    (out : Str) : Lands context out
      (run readers (t, out)
        (joined (members.map fun member => member.around member.value.text)))
      ((rewriteMembers readers context progress members).map
        fun state => (state.1, joined state.2)) := by
  induction members generalizing t progress out with
  | nil => exact ⟨t, by rw [joined, List.append_nil]; rfl, h⟩
  | cons member members ih =>
    have hmember := run_member readers h member out
    rw [rewriteMembers_cons, List.map_cons, joined, run_append]
    cases hrewrite : rewriteMember readers context progress member with
    | error error =>
      rw [hrewrite] at hmember
      rw [show run readers (t, out)
        (member.around member.value.text) = .error error from hmember]
      rfl
    | ok state =>
      rw [hrewrite] at hmember
      obtain ⟨next, hrun, hnext⟩ := hmember
      rw [hrun]
      cases members with
      | nil =>
        refine ⟨next, ?_, hnext⟩
        simp [joined, run, bind, Except.bind, pure, Except.pure]
      | cons second members =>
        have hcomma := step_passed readers hnext.quiet
          (out ++ state.2) 0x2C (by decide) (.inl (by decide))
        have hsame : ({ next with expectNameValue := next.expectNameValue && isAsciiWhitespace 0x2C } :
            PageTransformer) = next := by
          rw [hnext.expectNameValue, Bool.false_and, ← hnext.expectNameValue]
        rw [hsame] at hcomma
        have hrest := ih hnext (out ++ state.2 ++ [0x2C])
        have hboth := run_next hcomma
          (joined ((second :: members).map fun member => member.around member.value.text))
        change Lands context out (run readers (next, out ++ state.2)
          (0x2C :: joined ((second :: members).map fun member => member.around member.value.text)))
          (((rewriteMembers readers context state.1
            (second :: members)).map fun rest => (rest.1, state.2 :: rest.2)).map
            fun state => (state.1, joined state.2))
        rw [hboth]
        cases hmembers : rewriteMembers readers context state.1
            (second :: members) with
        | error error =>
          rw [hmembers] at hrest
          exact hrest
        | ok rest =>
          rw [hmembers] at hrest
          obtain ⟨last, hlast, hbetween⟩ := hrest
          refine ⟨last, hlast.trans ?_, hbetween⟩
          have hlength := rewriteMembers_length readers hmembers
          have hne : rest.2.isEmpty = false := by
            cases htexts : rest.2 with
            | nil =>
              rw [htexts] at hlength
              cases hlength
            | cons _ _ => rfl
          dsimp only
          rw [joined, hne, List.append_assoc, List.append_assoc]
          rfl

variable (context) in
theorem run_open (page : PageText) (seed : Option Str) : ∃ t, run readers
        ((PageTransformer.new context).seedProjectStatus seed, []) (page.lead ++ [0x7B]) =
        .ok (t, page.lead ++ [0x7B]) ∧ Between context t { projectStatus := seed } := by
  let start := (PageTransformer.new context).seedProjectStatus seed
  have hstart : Quiet start := ⟨rfl, rfl, rfl, rfl, rfl, rfl, rfl, rfl, List.length_replicate⟩
  have hlead := run_ws readers start rfl rfl page.lead [] page.leadWs
  have hopen := step_opening readers hstart page.lead 0x7B (.inl rfl)
  refine ⟨_, (run_then hlead [0x7B]).trans (run_next hopen []), ?_⟩
  exact ⟨⟨rfl, rfl, rfl, rfl, rfl, rfl, rfl, rfl, List.length_replicate⟩, rfl, rfl, rfl, rfl⟩

theorem run_close {t : PageTransformer} {progress : StreamProgress} (h : Between context t progress)
    (trail out : Str) (htrail : Ws trail) :
    ∃ last, run readers (t, out) (0x7D :: trail) = .ok (last, out ++ 0x7D :: trail) ∧
      last.progress = progress ∧ last.finish = .ok (summaryOf progress.toPageProgress) := by
  let last : PageTransformer := { t with depth := 0, closed := true }
  have hclose := step_closing readers h.quiet out 0x7D (.inl rfl)
  rw [h.depth] at hclose
  have htrail := run_ws readers last h.quiet.mode h.quiet.inString trail (out ++ [0x7D]) htrail
  refine ⟨last, ?_, h.progress, ?_⟩
  · rw [run_next hclose]
    refine htrail.trans ?_
    rw [List.append_assoc]
    rfl
  · simp only [finish, last, h.quiet.inString, h.quiet.mode, h.quiet.trailing, ← h.progress]
    rfl

/-- The members of a page, or the space of an empty one. -/
theorem run_inside {t : PageTransformer} {progress : StreamProgress} (h : Between context t progress)
    (page : PageText) (out : Str) : Lands context out
      (run readers (t, out)
        (if page.members.isEmpty then page.space
          else joined (page.members.map fun member => member.around member.value.text)))
      ((rewriteMembers readers context progress page.members).map
        fun state => (state.1, if state.2.isEmpty then page.space else joined state.2)) := by
  have hmembers := run_members readers h page.members out
  cases hlist : page.members with
  | nil =>
    exact ⟨t, run_ws readers t h.quiet.mode h.quiet.inString page.space
      out page.spaceWs, h⟩
  | cons member members =>
    rw [hlist] at hmembers
    cases hrewrite : rewriteMembers readers context progress
        (member :: members) with
    | error error =>
      rw [hrewrite] at hmembers
      exact hmembers
    | ok state =>
      rw [hrewrite] at hmembers
      have hlength := rewriteMembers_length readers hrewrite
      have hne : state.2.isEmpty = false := by
        cases htexts : state.2 with
        | nil =>
          rw [htexts] at hlength
          cases hlength
        | cons _ _ => rfl
      obtain ⟨next, hrun, hnext⟩ := hmembers
      refine ⟨next, hrun.trans ?_, hnext⟩
      rw [hne]
      rfl

variable (context) in
/-- A run of a page fails where its rewriting does, and else leaves the rewritten page. -/
theorem run_page (page : PageText) (seed : Option Str) :
    match rewriteMembers readers context { projectStatus := seed } page.members with
    | .error error =>
      run readers ((PageTransformer.new context).seedProjectStatus seed, []) page.bytes = .error error
    | .ok (progress, parts) =>
      ∃ last, run readers ((PageTransformer.new context).seedProjectStatus seed, []) page.bytes =
        .ok (last, page.around parts) ∧ last.progress = progress ∧
          last.finish = .ok (summaryOf progress.toPageProgress) := by
  obtain ⟨first, hopen, hfirst⟩ := run_open readers context page seed
  have hinside := run_inside readers hfirst page (page.lead ++ [0x7B])
  have hbytes : page.bytes = (page.lead ++ [0x7B]) ++ ((if page.members.isEmpty then page.space
      else joined (page.members.map fun member => member.around member.value.text)) ++
        0x7D :: page.trail) := by
    rw [List.append_assoc, ← List.isEmpty_map]
    rfl
  rw [hbytes, run_then hopen, run_append]
  cases hmembers : rewriteMembers readers context { projectStatus := seed } page.members with
  | error error =>
    rw [hmembers] at hinside
    exact (congrArg (· >>= _) hinside).trans rfl
  | ok state =>
    rw [hmembers] at hinside
    obtain ⟨next, hrun, hnext⟩ := hinside
    obtain ⟨last, hlast, hprogress, hfinish⟩ := run_close readers hnext page.trail _ page.trailWs
    refine ⟨last, ?_, hprogress, hfinish⟩
    rw [hrun]
    refine hlast.trans ?_
    simp only [PageText.around, List.append_assoc]
    rfl

theorem run_rewritten (page : PageText) (seed : Option Str) :
    (run readers ((PageTransformer.new context).seedProjectStatus seed, []) page.bytes >>= fun state =>
      state.1.finish.map fun summary => (state.2, summary)) = page.rewritten readers context seed := by
  have hpage := run_page readers context page seed
  unfold PageText.rewritten
  cases hmembers : rewriteMembers readers context { projectStatus := seed } page.members with
  | error error =>
    rw [hmembers] at hpage
    exact (congrArg (· >>= _) hpage).trans rfl
  | ok state =>
    rw [hmembers] at hpage
    obtain ⟨last, hrun, -, hfinish⟩ := hpage
    rw [hrun]
    change last.finish.map _ = _
    rw [hfinish]
    rfl

/-! ### Chunks -/

theorem pushInto_chunks (chunks : List Str) (consumed : Nat) (state : PageTransformer × Str)
    (hsize : consumed + chunks.flatten.length ≤ maxPageBytes) :
    chunks.foldlM (pushInto readers) (consumed, state) = (run readers state chunks.flatten).map
        (consumed + chunks.flatten.length, ·) := by
  induction chunks generalizing consumed state with
  | nil => rfl
  | cons chunk chunks ih =>
    rw [List.flatten_cons, List.length_append, ← Nat.add_assoc] at *
    have hpush : pushInto readers (consumed, state) chunk = (run readers state chunk).map
          (consumed + chunk.length, ·) := by
      unfold pushInto
      rw [if_neg (by dsimp only; omega)]
      rfl
    rw [List.foldlM_cons, hpush, run_append]
    cases run readers state chunk with
    | error error => rfl
    | ok next => exact ih _ next hsize

/-- Up to its size limit, a body is read the same however it is cut into chunks. -/
theorem transform_run (t : PageTransformer) (chunks : List Str)
    (hsize : chunks.flatten.length ≤ maxPageBytes) : t.transform readers chunks =
      run readers (t, []) chunks.flatten >>= fun state =>
        state.1.finish.map fun summary => (state.2, summary) := by
  unfold transform
  rw [pushInto_chunks readers chunks 0 (t, []) (by omega)]
  cases run readers (t, []) chunks.flatten with
  | error error => rfl
  | ok state =>
    change (state.1.finish >>= fun summary => .ok (state.2, summary)) = state.1.finish.map _
    cases state.1.finish <;> rfl

/-- However a page is cut into chunks, it comes out rewritten member by member. -/
theorem transform_rewritten (page : PageText) (seed : Option Str) (chunks : List Str)
    (hchunks : chunks.flatten = page.bytes) (hsize : page.bytes.length ≤ maxPageBytes) :
    ((PageTransformer.new context).seedProjectStatus seed).transform readers chunks =
      page.rewritten readers context seed := by
  rw [transform_run readers _ chunks (by rwa [hchunks]), hchunks]
  exact run_rewritten readers page seed

theorem transform_rewritten_halves :
    quarantinedStart.transform demoReaders [quarantinedPage.bytes.take 9, quarantinedPage.bytes.drop 9] =
      quarantinedPage.rewritten demoReaders demoContext none :=
  transform_rewritten demoReaders quarantinedPage none _ (by decide +kernel) (by decide +kernel)

end Running
end Peryx.Pypi.PageTransformer
