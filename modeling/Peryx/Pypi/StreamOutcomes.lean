import Peryx.Pypi.StreamRuns

/-!
# What comes of a streamed page (peryx-ecosystem-pypi/src/cache/page_stream/live.rs)

A page that is cut off is refused, and a whole one registers what its values say. The live
path sends a page on while it arrives, unless its `files` come before its `meta`.
-/

namespace Peryx.Pypi.PageTransformer
open Json Stored

section Cutting
variable (readers : Readers)

/-- Where the transformer stands in the text. -/
def place (t : PageTransformer) : Place := ⟨t.depth, t.inString, t.escaped⟩

/-- What the page has shown of the order of its keys. -/
def marks (t : PageTransformer) : Bool × Bool := (t.metaSeen, t.filesBeforeMeta)

/-- What is sent downstream leaves everything else of the transformer as it was. -/
theorem emitLocalFiles_keeps {α : Type} (read : PageTransformer → α)
    (hread : ∀ t emittedInArray, read { t with emittedInArray } = read t) (t : PageTransformer) (out : Str) :
    read (t.emitLocalFiles readers out).1 = read t := by
  have hfold : ∀ (files : List File) (t : PageTransformer) (out : Str),
      read (files.foldl (emitLocalFile readers) (t, out)).1 = read t := by
    intro files
    induction files with
    | nil => exact fun _ _ => rfl
    | cons file files ih =>
      intro t out
      rw [List.foldl_cons, ih]
      unfold emitLocalFile
      dsimp only
      split
      · rfl
      · split
        · rfl
        · split <;> exact hread t true
  unfold emitLocalFiles
  split
  · rfl
  · exact hfold _ _ _

theorem passOpening_keeps {α : Type} (read : PageTransformer → α)
    (hread : ∀ t mode arrayDepth capture emittedInArray,
      read { t with mode, arrayDepth, capture, emittedInArray } = read t)
    (t : PageTransformer) (byte : UInt8) (out : Str) : read (t.passOpening readers byte out).1 = read t := by
  unfold passOpening
  split
  · exact hread t _ _ _ _
  · split
    · exact (emitLocalFiles_keeps readers read (fun t _ => hread t _ _ _ _) _ _).trans (hread t _ _ _ _)
    · split
      · exact hread t _ _ _ _
      · rfl

theorem emitFile_keeps {α : Type} (read : PageTransformer → α)
    (hread : ∀ t filesSeen registrations emittedInArray,
      read { t with filesSeen, registrations, emittedInArray } = read t)
    {t next : PageTransformer} {out sent : Str} (h : t.emitFile readers out = .ok (next, sent)) :
    read next = read t := by
  unfold emitFile at h
  dsimp only at h
  split at h
  · cases h
  · split at h
    · cases h
    · split at h
      · cases h
        exact hread t _ _ _
      · split at h
        · cases h
          exact hread t _ _ _
        · split at h <;> cases h <;> exact hread t _ _ _

/-- A step comes to where the text comes, and shows nothing new of a page's order after its `meta`. -/
structure Follows (t : PageTransformer) (byte : UInt8) (next : PageTransformer) : Prop where
  place : ∀ place, t.place.next byte = some place → next.place = place
  marks : t.metaSeen = true → next.marks = t.marks

/-- Inside a string, an escape holds for one byte, and a quote ends the string. -/
theorem follows_inside {t last : PageTransformer} {byte : UInt8} (hstring : t.inString = true)
    (hmarks : last.marks = t.marks)
    (hplace : last.place = if t.escaped then ⟨t.depth, true, false⟩
      else if byte = 0x5C then ⟨t.depth, true, true⟩
      else if byte = 0x22 then ⟨t.depth, false, false⟩
      else ⟨t.depth, true, false⟩) : Follows t byte last := by
  refine ⟨fun next h => ?_, fun _ => hmarks⟩
  rw [hplace]
  unfold Place.next place at h
  rw [hstring] at h
  cases hescaped : t.escaped <;> simp [hescaped] at h ⊢
  · split at h
    · rename_i hslash
      rw [if_pos hslash, Option.some.inj h]
    · rename_i hslash
      rw [if_neg hslash]
      split at h
      · rename_i hquote
        rw [if_pos hquote, Option.some.inj h]
      · rename_i hquote
        rw [if_neg hquote, Option.some.inj h]
  · exact h

theorem follows_passString {t : PageTransformer} (byte : UInt8) (hstring : t.inString = true) :
    Follows t byte (t.passString byte) := by
  unfold passString
  extract_lets t₁ t₂
  have hkey : t₁.place = t.place ∧ t₁.marks = t.marks := by
    unfold t₁
    split <;> exact ⟨rfl, rfl⟩
  have hname : t₂.place = t₁.place ∧ t₂.marks = t₁.marks := by
    unfold t₂
    split <;> exact ⟨rfl, rfl⟩
  have hmarks := hname.2.trans hkey.2
  injection hname.1.trans hkey.1 with hdepth hin hescaped
  rw [hstring] at hin
  apply follows_inside hstring
  · rw [← hmarks]
    split
    · rfl
    · split
      · rfl
      · split <;> rfl
  · rw [← hescaped, ← hdepth]
    split
    · simp [place, hin]
    · rename_i hescaped
      rw [Bool.not_eq_true] at hescaped
      split
      · simp [place, hin]
      · split <;> simp [place, hin, hescaped]

theorem follows_captureString {t : PageTransformer} (byte : UInt8) (hstring : t.inString = true) :
    Follows t byte (t.captureString byte) := by
  unfold captureString
  dsimp only [captured]
  apply follows_inside hstring
  · split
    · rfl
    · split
      · rfl
      · split <;> rfl
  · split
    · simp [place, hstring]
    · rename_i hescaped
      rw [Bool.not_eq_true] at hescaped
      split
      · simp [place, hstring]
      · split <;> simp [place, hstring, hescaped]

/-- The same place, and nothing new of the order behind a `meta`. -/
def Kept (t next : PageTransformer) : Prop :=
  next.place = t.place ∧ (t.metaSeen = true → next.marks = t.marks)

/-- Outside of strings a step follows if it does with each kind of byte. -/
theorem follows_outside {t last : PageTransformer} {byte : UInt8} (hstring : t.inString = false)
    (hquote : byte = 0x22 → Kept { t with inString := true } last)
    (hopening : byte = 0x7B ∨ byte = 0x5B → Kept { t with depth := t.depth + 1 } last)
    (hclosing : byte = 0x7D ∨ byte = 0x5D → Kept { t with depth := t.depth - 1 } last)
    (hplain : byte ≠ 0x22 → ¬(byte = 0x7B ∨ byte = 0x5B) → ¬(byte = 0x7D ∨ byte = 0x5D) → Kept t last) :
    Follows t byte last := by
  constructor
  · intro next h
    unfold Place.next at h
    rw [if_neg (by rw [show t.place.inString = t.inString from rfl, hstring]; exact Bool.false_ne_true)] at h
    split at h
    · rename_i hbyte
      rw [(hquote hbyte).1, ← Option.some.inj h]
      rfl
    · rename_i hno
      split at h
      · rename_i hbyte
        rw [(hopening hbyte).1, ← Option.some.inj h]
        rfl
      · rename_i hnone
        split at h
        · rename_i hbyte
          split at h
          · cases h
          · rw [(hclosing hbyte).1, ← Option.some.inj h]
            rfl
        · rename_i hplainly
          rw [(hplain hno hnone hplainly).1, ← Option.some.inj h]
  · intro hseen
    by_cases hone : byte = 0x22
    · exact (hquote hone).2 hseen
    · by_cases htwo : byte = 0x7B ∨ byte = 0x5B
      · exact (hopening htwo).2 hseen
      · by_cases hthree : byte = 0x7D ∨ byte = 0x5D
        · exact (hclosing hthree).2 hseen
        · exact (hplain hone htwo hthree).2 hseen

theorem stepPassthrough_follows (t : PageTransformer) (byte : UInt8) (out : Str) :
    Follows t byte (t.stepPassthrough readers byte out).1 := by
  unfold stepPassthrough
  split
  · rename_i hstring
    exact follows_passString byte hstring
  · rename_i hstring
    rw [Bool.not_eq_true] at hstring
    extract_lets t₁
    have hclosed : t₁.place = t.place ∧ t₁.marks = t.marks := by
      unfold t₁
      split <;> exact ⟨rfl, rfl⟩
    clear_value t₁
    have hmarks := hclosed.2
    have hmetaSeen : t₁.metaSeen = t.metaSeen := congrArg Prod.fst hmarks
    injection hclosed.1 with hdepth hin hescaped
    apply follows_outside hstring
    · rintro rfl
      rw [if_pos rfl]
      unfold passQuote Kept
      dsimp only [place]
      rw [← hdepth, ← hescaped]
      split
      · split <;> exact ⟨rfl, fun _ => hmarks⟩
      · exact ⟨rfl, fun _ => hmarks⟩
    · intro hbyte
      rw [if_neg (by rcases hbyte with rfl | rfl <;> decide), if_pos hbyte]
      refine ⟨?_, fun _ => (passOpening_keeps readers marks (fun _ _ _ _ _ => rfl) _ _ _).trans hmarks⟩
      rw [passOpening_keeps readers place fun _ _ _ _ _ => rfl]
      simp only [place, hdepth, hin, hescaped]
    · intro hbyte
      rw [if_neg (by rcases hbyte with rfl | rfl <;> decide),
        if_neg (by rcases hbyte with rfl | rfl <;> decide), if_pos hbyte]
      refine ⟨?_, fun _ => hmarks⟩
      simp only [place, hdepth, hin, hescaped]
    · intro hquote hopening hclosing
      rw [if_neg hquote, if_neg hopening, if_neg hclosing]
      split
      · refine ⟨hclosed.1, fun hseen => ?_⟩
        rw [← hmarks]
        simp only [marks, hmetaSeen, hseen, Bool.not_true, Bool.false_and, Bool.or_false]
      · exact ⟨hclosed.1, fun _ => hmarks⟩

theorem stepMeta_follows {t : PageTransformer} {byte : UInt8} {out : Str} {last : PageTransformer × Str}
    (h : t.stepMeta readers byte out = .ok last) : Follows t byte last.1 := by
  unfold stepMeta at h
  cases hstring : t.inString with
  | true =>
    rw [if_pos hstring] at h
    cases h
    exact follows_captureString byte hstring
  | false =>
    rw [if_neg (by rw [hstring]; exact Bool.false_ne_true)] at h
    apply follows_outside hstring
    · rintro rfl
      cases h
      exact ⟨rfl, fun _ => rfl⟩
    · rintro (rfl | rfl) <;> cases h <;> exact ⟨rfl, fun _ => rfl⟩
    · rintro (rfl | rfl)
      · rw [if_neg (by decide), if_neg (by decide), if_pos rfl] at h
        dsimp only at h
        split at h
        · unfold emitMeta at h
          split at h <;> cases h
          exact ⟨rfl, fun hseen => Prod.ext (Eq.symm hseen) rfl⟩
        · cases h
          exact ⟨rfl, fun _ => rfl⟩
      · cases h
        exact ⟨rfl, fun _ => rfl⟩
    · intro hquote hopening hclosing
      rw [not_or] at hclosing
      rw [if_neg hquote, if_neg hopening, if_neg hclosing.1, if_neg hclosing.2] at h
      cases h
      exact ⟨rfl, fun _ => rfl⟩

theorem stepFiles_follows {t : PageTransformer} {byte : UInt8} {out : Str} {last : PageTransformer × Str}
    (h : t.stepFiles readers byte out = .ok last) : Follows t byte last.1 := by
  unfold stepFiles at h
  cases hstring : t.inString with
  | true =>
    rw [if_pos hstring] at h
    cases h
    exact follows_captureString byte hstring
  | false =>
    rw [if_neg (by rw [hstring]; exact Bool.false_ne_true)] at h
    apply follows_outside hstring
    · rintro rfl
      cases h
      exact ⟨rfl, fun _ => rfl⟩
    · rintro (rfl | rfl) <;> cases h <;> exact ⟨rfl, fun _ => rfl⟩
    · rintro (rfl | rfl)
      · rw [if_neg (by decide), if_neg (by decide), if_pos rfl] at h
        dsimp only at h
        split at h
        · cases hemit : ({ t with depth := t.depth - 1 }.captured 0x7D).emitFile readers out with
          | error error =>
            rw [hemit] at h
            cases h
          | ok state =>
            rw [hemit] at h
            cases h
            exact ⟨(emitFile_keeps readers place (fun _ _ _ _ => rfl) hemit).trans rfl,
              fun _ => (emitFile_keeps readers marks (fun _ _ _ _ => rfl) hemit).trans rfl⟩
        · cases h
          exact ⟨rfl, fun _ => rfl⟩
      · rw [if_neg (by decide), if_neg (by decide), if_neg (by decide), if_pos rfl] at h
        dsimp only at h
        split at h <;> cases h <;> exact ⟨rfl, fun _ => rfl⟩
    · intro hquote hopening hclosing
      rw [not_or] at hclosing
      rw [if_neg hquote, if_neg hopening, if_neg hclosing.1, if_neg hclosing.2] at h
      split at h
      · cases h
        exact ⟨rfl, fun _ => rfl⟩
      · split at h <;> cases h <;> exact ⟨rfl, fun _ => rfl⟩

theorem stepVersions_follows {t : PageTransformer} {byte : UInt8} {out : Str} {last : PageTransformer × Str}
    (h : t.stepVersions readers byte out = .ok last) : Follows t byte last.1 := by
  unfold stepVersions at h
  cases hstring : t.inString with
  | true =>
    rw [if_pos hstring] at h
    cases h
    exact follows_captureString byte hstring
  | false =>
    rw [if_neg (by rw [hstring]; exact Bool.false_ne_true)] at h
    apply follows_outside hstring
    · rintro rfl
      cases h
      exact ⟨rfl, fun _ => rfl⟩
    · rintro (rfl | rfl) <;> cases h <;> exact ⟨rfl, fun _ => rfl⟩
    · intro hclosing
      have hopening : ¬(byte = 0x7B ∨ byte = 0x5B) := by
        rcases hclosing with rfl | rfl <;> decide
      have hquote : byte ≠ 0x22 := by
        rcases hclosing with rfl | rfl <;> decide
      rw [if_neg hquote, if_neg hopening, if_pos hclosing] at h
      dsimp only at h
      split at h
      · unfold emitVersions at h
        split at h <;> cases h
        exact ⟨rfl, fun _ => rfl⟩
      · cases h
        exact ⟨rfl, fun _ => rfl⟩
    · intro hquote hopening hclosing
      rw [if_neg hquote, if_neg hopening, if_neg hclosing] at h
      cases h
      exact ⟨rfl, fun _ => rfl⟩

theorem step_follows {state next : PageTransformer × Str} {byte : UInt8}
    (h : step readers state byte = .ok next) : Follows state.1 byte next.1 := by
  unfold step at h
  split at h
  · cases h
    exact stepPassthrough_follows readers _ byte _
  · exact stepMeta_follows readers h
  · exact stepFiles_follows readers h
  · exact stepVersions_follows readers h

theorem run_marks (text : Str) {state last : PageTransformer × Str} (h : run readers state text = .ok last)
    (hseen : state.1.metaSeen = true) : last.1.marks = state.1.marks := by
  induction text generalizing state with
  | nil =>
    cases h
    rfl
  | cons byte rest ih =>
    rw [run_cons, bind_eq_ok] at h
    obtain ⟨next, hstep, hrest⟩ := h
    have hnext := (step_follows readers hstep).marks hseen
    exact (ih hrest ((congrArg Prod.fst hnext).trans hseen)).trans hnext

/-! ### Chunks, and pages that are cut off -/

theorem pushInto_ok {chunk : Str} {state next : Nat × PageTransformer × Str}
    (h : pushInto readers state chunk = .ok next) :
    run readers state.2 chunk = .ok next.2 ∧ next.1 = state.1 + chunk.length ∧ next.1 ≤ maxPageBytes := by
  unfold pushInto at h
  dsimp only at h
  split at h
  · cases h
  · rename_i hsize
    change (run readers state.2 chunk).map _ = _ at h
    cases hrun : run readers state.2 chunk with
    | error error =>
      rw [hrun] at h
      cases h
    | ok reached =>
      rw [hrun] at h
      cases h
      exact ⟨rfl, rfl, Nat.le_of_not_lt hsize⟩

theorem pushInto_run {chunks : List Str} {state last : Nat × PageTransformer × Str}
    (h : chunks.foldlM (pushInto readers) state = .ok last) :
    run readers state.2 chunks.flatten = .ok last.2 ∧
      (state.1 ≤ maxPageBytes → state.1 + chunks.flatten.length ≤ maxPageBytes) := by
  induction chunks generalizing state with
  | nil =>
    cases h
    exact ⟨rfl, id⟩
  | cons chunk chunks ih =>
    rw [List.foldlM_cons, bind_eq_ok] at h
    obtain ⟨next, hpush, hrest⟩ := h
    obtain ⟨hrun, hcount, hsize⟩ := pushInto_ok readers hpush
    obtain ⟨hlast, hwhole⟩ := ih hrest
    rw [List.flatten_cons, run_then hrun, List.length_append, ← Nat.add_assoc, ← hcount]
    exact ⟨hlast, fun _ => hwhole hsize⟩

/-- A page comes out the same however it is cut into chunks. -/
theorem transform_chunks (t : PageTransformer) (first second : List Str)
    (h : first.flatten = second.flatten) :
    (t.transform readers first).toOption = (t.transform readers second).toOption := by
  have hlarge : ∀ chunks : List Str, ¬chunks.flatten.length ≤ maxPageBytes →
      (t.transform readers chunks).toOption = none := by
    intro chunks hsize
    cases hresult : t.transform readers chunks with
    | error error => rfl
    | ok result =>
      unfold transform at hresult
      rw [bind_eq_ok] at hresult
      obtain ⟨reached, hpushed, -⟩ := hresult
      have hwhole := (pushInto_run readers hpushed).2 (Nat.zero_le _)
      rw [Nat.zero_add] at hwhole
      exact absurd hwhole hsize
  by_cases hsize : first.flatten.length ≤ maxPageBytes
  · rw [transform_run readers t first hsize, transform_run readers t second (h ▸ hsize), h]
  · rw [hlarge first hsize, hlarge second (h ▸ hsize)]

theorem transform_chunks_halves : (quarantinedStart.transform demoReaders
        [quarantinedPage.bytes.take 9, quarantinedPage.bytes.drop 9]).toOption =
      (quarantinedStart.transform demoReaders [quarantinedPage.bytes]).toOption :=
  transform_chunks demoReaders quarantinedStart _ _ (by decide +kernel)

theorem PageMember.isText (member : PageMember) :
    ∃ nesting, Text .member (member.around member.value.text) nesting := by
  obtain ⟨nesting, hvalue⟩ := member.value.isText
  refine ⟨nesting, ?_⟩
  have h := Text.member member.before member.key member.mid _ _ member.beforeWs member.keyBody member.midWs
    (Text.element member.lead _ member.after _ member.leadWs member.afterWs hvalue)
  simpa [PageMember.around, PageMember.head] using h

/-- What stands between the braces of a page. -/
def PageText.inside (page : PageText) : Str :=
  if page.members.isEmpty then page.space
  else joined (page.members.map fun member => member.around member.value.text)

/-- What the members of a page are to a reader of values. -/
def PageMember.items (member : PageMember) : List PageItem :=
  match member.value with
  | .string body _ => if member.key = str "name" then [.name body] else []
  | .list _ files _ =>
    if member.key = str "files" then
      (files.filterMap fun file => (readers.fromSlice file.text).bind File.ofJson).map .file
    else []
  | .other text _ _ _ =>
    if text.head? = some 0x7B ∧ member.key = str "meta" then
      (parseMeta readers text).toOption.toList.map .info
    else []

section Items
variable (context : StreamContext)

theorem rewriteText_items {progress : StreamProgress} {key text : Str} {last : StreamProgress × Str}
    (h : rewriteText readers context progress key text = .ok last) :
    (¬(text.head? = some 0x7B ∧ key = str "meta") → last.1 = progress) ∧
      (text.head? = some 0x7B ∧ key = str "meta" → ∃ info, parseMeta readers text = .ok info ∧
        last.1 = { progress with
          projectStatus := info.projectStatus
          projectStatusReason := info.projectStatusReason
          metaSeen := true }) := by
  unfold rewriteText at h
  split at h
  · rename_i hmeta
    split at h
    · cases h
    · rename_i info hparse
      cases h
      exact ⟨fun hno => absurd hmeta hno, fun _ => ⟨info, hparse, rfl⟩⟩
  · rename_i hmeta
    refine ⟨fun _ => ?_, fun hyes => absurd hyes hmeta⟩
    split at h
    · split at h <;> cases h
      rfl
    · cases h
      rfl

end Items

end Cutting
/-! ### Live pages -/

/-- `JSON_META_PREFLIGHT_BYTES`. -/
def jsonMetaPreflightBytes : Nat := 64 * 1024

inductive StreamError where
  | upstream
  | transform (error : TransformError)
  | simple (error : SimpleError)
  deriving DecidableEq

/-- `JsonPreflight`; a chunk that could not be read is `none`. -/
inductive JsonPreflight where
  | streaming (body : List (Option Str)) (state : Nat × PageTransformer × Str) (raw : Str)
  | complete (raw served : Str) (summary : PageSummary)

/-- How a live page ends for the client, with what it was sent. -/
inductive LiveEnd where
  | whole (sent : Str) (summary : PageSummary)
  | broken (sent : Str) (error : StreamError)
  deriving DecidableEq

section Live
variable (readers : Readers)

/-- The inner loop of `preflight_json_stream`; where it stops, with the rest of the chunk. -/
def preflightChunk (state : Nat × PageTransformer × Str) (raw : Str) :
    Str → Except TransformError ((Nat × PageTransformer × Str) × Str × Option Str)
  | [] => .ok (state, raw, none)
  | byte :: rest =>
    match pushInto readers state [byte] with
    | .error error => .error error
    | .ok next =>
      if next.2.1.metaPreflightDone || decide (jsonMetaPreflightBytes ≤ (raw ++ [byte]).length) then
        .ok (next, raw ++ [byte], some rest)
      else preflightChunk next (raw ++ [byte]) rest

def prependChunk (body : List (Option Str)) (chunk : Str) : List (Option Str) :=
  if chunk.isEmpty then body else some chunk :: body

def preflightJsonStream (state : Nat × PageTransformer × Str) (raw : Str) :
    List (Option Str) → Except StreamError JsonPreflight
  | [] =>
    match state.2.1.finish with
    | .error error => .error (.transform error)
    | .ok summary => .ok (.complete raw state.2.2 summary)
  | none :: _ => .error .upstream
  | some chunk :: body =>
    match preflightChunk readers state raw chunk with
    | .error error => .error (.transform error)
    | .ok (state, raw, none) => preflightJsonStream state raw body
    | .ok (state, raw, some rest) => .ok (.streaming (prependChunk body rest) state raw)

/-- The rest of a body, if it can be read. -/
def drain (raw : Str) : List (Option Str) → Option Str
  | [] => some raw
  | none :: _ => none
  | some chunk :: body => drain (raw ++ chunk) body

def bufferWholePage (body : List (Option Str)) (raw : Str) (context : StreamContext) :
    Except StreamError (Str × Str × PageSummary) :=
  match drain raw body with
  | none => .error .upstream
  | some raw =>
    match parseDetail (readers.fromSlice raw) with
    | .error error => .error (.simple error)
    | .ok detail =>
      match ((new context).seedProjectStatus detail.info.projectStatus).transform readers [raw] with
      | .error error => .error (.transform error)
      | .ok (served, summary) => .ok (raw, served, summary)

def liveStream (state : Nat × PageTransformer × Str) : List (Option Str) → LiveEnd
  | [] =>
    match state.2.1.finish with
    | .error error => .broken state.2.2 (.transform error)
    | .ok summary => .whole state.2.2 summary
  | none :: _ => .broken state.2.2 .upstream
  | some chunk :: body =>
    match pushInto readers state chunk with
    | .error error => .broken state.2.2 (.transform error)
    | .ok state => liveStream state body

/-- `FreshJsonStream::stream`, as far as the client sees it. -/
def stream (context : StreamContext) (body : List (Option Str)) : Except StreamError LiveEnd :=
  match preflightJsonStream readers (0, new context, []) [] body with
  | .error error => .error error
  | .ok (.complete _ served summary) => .ok (.whole served summary)
  | .ok (.streaming body state raw) =>
    if state.2.1.filesPrecedeMeta then
      match bufferWholePage readers body raw context with
      | .error error => .error error
      | .ok (_, served, summary) => .ok (.whole served summary)
    else .ok (liveStream readers state body)

/-! ### The bytes of a live page -/

/-- Where the preflight stops in a chunk, and what is known there. -/
theorem preflightChunk_run (chunk : Str) {state next : Nat × PageTransformer × Str} {raw read : Str}
    {left : Option Str} (hshort : raw.length < jsonMetaPreflightBytes)
    (h : preflightChunk readers state raw chunk = .ok (next, read, left)) :
    ∃ front, chunk = front ++ left.getD [] ∧ read = raw ++ front ∧
      run readers state.2 front = .ok next.2 ∧
      (left = none → read.length < jsonMetaPreflightBytes ∧
        (state.2.1.metaPreflightDone = false → next.2.1.metaPreflightDone = false)) ∧
      (left ≠ none → next.2.1.metaPreflightDone = true ∨ read.length = jsonMetaPreflightBytes) := by
  induction chunk generalizing state raw with
  | nil =>
    cases h
    exact ⟨[], rfl, (List.append_nil _).symm, rfl, fun _ => ⟨hshort, id⟩, fun h => absurd rfl h⟩
  | cons byte rest ih =>
    unfold preflightChunk at h
    cases hpush : pushInto readers state [byte] with
    | error error =>
      rw [hpush] at h
      cases h
    | ok pushed =>
      rw [hpush] at h
      dsimp only at h
      have hrun := (pushInto_ok readers hpush).1
      split at h
      · rename_i hstop
        cases h
        refine ⟨[byte], rfl, rfl, hrun, nofun, fun _ => ?_⟩
        rw [Bool.or_eq_true, decide_eq_true_eq] at hstop
        refine hstop.imp id fun hlong => ?_
        rw [List.length_append, List.length_singleton] at hlong ⊢
        omega
      · rename_i hgo
        rw [Bool.or_eq_true, decide_eq_true_eq, not_or, Bool.not_eq_true] at hgo
        obtain ⟨front, hchunk, hread, hfront, hnone, hsome⟩ := ih (by omega) h
        refine ⟨byte :: front, by rw [hchunk]; rfl, by rw [hread, List.append_assoc]; rfl, ?_, ?_, hsome⟩
        · rw [← List.singleton_append, run_then hrun]
          exact hfront
        · exact fun hleft => ⟨(hnone hleft).1, fun _ => (hnone hleft).2 hgo.1⟩

/-- What the preflight leaves of a body that can be read. -/
theorem preflight_run (chunks : List Str) {state : Nat × PageTransformer × Str} {raw : Str}
    {result : JsonPreflight} (hshort : raw.length < jsonMetaPreflightBytes)
    (hearly : state.2.1.metaPreflightDone = false)
    (h : preflightJsonStream readers state raw (chunks.map some) = .ok result) : match result with
    | .complete whole served summary => whole = raw ++ chunks.flatten ∧ ∃ t,
      run readers state.2 chunks.flatten = .ok (t, served) ∧ t.metaPreflightDone = false ∧
        t.finish = .ok summary
    | .streaming body next whole => ∃ (front : Str) (rest : List Str), body = rest.map some ∧
      chunks.flatten = front ++ rest.flatten ∧ whole = raw ++ front ∧
      run readers state.2 front = .ok next.2 ∧
      (next.2.1.metaPreflightDone = true ∨ whole.length = jsonMetaPreflightBytes) := by
  induction chunks generalizing state raw with
  | nil =>
    unfold preflightJsonStream at h
    rw [List.map_nil] at h
    dsimp only at h
    cases hfinish : state.2.1.finish with
    | error error =>
      rw [hfinish] at h
      cases h
    | ok summary =>
      rw [hfinish] at h
      cases h
      exact ⟨(List.append_nil _).symm, _, rfl, hearly, hfinish⟩
  | cons chunk chunks ih =>
    rw [List.map_cons] at h
    unfold preflightJsonStream at h
    cases hchunk : preflightChunk readers state raw chunk with
    | error error =>
      rw [hchunk] at h
      cases h
    | ok stopped =>
      obtain ⟨next, read, left⟩ := stopped
      rw [hchunk] at h
      obtain ⟨front, hfront, hread, hrun, hnone, hsome⟩ := preflightChunk_run readers chunk hshort hchunk
      cases left with
      | none =>
        rw [Option.getD_none, List.append_nil] at hfront
        subst hfront
        have hrest := ih (hnone rfl).1 ((hnone rfl).2 hearly) h
        cases result with
        | complete whole served summary =>
          obtain ⟨hwhole, t, hlast, hend⟩ := hrest
          refine ⟨by rw [hwhole, hread, List.append_assoc]; rfl, t, ?_, hend⟩
          rw [List.flatten_cons, run_then hrun]
          exact hlast
        | streaming body last whole =>
          obtain ⟨later, rest, hbody, hflat, hwhole, hlast, hend⟩ := hrest
          refine ⟨chunk ++ later, rest, hbody, by rw [List.flatten_cons, hflat, List.append_assoc],
            by rw [hwhole, hread, List.append_assoc], ?_, hend⟩
          rw [run_then hrun]
          exact hlast
      | some rest =>
        cases h
        refine ⟨front, (if rest.isEmpty then chunks else rest :: chunks), ?_, ?_, hread, hrun,
          hsome (Option.some_ne_none _)⟩
        · unfold prependChunk
          split <;> rfl
        · rw [List.flatten_cons, hfront, Option.getD_some, List.append_assoc]
          congr 1
          split
          · rename_i hempty
            rw [List.isEmpty_iff.mp hempty]
            rfl
          · rfl

theorem drain_chunks (chunks : List Str) (raw : Str) :
    drain raw (chunks.map some) = some (raw ++ chunks.flatten) := by
  induction chunks generalizing raw with
  | nil => rw [List.flatten_nil, List.append_nil]; rfl
  | cons chunk chunks ih =>
    rw [List.flatten_cons, ← List.append_assoc]
    exact ih _

theorem liveStream_run (chunks : List Str) {state : Nat × PageTransformer × Str} {sent : Str}
    {summary : PageSummary} (h : liveStream readers state (chunks.map some) = .whole sent summary) :
    ∃ t, run readers state.2 chunks.flatten = .ok (t, sent) ∧ t.finish = .ok summary := by
  induction chunks generalizing state with
  | nil =>
    rw [List.map_nil] at h
    unfold liveStream at h
    cases hfinish : state.2.1.finish with
    | error error =>
      rw [hfinish] at h
      cases h
    | ok finished =>
      rw [hfinish] at h
      cases h
      exact ⟨_, rfl, hfinish⟩
  | cons chunk chunks ih =>
    rw [List.map_cons] at h
    unfold liveStream at h
    cases hpush : pushInto readers state chunk with
    | error error =>
      rw [hpush] at h
      cases h
    | ok next =>
      rw [hpush] at h
      rw [List.flatten_cons, run_then (pushInto_ok readers hpush).1]
      exact ih h

/-! ### Quarantined projects -/

/-- Wherever the page gives a `meta`, it says that the project is quarantined. -/
def PageMember.SaysQuarantined (member : PageMember) : Prop :=
  member.key = str "meta" → ∀ info, parseMeta readers member.value.text = .ok info →
    info.projectStatus = some quarantined

/-- A `files` array that lists nothing. -/
def PageMember.Withheld (member : PageMember) (text : Str) : Prop :=
  member.key = str "files" → ∀ space items h, member.value = .list space items h →
    text = member.around (str "[]")

section Members
variable {context : StreamContext}

theorem rewriteFiles_quarantined {items : List PageFile} {progress : StreamProgress}
    {last : StreamProgress × List File} (hstatus : progress.projectStatus = some quarantined)
    (h : rewriteFiles readers context progress items = .ok last) :
    last.2 = [] ∧ last.1.registrations = progress.registrations := by
  have hlocal : localServed readers context progress.projectStatus = [] := by
    rw [hstatus]
    rfl
  have hfold : ∀ (items : List PageFile) (state : StreamProgress × List File),
      state.1.projectStatus = some quarantined → state.2 = [] →
      items.foldlM (fun state item => rewriteElement readers context state item.text) state = .ok last →
      last.2 = [] ∧ last.1.registrations = state.1.registrations := by
    intro items
    induction items with
    | nil =>
      intro state _ hserved h
      cases h
      exact ⟨hserved, rfl⟩
    | cons item items ih =>
      intro state hstatus hserved h
      rw [List.foldlM_cons, bind_eq_ok] at h
      obtain ⟨next, helement, hrest⟩ := h
      have hnext : next.1.projectStatus = state.1.projectStatus ∧ next.2 = state.2 ∧
          next.1.registrations = state.1.registrations := by
        unfold rewriteElement at helement
        split at helement
        · cases helement
        · split at helement
          · cases helement
          · cases helement
            simp [withheld, hstatus, quarantined]
      obtain ⟨hlast, hsame⟩ := ih next (hnext.1.trans hstatus) (hnext.2.1.trans hserved) hrest
      exact ⟨hlast, hsame.trans hnext.2.2⟩
  unfold rewriteFiles at h
  rw [hlocal] at h
  exact hfold items _ hstatus rfl h

/-- What a member leaves of the progress: its key is seen, a `meta` gives the status. -/
theorem rewriteMember_kept {member : PageMember} {progress : StreamProgress} {last : StreamProgress × Str}
    (hmarked : member.SaysQuarantined readers) (h : rewriteMember readers context progress member = .ok last) :
    last.1.filesBeforeMeta = (seeKey progress member.key).filesBeforeMeta ∧
      (last.1.projectStatus = some quarantined ∨
        last.1.projectStatus = progress.projectStatus ∧ last.1.metaSeen = progress.metaSeen) ∧
      ((member.key = str "files" → progress.projectStatus = some quarantined) →
        last.1.registrations = progress.registrations ∧ member.Withheld last.2) := by
  unfold rewriteMember at h
  cases hvalue : rewriteValue readers context (seeKey progress member.key) member.key member.value with
  | error error =>
    rw [hvalue] at h
    cases h
  | ok state =>
    rw [hvalue] at h
    cases h
    have htext : ∀ text, text = member.value.text →
        rewriteText readers context (seeKey progress member.key) member.key text = .ok state →
        state.1.filesBeforeMeta = (seeKey progress member.key).filesBeforeMeta ∧
          (state.1.projectStatus = some quarantined ∨
            state.1.projectStatus = progress.projectStatus ∧ state.1.metaSeen = progress.metaSeen) ∧
          state.1.registrations = progress.registrations := by
      intro text htext hrewrite
      obtain ⟨hkept, hinfo⟩ := rewriteText_items readers context hrewrite
      by_cases hmeta : text.head? = some 0x7B ∧ member.key = str "meta"
      · obtain ⟨info, hparse, hprogress⟩ := hinfo hmeta
        rw [hprogress]
        exact ⟨rfl, .inl (hmarked hmeta.2 info (htext ▸ hparse)), rfl⟩
      · rw [hkept hmeta]
        exact ⟨rfl, .inr ⟨rfl, rfl⟩, rfl⟩
    cases hkind : member.value with
    | string body hbody =>
      rw [hkind] at hvalue
      cases hvalue
      refine ⟨?_, .inr ?_, fun _ => ⟨?_, fun _ space items h heq => by rw [hkind] at heq; cases heq⟩⟩
      · dsimp only
        split <;> rfl
      · dsimp only
        split <;> exact ⟨rfl, rfl⟩
      · dsimp only
        split <;> rfl
    | list space items hspace =>
      rw [hkind] at hvalue htext
      dsimp only [rewriteValue] at hvalue
      by_cases hkey : member.key = str "files"
      · rw [if_pos hkey] at hvalue
        cases hfiles : rewriteFiles readers context (seeKey progress member.key) items with
        | error error =>
          rw [hfiles] at hvalue
          cases hvalue
        | ok served =>
          rw [hfiles] at hvalue
          cases hvalue
          obtain ⟨filesSeen, registrations, hkept⟩ := rewriteFiles_kept readers hfiles
          refine ⟨by rw [hkept], .inr (by rw [hkept]; exact ⟨rfl, rfl⟩), fun hstatus => ?_⟩
          have hquarantined : (seeKey progress member.key).projectStatus = some quarantined := hstatus hkey
          obtain ⟨hempty, hregistered⟩ := rewriteFiles_quarantined readers hquarantined hfiles
          refine ⟨hregistered, fun _ _ _ _ _ => ?_⟩
          dsimp only
          rw [hempty]
          rfl
      · rw [if_neg hkey] at hvalue
        obtain ⟨hmarks, hstatus, hregistered⟩ := htext _ rfl hvalue
        exact ⟨hmarks, hstatus, fun _ => ⟨hregistered, fun hfiles => absurd hfiles hkey⟩⟩
    | other text nesting hbody hother =>
      rw [hkind] at hvalue htext
      obtain ⟨hmarks, hstatus, hregistered⟩ := htext _ rfl hvalue
      exact ⟨hmarks, hstatus, fun _ =>
        ⟨hregistered, fun _ space items h heq => by rw [hkind] at heq; cases heq⟩⟩

theorem rewriteMembers_marks (members : List PageMember) {progress : StreamProgress}
    {last : StreamProgress × List Str} (hmarked : ∀ member ∈ members, member.SaysQuarantined readers)
    (h : rewriteMembers readers context progress members = .ok last)
    (hlast : last.1.filesBeforeMeta = false) : progress.filesBeforeMeta = false := by
  induction members generalizing progress last with
  | nil =>
    cases h
    exact hlast
  | cons member members ih =>
    obtain ⟨next, rest, hmember, hmembers, rfl⟩ := rewriteMembers_ok readers h
    have hnext := ih (fun member h => hmarked member (List.mem_cons_of_mem _ h)) hmembers hlast
    rw [(rewriteMember_kept readers (hmarked member List.mem_cons_self) hmember).1] at hnext
    exact (Bool.or_eq_false_iff.mp hnext).1

/-- A page that is known to be quarantined where its files stand lists and registers none. -/
theorem rewriteMembers_quarantined (members : List PageMember) {progress : StreamProgress}
    {last : StreamProgress × List Str} (hmarked : ∀ member ∈ members, member.SaysQuarantined readers)
    (hknown : progress.projectStatus = some quarantined ∨
      progress.metaSeen = false ∧ last.1.filesBeforeMeta = false)
    (h : rewriteMembers readers context progress members = .ok last) :
    last.1.registrations = progress.registrations ∧
      List.Forall₂ (fun member text => member.Withheld text) members last.2 := by
  induction members generalizing progress last with
  | nil =>
    cases h
    exact ⟨rfl, .nil⟩
  | cons member members ih =>
    obtain ⟨next, rest, hmember, hmembers, rfl⟩ := rewriteMembers_ok readers h
    have hlater := fun member h => hmarked member (List.mem_cons_of_mem _ h)
    obtain ⟨hmarks, hstatus, hkept⟩ := rewriteMember_kept readers (hmarked member List.mem_cons_self) hmember
    have hfiles : member.key = str "files" → progress.projectStatus = some quarantined := by
      intro hkey
      refine hknown.elim id fun ⟨hmeta, hlast⟩ => ?_
      have hnext := rewriteMembers_marks readers members hlater hmembers hlast
      rw [hmarks, seeKey, hmeta, hkey] at hnext
      simp at hnext
    obtain ⟨hregistered, hwithheld⟩ := hkept hfiles
    have hnext : next.1.projectStatus = some quarantined ∨
        next.1.metaSeen = false ∧ rest.1.filesBeforeMeta = false := by
      rcases hstatus with hstatus | ⟨hstatus, hmeta⟩
      · exact .inl hstatus
      · exact hknown.imp hstatus.trans (And.imp_left hmeta.trans)
    obtain ⟨hsame, hall⟩ := ih hlater hnext hmembers
    exact ⟨hsame.trans hregistered, .cons hwithheld hall⟩

theorem rewritten_quarantined {page : PageText} {seed : Option Str}
    (hmarked : ∀ member ∈ page.members, member.SaysQuarantined readers)
    {t : PageTransformer} {sent : Str} {summary : PageSummary}
    (hrun : run readers ((PageTransformer.new context).seedProjectStatus seed, []) page.bytes = .ok (t, sent))
    (hfinish : t.finish = .ok summary) (hknown : seed = some quarantined ∨ t.filesBeforeMeta = false) :
    summary.registrations = [] ∧ ∃ parts, sent = page.around parts ∧
      List.Forall₂ (fun member text => member.Withheld text) page.members parts := by
  have hpage := run_page readers context page seed
  cases hmembers : rewriteMembers readers context { projectStatus := seed } page.members with
  | error error =>
    rw [hmembers, hrun] at hpage
    cases hpage
  | ok state =>
    rw [hmembers] at hpage
    obtain ⟨last, hlast, hprogress, hsummary⟩ := hpage
    rw [hrun] at hlast
    cases hlast
    rw [hfinish] at hsummary
    cases hsummary
    have hmarks : state.1.filesBeforeMeta = t.filesBeforeMeta := by
      rw [← hprogress]
      rfl
    obtain ⟨hregistered, hall⟩ := rewriteMembers_quarantined readers page.members hmarked
      (hknown.imp id fun h => ⟨rfl, hmarks.trans h⟩) hmembers
    exact ⟨hregistered, state.2, rfl, hall⟩

/-- A quarantined project's page lists and registers no file, in whatever chunks it comes and wherever
its `meta` stands, if its order shows before the preflight gives up. -/
theorem stream_quarantined (page : PageText) (chunks : List Str) (hchunks : chunks.flatten = page.bytes)
    (hmarked : ∀ member ∈ page.members, member.SaysQuarantined readers)
    (hparse : ∀ detail, parseDetail (readers.fromSlice page.bytes) = .ok detail →
      detail.info.projectStatus = some quarantined)
    (hshown : ∀ state, run readers (new context, []) (page.bytes.take jsonMetaPreflightBytes) = .ok state →
      state.1.metaPreflightDone = true ∨ page.bytes.length < jsonMetaPreflightBytes)
    {sent : Str} {summary : PageSummary}
    (h : stream readers context (chunks.map some) = .ok (.whole sent summary)) :
    summary.registrations = [] ∧ ∃ parts, sent = page.around parts ∧
      List.Forall₂ (fun member text => member.Withheld text) page.members parts := by
  have hnew : (new context).seedProjectStatus none = new context := rfl
  unfold stream at h
  cases hpreflight : preflightJsonStream readers (0, new context, []) [] (chunks.map some) with
  | error error =>
    rw [hpreflight] at h
    cases h
  | ok result =>
    rw [hpreflight] at h
    have hresult := preflight_run readers chunks (by decide) rfl hpreflight
    cases result with
    | complete raw served finished =>
      cases h
      obtain ⟨-, t, hrun, hdone, hfinish⟩ := hresult
      rw [hchunks, ← hnew] at hrun
      exact rewritten_quarantined readers hmarked hrun hfinish (.inr (Bool.or_eq_false_iff.mp hdone).2)
    | streaming body state raw =>
      obtain ⟨front, rest, rfl, hflat, hraw, hfront, hstop⟩ := hresult
      rw [List.nil_append] at hraw
      subst hraw
      dsimp only at h
      split at h
      · unfold bufferWholePage at h
        rw [drain_chunks, ← hflat, hchunks] at h
        dsimp only at h
        cases hdetail : parseDetail (readers.fromSlice page.bytes) with
        | error error =>
          rw [hdetail] at h
          cases h
        | ok detail =>
          rw [hdetail] at h
          dsimp only at h
          cases htransform : ((new context).seedProjectStatus detail.info.projectStatus).transform readers
              [page.bytes] with
          | error error =>
            rw [htransform] at h
            cases h
          | ok whole =>
            rw [htransform] at h
            cases h
            unfold transform at htransform
            rw [bind_eq_ok] at htransform
            obtain ⟨⟨consumed, t, out⟩, hpushed, hfinish⟩ := htransform
            rw [bind_eq_ok] at hfinish
            obtain ⟨finished, hfinish, hwhole⟩ := hfinish
            cases hwhole
            have hrun := (pushInto_run readers hpushed).1
            rw [List.flatten_singleton] at hrun
            exact rewritten_quarantined readers hmarked hrun hfinish (.inl (hparse detail hdetail))
      · rename_i hfiles
        rw [Bool.not_eq_true] at hfiles
        obtain ⟨t, hrest, hfinish⟩ := liveStream_run readers rest (Except.ok.inj h)
        have hdone : state.2.1.metaPreflightDone = true := by
          refine hstop.elim id fun hlength => ?_
          have htake : page.bytes.take jsonMetaPreflightBytes = raw := by
            rw [← hchunks, hflat, ← hlength, List.take_left]
          rcases hshown state.2 (by rw [htake]; exact hfront) with hdone | hshort
          · exact hdone
          · rw [← hchunks, hflat, List.length_append, hlength] at hshort
            omega
        have hseen : state.2.1.metaSeen = true := by
          unfold metaPreflightDone at hdone
          rw [show state.2.1.filesBeforeMeta = false from hfiles, Bool.or_false] at hdone
          exact hdone
        have hmarks := run_marks readers rest.flatten hrest hseen
        have hrun := (run_then hfront rest.flatten).trans hrest
        rw [← hflat, hchunks, ← hnew] at hrun
        exact rewritten_quarantined readers hmarked hrun hfinish
          (.inr ((congrArg Prod.snd hmarks).trans hfiles))

/-- The page as it is sent: its `files` emptied, its `meta` written anew. -/
def emptiedPage : Str :=
  str "\x7b\"name\":\"demo\",\"files\":[]," ++
    str "\"meta\":\x7b\"api-version\":\"1.0\",\"project-status\":\"quarantined\"\x7d\x7d"

theorem quarantinedPage_marked : ∀ member ∈ quarantinedPage.members, member.SaysQuarantined demoReaders := by
  have hmeta : (parseMeta demoReaders metaMember.value.text).toOption.map (·.projectStatus) =
      some (some quarantined) := by decide +kernel
  have hmarked : metaMember.SaysQuarantined demoReaders := by
    intro _ info hinfo
    rw [hinfo] at hmeta
    exact Option.some.inj hmeta
  intro member hmember
  rcases hmember with _ | ⟨_, _ | ⟨_, _ | ⟨_, hnone⟩⟩⟩
  · exact fun h => absurd h (by decide)
  · exact fun h => absurd h (by decide)
  · exact hmarked
  · cases hnone

theorem stream_quarantined_last : stream demoReaders demoContext [some quarantinedPage.bytes] =
      .ok (.whole emptiedPage ⟨[], some (str "demo"), some quarantined, none⟩) ∧
    ∃ parts, emptiedPage = quarantinedPage.around parts ∧
      List.Forall₂ (fun member text => member.Withheld text) quarantinedPage.members parts := by
  have hstream : stream demoReaders demoContext [some quarantinedPage.bytes] =
      .ok (.whole emptiedPage ⟨[], some (str "demo"), some quarantined, none⟩) := by decide +kernel
  have hparse : (parseDetail (demoReaders.fromSlice quarantinedPage.bytes)).toOption.map
      (·.info.projectStatus) = some (some quarantined) := by decide +kernel
  refine ⟨hstream, (stream_quarantined demoReaders quarantinedPage [quarantinedPage.bytes] (by decide +kernel)
    quarantinedPage_marked (fun detail hdetail => ?_) (fun _ _ => .inr (by decide +kernel)) hstream).2⟩
  rw [hdetail] at hparse
  exact Option.some.inj hparse

end Members

end Live
end Peryx.Pypi.PageTransformer
