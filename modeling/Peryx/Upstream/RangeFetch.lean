import Peryx.Core.Utf8
import Peryx.Library.Outcome
import Peryx.Upstream.ArtifactMirror

/-!
# Byte ranges of an artifact (peryx-upstream/src/client/mod.rs, route.rs)

A range is taken from a 206 that names the range that was asked for and has as many bytes.
What a failure switches off for later requests is left out.
-/

namespace Peryx.Upstream
open Str Url

inductive UpstreamError where
  | url
  | http (status : Option Nat)
  deriving DecidableEq

inductive InvalidRange where
  | startAfterEnd (start stop : Nat)
  | lengthOverflowed
  | nonPartialSuccess
  | missingContentRange
  | unexpectedContentRange (value : Str)
  | otherContentRange (start stop : Nat) (value : Str)
  | otherLength (expected received : Nat)
  | other (message : Str)
  deriving DecidableEq

inductive RangeError where
  | upstream (error : UpstreamError)
  | unsupported
  | invalid (reason : InvalidRange)
  deriving DecidableEq

structure RangeResponse where
  status : Nat
  acceptRanges : Option Str
  contentLength : Option Str
  contentRange : Option Str
  body : Except UpstreamError Str

structure Web where
  head : Absolute → Except UpstreamError RangeResponse
  get : Absolute → Str → Except UpstreamError RangeResponse

def errorForStatus (response : RangeResponse) : Except RangeError Unit :=
  if 400 ≤ response.status ∧ response.status < 600 then
    .error (.upstream (.http (some response.status)))
  else .ok ()

def headStatusDisablesRanges (status : Nat) : Bool := [400, 403, 404, 405, 501].contains status

def validateContentRange (contentRange : Option Str) (start stop : Nat) : Except RangeError Unit :=
  match contentRange with
  | none => .error (.invalid .missingContentRange)
  | some value =>
    match stripPrefix value (str "bytes ") with
    | none => .error (.invalid (.unexpectedContentRange value))
    | some rest =>
      match splitOnce 0x2F rest with
      | none => .error (.invalid (.unexpectedContentRange value))
      | some (actual, _) =>
        match splitOnce 0x2D actual with
        | none => .error (.invalid (.unexpectedContentRange value))
        | some (actualStart, actualEnd) =>
          if parseU64 actualStart = some start ∧ parseU64 actualEnd = some stop then .ok ()
          else .error (.invalid (.otherContentRange start stop value))

def rangeHeader (start stop : Nat) : Str := str "bytes=" ++ decimal start ++ str "-" ++ decimal stop

def headFile (web : Web) (target : Option Absolute) : Except RangeError Nat :=
  match target with
  | none => .error (.upstream .url)
  | some target => do
    let response ← (web.head target).mapError .upstream
    if headStatusDisablesRanges response.status then .error .unsupported
    else
      errorForStatus response
      let accepts := response.acceptRanges.any fun value =>
        (split 0x2C value).any fun part => eqIgnoreAsciiCase (trimAscii part) (str "bytes")
      if !accepts then .error .unsupported
      else
        match response.contentLength.bind parseU64 with
        | none => .error .unsupported
        | some len => .ok len

def fetchRange (web : Web) (target : Option Absolute) (start stop : Nat) : Except RangeError Str :=
  if stop < start then .error (.invalid (.startAfterEnd start stop))
  else if 2 ^ 64 ≤ stop - start + 1 then .error (.invalid .lengthOverflowed)
  else
    match target with
    | none => .error (.upstream .url)
    | some target => do
      let response ← (web.get target (rangeHeader start stop)).mapError .upstream
      if response.status = 206 then
        validateContentRange response.contentRange start stop
        let bytes ← response.body.mapError .upstream
        if bytes.length ≠ stop - start + 1 then
          .error (.invalid (.otherLength (stop - start + 1) bytes.length))
        else .ok bytes
      else if response.status = 200 ∨ response.status = 416 then .error .unsupported
      else
        errorForStatus response
        .error (.invalid .nonPartialSuccess)

section Client
variable (standard : Standard) (parse : ParseUrl)

def ArtifactClient.ask {α : Type} (client : ArtifactClient)
    (request : Option Absolute → Except RangeError α) (url : Str) : Except RangeError α :=
  match client.mirror with
  | none => request (parse url)
  | some mirror =>
    match mirrorUrl standard parse mirror url with
    | none => .error (.upstream .url)
    | some target =>
      match request (some target) with
      | .ok answer => .ok answer
      | .error error => if !client.fallback then .error error else request (parse url)

def ArtifactClient.headFileForRange (web : Web) (client : ArtifactClient) (url : Str) :
    Except RangeError Nat :=
  client.ask standard parse (headFile web) url

def ArtifactClient.fetchRange (web : Web) (client : ArtifactClient) (url : Str) (start stop : Nat) :
    Except RangeError Str :=
  client.ask standard parse (fun target => Upstream.fetchRange web target start stop) url

end Client

def Names (value : Str) (start stop : Nat) : Prop :=
  ∃ first last total, value = str "bytes " ++ ((first ++ 0x2D :: last) ++ 0x2F :: total) ∧
    0x2D ∉ first ∧ 0x2F ∉ first ++ 0x2D :: last ∧
    parseU64 first = some start ∧ parseU64 last = some stop

/-- Whoever is asked has the file: a length is the file's, and the body of a 206 is the part
of the file that the response names. -/
structure Serves (web : Web) (file : Str) : Prop where
  head : ∀ target response len, web.head target = .ok response →
    response.contentLength.bind parseU64 = some len → len = file.length
  get : ∀ target range response value start stop bytes, web.get target range = .ok response →
    response.status = 206 → response.contentRange = some value → Names value start stop →
    response.body = .ok bytes → bytes = (file.drop start).take (stop - start + 1)

theorem validateContentRange_ok {contentRange : Option Str} {start stop : Nat}
    (h : validateContentRange contentRange start stop = .ok ()) :
    ∃ value, contentRange = some value ∧ Names value start stop := by
  unfold validateContentRange at h
  cases contentRange with
  | none => cases h
  | some value =>
    dsimp only at h
    split at h
    · cases h
    · rename_i rest hrest
      split at h
      · cases h
      · rename_i actual total hactual
        split at h
        · cases h
        · rename_i first last hsides
          split at h
          · rename_i hparsed
            have hvalue := (stripPrefix_eq_some _ _ _).mp hrest
            have hslash := splitOnce_not_mem _ _ _ _ hactual
            have hsplit := splitOnce_eq_some _ _ _ _ hsides
            rw [splitOnce_eq_some _ _ _ _ hactual, hsplit] at hvalue
            rw [hsplit] at hslash
            exact ⟨value, rfl, first, last, total, hvalue, splitOnce_not_mem _ _ _ _ hsides, hslash,
              hparsed⟩
          · cases h

theorem mapError_ok {ε ε' α : Type} {f : ε → ε'} {x : Except ε α} {a : α}
    (h : x.mapError f = .ok a) : x = .ok a := by
  cases x with
  | error e => cases h
  | ok b =>
    cases h
    rfl

theorem fetchRange_response {web : Web} {target : Option Absolute} {start stop : Nat} {bytes : Str}
    (h : Upstream.fetchRange web target start stop = .ok bytes) :
    start ≤ stop ∧ bytes.length = stop - start + 1 ∧
      ∃ host response value, web.get host (rangeHeader start stop) = .ok response ∧
        response.status = 206 ∧ response.contentRange = some value ∧ Names value start stop ∧
        response.body = .ok bytes := by
  unfold Upstream.fetchRange at h
  split at h
  · cases h
  · rename_i horder
    split at h
    · cases h
    · cases target with
      | none => cases h
      | some target =>
        dsimp only at h
        obtain ⟨response, hresponse, h⟩ := (bind_eq_ok _ _ _).mp h
        split at h
        · rename_i hstatus
          obtain ⟨_, hrange, h⟩ := (bind_eq_ok _ _ _).mp h
          obtain ⟨body, hbody, h⟩ := (bind_eq_ok _ _ _).mp h
          obtain ⟨value, hvalue, hnames⟩ := validateContentRange_ok hrange
          split at h
          · cases h
          · rename_i hlength
            cases h
            exact ⟨by omega, by omega, target, response, value, mapError_ok hresponse, hstatus, hvalue,
              hnames, mapError_ok hbody⟩
        · split at h
          · cases h
          · obtain ⟨_, _, h⟩ := (bind_eq_ok _ _ _).mp h
            cases h

section Client
variable {standard : Standard} {parse : ParseUrl} {web : Web} {client : ArtifactClient} {url : Str}

theorem ask_ok {α : Type} {request : Option Absolute → Except RangeError α} {answer : α}
    (h : client.ask standard parse request url = .ok answer) :
    ∃ target, request target = .ok answer := by
  unfold ArtifactClient.ask at h
  split at h
  · exact ⟨_, h⟩
  · split at h
    · cases h
    · rename_i target _
      cases hrequest : request (some target) with
      | ok found =>
        rw [hrequest] at h
        exact ⟨some target, hrequest.trans h⟩
      | error error =>
        rw [hrequest] at h
        dsimp only at h
        split at h
        · cases h
        · exact ⟨_, h⟩

theorem fetchRange_length {start stop : Nat} {bytes : Str}
    (h : client.fetchRange standard parse web url start stop = .ok bytes) :
    bytes.length = stop - start + 1 := by
  obtain ⟨target, htarget⟩ := ask_ok h
  exact (fetchRange_response htarget).2.1

theorem fetchRange_serves {file : Str} (hserves : Serves web file) {start stop : Nat} {bytes : Str}
    (h : client.fetchRange standard parse web url start stop = .ok bytes) :
    bytes = (file.drop start).take (stop - start + 1) := by
  obtain ⟨target, htarget⟩ := ask_ok h
  obtain ⟨_, _, host, response, value, hget, hstatus, hvalue, hnames, hbody⟩ := fetchRange_response htarget
  exact hserves.get host _ response value start stop bytes hget hstatus hvalue hnames hbody

theorem headFile_parsed {target : Option Absolute} {len : Nat} (h : headFile web target = .ok len) :
    ∃ host response, web.head host = .ok response ∧ response.contentLength.bind parseU64 = some len := by
  unfold headFile at h
  cases target with
  | none => cases h
  | some target =>
    obtain ⟨response, hresponse, h⟩ := (bind_eq_ok _ _ _).mp h
    split at h
    · cases h
    · obtain ⟨_, _, h⟩ := (bind_eq_ok _ _ _).mp h
      dsimp only at h
      split at h
      · cases h
      · split at h
        · cases h
        · rename_i found hfound
          cases h
          exact ⟨target, response, mapError_ok hresponse, hfound⟩

theorem headFileForRange_serves {file : Str} (hserves : Serves web file) {len : Nat}
    (h : client.headFileForRange standard parse web url = .ok len) : len = file.length := by
  obtain ⟨target, htarget⟩ := ask_ok h
  obtain ⟨host, response, hhead, hlength⟩ := headFile_parsed htarget
  exact hserves.head host response len hhead hlength

end Client
def readRangeHeader (range : Str) : Option (Nat × Nat) := do
  let asked ← stripPrefix range (str "bytes=")
  let (first, last) ← splitOnce 0x2D asked
  return (← parseU64 first, ← parseU64 last)

def fileServer (file : Str) : Web where
  head _ := .ok ⟨200, some (str "bytes"), some (decimal file.length), none, .ok []⟩
  get _ range :=
    match readRangeHeader range with
    | none => .ok ⟨200, none, none, none, .ok file⟩
    | some (start, stop) =>
      if start ≤ stop ∧ stop < file.length then
        .ok ⟨206, none, none,
          some (str "bytes " ++ ((decimal start ++ 0x2D :: decimal stop) ++ 0x2F :: decimal file.length)),
          .ok ((file.drop start).take (stop - start + 1))⟩
      else .ok ⟨416, none, none, none, .ok []⟩

theorem not_mem_decimal {byte : UInt8} (n : Nat) (h : byte < 0x30) : byte ∉ decimal n :=
  fun hmem => absurd ((decimal_digits n).2 byte hmem).1 (UInt8.not_le.mpr h)

theorem slash_not_mem (start stop : Nat) : (0x2F : UInt8) ∉ decimal start ++ 0x2D :: decimal stop := by
  rw [List.mem_append, List.mem_cons]
  rintro (hmem | hmem | hmem)
  · exact not_mem_decimal start (by decide) hmem
  · cases hmem
  · exact not_mem_decimal stop (by decide) hmem

theorem names_decimal {start stop total first last : Nat} (hstart : start < 2 ^ 64) (hstop : stop < 2 ^ 64)
    (h : Names (str "bytes " ++ ((decimal start ++ 0x2D :: decimal stop) ++ 0x2F :: decimal total))
      first last) : first = start ∧ last = stop := by
  obtain ⟨left, right, size, heq, hdash, hslash, hleft, hright⟩ := h
  have hno : (0x2F : UInt8) ∉ decimal start ++ 0x2D :: decimal stop := slash_not_mem start stop
  have htotal := congrArg (splitOnce 0x2F) (List.append_cancel_left heq)
  rw [splitOnce_append _ _ _ hno, splitOnce_append _ _ _ hslash, Option.some.injEq, Prod.mk.injEq] at htotal
  have hsides := congrArg (splitOnce 0x2D) htotal.1
  rw [splitOnce_append _ _ _ (not_mem_decimal start (by decide)), splitOnce_append _ _ _ hdash,
    Option.some.injEq, Prod.mk.injEq] at hsides
  rw [← hsides.1, parseU64_decimal start hstart, Option.some.injEq] at hleft
  rw [← hsides.2, parseU64_decimal stop hstop, Option.some.injEq] at hright
  exact ⟨hleft.symm, hright.symm⟩

theorem fileServer_serves (file : Str) (hlen : file.length < 2 ^ 64) : Serves (fileServer file) file where
  head target response len hresponse hparse := by
    cases hresponse
    rw [Option.bind_some, parseU64_decimal _ hlen, Option.some.injEq] at hparse
    exact hparse.symm
  get target range response value start stop bytes hresponse hstatus hvalue hnames hbody := by
    unfold fileServer at hresponse
    dsimp only at hresponse
    split at hresponse
    · cases hresponse
      cases hstatus
    · rename_i first last _
      split at hresponse
      · rename_i hfits
        cases hresponse
        cases hvalue
        cases hbody
        obtain ⟨rfl, rfl⟩ := names_decimal (by omega) (by omega) hnames
        rfl
      · cases hresponse
        cases hstatus

theorem fileServer_head (file : Str) (hlen : file.length < 2 ^ 64) (target : Absolute) :
    headFile (fileServer file) (some target) = .ok file.length := by
  have haccepts : (Option.any (fun value : Str => (split 0x2C value).any fun part =>
      eqIgnoreAsciiCase (trimAscii part) (str "bytes")) (some (str "bytes"))) = true := by decide
  have hparse := parseU64_decimal file.length hlen
  unfold headFile fileServer
  have hstatus : ¬ headStatusDisablesRanges 200 = true := by decide
  dsimp only [Except.mapError]
  rw [ok_bind]
  dsimp only [errorForStatus]
  rw [if_neg hstatus, if_neg (by decide), ok_bind, haccepts, Option.bind_some, hparse]
  rfl

theorem readRangeHeader_eq {start stop : Nat} (hstart : start < 2 ^ 64) (hstop : stop < 2 ^ 64) :
    readRangeHeader (rangeHeader start stop) = some (start, stop) := by
  have hasked : stripPrefix (rangeHeader start stop) (str "bytes=") =
      some (decimal start ++ 0x2D :: decimal stop) := by
    rw [stripPrefix_eq_some]
    unfold rangeHeader
    rw [List.append_assoc, List.append_assoc]
    rfl
  unfold readRangeHeader
  rw [hasked, Option.bind_eq_bind, Option.bind_some,
    splitOnce_append _ _ _ (not_mem_decimal start (by decide)), Option.bind_eq_bind, Option.bind_some]
  dsimp only
  rw [parseU64_decimal start hstart, parseU64_decimal stop hstop]
  rfl

theorem validateContentRange_decimal {start stop total : Nat} (hstart : start < 2 ^ 64)
    (hstop : stop < 2 ^ 64) :
    validateContentRange
      (some (str "bytes " ++ ((decimal start ++ 0x2D :: decimal stop) ++ 0x2F :: decimal total))) start stop =
        .ok () := by
  have hrest : stripPrefix (str "bytes " ++ ((decimal start ++ 0x2D :: decimal stop) ++ 0x2F :: decimal total))
      (str "bytes ") = some ((decimal start ++ 0x2D :: decimal stop) ++ 0x2F :: decimal total) :=
    (stripPrefix_eq_some _ _ _).mpr rfl
  have hno : (0x2F : UInt8) ∉ decimal start ++ 0x2D :: decimal stop := slash_not_mem start stop
  unfold validateContentRange
  dsimp only
  rw [hrest]
  dsimp only
  rw [splitOnce_append _ _ _ hno]
  dsimp only
  rw [splitOnce_append _ _ _ (not_mem_decimal start (by decide))]
  dsimp only
  rw [parseU64_decimal start hstart, parseU64_decimal stop hstop, if_pos ⟨rfl, rfl⟩]

theorem fileServer_fetch (file : Str) (hlen : file.length < 2 ^ 64) (target : Absolute) {start stop : Nat}
    (horder : start ≤ stop) (hstop : stop < file.length) :
    Upstream.fetchRange (fileServer file) (some target) start stop =
      .ok ((file.drop start).take (stop - start + 1)) := by
  have hlength : ((file.drop start).take (stop - start + 1)).length = stop - start + 1 := by
    rw [List.length_take, List.length_drop]
    omega
  have hanswer : (fileServer file).get target (rangeHeader start stop) = .ok ⟨206, none, none,
      some (str "bytes " ++ ((decimal start ++ 0x2D :: decimal stop) ++ 0x2F :: decimal file.length)),
      .ok ((file.drop start).take (stop - start + 1))⟩ := by
    unfold fileServer
    dsimp only
    rw [readRangeHeader_eq (by omega) (by omega)]
    dsimp only
    rw [if_pos ⟨horder, hstop⟩]
  unfold Upstream.fetchRange
  rw [if_neg (by omega), if_neg (by omega)]
  dsimp only
  rw [hanswer]
  dsimp only [Except.mapError]
  rw [ok_bind]
  dsimp only
  rw [if_pos rfl, validateContentRange_decimal (by omega) (by omega), ok_bind, ok_bind, hlength,
    if_neg (by simp)]

end Peryx.Upstream
