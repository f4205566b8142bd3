import Peryx.Core.Text

/-! # Index routes and path segments (peryx-core/src/path.rs) -/

namespace Peryx.Core

inductive PathSafetyError where
  | invalidDigest (hex : Str)
  | invalidFilename (filename : Str)
  | invalidPathSegment (kind value : Str)
  | invalidEncoding (input : Str)
  | invalidRoute (route : Str)
  | reservedRoute (route : Str)
  deriving Repr, DecidableEq

def reservedRoutePrefixes : List Str :=
  ["+stats", "+status", "admin", "api-docs", "browse", "metrics", "pkg", "stats"].map str

def isUnreserved (byte : UInt8) : Bool :=
  (0x30 ≤ byte && byte ≤ 0x39) || (0x41 ≤ byte && byte ≤ 0x5A) || (0x61 ≤ byte && byte ≤ 0x7A) ||
    byte == 0x2D || byte == 0x2E || byte == 0x5F || byte == 0x7E

def validRouteSegment (segment : Str) : Bool :=
  !segment.isEmpty && segment != str "." && segment != str ".." && segment.all isUnreserved

/-- `validate_route` (`path.rs:83-99`). The first segment is tried on its own, the
others together, as the source splits them. -/
def validateRoute (route : Str) : Except PathSafetyError Unit :=
  if route.isEmpty || Str.startsWith route (str "/") || (str "/").isSuffixOf route ||
      Str.contains route (str "//") then
    .error (.invalidRoute route)
  else
    let (first, rest) := match Str.splitOnce 0x2F route with
      | some (first, rest) => (first, some rest)
      | none => (route, none)
    if reservedRoutePrefixes.contains first then .error (.reservedRoute route)
    else if !validRouteSegment first ||
        rest.any (fun rest => (Str.split 0x2F rest).any fun segment => !validRouteSegment segment) then
      .error (.invalidRoute route)
    else .ok ()

theorem validateRoute_ok (route : Str) (h : validateRoute route = .ok ()) :
    route ≠ [] ∧ ∀ byte ∈ route, byte = 0x2F ∨ isUnreserved byte = true := by
  have hsegment : ∀ segment, validRouteSegment segment = true →
      ∀ byte ∈ segment, isUnreserved byte = true := by
    intro segment hs
    simp only [validRouteSegment, Bool.and_eq_true, List.all_eq_true] at hs
    exact hs.2
  unfold validateRoute at h
  split at h
  · cases h
  · rename_i hshape
    simp only [Bool.or_eq_true, not_or] at hshape
    refine ⟨fun hnil => hshape.1.1.1 (by simp [hnil]), fun byte hbyte => ?_⟩
    cases hs : Str.splitOnce 0x2F route with
    | none =>
      simp only [hs, Option.any_none, Bool.or_false] at h
      split at h
      · cases h
      · split at h
        · cases h
        · rename_i hv
          exact Or.inr (hsegment route (by simpa using hv) byte hbyte)
    | some parts =>
      obtain ⟨first, rest⟩ := parts
      simp only [hs, Option.any_some] at h
      split at h
      · cases h
      · split at h
        · cases h
        · rename_i hv
          simp only [Bool.or_eq_true, not_or, Bool.not_eq_true', List.any_eq_true, not_exists,
            not_and] at hv
          rw [Str.splitOnce_eq_some 0x2F route first rest hs, List.mem_append,
            List.mem_cons] at hbyte
          rcases hbyte with hfirst | hslash | hrest
          · exact Or.inr (hsegment first (by simpa using hv.1) byte hfirst)
          · exact Or.inl hslash
          · rcases Str.mem_of_split 0x2F byte rest hrest with hslash | ⟨segment, hm, hb⟩
            · exact Or.inl hslash
            · exact Or.inr (hsegment segment (by simpa using hv.2 segment hm) byte hb)

def hexDigit (nibble : UInt8) : UInt8 := if nibble < 10 then 0x30 + nibble else 0x37 + nibble

def percentByte (byte : UInt8) : Str := [0x25, hexDigit (byte >>> 4), hexDigit (byte &&& 0x0F)]

/-- `push_component`: every byte but an unreserved one is escaped. -/
def encodeComponent (text : Str) : Str :=
  text.flatMap fun byte => if isUnreserved byte then [byte] else percentByte byte

def encodePath (text : Str) : Str :=
  text.flatMap fun byte => if byte == 0x2F || isUnreserved byte then [byte] else percentByte byte

def localFileUrl (route sha256 filename : Str) : Str :=
  str "/" ++ encodePath route ++ str "/files/" ++ sha256 ++ str "/" ++ encodeComponent filename

def isLocalFileUrl (route url : Str) : Bool :=
  Str.startsWith url (str "/" ++ encodePath route ++ str "/files/")

def hexNibble (byte : UInt8) : Option UInt8 :=
  if 0x30 ≤ byte ∧ byte ≤ 0x39 then some (byte - 0x30)
  else if 0x61 ≤ byte ∧ byte ≤ 0x66 then some (byte - 0x61 + 10)
  else if 0x41 ≤ byte ∧ byte ≤ 0x46 then some (byte - 0x41 + 10)
  else none

def hexByte (high low : UInt8) : Option UInt8 := do
  return (← hexNibble high) <<< 4 ||| (← hexNibble low)

def decodeBytes : List UInt8 → Option (List UInt8)
  | [] => some []
  | byte :: rest =>
    if byte = 0x25 then
      match rest with
      | high :: low :: rest => do return (← hexByte high low) :: (← decodeBytes rest)
      | _ => none
    else (decodeBytes rest).map (byte :: ·)

/-- `decode_percent`: a text without an escape is returned as it is. -/
def decodePercent (input : Str) : Except PathSafetyError Str :=
  if 0x25 ∉ input then .ok input
  else match (decodeBytes input).bind Str.fromUtf8 with
    | some decoded => .ok decoded
    | none => .error (.invalidEncoding input)

/-- `decode_path_segment` and `decode_path` are the same function. -/
def decodePathSegment (segment : Str) : Except PathSafetyError Str := decodePercent segment

def decodePath (path : Str) : Except PathSafetyError Str := decodePercent path

def isSafeSegment (value : Str) : Bool :=
  !(value.isEmpty || value == str "." || value == str ".." || List.elem 0x2F value ||
    List.elem 0x5C value || (Str.chars value).any Str.isControl)

def validateFilename (filename : Str) : Except PathSafetyError Unit :=
  if isSafeSegment filename then .ok () else .error (.invalidFilename filename)

def validatePathSegment (kind value : Str) : Except PathSafetyError Unit :=
  if isSafeSegment value then .ok () else .error (.invalidPathSegment kind value)

theorem decodePercent_plain (input : Str) (h : 0x25 ∉ input) : decodePercent input = .ok input :=
  if_pos h

theorem decodePercent_escaped (input decoded : Str) (h : 0x25 ∈ input)
    (hok : decodePercent input = .ok decoded) : decodeBytes input = some decoded := by
  unfold decodePercent at hok
  rw [if_neg (not_not_intro h)] at hok
  cases hd : decodeBytes input with
  | none =>
    rw [hd] at hok
    cases hok
  | some bytes =>
    rw [hd, Option.bind_some] at hok
    unfold Str.fromUtf8 at hok
    split at hok
    · rename_i hsome
      split at hsome
      · cases hsome
        cases hok
        rfl
      · cases hsome
    · cases hok

theorem isSafeSegment_ne_nil (value : Str) (h : isSafeSegment value = true) : value ≠ [] := by
  intro hnil
  rw [hnil] at h
  exact absurd h (by decide)

end Peryx.Core
