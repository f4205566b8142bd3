import Peryx.Library.Urls

/-! # Artifact mirrors (peryx-upstream/src/route.rs) -/

namespace Peryx.Upstream
open Str Url

inductive ArtifactRequest where
  | stream
  | head
  | range (start stop : Nat)
  deriving Repr, DecidableEq

abbrev ParseUrl := Str → Option Absolute

structure ArtifactClient where
  mirror : Option Base
  fallback : Bool

section Mirror
variable (standard : Standard) (parse : ParseUrl)

def mirrorUrl (mirror : Base) (url : Str) : Option Absolute :=
  (parse url).bind fun original => resolve standard mirror (trimStart 0x2F original.path)

def ArtifactRequest.isSent : ArtifactRequest → Bool
  | .stream | .head => true
  | .range start stop => start ≤ stop

/-- The URLs that a request is sent to, one after the other. `stream_bytes`,
`head_file_for_range` and `fetch_range` differ in what they ask a source for only. -/
def ArtifactClient.targets (client : ArtifactClient) (answers : ArtifactRequest → Absolute → Bool)
    (request : ArtifactRequest) (url : Str) : List Absolute :=
  let sent (target : Absolute) : List Absolute := if request.isSent then [target] else []
  match client.mirror with
  | none => (parse url).elim [] sent
  | some mirror =>
    match mirrorUrl standard parse mirror url with
    | none => []
    | some target =>
      if request.isSent && answers request target then sent target
      else if !client.fallback then sent target
      else sent target ++ (parse url).elim [] sent

/-- The mirror's URL is on the mirror's host, and its path is the mirror's with the
artifact's own behind it. -/
def Confined (mirror : Base) (url : Str) : Prop :=
  ∃ original target, parse url = some original ∧ mirrorUrl standard parse mirror url = some target ∧
    Under mirror (trimStart 0x2F original.path) target

theorem trimStart_head (path : Str) : (trimStart 0x2F path).head? ≠ some 0x2F := by
  intro h
  have hne : trimStart 0x2F path ≠ [] := by
    intro hnil
    rw [hnil] at h
    cases h
  have hfirst := List.head_dropWhile_not (fun byte : UInt8 => byte == 0x2F) hne
  rw [List.head?_eq_some_head hne, Option.some.injEq] at h
  unfold trimStart at h
  rw [h] at hfirst
  exact absurd hfirst (by decide)

theorem confined_iff (mirror : Base) (url : Str) (original : Absolute) (h : parse url = some original) :
    Confined standard parse mirror url ↔ PlainReference (trimStart 0x2F original.path) := by
  rw [← resolve_under_iff standard mirror _ (trimStart_head original.path)]
  unfold Confined mirrorUrl
  constructor
  · rintro ⟨found, target, hfound, htarget, hunder⟩
    rw [h, Option.some.injEq] at hfound
    subst hfound
    rw [h, Option.bind_some] at htarget
    exact ⟨target, htarget, hunder⟩
  · rintro ⟨target, htarget, hunder⟩
    exact ⟨original, target, h, by rw [h, Option.bind_some, htarget], hunder⟩

theorem confined_parsed_iff (mirror : Base) (url : Str) (original : Absolute)
    (h : parse url = some original) (hparsed : ParsedPath original.path) :
    Confined standard parse mirror url ↔ splitScheme (trimStart 0x2F original.path) = none := by
  rw [confined_iff standard parse mirror url original h, plainReference_parsed _ hparsed]

theorem targets_mirror (mirror : Base) (answers : ArtifactRequest → Absolute → Bool)
    (request : ArtifactRequest) (url : Str) (target : Absolute)
    (h : target ∈ (ArtifactClient.mk (some mirror) false).targets standard parse answers request url) :
    mirrorUrl standard parse mirror url = some target := by
  unfold ArtifactClient.targets at h
  dsimp only at h
  cases hderived : mirrorUrl standard parse mirror url with
  | none =>
    rw [hderived] at h
    cases h
  | some derived =>
    have hsent : target ∈ (if request.isSent then [derived] else []) := by
      rw [hderived] at h
      dsimp only at h
      split at h
      · exact h
      · exact h
    split at hsent
    · rw [List.mem_singleton.mp hsent]
    · cases hsent

/-- Where an advertised URL keeps to the mirror, and that then every request does. -/
theorem artifacts_confined_iff (mirror : Base) :
    (∀ url original, parse url = some original →
      (Confined standard parse mirror url ↔ PlainReference (trimStart 0x2F original.path)) ∧
      (ParsedPath original.path →
        (Confined standard parse mirror url ↔ splitScheme (trimStart 0x2F original.path) = none))) ∧
      ∀ url original, parse url = some original → PlainReference (trimStart 0x2F original.path) →
        ∀ answers request,
          ∀ target ∈ (ArtifactClient.mk (some mirror) false).targets standard parse answers request url,
            Under mirror (trimStart 0x2F original.path) target := by
  refine ⟨fun url original h => ⟨confined_iff standard parse mirror url original h,
    confined_parsed_iff standard parse mirror url original h⟩,
    fun url original h hplain answers request target htarget => ?_⟩
  obtain ⟨found, derived, hfound, hderived, hunder⟩ :=
    (confined_iff standard parse mirror url original h).mpr hplain
  rw [h, Option.some.injEq] at hfound
  have hsame := targets_mirror standard parse mirror answers request url target htarget
  rw [hderived, Option.some.injEq] at hsame
  rw [← hsame, hfound]
  exact hunder

end Mirror

def plainStandard : Standard := ⟨fun authority => some (authority, none), fun _ _ => none⟩

/-- `https://mirror.example/simple/`. -/
def exampleMirror : Base where
  scheme := str "https"
  host := str "mirror.example"
  port := none
  directory := [str "simple"]
  hosted := by decide
  written := by
    intro segment hsegment
    rw [List.mem_singleton.mp hsegment]
    exact ⟨Str.forall_of_all (by decide), by decide⟩

def fileUrl : Str := str "https://files.example/packages/x.whl"

def nestedUrl : Str := str "https://files.example/https://other.example/x.whl"

def readExamples : ParseUrl := fun url =>
  if url = fileUrl then some ⟨str "https", str "files.example", none, str "/packages/x.whl"⟩
  else if url = nestedUrl then
    some ⟨str "https", str "files.example", none, str "/https://other.example/x.whl"⟩
  else none

theorem nested_url_leaves_mirror :
    (ArtifactClient.mk (some exampleMirror) false).targets plainStandard readExamples
        (fun _ _ => true) .stream nestedUrl =
      [⟨str "https", str "other.example", none, str "/x.whl"⟩] ∧
    ¬ Confined plainStandard readExamples exampleMirror nestedUrl := by
  refine ⟨by decide, fun ⟨original, target, _, htarget, hunder⟩ => ?_⟩
  have hother : mirrorUrl plainStandard readExamples exampleMirror nestedUrl =
      some ⟨str "https", str "other.example", none, str "/x.whl"⟩ := by decide
  rw [hother, Option.some.injEq] at htarget
  have hhost := hunder.host
  rw [← htarget] at hhost
  exact absurd hhost (by decide)

theorem file_url_keeps_to_mirror :
    Confined plainStandard readExamples exampleMirror fileUrl ∧
      (ArtifactClient.mk (some exampleMirror) false).targets plainStandard readExamples
          (fun _ _ => false) .head fileUrl =
        [⟨str "https", str "mirror.example", none, str "/simple/packages/x.whl"⟩] := by
  have hread : readExamples fileUrl =
      some ⟨str "https", str "files.example", none, str "/packages/x.whl"⟩ := by decide
  have hparsed : ParsedPath (str "/packages/x.whl") := by
    have hpath : str "/packages/x.whl" = pathText (pathTo [] (segmentsOf (str "packages/x.whl"))) := by
      decide
    rw [hpath]
    exact parsedPath_pathTo _ (not_separator_of_segment _)
  have hmain := artifacts_confined_iff plainStandard readExamples exampleMirror
  exact ⟨((hmain.1 fileUrl _ hread).2 hparsed).mpr (by decide), by decide⟩

end Peryx.Upstream
