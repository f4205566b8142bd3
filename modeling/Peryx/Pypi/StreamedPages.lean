import Peryx.Core.JsonPlaces
import Peryx.Core.JsonWriter
import Peryx.Pypi.PageTransformer

/-!
# What the transformer makes of a page

A page is an object: its members in document order, with all whitespace. Rewriting it goes
member by member and reads whole values; the transformer comes to the same from single bytes,
however the page is cut into chunks.
-/

namespace Peryx.Pypi.PageTransformer
open Json Stored

/-- An object of a `files` array, with the whitespace around it. -/
structure PageFile where
  before : Str
  text : Str
  after : Str
  nesting : Nat
  beforeWs : Ws before
  afterWs : Ws after
  isText : Text .value text nesting
  isObject : text.head? = some 0x7B

inductive PageValue where
  | string (body : Str) (h : StringBody body)
  /-- An array of objects; `space` is all there is in an empty one. -/
  | list (space : Str) (items : List PageFile) (h : Ws space)
  | other (text : Str) (nesting : Nat) (h : Text .value text nesting) (hother : text.head? ≠ some 0x22)

def joined : List Str → Str
  | [] => []
  | part :: parts => part ++ if parts.isEmpty then [] else 0x2C :: joined parts

def PageFile.bytes (file : PageFile) : Str := file.before ++ (file.text ++ file.after)

def PageValue.text : PageValue → Str
  | string body _ => quote body
  | list space items _ =>
    0x5B :: ((if items.isEmpty then space else joined (items.map PageFile.bytes)) ++ [0x5D])
  | other text _ _ _ => text

structure PageMember where
  before : Str
  key : Str
  mid : Str
  lead : Str
  value : PageValue
  after : Str
  beforeWs : Ws before
  midWs : Ws mid
  leadWs : Ws lead
  afterWs : Ws after
  keyBody : StringBody key
  /-- A `files` array lists objects. -/
  listed : key = str "files" → ∀ text nesting h hother, value = .other text nesting h hother →
    text.head? ≠ some 0x5B

def PageMember.head (member : PageMember) : Str :=
  member.before ++ (quote member.key ++ (member.mid ++ 0x3A :: member.lead))

def PageMember.around (member : PageMember) (text : Str) : Str :=
  member.head ++ (text ++ member.after)

structure PageText where
  lead : Str
  space : Str
  members : List PageMember
  trail : Str
  leadWs : Ws lead
  spaceWs : Ws space
  trailWs : Ws trail

def PageText.around (page : PageText) (parts : List Str) : Str :=
  page.lead ++ 0x7B :: ((if parts.isEmpty then page.space else joined parts) ++ 0x7D :: page.trail)

def PageText.bytes (page : PageText) : Str :=
  page.around (page.members.map fun member => member.around member.value.text)

structure StreamProgress extends PageProgress where
  metaSeen : Bool := false
  filesBeforeMeta : Bool := false

section Rewriting
variable (readers : Readers)
variable (context : StreamContext)

def servedLocally (file : File) : Option File :=
  if file.filename ∈ context.hidden ∨
      (checkFile readers.table readers.pep readers.parseUploadTime context.policy .serve context.project
        file).isOk = false then
    none
  else some (match context.yanked[file.filename]? with
    | some yanked => { file with yanked := yanked }
    | none => file)

/-- The hosted files that open a `files` array. -/
def localServed (status : Option Str) : List File :=
  if status == some (str "quarantined") then []
  else context.localFiles.filterMap (servedLocally readers context)

/-- One element of `files`: nothing is served or registered of a file that is withheld. -/
def rewriteElement (state : StreamProgress × List File) (text : Str) :
    Except TransformError (StreamProgress × List File) :=
  if maxPageFiles < state.1.filesSeen + 1 then .error .tooLarge
  else
    match (readers.fromSlice text).bind File.ofJson with
    | none => .error .parse
    | some file =>
      let kept := if withheld readers.table readers.pep readers.parseUploadTime context.toPageContext
          state.1.toPageProgress file then []
        else [rewriteFile readers context file]
      .ok ({ state.1 with
          filesSeen := state.1.filesSeen + 1
          registrations := state.1.registrations ++ kept.flatMap fun served => served.2.toList },
        state.2 ++ kept.map (·.1))

def rewriteFiles (progress : StreamProgress) (items : List PageFile) :
    Except TransformError (StreamProgress × List File) :=
  items.foldlM (fun state item =>
      rewriteElement readers context state item.text)
    (progress, localServed readers context progress.projectStatus)

/-- Any other value: `meta` and `versions` are written anew. -/
def rewriteText (progress : StreamProgress) (key text : Str) :
    Except TransformError (StreamProgress × Str) :=
  if text.head? = some 0x7B ∧ key = str "meta" then
    match parseMeta readers text with
    | .error error => .error (.simple error)
    | .ok info =>
      .ok ({ progress with
          projectStatus := info.projectStatus
          projectStatusReason := info.projectStatusReason
          metaSeen := true },
        (Json.object (Serde.presentFields (metaEntries info))).write)
  else if text.head? = some 0x5B ∧ key = str "versions" then
    match (readers.fromSlice text).bind stringsOfJson with
    | none => .error .parse
    | some versions =>
      .ok (progress,
        (Json.array ((mergedVersions (versions ++ context.localVersions)).map Json.string)).write)
  else .ok (progress, text)

def rewriteValue (progress : StreamProgress) (key : Str) :
    PageValue → Except TransformError (StreamProgress × Str)
  | .string body _ =>
    .ok (if key = str "name" then { progress with name := body } else progress, quote body)
  | .list space items h =>
    if key = str "files" then
      (rewriteFiles readers context progress items).map
        fun (progress, served) => (progress, (Json.array (served.map fileToJson)).write)
    else rewriteText readers context progress key (PageValue.list space items h).text
  | .other text _ _ _ => rewriteText readers context progress key text

/-- A page shows its `files` before its `meta` where a key says so first. -/
def seeKey (progress : StreamProgress) (key : Str) : StreamProgress :=
  { progress with
    filesBeforeMeta := progress.filesBeforeMeta || (!progress.metaSeen && key == str "files") }

def rewriteMember (progress : StreamProgress) (member : PageMember) :
    Except TransformError (StreamProgress × Str) :=
  (rewriteValue readers context (seeKey progress member.key)
    member.key member.value).map fun (progress, text) => (progress, member.around text)

def rewriteMembers (progress : StreamProgress) :
    List PageMember → Except TransformError (StreamProgress × List Str)
  | [] => .ok (progress, [])
  | member :: members => do
    let (progress, text) ← rewriteMember readers context
      progress member
    let (progress, texts) ← rewriteMembers progress members
    return (progress, text :: texts)

def summaryOf (progress : PageProgress) : PageSummary where
  registrations := progress.registrations
  name := (Str.fromUtf8 progress.name).filter fun name => name != []
  projectStatus := progress.projectStatus
  projectStatusReason := progress.projectStatusReason

def PageText.rewritten (page : PageText) (seed : Option Str) :
    Except TransformError (Str × PageSummary) := do
  let (progress, parts) ← rewriteMembers readers context
    { projectStatus := seed } page.members
  return (page.around parts, summaryOf progress.toPageProgress)

end Rewriting
/-! ### A page that says last that its project is quarantined -/

def demoReaders : Readers where
  fromSlice := readTexts
  absolutize _ url := url
  table := CaseMap.caseless
  pep := wholeVersions
  parseUploadTime _ := none

def demoContext : StreamContext where
  route := str "pypi"
  base := none
  project := str "demo"
  policy := {}
  skip := ∅
  localFiles := [Stored.demoFile]
  localVersions := []
  hidden := ∅
  yanked := ∅
  knownMetadata := ∅

def quarantined : Str := str "quarantined"

def quarantinedMeta : Json := .object [(str "project-status", .string quarantined)]

theorem quarantinedMeta_text : Text .value quarantinedMeta.write 1 := by
  refine text_write quarantinedMeta (.object _ ?_ ?_)
  · intro member hmember
    rw [List.mem_singleton.mp hmember]
    exact Str.isUtf8_str _
  · intro member hmember
    rw [List.mem_singleton.mp hmember]
    exact .string _ (Str.isUtf8_str _)

theorem quarantinedMeta_head : quarantinedMeta.write.head? ≠ some 0x22 := by decide

theorem demoFile_text : Text .value demoFileJson.write 1 := by
  have hsound : demoFileJson.Sound := by
    cases demoPage_sound.1 with
    | object members hkeys h =>
      cases h (str "files", .array [demoFileJson]) (.tail _ (.head _)) with
      | array items h => exact h _ List.mem_cons_self
  exact text_write demoFileJson hsound

theorem ws_nil : Ws [] := nofun

theorem body_plain (key : Str) (h : escape key = key) : StringBody key := h ▸ stringBody_escape key

/-- A member without whitespace. -/
def bareMember (key : Str) (value : PageValue) (hkey : StringBody key)
    (listed : key = str "files" → ∀ text nesting h hother, value = .other text nesting h hother →
      text.head? ≠ some 0x5B) : PageMember :=
  ⟨[], key, [], [], value, [], ws_nil, ws_nil, ws_nil, ws_nil, hkey, listed⟩

def listedFile : PageFile := ⟨[], demoFileJson.write, [], 1, ws_nil, ws_nil, demoFile_text, rfl⟩

def nameMember : PageMember :=
  bareMember (str "name") (.string (str "demo") (body_plain _ (by decide))) (body_plain _ (by decide)) nofun

def filesMember : PageMember :=
  bareMember (str "files") (.list [] [listedFile] ws_nil) (body_plain _ (by decide)) nofun

def metaMember : PageMember :=
  bareMember (str "meta") (.other quarantinedMeta.write 1 quarantinedMeta_text quarantinedMeta_head)
    (body_plain _ (by decide)) fun h => absurd h (by decide)

def barePage (members : List PageMember) : PageText := ⟨[], [], members, [], ws_nil, ws_nil, ws_nil⟩

def quarantinedPage : PageText := barePage [nameMember, filesMember, metaMember]

def quarantinedStart : PageTransformer := (PageTransformer.new demoContext).seedProjectStatus none

end Peryx.Pypi.PageTransformer
