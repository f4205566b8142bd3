import Peryx.Pypi.CanonicalPages
import Peryx.Pypi.Ingest
import Peryx.Pypi.Resolve

/-!
# The streaming page transformer (peryx-ecosystem-pypi/src/stream/)

An upstream page is rewritten byte by byte while it arrives: the elements of `files`, the
`meta` and the `versions` are captured and written anew, every other byte is passed on.
-/

namespace Peryx.Pypi
open Json Stored

/-- `MAX_PAGE_BYTES`. -/
def maxPageBytes : Nat := 64 * 1024 * 1024

/-- `MAX_KEY_BYTES`. -/
def maxKeyBytes : Nat := (str "versions").length

/-- `u8::is_ascii_whitespace`. -/
def isAsciiWhitespace (byte : UInt8) : Bool :=
  byte == 0x20 || byte == 0x09 || byte == 0x0A || byte == 0x0C || byte == 0x0D

structure StreamContext extends PageContext where
  localFiles : List File
  localVersions : List Str
  hidden : Finset Str
  yanked : Table Str Yanked
  knownMetadata : Table Str Str

section Context
variable (yankRecord : Str → Option (Str × Option Str))

/-- One override of `page_context`. -/
def addOverride (context : StreamContext) (row : Str × Str) : StreamContext :=
  if hiddenOverride row.2 then
    { context with skip := insert row.1 context.skip, hidden := insert row.1 context.hidden }
  else
    match yankedOverride yankRecord row.2 with
    | some marker => { context with yanked := context.yanked.insert row.1 marker }
    | none => context

def pageContext (route project : Str) (policy : Policy) (localFiles : List File)
    (localVersions : List Str) (overrides : Table Str Str) : StreamContext :=
  overrides.toList.foldl (addOverride yankRecord)
    { route, project, policy, localFiles, localVersions
      base := none
      skip := (localFiles.map (·.filename)).toFinset
      hidden := ∅
      yanked := ∅
      knownMetadata := ∅ }

end Context

structure PageSummary where
  registrations : List Registration
  name : Option Str
  projectStatus : Option Str
  projectStatusReason : Option Str
  deriving DecidableEq

namespace PageTransformer

inductive TransformError where
  | parse
  | simple (error : SimpleError)
  | truncated
  | trailing
  | tooLarge
  deriving DecidableEq

inductive Mode where
  | passthrough
  | info
  | files
  | versions
  deriving DecidableEq

end PageTransformer

structure PageTransformer where
  context : StreamContext
  mode : PageTransformer.Mode := .passthrough
  depth : Nat := 0
  inString : Bool := false
  escaped : Bool := false
  key : Str := List.replicate maxKeyBytes 0
  keyLen : Nat := 0
  capturingKey : Bool := false
  expectNameValue : Bool := false
  capturingName : Bool := false
  name : Str := []
  metaSeen : Bool := false
  projectStatus : Option Str := none
  projectStatusReason : Option Str := none
  filesBeforeMeta : Bool := false
  closed : Bool := false
  trailing : Bool := false
  capture : Str := []
  arrayDepth : Nat := 0
  emittedInArray : Bool := false
  registrations : List Registration := []
  filesSeen : Nat := 0

/-- What the transformer calls outside of the crate. -/
structure Readers where
  fromSlice : Str → Option Json
  absolutize : Str → Str → Str
  table : CaseMap
  pep : Pep440
  parseUploadTime : Str → Option Int

section Transformer
variable (readers : Readers)

/-- The file under the marker of an override. -/
def markYanked (context : StreamContext) (file : File) : File :=
  match context.yanked[file.filename]? with
  | some yanked => { file with yanked := yanked }
  | none => file

/-- A file as it is served, and what it registers; `emit_file` behind its refusals. -/
def rewriteFile (context : StreamContext) (file : File) : File × Option Registration :=
  let file := markYanked context file
  if Core.isLocalFileUrl context.route file.url then ({ file with gpgSig := none }, none)
  else
    let file := resolveUrl readers.absolutize context.base file
    match file.sha256 with
    | none => (file.clearMetadata, none)
    | some sha256 =>
      let sibling := if supportsMetadataSibling file.filename then
          (claimedMetadata file).map fun digest => (metadataSibling file.url, digest)
        else none
      let file := if sibling.isNone then file.clearMetadata else file
      let registration : Registration :=
        { filename := file.filename, sha256, url := file.url, size := file.size, metadata := sibling }
      let file := if file.metadata.isAbsent then
          match context.knownMetadata[sha256]? with
          | some known => file.setMetadata (.hashes ((∅ : Hashes).insert (str "sha256") known))
          | none => file
        else file
      ({ file with
          url := Core.localFileUrl context.route sha256 file.filename
          gpgSig := none }, some registration)

namespace PageTransformer

def projectIsQuarantined (t : PageTransformer) : Bool :=
  t.projectStatus == some (str "quarantined")

def writeFile (t : PageTransformer) (file : File) (out : Str) : PageTransformer × Str :=
  ({ t with emittedInArray := true },
    (if t.emittedInArray then out ++ [0x2C] else out) ++ (fileToJson file).write)

/-- `check_file` of a file that is served. -/
def servable (t : PageTransformer) (file : File) : Bool :=
  (checkFile readers.table readers.pep readers.parseUploadTime t.context.policy .serve t.context.project
    file).isOk

/-- One turn of the loop of `emit_local_files`. -/
def emitLocalFile (state : PageTransformer × Str) (file : File) : PageTransformer × Str :=
  let (t, out) := state
  if file.filename ∈ t.context.hidden then (t, out)
  else if !t.servable readers file then (t, out)
  else
    match t.context.yanked[file.filename]? with
    | some yanked => t.writeFile { file with yanked := yanked } out
    | none => t.writeFile file out

def emitLocalFiles (t : PageTransformer) (out : Str) : PageTransformer × Str :=
  if t.projectIsQuarantined then (t, out)
  else t.context.localFiles.foldl (emitLocalFile readers) (t, out)

def emitFile (t : PageTransformer) (out : Str) : Except TransformError (PageTransformer × Str) :=
  let t := { t with filesSeen := t.filesSeen + 1 }
  if maxPageFiles < t.filesSeen then .error .tooLarge
  else
    match (readers.fromSlice t.capture).bind File.ofJson with
    | none => .error .parse
    | some file =>
      if t.projectIsQuarantined then .ok (t, out)
      else if file.filename ∈ t.context.skip then .ok (t, out)
      else if !t.servable readers file then .ok (t, out)
      else
        let (file, registration) := rewriteFile readers t.context file
        .ok ({ t with registrations := t.registrations ++ registration.toList }.writeFile file out)

def parseMeta (bytes : Str) : Except SimpleError Meta :=
  match (readers.fromSlice bytes).bind IncomingMeta.ofJson with
  | none => .error .json
  | some info => info.intoMeta

def emitMeta (t : PageTransformer) (out : Str) : Except TransformError (PageTransformer × Str) :=
  match parseMeta readers t.capture with
  | .error error => .error (.simple error)
  | .ok info =>
    .ok ({ t with
        projectStatus := info.projectStatus
        projectStatusReason := info.projectStatusReason
        metaSeen := true },
      out ++ (Json.object (Serde.presentFields (metaEntries info))).write)

/-- The versions of a `BTreeSet`. -/
def mergedVersions (versions : List Str) : List Str :=
  (versions.foldl (fun set version => set.insert version ()) (∅ : Table Str Unit)).keys

def emitVersions (t : PageTransformer) (out : Str) : Except TransformError Str :=
  match (readers.fromSlice t.capture).bind stringsOfJson with
  | none => .error .parse
  | some upstream =>
    let merged := mergedVersions (upstream ++ t.context.localVersions)
    .ok (out ++ (Json.array (merged.map Json.string)).write)

def captureKeyByte (t : PageTransformer) (byte : UInt8) : PageTransformer :=
  { t with key := t.key.set t.keyLen byte, keyLen := t.keyLen + 1 }

/-- `key`. -/
def keyText (t : PageTransformer) : Str :=
  if t.keyLen ≤ t.key.length then t.key.take t.keyLen else []

/-- The branch of `step_passthrough` inside a string. -/
def passString (t : PageTransformer) (byte : UInt8) : PageTransformer :=
  let t := if t.capturingKey && (t.escaped || byte != 0x22) then t.captureKeyByte byte else t
  let t := if t.capturingName then { t with name := t.name ++ [byte] } else t
  if t.escaped then { t with escaped := false }
  else if byte = 0x5C then { t with escaped := true }
  else if byte = 0x22 then
    { t with
      inString := false
      name := if t.capturingName then t.name.dropLast else t.name
      capturingKey := false
      capturingName := false }
  else t

def passOpening (t : PageTransformer) (byte : UInt8) (out : Str) : PageTransformer × Str :=
  if byte = 0x7B ∧ t.depth = 2 ∧ t.keyText = str "meta" then
    ({ t with mode := .info, arrayDepth := t.depth, capture := [byte] }, out)
  else if byte = 0x5B ∧ t.depth = 2 ∧ t.keyText = str "files" then
    { t with mode := .files, arrayDepth := t.depth, emittedInArray := false }.emitLocalFiles
      readers (out ++ [byte])
  else if byte = 0x5B ∧ t.depth = 2 ∧ t.keyText = str "versions" then
    ({ t with mode := .versions, arrayDepth := t.depth, capture := [byte] }, out)
  else (t, out ++ [byte])

def passQuote (t : PageTransformer) : PageTransformer :=
  let t := { t with inString := true }
  let t := if t.depth = 1 then
      if t.expectNameValue then { t with capturingName := true, name := [] }
      else { t with keyLen := 0, capturingKey := true }
    else t
  { t with expectNameValue := false }

def stepPassthrough (t : PageTransformer) (byte : UInt8) (out : Str) : PageTransformer × Str :=
  if t.inString then (t.passString byte, out ++ [byte])
  else
    let t := if t.closed && !isAsciiWhitespace byte then { t with trailing := true } else t
    if byte = 0x22 then (t.passQuote, out ++ [byte])
    else if byte = 0x7B ∨ byte = 0x5B then
      { t with expectNameValue := false, depth := t.depth + 1 }.passOpening
        readers byte out
    else if byte = 0x7D ∨ byte = 0x5D then
      ({ t with depth := t.depth - 1, closed := t.closed || t.depth - 1 == 0 }, out ++ [byte])
    else if byte = 0x3A ∧ t.depth = 1 then
      ({ t with
          expectNameValue := t.keyText == str "name"
          filesBeforeMeta := t.filesBeforeMeta || (!t.metaSeen && t.keyText == str "files") },
        out ++ [byte])
    else
      ({ t with expectNameValue := t.expectNameValue && isAsciiWhitespace byte }, out ++ [byte])

def captured (t : PageTransformer) (byte : UInt8) : PageTransformer :=
  { t with capture := t.capture ++ [byte] }

def captureString (t : PageTransformer) (byte : UInt8) : PageTransformer :=
  let t := t.captured byte
  if t.escaped then { t with escaped := false }
  else if byte = 0x5C then { t with escaped := true }
  else if byte = 0x22 then { t with inString := false }
  else t

def stepMeta (t : PageTransformer) (byte : UInt8) (out : Str) :
    Except TransformError (PageTransformer × Str) :=
  if t.inString then .ok (t.captureString byte, out)
  else if byte = 0x22 then .ok ({ t with inString := true }.captured byte, out)
  else if byte = 0x7B ∨ byte = 0x5B then .ok ({ t with depth := t.depth + 1 }.captured byte, out)
  else if byte = 0x7D then
    let t := { t with depth := t.depth - 1 }.captured byte
    if t.depth = t.arrayDepth - 1 then
      (t.emitMeta readers out).map fun (t, out) =>
        ({ t with capture := [], mode := .passthrough }, out)
    else .ok (t, out)
  else if byte = 0x5D then .ok ({ t with depth := t.depth - 1 }.captured byte, out)
  else .ok (t.captured byte, out)

def stepFiles (t : PageTransformer) (byte : UInt8) (out : Str) :
    Except TransformError (PageTransformer × Str) :=
  if t.inString then .ok (t.captureString byte, out)
  else if byte = 0x22 then .ok ({ t with inString := true }.captured byte, out)
  else if byte = 0x7B ∨ byte = 0x5B then .ok ({ t with depth := t.depth + 1 }.captured byte, out)
  else if byte = 0x7D then
    let t := { t with depth := t.depth - 1 }.captured byte
    if t.depth = t.arrayDepth then
      (t.emitFile readers out).map fun (t, out) =>
        ({ t with capture := [] }, out)
    else .ok (t, out)
  else if byte = 0x5D then
    let t := { t with depth := t.depth - 1 }
    if t.depth = t.arrayDepth - 1 then .ok ({ t with mode := .passthrough }, out ++ [byte])
    else .ok (t.captured byte, out)
  else if byte = 0x2C ∧ t.depth = t.arrayDepth then .ok (t, out)
  else if t.capture.isEmpty && isAsciiWhitespace byte then .ok (t, out)
  else .ok (t.captured byte, out)

def stepVersions (t : PageTransformer) (byte : UInt8) (out : Str) :
    Except TransformError (PageTransformer × Str) :=
  if t.inString then .ok (t.captureString byte, out)
  else if byte = 0x22 then .ok ({ t with inString := true }.captured byte, out)
  else if byte = 0x7B ∨ byte = 0x5B then .ok ({ t with depth := t.depth + 1 }.captured byte, out)
  else if byte = 0x7D ∨ byte = 0x5D then
    let t := { t with depth := t.depth - 1 }.captured byte
    if byte = 0x5D ∧ t.depth = t.arrayDepth - 1 then
      (t.emitVersions readers out).map fun out =>
        ({ t with capture := [], mode := .passthrough }, out)
    else .ok (t, out)
  else .ok (t.captured byte, out)

/-- `step`, on the transformer and what it has sent downstream. -/
def step (state : PageTransformer × Str) (byte : UInt8) :
    Except TransformError (PageTransformer × Str) :=
  match state.1.mode with
  | .passthrough => .ok (state.1.stepPassthrough readers byte state.2)
  | .info => state.1.stepMeta readers byte state.2
  | .files => state.1.stepFiles readers byte state.2
  | .versions => state.1.stepVersions readers byte state.2

def new (context : StreamContext) : PageTransformer := { context }

def seedProjectStatus (t : PageTransformer) (status : Option Str) : PageTransformer :=
  { t with projectStatus := status }

def metaPreflightDone (t : PageTransformer) : Bool := t.metaSeen || t.filesBeforeMeta

def filesPrecedeMeta (t : PageTransformer) : Bool := t.filesBeforeMeta

/-- `push_into`; `consumed`, which nothing else reads, stands before the transformer. -/
def pushInto (state : Nat × PageTransformer × Str) (chunk : Str) :
    Except TransformError (Nat × PageTransformer × Str) :=
  let consumed := state.1 + chunk.length
  if maxPageBytes < consumed then .error .tooLarge
  else (chunk.foldlM (step readers) state.2).map (consumed, ·)

def finish (t : PageTransformer) : Except TransformError PageSummary :=
  if t.depth ≠ 0 ∨ t.inString ∨ t.mode ≠ .passthrough then .error .truncated
  else if t.trailing then .error .trailing
  else .ok
    { registrations := t.registrations
      name := (Str.fromUtf8 t.name).filter fun name => name != []
      projectStatus := t.projectStatus
      projectStatusReason := t.projectStatusReason }

def transform (t : PageTransformer) (chunks : List Str) : Except TransformError (Str × PageSummary) := do
  let (_, t, out) ← chunks.foldlM (pushInto readers) (0, t, [])
  let summary ← t.finish
  return (out, summary)

end PageTransformer
end Transformer
end Peryx.Pypi
