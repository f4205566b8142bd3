import Peryx.Core.JsonReader
import Peryx.Pypi.FileRecords
import Peryx.Pypi.PageJson

/-! # A page read whole and file by file (simple/parse.rs) -/

namespace Peryx.Pypi
open Json Serde

structure StreamedDetail where
  info : Meta
  name : Str
  versions : List Str

structure DetailHeader where
  info : IncomingMeta := {}
  name : Option Str := none
  versions : List Str := []

section Streams
variable {σ : Type} (urls : UrlParser) (base : Str) (accept : σ → File → Option σ)

def visitFile (sink : σ) (item : Json) : Option σ :=
  (File.ofJson item).bind fun file => accept sink { file with url := urls.absolutize base file.url }

def visitFiles (sink : σ) (json : Json) : Option σ :=
  json.asArray.bind fun items => items.foldlM (visitFile urls base accept) sink

def visitMember (progress : DetailHeader × σ) (member : Str × Json) : Option (DetailHeader × σ) :=
  if member.1 = str "meta" then
    (IncomingMeta.ofJson member.2).map fun info => ({ progress.1 with info }, progress.2)
  else if member.1 = str "name" then
    member.2.asStr.map fun name => ({ progress.1 with name := some name }, progress.2)
  else if member.1 = str "versions" then
    (stringsOfJson member.2).map fun versions => ({ progress.1 with versions }, progress.2)
  else if member.1 = str "files" then
    (visitFiles urls base accept progress.2 member.2).map fun sink => (progress.1, sink)
  else some progress

def visitDetail (sink : σ) : Json → Option (DetailHeader × σ)
  | .object members => members.foldlM (visitMember urls base accept) ({}, sink)
  | _ => none

/-- `stream_detail_json`, on the value that `serde_json` reads, if it reads one. -/
def streamDetailJson (sink : σ) (document : Option Json) : Except SimpleError (StreamedDetail × σ) :=
  match document.bind (visitDetail urls base accept sink) with
  | none => .error .json
  | some (header, sink) => do
    let info ← header.info.intoMeta
    return ({ info, name := header.name.getD [], versions := header.versions }, sink)

theorem visitFiles_eq (sink : σ) (json : Json) : visitFiles urls base accept sink json =
    (filesOfJson json).bind fun files =>
      (files.map fun file => { file with url := urls.absolutize base file.url }).foldlM accept sink := by
  have hitems : ∀ (items : List Json) (sink : σ),
      items.foldlM (visitFile urls base accept) sink =
        (items.mapM File.ofJson).bind fun files =>
          (files.map fun file => { file with url := urls.absolutize base file.url }).foldlM
            accept sink := by
    intro items
    induction items with
    | nil => exact fun _ => rfl
    | cons item items ih =>
      intro sink
      rw [List.foldlM_cons, List.mapM_cons, visitFile]
      cases File.ofJson item with
      | none => rfl
      | some file =>
        simp only [Option.bind_eq_bind, Option.bind_some, Option.bind_assoc, Option.pure_def,
          List.map_cons, List.foldlM_cons]
        cases accept sink { file with url := urls.absolutize base file.url } with
        | none =>
          simp only [Option.bind_none]
          exact (Option.bind_fun_none _).symm
        | some next => exact ih next
  unfold visitFiles filesOfJson
  cases json.asArray with
  | none => rfl
  | some items => exact hitems items sink

def readMembers (progress : DetailHeader × σ) (field : Str → Option Json) :
    Option (DetailHeader × σ) := do
  let info ← orDefault progress.1.info IncomingMeta.ofJson (field (str "meta"))
  let name ← orDefault progress.1.name (fun json => json.asStr.map some) (field (str "name"))
  let versions ← orDefault progress.1.versions stringsOfJson (field (str "versions"))
  let sink ← orDefault progress.2 (visitFiles urls base accept progress.2) (field (str "files"))
  return (⟨info, name, versions⟩, sink)

theorem lookup_behind (key : Str) (value : Json) (rest : List (Str × Json))
    (h : (((key, value) :: rest).map (·.1)).count key ≤ 1) : lookup rest key = none := by
  rw [List.map_cons, List.count_cons_self] at h
  have hcount : (rest.map (·.1)).count key = 0 := by omega
  unfold lookup
  rw [Option.map_eq_none_iff, List.find?_eq_none]
  intro member hmem hkey
  rw [List.count_eq_zero] at hcount
  exact hcount (List.mem_map.mpr ⟨member, hmem, of_decide_eq_true hkey⟩)

theorem visitMembers_eq (members : List (Str × Json))
    (h : ∀ name ∈ detailFields, (members.map (·.1)).count name ≤ 1) (progress : DetailHeader × σ) :
    members.foldlM (visitMember urls base accept) progress =
      readMembers urls base accept progress (lookup members) := by
  induction members generalizing progress with
  | nil => rfl
  | cons member rest ih =>
    obtain ⟨key, value⟩ := member
    have hrest : ∀ name ∈ detailFields, (rest.map (·.1)).count name ≤ 1 := by
      intro name hname
      refine Nat.le_trans ?_ (h name hname)
      rw [List.map_cons]
      exact List.count_le_count_cons
    have hbehind : key ∈ detailFields → lookup rest key = none := fun hkey =>
      lookup_behind key value rest (h key hkey)
    have hlookup : lookup ((key, value) :: rest) =
        fun name => if key = name then some value else lookup rest name :=
      funext fun name => lookup_cons key name value rest
    have hnames : str "meta" ≠ str "name" ∧ str "meta" ≠ str "versions" ∧ str "meta" ≠ str "files" ∧
        str "name" ≠ str "versions" ∧ str "name" ≠ str "files" ∧ str "versions" ≠ str "files" := by
      decide
    obtain ⟨h12, h13, h14, h23, h24, h34⟩ := hnames
    rw [List.foldlM_cons, hlookup]
    have hih := ih hrest
    unfold readMembers at hih ⊢
    conv => lhs; arg 1; unfold visitMember
    dsimp only
    by_cases hmeta : key = str "meta"
    · subst hmeta
      have hnone := hbehind (by decide)
      rw [if_pos rfl, if_pos rfl, if_neg h12, if_neg h13, if_neg h14]
      cases hread : IncomingMeta.ofJson value with
      | none => simp [orDefault, hread]
      | some info => simp [orDefault, hread, hih, hnone]
    · by_cases hname : key = str "name"
      · subst hname
        have hnone := hbehind (by decide)
        rw [if_neg hmeta, if_pos rfl, if_neg hmeta, if_pos rfl, if_neg h23, if_neg h24]
        cases hread : value.asStr with
        | none => simp [orDefault, hread]
        | some name => simp [orDefault, hread, hih, hnone]
      · by_cases hversions : key = str "versions"
        · subst hversions
          have hnone := hbehind (by decide)
          rw [if_neg hmeta, if_neg hname, if_pos rfl, if_neg hmeta, if_neg hname, if_pos rfl,
            if_neg h34]
          cases hread : stringsOfJson value with
          | none => simp [orDefault, hread]
          | some versions => simp [orDefault, hread, hih, hnone]
        · by_cases hfiles : key = str "files"
          · subst hfiles
            have hnone := hbehind (by decide)
            rw [if_neg hmeta, if_neg hname, if_neg hversions, if_pos rfl, if_neg hmeta,
              if_neg hname, if_neg hversions, if_pos rfl]
            cases hread : visitFiles urls base accept progress.2 value with
            | none => simp [orDefault, hread]
            | some sink => simp [orDefault, hread, hih, hnone]
          · rw [if_neg hmeta, if_neg hname, if_neg hversions, if_neg hfiles, if_neg hmeta,
              if_neg hname, if_neg hversions, if_neg hfiles]
            exact hih progress

/-- What a stream reports of a page that was read whole: its header, and its files, made
absolute, to the sink one after the other. -/
def ParsedDetail.streamed (parsed : ParsedDetail) (sink : σ) : Option (StreamedDetail × σ) :=
  ((parsed.files.map fun file => { file with url := urls.absolutize base file.url }).foldlM
    accept sink).map fun sink => (⟨parsed.info, parsed.name, parsed.versions⟩, sink)

def DistinctFields (members : List (Str × Json)) : Prop :=
  ∀ name ∈ detailFields, (members.map (·.1)).count name ≤ 1

instance (members : List (Str × Json)) : Decidable (DistinctFields members) :=
  inferInstanceAs (Decidable (∀ name ∈ detailFields, _))

def finishStream (progress : DetailHeader × σ) : Option (StreamedDetail × σ) :=
  progress.1.info.intoMeta.toOption.map fun info =>
    ({ info, name := progress.1.name.getD [], versions := progress.1.versions }, progress.2)

theorem streamDetailJson_object (members : List (Str × Json)) (h : DistinctFields members) (sink : σ) :
    (streamDetailJson urls base accept sink (some (.object members))).toOption =
      (readMembers urls base accept ({}, sink) (lookup members)).bind finishStream := by
  unfold streamDetailJson
  rw [Option.bind_some, visitDetail, visitMembers_eq urls base accept members h ({}, sink)]
  cases readMembers urls base accept ({}, sink) (lookup members) with
  | none => rfl
  | some progress =>
    obtain ⟨header, sink⟩ := progress
    rw [Option.bind_some, finishStream]
    dsimp only
    cases header.info.intoMeta with
    | error err => rfl
    | ok info => rfl

theorem orDefault_files (sink : σ) (field : Option Json) :
    orDefault sink (visitFiles urls base accept sink) field =
      (orDefault [] filesOfJson field).bind fun files =>
        (files.map fun file => { file with url := urls.absolutize base file.url }).foldlM
          accept sink := by
  cases field with
  | none => rfl
  | some json => exact visitFiles_eq urls base accept sink json

theorem stream_named (members : List (Str × Json)) (h : DistinctFields members)
    (hname : str "name" ∈ members.map (·.1)) (sink : σ) :
    (streamDetailJson urls base accept sink (some (.object members))).toOption =
      (parseDetail (some (.object members))).toOption.bind fun parsed =>
        parsed.streamed urls base accept sink := by
  have hfields : structFields detailFields (.object members) = some (lookup members) := if_pos h
  obtain ⟨value, hvalue⟩ : ∃ value, lookup members (str "name") = some value := by
    obtain ⟨member, hmem, hkey⟩ := List.mem_map.mp hname
    have hfound : (members.find? fun member => member.1 = str "name").isSome := by
      rw [List.find?_isSome]
      exact ⟨member, hmem, decide_eq_true hkey⟩
    obtain ⟨found, hfound⟩ := Option.isSome_iff_exists.mp hfound
    exact ⟨found.2, by rw [lookup, hfound, Option.map_some]⟩
  rw [streamDetailJson_object urls base accept members h sink]
  unfold readMembers parseDetail IncomingDetail.ofJson
  rw [Option.bind_some, hfields, orDefault_files]
  dsimp only
  simp only [Option.bind_eq_bind, Option.bind_some, Option.pure_def, hvalue]
  cases orDefault {} IncomingMeta.ofJson (lookup members (str "meta")) with
  | none => rfl
  | some info =>
    rw [Option.bind_some, Option.bind_some, orDefault]
    cases value.asStr with
    | none => rfl
    | some name =>
      rw [Option.map_some, Option.bind_some, Option.bind_some]
      cases orDefault [] stringsOfJson (lookup members (str "versions")) with
      | none => rfl
      | some versions =>
        rw [Option.bind_some, Option.bind_some]
        cases orDefault [] filesOfJson (lookup members (str "files")) with
        | none => rfl
        | some files =>
          simp only [Option.bind_some]
          cases hinfo : info.intoMeta with
          | error err =>
            cases (files.map fun file => { file with url := urls.absolutize base file.url }).foldlM
                accept sink with
            | none => rfl
            | some sink =>
              simp only [Option.bind_some, finishStream, hinfo]
              rfl
          | ok info =>
            cases hsink : (files.map fun file =>
                { file with url := urls.absolutize base file.url }).foldlM accept sink with
            | none =>
              simp only [Option.bind_none]
              exact (congrArg (Option.map _) hsink).symm
            | some sink' =>
              simp only [Option.bind_some, finishStream, hinfo]
              exact (congrArg (Option.map _) hsink).symm

theorem DistinctFields.cons_name {members : List (Str × Json)} (h : DistinctFields members)
    (hname : str "name" ∉ members.map (·.1)) (value : Json) :
    DistinctFields ((str "name", value) :: members) := by
  intro name hfield
  rw [List.map_cons]
  by_cases heq : str "name" = name
  · rw [← heq, List.count_cons_self, List.count_eq_zero.mpr hname]
  · rw [List.count_cons_of_ne heq]
    exact h name hfield

theorem stream_nameless (members : List (Str × Json)) (h : DistinctFields members)
    (hname : str "name" ∉ members.map (·.1)) (sink : σ) :
    parseDetail (some (.object members)) = .error .json ∧
      (streamDetailJson urls base accept sink (some (.object members))).toOption =
        (streamDetailJson urls base accept sink
          (some (.object ((str "name", .string []) :: members)))).toOption := by
  have hnone : lookup members (str "name") = none := by
    unfold lookup
    rw [Option.map_eq_none_iff, List.find?_eq_none]
    exact fun member hmem hkey => hname (List.mem_map.mpr ⟨member, hmem, of_decide_eq_true hkey⟩)
  have hdistinct : DistinctFields ((str "name", .string []) :: members) := h.cons_name hname _
  constructor
  · have hfields : structFields detailFields (.object members) = some (lookup members) := if_pos h
    unfold parseDetail IncomingDetail.ofJson
    rw [Option.bind_some, hfields]
    simp only [Option.bind_eq_bind, Option.bind_some, Option.pure_def, hnone, Option.bind_none,
      Option.bind_fun_none]
  · rw [streamDetailJson_object urls base accept members h sink,
      streamDetailJson_object urls base accept _ hdistinct sink]
    have hothers : str "name" ≠ str "meta" ∧ str "name" ≠ str "versions" ∧
        str "name" ≠ str "files" := by decide
    unfold readMembers
    rw [lookup_cons, lookup_cons, lookup_cons, lookup_cons, if_neg hothers.1, if_pos rfl,
      if_neg hothers.2.1, if_neg hothers.2.2, hnone]
    cases orDefault {} IncomingMeta.ofJson (lookup members (str "meta")) with
    | none => rfl
    | some info =>
      cases orDefault [] stringsOfJson (lookup members (str "versions")) with
      | none => rfl
      | some versions =>
        cases orDefault sink (visitFiles urls base accept sink) (lookup members (str "files")) with
        | none => rfl
        | some sink => rfl

theorem stream_rootless (document : Option Json) (sink : σ)
    (h : ∀ members, document ≠ some (.object members)) :
    streamDetailJson urls base accept sink document = .error .json ∧
      ((∀ items, document ≠ some (.array items)) → parseDetail document = .error .json) := by
  cases document with
  | none => exact ⟨rfl, fun _ => rfl⟩
  | some json =>
    cases json with
    | object members => exact absurd rfl (h members)
    | array items => exact ⟨rfl, fun hall => absurd rfl (hall items)⟩
    | null => exact ⟨rfl, fun _ => rfl⟩
    | bool value => exact ⟨rfl, fun _ => rfl⟩
    | number text => exact ⟨rfl, fun _ => rfl⟩
    | string value => exact ⟨rfl, fun _ => rfl⟩

/-- Read as a stream, a page that repeats none of its keys is what it is read whole; one
without a name is one of an empty name, and only an object is a page. -/
theorem streamed_page (fromSlice : Str → Option Json) (bytes : Str) (sink : σ) :
    (∀ members, fromSlice bytes = some (.object members) → DistinctFields members →
      (str "name" ∈ members.map (·.1) →
        (streamDetailJson urls base accept sink (fromSlice bytes)).toOption =
          (parseDetail (fromSlice bytes)).toOption.bind fun parsed =>
            parsed.streamed urls base accept sink) ∧
      (str "name" ∉ members.map (·.1) →
        parseDetail (fromSlice bytes) = .error .json ∧
          (streamDetailJson urls base accept sink (fromSlice bytes)).toOption =
            (parseDetail (some (.object ((str "name", .string []) :: members)))).toOption.bind
              fun parsed => parsed.streamed urls base accept sink)) ∧
      ((∀ members, fromSlice bytes ≠ some (.object members)) →
        streamDetailJson urls base accept sink (fromSlice bytes) = .error .json ∧
          ((∀ items, fromSlice bytes ≠ some (.array items)) →
            parseDetail (fromSlice bytes) = .error .json)) := by
  refine ⟨fun members hdocument h => ⟨fun hname => ?_, fun hname => ?_⟩,
    stream_rootless urls base accept (fromSlice bytes) sink⟩
  · rw [hdocument]
    exact stream_named urls base accept members h hname sink
  · rw [hdocument]
    obtain ⟨hrefused, hsame⟩ := stream_nameless urls base accept members h hname sink
    exact ⟨hrefused, hsame.trans (stream_named urls base accept _ (h.cons_name hname _)
      List.mem_cons_self sink)⟩

end Streams

def collect (kept : List File) (file : File) : Option (List File) := some (kept ++ [file])

def absoluteUrls : UrlParser := ⟨fun _ => true, fun _ _ => none⟩

def namelessBytes : Str := str "\x7b\"files\":[]\x7d"

theorem nameless_page_streams :
    (∃ info, streamDetailJson absoluteUrls [] collect [] (Json.read namelessBytes) =
      .ok (⟨info, [], []⟩, [])) ∧ parseDetail (Json.read namelessBytes) = .error .json := by
  have hread : Json.read namelessBytes = some (.object [(str "files", .array [])]) := by rfl
  rw [hread]
  exact ⟨⟨_, rfl⟩, rfl⟩

def flaskBytes : Str :=
  str "\x7b\"name\":\"flask\",\"files\":[\x7b\"filename\":\"f.whl\",\"url\":\"u\"\x7d]\x7d"

theorem flask_page_streams :
    ∃ info, (streamDetailJson absoluteUrls [] collect [] (Json.read flaskBytes)).toOption =
      some (⟨info, str "flask", []⟩, [{ filename := str "f.whl", url := str "u" }]) := by
  have hread : Json.read flaskBytes = some (.object [(str "name", .string (str "flask")),
      (str "files", .array [.object [(str "filename", .string (str "f.whl")),
        (str "url", .string (str "u"))]])]) := by rfl
  have hstream := ((streamed_page absoluteUrls [] collect Json.read flaskBytes []).1 _ hread
    (by decide)).1 (by decide)
  rw [hstream, hread]
  exact ⟨_, rfl⟩

end Peryx.Pypi
