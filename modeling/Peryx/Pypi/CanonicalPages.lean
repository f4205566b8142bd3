import Peryx.Core.JsonReader
import Peryx.Core.JsonWriter
import Peryx.Pypi.FileRecords
import Peryx.Pypi.PageJson
import Peryx.Pypi.UploadText

/-!
# The form a JSON page is stored in (cache/fetch.rs:262-277, simple/parse.rs, simple/file.rs)
-/

namespace Peryx.Serde
open Json

def presentFields (fields : List (Str × Option Json)) : List (Str × Json) :=
  fields.filterMap fun field => field.2.map fun value => (field.1, value)

theorem presentFields_cons (key : Str) (value : Option Json) (rest : List (Str × Option Json)) :
    presentFields ((key, value) :: rest) =
      (value.map fun value => (key, value)).toList ++ presentFields rest := by
  unfold presentFields
  cases value with
  | none => rfl
  | some value => rfl

theorem keys_presentFields (fields : List (Str × Option Json)) :
    ((presentFields fields).map (·.1)).Sublist (fields.map (·.1)) := by
  induction fields with
  | nil => exact List.Sublist.refl _
  | cons field rest ih =>
    obtain ⟨key, value⟩ := field
    rw [presentFields_cons]
    cases value with
    | none => exact ih.cons _
    | some value => exact ih.cons_cons _

theorem lookup_presentFields (fields : List (Str × Option Json)) (h : (fields.map (·.1)).Nodup) :
    ∀ field ∈ fields, lookup (presentFields fields) field.1 = field.2 := by
  induction fields with
  | nil => exact fun _ hmem => absurd hmem List.not_mem_nil
  | cons field rest ih =>
    obtain ⟨key, value⟩ := field
    rw [List.map_cons, List.nodup_cons] at h
    have habsent : lookup (presentFields rest) key = none := by
      have hkey : key ∉ (presentFields rest).map (·.1) :=
        fun hmem => h.1 ((keys_presentFields rest).subset hmem)
      rw [lookup, Option.map_eq_none_iff, List.find?_eq_none]
      intro member hmember heq
      exact hkey (List.mem_map.mpr ⟨member, hmember, of_decide_eq_true heq⟩)
    intro other hother
    rw [presentFields_cons]
    cases value with
    | none =>
      rcases List.mem_cons.mp hother with rfl | hmem
      · exact habsent
      · exact ih h.2 other hmem
    | some value =>
      refine (lookup_cons key other.1 value _).trans ?_
      rcases List.mem_cons.mp hother with rfl | hmem
      · exact if_pos rfl
      · have hne : key ≠ other.1 := fun heq => h.1 (List.mem_map.mpr ⟨other, hmem, heq.symm⟩)
        rw [if_neg hne]
        exact ih h.2 other hmem

theorem structFields_presentFields (fields : List (Str × Option Json)) (h : (fields.map (·.1)).Nodup) :
    structFields (fields.map (·.1)) (object (presentFields fields)) = some (lookup (presentFields fields)) ∧
      ∀ field ∈ fields, lookup (presentFields fields) field.1 = field.2 :=
  ⟨structFields_object _ _ _ (keys_presentFields fields) h, lookup_presentFields fields h⟩

theorem Members.presentFields (depth : Nat) (fields : List (Str × Option Json))
    (h : ∀ field ∈ fields, Str.IsUtf8 field.1 ∧
      ∀ value ∈ field.2, value.Sound ∧ value.nesting ≤ depth) :
    Members depth (presentFields fields) := by
  induction fields with
  | nil => exact .nil
  | cons field rest ih =>
    obtain ⟨key, value⟩ := field
    rw [List.forall_mem_cons] at h
    rw [presentFields_cons]
    refine .append ?_ (ih h.2)
    cases value with
    | none => exact .nil
    | some value =>
      obtain ⟨hsound, hnesting⟩ := h.1.2 value rfl
      constructor
      · intro member hmember
        rw [List.mem_singleton.mp hmember]
        exact ⟨h.1.1, hsound⟩
      · exact Nat.max_le.mpr ⟨hnesting, Nat.zero_le _⟩

end Peryx.Serde

namespace Peryx.Json

/-! ### Values whose strings are `String`s -/

mutual

def texts : Json → Bool
  | string value => decide (Str.IsUtf8 value)
  | array items => textsItems items
  | object members => textsMembers members
  | _ => true

def textsItems : List Json → Bool
  | [] => true
  | item :: items => item.texts && textsItems items

def textsMembers : List (Str × Json) → Bool
  | [] => true
  | member :: members => decide (Str.IsUtf8 member.1) && member.2.texts && textsMembers members

end

theorem textsItems_iff (items : List Json) :
    textsItems items = true ↔ ∀ item ∈ items, item.texts = true := by
  induction items with
  | nil => simp [textsItems]
  | cons item items ih => rw [textsItems, Bool.and_eq_true, ih, List.forall_mem_cons]

theorem textsMembers_iff (members : List (Str × Json)) : textsMembers members = true ↔
    ∀ member ∈ members, Str.IsUtf8 member.1 ∧ member.2.texts = true := by
  induction members with
  | nil => simp [textsMembers]
  | cons member members ih =>
    rw [textsMembers, Bool.and_eq_true, Bool.and_eq_true, decide_eq_true_eq, ih, List.forall_mem_cons]

theorem Sound.texts {value : Json} (h : value.Sound) : value.texts = true := by
  induction h with
  | null => rfl
  | bool value => rfl
  | number value _ => rfl
  | string value h => exact decide_eq_true h
  | array items _ ih => exact (textsItems_iff items).mpr ih
  | object members hkeys _ ih =>
    exact (textsMembers_iff members).mpr fun member hmember => ⟨hkeys member hmember, ih member hmember⟩

end Peryx.Json

namespace Peryx.Pypi.Stored
open Json Serde Storage

/-! ### The serializers -/

def hashesToJson (hashes : Hashes) : Json :=
  .object (hashes.toList.map fun hash => (hash.1, .string hash.2))

def yankedToJson : Yanked → Json
  | .no => .bool false
  | .yes => .bool true
  | .reason text => .string text

def metadataToJson : CoreMetadata → Json
  | .absent => .bool false
  | .available => .bool true
  | .hashes hashes => hashesToJson hashes

def provenanceToJson : Provenance → Option Json
  | .absent => none
  | .null => some .null
  | .url url => some (.string url)

def fileEntries (file : File) : List (Str × Option Json) :=
  [(str "filename", some (.string file.filename)),
    (str "url", some (.string file.url)),
    (str "hashes", some (hashesToJson file.hashes)),
    (str "requires-python", file.requiresPython.map .string),
    (str "size", file.size.map fun size => .number (Str.decimal size)),
    (str "upload-time", file.uploadTime.map .string),
    (str "yanked", some (yankedToJson file.yanked)),
    (str "core-metadata", some (metadataToJson file.metadata)),
    (str "dist-info-metadata",
      if file.metadata.isAbsent then none else some (metadataToJson file.metadata)),
    (str "gpg-sig", file.gpgSig.map .bool),
    (str "provenance", provenanceToJson file.provenance)]

def fileToJson (file : File) : Json := .object (presentFields (fileEntries file))

def metaEntries (info : Meta) : List (Str × Option Json) :=
  [(str "api-version", some (.string info.apiVersion)),
    (str "project-status", info.projectStatus.map .string),
    (str "project-status-reason", info.projectStatusReason.map .string)]

def detailEntries (detail : ProjectDetail) : List (Str × Option Json) :=
  [(str "meta", some (.object (presentFields (metaEntries detail.info)))),
    (str "name", some (.string detail.name)),
    (str "versions", some (.array (detail.versions.map .string))),
    (str "files", some (.array (detail.files.map fileToJson)))]

def toJson (detail : ProjectDetail) : Str := (Json.object (presentFields (detailEntries detail))).write

section Canonical
variable (fromSlice : Bytes → Option Json) (urls : UrlParser)

def canonicalJson (body : Bytes) (base : Str) : Except SimpleError Bytes := do
  let parsed ← parseDetail (fromSlice body)
  let files := parsed.files.map fun file => { file with url := urls.absolutize base file.url }
  return toJson { info := parsed.info, name := parsed.name, versions := parsed.versions, files }

end Canonical

/-! ### Reading what was written -/

def storedFile (file : File) : File := file.setMetadata file.metadata

theorem hashesOfJson_toJson (hashes : Hashes) : hashesOfJson (hashesToJson hashes) = some hashes := by
  have hfold : ∀ (rows : List (Str × Str)) (start : Hashes),
      (rows.map fun hash => (hash.1, Json.string hash.2)).foldlM
        (fun table member => member.2.asStr.map fun value => table.insert member.1 value) start =
        some (rows.foldl (fun table hash => table.insert hash.1 hash.2) start) := by
    intro rows
    induction rows with
    | nil => exact fun _ => rfl
    | cons hash rows ih =>
      intro start
      rw [List.map_cons, List.foldlM_cons]
      exact ih _
  have hall := UploadText.ofList_toList hashes
  rw [Std.ExtTreeMap.ofList_eq_insertMany_empty, Std.ExtTreeMap.insertMany_list_eq_foldl] at hall
  exact (hfold hashes.toList ∅).trans (congrArg some hall)

theorem metadataOfJson_toJson (metadata : CoreMetadata) :
    CoreMetadata.ofJson (metadataToJson metadata) = some metadata := by
  cases metadata with
  | absent => rfl
  | available => rfl
  | hashes hashes => exact congrArg (Option.map CoreMetadata.hashes) (hashesOfJson_toJson hashes)

theorem yankedOfJson_toJson (yanked : Yanked) : Yanked.ofJson (yankedToJson yanked) = some yanked := by
  cases yanked with
  | no => rfl
  | yes => rfl
  | reason text => rfl

theorem olderSpelling_read (metadata : CoreMetadata) : orDefault .absent CoreMetadata.ofJson
    (if metadata.isAbsent then none else some (metadataToJson metadata)) = some metadata := by
  cases metadata with
  | absent => rfl
  | available => rfl
  | hashes hashes => exact metadataOfJson_toJson (.hashes hashes)

theorem provenance_read (provenance : Provenance) :
    orDefault .absent Provenance.ofJson (provenanceToJson provenance) = some provenance := by
  cases provenance with
  | absent => rfl
  | null => rfl
  | url url => rfl

theorem strings_read (value : Option Str) : optional asStr (value.map .string) = some value :=
  optional_map asStr .string value fun _ _ => ⟨Json.noConfusion, rfl⟩

theorem bind_read {α β : Type} {read : Option α} {a : α} (h : read = some a) (f : α → Option β) :
    (read >>= f) = f a := by
  rw [h]
  rfl

theorem fileOfJson_toJson (file : File) (hsize : ∀ size ∈ file.size, size < 2 ^ 64) :
    File.ofJson (fileToJson file) = some (storedFile file) := by
  have hsizes : optional (unsigned 64) (file.size.map fun size => .number (Str.decimal size)) =
      some file.size :=
    optional_map _ _ file.size fun size hmem =>
      ⟨Json.noConfusion, unsigned_decimal 64 size (Nat.le_refl _) (hsize size hmem)⟩
  have hgpgSig : optional asBool (file.gpgSig.map .bool) = some file.gpgSig :=
    optional_map _ _ file.gpgSig fun _ _ => ⟨Json.noConfusion, rfl⟩
  obtain ⟨hstruct, hfields⟩ := structFields_presentFields (fileEntries file) (by decide : fileFields.Nodup)
  unfold File.ofJson fileToJson
  generalize presentFields (fileEntries file) = members at hfields hstruct ⊢
  simp only [fileEntries, List.forall_mem_cons] at hfields
  obtain ⟨hfilename, hurl, hhashes, hpython, hsize, htime, hyanked, hcore, hdist, hsig, hprov, -⟩ :=
    hfields
  have hhash := hashesOfJson_toJson file.hashes
  have hmetadata := metadataOfJson_toJson file.metadata
  refine (bind_read hstruct _).trans ?_
  refine (bind_read hfilename _).trans ((bind_read rfl _).trans ?_)
  refine (bind_read hurl _).trans ((bind_read rfl _).trans ?_)
  rw [hhashes, hpython, hsize, htime, hyanked, hcore, hdist, hsig, hprov]
  refine (bind_read hhash _).trans ?_
  refine (bind_read (strings_read file.requiresPython) _).trans ?_
  refine (bind_read hsizes _).trans ?_
  refine (bind_read (strings_read file.uploadTime) _).trans ?_
  refine (bind_read (yankedOfJson_toJson file.yanked) _).trans ?_
  refine (bind_read hmetadata _).trans ?_
  refine (bind_read (olderSpelling_read file.metadata) _).trans ?_
  refine (bind_read hgpgSig _).trans ?_
  exact bind_read (provenance_read file.provenance) _

theorem metaOfJson_toJson (info : Meta) : IncomingMeta.ofJson (.object (presentFields (metaEntries info))) =
    some ⟨some info.apiVersion, info.projectStatus, info.projectStatusReason⟩ := by
  obtain ⟨hstruct, hfields⟩ := structFields_presentFields (metaEntries info)
    (by decide : [str "api-version", str "project-status", str "project-status-reason"].Nodup)
  unfold IncomingMeta.ofJson
  generalize presentFields (metaEntries info) = members at hfields hstruct ⊢
  simp only [metaEntries, List.forall_mem_cons] at hfields
  obtain ⟨hversion, hstatus, hreason, -⟩ := hfields
  refine (bind_read hstruct _).trans ?_
  rw [hversion, hstatus, hreason]
  refine (bind_read (a := some info.apiVersion) rfl _).trans ?_
  refine (bind_read (strings_read info.projectStatus) _).trans ?_
  exact bind_read (strings_read info.projectStatusReason) _

theorem detailOfJson_toJson (detail : ProjectDetail)
    (hsize : ∀ file ∈ detail.files, ∀ size ∈ file.size, size < 2 ^ 64) :
    IncomingDetail.ofJson (.object (presentFields (detailEntries detail))) =
      some ⟨⟨some detail.info.apiVersion, detail.info.projectStatus, detail.info.projectStatusReason⟩,
        detail.name, detail.versions, detail.files.map storedFile⟩ := by
  obtain ⟨hstruct, hfields⟩ := structFields_presentFields (detailEntries detail)
    (by decide : detailFields.Nodup)
  have hversions : stringsOfJson (.array (detail.versions.map .string)) = some detail.versions :=
    mapM_map asStr .string detail.versions fun _ _ => rfl
  have hfiles : filesOfJson (.array (detail.files.map fileToJson)) =
      some (detail.files.map storedFile) :=
    mapM_written File.ofJson fileToJson storedFile detail.files fun file hfile =>
      fileOfJson_toJson file (hsize file hfile)
  unfold IncomingDetail.ofJson
  generalize presentFields (detailEntries detail) = members at hfields hstruct ⊢
  simp only [detailEntries, List.forall_mem_cons] at hfields
  obtain ⟨hinfo, hname, hlistedVersions, hlisted, -⟩ := hfields
  refine (bind_read hstruct _).trans ?_
  rw [hinfo, hlistedVersions, hlisted]
  refine (bind_read (metaOfJson_toJson detail.info) _).trans ?_
  refine (bind_read hname _).trans ((bind_read rfl _).trans ?_)
  refine (bind_read hversions _).trans ?_
  exact bind_read hfiles _

/-! ### What is read is made of `String`s -/

def TextHashes (hashes : Hashes) : Prop :=
  ∀ (key value : Str), hashes[key]? = some value → Str.IsUtf8 key ∧ Str.IsUtf8 value

def TextMetadata (metadata : CoreMetadata) : Prop := ∀ hashes, metadata = .hashes hashes → TextHashes hashes

structure TypedFile (file : File) : Prop where
  filename : Str.IsUtf8 file.filename
  url : Str.IsUtf8 file.url
  hashes : TextHashes file.hashes
  requiresPython : ∀ text ∈ file.requiresPython, Str.IsUtf8 text
  size : ∀ size ∈ file.size, size < 2 ^ 64
  uploadTime : ∀ text ∈ file.uploadTime, Str.IsUtf8 text
  yanked : ∀ text, file.yanked = .reason text → Str.IsUtf8 text
  coreMetadata : TextMetadata file.coreMetadata
  distInfoMetadata : TextMetadata file.distInfoMetadata
  provenance : ∀ url, file.provenance = .url url → Str.IsUtf8 url

theorem TypedFile.metadata {file : File} (h : TypedFile file) : TextMetadata file.metadata := by
  unfold File.metadata
  split
  · exact h.distInfoMetadata
  · exact h.coreMetadata

theorem texts_lookup {names : List Str} {json : Json} {field : Str → Option Json}
    (htexts : json.texts = true) (h : structFields names json = some field) (name : Str) :
    ∀ value ∈ field name, value.texts = true := by
  intro value hvalue
  cases json with
  | object members =>
    dsimp only [structFields] at h
    split at h
    · cases h
      obtain ⟨member, hfind, rfl⟩ := Option.map_eq_some_iff.mp hvalue
      exact ((textsMembers_iff members).mp htexts member (List.mem_of_find?_eq_some hfind)).2
    · cases h
  | array items =>
    dsimp only [structFields] at h
    split at h
    · cases h
      exact (textsItems_iff items).mp htexts value (List.mem_of_getElem? hvalue)
    · cases h
  | null | bool | number | string => cases h

theorem asStr_text {json : Json} {text : Str} (htexts : json.texts = true)
    (h : json.asStr = some text) : Str.IsUtf8 text := by
  cases json with
  | string value =>
    cases h
    exact of_decide_eq_true htexts
  | null | bool | number | array | object => cases h

theorem optional_holds {α : Type} {read : Json → Option α} {p : α → Prop} {value : Option Json}
    {result : Option α} (hread : ∀ json ∈ value, ∀ a, read json = some a → p a)
    (h : optional read value = some result) : ∀ a ∈ result, p a := by
  intro a ha
  unfold Serde.optional at h
  split at h
  · cases h
    cases ha
  · cases h
    cases ha
  · rename_i json _
    obtain ⟨found, hfound, hresult⟩ := Option.map_eq_some_iff.mp h
    rw [← hresult] at ha
    exact hread json rfl a (Option.some.inj ha ▸ hfound)

theorem orDefault_holds {α : Type} {missing : α} {read : Json → Option α} {p : α → Prop}
    {value : Option Json} {result : α} (hmissing : p missing)
    (hread : ∀ json ∈ value, ∀ a, read json = some a → p a)
    (h : orDefault missing read value = some result) : p result := by
  cases value with
  | none =>
    cases h
    exact hmissing
  | some json => exact hread json rfl result h

theorem textHashes_empty : TextHashes ∅ := by
  intro key value h
  rw [Std.ExtTreeMap.getElem?_empty] at h
  cases h

theorem hashesOfJson_texts {json : Json} (htexts : json.texts = true) {hashes : Hashes}
    (h : hashesOfJson json = some hashes) : TextHashes hashes := by
  have hfold : ∀ (members : List (Str × Json)) (start : Hashes), TextHashes start →
      (∀ member ∈ members, Str.IsUtf8 member.1 ∧ member.2.texts = true) →
      members.foldlM (fun table member =>
        member.2.asStr.map fun value => table.insert member.1 value) start = some hashes →
      TextHashes hashes := by
    intro members
    induction members with
    | nil =>
      intro start hstart _ h
      cases h
      exact hstart
    | cons member members ih =>
      intro start hstart hmembers h
      rw [List.forall_mem_cons] at hmembers
      rw [List.foldlM_cons] at h
      obtain ⟨next, hnext, hrest⟩ := Option.bind_eq_some_iff.mp h
      obtain ⟨text, htext, rfl⟩ := Option.map_eq_some_iff.mp hnext
      refine ih _ (fun key value hrow => ?_) hmembers.2 hrest
      rw [Std.ExtTreeMap.getElem?_insert] at hrow
      split at hrow
      · rename_i hkey
        cases hrow
        rw [← Std.LawfulEqCmp.eq_of_compare hkey]
        exact ⟨hmembers.1.1, asStr_text hmembers.1.2 htext⟩
      · exact hstart key value hrow
  cases json with
  | object members => exact hfold members ∅ textHashes_empty ((textsMembers_iff members).mp htexts) h
  | null | bool | number | string | array => cases h

theorem metadataOfJson_texts {json : Json} (htexts : json.texts = true) {metadata : CoreMetadata}
    (h : CoreMetadata.ofJson json = some metadata) : TextMetadata metadata := by
  intro hashes heq
  rw [heq] at h
  cases json with
  | bool value => cases value <;> cases h
  | object members =>
    obtain ⟨found, hfound, hsame⟩ := Option.map_eq_some_iff.mp h
    cases hsame
    exact hashesOfJson_texts htexts hfound
  | null | number | string | array => cases h

theorem unsigned_lt {bits : Nat} {json : Json} {n : Nat} (h : unsigned bits json = some n) :
    n < 2 ^ bits := by
  cases json with
  | number text => exact of_decide_eq_true (Option.filter_eq_some_iff.mp h).2
  | null | bool | string | array | object => cases h

theorem yanked_text {json : Json} (htexts : json.texts = true) {text : Str}
    (h : Yanked.ofJson json = some (.reason text)) : Str.IsUtf8 text := by
  cases json with
  | string value =>
    cases h
    exact of_decide_eq_true htexts
  | bool value => cases value <;> cases h
  | null | number | array | object => cases h

theorem provenance_text {json : Json} (htexts : json.texts = true) {url : Str}
    (h : Provenance.ofJson json = some (.url url)) : Str.IsUtf8 url := by
  cases json with
  | string value =>
    cases h
    exact of_decide_eq_true htexts
  | null | bool | number | array | object => cases h

theorem fileOfJson_typed {json : Json} (htexts : json.texts = true) {file : File}
    (h : File.ofJson json = some file) : TypedFile file := by
  unfold File.ofJson at h
  obtain ⟨field, hstruct, h⟩ := Option.bind_eq_some_iff.mp h
  have hfield := texts_lookup htexts hstruct
  obtain ⟨filenameJson, hfilename, h⟩ := Option.bind_eq_some_iff.mp h
  obtain ⟨filename, hfilenameText, h⟩ := Option.bind_eq_some_iff.mp h
  obtain ⟨urlJson, hurl, h⟩ := Option.bind_eq_some_iff.mp h
  obtain ⟨url, hurlText, h⟩ := Option.bind_eq_some_iff.mp h
  obtain ⟨hashes, hhashes, h⟩ := Option.bind_eq_some_iff.mp h
  obtain ⟨python, hpython, h⟩ := Option.bind_eq_some_iff.mp h
  obtain ⟨size, hsize, h⟩ := Option.bind_eq_some_iff.mp h
  obtain ⟨time, htime, h⟩ := Option.bind_eq_some_iff.mp h
  obtain ⟨yanked, hyanked, h⟩ := Option.bind_eq_some_iff.mp h
  obtain ⟨core, hcore, h⟩ := Option.bind_eq_some_iff.mp h
  obtain ⟨dist, hdist, h⟩ := Option.bind_eq_some_iff.mp h
  obtain ⟨sig, hsig, h⟩ := Option.bind_eq_some_iff.mp h
  obtain ⟨provenance, hprovenance, h⟩ := Option.bind_eq_some_iff.mp h
  cases h
  have hmetadata : ∀ name, ∀ json ∈ field name, ∀ metadata, CoreMetadata.ofJson json = some metadata →
      TextMetadata metadata := fun name json hjson _ => metadataOfJson_texts (hfield name json hjson)
  have hstring : ∀ name, ∀ json ∈ field name, ∀ text, json.asStr = some text → Str.IsUtf8 text :=
    fun name json hjson _ => asStr_text (hfield name json hjson)
  exact {
    filename := hstring _ _ hfilename _ hfilenameText
    url := hstring _ _ hurl _ hurlText
    hashes := orDefault_holds textHashes_empty
      (fun json hjson _ => hashesOfJson_texts (hfield _ json hjson)) hhashes
    requiresPython := optional_holds (hstring _) hpython
    size := optional_holds (fun json _ size hread => unsigned_lt hread) hsize
    uploadTime := optional_holds (hstring _) htime
    yanked := orDefault_holds (p := fun yanked => ∀ text, yanked = .reason text → Str.IsUtf8 text)
      (fun _ heq => by cases heq) (fun json hjson yanked hread text heq => by
        rw [heq] at hread
        exact yanked_text (hfield _ json hjson) hread) hyanked
    coreMetadata := orDefault_holds (fun _ heq => by cases heq) (hmetadata _) hcore
    distInfoMetadata := orDefault_holds (fun _ heq => by cases heq) (hmetadata _) hdist
    provenance := orDefault_holds (p := fun known => ∀ url, known = .url url → Str.IsUtf8 url)
      (fun _ heq => by cases heq) (fun json hjson known hread url heq => by
        rw [heq] at hread
        exact provenance_text (hfield _ json hjson) hread) hprovenance }

structure TypedDetail (detail : ProjectDetail) : Prop where
  apiVersion : Str.IsUtf8 detail.info.apiVersion
  projectStatus : ∀ text ∈ detail.info.projectStatus, Str.IsUtf8 text
  projectStatusReason : ∀ text ∈ detail.info.projectStatusReason, Str.IsUtf8 text
  name : Str.IsUtf8 detail.name
  versions : ∀ version ∈ detail.versions, Str.IsUtf8 version
  files : ∀ file ∈ detail.files, TypedFile file

theorem mem_of_mapM {α : Type} {read : Json → Option α} {items : List Json} {values : List α}
    (h : items.mapM read = some values) :
    ∀ value ∈ values, ∃ item ∈ items, read item = some value := by
  induction items generalizing values with
  | nil =>
    cases h
    exact fun _ hmem => absurd hmem List.not_mem_nil
  | cons item items ih =>
    rw [List.mapM_cons] at h
    obtain ⟨first, hfirst, h⟩ := Option.bind_eq_some_iff.mp h
    obtain ⟨rest, hrest, h⟩ := Option.bind_eq_some_iff.mp h
    cases h
    rw [List.forall_mem_cons]
    refine ⟨⟨item, List.mem_cons_self, hfirst⟩, fun value hvalue => ?_⟩
    obtain ⟨found, hfound, hread⟩ := ih hrest value hvalue
    exact ⟨found, List.mem_cons_of_mem _ hfound, hread⟩

theorem mem_of_array {α : Type} {read : Json → Option α} {json : Json} (htexts : json.texts = true)
    {values : List α} (h : (json.asArray.bind fun items => items.mapM read) = some values) :
    ∀ value ∈ values, ∃ item : Json, item.texts = true ∧ read item = some value := by
  intro value hvalue
  obtain ⟨items, hitems, hread⟩ := Option.bind_eq_some_iff.mp h
  obtain ⟨item, hitem, hfound⟩ := mem_of_mapM hread value hvalue
  cases json with
  | array found =>
    cases hitems
    exact ⟨item, (textsItems_iff items).mp htexts item hitem, hfound⟩
  | null | bool | number | string | object => cases hitems

theorem metaOfJson_typed {json : Json} (htexts : json.texts = true) {info : IncomingMeta}
    (h : IncomingMeta.ofJson json = some info) :
    (∀ text ∈ info.projectStatus, Str.IsUtf8 text) ∧
      ∀ text ∈ info.projectStatusReason, Str.IsUtf8 text := by
  unfold IncomingMeta.ofJson at h
  obtain ⟨field, hstruct, h⟩ := Option.bind_eq_some_iff.mp h
  have hfield := texts_lookup htexts hstruct
  obtain ⟨version, hversion, h⟩ := Option.bind_eq_some_iff.mp h
  obtain ⟨status, hstatus, h⟩ := Option.bind_eq_some_iff.mp h
  obtain ⟨reason, hreason, h⟩ := Option.bind_eq_some_iff.mp h
  cases h
  exact ⟨optional_holds (fun json hjson _ => asStr_text (hfield _ json hjson)) hstatus,
    optional_holds (fun json hjson _ => asStr_text (hfield _ json hjson)) hreason⟩

theorem servedVersion_utf8 {api : Option Str} {served : Str} (h : servedVersion api = .ok served) :
    Str.IsUtf8 served := by
  rcases servedVersion_cases h with rfl | rfl
  · exact Str.isUtf8_str _
  · exact Str.isUtf8_str _

theorem parseDetail_typed {json : Json} (htexts : json.texts = true) {detail : ParsedDetail}
    (h : parseDetail (some json) = .ok detail) :
    TypedDetail ⟨detail.info, detail.name, detail.versions, detail.files⟩ ∧
      Meta.fromUpstream (some detail.info.apiVersion) detail.info.projectStatus
        detail.info.projectStatusReason = .ok detail.info := by
  unfold parseDetail at h
  rw [Option.bind_some] at h
  cases hread : IncomingDetail.ofJson json with
  | none =>
    rw [hread] at h
    cases h
  | some incoming =>
    rw [hread] at h
    cases hmeta : incoming.info.intoMeta with
    | error error =>
      simp only [hmeta, bind, Except.bind] at h
      cases h
    | ok info =>
      simp only [hmeta, bind, Except.bind] at h
      cases h
      refine ⟨?_, fromUpstream_again _ _ _ info hmeta⟩
      obtain ⟨hserved, hstatus, hreason, -⟩ := fromUpstream_eq _ _ _ info hmeta
      unfold IncomingDetail.ofJson at hread
      obtain ⟨field, hstruct, h⟩ := Option.bind_eq_some_iff.mp hread
      have hfield := texts_lookup htexts hstruct
      obtain ⟨found, hinfo, h⟩ := Option.bind_eq_some_iff.mp h
      obtain ⟨nameJson, hnameJson, h⟩ := Option.bind_eq_some_iff.mp h
      obtain ⟨name, hname, h⟩ := Option.bind_eq_some_iff.mp h
      obtain ⟨versions, hversions, h⟩ := Option.bind_eq_some_iff.mp h
      obtain ⟨files, hfiles, h⟩ := Option.bind_eq_some_iff.mp h
      cases h
      have htyped := orDefault_holds (p := fun info : IncomingMeta =>
          (∀ text ∈ info.projectStatus, Str.IsUtf8 text) ∧
            ∀ text ∈ info.projectStatusReason, Str.IsUtf8 text)
        ⟨fun _ hmem => (by cases hmem), fun _ hmem => (by cases hmem)⟩
        (fun json hjson _ => metaOfJson_typed (hfield _ json hjson)) hinfo
      exact {
        apiVersion := servedVersion_utf8 hserved
        projectStatus := hstatus ▸ htyped.1
        projectStatusReason := hreason ▸ htyped.2
        name := asStr_text (hfield _ nameJson hnameJson) hname
        versions := orDefault_holds (p := fun versions => ∀ version ∈ versions, Str.IsUtf8 version)
          (fun _ hmem => absurd hmem List.not_mem_nil) (fun json hjson values hread value hvalue => by
            obtain ⟨item, hitem, hfound⟩ := mem_of_array (hfield _ json hjson) hread value hvalue
            exact asStr_text hitem hfound) hversions
        files := orDefault_holds (p := fun files => ∀ file ∈ files, TypedFile file)
          (fun _ hmem => absurd hmem List.not_mem_nil) (fun json hjson values hread value hvalue => by
            obtain ⟨item, hitem, hfound⟩ := mem_of_array (hfield _ json hjson) hread value hvalue
            exact fileOfJson_typed hitem hfound) hfiles }

/-! ### What is written nests four deep at most -/

theorem hashes_object {hashes : Hashes} (h : TextHashes hashes) :
    (hashesToJson hashes).Sound ∧ (hashesToJson hashes).nesting ≤ 1 := by
  refine Members.object ⟨fun member hmember => ?_, ?_⟩
  · obtain ⟨hash, hmem, rfl⟩ := List.mem_map.mp hmember
    have htext := h hash.1 hash.2 (Std.ExtTreeMap.mem_toList_iff_getElem?_eq_some.mp hmem)
    exact ⟨htext.1, .string _ htext.2⟩
  · induction hashes.toList with
    | nil => exact Nat.le_refl _
    | cons hash rest ih => exact Nat.max_le.mpr ⟨Nat.le_refl _, ih⟩

theorem metadata_value {metadata : CoreMetadata} (h : TextMetadata metadata) :
    (metadataToJson metadata).Sound ∧ (metadataToJson metadata).nesting ≤ 1 := by
  cases metadata with
  | absent => exact ⟨.bool _, Nat.zero_le _⟩
  | available => exact ⟨.bool _, Nat.zero_le _⟩
  | hashes hashes => exact hashes_object (h hashes rfl)

theorem string_value {text : Str} (h : Str.IsUtf8 text) (depth : Nat) :
    (Json.string text).Sound ∧ (Json.string text).nesting ≤ depth := ⟨.string text h, Nat.zero_le _⟩

theorem strings_value {value : Option Str} (h : ∀ text ∈ value, Str.IsUtf8 text) (depth : Nat) :
    ∀ json ∈ value.map Json.string, json.Sound ∧ json.nesting ≤ depth := by
  intro json hjson
  obtain ⟨text, htext, rfl⟩ := Option.map_eq_some_iff.mp hjson
  exact string_value (h text htext) depth

theorem yanked_value {yanked : Yanked} (h : ∀ text, yanked = .reason text → Str.IsUtf8 text) :
    (yankedToJson yanked).Sound ∧ (yankedToJson yanked).nesting ≤ 1 := by
  cases yanked with
  | no => exact ⟨.bool _, Nat.zero_le _⟩
  | yes => exact ⟨.bool _, Nat.zero_le _⟩
  | reason text => exact string_value (h text rfl) 1

theorem provenance_value {provenance : Provenance}
    (h : ∀ url, provenance = .url url → Str.IsUtf8 url) :
    ∀ json ∈ provenanceToJson provenance, json.Sound ∧ json.nesting ≤ 1 := by
  intro json hjson
  cases provenance with
  | absent => cases hjson
  | null =>
    cases hjson
    exact ⟨.null, Nat.zero_le _⟩
  | url url =>
    cases hjson
    exact string_value (h url rfl) 1

theorem file_object {file : File} (h : TypedFile file) :
    (fileToJson file).Sound ∧ (fileToJson file).nesting ≤ 2 := by
  refine Members.object (Members.presentFields 1 _ ?_)
  have hsome : ∀ value : Json, value.Sound ∧ value.nesting ≤ 1 →
      ∀ json ∈ some value, json.Sound ∧ json.nesting ≤ 1 :=
    fun value hvalue json hjson => Option.some.inj hjson ▸ hvalue
  have hmetadata := metadata_value h.metadata
  have hsize : ∀ json ∈ file.size.map fun size => Json.number (Str.decimal size),
      json.Sound ∧ json.nesting ≤ 1 := by
    intro json hjson
    obtain ⟨size, hmem, rfl⟩ := Option.map_eq_some_iff.mp hjson
    exact ⟨.number size (h.size size hmem), Nat.zero_le _⟩
  have hdist : ∀ json ∈ (if file.metadata.isAbsent then none else some (metadataToJson file.metadata)),
      json.Sound ∧ json.nesting ≤ 1 := by
    split
    · exact fun _ hjson => by cases hjson
    · exact hsome _ hmetadata
  have hsig : ∀ json ∈ file.gpgSig.map Json.bool, json.Sound ∧ json.nesting ≤ 1 := by
    intro json hjson
    obtain ⟨signed, _, rfl⟩ := Option.map_eq_some_iff.mp hjson
    exact ⟨.bool signed, Nat.zero_le _⟩
  simp only [fileEntries, List.forall_mem_cons]
  exact ⟨⟨Str.isUtf8_str _, hsome _ (string_value h.filename 1)⟩,
    ⟨Str.isUtf8_str _, hsome _ (string_value h.url 1)⟩,
    ⟨Str.isUtf8_str _, hsome _ (hashes_object h.hashes)⟩,
    ⟨Str.isUtf8_str _, strings_value h.requiresPython 1⟩, ⟨Str.isUtf8_str _, hsize⟩,
    ⟨Str.isUtf8_str _, strings_value h.uploadTime 1⟩,
    ⟨Str.isUtf8_str _, hsome _ (yanked_value h.yanked)⟩, ⟨Str.isUtf8_str _, hsome _ hmetadata⟩,
    ⟨Str.isUtf8_str _, hdist⟩, ⟨Str.isUtf8_str _, hsig⟩,
    ⟨Str.isUtf8_str _, provenance_value h.provenance⟩, fun _ hmem => absurd hmem List.not_mem_nil⟩

theorem array_value {α : Type} {write : α → Json} {values : List α} {depth : Nat}
    (h : ∀ value ∈ values, (write value).Sound ∧ (write value).nesting ≤ depth) :
    (Json.array (values.map write)).Sound ∧ (Json.array (values.map write)).nesting ≤ depth + 1 := by
  have hall : ∀ item ∈ values.map write, item.Sound ∧ item.nesting ≤ depth := by
    intro item hitem
    obtain ⟨value, hvalue, rfl⟩ := List.mem_map.mp hitem
    exact h value hvalue
  exact ⟨.array _ fun item hitem => (hall item hitem).1,
    Nat.succ_le_succ (nestingItems_le _ fun item hitem => (hall item hitem).2)⟩

theorem detail_object {detail : ProjectDetail} (h : TypedDetail detail) :
    (Json.object (presentFields (detailEntries detail))).Sound ∧
      (Json.object (presentFields (detailEntries detail))).nesting ≤ 4 := by
  have hinfo : Members 2 (presentFields (metaEntries detail.info)) := by
    refine Members.presentFields 2 _ ?_
    simp only [metaEntries, List.forall_mem_cons]
    exact ⟨⟨Str.isUtf8_str _, fun _ hjson => Option.some.inj hjson ▸ string_value h.apiVersion 2⟩,
      ⟨Str.isUtf8_str _, strings_value h.projectStatus 2⟩,
      ⟨Str.isUtf8_str _, strings_value h.projectStatusReason 2⟩,
      fun _ hmem => absurd hmem List.not_mem_nil⟩
  refine Members.object (Members.presentFields 3 _ ?_)
  have hversions : (Json.array (detail.versions.map .string)).Sound ∧
      (Json.array (detail.versions.map .string)).nesting ≤ 3 :=
    array_value fun version hversion => string_value (h.versions version hversion) 2
  have hfiles : (Json.array (detail.files.map fileToJson)).Sound ∧
      (Json.array (detail.files.map fileToJson)).nesting ≤ 3 :=
    array_value fun file hfile => file_object (h.files file hfile)
  simp only [detailEntries, List.forall_mem_cons]
  exact ⟨⟨Str.isUtf8_str _, fun _ hjson => Option.some.inj hjson ▸ hinfo.object⟩,
    ⟨Str.isUtf8_str _, fun _ hjson => Option.some.inj hjson ▸ string_value h.name 3⟩,
    ⟨Str.isUtf8_str _, fun _ hjson => Option.some.inj hjson ▸ hversions⟩,
    ⟨Str.isUtf8_str _, fun _ hjson => Option.some.inj hjson ▸ hfiles⟩,
    fun _ hmem => absurd hmem List.not_mem_nil⟩

/-! ### Stored pages -/

/-- What `serde_json` does with slices: it reads what it writes where the brackets are not too
deep, and its strings are UTF-8. -/
structure Reads (fromSlice : Bytes → Option Json) : Prop where
  written : ∀ value : Json, value.Sound → value.nesting < 128 → fromSlice value.write = some value
  texts : ∀ bytes value, fromSlice bytes = some value → value.texts = true

def Parses (urls : UrlParser) : Prop :=
  ∀ base url resolved, urls.join base url = some resolved → urls.parses resolved = true

structure EffectiveFile where
  filename : Str
  url : Str
  hashes : Hashes
  requiresPython : Option Str
  size : Option Nat
  uploadTime : Option Str
  yanked : Yanked
  metadata : CoreMetadata
  gpgSig : Option Bool
  provenance : Provenance

structure EffectivePage where
  info : Meta
  name : Str
  versions : List Str
  files : List EffectiveFile

section Effective
variable (urls : UrlParser) (base : Str)

def effectiveFile (file : File) : EffectiveFile :=
  { file with url := urls.absolutize base file.url, metadata := file.metadata }

def effective (detail : ParsedDetail) : EffectivePage :=
  { detail with files := detail.files.map (effectiveFile urls base) }

def resolvedFile (file : File) : File := { file with url := urls.absolutize base file.url }

def resolved (detail : ParsedDetail) : ProjectDetail :=
  ⟨detail.info, detail.name, detail.versions, detail.files.map (resolvedFile urls base)⟩

theorem canonicalJson_ok (fromSlice : Bytes → Option Json) {body : Bytes} {detail : ParsedDetail}
    (h : parseDetail (fromSlice body) = .ok detail) :
    canonicalJson fromSlice urls body base = .ok (toJson (resolved urls base detail)) := by
  unfold canonicalJson
  rw [h]
  rfl

end Effective

section Pages
variable {fromSlice : Bytes → Option Json} {urls : UrlParser}

theorem absolutize_again (hparses : Parses urls) (base url : Str) :
    urls.absolutize base (urls.absolutize base url) = urls.absolutize base url := by
  unfold UrlParser.absolutize
  cases hurl : urls.parses url with
  | true => simp [hurl]
  | false =>
    cases hjoin : urls.join base url with
    | none => simp [hurl, hjoin]
    | some joined => simp [hparses base url joined hjoin]

theorem metadata_storedFile (file : File) : (storedFile file).metadata = file.metadata := by
  unfold storedFile File.setMetadata
  exact ite_self _

theorem fileToJson_storedFile (hparses : Parses urls) (base : Str) (file : File) :
    fileToJson (resolvedFile urls base (storedFile (resolvedFile urls base file))) =
      fileToJson (resolvedFile urls base file) := by
  have hmetadata := metadata_storedFile (resolvedFile urls base file)
  have hurl := absolutize_again hparses base file.url
  have hentries : fileEntries (resolvedFile urls base (storedFile (resolvedFile urls base file))) =
      fileEntries (resolvedFile urls base file) := by
    have hsame : (resolvedFile urls base (storedFile (resolvedFile urls base file))).metadata =
        (resolvedFile urls base file).metadata := hmetadata
    unfold fileEntries
    rw [hsame]
    unfold resolvedFile storedFile File.setMetadata
    dsimp only
    rw [hurl]
  unfold fileToJson
  rw [hentries]

theorem effectiveFile_storedFile (hparses : Parses urls) (base : Str) (file : File) :
    effectiveFile urls base (storedFile (resolvedFile urls base file)) =
      effectiveFile urls base file := by
  have hmetadata := metadata_storedFile (resolvedFile urls base file)
  have hurl := absolutize_again hparses base file.url
  unfold effectiveFile
  rw [hmetadata]
  unfold resolvedFile storedFile File.setMetadata
  dsimp only
  rw [hurl]
  rfl

theorem typed_resolved (hurls : urls.Written) (base : Str) {detail : ParsedDetail}
    (h : TypedDetail ⟨detail.info, detail.name, detail.versions, detail.files⟩) :
    TypedDetail (resolved urls base detail) := by
  refine { h with files := fun file hfile => ?_ }
  obtain ⟨source, hsource, rfl⟩ := List.mem_map.mp hfile
  have htyped := h.files source hsource
  exact { htyped with url := absolutize_isUtf8 urls hurls base source.url htyped.url }

theorem parseDetail_stored (hjson : Reads fromSlice) (hurls : urls.Written) (base : Str)
    {body : Bytes} {detail : ParsedDetail} (h : parseDetail (fromSlice body) = .ok detail) :
    parseDetail (fromSlice (toJson (resolved urls base detail))) =
      .ok ⟨detail.info, detail.name, detail.versions,
        detail.files.map fun file => storedFile (resolvedFile urls base file)⟩ := by
  obtain ⟨json, hread⟩ : ∃ json, fromSlice body = some json := by
    cases hread : fromSlice body with
    | none =>
      rw [hread] at h
      cases h
    | some json => exact ⟨json, rfl⟩
  rw [hread] at h
  obtain ⟨htyped, hagain⟩ := parseDetail_typed (hjson.texts body json hread) h
  have hstored := typed_resolved hurls base htyped
  obtain ⟨hsound, hnesting⟩ := detail_object hstored
  have hback := hjson.written _ hsound (by omega)
  have hdetail := detailOfJson_toJson (resolved urls base detail)
    fun file hfile => (hstored.files file hfile).size
  have hagain' : (IncomingMeta.mk (some detail.info.apiVersion) detail.info.projectStatus
      detail.info.projectStatusReason).intoMeta = .ok detail.info := hagain
  unfold toJson
  rw [hback]
  unfold parseDetail
  rw [Option.bind_some, hdetail]
  dsimp only [resolved]
  rw [hagain', List.map_map]
  rfl

/-- A page that is accepted is stored; what is stored is stored again as it is, and says of
every file what the page says. -/
theorem canonical_pages (hjson : Reads fromSlice) (hurls : urls.Written) (hparses : Parses urls)
    (body : Bytes) (base : Str) (detail : ParsedDetail)
    (h : parseDetail (fromSlice body) = .ok detail) :
    ∃ bytes again, canonicalJson fromSlice urls body base = .ok bytes ∧
      canonicalJson fromSlice urls bytes base = .ok bytes ∧
      parseDetail (fromSlice bytes) = .ok again ∧
      effective urls base again = effective urls base detail ∧
      again.files.map (·.url) = detail.files.map fun file => urls.absolutize base file.url := by
  have hback := parseDetail_stored hjson hurls base h
  refine ⟨_, _, canonicalJson_ok urls base fromSlice h, ?_, hback, ?_, ?_⟩
  · rw [canonicalJson_ok urls base fromSlice hback]
    have hfiles : (detail.files.map fun file =>
        fileToJson (resolvedFile urls base (storedFile (resolvedFile urls base file)))) =
        detail.files.map fun file => fileToJson (resolvedFile urls base file) :=
      List.map_congr_left fun file _ => fileToJson_storedFile hparses base file
    unfold toJson detailEntries resolved
    simp only [List.map_map, Function.comp_def, hfiles]
  · unfold effective
    simp only [List.map_map, Function.comp_def, effectiveFile_storedFile hparses base]
  · rw [List.map_map]
    rfl

end Pages

def readTexts (bytes : Bytes) : Option Json := (Json.read bytes).filter texts

theorem reads_readTexts : Reads readTexts where
  written value h _ := by
    unfold readTexts
    rw [read_write value h, Option.filter_some, if_pos h.texts]
  texts _ _ h := (Option.filter_eq_some_iff.mp h).2

/-- URLs of one scheme, and names that are resolved against a directory. -/
def directoryUrls : UrlParser where
  parses url := Str.startsWith url (str "https://")
  join base url :=
    if Str.startsWith base (str "https://") ∧ (base ++ url).all fun byte => byte < 0x80 ∧ byte ≠ 0x0A
    then some (base ++ url) else none

theorem directoryUrls_written : directoryUrls.Written := by
  intro base url resolved h
  unfold directoryUrls at h
  dsimp only at h
  split at h
  · rename_i hplain
    cases h
    exact Str.forall_of_all hplain.2
  · cases h

theorem directoryUrls_parses : Parses directoryUrls := by
  intro base url resolved h
  unfold directoryUrls at h ⊢
  dsimp only at h ⊢
  split at h
  · rename_i hbase
    cases h
    exact (Str.startsWith_iff _ _).mpr (((Str.startsWith_iff _ _).mp hbase.1).trans (List.prefix_append _ _))
  · cases h

def demoFile : File where
  filename := str "demo-1.whl"
  url := str "demo-1.whl"
  yanked := .reason (str "broken")
  distInfoMetadata := .available

def demoFileJson : Json :=
  .object [(str "filename", .string (str "demo-1.whl")), (str "url", .string (str "demo-1.whl")),
    (str "yanked", .string (str "broken")), (str "dist-info-metadata", .bool true)]

def demoPage : Json := .object [(str "name", .string (str "demo")), (str "files", .array [demoFileJson])]

def demoDetail : ParsedDetail := ⟨{ apiVersion := apiVersionBase }, str "demo", [], [demoFile]⟩

theorem demoPage_sound : demoPage.Sound ∧ demoPage.nesting ≤ 3 := by
  have hname : ∀ name : String, (Json.string (str name)).Sound :=
    fun name => .string _ (Str.isUtf8_str name)
  have hfile : demoFileJson.Sound ∧ demoFileJson.nesting ≤ 1 :=
    Members.object (.cons "filename" _ (hname "demo-1.whl") (Nat.zero_le _)
      (.cons "url" _ (hname "demo-1.whl") (Nat.zero_le _)
        (.cons "yanked" _ (hname "broken") (Nat.zero_le _)
          (.cons "dist-info-metadata" _ (.bool true) (Nat.zero_le _) .nil))))
  have hfiles : (Json.array [demoFileJson]).Sound := by
    refine .array _ fun item hitem => ?_
    rw [List.mem_singleton.mp hitem]
    exact hfile.1
  exact Members.object (.cons "name" _ (hname "demo") (Nat.zero_le _)
    (.cons "files" _ hfiles (Nat.succ_le_succ (Nat.max_le.mpr ⟨hfile.2, Nat.zero_le _⟩)) .nil))

theorem demoPage_read : parseDetail (readTexts demoPage.write) = .ok demoDetail := by
  obtain ⟨hsound, hnesting⟩ := demoPage_sound
  rw [reads_readTexts.written demoPage hsound (by omega)]
  rfl

theorem demo_stored : ∃ bytes again,
    canonicalJson readTexts directoryUrls demoPage.write (str "https://files.example/demo/") = .ok bytes ∧
      canonicalJson readTexts directoryUrls bytes (str "https://files.example/demo/") = .ok bytes ∧
      parseDetail (readTexts bytes) = .ok again ∧
      again.files.map (·.url) = [str "https://files.example/demo/demo-1.whl"] := by
  obtain ⟨bytes, again, hstored, hsame, hread, -, hurls⟩ := canonical_pages reads_readTexts
    directoryUrls_written directoryUrls_parses demoPage.write (str "https://files.example/demo/")
    demoDetail demoPage_read
  exact ⟨bytes, again, hstored, hsame, hread, hurls.trans (by decide)⟩

end Peryx.Pypi.Stored
