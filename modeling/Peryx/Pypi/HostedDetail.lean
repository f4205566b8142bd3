import Peryx.Library.Outcome
import Peryx.Pypi.HostedChanges
import Peryx.Pypi.Resolve

/-!
# What a hosted index lists, and what comes onto it (cache/resolve.rs:408-441, cache/mutate.rs:55-129, upload.rs)
-/

namespace Peryx.Pypi
open Storage

section Detail
variable (json : UploadJson)

def localDetail (rows : Rows) (name project : Str) : Except HostedError (Option ProjectDetail) := do
  let entries := listUploadEntries rows name project
  if entries.isEmpty then return none
  let uploads ← entries.mapM fun entry => decodeUploaded json entry.2
  let live := uploads.filter fun uploaded => uploaded.trashed.isNone
  if live.isEmpty then return none
  return some (applyProjectStatus
    { name := project
      versions := (Std.ExtTreeSet.ofList (live.map Uploaded.version)).toList
      files := live.map Uploaded.file })

theorem mem_listUploadEntries (rows : Rows) (index normalized filename : Str) (record : Bytes) :
    (filename, record) ∈ listUploadEntries rows index normalized ↔
      rows[uploadKey index normalized filename]? = some record := by
  unfold listUploadEntries
  rw [List.mem_filterMap]
  constructor
  · rintro ⟨key, hkey, hentry⟩
    obtain ⟨_, rest, rfl⟩ := (mem_keysUnder rows _ key).mp hkey
    obtain ⟨found, hfound, heq⟩ := Option.map_eq_some_iff.mp hentry
    rw [List.drop_left] at heq
    cases heq
    exact hfound
  · intro h
    refine ⟨uploadKey index normalized filename, (mem_keysUnder _ _ _).mpr
      ⟨by rw [h]; rfl, List.prefix_append _ _⟩, ?_⟩
    rw [h, Option.map_some]
    exact congrArg (fun name => some (name, record)) List.drop_left

def RecordsRead (rows : Rows) (index normalized : Str) : Prop :=
  ∀ filename record, rows[uploadKey index normalized filename]? = some record →
    (json.readUploaded record).isSome

def HasRecord (rows : Rows) (index normalized filename : Str) (uploaded : Uploaded) : Prop :=
  ∃ record, rows[uploadKey index normalized filename]? = some record ∧
    json.readUploaded record = some uploaded

def Lists (ofVersion : Str → Bool) (rows : Rows) (index normalized : Str)
    (shown : Str × Option Str) : Prop :=
  ∃ filename uploaded, HasRecord json rows index normalized filename uploaded ∧
    uploaded.trashed = none ∧ ofVersion uploaded.version = true ∧
    (uploaded.file.filename, uploaded.file.sha256) = shown

theorem decodeUploaded_eq_ok (record : Bytes) (uploaded : Uploaded) :
    decodeUploaded json record = .ok uploaded ↔ json.readUploaded record = some uploaded := by
  unfold decodeUploaded
  cases hread : json.readUploaded record with
  | none => exact ⟨nofun, nofun⟩
  | some found => exact ⟨fun h => by cases h; rfl, fun h => by cases h; rfl⟩

theorem mapM_of_forall (entries : List (Str × Bytes))
    (h : ∀ entry ∈ entries, (json.readUploaded entry.2).isSome) :
    ∃ uploads, entries.mapM (fun entry => decodeUploaded json entry.2) = .ok uploads := by
  induction entries with
  | nil => exact ⟨[], rfl⟩
  | cons entry entries ih =>
    obtain ⟨uploads, hrest⟩ := ih fun e he => h e (List.mem_cons_of_mem _ he)
    obtain ⟨uploaded, hread⟩ := Option.isSome_iff_exists.mp (h entry List.mem_cons_self)
    refine ⟨uploaded :: uploads, (mapM_cons_ok _ _ _ _).mpr ⟨uploaded, uploads, ?_, hrest, rfl⟩⟩
    exact (decodeUploaded_eq_ok json _ _).mpr hread

theorem mapM_mem (entries : List (Str × Bytes)) (uploads : List Uploaded)
    (h : entries.mapM (fun entry => decodeUploaded json entry.2) = .ok uploads) (uploaded : Uploaded) :
    uploaded ∈ uploads ↔ ∃ entry ∈ entries, json.readUploaded entry.2 = some uploaded := by
  rw [mapM_ok_mem_iff _ _ _ h]
  simp only [decodeUploaded_eq_ok]

def livePage (project : Str) (uploads : List Uploaded) : Option ProjectDetail :=
  let live := uploads.filter fun uploaded => uploaded.trashed.isNone
  if live.isEmpty then none
  else some (applyProjectStatus
    { name := project
      versions := (Std.ExtTreeSet.ofList (live.map Uploaded.version)).toList
      files := live.map Uploaded.file })

theorem localDetail_eq_ok (rows : Rows) (index normalized : Str) (detail : Option ProjectDetail) :
    localDetail json rows index normalized = .ok detail ↔ ∃ uploads,
      (listUploadEntries rows index normalized).mapM (fun entry => decodeUploaded json entry.2) =
        .ok uploads ∧ detail = livePage normalized uploads := by
  unfold localDetail livePage
  cases hentries : listUploadEntries rows index normalized with
  | nil =>
    constructor
    · intro h
      cases h
      exact ⟨[], rfl, rfl⟩
    · rintro ⟨uploads, huploads, rfl⟩
      cases huploads
      rfl
  | cons entry entries =>
    simp only [List.isEmpty_cons, Bool.false_eq_true, if_false]
    constructor
    · intro h
      obtain ⟨uploads, huploads, h⟩ := (bind_eq_ok _ _ _).mp h
      refine ⟨uploads, huploads, ?_⟩
      split at h <;> cases h
      · rename_i hempty
        rw [if_pos hempty]
      · rename_i hlive
        rw [if_neg hlive]
    · rintro ⟨uploads, huploads, rfl⟩
      refine (bind_eq_ok _ _ _).mpr ⟨uploads, huploads, ?_⟩
      split
      · rfl
      · rfl

theorem localDetail_ok (rows : Rows) (index normalized : Str) :
    (∃ detail, localDetail json rows index normalized = .ok detail) ↔
      RecordsRead json rows index normalized := by
  constructor
  · rintro ⟨detail, h⟩ filename record hrow
    obtain ⟨uploads, huploads, _⟩ := (localDetail_eq_ok json _ _ _ _).mp h
    have hentry := (mem_listUploadEntries rows index normalized filename record).mpr hrow
    obtain ⟨uploaded, hread⟩ := mapM_ok_forall _ _ _ huploads _ hentry
    rw [(decodeUploaded_eq_ok json _ _).mp hread]
    rfl
  · intro h
    obtain ⟨uploads, huploads⟩ := mapM_of_forall json (listUploadEntries rows index normalized)
      fun entry hentry => h entry.1 entry.2 ((mem_listUploadEntries _ _ _ _ _).mp hentry)
    exact ⟨_, (localDetail_eq_ok json _ _ _ _).mpr ⟨uploads, huploads, rfl⟩⟩

theorem localDetail_lists (rows : Rows) (index normalized : Str) (detail : Option ProjectDetail)
    (h : localDetail json rows index normalized = .ok detail) (shown : Str × Option Str) :
    (∃ page, detail = some page ∧ ∃ file ∈ page.files, (file.filename, file.sha256) = shown) ↔
      Lists json (fun _ => true) rows index normalized shown := by
  obtain ⟨uploads, huploads, rfl⟩ := (localDetail_eq_ok json _ _ _ _).mp h
  have hmem := fun uploaded => mapM_mem json _ uploads huploads uploaded
  unfold livePage
  constructor
  · rintro ⟨page, hpage, file, hfile, hshown⟩
    dsimp only at hpage
    split at hpage
    · cases hpage
    · cases hpage
      obtain ⟨uploaded, hlive, rfl⟩ := List.mem_map.mp hfile
      obtain ⟨hupload, htrashed⟩ := List.mem_filter.mp hlive
      obtain ⟨⟨filename, record⟩, hentry, hread⟩ := (hmem uploaded).mp hupload
      exact ⟨filename, uploaded, ⟨record, (mem_listUploadEntries _ _ _ _ _).mp hentry, hread⟩,
        Option.isNone_iff_eq_none.mp htrashed, rfl, hshown⟩
  · rintro ⟨filename, uploaded, ⟨record, hrow, hread⟩, htrashed, _, hshown⟩
    have hupload := (hmem uploaded).mpr
      ⟨(filename, record), (mem_listUploadEntries _ _ _ _ _).mpr hrow, hread⟩
    have hlive : uploaded ∈ uploads.filter fun uploaded => uploaded.trashed.isNone :=
      List.mem_filter.mpr ⟨hupload, Option.isNone_iff_eq_none.mpr htrashed⟩
    dsimp only
    rw [if_neg fun hempty => List.ne_nil_of_mem hlive (List.isEmpty_iff.mp hempty)]
    exact ⟨_, rfl, uploaded.file, List.mem_map_of_mem hlive, hshown⟩

end Detail

/-- What `prepare` has established of an upload when it puts its record together. -/
structure UploadParts where
  index : Str
  normalized : Str
  displayName : Str
  filename : Str
  version : Str
  content : Bytes
  metadata : Bytes
  provenance : Option Bytes
  provenanceMarker : Provenance
  attestationPredicateTypes : Std.ExtTreeSet Str
  requiresPython : Option Str
  uploadTime : Str
  uploadTimeUnix : Int

/-- The end of `prepare`, with `uploaded_file`. -/
def UploadParts.prepared (sha256 : Bytes → Str) (parts : UploadParts) : PreparedUpload :=
  let digest := sha256 parts.content
  { normalized := parts.normalized
    displayName := parts.displayName
    filename := parts.filename
    content := parts.content
    metadata := parts.metadata
    provenance := parts.provenance
    attestationPredicateTypes := parts.attestationPredicateTypes
    record :=
      { version := parts.version
        file :=
          { filename := parts.filename
            url := Core.localFileUrl parts.index digest parts.filename
            hashes := Std.ExtTreeMap.ofList [(str "sha256", digest)]
            requiresPython := parts.requiresPython
            size := some parts.content.length
            uploadTime := some parts.uploadTime
            provenance := parts.provenanceMarker } }
    submittedAtUnix := parts.uploadTimeUnix }

inductive PromoteError where
  | hosted (error : TxnError HostedError)
  | missingSha256 (filename : Str)
  | noPromotableFiles (source project version : Str)
  deriving Repr, DecidableEq

section Promote
variable (json : UploadJson) (pep : Pep440) [BEq pep.Version]

def promotedRecord (targetRoute version : Str) (entry : Str × Bytes) :
    Except PromoteError (Option (PromotedFile × Option Nat)) :=
  match json.readUploaded entry.2 with
  | none => .error (.hosted (.body (.upload .parse)))
  | some uploaded =>
    if !versionsMatch pep uploaded.version version then .ok none
    else match uploaded.file.sha256 with
      | none => .error (.missingSha256 entry.1)
      | some digest =>
        .ok (some (⟨entry.1, digest, json.uploaded
          { uploaded with file :=
            { uploaded.file with url := Core.localFileUrl targetRoute digest entry.1 } }⟩,
          uploaded.file.size))

def blobSizes (records : List (PromotedFile × Option Nat)) : Table Str Nat :=
  records.foldl (fun sizes record => match record.2 with
    | some size => sizes.insert record.1.token size
    | none => sizes) ∅

variable (recordVersion : Bytes → Option Str)

/-- `promote_release`, given what it has listed of the source. -/
def promoteRelease (entries : List (Str × Bytes)) (display : Option Str)
    (source target targetRoute normalized version : Str) (submittedAtUnix : Int)
    (store : MetaStore) : Except PromoteError (Nat × MetaStore) := do
  let found ← entries.mapM (promotedRecord json pep targetRoute version)
  let records := found.filterMap id
  if records.isEmpty then .error (.noPromotableFiles source normalized version)
  else
    let release : PromotedRelease :=
      { index := target
        normalized := normalized
        display := display.getD normalized
        records := records.map Prod.fst
        blobSizes := blobSizes records
        submittedAtUnix := submittedAtUnix }
    match (HostedTxn.promote release).apply json pep recordVersion .never store with
    | (.ok promoted, store) => .ok (promoted, store)
    | (.error error, _) => .error (.hosted error)

end Promote

end Peryx.Pypi
