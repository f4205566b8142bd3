import Peryx.Pypi.AuditedRows
import Peryx.Pypi.HostedServed

/-! # Writers and the maintenance commands -/

namespace Peryx.Pypi
open Storage

section Bodies
variable {law : Str → Bytes → Prop} {ε : Type} (json : UploadJson)
  (recordVersion : Bytes → Option Str)

theorem bodyObeys_publishFile (file : PublishedFile) (guard : Option Bytes → Except ε Guard)
    (h : ∀ op ∈ file.ops, op.OnlyPuts ∧ ∀ put ∈ op.puts, law put.1 put.2) :
    BodyObeys law (fun _ => True) (publishFileTxn json file guard) := by
  refine (bodyObeys_get (uploadKey file.index file.normalized file.filename)).bind fun row hrow => ?_
  cases guard row with
  | error error => exact bodyObeys_pure _ trivial
  | ok verdict =>
    cases verdict with
    | skip => exact bodyObeys_pure _ trivial
    | commit =>
      have hops := bodyObeys_calls file.ops (fun op hop => (h op hop).1) fun op hop => (h op hop).2
      exact hops.bind fun _ _ => bodyObeys_pure _ trivial

theorem bodyObeys_promoteRecords (release : PromotedRelease)
    (guard : Str → Str → Option Bytes → Except ε Guard) (files : List PromotedFile)
    (h : ∀ file ∈ files, ∀ op ∈ release.ops file, op.OnlyPuts ∧ ∀ put ∈ op.puts, law put.1 put.2)
    (written : Nat) (journal : List JournalEntry) :
    BodyObeys law (fun _ => True)
      (promoteRecords recordVersion release guard files written journal) := by
  induction files generalizing written journal with
  | nil => exact bodyObeys_pure _ trivial
  | cons file files ih =>
    have hrest := ih fun other hother => h other (List.mem_cons_of_mem _ hother)
    refine (bodyObeys_get (uploadKey release.index release.normalized file.filename)).bind
      fun row hrow => ?_
    cases guard file.filename file.token row with
    | error error => exact bodyObeys_pure _ trivial
    | ok verdict =>
      cases verdict with
      | skip => exact hrest written journal
      | commit =>
        have hfile := h file List.mem_cons_self
        have hops := bodyObeys_calls (release.ops file) (fun op hop => (hfile op hop).1)
          fun op hop => (hfile op hop).2
        exact hops.bind fun _ _ => hrest _ _

theorem bodyObeys_promoteFiles (release : PromotedRelease)
    (guard : Str → Str → Option Bytes → Except ε Guard)
    (h : ∀ file ∈ release.records, ∀ op ∈ release.ops file,
      op.OnlyPuts ∧ ∀ put ∈ op.puts, law put.1 put.2)
    (hproject : law (projectKey release.index release.normalized) release.display) :
    BodyObeys law (fun _ => True) (promoteFilesTxn json recordVersion release guard) := by
  refine (bodyObeys_promoteRecords recordVersion release guard release.records h 0 []).bind
    fun ending _ => ?_
  rcases ending with error | ⟨_ | written, journal⟩
  · exact bodyObeys_pure _ trivial
  · exact bodyObeys_pure _ trivial
  · exact (bodyObeys_put hproject).bind fun _ _ => bodyObeys_pure _ trivial

theorem bodyObeys_mutateRows (index normalized action : Str) (submittedAtUnix : Int)
    (mutate : Str → Bytes → Except ε UploadMutation)
    (hmutate : ∀ filename record bytes, law (uploadKey index normalized filename) record →
      mutate filename record = .ok (.replace bytes) → law (uploadKey index normalized filename) bytes)
    (rows : List (Str × Bytes))
    (hrows : ∀ row ∈ rows, projectUploadsPrefix index normalized <+: row.1 ∧ law row.1 row.2)
    (journal : List JournalEntry) : BodyObeys law (fun _ => True)
      (mutateRows recordVersion index normalized action submittedAtUnix mutate rows journal) := by
  induction rows generalizing journal with
  | nil => exact bodyObeys_pure _ trivial
  | cons row rows ih =>
    have hrest := ih fun other hother => hrows other (List.mem_cons_of_mem _ hother)
    obtain ⟨⟨filename, hkey⟩, hlaw⟩ := hrows row List.mem_cons_self
    obtain ⟨key, record⟩ := row
    obtain rfl : projectUploadsPrefix index normalized ++ filename = key := hkey
    unfold mutateRows
    dsimp only
    rw [List.drop_left]
    cases hmutation : mutate filename record with
    | error error => exact bodyObeys_pure _ trivial
    | ok mutation =>
      cases mutation with
      | keep => exact hrest journal
      | replace bytes =>
        exact (bodyObeys_put (hmutate filename record bytes hlaw hmutation)).bind fun _ _ => hrest _
      | delete => exact (bodyObeys_remove _).bind fun _ _ => hrest _

theorem bodyObeys_mutateUploads (index normalized action : Str) (submittedAtUnix : Int)
    (mutate : Str → Bytes → Except ε UploadMutation)
    (hmutate : ∀ filename record bytes, law (uploadKey index normalized filename) record →
      mutate filename record = .ok (.replace bytes) →
        law (uploadKey index normalized filename) bytes) :
    BodyObeys law (fun _ => True)
      (mutateUploadsTxn json recordVersion index normalized action submittedAtUnix mutate) := by
  refine (bodyObeys_scan (projectUploadsPrefix index normalized)).bind fun rows hrows => ?_
  refine (bodyObeys_mutateRows recordVersion index normalized action submittedAtUnix mutate hmutate
    rows hrows []).bind fun ending _ => ?_
  cases ending with
  | error error => exact bodyObeys_pure _ trivial
  | ok journal => exact bodyObeys_pure _ trivial

theorem bodyObeys_deleteUpload (index normalized filename : Str) (submittedAtUnix : Int) :
    BodyObeys law (fun _ => True)
      (deleteUploadTxn (ε := ε) json recordVersion index normalized filename submittedAtUnix) := by
  refine (bodyObeys_get (uploadKey index normalized filename)).bind fun row _ => ?_
  cases row with
  | none => exact bodyObeys_pure _ trivial
  | some record => exact (bodyObeys_remove _).bind fun _ _ => bodyObeys_pure _ trivial

theorem bodyObeys_putOverride (index normalized filename kind : Str) (submittedAtUnix : Int)
    (h : law (overrideKey index normalized filename) kind) :
    BodyObeys law (fun _ => True)
      (putOverrideTxn (ε := ε) json index normalized filename kind submittedAtUnix) := by
  refine (bodyObeys_get (overrideKey index normalized filename)).bind fun row _ => ?_
  split
  · exact bodyObeys_pure _ trivial
  · exact (bodyObeys_put h).bind fun _ _ => bodyObeys_pure _ trivial

theorem bodyObeys_deleteOverride (index normalized filename : Str) (submittedAtUnix : Int) :
    BodyObeys law (fun _ => True)
      (deleteOverrideTxn (ε := ε) json index normalized filename submittedAtUnix) := by
  refine (bodyObeys_get (overrideKey index normalized filename)).bind fun row _ => ?_
  cases row with
  | none => exact bodyObeys_pure _ trivial
  | some prior => exact (bodyObeys_remove _).bind fun _ _ => bodyObeys_pure _ trivial

end Bodies

section Uploads
variable {json : AdminJson} (hjson : json.toUploadJson.Faithful)
include hjson

theorem uploadLaw_uploaded {key sha256 : Str} (hkey : validUploadKey key = true) (uploaded : Uploaded)
    (hsha : uploaded.file.sha256 = some sha256) (hclaims : uploaded.file.SoundClaims) :
    UploadLaw json key (json.uploaded uploaded) := by
  refine ⟨⟨_, sha256, hjson.read uploaded, hsha, fun found hfound => ?_⟩, hkey⟩
  obtain ⟨hdigest, hmetadata⟩ := hclaims found hfound
  refine ⟨hdigest, fun metadata hclaimed => hmetadata metadata ?_⟩
  have hsame : (uploaded.file.setMetadata uploaded.file.metadata).metadata = uploaded.file.metadata :=
    Stored.metadata_storedFile uploaded.file
  unfold claimedMetadata at hclaimed ⊢
  rw [← hsame]
  exact hclaimed

def KeepsClaims (json : UploadJson) (mutate : Str → Bytes → Except HostedError UploadMutation) : Prop :=
  ∀ filename record bytes, mutate filename record = .ok (.replace bytes) → ∃ old new,
    json.readUploaded record = some old ∧ bytes = json.uploaded new ∧
      new.file.hashes = old.file.hashes ∧ new.file.metadata = old.file.metadata

theorem KeepsClaims.lawful {mutate : Str → Bytes → Except HostedError UploadMutation}
    (hmutate : KeepsClaims json.toUploadJson mutate) (index normalized filename : Str)
    (record bytes : Bytes) (h : RowLaw json (uploadKey index normalized filename) record)
    (hrun : mutate filename record = .ok (.replace bytes)) :
    RowLaw json (uploadKey index normalized filename) bytes := by
  obtain ⟨old, new, hread, rfl, hhashes, hmetadata⟩ := hmutate filename record bytes hrun
  rw [uploadKey_eq, rowLaw_upload] at h ⊢
  obtain ⟨⟨found, sha256, hfound, hsha, hclaims⟩, hkey⟩ := h
  obtain rfl := Option.some.inj (hread.symm.trans hfound)
  have hsame : new.file.sha256 = old.file.sha256 := by
    unfold File.sha256
    rw [hhashes]
  refine uploadLaw_uploaded hjson hkey new (hsame.trans hsha) fun digest hdigest => ?_
  have hclaimed : claimedMetadata new.file = claimedMetadata old.file := by
    unfold claimedMetadata
    rw [hmetadata]
  rw [hclaimed]
  exact hclaims digest (hsame.symm.trans hdigest)

end Uploads

section Mutations
variable {json : UploadJson} (pep : Pep440) [BEq pep.Version]

theorem trashUpload_claims (volatile : Bool) (version : Option Str) (trash : TrashContext) :
    KeepsClaims json (trashUpload json pep volatile version trash) := by
  intro filename record bytes h
  obtain ⟨old, hold, h⟩ := (bind_eq_ok _ _ _).mp h
  have hread := (decodeUploaded_eq_ok json record old).mp hold
  split at h
  · cases h
  · split at h
    · cases h
    · cases h
      exact ⟨old, _, hread, rfl, rfl, rfl⟩

theorem untrashUpload_claims (version : Option Str) :
    KeepsClaims json (untrashUpload json pep version) := by
  intro filename record bytes h
  obtain ⟨old, hold, h⟩ := (bind_eq_ok _ _ _).mp h
  have hread := (decodeUploaded_eq_ok json record old).mp hold
  split at h
  · cases h
  · cases h
    exact ⟨old, _, hread, rfl, rfl, rfl⟩

theorem yankUpload_claims (version : Option Str) (yanked : Yanked) :
    KeepsClaims json (yankUpload json pep version yanked) := by
  intro filename record bytes h
  obtain ⟨old, hold, h⟩ := (bind_eq_ok _ _ _).mp h
  have hread := (decodeUploaded_eq_ok json record old).mp hold
  split at h
  · cases h
  · cases h
    exact ⟨old, _, hread, rfl, rfl, rfl⟩

end Mutations

/-- The files of the request have good keys, and no served file is yanked with a reason. -/
def HostedWrite.Sound : HostedWrite → Prop
  | .upload name accepted =>
    validUploadKey (fileSuffix name accepted.normalized accepted.filename) = true
  | .yankServed index normalized filename yanked _ => yanked = .no ∨
    yanked = .yes ∧ validUploadKey (fileSuffix index normalized filename) = true
  | .hideServed index normalized filename _ =>
    validUploadKey (fileSuffix index normalized filename) = true
  | _ => True

section Hosted
variable {json : AdminJson} (hjson : json.toUploadJson.Faithful) {sha256 : Bytes → Str}
  (hsha : ∀ bytes, isDigest (sha256 bytes) = true)
include hjson hsha

theorem uploaded_sound (name : Str) (accepted : AcceptedUpload)
    (hkey : validUploadKey (fileSuffix name accepted.normalized accepted.filename) = true) :
    ∀ op ∈ ((accepted.toUploadParts.prepared sha256).publishedFile json.toUploadJson sha256 name).ops,
      op.OnlyPuts ∧ ∀ put ∈ op.puts, RowLaw json put.1 put.2 := by
  have hblob : ∀ digest size, (TxnOp.referenceBlob digest size).OnlyPuts ∧
      ∀ put ∈ (TxnOp.referenceBlob digest size).puts, RowLaw json put.1 put.2 :=
    fun _ _ => ⟨trivial, List.forall_mem_nil _⟩
  have hput : ∀ key value, RowLaw json key value → (TxnOp.put key value).OnlyPuts ∧
      ∀ put ∈ (TxnOp.put key value).puts, RowLaw json put.1 put.2 := by
    intro key value hlaw
    refine ⟨trivial, fun put hmem => ?_⟩
    rw [List.mem_singleton.mp hmem]
    exact hlaw
  have hplain : (0x0A : UInt8) ∉ str "uploaded" := by decide
  have hsibling := rowLaw_sibling json (hsha accepted.content)
    (soundSibling_of_line hplain (hsha accepted.metadata)) name
  have hrecord : RowLaw json (uploadKey name accepted.normalized accepted.filename)
      ((accepted.toUploadParts.prepared sha256).publishedFile json.toUploadJson sha256 name).record := by
    rw [uploadKey_eq, rowLaw_upload]
    have hone : ∀ digest : Str,
        (Std.ExtTreeMap.ofList [(str "sha256", digest)] : Hashes)[str "sha256"]? = some digest :=
      fun digest => Std.ExtTreeMap.getElem?_ofList_of_mem Std.ReflCmp.compare_self
        (List.pairwise_singleton _ _) (List.mem_singleton.mpr rfl)
    refine uploadLaw_uploaded hjson hkey _ (hone (sha256 accepted.content)) fun digest hdigest => ?_
    obtain rfl := Option.some.inj ((hone _).symm.trans hdigest)
    refine ⟨hsha accepted.content, fun metadata hclaimed => ?_⟩
    obtain rfl := Option.some.inj ((hone _).symm.trans hclaimed)
    exact hsha accepted.metadata
  have hproject := rowLaw_project json (validProjectKey_of_upload hkey) accepted.named
  intro op hop
  unfold PublishedFile.ops at hop
  simp only [List.mem_append, List.mem_cons, List.not_mem_nil, or_false] at hop
  rcases hop with ((rfl | hop) | hop) | rfl | rfl
  · exact hblob _ _
  · rcases List.mem_cons.mp hop with rfl | hop
    · exact hput _ _ hsibling
    · rw [List.mem_singleton.mp hop]
      exact hblob _ _
  · change op ∈ (accepted.provenance.map fun document =>
      (⟨sha256 document, document.length⟩ : ProvenanceSibling)).elim [] _ at hop
    cases hprovenance : accepted.provenance with
    | none =>
      rw [hprovenance] at hop
      exact absurd hop List.not_mem_nil
    | some document =>
      rw [hprovenance] at hop
      rcases List.mem_cons.mp hop with rfl | hop
      · exact hput _ _ (rowLaw_provenance json (hsha accepted.content) (hsha document)
          (accepted.lengthFits document hprovenance))
      · rw [List.mem_singleton.mp hop]
        exact hblob _ _
  · exact hput _ _ hrecord
  · exact hput _ _ hproject

theorem HostedWrite.Sound.body {write : HostedWrite} (hwrite : write.Sound) (pep : Pep440)
    [BEq pep.Version] (recordVersion : Bytes → Option Str) : BodyObeys (RowLaw json) (fun _ => True)
      ((write.txn json.toUploadJson sha256).body json.toUploadJson pep recordVersion) := by
  cases write with
  | upload name accepted =>
    exact bodyObeys_publishFile _ _ _ (uploaded_sound hjson hsha name accepted hwrite)
  | yankUploads index normalized version yanked time =>
    exact bodyObeys_mutateUploads _ _ _ _ _ _ _
      ((yankUpload_claims pep version yanked).lawful hjson index normalized)
  | trashUploads index normalized volatile version context =>
    exact bodyObeys_mutateUploads _ _ _ _ _ _ _
      ((trashUpload_claims pep volatile version context).lawful hjson index normalized)
  | untrashUploads index normalized version time =>
    exact bodyObeys_mutateUploads _ _ _ _ _ _ _
      ((untrashUpload_claims pep version).lawful hjson index normalized)
  | deleteUpload index normalized filename time => exact bodyObeys_deleteUpload _ _ _ _ _ _
  | yankServed index normalized filename yanked time =>
    rcases hwrite with rfl | ⟨rfl, hkey⟩
    · exact bodyObeys_deleteOverride _ _ _ _ _
    · exact bodyObeys_putOverride _ _ _ _ _ _ (rowLaw_override json hkey (.inr rfl))
  | hideServed index normalized filename time =>
    exact bodyObeys_putOverride _ _ _ _ _ _ (rowLaw_override json hwrite (.inl rfl))
  | restoreServed index normalized filename time => exact bodyObeys_deleteOverride _ _ _ _ _

end Hosted

section Promotions
variable {json : AdminJson} (pep : Pep440) [BEq pep.Version]

/-- The files of the version have good keys in the target, and the project there has a name. -/
structure Promotion.Sound (json : UploadJson) (promotion : Promotion) : Prop where
  named : promotion.display = none → promotion.normalized ≠ []
  keys : ∀ entry ∈ promotion.entries, ∀ uploaded, json.readUploaded entry.2 = some uploaded →
    versionsMatch pep uploaded.version promotion.version = true →
      validUploadKey (fileSuffix promotion.target promotion.normalized entry.1) = true

theorem PromotedRelease.lawful (recordVersion : Bytes → Option Str) (release : PromotedRelease)
    (hrecords : ∀ file ∈ release.records,
      RowLaw json (uploadKey release.index release.normalized file.filename) file.record)
    (hproject : RowLaw json (projectKey release.index release.normalized) release.display)
    {store : MetaStore} (h : Lawful json store.rows) :
    Lawful json ((HostedTxn.promote release).apply json.toUploadJson pep recordVersion .never
      store).2.rows := by
  have hops : ∀ file ∈ release.records, ∀ op ∈ release.ops file,
      op.OnlyPuts ∧ ∀ put ∈ op.puts, RowLaw json put.1 put.2 := by
    intro file hfile op hop
    rcases List.mem_cons.mp hop with rfl | hop
    · refine ⟨trivial, fun put hput => ?_⟩
      rw [List.mem_singleton.mp hput]
      exact hrecords file hfile
    · cases hsize : release.blobSizes[file.token]? with
      | none =>
        rw [hsize] at hop
        exact absurd hop List.not_mem_nil
      | some size =>
        rw [hsize] at hop
        rw [List.mem_singleton.mp hop]
        exact ⟨trivial, List.forall_mem_nil _⟩
  exact h.transact (bodyObeys_promoteFiles _ _ release _ hops hproject) .never

theorem Promotion.Sound.lawful {promotion : Promotion} (hjson : json.toUploadJson.Faithful)
    (hsound : promotion.Sound pep json.toUploadJson)
    (hentries : ∀ entry ∈ promotion.entries,
      RowLaw json (uploadKey promotion.source promotion.normalized entry.1) entry.2)
    (hdisplay : ∀ display, promotion.display = some display → display ≠ [])
    (recordVersion : Bytes → Option Str) {store : MetaStore} (h : Lawful json store.rows)
    {promoted : Nat} {after : MetaStore}
    (hrun : promoteRelease json.toUploadJson pep recordVersion promotion.entries promotion.display
      promotion.source promotion.target promotion.targetRoute promotion.normalized promotion.version
      promotion.submittedAtUnix store = .ok (promoted, after)) : Lawful json after.rows := by
  unfold promoteRelease at hrun
  obtain ⟨found, hfound, hrun⟩ := (bind_eq_ok _ _ _).mp hrun
  dsimp only at hrun
  split at hrun
  · cases hrun
  · rename_i hsome
    have hrecords : ∀ record ∈ found.filterMap id,
        validUploadKey (fileSuffix promotion.target promotion.normalized record.1.filename) = true ∧
        RowLaw json (uploadKey promotion.target promotion.normalized record.1.filename)
          record.1.record := by
      intro record hrecord
      obtain ⟨answer, hanswer, hid⟩ := List.mem_filterMap.mp hrecord
      obtain ⟨entry, hentry, hcopy⟩ := mapM_ok_mem _ _ _ hfound answer hanswer
      obtain rfl : answer = some record := hid
      obtain ⟨file, size⟩ := record
      obtain ⟨uploaded, digest, hread, hversion, hsha, rfl⟩ :=
        promotedRecord_some pep promotion.targetRoute promotion.version entry file size hcopy
      have hkey := hsound.keys entry hentry uploaded hread hversion
      have hlaw := hentries entry hentry
      rw [uploadKey_eq, rowLaw_upload] at hlaw
      obtain ⟨⟨listed, sha256, hlisted, hlistedSha, hclaims⟩, -⟩ := hlaw
      obtain rfl := Option.some.inj (hread.symm.trans hlisted)
      refine ⟨hkey, ?_⟩
      rw [uploadKey_eq, rowLaw_upload]
      exact uploadLaw_uploaded hjson hkey _ hlistedSha hclaims
    have hproject : RowLaw json (projectKey promotion.target promotion.normalized)
        (promotion.display.getD promotion.normalized) := by
      obtain ⟨record, hrecord⟩ := List.exists_mem_of_ne_nil _ fun hnil => hsome (List.isEmpty_iff.mpr hnil)
      refine rowLaw_project json (validProjectKey_of_upload (hrecords record hrecord).1) ?_
      cases hgiven : promotion.display with
      | none => exact hsound.named hgiven
      | some display => exact hdisplay display hgiven
    have hreleased := PromotedRelease.lawful pep recordVersion
      { index := promotion.target
        normalized := promotion.normalized
        display := promotion.display.getD promotion.normalized
        records := (found.filterMap id).map Prod.fst
        blobSizes := blobSizes (found.filterMap id)
        submittedAtUnix := promotion.submittedAtUnix }
      (List.forall_mem_map.mpr fun record hrecord => (hrecords record hrecord).2) hproject h
    split at hrun
    · rename_i answered hanswer
      cases hrun
      rw [hanswer] at hreleased
      exact hreleased
    · cases hrun

end Promotions

section Runs
variable {json : WriteJson} {urls : UrlParser} (table : CaseMap) (pep : Pep440) [BEq pep.Version]
  (parseUploadTime : Str → Option Int)

def Write.Sound (state : WriterState) : Write json urls → Prop
  | .page parsed => parsed.Sound table pep parseUploadTime
  | .streamed live => ∀ summary,
    live.page.summary table pep parseUploadTime urls.absolutize = .ok summary → live.Sound summary
  | .project index normalized _ (.put _ generation items) => ∀ file,
    Inserted state.store.rows index normalized generation items file → file.SoundRows
  | .hosted write _ => write.Sound
  | .promote promotion => promotion.Sound pep json.toUploadJson
  | _ => True

structure Audited (json : WriteJson) (state : WriterState) : Prop where
  rows : Lawful json.admin state.store.rows
  seen : ∀ row ∈ state.seen, RowLaw json.admin row.1 row.2

theorem Audited.setRows {state : WriterState} (h : Audited json state) {rows : Rows}
    (hrows : Lawful json.admin rows) : Audited json (state.setRows rows) :=
  ⟨hrows, h.seen⟩

variable {sha256 : Bytes → Str} (recordVersion : Bytes → Option Str)

theorem Audited.commit (hserde : json.Serde) (hurls : urls.Written)
    (hsha : ∀ bytes, isDigest (sha256 bytes) = true) {state : WriterState} (h : Audited json state)
    (write : Write json urls) (hsound : write.Sound table pep parseUploadTime state)
    (henabled : write.Enabled json urls table pep parseUploadTime state) :
    Audited json
      (write.commit json urls table pep parseUploadTime sha256 recordVersion state) := by
  have hrows := h.rows
  cases write with
  | page parsed => exact h.setRows (hsound.persist table pep parseUploadTime hserde hrows)
  | streamed live =>
    exact h.setRows (LivePage.Sound.persist table pep parseUploadTime hserde hurls hsound hrows)
  | refreshed key overlay =>
    have hoverlay : OverlayLaw json.admin key (json.overlay overlay) := by
      unfold OverlayLaw
      show (json.readOverlay (json.overlay overlay)).isSome = true
      rw [hserde.records.overlay]
      rfl
    refine h.setRows (hrows.batch _ fun put hput => ?_)
    rw [List.mem_singleton.mp hput]
    exact rowLaw_of_mem json.admin (freshnessPrefix, OverlayLaw json.admin) (by simp [audits]) hoverlay
  | generated artifact bytes source =>
    have hplain : (0x0A : UInt8) ∉ generatedMetadataUrl := by decide
    have hartifact : isDigest artifact.hex = true := by
      unfold isDigest
      rw [artifact.valid]
      rfl
    exact h.setRows (hrows.insert (rowLaw_sibling json.admin hartifact
      (soundSibling_of_line hplain (hsha bytes)) _))
  | catalog index txn =>
    exact h.setRows (obeys_syncTxn _ (rowLaw_catalog json.admin index) txn hrows
      fun _ generation items _ => obeys_insertProjects index generation
        (rowLaw_catalogProject json.admin index generation) items hrows)
  | project index normalized policy txn =>
    refine h.setRows (obeys_syncTxn _ (rowLaw_projectState json.admin index normalized) txn hrows
      fun head generation items hput => ?_)
    subst hput
    exact insertFiles_lawful json.admin index normalized generation head.source none items hrows hsound
  | hosted write fault =>
    exact ⟨hrows.transact (HostedWrite.Sound.body hserde.uploads hsha hsound pep recordVersion) fault,
      h.seen⟩
  | promote promotion =>
    unfold Write.commit
    dsimp only
    split
    · rename_i promoted after hpromoted
      have hpromotion : promotion.Sound pep json.admin.toUploadJson := hsound
      refine ⟨hpromotion.lawful pep hserde.uploads
        (fun entry hentry => h.seen _ (henabled.1 entry hentry)) (fun display hdisplay => ?_)
        recordVersion hrows hpromoted, h.seen⟩
      obtain ⟨raw, hraw, htext⟩ := henabled.2 display hdisplay
      exact (h.seen _ hraw (projectsPrefix, TextLaw projectLaw) (by simp [audits]) _ rfl display
        htext).2
    · exact h
  | purge keys => exact h.setRows (hrows.batch _ fun put hput => absurd hput List.not_mem_nil)
  | read key =>
    unfold Write.commit
    dsimp only
    split
    · rename_i raw hraw
      exact ⟨hrows, List.forall_mem_cons.mpr ⟨hrows key raw hraw, h.seen⟩⟩
    · exact h

/-- What runs of sound writes leave is accepted by all three commands. -/
theorem writers_audited (hserde : json.Serde) (hurls : urls.Written)
    (hsha : ∀ bytes, isDigest (sha256 bytes) = true) (state : WriterState)
    (h : (writers json urls table pep parseUploadTime sha256 recordVersion
      fun state write => write.Sound table pep parseUploadTime state).Reachable state) :
    PassesAudit json.admin table state.store.rows := by
  have haudited : Audited json state := by
    refine System.invariant _ (Audited json) (fun start hstart => ?_) (fun s t _ hs hstep => ?_) state h
    · obtain rfl : start = {} := hstart
      exact ⟨obeys_empty, List.forall_mem_nil _⟩
    · obtain ⟨write, hsound, henabled, rfl⟩ := hstep
      exact hs.commit table pep parseUploadTime recordVersion hserde hurls hsha write hsound henabled
  exact haudited.rows.passes table

end Runs

namespace AuditDemo

def json : WriteJson where
  toPageJson := PageText.json
  toUploadJson := UploadText.json
  fromSlice := Stored.readTexts

theorem json_serde : json.Serde :=
  ⟨PageText.json_readsRecords, UploadText.json_faithful, Stored.reads_readTexts⟩

def base : Str := str "https://files.example/"

def record : CachedIndex where
  etag := none
  lastSerial := none
  fetchedAtUnix := 1700000000
  contentType := some (str "application/vnd.pypi.simple.v1+json")
  freshSecs := none
  body := Stored.toJson (Stored.resolved Stored.directoryUrls base Stored.demoDetail)

def file : File := Stored.storedFile (Stored.resolvedFile Stored.directoryUrls base Stored.demoFile)

def detail : ProjectDetail where
  info := Stored.demoDetail.info
  name := str "demo"
  files := [file]

theorem detail_read : json.admin.parseDetail record.body = some detail := by
  have hback := Stored.parseDetail_stored Stored.reads_readTexts Stored.directoryUrls_written base
    Stored.demoPage_read
  have hslice : json.fromSlice = Stored.readTexts := rfl
  rw [← hslice] at hback
  exact admin_parseDetail hback

theorem file_unhashed : file.sha256 = none := by
  show (∅ : Hashes)[str "sha256"]? = none
  exact Std.ExtTreeMap.getElem?_empty

theorem name_text : (str "pypi").IsUtf8 := by
  decide

theorem files_text : ∀ listed ∈ detail.files, listed.TextRegistered := by
  intro listed hlisted
  rw [List.mem_singleton.mp hlisted]
  refine ⟨by decide, fun digest hdigest => ?_⟩
  cases hdigest

def page : BufferedPage where
  key := str "pypi/demo"
  name := str "pypi"
  project := str "demo"
  record := record.encode json.toPageJson
  detail := detail
  upstream := none
  policy := {}
  nameText := name_text
  filesText := files_text

def fetched : ParsedPage json where
  page := page
  record := record
  encoded := rfl
  parsed := detail_read

theorem fetched_sound (table : CaseMap) (pep : Pep440) (parseUploadTime : Str → Option Int) :
    fetched.Sound table pep parseUploadTime := by
  have hnone : ∀ listed ∈ page.detail.files, listed.sha256 = none := by
    intro listed hlisted
    rw [List.mem_singleton.mp hlisted]
    exact file_unhashed
  refine ⟨by decide, .inl (by decide), fun listed hlisted sha256 hsha => ?_, fun row hrow => ?_⟩
  · rw [hnone listed hlisted] at hsha
    cases hsha
  · obtain ⟨hlisted, hsha⟩ := mem_registered table pep parseUploadTime hrow
    rw [hnone row.2 hlisted] at hsha
    cases hsha

def metadata : Bytes := str "Metadata-Version: 2.1\nName: demo\nVersion: 1.0\n"

def sha256 (bytes : Bytes) : Str :=
  if bytes = str "wheel" then str "ba59926159d2aa256eb8739b8da7e2b574b960e1202c6d624cbe981cef996c91"
  else str "34aa27a6064f958b41b781a217f290fd0ab5f9651e2b6e4acdab341b7b93c305"

theorem sha256_digest (bytes : Bytes) : isDigest (sha256 bytes) = true := by
  unfold sha256
  split <;> decide

def accepted : AcceptedUpload where
  index := str "hosted"
  normalized := str "demo"
  displayName := str "demo"
  filename := str "demo-1.0-py3-none-any.whl"
  version := str "1.0"
  content := str "wheel"
  metadata := metadata
  provenance := none
  provenanceMarker := .absent
  attestationPredicateTypes := ∅
  requiresPython := none
  uploadTime := str "2023-11-14T22:13:20Z"
  uploadTimeUnix := 1700000000
  filenameSegment := by decide
  named := by decide
  lengthFits document h := by cases h

def after (writes : List (Write json Stored.directoryUrls)) : WriterState :=
  writes.foldl (fun state write => write.commit json Stored.directoryUrls .caseless wholeVersions
    (fun _ => none) sha256 (fun _ => none) state) {}

def yank (yanked : Yanked) : Write json Stored.directoryUrls :=
  .hosted (.yankServed (str "pypi") (str "demo") (str "demo-1.whl") yanked 1700000000) .never

def upload : Write json Stored.directoryUrls := .hosted (.upload (str "hosted") accepted) .never

theorem upload_sound :
    validUploadKey (fileSuffix (str "hosted") accepted.normalized accepted.filename) = true := by
  decide

def reasoned : WriterState := after [.page fetched, yank (.reason (str "broken"))]

theorem reasoned_override :
    reasoned.store.rows[overridePrefix ++ fileSuffix (str "pypi") (str "demo") (str "demo-1.whl")]? =
      some (str "\x7b\"kind\":\"yanked\",\"reason\":\"broken\"\x7d") := by
  decide +kernel

theorem reasoned_uploads : recordsUnder reasoned.store.rows uploadPrefix = [] := by
  decide +kernel

end AuditDemo

open AuditDemo in
/-- A page is persisted, a file uploaded and the file of the page yanked. -/
theorem demo_audited :
    PassesAudit json.admin .caseless (after [.page fetched, upload, yank .yes]).store.rows := by
  refine writers_audited .caseless wholeVersions (fun _ => none) (fun _ => none) json_serde
    Stored.directoryUrls_written sha256_digest _ ?_
  refine .step (after [.page fetched, upload]) _ ?_
    ⟨yank .yes, .inr ⟨rfl, by decide⟩, trivial, rfl⟩
  refine .step (after [.page fetched]) _ ?_ ⟨upload, upload_sound, trivial, rfl⟩
  exact .step (after []) _ (.start (after []) rfl) ⟨.page fetched, fetched_sound _ _ _, trivial, rfl⟩

open AuditDemo in
/-- With a reason, fsck reports the override. -/
theorem yank_reason_reported : ¬ ∀ state,
    (writers json Stored.directoryUrls .caseless wholeVersions (fun _ => none) sha256 (fun _ => none)
      fun _ _ => True).Reachable state → PassesAudit json.admin .caseless state.store.rows := by
  intro hall
  have hpasses := hall reasoned <|
    .step (after [.page fetched]) _
      (.step (after []) _ (.start (after []) rfl) ⟨.page fetched, trivial, trivial, rfl⟩)
      ⟨yank (.reason (str "broken")), trivial, trivial, rfl⟩
  have hunnamed : ∀ digest, UploadNames json.admin reasoned.store.rows digest →
      (∅ : BlobStore)[digest]?.isSome := by
    intro digest hnamed
    obtain ⟨key, raw, named, hraw, _, _⟩ := hnamed
    have hmem := (mem_recordsUnder reasoned.store.rows uploadPrefix key raw).mpr hraw
    rw [reasoned_uploads] at hmem
    exact absurd hmem List.not_mem_nil
  have hlines := Except.ok.inj ((hpasses.clean ∅ hunnamed).unique (reads_fsckMetadata json.admin ∅ _))
  have hline := fsckOverride_of_clean json.admin hlines.symm reasoned_override
    ((Str.fromUtf8_eq_some _ _).mpr ⟨by decide, rfl⟩)
  exact absurd hline (by decide)

end Peryx.Pypi
