import Peryx.Pypi.Purges
import Peryx.Storage.StoreCalls

/-! # Rows that the maintenance commands accept -/

namespace Peryx.Pypi
open Storage

def File.SoundClaims (file : File) : Prop :=
  ∀ sha256, file.sha256 = some sha256 → isDigest sha256 = true ∧
    ∀ metadata, claimedMetadata file = some metadata → isDigest metadata = true

theorem claimed_of_core (file : File) (digest : Str) (h : coreMetadataDigest file = some digest) :
    claimedMetadata file = some digest := by
  unfold coreMetadataDigest at h
  unfold claimedMetadata File.metadata
  cases hcore : file.coreMetadata with
  | absent | available =>
    rw [hcore] at h
    cases h
  | hashes hashes =>
    rw [hcore] at h
    exact h

section Json
variable (json : AdminJson)

def PageLaw (_key : Str) (raw : Bytes) : Prop :=
  ∃ record, CachedIndex.decode json.toPageJson raw = some record ∧ ReadablePage json record

def OverlayLaw (_key : Str) (raw : Bytes) : Prop := (json.readOverlay raw).isSome

def TextLaw (holds : Str → Str → Prop) (key : Str) (raw : Bytes) : Prop :=
  ∀ text, Str.fromUtf8 raw = some text → holds key text

structure UploadLaw (key : Str) (raw : Bytes) : Prop where
  record : ∃ upload sha256, json.readUploaded raw = some upload ∧
    upload.file.sha256 = some sha256 ∧ upload.file.SoundClaims
  valid : validUploadKey key = true

def fileLaw (digest value : Str) : Prop := (fileNames (digest, value)).isSome

def metadataLaw (digest value : Str) : Prop := (metadataNames (digest, value)).isSome

def provenanceLaw (digest value : Str) : Prop := (provenanceNames (digest, value)).isSome

def projectLaw (key display : Str) : Prop := validProjectKey key = true ∧ display ≠ []

def overrideLaw (key kind : Str) : Prop :=
  validUploadKey key = true ∧ (kind = str "hidden" ∨ kind = str "yanked")

def audits : List (Str × (Str → Bytes → Prop)) :=
  [(indexPrefix, PageLaw json), (freshnessPrefix, OverlayLaw json),
    (filePrefix, TextLaw fileLaw), (metadataPrefix, TextLaw metadataLaw),
    (provenancePrefix, TextLaw provenanceLaw), (projectsPrefix, TextLaw projectLaw),
    (uploadPrefix, UploadLaw json),
    (overridePrefix, TextLaw overrideLaw)]

def RowLaw (key : Str) (raw : Bytes) : Prop :=
  ∀ audit ∈ audits json, ∀ rest, key = audit.1 ++ rest → audit.2 rest raw

def Lawful (rows : Rows) : Prop := Obeys (RowLaw json) rows

theorem auditPrefixes : (audits json).map Prod.fst = [indexPrefix, freshnessPrefix, filePrefix,
    metadataPrefix, provenancePrefix, projectsPrefix, uploadPrefix, overridePrefix] := rfl

theorem auditPrefix_length (audit : Str × (Str → Bytes → Prop)) (h : audit ∈ audits json) :
    audit.1.length = 7 := by
  have hall : ∀ start ∈ (audits json).map Prod.fst, start.length = 7 := by
    rw [auditPrefixes]
    decide
  exact hall audit.1 (List.mem_map_of_mem h)

theorem rowLaw_of_mem (audit : Str × (Str → Bytes → Prop)) (h : audit ∈ audits json) {rest : Str}
    {raw : Bytes} (hlaw : audit.2 rest raw) : RowLaw json (audit.1 ++ rest) raw := by
  intro other hother rest' heq
  have hlength := (auditPrefix_length json audit h).trans (auditPrefix_length json other hother).symm
  obtain ⟨hstart, hrest⟩ := List.append_inj heq hlength
  have hnodup : ((audits json).map Prod.fst).Nodup := by
    rw [auditPrefixes]
    decide
  have hsame : audit = other := List.inj_on_of_nodup_map hnodup h hother hstart
  rw [← hsame, ← hrest]
  exact hlaw

theorem rowLaw_unchecked (start rest : Str) (raw : Bytes) (hlength : start.length = 7)
    (h : start ∉ (audits json).map Prod.fst) : RowLaw json (start ++ rest) raw := by
  intro audit haudit rest' heq
  have hsame := hlength.trans (auditPrefix_length json audit haudit).symm
  exact absurd (List.mem_map_of_mem haudit) ((List.append_inj heq hsame).1 ▸ h)

def fsckLines (blobs : BlobStore) (rows : Rows) : List FsckLine :=
  (recordsUnder rows indexPrefix).flatMap (fsckPage json) ++
    (textsUnder rows filePrefix).flatMap fsckFile ++
    (textsUnder rows metadataPrefix).flatMap fsckMetadataRecord ++
    (textsUnder rows projectsPrefix).flatMap fsckProject ++
    (recordsUnder rows uploadPrefix).flatMap (fsckUpload json blobs) ++
    (textsUnder rows overridePrefix).flatMap fsckOverride ++
    (textsUnder rows provenancePrefix).flatMap fsckProvenance

theorem reads_fsckMetadata (blobs : BlobStore) (rows : Rows) :
    Reads (fsckMetadata json blobs) rows (.ok (fsckLines json blobs rows)) := by
  have hrecords := fun start => reads_scanRecords start rows
  have htexts := fun start => reads_scanTexts start rows
  refine (hrecords indexPrefix).bind_ok ?_
  refine (htexts filePrefix).bind_ok ?_
  refine (htexts metadataPrefix).bind_ok ?_
  refine (htexts projectsPrefix).bind_ok ?_
  refine (hrecords uploadPrefix).bind_ok ?_
  refine (htexts overridePrefix).bind_ok ?_
  refine (htexts provenancePrefix).bind_ok ?_
  exact reads_pure _ rows

theorem fsckOverride_of_clean {blobs : BlobStore} {rows : Rows} (h : fsckLines json blobs rows = [])
    {key : Str} {raw : Bytes} {kind : Str} (hrow : rows[overridePrefix ++ key]? = some raw)
    (htext : Str.fromUtf8 raw = some kind) : fsckOverride (key, kind) = [] := by
  unfold fsckLines at h
  simp only [List.append_eq_nil_iff, List.flatMap_eq_nil_iff] at h
  refine h.1.2 (key, kind) ((mem_textsUnder rows overridePrefix key kind).mpr ?_)
  unfold textAt
  rw [hrow, Option.bind_some, htext]

variable {json} {rows : Rows}

theorem Lawful.record (h : Lawful json rows) (audit : Str × (Str → Bytes → Prop))
    (haudit : audit ∈ audits json) {key : Str} {raw : Bytes}
    (hrow : rows[audit.1 ++ key]? = some raw) : audit.2 key raw :=
  h _ raw hrow audit haudit key rfl

theorem Lawful.text (h : Lawful json rows) (start : Str) (holds : Str → Str → Prop)
    (haudit : (start, TextLaw holds) ∈ audits json) (row : Str × Str)
    (hrow : row ∈ textsUnder rows start) : holds row.1 row.2 := by
  obtain ⟨raw, hraw, htext⟩ := Option.bind_eq_some_iff.mp
    ((mem_textsUnder rows start row.1 row.2).mp hrow)
  exact h.record (start, TextLaw holds) haudit hraw row.2 htext

theorem Lawful.upload (h : Lawful json rows) {key : Str} {raw : Bytes}
    (hrow : rows[uploadPrefix ++ key]? = some raw) : UploadLaw json key raw :=
  h.record (uploadPrefix, UploadLaw json) (by simp [audits]) hrow

theorem Lawful.page (h : Lawful json rows) {key : Str} {raw : Bytes}
    (hrow : rows[indexKey key]? = some raw) : PageLaw json key raw :=
  h.record (indexPrefix, PageLaw json) (by simp [audits]) hrow

theorem UploadLaw.digests {key : Str} {raw : Bytes} (h : UploadLaw json key raw) :
    (uploadDigests json raw).isSome := by
  obtain ⟨upload, sha256, hread, hsha, hclaims⟩ := h.record
  obtain ⟨hvalid, hmetadata⟩ := hclaims sha256 hsha
  obtain ⟨digest, hdigest⟩ := Option.isSome_iff_exists.mp hvalid
  have hhash : upload.file.hashes[str "sha256"]? = some sha256 := hsha
  unfold uploadDigests
  simp only [hread, hhash, hdigest, Option.bind_eq_bind, Option.bind_some]
  cases hcore : coreMetadataDigest upload.file with
  | none => rfl
  | some metadata =>
    obtain ⟨found, hfound⟩ := Option.isSome_iff_exists.mp
      (hmetadata metadata (claimed_of_core upload.file metadata hcore))
    simp [hfound]

theorem Lawful.collectable (h : Lawful json rows) : Collectable json rows where
  files row hrow := h.text filePrefix fileLaw (by simp [audits]) row hrow
  metadata row hrow := h.text metadataPrefix metadataLaw (by simp [audits]) row hrow
  uploads row hrow := (h.upload ((mem_recordsUnder rows uploadPrefix row.1 row.2).mp hrow)).digests
  provenance row hrow := h.text provenancePrefix provenanceLaw (by simp [audits]) row hrow

theorem Lawful.accountable (h : Lawful json rows) (targetKey : Str) :
    Accountable json rows targetKey where
  overlay _ _ _ hoverlay :=
    h.record (freshnessPrefix, OverlayLaw json) (by simp [audits]) hoverlay
  pages _ _ hraw := h.page hraw
  uploads _ _ hraw := (h.upload hraw).digests

theorem Lawful.clean (h : Lawful json rows) (blobs : BlobStore)
    (hblobs : ∀ digest, UploadNames json rows digest → blobs[digest]?.isSome) :
    fsckLines json blobs rows = [] := by
  have hpages : ∀ row ∈ recordsUnder rows indexPrefix, fsckPage json row = [] := by
    intro row hrow
    obtain ⟨record, hdecode, detail, hparse, _⟩ :=
      h.page ((mem_recordsUnder rows indexPrefix row.1 row.2).mp hrow)
    simp [fsckPage, hdecode, hparse]
  have hfiles : ∀ row ∈ textsUnder rows filePrefix, fsckFile row = [] := by
    intro row hrow
    have hlaw := h.text filePrefix fileLaw (by simp [audits]) row hrow
    unfold fileLaw fileNames at hlaw
    unfold fsckFile
    cases hdigest : isDigest row.1 <;> cases hsplit : Str.splitOnce 0x0A row.2 <;>
      simp [hdigest, hsplit] at hlaw ⊢
  have hmetadata : ∀ row ∈ textsUnder rows metadataPrefix, fsckMetadataRecord row = [] := by
    intro row hrow
    have hlaw := h.text metadataPrefix metadataLaw (by simp [audits]) row hrow
    unfold metadataLaw metadataNames at hlaw
    unfold fsckMetadataRecord
    cases hsplit : splitMetadata row.2 <;> cases hdigest : isDigest row.1 <;>
      simp_all
  have hprojects : ∀ row ∈ textsUnder rows projectsPrefix, fsckProject row = [] := by
    intro row hrow
    obtain ⟨hkey, hdisplay⟩ := h.text projectsPrefix projectLaw (by simp [audits]) row hrow
    simp [fsckProject, hkey, hdisplay]
  have huploads : ∀ row ∈ recordsUnder rows uploadPrefix, fsckUpload json blobs row = [] := by
    intro row hrow
    have hraw := (mem_recordsUnder rows uploadPrefix row.1 row.2).mp hrow
    have hlaw := h.upload hraw
    obtain ⟨named, hnamed⟩ := Option.isSome_iff_exists.mp hlaw.digests
    unfold fsckUpload
    rw [hnamed]
    simp only [hlaw.valid, Bool.not_true, Bool.false_eq_true, if_false, List.filterMap_eq_nil_iff]
    intro digest hmem
    have hpresent := hblobs digest ⟨row.1, row.2, named, hraw, hnamed, hmem⟩
    rw [Option.isNone_eq_false_iff.mpr hpresent]
    rfl
  have hoverrides : ∀ row ∈ textsUnder rows overridePrefix, fsckOverride row = [] := by
    intro row hrow
    obtain ⟨hkey, hkind⟩ := h.text overridePrefix overrideLaw (by simp [audits]) row hrow
    rcases hkind with hkind | hkind <;> simp [fsckOverride, hkey, hkind]
  have hprovenance : ∀ row ∈ textsUnder rows provenancePrefix, fsckProvenance row = [] := by
    intro row hrow
    have hlaw := h.text provenancePrefix provenanceLaw (by simp [audits]) row hrow
    unfold provenanceLaw provenanceNames at hlaw
    unfold fsckProvenance
    cases hvalid : validProvenance row.1 row.2 <;> simp [hvalid] at hlaw ⊢
  unfold fsckLines
  simp only [List.append_eq_nil_iff, List.flatMap_eq_nil_iff]
  exact ⟨⟨⟨⟨⟨⟨hpages, hfiles⟩, hmetadata⟩, hprojects⟩, huploads⟩, hoverrides⟩, hprovenance⟩

variable (json) (table : CaseMap) in
/-- All three commands accept the rows; fsck is given the blobs that uploads name. -/
structure PassesAudit (rows : Rows) : Prop where
  clean : ∀ blobs : BlobStore, (∀ digest, UploadNames json rows digest → blobs[digest]?.isSome) →
    Reads (fsckMetadata json blobs) rows (.ok [])
  collected : ∃ digests, Reads (referencedBlobDigests json) rows (.ok digests)
  purged : ∀ (index project : Str) (apply : Bool) (disk : Disk), disk.fault = .never →
    disk.store.rows = rows →
    ∃ report, ((purgeProject json table index project apply).run.run disk).1 = .ok report

theorem Lawful.passes (h : Lawful json rows) (table : CaseMap) : PassesAudit json table rows where
  clean blobs hblobs := by
    have hread := reads_fsckMetadata json blobs rows
    rw [h.clean blobs hblobs] at hread
    exact hread
  collected := by
    obtain ⟨digests, hdigests⟩ := (collected_ok_iff json rows).mpr h.collectable
    have hread := reads_referencedBlobDigests json rows
    rw [hdigests] at hread
    exact ⟨digests, hread⟩
  purged index project apply disk hfault hrows := by
    obtain ⟨⟨target, htarget⟩, preserved, hothers⟩ :=
      (accountable_iff json rows (projectSuffix index (normalizeName table project))).mp
        (h.accountable _)
    obtain ⟨report, hrun⟩ := purgeProject_done json table apply htarget hothers disk hfault hrows
    rw [hrun]
    exact ⟨report, rfl⟩

end Json
end Peryx.Pypi
