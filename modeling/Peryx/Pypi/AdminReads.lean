import Peryx.Library.Outcome
import Peryx.Pypi.Admin

/-! # What the maintenance commands read -/

namespace Peryx.Pypi
open Storage

def recordsUnder (rows : Rows) (start : Str) : List (Str × Bytes) :=
  (keysUnder rows start).map fun key => (key.drop start.length, (rows[key]?).getD [])

def textAt (rows : Rows) (key : Str) : Option Str := rows[key]?.bind Str.fromUtf8

def textsUnder (rows : Rows) (start : Str) : List (Str × Str) :=
  (keysUnder rows start).filterMap fun key =>
    (textAt rows key).map fun text => (key.drop start.length, text)

theorem mem_recordsUnder (rows : Rows) (start key : Str) (raw : Bytes) :
    (key, raw) ∈ recordsUnder rows start ↔ rows[start ++ key]? = some raw := by
  unfold recordsUnder
  rw [List.mem_map]
  constructor
  · rintro ⟨found, hfound, heq⟩
    obtain ⟨hrow, rest, rfl⟩ := (mem_keysUnder rows start found).mp hfound
    obtain ⟨value, hvalue⟩ := Option.isSome_iff_exists.mp hrow
    rw [List.drop_left, hvalue] at heq
    cases heq
    exact hvalue
  · intro h
    refine ⟨start ++ key, (mem_keysUnder rows start _).mpr ⟨by rw [h]; rfl, key, rfl⟩, ?_⟩
    rw [List.drop_left, h]
    rfl

theorem mem_textsUnder (rows : Rows) (start key text : Str) :
    (key, text) ∈ textsUnder rows start ↔ textAt rows (start ++ key) = some text := by
  unfold textsUnder
  rw [List.mem_filterMap]
  constructor
  · rintro ⟨found, hfound, heq⟩
    obtain ⟨_, rest, rfl⟩ := (mem_keysUnder rows start found).mp hfound
    obtain ⟨value, hvalue, hpair⟩ := Option.map_eq_some_iff.mp heq
    rw [List.drop_left] at hpair
    cases hpair
    exact hvalue
  · intro h
    obtain ⟨raw, hraw, _⟩ := Option.bind_eq_some_iff.mp h
    refine ⟨start ++ key, (mem_keysUnder rows start _).mpr ⟨by rw [hraw]; rfl, key, rfl⟩, ?_⟩
    rw [List.drop_left, h]
    rfl

theorem reads_valueOf {rows : Rows} {key : Str} {raw : Bytes} (h : rows[key]? = some raw) :
    Reads (valueOf key) rows (.ok raw) := by
  refine (reads_getCall key rows).bind_ok ?_
  rw [h]
  exact reads_pure raw rows

theorem reads_scanRecords (start : Str) (rows : Rows) :
    Reads (scanRecords start) rows (.ok (recordsUnder rows start)) := by
  refine (reads_keysCall start rows).bind_ok ?_
  refine reads_mapM _ _ (fun key : Str => (key.drop start.length, (rows[key]?).getD [])) rows ?_
  intro key hkey
  obtain ⟨raw, hraw⟩ := Option.isSome_iff_exists.mp ((mem_keysUnder rows start key).mp hkey).1
  have hvalue := (reads_valueOf hraw).map fun raw => (key.drop start.length, raw)
  rw [hraw]
  exact hvalue

theorem reads_scanTexts (start : Str) (rows : Rows) :
    Reads (scanTexts start) rows (.ok (textsUnder rows start)) := by
  refine (reads_keysCall start rows).bind_ok ?_
  have hread := reads_mapM (ε := MetaFailure) (keysUnder rows start)
    (fun key : Str => do
      return ((← getCall key).bind Str.fromUtf8).map fun text => (key.drop start.length, text))
    (fun key : Str => (textAt rows key).map fun text => (key.drop start.length, text)) rows
    fun key _ => (reads_getCall key rows).map fun raw =>
      (raw.bind Str.fromUtf8).map fun text => (key.drop start.length, text)
  have hall := hread.map fun found => found.filterMap id
  have hsame : ((keysUnder rows start).map fun key : Str => (textAt rows key).map fun text =>
      (key.drop start.length, text)).filterMap id = textsUnder rows start := by
    rw [List.filterMap_map]
    rfl
  rw [← hsame]
  exact hall

structure Gathers {ι : Type} (visit : Digests → ι → Except AdminError Digests)
    (names : ι → Option (List Str)) : Prop where
  accepts : ∀ digests row, (∃ next, visit digests row = .ok next) ↔ (names row).isSome
  adds : ∀ digests row next, visit digests row = .ok next →
    ∀ digest, digest ∈ next ↔ digest ∈ digests ∨ ∃ named, names row = some named ∧ digest ∈ named

namespace Gathers
variable {ι : Type} {visit : Digests → ι → Except AdminError Digests} {names : ι → Option (List Str)}

theorem ok_iff (h : Gathers visit names) (items : List ι) (digests : Digests) :
    (∃ last, items.foldlM visit digests = .ok last) ↔ ∀ row ∈ items, (names row).isSome :=
  Visits.foldlM_ok_iff h.accepts items digests

theorem mem_iff (h : Gathers visit names) {items : List ι} {digests last : Digests}
    (hlast : items.foldlM visit digests = .ok last) (digest : Str) : digest ∈ last ↔
      digest ∈ digests ∨ ∃ row ∈ items, ∃ named, names row = some named ∧ digest ∈ named :=
  @Visits.foldlM_holds_iff _ _ _ _ (fun digests => digest ∈ digests) _
    (fun digests row next hnext => h.adds digests row next hnext digest) items digests last hlast

theorem of_match (error : ι → AdminError) (hvisit : ∀ digests row, visit digests row =
    match names row with
    | none => .error (error row)
    | some named => .ok (named.foldl (fun digests digest => digests.insert digest) digests)) :
    Gathers visit names where
  accepts digests row := by
    rw [hvisit]
    cases names row with
    | none => simp
    | some named => simp
  adds digests row next hnext digest := by
    rw [hvisit] at hnext
    cases hnames : names row with
    | none =>
      rw [hnames] at hnext
      cases hnext
    | some named =>
      rw [hnames] at hnext
      cases hnext
      rw [mem_foldl_insert]
      simp

end Gathers

def fileNames (row : Str × Str) : Option (List Str) :=
  if isDigest row.1 && (Str.splitOnce 0x0A row.2).isSome then some [row.1] else none

def metadataNames (row : Str × Str) : Option (List Str) :=
  match splitMetadata row.2 with
  | none => none
  | some (_url, metadataDigest, _source) =>
    if isDigest row.1 && isDigest metadataDigest then some [row.1, metadataDigest] else none

def provenanceNames (row : Str × Str) : Option (List Str) :=
  (validProvenance row.1 row.2).map fun digest => [digest]

theorem gathers_referFile : Gathers referFile fileNames := by
  refine Gathers.of_match (fun row => .fileUrl row.1) fun digests row => ?_
  unfold referFile fileNames
  cases isDigest row.1 <;> cases Str.splitOnce 0x0A row.2 <;> rfl

theorem gathers_referMetadata : Gathers referMetadata metadataNames := by
  refine Gathers.of_match (fun row => match splitMetadata row.2 with
    | none => .metadataRecord row.1
    | some (_url, metadataDigest, _source) =>
      if isDigest row.1 then .metadataDigest metadataDigest else .wheelDigest row.1) ?_
  intro digests row
  unfold referMetadata metadataNames
  rcases splitMetadata row.2 with _ | ⟨url, metadataDigest, source⟩
  · rfl
  · cases hwheel : isDigest row.1 <;> cases hmetadata : isDigest metadataDigest <;>
      simp [hmetadata]

theorem gathers_referProvenance : Gathers referProvenance provenanceNames := by
  refine Gathers.of_match (fun row => .provenance row.1) fun digests row => ?_
  unfold referProvenance provenanceNames
  cases validProvenance row.1 row.2 <;> rfl

section Collector
variable (json : AdminJson)

theorem gathers_referUpload :
    Gathers (referUpload json) fun row : Str × Bytes => uploadDigests json row.2 :=
  Gathers.of_match (fun row => .upload row.1) fun _ _ => rfl

def collected (rows : Rows) : Except AdminError Digests := do
  let digests ← (textsUnder rows filePrefix).foldlM referFile ∅
  let digests ← (textsUnder rows metadataPrefix).foldlM referMetadata digests
  let digests ← (recordsUnder rows uploadPrefix).foldlM (referUpload json) digests
  (textsUnder rows provenancePrefix).foldlM referProvenance digests

theorem reads_referencedBlobDigests (rows : Rows) :
    Reads (referencedBlobDigests json) rows (collected json rows) := by
  have htexts : ∀ start, Reads (raised AdminError.store (scanTexts start)) rows
      (.ok (textsUnder rows start)) := fun start => (reads_scanTexts start rows).raised _
  have huploads : Reads (raised AdminError.store scanUploadRecords) rows
      (.ok (recordsUnder rows uploadPrefix)) := (reads_scanRecords uploadPrefix rows).raised _
  refine (htexts filePrefix).bind_ok ?_
  refine (reads_visited _ rows).bind fun files _ => ?_
  refine (htexts metadataPrefix).bind_ok ?_
  refine (reads_visited _ rows).bind fun metadata _ => ?_
  refine huploads.bind_ok ?_
  refine (reads_visited _ rows).bind fun uploads _ => ?_
  refine (htexts provenancePrefix).bind_ok ?_
  exact reads_visited _ rows

structure Collectable (rows : Rows) : Prop where
  files : ∀ row ∈ textsUnder rows filePrefix, (fileNames row).isSome
  metadata : ∀ row ∈ textsUnder rows metadataPrefix, (metadataNames row).isSome
  uploads : ∀ row ∈ recordsUnder rows uploadPrefix, (uploadDigests json row.2).isSome
  provenance : ∀ row ∈ textsUnder rows provenancePrefix, (provenanceNames row).isSome

theorem collected_ok {rows : Rows} {digests : Digests} (h : collected json rows = .ok digests) :
    ∃ files metadata uploads, (textsUnder rows filePrefix).foldlM referFile ∅ = .ok files ∧
      (textsUnder rows metadataPrefix).foldlM referMetadata files = .ok metadata ∧
      (recordsUnder rows uploadPrefix).foldlM (referUpload json) metadata = .ok uploads ∧
      (textsUnder rows provenancePrefix).foldlM referProvenance uploads = .ok digests := by
  obtain ⟨files, hfiles, h⟩ := (bind_eq_ok _ _ _).mp h
  obtain ⟨metadata, hmetadata, h⟩ := (bind_eq_ok _ _ _).mp h
  obtain ⟨uploads, huploads, h⟩ := (bind_eq_ok _ _ _).mp h
  exact ⟨files, metadata, uploads, hfiles, hmetadata, huploads, h⟩

theorem collected_ok_iff (rows : Rows) :
    (∃ digests, collected json rows = .ok digests) ↔ Collectable json rows := by
  constructor
  · rintro ⟨digests, h⟩
    obtain ⟨files, metadata, uploads, hfiles, hmetadata, huploads, hprovenance⟩ :=
      collected_ok json h
    exact ⟨(gathers_referFile.ok_iff _ _).mp ⟨_, hfiles⟩,
      (gathers_referMetadata.ok_iff _ _).mp ⟨_, hmetadata⟩,
      ((gathers_referUpload json).ok_iff _ _).mp ⟨_, huploads⟩,
      (gathers_referProvenance.ok_iff _ _).mp ⟨_, hprovenance⟩⟩
  · intro h
    obtain ⟨files, hfiles⟩ := (gathers_referFile.ok_iff _ ∅).mpr h.files
    obtain ⟨metadata, hmetadata⟩ := (gathers_referMetadata.ok_iff _ files).mpr h.metadata
    obtain ⟨uploads, huploads⟩ := ((gathers_referUpload json).ok_iff _ metadata).mpr h.uploads
    obtain ⟨digests, hdigests⟩ := (gathers_referProvenance.ok_iff _ uploads).mpr h.provenance
    refine ⟨digests, ?_⟩
    unfold collected
    rw [hfiles, ok_bind, hmetadata, ok_bind, huploads, ok_bind]
    exact hdigests

def RowNames (rows : Rows) (digest : Str) : Prop :=
  (∃ row ∈ textsUnder rows filePrefix, ∃ named, fileNames row = some named ∧ digest ∈ named) ∨
  (∃ row ∈ textsUnder rows metadataPrefix, ∃ named, metadataNames row = some named ∧
    digest ∈ named) ∨
  (∃ row ∈ recordsUnder rows uploadPrefix, ∃ named, uploadDigests json row.2 = some named ∧
    digest ∈ named) ∨
  ∃ row ∈ textsUnder rows provenancePrefix, ∃ named, provenanceNames row = some named ∧
    digest ∈ named

theorem mem_collected_iff {rows : Rows} {digests : Digests} (h : collected json rows = .ok digests)
    (digest : Str) : digest ∈ digests ↔ RowNames json rows digest := by
  obtain ⟨files, metadata, uploads, hfiles, hmetadata, huploads, hprovenance⟩ := collected_ok json h
  unfold RowNames
  rw [gathers_referProvenance.mem_iff hprovenance, (gathers_referUpload json).mem_iff huploads,
    gathers_referMetadata.mem_iff hmetadata, gathers_referFile.mem_iff hfiles]
  simp only [Std.ExtTreeSet.not_mem_empty, false_or, or_assoc]

end Collector
end Peryx.Pypi

/-!
## Blobs the PyPI rows lead to

A page or a download gets from a row to a blob: an upload, trashed or not, to its artifact and
its metadata sibling, a registered source to the artifact, a metadata row to the artifact and
its sibling, a provenance row to the provenance.
-/

namespace Peryx.Pypi
open Storage

section Json
variable (json : AdminJson)

inductive LeadsTo (sibling : File → CoreMetadata) (rows : Rows) : Str → Prop
  | artifact (key : Str) (raw : Bytes) (upload : Uploaded) (digest : Str)
      (h : rows[uploadPrefix ++ key]? = some raw) (hread : json.readUploaded raw = some upload)
      (hdigest : upload.file.sha256 = some digest) : LeadsTo sibling rows digest
  | sibling (key : Str) (raw : Bytes) (upload : Uploaded) (hashes : Hashes) (digest : Str)
      (h : rows[uploadPrefix ++ key]? = some raw) (hread : json.readUploaded raw = some upload)
      (hsibling : sibling upload.file = .hashes hashes)
      (hdigest : hashes[str "sha256"]? = some digest) (hvalid : isDigest digest = true) :
      LeadsTo sibling rows digest
  | source (digest : Str) (source : FileSource) (h : getFileUrl rows digest = some source) :
      LeadsTo sibling rows digest
  | metadataOf (artifact url digest source : Str)
      (h : getMetadata rows artifact = some (url, digest, source)) : LeadsTo sibling rows digest
  | artifactOf (artifact url digest source : Str)
      (h : getMetadata rows artifact = some (url, digest, source)) : LeadsTo sibling rows artifact
  | provenance (artifact digest : Str) (size : Nat)
      (h : getProvenance rows artifact = some (digest, size)) : LeadsTo sibling rows digest

def GivenByOlderKey (rows : Rows) (digest : Str) : Prop :=
  ∃ key raw upload hashes, rows[uploadPrefix ++ key]? = some raw ∧
    json.readUploaded raw = some upload ∧ upload.file.coreMetadata.isAbsent = true ∧
    upload.file.distInfoMetadata = .hashes hashes ∧ hashes[str "sha256"]? = some digest ∧
    isDigest digest = true

theorem splitFileSource_isSome (value : Str) :
    (splitFileSource value).isSome = (Str.splitOnce 0x0A value).isSome := by
  unfold splitFileSource
  rcases Str.splitOnce 0x0A value with _ | ⟨url, rest⟩
  · rfl
  · dsimp only
    rcases Str.splitOnce 0x0A rest with _ | ⟨source, rest⟩
    · rfl
    · dsimp only
      rcases Str.splitOnce 0x0A rest with _ | ⟨size, upstream⟩ <;> rfl

theorem mem_uploadDigests {raw : Bytes} {named : List Str} (h : uploadDigests json raw = some named)
    (digest : Str) : digest ∈ named ↔ ∃ upload, json.readUploaded raw = some upload ∧
      (upload.file.sha256 = some digest ∨ coreMetadataDigest upload.file = some digest) := by
  unfold uploadDigests at h
  obtain ⟨upload, hread, h⟩ := Option.bind_eq_some_iff.mp h
  obtain ⟨sha256, hsha, h⟩ := Option.bind_eq_some_iff.mp h
  obtain ⟨artifact, hartifact, h⟩ := Option.bind_eq_some_iff.mp h
  have hsame := digestFromHex_eq sha256 artifact hartifact
  have hfile : upload.file.sha256 = some artifact := by rw [hsame]; exact hsha
  cases hcore : coreMetadataDigest upload.file with
  | none =>
    rw [hcore] at h
    cases h
    simp [hread, hfile, hcore, eq_comm]
  | some core =>
    rw [hcore] at h
    obtain ⟨metadata, hmetadata, h⟩ := Option.bind_eq_some_iff.mp h
    cases h
    rw [digestFromHex_eq core metadata hmetadata]
    simp [hread, hfile, hcore, eq_comm]

theorem coreMetadataDigest_eq_some (file : File) (digest : Str) :
    coreMetadataDigest file = some digest ↔
      ∃ hashes, file.coreMetadata = .hashes hashes ∧ hashes[str "sha256"]? = some digest := by
  unfold coreMetadataDigest
  cases file.coreMetadata <;> simp

theorem uploadDigests_valid {raw : Bytes} {named : List Str}
    (h : uploadDigests json raw = some named) (digest : Str) (hmem : digest ∈ named) :
    isDigest digest = true := by
  unfold uploadDigests at h
  obtain ⟨upload, _, h⟩ := Option.bind_eq_some_iff.mp h
  obtain ⟨sha256, _, h⟩ := Option.bind_eq_some_iff.mp h
  obtain ⟨artifact, hartifact, h⟩ := Option.bind_eq_some_iff.mp h
  have hvalid : ∀ hex found, digestFromHex hex = some found → isDigest found = true := by
    intro hex found hfound
    have hsame := digestFromHex_eq hex found hfound
    unfold isDigest
    rw [hsame, hfound]
    rfl
  cases hcore : coreMetadataDigest upload.file with
  | none =>
    rw [hcore] at h
    cases h
    rw [List.mem_singleton.mp hmem]
    exact hvalid _ _ hartifact
  | some core =>
    rw [hcore] at h
    obtain ⟨metadata, hmetadata, h⟩ := Option.bind_eq_some_iff.mp h
    cases h
    simp only [List.mem_cons, List.not_mem_nil, or_false] at hmem
    rcases hmem with rfl | rfl
    · exact hvalid _ _ hartifact
    · exact hvalid _ _ hmetadata

theorem mem_fileNames {row : Str × Str} {named : List Str} (h : fileNames row = some named)
    (digest : Str) : digest ∈ named ↔ digest = row.1 := by
  unfold fileNames at h
  split at h
  · cases h
    exact List.mem_singleton
  · cases h

theorem mem_metadataNames {row : Str × Str} {named : List Str} (h : metadataNames row = some named)
    (digest : Str) : digest ∈ named ↔ ∃ url found source,
      splitMetadata row.2 = some (url, found, source) ∧ (digest = row.1 ∨ digest = found) := by
  unfold metadataNames at h
  split at h
  · cases h
  · rename_i url found source hsplit
    split at h
    · cases h
      rw [hsplit]
      simp
    · cases h

theorem mem_provenanceNames {row : Str × Str} {named : List Str}
    (h : provenanceNames row = some named) (digest : Str) : digest ∈ named ↔
      ∃ size, splitProvenance row.2 = some (digest, size) := by
  unfold provenanceNames validProvenance at h
  unfold splitProvenance
  rcases hsplit : Str.splitOnce 0x0A row.2 with _ | ⟨found, size⟩
  · rw [hsplit] at h
    cases h
  · rw [hsplit] at h
    dsimp only at h
    split at h
    · rename_i hvalid
      simp only [Bool.and_eq_true, Option.isSome_iff_exists] at hvalid
      obtain ⟨_, length, hlength⟩ := hvalid
      cases h
      simp [hlength, eq_comm]
    · cases h

theorem rowNames_iff {rows : Rows} (h : Collectable json rows) (digest : Str) :
    RowNames json rows digest ↔ LeadsTo json File.coreMetadata rows digest := by
  constructor
  · rintro (⟨row, hrow, named, hnames, hmem⟩ | ⟨row, hrow, named, hnames, hmem⟩ |
      ⟨row, hrow, named, hnames, hmem⟩ | ⟨row, hrow, named, hnames, hmem⟩)
    · have htext := (mem_textsUnder rows filePrefix row.1 row.2).mp hrow
      have hsome : (splitFileSource row.2).isSome := by
        rw [splitFileSource_isSome]
        unfold fileNames at hnames
        split at hnames
        · rename_i hvalid
          simp only [Bool.and_eq_true] at hvalid
          exact hvalid.2
        · cases hnames
      obtain ⟨source, hsource⟩ := Option.isSome_iff_exists.mp hsome
      refine .source digest source ?_
      rw [(mem_fileNames hnames digest).mp hmem]
      exact Option.bind_eq_some_iff.mpr ⟨row.2, htext, hsource⟩
    · have htext := (mem_textsUnder rows metadataPrefix row.1 row.2).mp hrow
      obtain ⟨url, found, source, hsplit, hdigest⟩ := (mem_metadataNames hnames digest).mp hmem
      have hget : getMetadata rows row.1 = some (url, found, source) :=
        Option.bind_eq_some_iff.mpr ⟨row.2, htext, hsplit⟩
      rcases hdigest with rfl | rfl
      · exact .artifactOf row.1 url found source hget
      · exact .metadataOf row.1 url digest source hget
    · have hraw := (mem_recordsUnder rows uploadPrefix row.1 row.2).mp hrow
      obtain ⟨upload, hread, hdigest | hdigest⟩ := (mem_uploadDigests json hnames digest).mp hmem
      · exact .artifact row.1 row.2 upload digest hraw hread hdigest
      · obtain ⟨hashes, hcore, hhash⟩ := (coreMetadataDigest_eq_some _ _).mp hdigest
        exact .sibling row.1 row.2 upload hashes digest hraw hread hcore hhash
          (uploadDigests_valid json hnames digest hmem)
    · have htext := (mem_textsUnder rows provenancePrefix row.1 row.2).mp hrow
      obtain ⟨size, hsplit⟩ := (mem_provenanceNames hnames digest).mp hmem
      exact .provenance row.1 digest size (Option.bind_eq_some_iff.mpr ⟨row.2, htext, hsplit⟩)
  · intro hleads
    have huploaded : ∀ key raw upload, rows[uploadPrefix ++ key]? = some raw →
        json.readUploaded raw = some upload → (upload.file.sha256 = some digest ∨
          coreMetadataDigest upload.file = some digest) → RowNames json rows digest := by
      intro key raw upload hraw hread hdigest
      have hrow := (mem_recordsUnder rows uploadPrefix key raw).mpr hraw
      obtain ⟨named, hnamed⟩ := Option.isSome_iff_exists.mp (h.uploads _ hrow)
      exact .inr (.inr (.inl ⟨(key, raw), hrow, named, hnamed,
        (mem_uploadDigests json hnamed digest).mpr ⟨upload, hread, hdigest⟩⟩))
    have hmetadata : ∀ artifact url found source, getMetadata rows artifact = some (url, found, source) →
        (digest = artifact ∨ digest = found) → RowNames json rows digest := by
      intro artifact url found source hget hdigest
      obtain ⟨text, htext, hsplit⟩ := Option.bind_eq_some_iff.mp hget
      have hrow := (mem_textsUnder rows metadataPrefix artifact text).mpr htext
      obtain ⟨named, hnamed⟩ := Option.isSome_iff_exists.mp (h.metadata _ hrow)
      exact .inr (.inl ⟨(artifact, text), hrow, named, hnamed,
        (mem_metadataNames hnamed digest).mpr ⟨url, found, source, hsplit, hdigest⟩⟩)
    cases hleads with
    | artifact key raw upload digest hraw hread hdigest =>
      exact huploaded key raw upload hraw hread (.inl hdigest)
    | sibling key raw upload hashes digest hraw hread hcore hhash hvalid =>
      exact huploaded key raw upload hraw hread
        (.inr ((coreMetadataDigest_eq_some _ _).mpr ⟨hashes, hcore, hhash⟩))
    | source digest source hget =>
      obtain ⟨text, htext, _⟩ := Option.bind_eq_some_iff.mp hget
      have hrow := (mem_textsUnder rows filePrefix digest text).mpr htext
      obtain ⟨named, hnamed⟩ := Option.isSome_iff_exists.mp (h.files _ hrow)
      exact .inl ⟨(digest, text), hrow, named, hnamed, (mem_fileNames hnamed digest).mpr rfl⟩
    | metadataOf artifact url digest source hget =>
      exact hmetadata artifact url digest source hget (.inr rfl)
    | artifactOf artifact url found source hget =>
      exact hmetadata digest url found source hget (.inl rfl)
    | provenance artifact digest size hget =>
      obtain ⟨text, htext, hsplit⟩ := Option.bind_eq_some_iff.mp hget
      have hrow := (mem_textsUnder rows provenancePrefix artifact text).mpr htext
      obtain ⟨named, hnamed⟩ := Option.isSome_iff_exists.mp (h.provenance _ hrow)
      exact .inr (.inr (.inr ⟨(artifact, text), hrow, named, hnamed,
        (mem_provenanceNames hnamed digest).mpr ⟨size, hsplit⟩⟩))

theorem leadsTo_metadata_iff (rows : Rows) (digest : Str) :
    LeadsTo json File.metadata rows digest ↔
      LeadsTo json File.coreMetadata rows digest ∨ GivenByOlderKey json rows digest := by
  constructor
  · intro h
    cases h with
    | artifact key raw upload digest hraw hread hdigest =>
      exact .inl (.artifact key raw upload digest hraw hread hdigest)
    | sibling key raw upload hashes digest hraw hread hmetadata hhash hvalid =>
      unfold File.metadata at hmetadata
      split at hmetadata
      · rename_i habsent
        exact .inr ⟨key, raw, upload, hashes, hraw, hread, habsent, hmetadata, hhash, hvalid⟩
      · exact .inl (.sibling key raw upload hashes digest hraw hread hmetadata hhash hvalid)
    | source digest source hget => exact .inl (.source digest source hget)
    | metadataOf artifact url digest source hget =>
      exact .inl (.metadataOf artifact url digest source hget)
    | artifactOf artifact url found source hget =>
      exact .inl (.artifactOf digest url found source hget)
    | provenance artifact digest size hget => exact .inl (.provenance artifact digest size hget)
  · rintro (h | ⟨key, raw, upload, hashes, hraw, hread, habsent, hdist, hhash, hvalid⟩)
    · cases h with
      | artifact key raw upload digest hraw hread hdigest =>
        exact .artifact key raw upload digest hraw hread hdigest
      | sibling key raw upload hashes digest hraw hread hcore hhash hvalid =>
        refine .sibling key raw upload hashes digest hraw hread ?_ hhash hvalid
        unfold File.metadata
        rw [hcore]
        rfl
      | source digest source hget => exact .source digest source hget
      | metadataOf artifact url digest source hget =>
        exact .metadataOf artifact url digest source hget
      | artifactOf artifact url found source hget =>
        exact .artifactOf digest url found source hget
      | provenance artifact digest size hget => exact .provenance artifact digest size hget
    · refine .sibling key raw upload hashes digest hraw hread ?_ hhash hvalid
      unfold File.metadata
      rw [if_pos habsent]
      exact hdist

end Json
end Peryx.Pypi
