import Peryx.Pypi.AdminReads

/-! # What a purge deletes -/

namespace Peryx.Pypi
open Storage

structure Refers {ι ε : Type} (visit : CacheRefs → ι → Except ε CacheRefs) (accepts : ι → Prop)
    (files wheels : ι → Str → Prop) : Prop where
  ok_iff : ∀ refs i, (∃ next, visit refs i = .ok next) ↔ accepts i
  files_iff : ∀ refs i next, visit refs i = .ok next →
    ∀ digest, digest ∈ next.files ↔ digest ∈ refs.files ∨ files i digest
  wheels_iff : ∀ refs i next, visit refs i = .ok next →
    ∀ digest, digest ∈ next.metadataWheels ↔ digest ∈ refs.metadataWheels ∨ wheels i digest

theorem Refers.foldlM {ι ε : Type} {visit : CacheRefs → ι → Except ε CacheRefs}
    {accepts : ι → Prop} {files wheels : ι → Str → Prop} (h : Refers visit accepts files wheels) :
    Refers (fun refs items => List.foldlM visit refs items) (fun items => ∀ i ∈ items, accepts i)
      (fun items digest => ∃ i ∈ items, files i digest)
      (fun items digest => ∃ i ∈ items, wheels i digest) where
  ok_iff refs items := Visits.foldlM_ok_iff h.ok_iff items refs
  files_iff refs items last hlast digest :=
    @Visits.foldlM_holds_iff _ _ _ _ (fun refs => digest ∈ refs.files) _
      (fun refs i next hnext => h.files_iff refs i next hnext digest) items refs last hlast
  wheels_iff refs items last hlast digest :=
    @Visits.foldlM_holds_iff _ _ _ _ (fun refs => digest ∈ refs.metadataWheels) _
      (fun refs i next hnext => h.wheels_iff refs i next hnext digest) items refs last hlast

def File.SoundDigests (file : File) : Prop :=
  ∀ sha256, file.sha256 = some sha256 → isDigest sha256 = true ∧
    ∀ metadata, coreMetadataDigest file = some metadata → isDigest metadata = true

theorem refers_addFileRefs : Refers addFileRefs File.SoundDigests
    (fun file digest => file.sha256 = some digest)
    (fun file digest => file.sha256 = some digest ∧ (coreMetadataDigest file).isSome) := by
  have hcases : ∀ refs file, (file.sha256 = none ∧ addFileRefs refs file = .ok refs) ∨
      ∃ sha256, file.sha256 = some sha256 ∧
        ((isDigest sha256 = false ∧ addFileRefs refs file = .error (.digest sha256)) ∨
        (isDigest sha256 = true ∧ coreMetadataDigest file = none ∧
          addFileRefs refs file = .ok { refs with files := refs.files.insert sha256 }) ∨
        ∃ metadata, isDigest sha256 = true ∧ coreMetadataDigest file = some metadata ∧
          ((isDigest metadata = false ∧ addFileRefs refs file = .error (.metadataDigest metadata)) ∨
          (isDigest metadata = true ∧ addFileRefs refs file = .ok
            { files := refs.files.insert sha256
              metadataWheels := refs.metadataWheels.insert sha256 }))) := by
    intro refs file
    unfold addFileRefs
    show (file.hashes[str "sha256"]? = none ∧ _) ∨ ∃ sha256, file.hashes[str "sha256"]? = some sha256 ∧ _
    rcases file.hashes[str "sha256"]? with _ | sha256
    · exact .inl ⟨rfl, rfl⟩
    · refine .inr ⟨sha256, rfl, ?_⟩
      cases hsha : isDigest sha256 with
      | false => exact .inl ⟨rfl, by simp [hsha]⟩
      | true =>
        cases hcore : coreMetadataDigest file with
        | none => exact .inr (.inl ⟨rfl, rfl, by simp [hsha]⟩)
        | some metadata =>
          cases hmetadata : isDigest metadata with
          | false => exact .inr (.inr ⟨metadata, rfl, rfl, .inl ⟨hmetadata, by simp [hsha, hmetadata]⟩⟩)
          | true => exact .inr (.inr ⟨metadata, rfl, rfl, .inr ⟨hmetadata, by simp [hsha, hmetadata]⟩⟩)
  have hinsert : ∀ (digests : Digests) (sha256 digest : Str),
      digest ∈ digests.insert sha256 ↔ digest ∈ digests ∨ sha256 = digest := by
    intro digests sha256 digest
    rw [Std.ExtTreeSet.mem_insert, Std.LawfulEqCmp.compare_eq_iff_eq, or_comm]
  refine ⟨fun refs file => ?_, fun refs file next hnext digest => ?_,
    fun refs file next hnext digest => ?_⟩
  · unfold File.SoundDigests
    rcases hcases refs file with ⟨hsha, hrun⟩ | ⟨sha256, hsha, ⟨hbad, hrun⟩ | ⟨hgood, hcore, hrun⟩ |
      ⟨metadata, hgood, hcore, ⟨hbad, hrun⟩ | ⟨hmetadata, hrun⟩⟩⟩ <;> rw [hrun, hsha] <;> simp_all
  · rcases hcases refs file with ⟨hsha, hrun⟩ | ⟨sha256, hsha, ⟨hbad, hrun⟩ | ⟨hgood, hcore, hrun⟩ |
      ⟨metadata, hgood, hcore, ⟨hbad, hrun⟩ | ⟨hmetadata, hrun⟩⟩⟩ <;> rw [hrun] at hnext <;>
      cases hnext <;> rw [hsha] <;> simp [hinsert]
  · rcases hcases refs file with ⟨hsha, hrun⟩ | ⟨sha256, hsha, ⟨hbad, hrun⟩ | ⟨hgood, hcore, hrun⟩ |
      ⟨metadata, hgood, hcore, ⟨hbad, hrun⟩ | ⟨hmetadata, hrun⟩⟩⟩ <;> rw [hrun] at hnext <;>
      cases hnext <;> rw [hsha] <;> simp_all

theorem Refers.mapError {ι ε δ : Type} {visit : CacheRefs → ι → Except ε CacheRefs}
    {accepts : ι → Prop} {files wheels : ι → Str → Prop} (h : Refers visit accepts files wheels)
    (f : ι → ε → δ) : Refers (fun refs i => (visit refs i).mapError (f i)) accepts files wheels := by
  have hok : ∀ refs i next, (visit refs i).mapError (f i) = .ok next ↔ visit refs i = .ok next := by
    intro refs i next
    cases visit refs i <;> simp [Except.mapError]
  exact ⟨fun refs i => by simp only [hok, h.ok_iff],
    fun refs i next hnext => h.files_iff refs i next ((hok refs i next).mp hnext),
    fun refs i next hnext => h.wheels_iff refs i next ((hok refs i next).mp hnext)⟩

section Json
variable (json : AdminJson)

def pageFiles (record : CachedIndex) : List File :=
  ((json.parseDetail record.body).map ProjectDetail.files).getD []

def ReadablePage (record : CachedIndex) : Prop :=
  ∃ detail, json.parseDetail record.body = some detail ∧ ∀ file ∈ detail.files, file.SoundDigests

theorem refers_addIndexRefs : Refers (addIndexRefs json) (ReadablePage json)
    (fun record digest => ∃ file ∈ pageFiles json record, file.sha256 = some digest)
    (fun record digest => ∃ file ∈ pageFiles json record,
      file.sha256 = some digest ∧ (coreMetadataDigest file).isSome) := by
  have hfiles := refers_addFileRefs.foldlM
  have hrun : ∀ refs record next, addIndexRefs json refs record = .ok next →
      (pageFiles json record).foldlM addFileRefs refs = .ok next := by
    intro refs record next hnext
    unfold addIndexRefs at hnext
    unfold pageFiles
    cases hparse : json.parseDetail record.body with
    | none =>
      rw [hparse] at hnext
      cases hnext
    | some detail =>
      rw [hparse] at hnext
      exact hnext
  refine ⟨fun refs record => ?_, fun refs record next hnext => ?_, fun refs record next hnext => ?_⟩
  · unfold addIndexRefs ReadablePage
    cases json.parseDetail record.body with
    | none => simp
    | some detail => simpa using hfiles.ok_iff refs detail.files
  · exact hfiles.files_iff refs _ next (hrun refs record next hnext)
  · exact hfiles.wheels_iff refs _ next (hrun refs record next hnext)

def PageLists (rows : Rows) (key digest : Str) : Prop :=
  ∃ raw record, rows[indexKey key]? = some raw ∧
    CachedIndex.decode json.toPageJson raw = some record ∧
    ∃ file ∈ pageFiles json record, file.sha256 = some digest

def PageOffers (rows : Rows) (key digest : Str) : Prop :=
  ∃ raw record, rows[indexKey key]? = some raw ∧
    CachedIndex.decode json.toPageJson raw = some record ∧
    ∃ file ∈ pageFiles json record, file.sha256 = some digest ∧ (coreMetadataDigest file).isSome

theorem PageOffers.lists {rows : Rows} {key digest : Str} (h : PageOffers json rows key digest) :
    PageLists json rows key digest := by
  obtain ⟨raw, record, hraw, hdecode, file, hfile, hsha, _⟩ := h
  exact ⟨raw, record, hraw, hdecode, file, hfile, hsha⟩

def UploadNames (rows : Rows) (digest : Str) : Prop :=
  ∃ key raw named, rows[uploadPrefix ++ key]? = some raw ∧ uploadDigests json raw = some named ∧
    digest ∈ named

def GenerationNames (rows : Rows) (digest : Str) : Prop :=
  ∃ index normalized state active key raw file,
    (projectSpace json.toGenerationJson index normalized).state rows = .ok state ∧
    state.active = some active ∧
    projectGenerationPrefix index normalized active.generation <+: key ∧
    rows[key]? = some raw ∧ json.readFile raw = some file ∧ file.sha256 = some digest

def otherPage (targetKey : Str) (row : Str × Bytes) : Option CachedIndex :=
  if row.1 = targetKey then none else CachedIndex.decode json.toPageJson row.2

theorem preservePage_ok {targetKey : Str} {refs next : CacheRefs} {row : Str × Bytes}
    (h : preservePage json targetKey refs row = .ok next) :
    otherPage json targetKey row = none ∧ next = refs ∨
      ∃ record, otherPage json targetKey row = some record ∧
        (addIndexRefs json refs record).mapError (AdminError.page row.1) = .ok next := by
  unfold preservePage at h
  unfold otherPage
  by_cases htarget : row.1 = targetKey
  · rw [if_pos htarget] at h
    cases h
    exact .inl ⟨if_pos htarget, rfl⟩
  · rw [if_neg htarget] at h ⊢
    cases hdecode : CachedIndex.decode json.toPageJson row.2 with
    | none =>
      rw [hdecode] at h
      cases h
    | some record =>
      rw [hdecode] at h
      exact .inr ⟨record, rfl, h⟩

theorem refers_preservePage (targetKey : Str) : Refers (preservePage json targetKey)
    (fun row => row.1 ≠ targetKey →
      ∃ record, CachedIndex.decode json.toPageJson row.2 = some record ∧ ReadablePage json record)
    (fun row digest => ∃ record, otherPage json targetKey row = some record ∧
      ∃ file ∈ pageFiles json record, file.sha256 = some digest)
    (fun row digest => ∃ record, otherPage json targetKey row = some record ∧
      ∃ file ∈ pageFiles json record,
        file.sha256 = some digest ∧ (coreMetadataDigest file).isSome) := by
  have hpage := fun key => (refers_addIndexRefs json).mapError fun _ => AdminError.page key
  refine ⟨fun refs row => ?_, fun refs row next hnext digest => ?_,
    fun refs row next hnext digest => ?_⟩
  · unfold preservePage
    by_cases htarget : row.1 = targetKey
    · simp [htarget]
    · rw [if_neg htarget]
      cases hdecode : CachedIndex.decode json.toPageJson row.2 with
      | none => simp [htarget]
      | some record => simpa [htarget] using (hpage row.1).ok_iff refs record
  · rcases preservePage_ok json hnext with ⟨hother, rfl⟩ | ⟨record, hother, hadded⟩
    · simp [hother]
    · simpa [hother] using (hpage row.1).files_iff refs record next hadded digest
  · rcases preservePage_ok json hnext with ⟨hother, rfl⟩ | ⟨record, hother, hadded⟩
    · simp [hother]
    · simpa [hother] using (hpage row.1).wheels_iff refs record next hadded digest

theorem refers_preserveUpload : Refers (preserveUpload json)
    (fun row => (uploadDigests json row.2).isSome)
    (fun row digest => ∃ named, uploadDigests json row.2 = some named ∧ digest ∈ named)
    (fun _ _ => False) := by
  have hrun : ∀ refs row next, preserveUpload json refs row = .ok next ↔
      ∃ files, referUpload json refs.files row = .ok files ∧
        next = { refs with files := files } := by
    intro refs row next
    unfold preserveUpload
    cases referUpload json refs.files row with
    | error error => simp [Except.map]
    | ok files => simp [Except.map, eq_comm]
  have hgathers := gathers_referUpload json
  refine ⟨fun refs row => ?_, fun refs row next hnext digest => ?_,
    fun refs row next hnext digest => ?_⟩
  · simp only [hrun]
    rw [← hgathers.accepts refs.files row]
    exact ⟨fun ⟨_, files, hfiles, _⟩ => ⟨files, hfiles⟩, fun ⟨files, hfiles⟩ => ⟨_, files, hfiles, rfl⟩⟩
  · obtain ⟨files, hfiles, rfl⟩ := (hrun refs row next).mp hnext
    exact hgathers.adds refs.files row files hfiles digest
  · obtain ⟨files, _, rfl⟩ := (hrun refs row next).mp hnext
    simp

def orDecode {α : Type} : Option α → Except MetaFailure α
  | some a => .ok a
  | none => .error .decode

def overlayAt (rows : Rows) (key : Str) : Except MetaFailure (Option FreshnessOverlay) :=
  match rows[freshnessKey key]? with
  | none => .ok none
  | some raw => do return some (← orDecode (json.readOverlay raw))

def indexAt (rows : Rows) (key : Str) : Except MetaFailure (Option CachedIndex) :=
  match rows[indexKey key]? with
  | none => .ok none
  | some raw => do
    let record ← orDecode (CachedIndex.decode json.toPageJson raw)
    match ← overlayAt json rows key with
    | none => return some record
    | some overlay => return some { record with
        fetchedAtUnix := overlay.fetchedAtUnix
        freshSecs := overlay.freshSecs }

theorem reads_decoded {α : Type} (found : Option α) (rows : Rows) :
    Reads (decoded found) rows (orDecode found) := by
  cases found with
  | none => exact reads_throw _ rows
  | some a => exact reads_pure a rows

theorem reads_readOverlay (rows : Rows) (key : Str) :
    Reads (readOverlay json.toPageJson key) rows (overlayAt json rows key) := by
  refine (reads_getCall (freshnessKey key) rows).bind_ok ?_
  unfold overlayAt
  cases rows[freshnessKey key]? with
  | none => exact reads_pure _ rows
  | some raw => exact (reads_decoded (json.readOverlay raw) rows).bind fun overlay _ =>
      reads_pure (some overlay) rows

theorem reads_getIndex (rows : Rows) (key : Str) :
    Reads (getIndex json.toPageJson key) rows (indexAt json rows key) := by
  refine (reads_getCall (indexKey key) rows).bind_ok ?_
  unfold indexAt
  cases rows[indexKey key]? with
  | none => exact reads_pure _ rows
  | some raw =>
    refine (reads_decoded _ rows).bind fun record _ => ?_
    refine (reads_readOverlay json rows key).bind fun overlay _ => ?_
    cases overlay with
    | none => exact reads_pure _ rows
    | some overlay => exact reads_pure _ rows

def targetRefs (rows : Rows) (targetKey : Str) : Except AdminError CacheRefs := do
  match ← (indexAt json rows targetKey).mapError fun failure =>
    AdminError.project targetKey (.store failure) with
  | none => return {}
  | some record => (addIndexRefs json {} record).mapError (.project targetKey)

def otherRefs (rows : Rows) (targetKey : Str) : Except AdminError CacheRefs := do
  let refs ← (recordsUnder rows indexPrefix).foldlM (preservePage json targetKey) {}
  (recordsUnder rows uploadPrefix).foldlM (preserveUpload json) refs

theorem reads_projectRefs (rows : Rows) (targetKey : Str) :
    Reads (projectRefs json targetKey) rows (targetRefs json rows targetKey) := by
  refine ((reads_getIndex json rows targetKey).raised _).bind fun found _ => ?_
  cases found with
  | none => exact reads_pure _ rows
  | some record => exact reads_visited _ rows

theorem reads_preservedRefs (rows : Rows) (targetKey : Str) :
    Reads (preservedRefs json targetKey) rows (otherRefs json rows targetKey) := by
  have hscan : ∀ start, Reads (raised AdminError.store (scanRecords start)) rows
      (.ok (recordsUnder rows start)) := fun start => (reads_scanRecords start rows).raised _
  refine (hscan indexPrefix).bind_ok ?_
  refine (reads_visited _ rows).bind fun refs _ => ?_
  refine (hscan uploadPrefix).bind_ok ?_
  exact reads_visited _ rows

theorem reads_countRows (keys : List Str) (rows : Rows) : Reads (countRows keys) rows
    (.ok ((keys.map fun key => rows[key]?).countP Option.isSome)) :=
  (reads_mapM keys _ _ rows fun key _ => reads_getCall key rows).map _

theorem reads_countProjectCachePurge (rows : Rows) (index normalized : Str)
    (fileDigests metadataDigests : List Str) : ∃ counts,
      Reads (countProjectCachePurge index normalized fileDigests metadataDigests) rows
        (.ok counts) := by
  apply Exists.intro
  refine (reads_countRows _ rows).bind_ok ?_
  refine (reads_countRows _ rows).bind_ok ?_
  refine (reads_countRows _ rows).bind_ok ?_
  refine (reads_countRows _ rows).bind_ok ?_
  refine (reads_countRows _ rows).bind_ok ?_
  refine (reads_countRows _ rows).bind_ok ?_
  exact reads_pure _ rows

structure Accountable (rows : Rows) (targetKey : Str) : Prop where
  overlay : ∀ raw overlay, rows[indexKey targetKey]? = some raw →
    rows[freshnessKey targetKey]? = some overlay → (json.readOverlay overlay).isSome
  pages : ∀ key raw, rows[indexKey key]? = some raw → ∃ record,
    CachedIndex.decode json.toPageJson raw = some record ∧ ReadablePage json record
  uploads : ∀ key raw, rows[uploadPrefix ++ key]? = some raw → (uploadDigests json raw).isSome

theorem indexAt_cases (rows : Rows) (key : Str) :
    (rows[indexKey key]? = none ∧ indexAt json rows key = .ok none) ∨
    ∃ raw, rows[indexKey key]? = some raw ∧
      ((indexAt json rows key = .error .decode ∧
        (CachedIndex.decode json.toPageJson raw = none ∨
          ∃ overlay, rows[freshnessKey key]? = some overlay ∧ json.readOverlay overlay = none)) ∨
      ∃ record shown, CachedIndex.decode json.toPageJson raw = some record ∧
        indexAt json rows key = .ok (some shown) ∧ shown.body = record.body ∧
        ∀ overlay, rows[freshnessKey key]? = some overlay → (json.readOverlay overlay).isSome) := by
  unfold indexAt
  cases hraw : rows[indexKey key]? with
  | none => exact .inl ⟨rfl, rfl⟩
  | some raw =>
    refine .inr ⟨raw, rfl, ?_⟩
    cases hdecode : CachedIndex.decode json.toPageJson raw with
    | none => exact .inl ⟨by simp [orDecode, hdecode, bind, Except.bind], .inl rfl⟩
    | some record =>
      cases hfresh : rows[freshnessKey key]? with
      | none =>
        refine .inr ⟨record, record, rfl, ?_, rfl, nofun⟩
        simp [overlayAt, hdecode, hfresh, orDecode, bind, Except.bind, pure, Except.pure]
      | some overlay =>
        cases hread : json.readOverlay overlay with
        | none =>
          refine .inl ⟨?_, .inr ⟨overlay, rfl, hread⟩⟩
          simp [overlayAt, hdecode, hfresh, hread, orDecode, bind, Except.bind]
        | some fresh =>
          refine .inr ⟨record, { record with
            fetchedAtUnix := fresh.fetchedAtUnix
            freshSecs := fresh.freshSecs }, rfl, ?_, rfl, ?_⟩
          · simp [overlayAt, hdecode, hfresh, hread, orDecode, bind, Except.bind, pure, Except.pure]
          · intro found hfound
            cases hfound
            rw [hread]
            rfl

theorem pageLists_iff {rows : Rows} {key : Str} {raw : Bytes} {record : CachedIndex}
    (hraw : rows[indexKey key]? = some raw)
    (hdecode : CachedIndex.decode json.toPageJson raw = some record) (digest : Str) :
    PageLists json rows key digest ↔
      ∃ file ∈ pageFiles json record, file.sha256 = some digest := by
  unfold PageLists
  simp [hraw, hdecode]

theorem pageOffers_iff {rows : Rows} {key : Str} {raw : Bytes} {record : CachedIndex}
    (hraw : rows[indexKey key]? = some raw)
    (hdecode : CachedIndex.decode json.toPageJson raw = some record) (digest : Str) :
    PageOffers json rows key digest ↔ ∃ file ∈ pageFiles json record,
      file.sha256 = some digest ∧ (coreMetadataDigest file).isSome := by
  unfold PageOffers
  simp [hraw, hdecode]

theorem targetRefs_found {rows : Rows} {targetKey : Str} {record shown : CachedIndex}
    (hindex : indexAt json rows targetKey = .ok (some shown)) (hbody : shown.body = record.body) :
    targetRefs json rows targetKey =
      (addIndexRefs json {} record).mapError (.project targetKey) := by
  have hsame : addIndexRefs json {} shown = addIndexRefs json {} record := by
    unfold addIndexRefs
    rw [hbody]
  unfold targetRefs
  rw [hindex, ← hsame]
  rfl

theorem mem_targetRefs {rows : Rows} {targetKey : Str} {target : CacheRefs}
    (h : targetRefs json rows targetKey = .ok target) (digest : Str) :
    (digest ∈ target.files ↔ PageLists json rows targetKey digest) ∧
      (digest ∈ target.metadataWheels ↔ PageOffers json rows targetKey digest) := by
  rcases indexAt_cases json rows targetKey with ⟨hnone, hindex⟩ |
    ⟨raw, hraw, ⟨hindex, _⟩ | ⟨record, shown, hdecode, hindex, hbody, _⟩⟩
  · unfold targetRefs at h
    rw [hindex] at h
    cases h
    unfold PageLists PageOffers
    simp [hnone]
  · unfold targetRefs at h
    rw [hindex] at h
    cases h
  · rw [targetRefs_found json hindex hbody] at h
    have hrefers := (refers_addIndexRefs json).mapError fun _ => AdminError.project targetKey
    rw [pageLists_iff json hraw hdecode, pageOffers_iff json hraw hdecode,
      hrefers.files_iff {} record target h, hrefers.wheels_iff {} record target h]
    simp

theorem targetRefs_ok_iff (rows : Rows) (targetKey : Str) :
    (∃ target, targetRefs json rows targetKey = .ok target) ↔
      ∀ raw, rows[indexKey targetKey]? = some raw →
        (∃ record, CachedIndex.decode json.toPageJson raw = some record ∧
          ReadablePage json record) ∧
        ∀ overlay, rows[freshnessKey targetKey]? = some overlay →
          (json.readOverlay overlay).isSome := by
  rcases indexAt_cases json rows targetKey with ⟨hnone, hindex⟩ |
    ⟨raw, hraw, ⟨hindex, hbad⟩ | ⟨record, shown, hdecode, hindex, hbody, hoverlay⟩⟩
  · unfold targetRefs
    rw [hindex, hnone]
    exact ⟨fun _ => nofun, fun _ => ⟨{}, rfl⟩⟩
  · unfold targetRefs
    rw [hindex, hraw]
    constructor
    · rintro ⟨_, h⟩
      cases h
    · intro h
      obtain ⟨⟨record, hdecode, _⟩, hfresh⟩ := h raw rfl
      rcases hbad with hbad | ⟨overlay, hoverlay, hbad⟩
      · rw [hbad] at hdecode
        cases hdecode
      · have hsome := hfresh overlay hoverlay
        rw [hbad] at hsome
        cases hsome
  · have hrefers := (refers_addIndexRefs json).mapError fun _ => AdminError.project targetKey
    rw [targetRefs_found json hindex hbody, hrefers.ok_iff {} record, hraw]
    constructor
    · intro hreadable found hfound
      cases hfound
      exact ⟨⟨record, hdecode, hreadable⟩, hoverlay⟩
    · intro h
      obtain ⟨⟨found, hfound, hreadable⟩, _⟩ := h raw rfl
      rw [hdecode] at hfound
      cases hfound
      exact hreadable

theorem otherRefs_ok {rows : Rows} {targetKey : Str} {preserved : CacheRefs} :
    otherRefs json rows targetKey = .ok preserved ↔ ∃ pages,
      (recordsUnder rows indexPrefix).foldlM (preservePage json targetKey) {} = .ok pages ∧
      (recordsUnder rows uploadPrefix).foldlM (preserveUpload json) pages = .ok preserved :=
  bind_eq_ok _ _ _

theorem mem_otherRefs {rows : Rows} {targetKey : Str} {preserved : CacheRefs}
    (h : otherRefs json rows targetKey = .ok preserved) (digest : Str) :
    digest ∈ preserved.files ↔
      (∃ key, key ≠ targetKey ∧ PageLists json rows key digest) ∨ UploadNames json rows digest := by
  obtain ⟨pages, hpages, huploads⟩ := (otherRefs_ok json).mp h
  rw [(refers_preserveUpload json).foldlM.files_iff pages _ preserved huploads,
    (refers_preservePage json targetKey).foldlM.files_iff {} _ pages hpages]
  refine or_congr ?_ ?_
  · constructor
    · rintro (hempty | ⟨⟨key, raw⟩, hrow, record, hother, hfile⟩)
      · exact absurd hempty Std.ExtTreeSet.not_mem_empty
      · unfold otherPage at hother
        split at hother
        · cases hother
        · rename_i htarget
          have hraw := (mem_recordsUnder rows indexPrefix key raw).mp hrow
          exact ⟨key, htarget, (pageLists_iff json hraw hother digest).mpr hfile⟩
    · rintro ⟨key, htarget, raw, record, hraw, hdecode, hfile⟩
      refine .inr ⟨(key, raw), (mem_recordsUnder rows indexPrefix key raw).mpr hraw, record, ?_, hfile⟩
      unfold otherPage
      rw [if_neg htarget]
      exact hdecode
  · constructor
    · rintro ⟨⟨key, raw⟩, hrow, named, hnamed, hmem⟩
      exact ⟨key, raw, named, (mem_recordsUnder rows uploadPrefix key raw).mp hrow, hnamed, hmem⟩
    · rintro ⟨key, raw, named, hraw, hnamed, hmem⟩
      exact ⟨(key, raw), (mem_recordsUnder rows uploadPrefix key raw).mpr hraw, named, hnamed, hmem⟩

theorem accountable_iff (rows : Rows) (targetKey : Str) : Accountable json rows targetKey ↔
    (∃ target, targetRefs json rows targetKey = .ok target) ∧
      ∃ preserved, otherRefs json rows targetKey = .ok preserved := by
  have hothers : (∃ preserved, otherRefs json rows targetKey = .ok preserved) ↔
      (∀ row ∈ recordsUnder rows indexPrefix, row.1 ≠ targetKey → ∃ record,
        CachedIndex.decode json.toPageJson row.2 = some record ∧ ReadablePage json record) ∧
      ∀ row ∈ recordsUnder rows uploadPrefix, (uploadDigests json row.2).isSome := by
    constructor
    · rintro ⟨preserved, h⟩
      obtain ⟨pages, hpages, huploads⟩ := (otherRefs_ok json).mp h
      exact ⟨((refers_preservePage json targetKey).foldlM.ok_iff {} _).mp ⟨pages, hpages⟩,
        ((refers_preserveUpload json).foldlM.ok_iff pages _).mp ⟨preserved, huploads⟩⟩
    · rintro ⟨hreadable, hnamed⟩
      obtain ⟨pages, hpages⟩ := ((refers_preservePage json targetKey).foldlM.ok_iff {} _).mpr hreadable
      obtain ⟨preserved, huploads⟩ := ((refers_preserveUpload json).foldlM.ok_iff pages _).mpr hnamed
      exact ⟨preserved, (otherRefs_ok json).mpr ⟨pages, hpages, huploads⟩⟩
  rw [targetRefs_ok_iff, hothers]
  constructor
  · intro h
    refine ⟨fun raw hraw => ⟨h.pages targetKey raw hraw, fun overlay => h.overlay raw overlay hraw⟩,
      ?_, ?_⟩
    · exact fun row hrow _ => h.pages row.1 row.2 ((mem_recordsUnder rows indexPrefix _ _).mp hrow)
    · exact fun row hrow => h.uploads row.1 row.2 ((mem_recordsUnder rows uploadPrefix _ _).mp hrow)
  · rintro ⟨htarget, hpages, huploads⟩
    refine ⟨fun raw overlay hraw => (htarget raw hraw).2 overlay, fun key raw hraw => ?_,
      fun key raw hraw => ?_⟩
    · by_cases hkey : key = targetKey
      · rw [hkey] at hraw
        exact (htarget raw hraw).1
      · exact hpages (key, raw) ((mem_recordsUnder rows indexPrefix key raw).mpr hraw) hkey
    · exact huploads (key, raw) ((mem_recordsUnder rows uploadPrefix key raw).mpr hraw)

variable (table : CaseMap)

def rowsAfterPurge (rows : Rows) (index project : Str) (apply : Bool) : Rows :=
  ((purgeProject json table index project apply).run.run { store := { rows := rows } }).2.store.rows

def purgedKeys (index normalized : Str) (target preserved : CacheRefs) : List Str :=
  let fileDigests := difference target.files preserved.files
  let metadataDigests := difference target.metadataWheels preserved.files
  let key := projectSuffix index normalized
  [indexKey key, freshnessKey key, projectKey index normalized,
      projectStatusKey index normalized] ++
    fileDigests.map fileKey ++ metadataDigests.map metadataKey ++ fileDigests.map provenanceKey

theorem rowsAfterPurge_refused {rows : Rows} {index project : Str} (apply : Bool)
    (h : ¬ Accountable json rows (projectSuffix index (normalizeName table project))) :
    rowsAfterPurge json table rows index project apply = rows := by
  rw [accountable_iff] at h
  have hrun : ∃ error : AdminError, Reads (purgeProject json table index project apply) rows
      (.error error) := by
    have htarget := reads_projectRefs json rows (projectSuffix index (normalizeName table project))
    have hothers := reads_preservedRefs json rows (projectSuffix index (normalizeName table project))
    rcases hrefs : targetRefs json rows (projectSuffix index (normalizeName table project)) with
      error | target
    · rw [hrefs] at htarget
      exact ⟨error, htarget.bind (g := fun _ => .error error) nofun⟩
    · rw [hrefs] at htarget
      rcases hkept : otherRefs json rows (projectSuffix index (normalizeName table project)) with
        error | preserved
      · rw [hkept] at hothers
        exact ⟨error, htarget.bind_ok (hothers.bind (g := fun _ => .error error) nofun)⟩
      · exact absurd ⟨⟨target, hrefs⟩, preserved, hkept⟩ h
  obtain ⟨error, hread⟩ := hrun
  unfold rowsAfterPurge
  rw [hread { store := { rows := rows } } rfl rfl]

theorem purgeProject_done {rows : Rows} {index project : Str} (apply : Bool)
    {target preserved : CacheRefs}
    (htarget : targetRefs json rows (projectSuffix index (normalizeName table project)) = .ok target)
    (hothers : otherRefs json rows (projectSuffix index (normalizeName table project)) =
      .ok preserved) (disk : Disk) (hfault : disk.fault = .never) (hrows : disk.store.rows = rows) :
    ∃ report, (purgeProject json table index project apply).run.run disk = (.ok report,
      { disk with store.rows := (if apply then
          commitDriverBatch rows ⟨[], purgedKeys index (normalizeName table project) target preserved⟩
        else rows) }) := by
  have hprojectRefs := reads_projectRefs json rows (projectSuffix index (normalizeName table project))
  have hpreservedRefs := reads_preservedRefs json rows
    (projectSuffix index (normalizeName table project))
  rw [htarget] at hprojectRefs
  rw [hothers] at hpreservedRefs
  obtain ⟨counts, hcounts⟩ := reads_countProjectCachePurge rows index (normalizeName table project)
    (difference target.files preserved.files) (difference target.metadataWheels preserved.files)
  unfold purgeProject
  dsimp only
  rw [run_calls_bind (hprojectRefs disk hfault hrows), run_calls_bind (hpreservedRefs disk hfault hrows)]
  cases apply with
  | false =>
    rw [if_neg Bool.false_ne_true, if_neg Bool.false_ne_true,
      run_calls_bind ((hcounts.raised AdminError.store) disk hfault hrows), ← hrows]
    exact ⟨_, rfl⟩
  | true =>
    rw [if_pos rfl, if_pos rfl]
    have hdelete : (raised AdminError.store (deleteProjectCache index (normalizeName table project)
        (difference target.files preserved.files)
        (difference target.metadataWheels preserved.files))).run.run disk =
      (.ok counts, { disk with store.rows := (commitDriverBatch rows
        ⟨[], purgedKeys index (normalizeName table project) target preserved⟩) }) := by
      unfold deleteProjectCache
      rw [run_raised, run_calls_bind (hcounts disk hfault hrows)]
      dsimp only
      rw [run_calls_bind (run_batchCall _ disk hfault), hrows]
      rfl
    rw [run_calls_bind hdelete]
    exact ⟨_, rfl⟩

theorem rowsAfterPurge_done {rows : Rows} {index project : Str} (apply : Bool)
    {target preserved : CacheRefs}
    (htarget : targetRefs json rows (projectSuffix index (normalizeName table project)) = .ok target)
    (hothers : otherRefs json rows (projectSuffix index (normalizeName table project)) =
      .ok preserved) :
    rowsAfterPurge json table rows index project apply =
      if apply then
        commitDriverBatch rows ⟨[], purgedKeys index (normalizeName table project) target preserved⟩
      else rows := by
  obtain ⟨report, hrun⟩ := purgeProject_done json table apply htarget hothers
    { store := { rows := rows } } rfl rfl
  unfold rowsAfterPurge
  rw [hrun]

theorem mem_difference (digests preserved : Digests) (digest : Str) :
    digest ∈ difference digests preserved ↔ digest ∈ digests ∧ digest ∉ preserved := by
  unfold difference
  rw [List.mem_filter, Std.ExtTreeSet.mem_toList]
  simp

def artifactKeys (digest : Str) : List Str :=
  [fileKey digest, metadataKey digest, provenanceKey digest]

theorem mem_purgedKeys (index normalized : Str) (target preserved : CacheRefs) (key : Str) :
    key ∈ purgedKeys index normalized target preserved ↔
      (key = indexKey (projectSuffix index normalized) ∨
        key = freshnessKey (projectSuffix index normalized) ∨ key = projectKey index normalized ∨
        key = projectStatusKey index normalized) ∨
      (∃ digest, (digest ∈ target.files ∧ digest ∉ preserved.files) ∧
        (key = fileKey digest ∨ key = provenanceKey digest)) ∨
      ∃ digest, (digest ∈ target.metadataWheels ∧ digest ∉ preserved.files) ∧
        key = metadataKey digest := by
  unfold purgedKeys
  simp only [List.mem_append, List.mem_map, mem_difference, List.mem_cons, List.not_mem_nil, or_false]
  constructor
  · rintro (((h | ⟨digest, hmem, rfl⟩) | ⟨digest, hmem, rfl⟩) | ⟨digest, hmem, rfl⟩)
    · exact .inl h
    · exact .inr (.inl ⟨digest, hmem, .inl rfl⟩)
    · exact .inr (.inr ⟨digest, hmem, rfl⟩)
    · exact .inr (.inl ⟨digest, hmem, .inr rfl⟩)
  · rintro (h | ⟨digest, hmem, rfl | rfl⟩ | ⟨digest, hmem, rfl⟩)
    · exact .inl (.inl (.inl h))
    · exact .inl (.inl (.inr ⟨digest, hmem, rfl⟩))
    · exact .inr ⟨digest, hmem, rfl⟩
    · exact .inl (.inr ⟨digest, hmem, rfl⟩)

theorem artifact_mem_purgedKeys (index normalized : Str) (target preserved : CacheRefs)
    (digest : Str) :
    (fileKey digest ∈ purgedKeys index normalized target preserved ↔
      digest ∈ target.files ∧ digest ∉ preserved.files) ∧
    (provenanceKey digest ∈ purgedKeys index normalized target preserved ↔
      digest ∈ target.files ∧ digest ∉ preserved.files) ∧
    (metadataKey digest ∈ purgedKeys index normalized target preserved ↔
      digest ∈ target.metadataWheels ∧ digest ∉ preserved.files) := by
  have hpages : ∀ start rest : Str, start.length = 7 → start ≠ indexPrefix → start ≠ freshnessPrefix →
      start ≠ projectsPrefix → start ≠ projectStatusPrefix →
      ¬ (start ++ rest = indexKey (projectSuffix index normalized) ∨
        start ++ rest = freshnessKey (projectSuffix index normalized) ∨
        start ++ rest = projectKey index normalized ∨
        start ++ rest = projectStatusKey index normalized) := by
    intro start rest hlength hindex hfreshness hprojects hstatus
    rintro (h | h | h | h)
    · exact hindex (List.append_inj h hlength).1
    · exact hfreshness (List.append_inj h hlength).1
    · exact hprojects (List.append_inj h hlength).1
    · exact hstatus (List.append_inj h hlength).1
  have hf := hpages filePrefix digest rfl (by decide) (by decide) (by decide) (by decide)
  have ha := hpages provenancePrefix digest rfl (by decide) (by decide) (by decide) (by decide)
  have hd := hpages metadataPrefix digest rfl (by decide) (by decide) (by decide) (by decide)
  have hfa : ∀ x y, filePrefix ++ x ≠ provenancePrefix ++ y :=
    fun x y => key_ne filePrefix provenancePrefix rfl rfl (by decide) x y
  have hfd : ∀ x y, filePrefix ++ x ≠ metadataPrefix ++ y :=
    fun x y => key_ne filePrefix metadataPrefix rfl rfl (by decide) x y
  have had : ∀ x y, provenancePrefix ++ x ≠ metadataPrefix ++ y :=
    fun x y => key_ne provenancePrefix metadataPrefix rfl rfl (by decide) x y
  refine ⟨?_, ?_, ?_⟩
  · refine (mem_purgedKeys _ _ _ _ _).trans ((or_iff_right hf).trans ?_)
    unfold fileKey provenanceKey metadataKey
    simp [hfa, hfd]
  · refine (mem_purgedKeys _ _ _ _ _).trans ((or_iff_right ha).trans ?_)
    unfold fileKey provenanceKey metadataKey
    simp [fun x y => (hfa x y).symm, had]
  · refine (mem_purgedKeys _ _ _ _ _).trans ((or_iff_right hd).trans ?_)
    unfold fileKey provenanceKey metadataKey
    simp [fun x y => (hfd x y).symm, fun x y => (had x y).symm]

theorem eraseAll_mem (rows : Rows) (keys : List Str) (key : Str) (h : key ∈ keys) :
    (keys.foldl (fun rows key => rows.erase key) rows)[key]? = none := by
  induction keys generalizing rows with
  | nil => cases h
  | cons gone keys ih =>
    rw [List.foldl_cons]
    by_cases hgone : gone = key
    · refine eraseAll_none _ keys key ?_
      rw [hgone]
      exact Table.getElem?_set_self rows key none
    · exact ih _ ((List.mem_cons.mp h).resolve_left (Ne.symm hgone))

def Referenced (rows : Rows) (targetKey digest : Str) : Prop :=
  (∃ key, key ≠ targetKey ∧ PageLists json rows key digest) ∨
  (∃ key raw upload, rows[uploadPrefix ++ key]? = some raw ∧ json.readUploaded raw = some upload ∧
    upload.file.sha256 = some digest) ∨
  GenerationNames json rows digest

def KeepsReferenced (rows after : Rows) (targetKey : Str) : Prop :=
  ∀ digest, Referenced json rows targetKey digest → ∀ key ∈ artifactKeys digest,
    rows[key]?.isSome → after[key]?.isSome

/-- An artifact of a published generation that a purge takes for unreferenced has no rows left
to delete. -/
def GenerationsSpared (rows : Rows) (targetKey : Str) (apply : Bool) : Prop :=
  apply = true → Accountable json rows targetKey → ∀ digest, GenerationNames json rows digest →
    PageLists json rows targetKey digest →
    (∃ key, key ≠ targetKey ∧ PageLists json rows key digest) ∨ UploadNames json rows digest ∨
    (rows[fileKey digest]? = none ∧ rows[provenanceKey digest]? = none ∧
      (PageOffers json rows targetKey digest → rows[metadataKey digest]? = none))

theorem rowsAfterPurge_artifact {rows : Rows} {index project : Str}
    (h : Accountable json rows (projectSuffix index (normalizeName table project)))
    (digest : Str) (unkept : ¬ ((∃ key, key ≠ projectSuffix index (normalizeName table project) ∧
      PageLists json rows key digest) ∨ UploadNames json rows digest)) :
    (PageLists json rows (projectSuffix index (normalizeName table project)) digest →
      (rowsAfterPurge json table rows index project true)[fileKey digest]? = none ∧
      (rowsAfterPurge json table rows index project true)[provenanceKey digest]? = none) ∧
    (PageOffers json rows (projectSuffix index (normalizeName table project)) digest →
      (rowsAfterPurge json table rows index project true)[metadataKey digest]? = none) := by
  obtain ⟨⟨target, htarget⟩, preserved, hothers⟩ := (accountable_iff json rows _).mp h
  have hpreserved : digest ∉ preserved.files := fun hmem =>
    unkept ((mem_otherRefs json hothers digest).mp hmem)
  obtain ⟨hfiles, hwheels⟩ := mem_targetRefs json htarget digest
  obtain ⟨hfile, hprovenance, hmetadata⟩ :=
    artifact_mem_purgedKeys index (normalizeName table project) target preserved digest
  rw [rowsAfterPurge_done json table true htarget hothers, if_pos rfl]
  refine ⟨fun hlists => ⟨?_, ?_⟩, fun hoffers => ?_⟩
  · exact eraseAll_mem rows _ _ (hfile.mpr ⟨hfiles.mpr hlists, hpreserved⟩)
  · exact eraseAll_mem rows _ _ (hprovenance.mpr ⟨hfiles.mpr hlists, hpreserved⟩)
  · exact eraseAll_mem rows _ _ (hmetadata.mpr ⟨hwheels.mpr hoffers, hpreserved⟩)

theorem purged_artifact {rows : Rows} {index project : Str} {apply : Bool} {digest key : Str}
    (hkey : key ∈ artifactKeys digest) (hrow : rows[key]?.isSome)
    (hgone : ¬ ((rowsAfterPurge json table rows index project apply)[key]?).isSome) :
    apply = true ∧ Accountable json rows (projectSuffix index (normalizeName table project)) ∧
      PageLists json rows (projectSuffix index (normalizeName table project)) digest ∧
      (key = metadataKey digest →
        PageOffers json rows (projectSuffix index (normalizeName table project)) digest) ∧
      ¬ ((∃ key, key ≠ projectSuffix index (normalizeName table project) ∧
        PageLists json rows key digest) ∨ UploadNames json rows digest) := by
  by_cases haccount : Accountable json rows (projectSuffix index (normalizeName table project))
  · obtain ⟨⟨target, htarget⟩, preserved, hothers⟩ := (accountable_iff json rows _).mp haccount
    rw [rowsAfterPurge_done json table apply htarget hothers] at hgone
    cases apply with
    | false => exact absurd hrow hgone
    | true =>
      rw [if_pos rfl] at hgone
      have hmem : key ∈ purgedKeys index (normalizeName table project) target preserved := by
        by_contra hnot
        rw [commitDriverBatch_getElem? _ _ _ hnot] at hgone
        exact hgone hrow
      obtain ⟨hfiles, hwheels⟩ := mem_targetRefs json htarget digest
      obtain ⟨hfile, hprovenance, hmetadata⟩ :=
        artifact_mem_purgedKeys index (normalizeName table project) target preserved digest
      have hkept := fun h => (mem_otherRefs json hothers digest).mpr h
      have hne : fileKey digest ≠ metadataKey digest ∧ provenanceKey digest ≠ metadataKey digest :=
        ⟨key_ne filePrefix metadataPrefix rfl rfl (by decide) _ _,
          key_ne provenancePrefix metadataPrefix rfl rfl (by decide) _ _⟩
      simp only [artifactKeys, List.mem_cons, List.not_mem_nil, or_false] at hkey
      rcases hkey with rfl | rfl | rfl
      · obtain ⟨hlisted, hother⟩ := hfile.mp hmem
        exact ⟨rfl, haccount, hfiles.mp hlisted, fun h => absurd h hne.1, fun h => hother (hkept h)⟩
      · obtain ⟨hoffered, hother⟩ := hmetadata.mp hmem
        have hoffers := hwheels.mp hoffered
        refine ⟨rfl, haccount, ?_, fun _ => hoffers, fun h => hother (hkept h)⟩
        exact PageOffers.lists json hoffers
      · obtain ⟨hlisted, hother⟩ := hprovenance.mp hmem
        exact ⟨rfl, haccount, hfiles.mp hlisted, fun h => absurd h hne.2, fun h => hother (hkept h)⟩
  · rw [rowsAfterPurge_refused json table apply haccount] at hgone
    exact absurd hrow hgone

theorem keepsReferenced_iff (rows : Rows) (index project : Str) (apply : Bool) :
    KeepsReferenced json rows (rowsAfterPurge json table rows index project apply)
        (projectSuffix index (normalizeName table project)) ↔
      GenerationsSpared json rows (projectSuffix index (normalizeName table project)) apply := by
  constructor
  · rintro hkeeps rfl haccount digest hgeneration hlists
    by_contra hnot
    rw [← or_assoc, not_or] at hnot
    obtain ⟨unkept, hrows⟩ := hnot
    obtain ⟨hlisted, hoffered⟩ := rowsAfterPurge_artifact json table haccount digest unkept
    have hgone : ∀ key ∈ artifactKeys digest,
        (rowsAfterPurge json table rows index project true)[key]? = none → rows[key]? = none := by
      intro key hkey hafter
      by_contra hsome
      have hkept := hkeeps digest (.inr (.inr hgeneration)) key hkey (Option.isSome_iff_ne_none.mpr hsome)
      rw [hafter] at hkept
      cases hkept
    refine hrows ⟨hgone _ ?_ (hlisted hlists).1, hgone _ ?_ (hlisted hlists).2,
      fun hoffers => hgone _ ?_ (hoffered hoffers)⟩ <;> simp [artifactKeys]
  · intro hspared digest hreferenced key hkey hrow
    by_contra hgone
    obtain ⟨happly, haccount, hlists, hoffers, unkept⟩ := purged_artifact json table hkey hrow hgone
    rcases hreferenced with hpage | ⟨uploaded, raw, upload, hraw, hread, hdigest⟩ | hgeneration
    · exact unkept (.inl hpage)
    · obtain ⟨named, hnamed⟩ := Option.isSome_iff_exists.mp (haccount.uploads uploaded raw hraw)
      exact unkept (.inr ⟨uploaded, raw, named, hraw, hnamed,
        (mem_uploadDigests json hnamed digest).mpr ⟨upload, hread, .inl hdigest⟩⟩)
    · rcases hspared happly haccount digest hgeneration hlists with
        hpage | hupload | ⟨hfile, hprovenance, hmetadata⟩
      · exact unkept (.inl hpage)
      · exact unkept (.inr hupload)
      · simp only [artifactKeys, List.mem_cons, List.not_mem_nil, or_false] at hkey
        rcases hkey with rfl | rfl | rfl
        · rw [hfile] at hrow
          cases hrow
        · rw [hmetadata (hoffers rfl)] at hrow
          cases hrow
        · rw [hprovenance] at hrow
          cases hrow

end Json
end Peryx.Pypi
