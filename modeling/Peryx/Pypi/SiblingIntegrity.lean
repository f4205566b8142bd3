import Peryx.Pypi.SiblingRows

/-! # Upstream pages against hosted siblings -/

namespace Peryx.Pypi
open Storage

section Ingest
variable {sha256 : Bytes → Str} (outside : Outside sha256) (table : CaseMap) (pep : Pep440)
  (parseUploadTime : Str → Option Int) (absolutize : Str → Str → Str) (json : RowJson)

theorem buffered_readable (page : BufferedPage) :
    ∀ row ∈ (page.cachedPage table pep parseUploadTime).siblings, Readable row.2 := by
  intro row hrow
  obtain ⟨entry, hentry, rfl⟩ := List.mem_map.mp hrow
  obtain ⟨⟨sha, file⟩, hregistered, hclaim⟩ := List.mem_filterMap.mp hentry
  obtain ⟨digest, hdigest, rfl⟩ := Option.map_eq_some_iff.mp hclaim
  have hfile : file ∈ page.detail.files := by
    obtain ⟨listed, hlisted, hkept⟩ := List.mem_filterMap.mp hregistered
    split at hkept
    · split at hkept
      · cases hkept
      · split at hkept
        · cases hkept
        · cases hkept
          exact hlisted
    · cases hkept
  have htext := page.filesText file hfile
  exact readable_metadataValue _ _ _ (metadataSibling_isUtf8 _ htext.url)
    (htext.metadata digest hdigest) page.nameText

theorem emitItem_registrations (context : PageContext) (progress next : PageProgress)
    (item : PageItem)
    (h : emitItem table pep parseUploadTime absolutize context progress item = .ok next) :
    ∀ registration ∈ next.registrations, registration ∈ progress.registrations ∨
      ∃ file, item = .file file ∧ registrationOf absolutize context file = some registration := by
  intro registration hmem
  cases item with
  | name text =>
    cases h
    exact Or.inl hmem
  | info info =>
    cases h
    exact Or.inl hmem
  | file file =>
    unfold emitItem at h
    dsimp only at h
    split at h
    · cases h
    · cases h
      rcases List.mem_append.mp hmem with hmem | hmem
      · exact Or.inl hmem
      · split at hmem
        · cases hmem
        · exact Or.inr ⟨file, rfl, Option.mem_toList.mp hmem⟩

theorem summary_registrations (context : PageContext) (items : List PageItem)
    (progress summary : PageProgress)
    (h : items.foldlM (emitItem table pep parseUploadTime absolutize context) progress =
      .ok summary) :
    ∀ registration ∈ summary.registrations, registration ∈ progress.registrations ∨
      ∃ file, PageItem.file file ∈ items ∧
        registrationOf absolutize context file = some registration := by
  induction items generalizing progress with
  | nil =>
    cases h
    exact fun _ hmem => Or.inl hmem
  | cons item items ih =>
    obtain ⟨next, hnext, hrest⟩ := (bind_eq_ok _ _ _).mp h
    intro registration hmem
    rcases ih next hrest registration hmem with hmem | ⟨file, hfile, hreg⟩
    · rcases emitItem_registrations table pep parseUploadTime absolutize context progress next item
        hnext registration hmem with hmem | ⟨file, rfl, hreg⟩
      · exact Or.inl hmem
      · exact Or.inr ⟨file, List.mem_cons_self, hreg⟩
    · exact Or.inr ⟨file, List.mem_cons_of_mem _ hfile, hreg⟩

theorem streamed_readable (page : StreamedPage absolutize) (summary : PageProgress)
    (h : page.summary table pep parseUploadTime absolutize = .ok summary) :
    ∀ row ∈ (page.cachedPage absolutize summary).siblings, Readable row.2 := by
  intro row hrow
  obtain ⟨entry, hentry, rfl⟩ := List.mem_map.mp hrow
  obtain ⟨registration, hkept, hclaim⟩ := List.mem_filterMap.mp hentry
  obtain ⟨⟨url, digest⟩, hmetadata, rfl⟩ := Option.map_eq_some_iff.mp hclaim
  have hmem : registration ∈ summary.registrations := by
    unfold keptRegistrations at hkept
    split at hkept
    · cases hkept
    · exact hkept
  rcases summary_registrations table pep parseUploadTime absolutize page.context page.items _ _ h
    registration hmem with hmem | ⟨file, hfile, hreg⟩
  · cases hmem
  · have htext := page.filesText file hfile
    unfold registrationOf at hreg
    dsimp only at hreg
    split at hreg
    · cases hreg
    · obtain ⟨sha, _, rfl⟩ := Option.map_eq_some_iff.mp hreg
      dsimp only at hmetadata
      split at hmetadata
      · obtain ⟨claimed, hclaimed, hpair⟩ := Option.map_eq_some_iff.mp hmetadata
        cases hpair
        exact readable_metadataValue _ _ _ (metadataSibling_isUtf8 _ htext.url)
          (htext.metadata digest hclaimed) page.nameText
      · cases hmetadata

theorem siblings_readable (state : HostState sha256) (page : Ingestion absolutize) :
    ∀ row ∈ page.siblings table pep parseUploadTime absolutize json state, Readable row.2 := by
  cases page with
  | buffered page => exact buffered_readable table pep parseUploadTime page
  | streamed page =>
    unfold Ingestion.siblings
    dsimp only
    split
    · nofun
    · rename_i summary h
      exact streamed_readable table pep parseUploadTime absolutize page summary h
  | generation page =>
    intro row hrow
    obtain ⟨file, hfile, hsibling⟩ := List.mem_filterMap.mp hrow
    have hlisted := (syncProjectFiles_registered json table pep parseUploadTime state.rows page).2
    exact readable_siblingOf page.source file row (page.filesText file (hlisted file hfile))
      page.sourceText hsibling

/-- What a state keeps of another: its blobs, its provenance rows, what upstream lacked, and
the metadata row of a digest up to the siblings registered since. -/
structure Follows (digest : Str) (before after : HostState sha256) (siblings : List (Str × Bytes)) :
    Prop where
  metadata : after.rows[metadataKey digest]? =
    (lastPut siblings digest).or before.rows[metadataKey digest]?
  provenance : ∀ other : Str, after.rows[provenanceKey other]? = before.rows[provenanceKey other]?
  blobs : ∀ (other : Str) (content : Bytes),
    before.blobs[other]? = some content → after.blobs[other]? = some content
  negatives : after.negatives = before.negatives

theorem Follows.refl (digest : Str) (state : HostState sha256) : Follows digest state state [] :=
  ⟨rfl, fun _ => rfl, fun _ _ h => h, rfl⟩

theorem Follows.trans {digest : Str} {a b c : HostState sha256} {first second : List (Str × Bytes)}
    (hab : Follows digest a b first) (hbc : Follows digest b c second) :
    Follows digest a c (first ++ second) where
  metadata := by rw [hbc.metadata, hab.metadata, lastPut_append, Option.or_assoc]
  provenance other := by rw [hbc.provenance, hab.provenance]
  blobs other content h := hbc.blobs other content (hab.blobs other content h)
  negatives := hbc.negatives.trans hab.negatives

theorem follows_setRows (digest : Str) (state : HostState sha256) (rows : Rows)
    (siblings : List (Str × Bytes)) (h : Registered state.rows rows siblings) :
    Follows digest state (state.setRows rows) siblings :=
  ⟨h.metadata digest, h.provenance, fun _ _ h => h, rfl⟩

theorem foldl_putBlob (contents : List Bytes) (state : HostState sha256) :
    (contents.foldl HostState.putBlob state).rows = state.rows ∧
      (contents.foldl HostState.putBlob state).negatives = state.negatives ∧
      ∀ (other : Str) (content : Bytes), state.blobs[other]? = some content →
        (contents.foldl HostState.putBlob state).blobs[other]? = some content := by
  induction contents generalizing state with
  | nil => exact ⟨rfl, rfl, fun _ _ h => h⟩
  | cons content contents ih =>
    obtain ⟨hrows, hnegatives, hblobs⟩ := ih (state.putBlob content)
    exact ⟨hrows, hnegatives, fun other stored h =>
      hblobs other stored (putBlob_keeps sha256 state.blobs content other stored h)⟩

theorem writeGenerated_follows (digest other route filename : Str) (state : HostState sha256)
    (h : other ≠ digest) :
    Follows digest state (writeGeneratedMetadata outside state other route filename).2 [] := by
  unfold writeGeneratedMetadata
  obtain ⟨hrows, hnegatives, hblobs⟩ :=
    foldl_putBlob (outside.generate state other route filename).1 state
  dsimp only
  split
  · exact ⟨congrArg (fun rows : Rows => rows[metadataKey digest]?) hrows,
      fun key => congrArg (fun rows : Rows => rows[provenanceKey key]?) hrows, hblobs, hnegatives⟩
  · rename_i bytes source heq
    refine ⟨?_, fun key => ?_, fun key content hkey => ?_, hnegatives⟩
    · show (Std.ExtTreeMap.insert _ _ _)[_]? = _
      rw [getElem?_insert_of_ne _ _ _ _ fun hkey => h (metadataKey_inj hkey)]
      exact congrArg (fun rows : Rows => rows[metadataKey digest]?) hrows
    · show (Std.ExtTreeMap.insert _ _ _)[_]? = _
      rw [getElem?_insert_of_ne _ _ _ _ (provenanceKey_ne_metadataKey other key)]
      exact congrArg (fun rows : Rows => rows[provenanceKey key]?) hrows
    · exact putBlob_keeps sha256 _ _ key content (hblobs key content hkey)

def Recorded (digest : Str) (state : HostState sha256) : Prop :=
  ∃ value, state.rows[metadataKey digest]? = some value ∧ Readable value

theorem getMetadata_of_row (rows : Rows) (digest : Str) (value : Bytes)
    (hrow : rows[metadataKey digest]? = some value) (htext : Str.IsUtf8 value) :
    getMetadata rows digest = splitMetadata value := by
  unfold getMetadata
  rw [hrow, Option.bind_some, htext, Option.bind_some]

theorem Recorded.follows {digest : Str} {before after : HostState sha256}
    {siblings : List (Str × Bytes)} (h : Recorded digest before)
    (hfollows : Follows digest before after siblings)
    (hreadable : ∀ row ∈ siblings, Readable row.2) : Recorded digest after := by
  obtain ⟨value, hrow, hvalue⟩ := h
  cases hlast : lastPut siblings digest with
  | none => exact ⟨value, by rw [hfollows.metadata, hlast, hrow]; rfl, hvalue⟩
  | some written =>
    exact ⟨written, by rw [hfollows.metadata, hlast]; rfl,
      hreadable _ (mem_of_lastPut siblings digest written hlast)⟩

theorem backfill_follows (digest route : Str) (candidates : List (Str × Str))
    (state : HostState sha256) (h : Recorded digest state) :
    Follows digest state (candidates.foldl (backfillCandidate outside route) state) [] := by
  induction candidates generalizing state with
  | nil => exact Follows.refl digest state
  | cons candidate candidates ih =>
    have hstep : Follows digest state (backfillCandidate outside route state candidate) [] := by
      unfold backfillCandidate
      split
      · exact Follows.refl digest state
      · rename_i hmissing
        refine writeGenerated_follows outside digest candidate.1 route candidate.2 state ?_
        intro hsame
        obtain ⟨value, hrow, htext, hsplit⟩ := h
        rw [hsame, getMetadata_of_row _ _ _ hrow htext] at hmissing
        exact hmissing (Option.isSome_iff_ne_none.mpr hsplit)
    exact hstep.trans (ih _ (h.follows hstep (List.forall_mem_nil _)))

theorem ingest_follows (digest : Str) (state : HostState sha256) (page : Ingestion absolutize)
    (h : Recorded digest state) :
    Follows digest state (ingest outside table pep parseUploadTime absolutize json state page)
      (page.siblings table pep parseUploadTime absolutize json state) := by
  cases page with
  | buffered page =>
    exact follows_setRows digest state _ _ (putCachedPage_registered json state.rows _)
  | streamed page =>
    unfold ingest Ingestion.siblings
    dsimp only
    cases hsummary : page.summary table pep parseUploadTime absolutize with
    | error error => exact Follows.refl digest state
    | ok summary =>
      dsimp only
      have hstored := follows_setRows digest state _ _
        (putCachedPage_registered json state.rows (page.cachedPage absolutize summary))
      have hrecorded := h.follows hstored
        (streamed_readable table pep parseUploadTime absolutize page summary hsummary)
      have hall := hstored.trans (backfill_follows outside digest page.context.route
        (metadataBackfillCandidates summary.registrations) _ hrecorded)
      rw [List.append_nil] at hall
      exact hall
  | generation page =>
    exact follows_setRows digest state _ _
      (syncProjectFiles_registered json table pep parseUploadTime state.rows page).1

theorem ingestAll_follows (digest : Str) (pages : List (Ingestion absolutize))
    (state : HostState sha256) (h : Recorded digest state) :
    Follows digest state (ingestAll outside table pep parseUploadTime absolutize json state pages)
      (siblingsOf outside table pep parseUploadTime absolutize json state pages) ∧
    ∀ row ∈ siblingsOf outside table pep parseUploadTime absolutize json state pages,
      Readable row.2 := by
  induction pages generalizing state with
  | nil => exact ⟨Follows.refl digest state, List.forall_mem_nil _⟩
  | cons page pages ih =>
    have hstep := ingest_follows outside table pep parseUploadTime absolutize json digest state page h
    have hreadable := siblings_readable table pep parseUploadTime absolutize json state page
    obtain ⟨hrest, hlater⟩ := ih _ (h.follows hstep hreadable)
    refine ⟨hstep.trans hrest, fun row hrow => ?_⟩
    rcases List.mem_append.mp hrow with hrow | hrow
    · exact hreadable row hrow
    · exact hlater row hrow

section Hosted
variable (uploadJson : UploadJson)

def JustStored (name : Str) (prepared : PreparedUpload) (hosted : HostState sha256) : Prop :=
  ∃ store blobs stored,
    storePrepared uploadJson sha256 store blobs name prepared = (.ok (true, stored), hosted.blobs) ∧
      hosted.rows = stored.rows

theorem publishFileIf_rows (store stored : MetaStore) (file : PublishedFile)
    (guard : Option Bytes → Except UploadStoreError Guard)
    (h : publishFileIf uploadJson store file guard = .ok (true, stored)) :
    stored.rows = (file.ops.foldl TxnOp.stage { table := store.rows }).table := by
  obtain ⟨verdict, _, hrest⟩ := (bind_eq_ok _ _ _).mp h
  cases verdict with
  | skip => cases hrest
  | commit =>
    cases hrest
    unfold MetaStore.commit
    rw [if_neg (List.cons_ne_nil _ _)]

theorem publishedFile_rows (rows : Rows) (file : PublishedFile) (metadata : MetadataSibling)
    (provenance : ProvenanceSibling) (hmetadata : file.metadata = some metadata)
    (hprovenance : file.provenance = some provenance) :
    let table := (file.ops.foldl TxnOp.stage { table := rows }).table
    table[metadataKey file.artifactSha256]? =
        some (metadataValue metadata.url metadata.metadataSha256 metadata.source) ∧
      table[provenanceKey file.artifactSha256]? =
        some (provenanceValue provenance.provenanceSha256 provenance.size) := by
  have hblob : ∀ (txn : DriverTxn) (digest : Str) (size : Nat),
      (txn.referenceBlob digest size).table = txn.table := by
    intro txn digest size
    unfold DriverTxn.referenceBlob
    dsimp only
    split <;> rfl
  have hput : ∀ (txn : DriverTxn) (key : Str) (value : Bytes),
      (txn.put key value).table = txn.table.insert key value := fun _ _ _ => rfl
  have hupload : ∀ key, Untouched key → uploadKey file.index file.normalized file.filename ≠ key :=
    fun key hkey => by
      unfold uploadKey projectUploadsPrefix
      rw [List.append_assoc]
      exact hkey.ne uploadPrefix _ rfl (by decide) (by decide)
  have hproject : ∀ key, Untouched key → projectKey file.index file.normalized ≠ key :=
    fun key hkey => hkey.ne projectsPrefix _ rfl (by decide) (by decide)
  have hmeta := untouched_metadata file.artifactSha256
  have hprov := untouched_provenance file.artifactSha256
  simp only [PublishedFile.ops, hmetadata, hprovenance, Option.elim_some, List.foldl_append,
    List.foldl_cons, List.foldl_nil, TxnOp.stage, hput, hblob]
  constructor
  · rw [getElem?_insert_of_ne _ _ _ _ (hproject _ hmeta),
      getElem?_insert_of_ne _ _ _ _ (hupload _ hmeta),
      getElem?_insert_of_ne _ _ _ _ (provenanceKey_ne_metadataKey _ _).symm]
    exact Table.getElem?_set_self rows _ (some _)
  · rw [getElem?_insert_of_ne _ _ _ _ (hproject _ hprov),
      getElem?_insert_of_ne _ _ _ _ (hupload _ hprov)]
    exact Table.getElem?_set_self _ _ (some _)

theorem putBlob_present (blobs : BlobStore) (content : Bytes) :
    ∃ stored, (putBlob sha256 blobs content)[sha256 content]? = some stored := by
  rw [putBlob_getElem?]
  cases h : blobs[sha256 content]? with
  | none => exact ⟨content, if_pos ⟨rfl, rfl⟩⟩
  | some old => exact ⟨old, if_neg (fun hc => nomatch hc.1)⟩

theorem putBlobs_present (blobs : BlobStore) (contents : List Bytes) (content : Bytes)
    (h : content ∈ contents) :
    ∃ stored, (contents.foldl (putBlob sha256) blobs)[sha256 content]? = some stored := by
  have hkeeps : ∀ (rest : List Bytes) (blobs : BlobStore) (key : Str) (stored : Bytes),
      blobs[key]? = some stored → (rest.foldl (putBlob sha256) blobs)[key]? = some stored := by
    intro rest
    induction rest with
    | nil => exact fun _ _ _ h => h
    | cons next rest ih =>
      exact fun blobs key stored h => ih _ key stored (putBlob_keeps sha256 blobs next key stored h)
  induction contents generalizing blobs with
  | nil => cases h
  | cons next rest ih =>
    rcases List.mem_cons.mp h with rfl | h
    · have hpresent : ∃ stored, (putBlob sha256 blobs content)[sha256 content]? = some stored :=
        putBlob_present blobs content
      obtain ⟨stored, hstored⟩ := hpresent
      exact ⟨stored, hkeeps rest _ _ stored hstored⟩
    · exact ih (putBlob sha256 blobs next) h

theorem metadataBytes_other (state : HostState sha256) (digest route filename url hex source : Str)
    (content : Bytes) (hrow : getMetadata state.rows digest = some (url, hex, source))
    (hother : hex ≠ sha256 content) (hurl : url ≠ generatedMetadataUrl) :
    (metadataBytes outside state digest route filename).1 ≠ .ok content := by
  unfold metadataBytes
  split
  · nofun
  · split
    · nofun
    · simp only [hrow]
      cases hdigest : digestFromHex hex with
      | none => nofun
      | some parsed =>
        have hparsed := digestFromHex_eq _ _ hdigest
        dsimp only
        cases hblob : state.blobs[parsed]? with
        | some stored =>
          intro hserved
          unfold readMetadataBlob at hserved
          dsimp only at hserved
          split at hserved
          · cases hserved
          · cases hserved
            exact hother (hparsed.symm.trans (state.addressed _ _ hblob).symm)
        | none =>
          rw [if_pos hurl]
          unfold fetchAdvertised
          dsimp only
          split
          · nofun
          · nofun
          · rename_i bytes _
            split
            · rename_i hsha
              intro hserved
              cases hserved
              exact hother (hparsed.symm.trans hsha.symm)
            · nofun

variable (hhex : ∀ content, digestFromHex (sha256 content) = some (sha256 content))
include hhex

theorem JustStored.siblings {name : Str} {prepared : PreparedUpload} {hosted : HostState sha256}
    {document : Bytes} (h : JustStored uploadJson name prepared hosted) (hname : name.IsUtf8)
    (hdocument : prepared.provenance = some document) :
    Recorded (sha256 prepared.content) hosted ∧
    getMetadata hosted.rows (sha256 prepared.content) =
        some (str "uploaded", sha256 prepared.metadata, name) ∧
    hosted.rows[provenanceKey (sha256 prepared.content)]? =
        some (provenanceValue (sha256 document) document.length) ∧
    (∃ stored, hosted.blobs[sha256 prepared.metadata]? = some stored) ∧
    ∃ stored, hosted.blobs[sha256 document]? = some stored := by
  obtain ⟨store, blobs, stored, hstore, hrows⟩ := h
  unfold storePrepared at hstore
  rw [Prod.mk.injEq] at hstore
  have htable := publishFileIf_rows uploadJson store stored _ _ hstore.1
  have hfile := publishedFile_rows store.rows (prepared.publishedFile uploadJson sha256 name) _
    ⟨sha256 document, document.length⟩ rfl (by simp [PreparedUpload.publishedFile, hdocument])
  dsimp only at hfile
  rw [← htable, ← hrows] at hfile
  have htext : (sha256 prepared.metadata).IsUtf8 :=
    Str.isUtf8_ascii _ fun byte hbyte => (digest_bytes (hhex prepared.metadata) byte hbyte).1
  have hreadable : Readable (metadataValue (str "uploaded") (sha256 prepared.metadata) name) :=
    readable_metadataValue _ _ _ (Str.isUtf8_str _) htext hname
  have hsplit : splitMetadata (metadataValue (str "uploaded") (sha256 prepared.metadata) name) =
      some (str "uploaded", sha256 prepared.metadata, name) := by
    have hmark : (0x0A : UInt8) ∉ str "uploaded" := by decide
    have hdigest : (0x0A : UInt8) ∉ sha256 prepared.metadata := fun hmem =>
      (digest_bytes (hhex prepared.metadata) _ hmem).2 rfl
    unfold splitMetadata metadataValue newline
    rw [List.append_assoc, List.append_assoc, List.append_assoc, List.singleton_append,
      List.singleton_append, Str.splitOnce_append _ _ _ hmark]
    simp [Str.splitOnce_append _ _ _ hdigest]
  rw [← hstore.2]
  refine ⟨⟨_, hfile.1, hreadable⟩, ?_, hfile.2, ?_, ?_⟩
  · rw [← hsplit]
    exact getMetadata_of_row _ _ _ hfile.1 hreadable.1
  · exact putBlobs_present _ _ _ (by simp)
  · exact putBlobs_present _ _ _ (by simp [hdocument])

theorem metadataBytes_of_row (state : HostState sha256) (digest route filename url source : Str)
    (content stored : Bytes) (hrow : getMetadata state.rows digest = some (url, sha256 content, source))
    (hblob : state.blobs[sha256 content]? = some stored) :
    (metadataBytes outside state digest route filename).1 =
      if (Str.stripSuffix filename (str ".metadata")).isNone ∨ digest ∈ state.negatives then
        .error .fileNotFound
      else readMetadataBlob stored := by
  unfold metadataBytes
  cases hsuffix : Str.stripSuffix filename (str ".metadata") with
  | none => rfl
  | some artifact =>
    simp only [Option.isNone_some, Bool.false_eq_true, false_or]
    split
    · rfl
    · simp only [hrow, hhex content, hblob]

theorem provenanceBytes_follows {digest : Str} {document : Bytes} {before after : HostState sha256}
    {siblings : List (Str × Bytes)} (hfollows : Follows digest before after siblings)
    (hrow : before.rows[provenanceKey digest]? =
      some (provenanceValue (sha256 document) document.length))
    (hblob : ∃ stored, before.blobs[sha256 document]? = some stored) :
    provenanceBytes after digest = provenanceBytes before digest := by
  obtain ⟨stored, hstored⟩ := hblob
  have hsame : getProvenance after.rows digest = getProvenance before.rows digest := by
    unfold getProvenance
    rw [hfollows.provenance]
  have hread : getProvenance before.rows digest = none ∨
      ∃ size, getProvenance before.rows digest = some (sha256 document, size) := by
    have hdigest : (0x0A : UInt8) ∉ sha256 document := fun hmem =>
      (digest_bytes (hhex document) _ hmem).2 rfl
    have htext : Str.IsUtf8 (provenanceValue (sha256 document) document.length) :=
      ((Str.isUtf8_ascii _ fun byte hbyte => (digest_bytes (hhex document) byte hbyte).1).append
        (by decide)).append (Str.isUtf8_str _)
    have hsplit : Str.splitOnce 0x0A (provenanceValue (sha256 document) document.length) =
        some (sha256 document, str (toString document.length)) := by
      unfold provenanceValue newline
      rw [List.append_assoc, List.singleton_append]
      exact Str.splitOnce_append _ _ _ hdigest
    unfold getProvenance
    rw [hrow, Option.bind_some, htext, Option.bind_some]
    unfold splitProvenance
    cases hsize : Str.parseU64 (str (toString document.length)) with
    | none => exact Or.inl (by simp only [hsplit, hsize, bind, Option.bind])
    | some size => exact Or.inr ⟨size, by simp only [hsplit, hsize, bind, Option.bind, pure]⟩
  unfold provenanceBytes
  rw [hsame]
  rcases hread with hnone | ⟨size, hsome⟩
  · rw [hnone]
  · simp only [hsome, hhex document, hstored, hfollows.blobs _ _ hstored]

/-- The last sibling registered for the artifact, if any, names the metadata it had. -/
def KeepsSibling (siblings : List (Str × Bytes)) (digest metadataDigest : Str) : Prop :=
  ∀ value, lastPut siblings digest = some value →
    (splitMetadata value).map (fun parts => parts.2.1) = some metadataDigest

/-- The last sibling registered for the artifact does not read back as generated metadata. -/
def Fetched (siblings : List (Str × Bytes)) (digest : Str) : Prop :=
  ∀ value, lastPut siblings digest = some value →
    (splitMetadata value).map (fun parts => parts.1) ≠ some generatedMetadataUrl

/-- After any pages, the provenance of a hosted file is what it was. Its metadata is, when
the last sibling registered under its digest names the metadata it had, or a remembered miss
hides both; otherwise it is other bytes or none. -/
theorem siblings_after_pages {name : Str} {prepared : PreparedUpload} {document : Bytes}
    {hosted : HostState sha256} (hname : name.IsUtf8)
    (hdocument : prepared.provenance = some document)
    (hstored : JustStored uploadJson name prepared hosted) (pages : List (Ingestion absolutize))
    (route filename : Str) :
    let digest := sha256 prepared.content
    let after := ingestAll outside table pep parseUploadTime absolutize json hosted pages
    let siblings := siblingsOf outside table pep parseUploadTime absolutize json hosted pages
    let served (state : HostState sha256) := (metadataBytes outside state digest route filename).1
    provenanceBytes after digest = provenanceBytes hosted digest ∧
    (digest ∈ hosted.negatives ∨ KeepsSibling siblings digest (sha256 prepared.metadata) →
      served after = served hosted) ∧
    (¬ KeepsSibling siblings digest (sha256 prepared.metadata) → Fetched siblings digest →
      ∀ content, served hosted = .ok content → served after ≠ .ok content) := by
  intro digest after siblings served
  obtain ⟨hrecorded, hread, hprovenance, ⟨stored, hblob⟩, hdoc⟩ :=
    hstored.siblings uploadJson hhex hname hdocument
  obtain ⟨hfollows, hreadable⟩ := ingestAll_follows outside table pep parseUploadTime absolutize
    json digest pages hosted hrecorded
  have hbefore := metadataBytes_of_row outside hhex hosted digest route filename _ _
    prepared.metadata stored hread hblob
  refine ⟨provenanceBytes_follows hhex hfollows hprovenance hdoc, fun hkeeps => ?_,
    fun hdiverts hfetched content hserved => ?_⟩
  · rcases hkeeps with hmiss | hkeeps
    · -- the remembered miss answers before any row is read
      have hafter : digest ∈ after.negatives := hfollows.negatives ▸ hmiss
      show (metadataBytes outside after digest route filename).1 =
        (metadataBytes outside hosted digest route filename).1
      unfold metadataBytes
      cases Str.stripSuffix filename (str ".metadata") with
      | none => rfl
      | some artifact =>
        dsimp only
        rw [if_pos hafter, if_pos hmiss]
    · have hrow : ∃ url source, getMetadata after.rows digest =
          some (url, sha256 prepared.metadata, source) := by
        cases hlast : lastPut siblings digest with
        | none =>
          have hsame := hfollows.metadata
          rw [show lastPut _ digest = none from hlast, Option.none_or] at hsame
          unfold getMetadata at hread ⊢
          rw [hsame]
          exact ⟨_, _, hread⟩
        | some value =>
          have hvalue := hfollows.metadata
          rw [show lastPut _ digest = some value from hlast, Option.some_or] at hvalue
          have htext := (hreadable _ (mem_of_lastPut siblings digest value hlast)).1
          rw [getMetadata_of_row _ _ _ hvalue htext]
          obtain ⟨⟨url, hex, source⟩, hsplit, hhexeq⟩ :=
            Option.map_eq_some_iff.mp (hkeeps value hlast)
          exact ⟨url, source, by rw [hsplit, ← hhexeq]⟩
      obtain ⟨url, source, hrow⟩ := hrow
      have hafter := metadataBytes_of_row outside hhex after digest route filename url source
        prepared.metadata stored hrow (hfollows.blobs _ _ hblob)
      show (metadataBytes outside after digest route filename).1 =
        (metadataBytes outside hosted digest route filename).1
      rw [hafter, hbefore, hfollows.negatives]
  · have hcontent : sha256 content = sha256 prepared.metadata := by
      have hok : (metadataBytes outside hosted digest route filename).1 = .ok content := hserved
      rw [hbefore] at hok
      split at hok
      · cases hok
      · unfold readMetadataBlob at hok
        split at hok
        · cases hok
        · cases hok
          exact hosted.addressed _ _ hblob
    unfold KeepsSibling at hdiverts
    push Not at hdiverts
    obtain ⟨value, hlast, hother⟩ := hdiverts
    have hvalue := hfollows.metadata
    rw [show lastPut _ digest = some value from hlast, Option.some_or] at hvalue
    obtain ⟨htext, hsplit⟩ := hreadable _ (mem_of_lastPut siblings digest value hlast)
    obtain ⟨⟨url, hex, source⟩, hparts⟩ := Option.ne_none_iff_exists'.mp hsplit
    have hfetch := hfetched value hlast
    rw [hparts, Option.map_some] at hother hfetch
    refine metadataBytes_other outside after digest route filename url hex source content ?_
      (fun hsame => hother ?_) fun hurl => hfetch (congrArg some hurl)
    · rw [getMetadata_of_row _ _ _ hvalue htext, hparts]
    · rw [hsame, hcontent]

end Hosted
end Ingest
namespace Sample

def wheel : Bytes := str "wheel"

def metadata : Bytes := str "Metadata-Version: 2.1\n"

def attested : Bytes := str "\x7b\x7d"

def otherMetadata : Bytes := str "Metadata-Version: 2.4\n"

def wheelDigest : Str :=
  str "ba59926159d2aa256eb8739b8da7e2b574b960e1202c6d624cbe981cef996c91"

def metadataDigest : Str :=
  str "e70b13cf810d0a6d4c950f2e55982d40916857059c642abb5dcaf41bb93370bb"

def attestedDigest : Str :=
  str "44136fa355b3678a1146ad16f7e8649e94fb4fc21fe77e8310c060f61caaff8a"

def otherDigest : Str :=
  str "9b38c883745f422282edb55105a77c628a65790c7aa1afbb7165001bb76af2ae"

/-- SHA-256 on the texts above; any other bytes get the digest of the empty text. -/
def sha256 (content : Bytes) : Str :=
  if content = wheel then wheelDigest
  else if content = metadata then metadataDigest
  else if content = attested then attestedDigest
  else if content = otherMetadata then otherDigest
  else str "e3b0c44298fc1c149afbf4c8996fb92427ae41e4649b934ca495991b7852b855"

theorem sha256_hex (content : Bytes) : digestFromHex (sha256 content) = some (sha256 content) := by
  unfold sha256
  split_ifs <;> decide

def filename : Str := str "app-1.0-py3-none-any.whl"

/-- The records these runs encode, as `serde_json` writes them. -/
def uploadJson : UploadJson where
  uploaded _ :=
    str "\x7b\"version\":\"1.0\",\"file\":\x7b\"filename\":\"" ++ filename ++
    str "\",\"url\":\"/hosted/files/" ++ wheelDigest ++ str "/" ++ filename ++
    str "\",\"hashes\":\x7b\"sha256\":\"" ++ wheelDigest ++
    str "\"\x7d,\"size\":5,\"yanked\":false,\"core-metadata\":\x7b\"sha256\":\"" ++ metadataDigest ++
    str "\"\x7d,\"dist-info-metadata\":\x7b\"sha256\":\"" ++ metadataDigest ++ str "\"\x7d\x7d\x7d"
  readUploaded _ := none
  journalEntry _ :=
    str "\x7b\"serial\":0,\"submitted_at_unix\":0,\"action\":\"add-file\"," ++
    str "\"project\":\"app\",\"version\":\"1.0\",\"filename\":\"" ++ filename ++ str "\"\x7d"

def rowJson : RowJson where
  statusRecord _ _ := []
  file _ := []
  projectState _ := []
  readProjectState _ := none

def upload : PreparedUpload where
  normalized := str "app"
  displayName := str "app"
  filename := filename
  content := wheel
  metadata := metadata
  provenance := some attested
  attestationPredicateTypes := ∅
  record := {
    version := str "1.0"
    file := {
      filename := filename
      url := str "/hosted/files/" ++ wheelDigest ++ str "/" ++ filename
      hashes := Std.ExtTreeMap.ofList [(str "sha256", wheelDigest)]
      size := some 5 } }
  submittedAtUnix := 0

def stored : Except UploadStoreError (Bool × MetaStore) × BlobStore :=
  storePrepared uploadJson sha256 {} ∅ (str "hosted") upload

theorem addressed_empty : Addressed sha256 ∅ := by
  intro digest content h
  simp at h

def hosted : HostState sha256 where
  rows := (stored.1.toOption.elim ∅ fun answer => answer.2.rows)
  blobs := stored.2
  addressed := ((addressed_empty.putBlob wheel).putBlob metadata).putBlob attested
  negatives := ∅

theorem hosted_justStored : JustStored uploadJson (str "hosted") upload hosted :=
  ⟨{}, ∅, _, rfl, rfl⟩

def outside : Outside sha256 where
  fetch _ _ _ := .ok otherMetadata
  generate _ _ _ _ := ([], .error .fileNotFound)

/-- One file under the digest of the hosted wheel, with the given metadata sibling. -/
def listed (claimed : Str) : File where
  filename := filename
  url := str "https://files.example/" ++ filename
  hashes := Std.ExtTreeMap.ofList [(str "sha256", wheelDigest)]
  coreMetadata := .hashes (Std.ExtTreeMap.ofList [(str "sha256", claimed)])

theorem listed_text (claimed : Str) (h : claimed.IsUtf8) : (listed claimed).TextRegistered where
  url := by
    show Str.IsUtf8 (str "https://files.example/" ++ filename)
    decide
  metadata digest hdigest := by
    have hclaim : claimedMetadata (listed claimed) = some claimed := by
      simp [claimedMetadata, listed, File.metadata, CoreMetadata.isAbsent]
    rw [hclaim] at hdigest
    cases hdigest
    exact h

def page (claimed : Str) (h : claimed.IsUtf8) : BufferedPage where
  key := str "pypi/app"
  name := str "pypi"
  project := str "app"
  record := str "peryx1\n" ++
    str "\x7b\"etag\":null,\"last_serial\":null,\"fetched_at_unix\":0,\"content_type\":null," ++
    str "\"fresh_secs\":null\x7d\n\x7b\"meta\":\x7b\"api-version\":\"1.4\"\x7d," ++
    str "\"name\":\"app\",\"versions\":[],\"files\":[\x7b\"filename\":\"" ++ filename ++
    str "\",\"url\":\"https://files.example/" ++ filename ++
    str "\",\"hashes\":\x7b\"sha256\":\"" ++ wheelDigest ++
    str "\"\x7d,\"yanked\":false,\"core-metadata\":\x7b\"sha256\":\"" ++ claimed ++
    str "\"\x7d,\"dist-info-metadata\":\x7b\"sha256\":\"" ++ claimed ++ str "\"\x7d\x7d]\x7d"
  detail := { name := str "app", files := [listed claimed] }
  upstream := none
  policy := {}
  nameText := by decide
  filesText file hfile := by
    rw [List.mem_singleton.mp hfile]
    exact listed_text claimed h

def after (claimed : Str) (h : claimed.IsUtf8) : HostState sha256 :=
  ingestAll outside .caseless wholeVersions (fun _ => none) (fun _ url => url) rowJson hosted
    [.buffered (page claimed h)]

def served (state : HostState sha256) : Except SiblingError Bytes :=
  (metadataBytes outside state wheelDigest (str "hosted") (filename ++ str ".metadata")).1

end Sample

open Sample in
/-- A cached index's page lists the hosted wheel's digest with another metadata sibling. -/
theorem page_replaces_hosted_metadata :
    JustStored uploadJson (str "hosted") upload hosted ∧ served hosted = .ok metadata ∧
      served (after otherDigest (by decide)) = .ok otherMetadata ∧ metadata ≠ otherMetadata := by
  refine ⟨hosted_justStored, ?_, ?_, ?_⟩
  all_goals decide +kernel

open Sample in
/-- A page that lists the digest with the hosted sibling leaves both as they were. -/
theorem agreeing_page_keeps_siblings :
    provenanceBytes (after metadataDigest (by decide)) wheelDigest =
        provenanceBytes hosted wheelDigest ∧
      served (after metadataDigest (by decide)) = served hosted := by
  have hall := siblings_after_pages outside .caseless wholeVersions (fun _ => none)
    (fun _ url => url) rowJson uploadJson sha256_hex (by decide)
    (show upload.provenance = some attested from rfl) hosted_justStored
    [.buffered (page metadataDigest (by decide))] (str "hosted") (filename ++ str ".metadata")
  refine ⟨hall.1, hall.2.1 (Or.inr fun value hvalue => ?_)⟩
  have hlast : lastPut (siblingsOf outside .caseless wholeVersions (fun _ => none)
      (fun _ url => url) rowJson hosted [.buffered (page metadataDigest (by decide))]) wheelDigest =
      some (metadataValue (metadataSibling (str "https://files.example/" ++ filename))
        metadataDigest (str "pypi")) := by
    decide +kernel
  have heq := hlast.symm.trans hvalue
  cases heq
  decide +kernel

end Peryx.Pypi
