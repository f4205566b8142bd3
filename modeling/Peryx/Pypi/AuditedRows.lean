import Peryx.Pypi.Audits
import Peryx.Pypi.PageRecords
import Peryx.Pypi.Writes

/-! # Written rows and their laws -/

namespace Peryx.Pypi
open Storage

def secondLine (text : Str) : Str := ((text.dropWhile (· != 0x0A)).drop 1).takeWhile (· != 0x0A)

def SoundSibling (url digest : Str) : Prop := isDigest (secondLine (url ++ newline ++ digest)) = true

theorem splitOnce_of_mem (separator : UInt8) (subject : Str) (h : separator ∈ subject) :
    Str.splitOnce separator subject = some (subject.takeWhile (· != separator),
      (subject.dropWhile (· != separator)).drop 1) := by
  induction subject with
  | nil => cases h
  | cons byte rest ih =>
    by_cases hbyte : byte = separator
    · simp [Str.splitOnce, hbyte]
    · have hrest := (List.mem_cons.mp h).resolve_left (Ne.symm hbyte)
      simp [Str.splitOnce, hbyte, ih hrest]

theorem splitMetadata_line (url digest source : Str) : ∃ first last,
    splitMetadata (metadataValue url digest source) =
      some (first, secondLine (url ++ newline ++ digest), last) := by
  have hvalue : metadataValue url digest source = (url ++ newline ++ digest) ++ 0x0A :: source := by
    simp [metadataValue, newline]
  have hhead : (0x0A : UInt8) ∈ url ++ newline ++ digest := by simp [newline]
  obtain ⟨rest, hrest⟩ : ∃ rest, (url ++ newline ++ digest).dropWhile (· != 0x0A) = 0x0A :: rest := by
    have heq := Str.splitOnce_eq_some _ _ _ _ (splitOnce_of_mem 0x0A _ hhead)
    have hdrop := List.takeWhile_append_dropWhile (p := (· != (0x0A : UInt8)))
      (l := url ++ newline ++ digest)
    exact ⟨_, List.append_cancel_left (hdrop.trans heq)⟩
  have hall : (0x0A : UInt8) ∈ metadataValue url digest source := by
    rw [hvalue]
    exact List.mem_append_left _ hhead
  have hafter : ((metadataValue url digest source).dropWhile (· != 0x0A)).drop 1 =
      rest ++ 0x0A :: source := by
    rw [hvalue, List.dropWhile_append, hrest]
    rfl
  have hline : (rest ++ 0x0A :: source).takeWhile (· != 0x0A) =
      secondLine (url ++ newline ++ digest) := by
    unfold secondLine
    rw [hrest, List.takeWhile_append]
    split
    · rename_i hwhole
      have hsame : rest.takeWhile (· != 0x0A) = rest :=
        (List.takeWhile_prefix _).eq_of_length hwhole
      simp [hsame]
    · rfl
  unfold splitMetadata
  rw [splitOnce_of_mem 0x0A _ hall, hafter, Option.bind_eq_bind, Option.bind_some]
  dsimp only
  rw [splitOnce_of_mem 0x0A _ (by simp), hline]
  exact ⟨_, _, rfl⟩

theorem isDigest_iff (hex : Str) : isDigest hex = true ↔ digestFromHex hex = some hex := by
  unfold isDigest
  constructor
  · intro h
    obtain ⟨digest, hdigest⟩ := Option.isSome_iff_exists.mp h
    rw [hdigest, digestFromHex_eq hex digest hdigest]
  · intro h
    rw [h]
    rfl

theorem newline_not_mem_digest {hex : Str} (h : isDigest hex = true) : 0x0A ∉ hex :=
  fun hmem => (digest_bytes ((isDigest_iff hex).mp h) _ hmem).2 rfl

theorem soundSibling_of_line {url digest : Str} (hurl : 0x0A ∉ url) (h : isDigest digest = true) :
    SoundSibling url digest := by
  have hpass : ∀ byte ∈ url, (byte != 0x0A) = true := fun byte hbyte =>
    bne_iff_ne.mpr fun heq => hurl (heq ▸ hbyte)
  have hkeep : ∀ byte ∈ digest, (byte != 0x0A) = true := fun byte hbyte =>
    bne_iff_ne.mpr fun heq => newline_not_mem_digest h (heq ▸ hbyte)
  unfold SoundSibling secondLine newline
  rw [List.append_assoc, List.dropWhile_append_of_pos hpass, List.singleton_append,
    List.dropWhile_cons_of_neg (by simp), List.drop_one, List.tail_cons,
    List.takeWhile_eq_self_iff.mpr hkeep]
  exact h

def fileSuffix (index normalized filename : Str) : Str :=
  projectSuffix index normalized ++ str "/" ++ filename

theorem projectSuffix_slash (index normalized : Str) : 0x2F ∈ projectSuffix index normalized :=
  List.mem_append_left _ (List.mem_append_right _ (List.mem_singleton.mpr rfl))

theorem validProjectKey_of_upload {index normalized filename : Str}
    (h : validUploadKey (fileSuffix index normalized filename) = true) :
    validProjectKey (projectSuffix index normalized) = true := by
  have hslash : ∀ subject : Str, subject ++ str "/" ++ filename = subject ++ 0x2F :: filename := by
    intro subject
    rw [List.append_assoc]
    rfl
  have hfirst := splitOnce_of_mem 0x2F _ (projectSuffix_slash index normalized)
  generalize (projectSuffix index normalized).takeWhile (· != 0x2F) = first at hfirst
  generalize ((projectSuffix index normalized).dropWhile (· != 0x2F)).drop 1 = rest at hfirst
  have hsuffix := Str.splitOnce_eq_some _ _ _ _ hfirst
  have hkey : Str.splitOnce 0x2F (fileSuffix index normalized filename) =
      some (first, rest ++ 0x2F :: filename) := by
    unfold fileSuffix
    rw [hslash, hsuffix, List.append_assoc, List.cons_append]
    exact Str.splitOnce_append _ _ _ (Str.splitOnce_not_mem _ _ _ _ hfirst)
  unfold validUploadKey at h
  rw [hkey] at h
  unfold validProjectKey
  rw [hfirst]
  cases rest with
  | nil => simp [Str.splitOnce] at h
  | cons byte rest =>
    dsimp only at h ⊢
    split at h
    · cases h
    · simp only [Bool.and_eq_true] at h
      simp [h.1.1]

section Laws
variable (json : AdminJson)

theorem textLaw_of {holds : Str → Str → Prop} {key value : Str} (h : holds key value) :
    TextLaw holds key value := by
  intro text htext
  rw [← ((Str.fromUtf8_eq_some _ _).mp htext).2]
  exact h

theorem splitOnce_isSome {separator : UInt8} {subject : Str} (h : separator ∈ subject) :
    (Str.splitOnce separator subject).isSome = true := by
  rw [Option.isSome_iff_ne_none, Ne, Str.splitOnce_eq_none]
  exact not_not_intro h

theorem rowLaw_file {digest : Str} (h : isDigest digest = true) (url source : Str)
    (size : Option Nat) (upstream : Option Str) :
    RowLaw json (fileKey digest) (fileSourceValue url source size upstream) := by
  have hline : (0x0A : UInt8) ∈ fileSourceValue url source size upstream := by
    unfold fileSourceValue newline
    cases upstream <;> cases size <;> simp
  refine rowLaw_of_mem json (filePrefix, TextLaw fileLaw) (by simp [audits]) (textLaw_of ?_)
  unfold fileLaw fileNames
  rw [h, splitOnce_isSome hline]
  rfl

theorem rowLaw_sibling {artifact url digest : Str} (hartifact : isDigest artifact = true)
    (h : SoundSibling url digest) (source : Str) :
    RowLaw json (metadataKey artifact) (metadataValue url digest source) := by
  refine rowLaw_of_mem json (metadataPrefix, TextLaw metadataLaw) (by simp [audits]) (textLaw_of ?_)
  obtain ⟨first, last, hsplit⟩ := splitMetadata_line url digest source
  have hdigest : isDigest (secondLine (url ++ newline ++ digest)) = true := h
  unfold metadataLaw metadataNames
  rw [hsplit]
  dsimp only
  rw [hartifact, hdigest]
  rfl

theorem rowLaw_provenance {artifact digest : Str} {size : Nat} (hartifact : isDigest artifact = true)
    (hdigest : isDigest digest = true) (hsize : size < 2 ^ 64) :
    RowLaw json (provenanceKey artifact) (provenanceValue digest size) := by
  refine rowLaw_of_mem json (provenancePrefix, TextLaw provenanceLaw) (by simp [audits])
    (textLaw_of ?_)
  have hvalue : provenanceValue digest size = digest ++ 0x0A :: Str.decimal size := by
    unfold provenanceValue newline
    rw [Str.str_toString_eq_decimal, List.append_assoc]
    rfl
  have hvalid : validProvenance artifact (provenanceValue digest size) = some digest := by
    unfold validProvenance
    rw [hvalue, Str.splitOnce_append _ _ _ (newline_not_mem_digest hdigest)]
    simp [hartifact, hdigest, Str.parseU64_decimal size hsize]
  unfold provenanceLaw provenanceNames
  rw [hvalid]
  rfl

theorem rowLaw_project {index normalized display : Str}
    (hkey : validProjectKey (projectSuffix index normalized) = true) (hdisplay : display ≠ []) :
    RowLaw json (projectKey index normalized) display := by
  have hlaw : projectLaw (projectSuffix index normalized) display := ⟨hkey, hdisplay⟩
  exact rowLaw_of_mem json (projectsPrefix, TextLaw projectLaw) (by simp [audits]) (textLaw_of hlaw)

theorem overrideKey_eq (index normalized filename : Str) :
    overrideKey index normalized filename = overridePrefix ++ fileSuffix index normalized filename := by
  unfold overrideKey projectOverridesPrefix fileSuffix
  rw [List.append_assoc]

theorem uploadKey_eq (index normalized filename : Str) :
    uploadKey index normalized filename = uploadPrefix ++ fileSuffix index normalized filename := by
  unfold uploadKey projectUploadsPrefix fileSuffix
  rw [List.append_assoc]

theorem rowLaw_override {index normalized filename kind : Str}
    (hkey : validUploadKey (fileSuffix index normalized filename) = true)
    (hkind : kind = str "hidden" ∨ kind = str "yanked") :
    RowLaw json (overrideKey index normalized filename) kind := by
  have hlaw : overrideLaw (fileSuffix index normalized filename) kind := ⟨hkey, hkind⟩
  rw [overrideKey_eq]
  exact rowLaw_of_mem json (overridePrefix, TextLaw overrideLaw) (by simp [audits]) (textLaw_of hlaw)

theorem rowLaw_upload (key : Str) (raw : Bytes) :
    RowLaw json (uploadPrefix ++ key) raw ↔ UploadLaw json key raw := by
  constructor
  · intro h
    exact h (uploadPrefix, UploadLaw json) (by simp [audits]) key rfl
  · exact rowLaw_of_mem json (uploadPrefix, UploadLaw json) (by simp [audits])

theorem rowLaw_projectState (index normalized : Str) (raw : Bytes) :
    RowLaw json (projectMetaKey index normalized) raw :=
  rowLaw_unchecked json projectMetaPrefix _ raw rfl (by rw [auditPrefixes]; decide)

theorem rowLaw_projectFile (index normalized : Str) (generation : Nat) (filename : Str) (raw : Bytes) :
    RowLaw json (projectFileKey index normalized generation filename) raw := by
  unfold projectFileKey projectGenerationPrefix
  rw [List.append_assoc]
  exact rowLaw_unchecked json projectFilePrefix _ raw rfl (by rw [auditPrefixes]; decide)

theorem rowLaw_projectStatus (index normalized : Str) (raw : Bytes) :
    RowLaw json (projectStatusKey index normalized) raw :=
  rowLaw_unchecked json projectStatusPrefix _ raw rfl (by rw [auditPrefixes]; decide)

theorem rowLaw_catalog (index : Str) (raw : Bytes) : RowLaw json (catalogKey index) raw :=
  rowLaw_unchecked json catalogPrefix _ raw rfl (by rw [auditPrefixes]; decide)

theorem rowLaw_catalogProject (index : Str) (generation : Nat) (normalized : Str) (raw : Bytes) :
    RowLaw json (catalogProjectKey index generation normalized) raw := by
  unfold catalogProjectKey catalogGenerationPrefix
  rw [List.append_assoc]
  exact rowLaw_unchecked json catalogRowsPrefix _ raw rfl (by rw [auditPrefixes]; decide)

end Laws

def File.SoundRows (file : File) : Prop :=
  ∀ sha256, file.sha256 = some sha256 → isDigest sha256 = true ∧
    ∀ digest, claimedMetadata file = some digest → SoundSibling (metadataSibling file.url) digest

section Pages
variable (json : WriteJson) {rows : Rows}

/-- The commands accept what the page registers, and the rows of its project. -/
structure CachedPage.Sound (page : CachedPage) : Prop where
  key : validProjectKey (projectSuffix page.index page.normalized) = true
  display : page.display ≠ []
  files : ∀ file ∈ page.files, isDigest file.1 = true
  metadata : ∀ row ∈ page.metadata, isDigest row.1 = true ∧ SoundSibling row.2.1 row.2.2

theorem CachedPage.Sound.put {page : CachedPage} (hpage : page.Sound)
    (hrecord : PageLaw json.admin page.key page.record) (h : Lawful json.admin rows) :
    Lawful json.admin (putCachedPage json.toRowJson rows page) := by
  have hstatus : ∀ raw, RowLaw json.admin (projectStatusKey page.index page.normalized) raw :=
    rowLaw_projectStatus json.admin page.index page.normalized
  refine h.batch _ fun put hput => ?_
  simp only [List.mem_append, List.mem_cons, List.not_mem_nil, or_false] at hput
  rcases hput with (((rfl | rfl) | hput) | hput) | hput
  · exact rowLaw_of_mem json.admin (indexPrefix, PageLaw json.admin) (by simp [audits]) hrecord
  · exact rowLaw_project json.admin hpage.key hpage.display
  · revert hput
    cases page.projectStatus <;> cases page.projectStatusReason <;> intro hput <;>
      simp only [List.not_mem_nil, List.mem_singleton] at hput <;> subst hput <;> exact hstatus _
  · obtain ⟨⟨sha256, url, size⟩, hfile, rfl⟩ := List.mem_map.mp hput
    exact rowLaw_file json.admin (hpage.files _ hfile) _ _ _ _
  · unfold CachedPage.siblings at hput
    rw [List.map_map] at hput
    obtain ⟨⟨sha256, url, digest⟩, hrow, rfl⟩ := List.mem_map.mp hput
    obtain ⟨hdigest, hsibling⟩ := hpage.metadata _ hrow
    exact rowLaw_sibling json.admin hdigest hsibling _

/-- `serde_json` reads what it writes. -/
structure WriteJson.Serde (json : WriteJson) : Prop where
  records : json.toPageJson.ReadsRecords
  uploads : json.toUploadJson.Faithful
  slices : Stored.Reads json.fromSlice

theorem pageLaw_encode {json : WriteJson} (hserde : json.Serde) (key : Str) {record : CachedIndex}
    (h : ReadablePage json.admin record) : PageLaw json.admin key (record.encode json.toPageJson) :=
  ⟨record, decode_encode json.toPageJson hserde.records record, h⟩

variable {json} {urls : UrlParser}
variable (table : CaseMap) (pep : Pep440) (parseUploadTime : Str → Option Int)

/-- A page that the commands accept: its digests, and the siblings of the files it registers. -/
structure ParsedPage.Sound (parsed : ParsedPage json) : Prop where
  key : validProjectKey (projectSuffix parsed.page.name parsed.page.project) = true
  named : parsed.page.project ≠ [] ∨ parsed.page.detail.name ≠ []
  digests : ∀ file ∈ parsed.page.detail.files, file.SoundDigests
  siblings : ∀ row ∈ parsed.page.registered table pep parseUploadTime,
    ∀ digest, claimedMetadata row.2 = some digest → SoundSibling (metadataSibling row.2.url) digest

theorem mem_registered {page : BufferedPage} {row : Str × File}
    (h : row ∈ page.registered table pep parseUploadTime) :
    row.2 ∈ page.detail.files ∧ row.2.sha256 = some row.1 := by
  obtain ⟨file, hfile, hrow⟩ := List.mem_filterMap.mp h
  split at hrow
  · split at hrow
    · cases hrow
    · rename_i sha256 hsha
      split at hrow
      · cases hrow
      · cases hrow
        exact ⟨hfile, hsha⟩
  · cases hrow

theorem ParsedPage.Sound.persist {parsed : ParsedPage json} (hserde : json.Serde)
    (hsound : parsed.Sound table pep parseUploadTime) (h : Lawful json.admin rows) :
    Lawful json.admin (persistPage json table pep parseUploadTime rows parsed) := by
  have hdigest : ∀ row ∈ parsed.page.registered table pep parseUploadTime,
      isDigest row.1 = true := by
    intro row hrow
    obtain ⟨hfile, hsha⟩ := mem_registered table pep parseUploadTime hrow
    exact (hsound.digests row.2 hfile row.1 hsha).1
  have hpage : (parsed.page.cachedPage table pep parseUploadTime).Sound := by
    refine ⟨hsound.key, ?_, ?_, ?_⟩
    · unfold BufferedPage.cachedPage
      dsimp only
      split
      · rename_i hname
        exact hsound.named.resolve_right (not_not_intro hname)
      · assumption
    · intro file hfile
      obtain ⟨row, hrow, rfl⟩ := List.mem_map.mp hfile
      exact hdigest row hrow
    · intro file hfile
      obtain ⟨row, hrow, hclaimed⟩ := List.mem_filterMap.mp hfile
      obtain ⟨digest, hdigest', rfl⟩ := Option.map_eq_some_iff.mp hclaimed
      exact ⟨hdigest row hrow, hsound.siblings row hrow digest hdigest'⟩
  refine hpage.put json ?_ h
  show PageLaw json.admin parsed.page.key parsed.page.record
  rw [parsed.encoded]
  exact pageLaw_encode hserde _ ⟨parsed.page.detail, parsed.parsed, hsound.digests⟩

/-- A streamed page that the commands accept: its body can be read and the digests in it are
valid, and so is what it registers. -/
structure LivePage.Sound (live : LivePage json urls) (summary : PageProgress) : Prop where
  key : validProjectKey (projectSuffix live.page.name live.page.project) = true
  named : live.page.project ≠ [] ∨ ∃ name, Str.fromUtf8 summary.name = some name ∧ name ≠ []
  readable : ∃ parsed, parseDetail (json.fromSlice live.raw) = .ok parsed ∧
    ∀ file ∈ parsed.files, file.SoundClaims
  registrations : ∀ registration ∈ keptRegistrations summary,
    isDigest registration.sha256 = true ∧
      ∀ url digest, registration.metadata = some (url, digest) → SoundSibling url digest

theorem soundDigests_stored {file : File} (h : file.SoundClaims) (url : Str) :
    (Stored.storedFile { file with url := url }).SoundDigests := by
  intro sha256 hsha
  obtain ⟨hdigest, hclaimed⟩ := h sha256 hsha
  exact ⟨hdigest, hclaimed⟩

theorem admin_parseDetail {raw : Bytes} {parsed : ParsedDetail}
    (h : parseDetail (json.fromSlice raw) = .ok parsed) : json.admin.parseDetail raw =
      some ⟨parsed.info, parsed.name, parsed.versions, parsed.files⟩ := by
  unfold WriteJson.admin
  dsimp only
  rw [h]
  rfl

theorem readable_buildRecord (hserde : json.Serde) (hurls : urls.Written) {raw : Bytes}
    {parsed : ParsedDetail} (hparse : parseDetail (json.fromSlice raw) = .ok parsed)
    (hfiles : ∀ file ∈ parsed.files, file.SoundClaims) (base : Str) (etag : Option Str)
    (lastSerial : Option Nat) (freshSecs : Option Int) (now : Int) :
    ReadablePage json.admin (buildRecord json urls raw base etag lastSerial freshSecs now) := by
  have hbody : (buildRecord json urls raw base etag lastSerial freshSecs now).body =
      Stored.toJson (Stored.resolved urls base parsed) := by
    unfold buildRecord
    rw [Stored.canonicalJson_ok urls base json.fromSlice hparse]
    rfl
  have hback := admin_parseDetail (Stored.parseDetail_stored hserde.slices hurls base hparse)
  unfold ReadablePage
  rw [hbody]
  refine ⟨_, hback, fun file hfile => ?_⟩
  obtain ⟨source, hsource, rfl⟩ := List.mem_map.mp hfile
  exact soundDigests_stored (hfiles source hsource) _

theorem LivePage.Sound.persist {live : LivePage json urls} (hserde : json.Serde)
    (hurls : urls.Written)
    (hsound : ∀ summary, live.page.summary table pep parseUploadTime urls.absolutize = .ok summary →
      live.Sound summary) (h : Lawful json.admin rows) :
    Lawful json.admin (persistStreamed json urls table pep parseUploadTime rows live) := by
  unfold persistStreamed
  cases hsummary : live.page.summary table pep parseUploadTime urls.absolutize with
  | error error => exact h
  | ok summary =>
    obtain ⟨hkey, hnamed, ⟨parsed, hparse, hfiles⟩, hregistrations⟩ := hsound summary hsummary
    have hpage : (live.page.cachedPage urls.absolutize summary).Sound := by
      refine ⟨hkey, ?_, ?_, ?_⟩
      · unfold StreamedPage.cachedPage
        dsimp only
        cases hname : (Str.fromUtf8 summary.name).filter fun name => name != [] with
        | some name => simpa using (Option.filter_eq_some_iff.mp hname).2
        | none =>
          refine hnamed.resolve_right ?_
          rintro ⟨name, hread, hne⟩
          rw [hread, Option.filter_some, if_pos (by simpa using hne)] at hname
          cases hname
      · intro file hfile
        obtain ⟨registration, hmem, rfl⟩ := List.mem_map.mp hfile
        exact (hregistrations registration hmem).1
      · intro row hrow
        obtain ⟨registration, hmem, hmetadata⟩ := List.mem_filterMap.mp hrow
        obtain ⟨⟨url, digest⟩, hgiven, rfl⟩ := Option.map_eq_some_iff.mp hmetadata
        obtain ⟨hdigest, hsibling⟩ := hregistrations registration hmem
        exact ⟨hdigest, hsibling url digest hgiven⟩
    refine hpage.put json ?_ h
    show PageLaw json.admin live.page.key live.page.record
    rw [live.encoded]
    exact pageLaw_encode hserde _ (readable_buildRecord hserde hurls hparse hfiles _ _ _ _ _)

end Pages

section Syncs
variable {law : Str → Bytes → Prop} {rows : Rows} {A E I H : Type}

theorem obeys_syncTxn (kind : SyncKind A E I H) (hstate : ∀ raw, law kind.space.stateKey raw)
    (txn : SyncTxn A I H) (h : Obeys law rows)
    (hput : ∀ head generation items, txn = .put head generation items →
      Obeys law (kind.insert head generation rows items).2) : Obeys law (txn.commit kind rows) := by
  have hstore : ∀ state, Obeys law (kind.space.storeState rows state) :=
    fun state => h.insert (hstate (kind.space.encode state))
  cases txn with
  | sweep keys => exact h.batch _ fun put hput => absurd hput List.not_mem_nil
  | clear seen =>
    unfold SyncTxn.commit GenerationSpace.clearTxn GenerationSpace.withState
    cases kind.space.state rows with
    | error error => exact h
    | ok state => exact hstore _
  | begin =>
    unfold SyncTxn.commit GenerationSpace.beginTxn GenerationSpace.withState
    cases kind.space.state rows with
    | error error => exact h
    | ok state => exact hstore _
  | put head generation items =>
    unfold SyncTxn.commit GenerationSpace.putTxn GenerationSpace.withState
    cases kind.space.state rows with
    | error error => exact h
    | ok state =>
      dsimp only
      split
      · exact h
      · exact hput head generation items rfl
  | publish expectedActive generation =>
    unfold SyncTxn.commit GenerationSpace.publishTxn GenerationSpace.withState
    cases kind.space.state rows with
    | error error => exact h
    | ok state =>
      dsimp only
      split
      · exact h
      · exact hstore _
  | abort generation =>
    unfold SyncTxn.commit GenerationSpace.abortTxn GenerationSpace.withState
    cases kind.space.state rows with
    | error error => exact h
    | ok state =>
      dsimp only
      split
      · exact hstore _
      · exact h
  | refresh expected etag lastModified fetchedAtUnix =>
    unfold SyncTxn.commit GenerationSpace.refreshTxn GenerationSpace.withState
    cases kind.space.state rows with
    | error error => exact h
    | ok state =>
      dsimp only
      split
      · exact hstore _
      · exact h

theorem obeys_insertProjects (index : Str) (generation : Nat)
    (hlaw : ∀ normalized raw, law (catalogProjectKey index generation normalized) raw)
    (projects : List (Str × Str)) (h : Obeys law rows) :
    Obeys law (insertProjects index generation rows projects).2 := by
  induction projects generalizing rows with
  | nil => exact h
  | cons project projects ih =>
    obtain ⟨normalized, display⟩ := project
    have hinsert := h.insert (hlaw normalized display)
    unfold insertProjects
    dsimp only
    split
    · exact ih hinsert
    · split
      · exact ih hinsert
      · exact ih h

def Inserted (rows : Rows) (index normalized : Str) (generation : Nat) (files : List File)
    (file : File) : Prop :=
  ∃ front back, files = front ++ file :: back ∧
    rows[projectFileKey index normalized generation file.filename]? = none ∧
    ∀ other ∈ front, other.filename ≠ file.filename

theorem Inserted.cons {index normalized : Str} {generation : Nat} {files : List File} {file : File}
    (h : Inserted rows index normalized generation files file) (first : File)
    (hne : first.filename ≠ file.filename) :
    Inserted rows index normalized generation (first :: files) file := by
  obtain ⟨front, back, rfl, hrow, hfront⟩ := h
  exact ⟨first :: front, back, rfl, hrow, List.forall_mem_cons.mpr ⟨hne, hfront⟩⟩

variable (json : AdminJson)

theorem registerFileRows_lawful {file : File} (hfile : file.SoundRows) (source : Str)
    (upstream : Option Str) (h : Lawful json rows) :
    Lawful json (registerFileRows rows source upstream file) := by
  unfold registerFileRows
  cases hsha : file.sha256 with
  | none => exact h
  | some sha256 =>
    obtain ⟨hdigest, hsibling⟩ := hfile sha256 hsha
    have hinsert := h.insert (rowLaw_file json hdigest file.url source file.size upstream)
    dsimp only
    cases hclaimed : claimedMetadata file with
    | none => exact hinsert
    | some digest => exact hinsert.insert (rowLaw_sibling json hdigest (hsibling digest hclaimed) source)

theorem registerFileRows_projectFile (index normalized : Str) (generation : Nat) (filename source : Str)
    (upstream : Option Str) (file : File) :
    (registerFileRows rows source upstream file)[projectFileKey index normalized generation filename]? =
      rows[projectFileKey index normalized generation filename]? := by
  have hkey : projectFileKey index normalized generation filename = projectFilePrefix ++
      (projectSuffix index normalized ++ str "/" ++ paddedGeneration generation ++ str "/" ++ filename) :=
    List.append_assoc _ _ _
  have hfile : ∀ sha256, fileKey sha256 ≠ projectFileKey index normalized generation filename :=
    fun sha256 => hkey ▸ key_ne filePrefix projectFilePrefix rfl rfl (by decide) _ _
  have hmetadata : ∀ sha256, metadataKey sha256 ≠ projectFileKey index normalized generation filename :=
    fun sha256 => hkey ▸ key_ne metadataPrefix projectFilePrefix rfl rfl (by decide) _ _
  unfold registerFileRows
  cases file.sha256 with
  | none => rfl
  | some sha256 =>
    dsimp only
    cases claimedMetadata file with
    | none => exact getElem?_insert_of_ne _ _ _ _ (hfile sha256)
    | some digest =>
      rw [getElem?_insert_of_ne _ _ _ _ (hmetadata sha256), getElem?_insert_of_ne _ _ _ _ (hfile sha256)]

theorem insertFiles_lawful (index normalized : Str) (generation : Nat) (source : Str)
    (upstream : Option Str) (files : List File) (h : Lawful json rows)
    (hfiles : ∀ file, Inserted rows index normalized generation files file → file.SoundRows) :
    Lawful json (insertFiles json.toRowJson index normalized generation source upstream rows files).2 := by
  induction files generalizing rows with
  | nil => exact h
  | cons first files ih =>
    unfold insertFiles
    dsimp only
    cases hrow : rows[projectFileKey index normalized generation first.filename]? with
    | some raw =>
      refine ih h fun file hinserted => hfiles file (hinserted.cons first fun hname => ?_)
      obtain ⟨_, _, _, hnone, _⟩ := hinserted
      rw [← hname, hrow] at hnone
      cases hnone
    | none =>
      have hfirst := hfiles first ⟨[], files, rfl, hrow, List.forall_mem_nil _⟩
      have hinsert := h.insert (rowLaw_projectFile json index normalized generation first.filename
        (json.file first))
      refine ih (registerFileRows_lawful json hfirst source upstream hinsert) fun file hinserted => ?_
      obtain ⟨front, back, rfl, hnone, hfront⟩ := hinserted
      rw [registerFileRows_projectFile] at hnone
      have hname : first.filename ≠ file.filename := by
        intro hname
        rw [hname, Std.ExtTreeMap.getElem?_insert_self] at hnone
        cases hnone
      have hkey : projectFileKey index normalized generation first.filename ≠
          projectFileKey index normalized generation file.filename :=
        fun heq => hname (List.append_cancel_left heq)
      rw [getElem?_insert_of_ne _ _ _ _ hkey] at hnone
      have hrest : Inserted rows index normalized generation (front ++ file :: back) file :=
        ⟨front, back, rfl, hnone, hfront⟩
      exact hfiles file (hrest.cons first hname)

end Syncs

end Peryx.Pypi
