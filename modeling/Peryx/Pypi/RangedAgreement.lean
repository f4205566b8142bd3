import Peryx.Pypi.RangedMetadata

/-!
# Metadata by range and from the whole archive (peryx-ecosystem-pypi/src/cache/metadata.rs)
-/

namespace Peryx.Wheel
open Str CentralDir Upstream Pypi

section Whole
variable {inflate : Inflate} (archive : WheelArchive inflate) (regular : ZipFormat.Member → Bool)

def lastNamed (name : Str) : Option ZipFormat.Member :=
  archive.members.reverse.find? fun member => member.name == name

/-- `by_name` of an entry; `regular` says what is no directory and no symbolic link. -/
def openMember : Option ZipFormat.Member → Except Str (Option ZipFile)
  | none => .ok none
  | some member =>
    if member.encrypted then .error (str "Password required to decrypt file")
    else .ok (some ⟨regular member, member.content.length, .ok member.content⟩)

/-- The crate finds the archive in its bytes, and under the name its last entry. -/
def Reads (openZip : OpenZip) (metadataPath : Str) : Prop :=
  ∃ byName, openZip archive.bytes = .ok byName ∧
    byName metadataPath = openMember regular (lastNamed archive metadataPath)

/-- What can be found by range is a regular file, and what the last entry of its name holds. -/
def Agrees (metadataPath : Str) : Prop :=
  LastSignature archive → ∀ first, archive.members.find? (isMember metadataPath) = some first →
    first.content.length ≤ maxWheelMetadataBytes → first.stored.length ≤ maxWheelMetadataBytes →
      ∃ last, lastNamed archive metadataPath = some last ∧ last.encrypted = false ∧
        regular last = true ∧ last.content = first.content

variable {table : CaseMap} {pep : Pep440} {openZip : OpenZip} {filename metadataPath : Str}

theorem wheelMetadataReader_iff (hpath : wheelMetadataMemberPath table pep filename = .ok (some metadataPath))
    (hreads : Reads archive regular openZip metadataPath) (metadata : Str) :
    wheelMetadataReader table pep openZip filename archive.bytes = .ok (some metadata) ↔
      ∃ last, lastNamed archive metadataPath = some last ∧ last.encrypted = false ∧
        regular last = true ∧ last.content.length ≤ maxWheelMetadataBytes ∧ last.content = metadata := by
  obtain ⟨byName, hopen, hentry⟩ := hreads
  unfold wheelMetadataReader
  rw [hpath, ok_bind, hopen]
  dsimp only [Except.mapError]
  rw [ok_bind, hentry]
  cases hlast : lastNamed archive metadataPath with
  | none => simp [openMember, ok_bind, pure, Except.pure]
  | some last =>
    unfold openMember
    dsimp only
    cases hencrypted : last.encrypted with
    | true => simp [hencrypted, bind, Except.bind]
    | false =>
      cases hregular : regular last with
      | false => simp [hregular, hencrypted, bind, Except.bind, pure, Except.pure]
      | true =>
        by_cases hlarge : last.content.length > maxWheelMetadataBytes
        · simp [hregular, hlarge, bind, Except.bind]
        · have hsmall : last.content.length ≤ maxWheelMetadataBytes := by omega
          simp [hregular, hencrypted, hlarge, hsmall, bind, Except.bind, pure, Except.pure]

end Whole

section Ranged
variable (standard : Url.Standard) (parse : ParseUrl) (table : CaseMap) (pep : Pep440)
  (display : WheelError → Str) (inflate : Inflate)

theorem bytes_lt (archive : WheelArchive inflate) : archive.bytes.length < 2 ^ 63 := by
  have hbody := archive.body_lt
  have hdirectory := archive.directory_lt
  have hcomment := archive.comment_lt
  have hlength := archive.length_bytes
  unfold ZipFormat.limit32 at hbody hdirectory
  unfold ZipFormat.Archive.endOffset ZipFormat.Archive.directory at hlength
  omega

theorem wheelMetadataByRange_ensures (web : Web) (client : ArtifactClient) (url filename : Str) :
    Ensures IsPanic (wheelMetadataByRange standard parse table pep display inflate web client url filename)
      (fun remote => ∀ metadata, remote = .found metadata → metadata.length ≤ maxWheelMetadataBytes) := by
  unfold wheelMetadataByRange
  split
  · exact nofun
  · exact Ensures.error (by rintro ⟨panic, h⟩; cases h)
  · rename_i metadataPath _
    apply Ensures.bind (fetched_ensures _)
    intro len _
    have hexact : ExactRanges (client.fetchRange standard parse web url) :=
      fun start stop bytes h => fetchRange_length h
    apply Ensures.mono (extractMember_ensures hexact metadataPath len)
    intro remote hremote metadata hmetadata
    obtain ⟨found⟩ := hremote metadata hmetadata
    exact found.extracted.1

variable {standard parse table pep display inflate}

theorem wheelMetadataByRange_first {archive : WheelArchive inflate} (hone : archive.OneEnd)
    {filename metadataPath : Str}
    (hpath : wheelMetadataMemberPath table pep filename = .ok (some metadataPath)) {web : Web}
    (hserves : Serves web archive.bytes) {client : ArtifactClient} {url metadata : Str}
    (h : wheelMetadataByRange standard parse table pep display inflate web client url filename =
      .ok (.found metadata)) :
    LastSignature archive ∧ ∃ first, archive.members.find? (isMember metadataPath) = some first ∧
      metadata = first.content ∧ metadata.length ≤ maxWheelMetadataBytes ∧
      first.stored.length ≤ maxWheelMetadataBytes := by
  unfold wheelMetadataByRange at h
  rw [hpath] at h
  obtain ⟨len, hlen, hextract⟩ := (bind_eq_ok _ _ _).mp h
  have hfile := headFileForRange_serves hserves (mapError_ok hlen)
  have hexact : ExactRanges (client.fetchRange standard parse web url) :=
    fun start stop bytes h => fetchRange_length h
  have hparts : PartsOf archive.bytes (client.fetchRange standard parse web url) :=
    fun start stop bytes h => fetchRange_serves hserves h
  rw [hfile] at hextract
  obtain ⟨found⟩ := (extractMember_ensures hexact metadataPath _).of_ok hextract metadata rfl
  exact found_member archive hparts hone (bytes_lt inflate archive) found

theorem wheelMetadataByRange_found {archive : WheelArchive inflate} (hlast : LastSignature archive)
    {filename metadataPath : Str}
    (hpath : wheelMetadataMemberPath table pep filename = .ok (some metadataPath)) {url : Str}
    {target : Url.Absolute} (hurl : parse url = some target) {first : ZipFormat.Member}
    (hfirst : archive.members.find? (isMember metadataPath) = some first)
    (hcontent : first.content.length ≤ maxWheelMetadataBytes)
    (hstored : first.stored.length ≤ maxWheelMetadataBytes) :
    wheelMetadataByRange standard parse table pep display inflate (fileServer archive.bytes) ⟨none, false⟩
      url filename = .ok (.found first.content) := by
  have hlen := bytes_lt inflate archive
  have hask : ∀ {α : Type} (request : Option Url.Absolute → Except RangeError α),
      (ArtifactClient.mk none false).ask standard parse request url = request (some target) := by
    intro α request
    rw [← hurl]
    rfl
  have hhead : (ArtifactClient.mk none false).headFileForRange standard parse (fileServer archive.bytes) url =
      .ok archive.bytes.length :=
    (hask _).trans (fileServer_head archive.bytes (by omega) target)
  have hanswers : Answers archive.bytes
      ((ArtifactClient.mk none false).fetchRange standard parse (fileServer archive.bytes) url) :=
    fun start stop horder hstop =>
      (hask _).trans (fileServer_fetch archive.bytes (by omega) target horder hstop)
  unfold wheelMetadataByRange
  rw [hpath]
  dsimp only
  rw [hhead, fetched_ok, ok_bind]
  exact extractMember_archive archive hanswers hlast hlen hfirst hcontent hstored

variable (standard parse table pep display inflate)

/-- The reader is safe on all bytes, and nothing past the limit is found. By range and from
the whole archive comes the same exactly where the last entry of the name is a regular file
with the content of the first that is not encrypted. -/
theorem ranged_metadata_iff :
    (∀ tail : Str, tail.length < 2 ^ 63 → ∃ found, centralDirectory tail = .ok found) ∧
    (∀ directory metadataPath : Str, directory.length < 2 ^ 63 →
      ∃ search, findCentralDirectoryEntry directory metadataPath = .ok search) ∧
    (∀ web client url filename panic,
      wheelMetadataByRange standard parse table pep display inflate web client url filename ≠
        .error (.panic panic)) ∧
    (∀ web client url filename metadata,
      wheelMetadataByRange standard parse table pep display inflate web client url filename =
        .ok (.found metadata) → metadata.length ≤ maxWheelMetadataBytes) ∧
    ∀ (archive : WheelArchive inflate) (regular : ZipFormat.Member → Bool) (openZip : OpenZip)
      (filename metadataPath : Str), archive.OneEnd →
      wheelMetadataMemberPath table pep filename = .ok (some metadataPath) →
      Reads archive regular openZip metadataPath → (∃ url, (parse url).isSome = true) →
      ((∀ web client url metadata, Serves web archive.bytes →
        wheelMetadataByRange standard parse table pep display inflate web client url filename =
          .ok (.found metadata) →
        wheelMetadataReader table pep openZip filename archive.bytes = .ok (some metadata)) ↔
      Agrees archive regular metadataPath) := by
  have hensures := wheelMetadataByRange_ensures standard parse table pep display inflate
  refine ⟨fun tail hlen => ?_,
    fun directory metadataPath hlen => findCentralDirectoryEntry_ok metadataPath hlen,
    fun web client url filename panic h => (hensures web client url filename).not_bad h ⟨panic, rfl⟩,
    fun web client url filename metadata h => (hensures web client url filename).of_ok h metadata rfl, ?_⟩
  · obtain ⟨found, hfound, -⟩ := centralDirectory_ok hlen
    exact ⟨found, hfound⟩
  · intro archive regular openZip filename metadataPath hone hpath hreads hurl
    constructor
    · intro hsame hlast first hfirst hcontent hstored
      obtain ⟨url, hsome⟩ := hurl
      obtain ⟨target, htarget⟩ := Option.isSome_iff_exists.mp hsome
      have hserves := fileServer_serves archive.bytes (by have := bytes_lt inflate archive; omega)
      have hwhole := hsame _ _ _ _ hserves
        (wheelMetadataByRange_found hlast hpath htarget hfirst hcontent hstored)
      obtain ⟨last, hlastNamed, hplain, hregular, -, hequal⟩ :=
        (wheelMetadataReader_iff archive regular hpath hreads _).mp hwhole
      exact ⟨last, hlastNamed, hplain, hregular, hequal⟩
    · intro hagrees web client url metadata hserves h
      obtain ⟨hlast, first, hfirst, hmetadata, hlimit, hstored⟩ :=
        wheelMetadataByRange_first hone hpath hserves h
      rw [hmetadata] at hlimit ⊢
      obtain ⟨last, hlastNamed, hplain, hregular, hequal⟩ := hagrees hlast first hfirst hlimit hstored
      exact (wheelMetadataReader_iff archive regular hpath hreads _).mpr
        ⟨last, hlastNamed, hplain, hregular, by rw [hequal]; exact hlimit, hequal⟩

end Ranged

def plainMember (content checksum : Str) (offset : Nat) (hcontent : content.length = 1)
    (hchecksum : checksum.length = 4) (hoffset : offset < 2 ^ 16) : ZipFormat.Member where
  name := str "p-1.dist-info/METADATA"
  content := content
  stored := content
  versions := [20, 3, 20, 0]
  flags := 0
  method := 0
  stamp := [0, 0, 0x21, 0] ++ checksum
  attributes := [0, 0, 0, 0, 0, 0, 0xA4, 0x81]
  offset := offset
  extra := []
  comment := []
  localLead := [20, 0, 0, 0, 0, 0, 0, 0, 0x21, 0] ++ checksum ++ [1, 0, 0, 0, 1, 0, 0, 0]
  localExtra := []
  versions_length := rfl
  stamp_length := by rw [List.length_append, hchecksum]; rfl
  attributes_length := rfl
  localLead_length := by rw [List.length_append, List.length_append, hchecksum]; rfl
  flags_lt := by decide
  method_lt := by decide
  name_lt := by decide
  extra_lt := by decide
  comment_lt := by decide
  localExtra_lt := by decide
  content_lt := by rw [hcontent]; decide
  stored_lt := by rw [hcontent]; decide
  offset_lt := by unfold ZipFormat.limit32; omega

def older : ZipFormat.Member := plainMember (str "A") [0x8B, 0x9E, 0xD9, 0xD3] 0 rfl rfl (by decide)

def newer : ZipFormat.Member := plainMember (str "B") [0x31, 0xCF, 0xD0, 0x4A] 53 rfl rfl (by decide)

def noInflate : Inflate := fun _ => .error []

theorem length_older : older.central.length = 68 := by
  rw [older.length_central]
  rfl

theorem length_newer : newer.central.length = 68 := by
  rw [newer.length_central]
  rfl

/-- A wheel with one `METADATA`. -/
def single : WheelArchive noInflate where
  body := older.record
  members := [older]
  comment := []
  stands := by decide
  holds member hmem _ := by
    rw [List.mem_singleton.mp hmem]
    exact Or.inl ⟨rfl, rfl⟩
  body_lt := by decide
  directory_lt := by simp [length_older, ZipFormat.limit32]
  members_lt := by decide
  comment_lt := by decide

/-- A wheel with two entries for `METADATA`. -/
def double : WheelArchive noInflate where
  body := older.record ++ newer.record
  members := [older, newer]
  comment := []
  stands := by decide
  holds member hmem _ := by
    rcases List.mem_cons.mp hmem with h | h
    · rw [h]
      exact Or.inl ⟨rfl, rfl⟩
    · rw [List.mem_singleton.mp h]
      exact Or.inl ⟨rfl, rfl⟩
  body_lt := by decide
  directory_lt := by simp [length_older, length_newer, ZipFormat.limit32]
  members_lt := by decide
  comment_lt := by decide

theorem lastSignature_of_nil {inflate : Inflate} (archive : WheelArchive inflate)
    (h : archive.comment = []) :
    archive.OneEnd ∧ LastSignature archive := by
  have hlength := archive.length_bytes
  rw [h, List.length_nil] at hlength
  constructor
  · intro position hends
    have hfits := hends.2
    omega
  · intro position hfits _
    omega

def onePath : Str := str "p-1.dist-info/METADATA"

def oneFilename : Str := str "p-1-py3-none-any.whl"

theorem memberPath_one :
    wheelMetadataMemberPath CaseMap.caseless wholeVersions oneFilename = .ok (some onePath) := by
  decide

def everyUrl : ParseUrl := fun _ => some ⟨str "https", str "files", none, str "/p"⟩

def openOne (archive : WheelArchive noInflate) : OpenZip :=
  fun _ => .ok fun name => openMember (fun _ => true) (lastNamed archive name)

theorem reads_one (archive : WheelArchive noInflate) :
    Reads archive (fun _ => true) (openOne archive) onePath := ⟨_, rfl, rfl⟩

def rangedOne (archive : WheelArchive noInflate) : Except Halt RemoteMetadata :=
  wheelMetadataByRange plainStandard everyUrl CaseMap.caseless wholeVersions (fun _ => []) noInflate
    (fileServer archive.bytes) ⟨none, false⟩ (str "https://files/p") oneFilename

def wholeOne (archive : WheelArchive noInflate) : Except WheelError (Option Str) :=
  wheelMetadataReader CaseMap.caseless wholeVersions (openOne archive) oneFilename archive.bytes

theorem rangedOne_older {archive : WheelArchive noInflate} (hcomment : archive.comment = [])
    (hfirst : archive.members.find? (isMember onePath) = some older) :
    rangedOne archive = .ok (.found (str "A")) :=
  wheelMetadataByRange_found (lastSignature_of_nil archive hcomment).2 memberPath_one rfl hfirst
    (by decide) (by decide)

theorem single_agrees : Agrees single (fun _ => true) onePath := by
  intro _ first hfirst _ _
  have hsame : first = older := by
    have hmem := List.mem_of_find?_eq_some hfirst
    exact List.mem_singleton.mp hmem
  exact ⟨older, rfl, rfl, rfl, by rw [hsame]⟩

theorem single_metadata :
    (∃ found, centralDirectory single.bytes = .ok found) ∧
    (∃ search, findCentralDirectoryEntry single.directory onePath = .ok search) ∧
    rangedOne single = .ok (.found (str "A")) ∧ wholeOne single = .ok (some (str "A")) := by
  have hiff := ranged_metadata_iff plainStandard everyUrl CaseMap.caseless wholeVersions
    (fun _ => []) noInflate
  have hlen := bytes_lt noInflate single
  have hfound : rangedOne single = .ok (.found (str "A")) := rangedOne_older rfl rfl
  have hdirectory : single.directory.length < 2 ^ 63 := by
    have hlt := single.directory_lt
    unfold ZipFormat.limit32 at hlt
    unfold ZipFormat.Archive.directory
    omega
  have hsame := (hiff.2.2.2.2 single (fun _ => true) (openOne single) oneFilename onePath
    (lastSignature_of_nil single rfl).1 memberPath_one (reads_one single) ⟨[], rfl⟩).mpr single_agrees
  exact ⟨hiff.1 single.bytes hlen, hiff.2.1 single.directory onePath hdirectory, hfound,
    hsame _ _ _ _ (fileServer_serves single.bytes (by omega)) hfound⟩

/-- By range comes the first of two entries, from the whole archive the last. -/
theorem double_differs :
    double.OneEnd ∧ Reads double (fun _ => true) (openOne double) onePath ∧
      Serves (fileServer double.bytes) double.bytes ∧
      rangedOne double = .ok (.found (str "A")) ∧ wholeOne double = .ok (some (str "B")) := by
  have hlen := bytes_lt noInflate double
  have hwhole := (wheelMetadataReader_iff double (fun _ => true) memberPath_one (reads_one double)
    (str "B")).mpr ⟨newer, rfl, rfl, rfl, by decide, rfl⟩
  exact ⟨(lastSignature_of_nil double rfl).1, reads_one double, fileServer_serves double.bytes (by omega),
    rangedOne_older rfl rfl, hwhole⟩

end Peryx.Wheel
