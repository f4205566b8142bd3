import Peryx.Oci.References
import Peryx.Operator.Manifest
import Peryx.Pypi.Purges

/-! # Purging and collecting keep what is referenced (peryx/src/app/purge.rs) -/

namespace Peryx.Operator
open Storage Pypi

def lone {ε α : Type} (p : Calls ε α) (rows : Rows) : Except (TxnError ε) α :=
  (p.run.run { store := { rows := rows } }).1

theorem lone_reads {ε α : Type} {p : Calls ε α} {rows : Rows} {answer : Except ε α}
    (h : Reads p rows answer) : lone p rows = answer.mapError .body :=
  congrArg Prod.fst (h { store := { rows := rows } } rfl rfl)

section Drivers
variable (json : AdminJson) (parse : Bytes → Option Json) (message : TxnError AdminError → Str)

def installedDrivers : List (Rows → Except Str (List Str)) :=
  [fun rows => ((lone (Pypi.referencedBlobDigests json) rows).map
      Std.ExtTreeSet.toList).mapError message,
    fun rows => ((lone (Oci.referencedBlobDigests parse) rows).map
      Std.ExtTreeSet.toList).mapError message]

variable (host : Host)

def collectedDigests (rows : Rows) : Except Str (List Str) :=
  referencedBlobDigests { host with drivers := installedDrivers json parse message } rows

theorem mem_keys_foldl_insert (named : List Str) (set : Table Str Unit) (digest : Str) :
    digest ∈ (named.foldl (fun set digest => set.insert digest ()) set).keys ↔
      digest ∈ set.keys ∨ digest ∈ named := by
  induction named generalizing set with
  | nil => simp
  | cons first named ih =>
    rw [List.foldl_cons, ih, Std.ExtTreeMap.mem_keys, Std.ExtTreeMap.mem_insert,
      Std.LawfulEqCmp.compare_eq_iff_eq, Std.ExtTreeMap.mem_keys, List.mem_cons, @eq_comm _ digest]
    tauto

theorem collectedDigests_ok (rows : Rows) :
    ((∃ digests, collectedDigests json parse message host rows = .ok digests) ↔
      Collectable json rows) ∧
    ∀ digests, collectedDigests json parse message host rows = .ok digests →
      ∀ digest, digest ∈ digests ↔
        Pypi.LeadsTo json File.coreMetadata rows digest ∨ Oci.RowNames parse rows digest := by
  have hpypi := lone_reads (Pypi.reads_referencedBlobDigests json rows)
  have hoci := lone_reads (ε := AdminError) (Oci.reads_referencedBlobDigests parse rows)
  have hcollectable := collected_ok_iff json rows
  unfold collectedDigests referencedBlobDigests installedDrivers
  simp only [List.mapM_cons, List.mapM_nil, hpypi, hoci]
  cases hfound : Pypi.collected json rows with
  | error error =>
    rw [hfound] at hcollectable
    constructor
    · rw [← hcollectable]
      constructor
      · rintro ⟨digests, h⟩
        cases h
      · rintro ⟨digests, h⟩
        cases h
    · intro digests h
      cases h
  | ok found =>
    rw [hfound] at hcollectable
    have hrows := hcollectable.mp ⟨found, rfl⟩
    refine ⟨⟨fun _ => hrows, fun _ => ⟨_, rfl⟩⟩, ?_⟩
    intro digests h digest
    cases h
    rw [mem_keys_foldl_insert, ← rowNames_iff json hrows, ← mem_collected_iff json hfound,
      ← Oci.mem_collected_iff]
    simp

def Covers (rows : Rows) : Prop :=
  ∀ digests, collectedDigests json parse message host rows = .ok digests → ∀ digest,
    Pypi.LeadsTo json File.metadata rows digest ∨ Oci.LeadsTo parse rows digest → digest ∈ digests

/-- What an upload gives under the older key alone, another row leads to. -/
def OlderKeysCovered (rows : Rows) : Prop :=
  Collectable json rows → ∀ digest, GivenByOlderKey json rows digest →
    Pypi.LeadsTo json File.coreMetadata rows digest ∨ Oci.RowNames parse rows digest

theorem covers_iff (rows : Rows) :
    Covers json parse message host rows ↔ OlderKeysCovered json parse rows := by
  obtain ⟨hok, hmem⟩ := collectedDigests_ok json parse message host rows
  constructor
  · intro hcovers hcollectable digest holder
    obtain ⟨digests, hdigests⟩ := hok.mpr hcollectable
    refine (hmem digests hdigests digest).mp (hcovers digests hdigests digest (.inl ?_))
    exact (leadsTo_metadata_iff json rows digest).mpr (.inr holder)
  · intro holder digests hdigests digest hleads
    rw [hmem digests hdigests digest]
    rcases hleads with hpypi | hoci
    · rcases (leadsTo_metadata_iff json rows digest).mp hpypi with hcore | hgiven
      · exact .inl hcore
      · exact holder (hok.mp ⟨digests, hdigests⟩) digest hgiven
    · exact .inr (Oci.LeadsTo.rowNames parse hoci)

/-- When a purge keeps every row that is still referred to, and the collector every blob. -/
theorem references_kept_iff (table : CaseMap) (rows : Rows) (index project : Str) (apply : Bool) :
    (KeepsReferenced json rows (rowsAfterPurge json table rows index project apply)
        (projectSuffix index (normalizeName table project)) ∧
      Covers json parse message host rows) ↔
    (GenerationsSpared json rows (projectSuffix index (normalizeName table project)) apply ∧
      OlderKeysCovered json parse rows) := by
  have hpurge := keepsReferenced_iff json table rows index project apply
  have hcollector := covers_iff json parse message host rows
  exact and_congr hpurge hcollector

end Drivers

namespace SharedWheel

def wheel : Str := List.replicate 64 0x61

def listed : Pypi.File where
  filename := str "app-1.0-py3-none-any.whl"
  url := str "https://files.example/app-1.0-py3-none-any.whl"
  hashes := Std.ExtTreeMap.ofList [(str "sha256", wheel)]

def generation : ProjectGeneration where
  generation := 1
  source := str "mirror"
  url := str "https://pypi.example/simple/app/"
  format := str "json"
  etag := none
  lastModified := none
  lastSerial := none
  fetchedAtUnix := 0
  bytes := 0
  files := 1
  versions := []
  projectStatus := none
  projectStatusReason := none

def json : AdminJson where
  statusRecord _ _ := []
  file _ := str "file"
  projectState _ := str "state"
  readProjectState raw :=
    if raw = str "state" then some { active := some generation, nextGeneration := 1 } else none
  readFile raw := if raw = str "file" then some listed else none
  catalogState _ := []
  readCatalogState _ := none
  header _ := str "header"
  readHeader raw := if raw = str "header" then some ⟨none, none, 0, none, none⟩ else none
  readPlain _ := none
  overlay _ := []
  readOverlay _ := none
  readStatusRecord _ := none
  uploaded _ := []
  readUploaded _ := none
  journalEntry _ := []
  parseDetail body :=
    if body = str "page" then some { name := str "app", files := [listed] } else none

/-- The page of one index and the published generation of another list one wheel. -/
def rows : Rows := Std.ExtTreeMap.ofList [
  (indexKey (str "pypi/app"), str "peryx1\nheader\npage"),
  (fileKey wheel, fileSourceValue listed.url (str "pypi") none none),
  (projectMetaKey (str "mirror") (str "app"), str "state"),
  (projectFileKey (str "mirror") (str "app") 1 listed.filename, str "file")]

theorem generationNames : GenerationNames json rows wheel := by
  refine ⟨str "mirror", str "app", { active := some generation, nextGeneration := 1 }, generation,
    projectFileKey (str "mirror") (str "app") 1 listed.filename, str "file", listed, ?_, rfl, ?_,
    ?_, ?_, ?_⟩
  · decide +kernel
  · exact List.prefix_append _ _
  · decide +kernel
  · rfl
  · decide +kernel

theorem source_purged : (rowsAfterPurge json CaseMap.caseless rows (str "pypi") (str "app") true)[
    fileKey wheel]? = none := by
  decide +kernel

/-- Purging the page takes the wheel's source from the generation. -/
theorem purge_takes_source : ¬ KeepsReferenced json rows
    (rowsAfterPurge json CaseMap.caseless rows (str "pypi") (str "app") true)
    (projectSuffix (str "pypi") (normalizeName CaseMap.caseless (str "app"))) := by
  intro hkeeps
  have hkept := hkeeps wheel (.inr (.inr generationNames)) (fileKey wheel) (by simp [artifactKeys])
    (by decide +kernel)
  rw [source_purged] at hkept
  cases hkept

end SharedWheel
end Peryx.Operator
