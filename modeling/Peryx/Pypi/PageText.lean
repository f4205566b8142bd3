import Peryx.Pypi.PageRows
import Peryx.Pypi.UploadText

/-!
# Page and generation records as serde_json writes them (store/record.rs, store/projects.rs)

The texts of the records behind the page, status and generation rows, member by member in
the order of the source.
-/

namespace Peryx.Pypi
open Storage

/-- What is read back of a written publication state, and of a written file. -/
structure GenerationJson.Faithful (json : GenerationJson) : Prop where
  projectState : ∀ state, json.readProjectState (json.projectState state) = some state
  catalogState : ∀ state, json.readCatalogState (json.catalogState state) = some state
  file : ∀ file, json.readFile (json.file file) = some (file.setMetadata file.metadata)

namespace PageText
open Codec UploadText

variable {α : Type}

def nullable (codec : Codec α) (h : ∀ a rest, Str.stripPrefix (codec.write a ++ rest) (str "null") = none) :
    Codec (Option α) :=
  map (sum (close (str "null")) codec (fun _ _ => trivial) fun a rest => by
      show (Str.stripPrefix _ _).map _ = none
      rw [h]
      rfl)
    (fun
      | none => .inl ()
      | some a => .inr a)
    (Sum.elim (fun _ => none) some) (by rintro (_ | a) <;> rfl)

theorem nat_not_null (n : Nat) (rest : Str) :
    Str.stripPrefix (nat.write n ++ rest) (str "null") = none := by
  obtain ⟨hne, hdigits⟩ := Str.decimal_digits n
  have hwrite : nat.write n = Str.decimal n := rfl
  rw [hwrite]
  cases hdecimal : Str.decimal n with
  | nil => exact absurd hdecimal hne
  | cons digit digits =>
    have hdigit := hdigits digit (hdecimal ▸ List.mem_cons_self)
    refine Option.eq_none_iff_forall_ne_some.mpr fun tail htail => ?_
    have heq := (Str.stripPrefix_eq_some _ _ _).mp htail
    rw [List.cons_append] at heq
    have hhead : digit = 0x6E := (List.cons.inj heq).1
    rw [hhead] at hdigit
    exact absurd hdigit.2 (by decide)

theorem int_not_null (value : Int) (rest : Str) :
    Str.stripPrefix (int.write value ++ rest) (str "null") = none := by
  cases value with
  | ofNat n => exact nat_not_null n rest
  | negSucc n => rfl

def text : Codec (Option Str) := nullable string fun _ _ => rfl

def number : Codec (Option Nat) := nullable nat nat_not_null

def signed : Codec (Option Int) := nullable int int_not_null

theorem comma_long : 0 < (str ",").length := by decide

def texts : Codec (List Str) :=
  items string (str "[") (str ",") (str "]") (fun _ => trivial) (fun _ => rfl) comma_long
    fun _ _ => rfl

def header : Codec RecordHeader :=
  map (field (str "\x7b\"etag\":") text
    (field (str ",\"last_serial\":") number
    (field (str ",\"fetched_at_unix\":") int
    (field (str ",\"content_type\":") text
    (field (str ",\"fresh_secs\":") signed (close (str "\x7d"))
    (fun _ _ => rfl)) (fun _ _ => trivial)) (fun _ _ => rfl)) (fun _ _ => rfl)) (fun _ _ => trivial))
    (fun h => (h.etag, h.lastSerial, h.fetchedAtUnix, h.contentType, h.freshSecs, ()))
    (fun (etag, lastSerial, fetchedAtUnix, contentType, freshSecs, ()) =>
      ⟨etag, lastSerial, fetchedAtUnix, contentType, freshSecs⟩) fun _ => rfl

def overlay : Codec FreshnessOverlay :=
  map (field (str "\x7b\"fetched_at_unix\":") int
    (field (str ",\"fresh_secs\":") signed (close (str "\x7d")) (fun _ _ => rfl)) (fun _ _ => rfl))
    (fun o => (o.fetchedAtUnix, o.freshSecs, ()))
    (fun (fetchedAtUnix, freshSecs, ()) => ⟨fetchedAtUnix, freshSecs⟩) fun _ => rfl

def status : Codec ProjectStatusRecord :=
  map (field (str "\x7b\"status\":") text
    (field (str ",\"reason\":") text (close (str "\x7d")) (fun _ _ => trivial)) (fun _ _ => trivial))
    (fun record => (record.status, record.reason, ()))
    (fun (status, reason, ()) => ⟨status, reason⟩) fun _ => rfl

def catalogGeneration : Codec CatalogGeneration :=
  map (field (str "\x7b\"generation\":") nat
    (field (str ",\"source\":") string
    (field (str ",\"url\":") string
    (field (str ",\"format\":") string
    (field (str ",\"etag\":") text
    (field (str ",\"last_modified\":") text
    (field (str ",\"last_serial\":") number
    (field (str ",\"fetched_at_unix\":") int
    (field (str ",\"bytes\":") nat
    (field (str ",\"projects\":") nat (close (str "\x7d"))
    (fun _ _ => rfl)) (fun _ _ => rfl)) (fun _ _ => rfl)) (fun _ _ => rfl)) (fun _ _ => trivial))
    (fun _ _ => trivial)) (fun _ _ => trivial)) (fun _ _ => trivial)) (fun _ _ => trivial))
    (fun _ _ => rfl))
    (fun g => (g.generation, g.source, g.url, g.format, g.etag, g.lastModified, g.lastSerial,
      g.fetchedAtUnix, g.bytes, g.projects, ()))
    (fun (generation, source, url, format, etag, lastModified, lastSerial, fetchedAtUnix, bytes,
        projects, ()) =>
      ⟨generation, source, url, format, etag, lastModified, lastSerial, fetchedAtUnix, bytes, projects⟩)
    fun _ => rfl

def projectGeneration : Codec ProjectGeneration :=
  map (field (str "\x7b\"generation\":") nat
    (field (str ",\"source\":") string
    (field (str ",\"url\":") string
    (field (str ",\"format\":") string
    (field (str ",\"etag\":") text
    (field (str ",\"last_modified\":") text
    (field (str ",\"last_serial\":") number
    (field (str ",\"fetched_at_unix\":") int
    (field (str ",\"bytes\":") nat
    (field (str ",\"files\":") nat
    (field (str ",\"versions\":") texts
    (field (str ",\"project_status\":") text
    (field (str ",\"project_status_reason\":") text (close (str "\x7d"))
    (fun _ _ => trivial)) (fun _ _ => trivial)) (fun _ _ => trivial)) (fun _ _ => rfl))
    (fun _ _ => rfl)) (fun _ _ => rfl)) (fun _ _ => rfl)) (fun _ _ => trivial))
    (fun _ _ => trivial)) (fun _ _ => trivial)) (fun _ _ => trivial)) (fun _ _ => trivial))
    (fun _ _ => rfl))
    (fun g => (g.generation, g.source, g.url, g.format, g.etag, g.lastModified, g.lastSerial,
      g.fetchedAtUnix, g.bytes, g.files, g.versions, g.projectStatus, g.projectStatusReason, ()))
    (fun (generation, source, url, format, etag, lastModified, lastSerial, fetchedAtUnix, bytes,
        files, versions, projectStatus, projectStatusReason, ()) =>
      ⟨generation, source, url, format, etag, lastModified, lastSerial, fetchedAtUnix, bytes, files,
        versions, projectStatus, projectStatusReason⟩)
    fun _ => rfl

def publication {A : Type} (active : Codec (Option A)) (h : ∀ rest, active.Follows rest) :
    Codec (Publication A) :=
  map (field (str "\x7b\"active\":") active
    (field (str ",\"staging\":") number
    (field (str ",\"retired\":") number
    (field (str ",\"next_generation\":") nat (close (str "\x7d"))
    (fun _ _ => rfl)) (fun _ _ => rfl)) (fun _ _ => rfl)) (fun _ _ => h _))
    (fun state => (state.active, state.staging, state.retired, state.nextGeneration, ()))
    (fun (active, staging, retired, nextGeneration, ()) => ⟨active, staging, retired, nextGeneration⟩)
    fun _ => rfl

def catalogStateText : Codec CatalogState :=
  publication (nullable catalogGeneration fun _ _ => rfl) fun _ => trivial

def projectStateText : Codec (Publication ProjectGeneration) :=
  publication (nullable projectGeneration fun _ _ => rfl) fun _ => trivial

/-- `serde_json` on the records of these rows. -/
def json : PageJson where
  statusRecord statusText reason := status.write ⟨statusText, reason⟩
  file f := file.write (fileMembers f)
  projectState state := projectStateText.write state.publication
  readProjectState raw := (projectStateText.readAll raw).map Publication.projectMetaState
  readFile raw := (file.readAll raw).map ofFileMembers
  catalogState := catalogStateText.write
  readCatalogState := catalogStateText.readAll
  header := header.write
  readHeader := header.readAll
  readPlain _ := none
  overlay := overlay.write
  readOverlay := overlay.readAll
  readStatusRecord := status.readAll

theorem json_faithful : json.toGenerationJson.Faithful where
  projectState state := by
    have hround := readAll_write projectStateText state.publication trivial
    show (projectStateText.readAll (projectStateText.write _)).map _ = _
    rw [hround]
    rfl
  catalogState state := readAll_write catalogStateText state trivial
  file f := by
    have hround := readAll_write file (fileMembers f) trivial
    show (file.readAll (file.write _)).map _ = _
    rw [hround, Option.map_some, ofFileMembers_members]

end PageText
end Peryx.Pypi
