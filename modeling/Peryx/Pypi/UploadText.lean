import Peryx.Library.TextCodec
import Peryx.Pypi.HostedMutations

/-!
# Upload records as serde_json writes them (simple/file.rs, upload.rs, store/journal.rs)

The texts of the records on hosted rows, member by member in the order of the source, and
a reader of exactly these texts.
-/

namespace Peryx.Pypi
open Storage

namespace UploadText
open Codec

def bool : Codec Bool :=
  map (sum (close (str "false")) (close (str "true")) (fun _ _ => trivial) fun _ rest => rfl)
    (fun value => if value then .inr () else .inl ()) (Sum.elim (fun _ => false) fun _ => true)
    (by decide)

def yanked : Codec Yanked :=
  map (sum bool string (fun _ _ => trivial) fun _ rest => rfl)
    (fun
      | .no => .inl false
      | .yes => .inl true
      | .reason text => .inr text)
    (Sum.elim (fun value => if value then .yes else .no) .reason)
    (by rintro (_ | _ | text) <;> rfl)

def hash : Codec (Str × Str) :=
  map (field [] string (field (str ":") string (close []) fun _ _ => trivial) fun _ _ => trivial)
    (fun pair => (pair.1, pair.2, ())) (fun triple => (triple.1, triple.2.1)) fun _ => rfl

theorem ofList_toList (table : Hashes) : Std.ExtTreeMap.ofList table.toList = table := by
  apply Std.ExtTreeMap.ext_getElem?
  intro key
  cases hrow : table[key]? with
  | some value =>
    exact Std.ExtTreeMap.getElem?_ofList_of_mem Std.ReflCmp.compare_self table.distinct_keys_toList
      (Std.ExtTreeMap.mem_toList_iff_getElem?_eq_some.mpr hrow)
  | none =>
    refine Std.ExtTreeMap.getElem?_ofList_of_contains_eq_false ?_
    refine Bool.eq_false_iff.mpr fun hcontains => ?_
    obtain ⟨row, hmem, rfl⟩ := List.mem_map.mp (List.contains_iff_mem.mp hcontains)
    rw [Std.ExtTreeMap.mem_toList_iff_getElem?_eq_some.mp hmem] at hrow
    cases hrow

def hashList : Codec (List (Str × Str)) :=
  items hash (str "\x7b") (str ",") (str "\x7d") (fun _ => trivial) (fun _ => rfl) (by decide)
    fun _ _ => rfl

def hashes : Codec Hashes :=
  map hashList (fun table => table.toList) (fun list => Std.ExtTreeMap.ofList list) ofList_toList

theorem bool_hashes (table : Hashes) (rest : Str) : bool.read (hashes.write table ++ rest) = none := by
  show bool.read (hashList.write table.toList ++ rest) = none
  cases table.toList <;> rfl

def coreMetadata : Codec CoreMetadata :=
  map (sum bool hashes (fun _ _ => trivial) bool_hashes)
    (fun
      | .absent => .inl false
      | .available => .inl true
      | .hashes table => .inr table)
    (Sum.elim (fun value => if value then .available else .absent) .hashes)
    (by rintro (_ | _ | table) <;> rfl)

theorem null_follows (rest : Str) (_h : string.Follows rest) :
    (close (str "null")).Follows rest := trivial

theorem string_not_null (text rest : Str) :
    (close (str "null")).read (string.write text ++ rest) = none := rfl

theorem null_or_string (value : Option Str) :
    Sum.elim (fun _ : Unit => none) some (match value with
      | none => .inl ()
      | some url => .inr url) = value := by
  cases value <;> rfl

def provenance : Codec (Option Str) :=
  map (sum (close (str "null")) string null_follows string_not_null)
    (fun
      | none => .inl ()
      | some url => .inr url)
    (Sum.elim (fun _ => none) some) null_or_string

abbrev FileMembers := Str × Str × Hashes × Option Str × Option Nat × Option Str × Yanked ×
  CoreMetadata × Option CoreMetadata × Option Bool × Option (Option Str) × Unit

def file : Codec FileMembers :=
  field (str "\x7b\"filename\":") string
  (field (str ",\"url\":") string
  (field (str ",\"hashes\":") hashes
  (optional (str ",\"requires-python\":") string
  (optional (str ",\"size\":") nat
  (optional (str ",\"upload-time\":") string
  (field (str ",\"yanked\":") yanked
  (field (str ",\"core-metadata\":") coreMetadata
  (optional (str ",\"dist-info-metadata\":") coreMetadata
  (optional (str ",\"gpg-sig\":") bool
  (optional (str ",\"provenance\":") provenance (close (str "\x7d"))
    (fun _ _ => trivial) (fun _ _ => rfl))
    (fun _ _ => trivial) (by rintro ⟨_ | _, _⟩ rest <;> rfl))
    (fun _ _ => trivial) (by rintro ⟨_ | _, _ | _, _⟩ rest <;> rfl))
    (fun _ _ => trivial))
    (fun _ _ => trivial))
    (fun _ _ => trivial) (fun _ _ => rfl))
    (by rintro ⟨_ | _, _⟩ rest <;> rfl) (by rintro ⟨_ | _, _⟩ rest <;> rfl))
    (fun _ _ => trivial) (by rintro ⟨_ | _, _ | _, _⟩ rest <;> rfl))
    (fun _ _ => trivial))
    (fun _ _ => trivial))
    (fun _ _ => trivial)

def fileMembers (file : File) : FileMembers :=
  (file.filename, file.url, file.hashes, file.requiresPython, file.size, file.uploadTime, file.yanked,
    file.metadata, if file.metadata.isAbsent then none else some file.metadata, file.gpgSig,
    (match file.provenance with
      | .absent => none
      | .null => some none
      | .url url => some (some url)), ())

def ofFileMembers : FileMembers → File
  | (filename, url, hashes, requiresPython, size, uploadTime, yanked, core, distInfo, gpgSig,
      provenance, ()) =>
    { filename, url, hashes, requiresPython, size, uploadTime, yanked, gpgSig
      coreMetadata := core
      distInfoMetadata := distInfo.getD .absent
      provenance := match provenance with
        | none => .absent
        | some none => .null
        | some (some url) => .url url }

theorem ofFileMembers_members (file : File) :
    ofFileMembers (fileMembers file) = file.setMetadata file.metadata := by
  obtain ⟨filename, url, hashes, requiresPython, size, uploadTime, yanked, core, distInfo, gpgSig,
    provenance⟩ := file
  cases core <;> cases distInfo <;> cases provenance <;> rfl

def trash : Codec TrashInfo :=
  map (field (str "\x7b\"deleted_at_unix\":") int
    (optional (str ",\"actor\":") string
    (optional (str ",\"reason\":") string (close (str "\x7d")) (fun _ _ => trivial) (fun _ _ => rfl))
    (fun _ _ => trivial) (by rintro ⟨_ | _, _⟩ rest <;> rfl))
    (by rintro ⟨_ | _, _ | _, _⟩ rest <;> rfl))
    (fun info => (info.deletedAtUnix, info.actor, info.reason, ()))
    (fun (deletedAtUnix, actor, reason, ()) => ⟨deletedAtUnix, actor, reason⟩) fun _ => rfl

def uploaded : Codec (Str × FileMembers × Option TrashInfo × Unit) :=
  field (str "\x7b\"version\":") string
  (field (str ",\"file\":") file
  (optional (str ",\"trashed\":") trash (close (str "\x7d")) (fun _ _ => trivial) (fun _ _ => rfl))
    (fun _ _ => trivial))
    (fun _ _ => trivial)

def journalEntry (entry : JournalEntry) : Bytes :=
  str "\x7b\"serial\":" ++ nat.write entry.serial ++
    str ",\"submitted_at_unix\":" ++ int.write entry.submittedAtUnix ++
    str ",\"action\":" ++ string.write entry.action ++
    str ",\"project\":" ++ string.write entry.project ++
    str ",\"version\":" ++ entry.version.elim (str "null") string.write ++
    str ",\"filename\":" ++ entry.filename.elim (str "null") string.write ++ str "\x7d"

def journal : Codec (Nat × Int × Str × Str × Option Str × Option Str × Unit) :=
  field (str "\x7b\"serial\":") nat
  (field (str ",\"submitted_at_unix\":") int
  (field (str ",\"action\":") string
  (field (str ",\"project\":") string
  (field (str ",\"version\":") provenance
  (field (str ",\"filename\":") provenance (close (str "\x7d"))
    (fun _ _ => trivial))
    (fun _ _ => trivial))
    (fun _ _ => trivial))
    (fun _ _ => trivial))
    (fun _ _ => rfl))
    (fun _ _ => rfl)

/-- A journal entry as `serde_json` reads it back. -/
def readJournalEntry (text : Bytes) : Option JournalEntry :=
  (journal.readAll text).map
    fun (serial, submittedAtUnix, action, project, version, filename, ()) =>
      { serial, submittedAtUnix, action, project, version, filename }

theorem readJournalEntry_write (entry : JournalEntry) :
    readJournalEntry (journalEntry entry) = some entry := by
  have hround := readAll_write journal (entry.serial, entry.submittedAtUnix, entry.action,
    entry.project, entry.version, entry.filename, ()) trivial
  have hwrite : journal.write (entry.serial, entry.submittedAtUnix, entry.action, entry.project,
      entry.version, entry.filename, ()) = journalEntry entry := by
    unfold journalEntry
    simp only [List.append_assoc]
    obtain ⟨serial, submittedAtUnix, action, project, version, filename⟩ := entry
    cases version <;> cases filename <;> rfl
  unfold readJournalEntry
  rw [← hwrite, hround]
  rfl

/-- `serde_json` on upload records. -/
def json : UploadJson where
  uploaded record := uploaded.write (record.version, fileMembers record.file, record.trashed, ())
  readUploaded text := (uploaded.readAll text).map fun (version, members, trashed, ()) =>
    { version, file := ofFileMembers members, trashed }
  journalEntry := journalEntry

def recordVersion (text : Bytes) : Option Str := (uploaded.readAll text).map Prod.fst

theorem json_faithful : json.Faithful where
  read record := by
    have hround := readAll_write uploaded
      (record.version, fileMembers record.file, record.trashed, ()) trivial
    show ((uploaded.readAll (uploaded.write _)).map _) = _
    rw [hround, Option.map_some]
    dsimp only
    rw [ofFileMembers_members]

end UploadText
end Peryx.Pypi
