import Mathlib.Data.List.Nodup
import Peryx.Core.Replace
import Peryx.Library.Html
import Peryx.Pypi.Simple

/-!
# Pages as HTML (simple/render.rs)

What each piece of the source pushes to the page, and the tags that the page has then: the
anchor of a file has an attribute for each field that is there, and its value escaped.
-/

namespace Peryx.Pypi

inductive Escape where
  | text
  | attr
  deriving DecidableEq

def escapeByte (escape : Escape) (byte : UInt8) : Str :=
  if byte = 0x26 then str "&amp;"
  else if byte = 0x3C then str "&lt;"
  else if byte = 0x3E then str "&gt;"
  else if byte = 0x22 ∧ escape = .attr then str "&quot;"
  else [byte]

def pushEscaped (text : Str) (escape : Escape) : Str := text.flatMap (escapeByte escape)

def pushAttr (opening value : Str) : Str := opening ++ pushEscaped value .attr ++ str "\""

def pushMeta (opening value : Str) : Str := pushAttr opening value ++ str ">\n"

def displayBool (value : Bool) : Str := if value then str "true" else str "false"

def File.linkedHash (file : File) : Option (Str × Str) :=
  match file.sha256 with
  | some sha256 => some (str "sha256", sha256)
  | none => file.hashes.toList.head?

def pushCoreMetadataAttr : CoreMetadata → Str
  | .absent => []
  | .available => str " data-core-metadata=\"true\" data-dist-info-metadata=\"true\""
  | .hashes hashes =>
    match hashes[str "sha256"]? with
    | some sha256 =>
      str " data-core-metadata=\"sha256=" ++ sha256 ++ str "\" data-dist-info-metadata=\"sha256=" ++
        sha256 ++ str "\""
    | none => str " data-core-metadata=\"true\" data-dist-info-metadata=\"true\""

def pushFile (file : File) : Str :=
  str "    <a href=\"" ++ pushEscaped file.url .attr ++
    (match file.linkedHash with
      | some (algo, hash) => str "#" ++ algo ++ str "=" ++ hash
      | none => []) ++
    str "\"" ++
    (match file.requiresPython with
      | some requiresPython => pushAttr (str " data-requires-python=\"") requiresPython
      | none => []) ++
    (match file.gpgSig with
      | some gpgSig => str " data-gpg-sig=\"" ++ displayBool gpgSig ++ str "\""
      | none => []) ++
    (match file.yanked with
      | .no => []
      | .yes => str " data-yanked=\"\""
      | .reason reason => pushAttr (str " data-yanked=\"") reason) ++
    (match file.provenance with
      | .url url => pushAttr (str " data-provenance=\"") url
      | .absent | .null => []) ++
    pushCoreMetadataAttr file.metadata ++ str ">" ++ pushEscaped file.filename .text ++
    str "</a><br />\n"

def pushHead (title : Str) (info : Meta) : Str :=
  str "<!DOCTYPE html>\n<html>\n  <head>\n" ++
    pushMeta (str "    <meta name=\"pypi:repository-version\" content=\"") info.apiVersion ++
    info.projectStatus.elim [] (pushMeta (str "    <meta name=\"pypi:project-status\" content=\"")) ++
    info.projectStatusReason.elim []
      (pushMeta (str "    <meta name=\"pypi:project-status-reason\" content=\"")) ++
    str "    <title>" ++ pushEscaped title .text ++ str "</title>\n" ++ str "  </head>\n  <body>\n"

def pushTail : Str := str "  </body>\n</html>\n"

def renderDetailHtml (detail : ProjectDetail) : Str :=
  pushHead (str "Links for " ++ detail.name) detail.info ++ detail.files.flatMap pushFile ++ pushTail

theorem pushEscaped_append (text more : Str) (escape : Escape) :
    pushEscaped (text ++ more) escape = pushEscaped text escape ++ pushEscaped more escape :=
  List.flatMap_append

theorem not_mem_pushEscaped (text : Str) (escape : Escape) :
    0x3C ∉ pushEscaped text escape ∧ (escape = .attr → 0x22 ∉ pushEscaped text escape) := by
  have hbyte : ∀ byte, 0x3C ∉ escapeByte escape byte ∧
      (escape = .attr → 0x22 ∉ escapeByte escape byte) := by
    intro byte
    unfold escapeByte
    split
    · exact ⟨by decide, fun _ => by decide⟩
    · split
      · exact ⟨by decide, fun _ => by decide⟩
      · rename_i hopen
        split
        · exact ⟨by decide, fun _ => by decide⟩
        · split
          · exact ⟨by decide, fun _ => by decide⟩
          · rename_i hquote
            constructor
            · exact fun hmem => hopen (List.mem_singleton.mp hmem).symm
            · exact fun hattr hmem => hquote ⟨(List.mem_singleton.mp hmem).symm, hattr⟩
  unfold pushEscaped
  constructor
  · intro hmem
    obtain ⟨byte, -, hin⟩ := List.mem_flatMap.mp hmem
    exact (hbyte byte).1 hin
  · intro hattr hmem
    obtain ⟨byte, -, hin⟩ := List.mem_flatMap.mp hmem
    exact (hbyte byte).2 hattr hin

def NeedsNoEscape (text : Str) : Prop := pushEscaped text .attr = text

instance : DecidablePred NeedsNoEscape := fun _ => inferInstanceAs (Decidable (_ = _))

theorem needsNoEscape_append {text more : Str} (h : NeedsNoEscape text) (hmore : NeedsNoEscape more) :
    NeedsNoEscape (text ++ more) := by
  unfold NeedsNoEscape at *
  rw [pushEscaped_append, h, hmore]

def File.link (file : File) : Str :=
  file.url ++ file.linkedHash.elim [] fun pair => str "#" ++ pair.1 ++ str "=" ++ pair.2

def Yanked.attribute : Yanked → Option Str
  | .no => none
  | .yes => some []
  | .reason text => some text

def Provenance.attribute : Provenance → Option Str
  | .url link => some link
  | .absent | .null => none

def CoreMetadata.attribute : CoreMetadata → Option Str
  | .absent => none
  | .available => some (str "true")
  | .hashes table =>
    some (table[str "sha256"]?.elim (str "true") fun sha256 => str "sha256=" ++ sha256)

def File.attributes (file : File) : List (Str × Str) :=
  [(str "href", file.link)] ++
    (file.requiresPython.map fun value => (str "data-requires-python", value)).toList ++
    (file.gpgSig.map fun value => (str "data-gpg-sig", displayBool value)).toList ++
    (file.yanked.attribute.map fun value => (str "data-yanked", value)).toList ++
    (file.provenance.attribute.map fun value => (str "data-provenance", value)).toList ++
    (file.metadata.attribute.map fun value => (str "data-core-metadata", value)).toList ++
    (file.metadata.attribute.map fun value => (str "data-dist-info-metadata", value)).toList

def escapeValue (pair : Str × Str) : Str × Str := (pair.1, pushEscaped pair.2 .attr)

def File.tags (file : File) : List Html.Tag :=
  [.start (str "a") (file.attributes.map escapeValue) false, .stop (str "a"),
    .start (str "br") [] true]

def metaTag (name value : Str) : Html.Tag :=
  .start (str "meta") [(str "name", name), (str "content", pushEscaped value .attr)] false

def Meta.tags (info : Meta) : List Html.Tag :=
  [metaTag (str "pypi:repository-version") info.apiVersion] ++
    (info.projectStatus.map fun value => metaTag (str "pypi:project-status") value).toList ++
    (info.projectStatusReason.map fun value =>
      metaTag (str "pypi:project-status-reason") value).toList

def ProjectDetail.tags (detail : ProjectDetail) : List Html.Tag :=
  [.declaration (str "DOCTYPE html"), .start (str "html") [] false, .start (str "head") [] false] ++
    detail.info.tags ++
    [.start (str "title") [] false, .stop (str "title"), .stop (str "head"),
      .start (str "body") [] false] ++
    detail.files.flatMap File.tags ++ [.stop (str "body"), .stop (str "html")]

/-- The digests that are written as they are would not be changed by escaping. -/
structure File.PlainDigests (file : File) : Prop where
  hash : ∀ pair ∈ file.linkedHash, NeedsNoEscape pair.1 ∧ NeedsNoEscape pair.2
  metadata : ∀ hashes, file.metadata = .hashes hashes → ∀ sha256 ∈ hashes[str "sha256"]?,
    NeedsNoEscape sha256

section Tags

theorem pushAttr_attribute (opening key value : Str) (h : opening = 0x20 :: key ++ [0x3D, 0x22]) :
    pushAttr opening value = Html.writeAttribute (escapeValue (key, value)) := by
  have hquote : str "\"" = [0x22] := by decide
  unfold pushAttr Html.writeAttribute escapeValue
  rw [h, hquote]

theorem pushMeta_tag (opening name value : Str)
    (h : opening = str "    " ++ 0x3C :: str "meta" ++ Html.writeAttribute (str "name", name) ++
      0x20 :: str "content" ++ [0x3D, 0x22]) :
    pushMeta opening value = str "    " ++ Html.startTag (str "meta")
      [(str "name", name), (str "content", pushEscaped value .attr)] ++ str "\n" := by
  have hquote : str "\"" = [0x22] := by decide
  have hend : str ">\n" = 0x3E :: str "\n" := by decide
  unfold pushMeta pushAttr Html.startTag
  rw [h, hquote, hend]
  simp [Html.writeAttribute]

variable (file : File)

def written (attributes : List (Str × Str)) : Str :=
  (attributes.map escapeValue).flatMap Html.writeAttribute

theorem written_append (attributes more : List (Str × Str)) :
    written (attributes ++ more) = written attributes ++ written more := by
  unfold written
  rw [List.map_append, List.flatMap_append]

theorem written_single (pair : Str × Str) :
    written [pair] = Html.writeAttribute (escapeValue pair) := by
  unfold written
  rw [List.map_singleton, List.flatMap_singleton]

theorem href_written (h : file.PlainDigests) :
    str "    <a href=\"" ++ pushEscaped file.url .attr ++
      (match file.linkedHash with
        | some (algo, hash) => str "#" ++ algo ++ str "=" ++ hash
        | none => []) ++ str "\"" =
      str "    " ++ 0x3C :: str "a" ++ written [(str "href", file.link)] := by
  have hopen : str "    <a href=\"" =
      str "    " ++ 0x3C :: str "a" ++ 0x20 :: str "href" ++ [0x3D, 0x22] := by decide
  have hquote : str "\"" = [0x22] := by decide
  have hfragment : (match file.linkedHash with
      | some (algo, hash) => str "#" ++ algo ++ str "=" ++ hash
      | none => []) =
      pushEscaped (file.linkedHash.elim [] fun pair => str "#" ++ pair.1 ++ str "=" ++ pair.2) .attr := by
    cases hlinked : file.linkedHash with
    | none => rfl
    | some pair =>
      have hplain := h.hash pair hlinked
      have hsign : NeedsNoEscape (str "#") ∧ NeedsNoEscape (str "=") := by decide
      exact (needsNoEscape_append (needsNoEscape_append (needsNoEscape_append hsign.1 hplain.1)
        hsign.2) hplain.2).symm
  rw [hopen, hquote, hfragment, written_single]
  unfold Html.writeAttribute escapeValue File.link
  rw [pushEscaped_append]
  simp only [List.append_assoc, List.cons_append, List.nil_append]

theorem requiresPython_written :
    (match file.requiresPython with
      | some requiresPython => pushAttr (str " data-requires-python=\"") requiresPython
      | none => []) =
      written (file.requiresPython.map fun value => (str "data-requires-python", value)).toList := by
  cases file.requiresPython with
  | none => rfl
  | some value =>
    exact (pushAttr_attribute _ (str "data-requires-python") value (by decide)).trans
      (written_single _).symm

theorem gpgSig_written :
    (match file.gpgSig with
      | some gpgSig => str " data-gpg-sig=\"" ++ displayBool gpgSig ++ str "\""
      | none => []) =
      written (file.gpgSig.map fun value => (str "data-gpg-sig", displayBool value)).toList := by
  cases file.gpgSig with
  | none => rfl
  | some value => cases value <;> decide

theorem yanked_written :
    (match file.yanked with
      | .no => []
      | .yes => str " data-yanked=\"\""
      | .reason reason => pushAttr (str " data-yanked=\"") reason) =
      written (file.yanked.attribute.map fun value => (str "data-yanked", value)).toList := by
  cases file.yanked with
  | no => rfl
  | yes => decide
  | reason reason =>
    exact (pushAttr_attribute _ (str "data-yanked") reason (by decide)).trans (written_single _).symm

theorem provenance_written :
    (match file.provenance with
      | .url url => pushAttr (str " data-provenance=\"") url
      | .absent | .null => []) =
      written (file.provenance.attribute.map fun value => (str "data-provenance", value)).toList := by
  cases file.provenance with
  | absent => rfl
  | null => rfl
  | url url =>
    exact (pushAttr_attribute _ (str "data-provenance") url (by decide)).trans (written_single _).symm

def metadataAttributes (metadata : CoreMetadata) : List (Str × Str) :=
  (metadata.attribute.map fun value => (str "data-core-metadata", value)).toList ++
    (metadata.attribute.map fun value => (str "data-dist-info-metadata", value)).toList

theorem metadata_written (metadata : CoreMetadata)
    (h : ∀ hashes, metadata = .hashes hashes → ∀ sha256 ∈ hashes[str "sha256"]?, NeedsNoEscape sha256) :
    pushCoreMetadataAttr metadata = written (metadataAttributes metadata) := by
  cases metadata with
  | absent => rfl
  | available => decide
  | hashes hashes =>
    unfold pushCoreMetadataAttr metadataAttributes CoreMetadata.attribute
    cases hdigest : hashes[str "sha256"]? with
    | none =>
      simp only [hdigest]
      decide
    | some sha256 =>
      have hsign : NeedsNoEscape (str "sha256=") := by decide
      have hplain : pushEscaped (str "sha256=" ++ sha256) .attr = str "sha256=" ++ sha256 :=
        needsNoEscape_append hsign (h hashes rfl sha256 hdigest)
      have hcore : str " data-core-metadata=\"sha256=" =
          0x20 :: str "data-core-metadata" ++ [0x3D, 0x22] ++ str "sha256=" := by decide
      have hinfo : str "\" data-dist-info-metadata=\"sha256=" =
          [0x22] ++ (0x20 :: str "data-dist-info-metadata" ++ [0x3D, 0x22] ++ str "sha256=") := by decide
      have hquote : str "\"" = [0x22] := by decide
      simp only [hdigest, Option.elim_some, Option.map_some, Option.toList_some]
      rw [written_append, written_single, written_single, hcore, hinfo, hquote]
      unfold Html.writeAttribute escapeValue
      rw [hplain]
      simp only [List.append_assoc, List.cons_append, List.nil_append]

theorem pushFile_eq (h : file.PlainDigests) :
    pushFile file = str "    " ++ Html.startTag (str "a") (file.attributes.map escapeValue) ++
      pushEscaped file.filename .text ++ Html.stopTag (str "a") ++ Html.emptyTag (str "br") ++
      str "\n" := by
  have hend : str "</a><br />\n" =
      Html.stopTag (str "a") ++ Html.emptyTag (str "br") ++ str "\n" := by decide
  have hclose : str ">" = [0x3E] := by decide
  have hattributes : written file.attributes = written [(str "href", file.link)] ++
      written (file.requiresPython.map fun value => (str "data-requires-python", value)).toList ++
      written (file.gpgSig.map fun value => (str "data-gpg-sig", displayBool value)).toList ++
      written (file.yanked.attribute.map fun value => (str "data-yanked", value)).toList ++
      written (file.provenance.attribute.map fun value => (str "data-provenance", value)).toList ++
      written (metadataAttributes file.metadata) := by
    unfold File.attributes metadataAttributes
    simp only [written_append, List.append_assoc]
  unfold pushFile Html.startTag
  rw [href_written file h, requiresPython_written, gpgSig_written, yanked_written,
    provenance_written, metadata_written file.metadata h.metadata, hend, hclose]
  change _ = str "    " ++ (0x3C :: str "a" ++ written file.attributes ++ [0x3E]) ++ _ ++ _ ++ _ ++ _
  rw [hattributes]
  simp only [List.append_assoc]

def attributeNames : List Str :=
  [str "href", str "data-requires-python", str "data-gpg-sig", str "data-yanked",
    str "data-provenance", str "data-core-metadata", str "data-dist-info-metadata"]

theorem keys_optional {α : Type} (key : Str) (write : α → Str) (value : Option α) :
    ((value.map fun v => (key, write v)).toList.map (·.1)).Sublist [key] := by
  cases value with
  | none => exact List.nil_sublist _
  | some value => exact List.Sublist.refl _

theorem keys_attributes : (file.attributes.map (·.1)).Sublist attributeNames := by
  unfold File.attributes
  simp only [List.map_append]
  exact (((((((List.Sublist.refl [str "href"]).append (keys_optional _ _ _)).append
    (keys_optional _ _ _)).append (keys_optional _ _ _)).append (keys_optional _ _ _)).append
    (keys_optional _ _ _)).append (keys_optional _ _ _))

theorem map_fst_escapeValue (attributes : List (Str × Str)) :
    (attributes.map escapeValue).map (·.1) = attributes.map (·.1) := by
  rw [List.map_map]
  rfl

theorem escaped_attributes (attributes : List (Str × Str)) (keys : List Str)
    (hkeys : (attributes.map (·.1)).Sublist keys) (hnodup : keys.Nodup)
    (hnames : ∀ key ∈ keys, Html.IsName key) : Html.Attributes (attributes.map escapeValue) where
  names pair hpair := by
    have hkey := List.mem_map_of_mem (f := (·.1)) hpair
    rw [map_fst_escapeValue] at hkey
    exact hnames _ (hkeys.subset hkey)
  distinct := by
    rw [map_fst_escapeValue]
    exact hkeys.nodup hnodup
  values pair hpair := by
    obtain ⟨plain, -, rfl⟩ := List.mem_map.mp hpair
    exact (not_mem_pushEscaped plain.2 .attr).2 rfl

theorem reads_pushFile (h : file.PlainDigests) : Html.Reads (pushFile file) file.tags := by
  have hattributes : Html.Attributes (file.attributes.map escapeValue) :=
    escaped_attributes _ attributeNames (keys_attributes file) (by decide) (by decide)
  have hopen : Html.Reads (str "    " ++ Html.startTag (str "a") (file.attributes.map escapeValue))
      [.start (str "a") (file.attributes.map escapeValue) false] :=
    (Html.reads_text _ (by decide)).append (Html.reads_start _ _ (by decide) hattributes)
  have htext := Html.reads_text _ (not_mem_pushEscaped file.filename .text).1
  have hstop := Html.reads_stop (str "a") (by decide)
  have hbreak := Html.reads_empty (str "br") (by decide)
  rw [pushFile_eq file h]
  exact (((hopen.append htext).append hstop).append hbreak).append
    (Html.reads_text (str "\n") (by decide))

theorem reads_pushMeta (opening name value : Str)
    (h : opening = str "    " ++ 0x3C :: str "meta" ++ Html.writeAttribute (str "name", name) ++
      0x20 :: str "content" ++ [0x3D, 0x22]) (hname : 0x22 ∉ name) :
    Html.Reads (pushMeta opening value) [metaTag name value] := by
  have hkeys : Html.Attributes ([(str "name", name)] ++ [escapeValue (str "content", value)]) := by
    refine ⟨?_, ?_, ?_⟩
    · rw [List.singleton_append, List.forall_mem_cons, List.forall_mem_singleton]
      exact ⟨(by decide : Html.IsName (str "name")), (by decide : Html.IsName (str "content"))⟩
    · exact (by decide : [str "name", str "content"].Nodup)
    · rw [List.singleton_append, List.forall_mem_cons, List.forall_mem_singleton]
      exact ⟨hname, (not_mem_pushEscaped value .attr).2 rfl⟩
  rw [pushMeta_tag opening name value h]
  exact ((Html.reads_text (str "    ") (by decide)).append
    (Html.reads_start _ _ (by decide) hkeys)).append (Html.reads_text (str "\n") (by decide))

theorem reads_optionalMeta (opening name : Str) (value : Option Str)
    (h : opening = str "    " ++ 0x3C :: str "meta" ++ Html.writeAttribute (str "name", name) ++
      0x20 :: str "content" ++ [0x3D, 0x22]) (hname : 0x22 ∉ name) :
    Html.Reads (value.elim [] (pushMeta opening)) (value.map fun text => metaTag name text).toList := by
  cases value with
  | none => rfl
  | some text => exact reads_pushMeta opening name text h hname

theorem reads_headOpen : Html.Reads (str "<!DOCTYPE html>\n<html>\n  <head>\n")
    [.declaration (str "DOCTYPE html"), .start (str "html") [] false,
      .start (str "head") [] false] := by
  unfold Html.Reads
  decide

theorem reads_title (title : Str) :
    Html.Reads (str "    <title>" ++ pushEscaped title .text ++ str "</title>\n" ++
      str "  </head>\n  <body>\n")
      [.start (str "title") [] false, .stop (str "title"), .stop (str "head"),
        .start (str "body") [] false] := by
  have hopen : Html.Reads (str "    <title>") [.start (str "title") [] false] := by
    unfold Html.Reads
    decide
  have htext := Html.reads_text _ (not_mem_pushEscaped title .text).1
  have hend : Html.Reads (str "</title>\n") [.stop (str "title")] := by
    unfold Html.Reads
    decide
  have hbody : Html.Reads (str "  </head>\n  <body>\n")
      [.stop (str "head"), .start (str "body") [] false] := by
    unfold Html.Reads
    decide
  exact ((hopen.append htext).append hend).append hbody

theorem reads_pushHead (title : Str) (info : Meta) :
    Html.Reads (pushHead title info)
      ([.declaration (str "DOCTYPE html"), .start (str "html") [] false,
        .start (str "head") [] false] ++ info.tags ++
        [.start (str "title") [] false, .stop (str "title"), .stop (str "head"),
          .start (str "body") [] false]) := by
  have hversion := reads_pushMeta (str "    <meta name=\"pypi:repository-version\" content=\"")
    (str "pypi:repository-version") info.apiVersion (by decide) (by decide)
  have hstatus := reads_optionalMeta (str "    <meta name=\"pypi:project-status\" content=\"")
    (str "pypi:project-status") info.projectStatus (by decide) (by decide)
  have hreason := reads_optionalMeta
    (str "    <meta name=\"pypi:project-status-reason\" content=\"")
    (str "pypi:project-status-reason") info.projectStatusReason (by decide) (by decide)
  have hread := ((reads_headOpen.append ((hversion.append hstatus).append hreason)).append
    (reads_title title))
  unfold pushHead Meta.tags
  simpa only [List.append_assoc] using hread

theorem reads_renderDetailHtml (detail : ProjectDetail) (h : ∀ file ∈ detail.files, file.PlainDigests) :
    Html.Reads (renderDetailHtml detail) detail.tags := by
  have htail : Html.Reads pushTail [.stop (str "body"), .stop (str "html")] := by
    unfold Html.Reads
    decide
  exact ((reads_pushHead _ detail.info).append
    (Html.Reads.flatMap pushFile File.tags detail.files fun file hfile =>
      reads_pushFile file (h file hfile))).append htail

end Tags

structure FilePresence where
  requiresPython : Bool
  gpgSig : Bool
  yanked : Bool
  provenance : Bool
  metadata : Bool
  deriving DecidableEq

def File.presence (file : File) : FilePresence where
  requiresPython := file.requiresPython.isSome
  gpgSig := file.gpgSig.isSome
  yanked := file.yanked != .no
  provenance := file.provenance != .absent && file.provenance != .null
  metadata := !file.metadata.isAbsent

structure Presence where
  projectStatus : Bool
  projectStatusReason : Bool
  files : List FilePresence
  deriving DecidableEq

def ProjectDetail.presence (detail : ProjectDetail) : Presence where
  projectStatus := detail.info.projectStatus.isSome
  projectStatusReason := detail.info.projectStatusReason.isSome
  files := detail.files.map File.presence

def FilePresence.outline (file : FilePresence) : List Html.Tag :=
  [.start (str "a") ((attributeNames.zip [true, file.requiresPython, file.gpgSig, file.yanked,
    file.provenance, file.metadata, file.metadata]).filterMap fun (name, written) =>
      if written then some (name, []) else none) false, .stop (str "a"), .start (str "br") [] true]

def metaOutline (written : Bool) : List Html.Tag :=
  if written then [.start (str "meta") [(str "name", []), (str "content", [])] false] else []

def Presence.outline (page : Presence) : List Html.Tag :=
  [.declaration (str "DOCTYPE html"), .start (str "html") [] false, .start (str "head") [] false] ++
    metaOutline true ++ metaOutline page.projectStatus ++ metaOutline page.projectStatusReason ++
    [.start (str "title") [] false, .stop (str "title"), .stop (str "head"),
      .start (str "body") [] false] ++
    page.files.flatMap FilePresence.outline ++ [.stop (str "body"), .stop (str "html")]

theorem shape_fileTags (file : File) : file.tags.map Html.Tag.shape = file.presence.outline := by
  have hkeys : (file.attributes.map escapeValue).map (fun pair => (pair.1, ([] : Str))) =
      (file.attributes.map (·.1)).map fun key => (key, []) := by
    rw [List.map_map, List.map_map]
    rfl
  unfold File.tags FilePresence.outline
  simp only [List.map_cons, List.map_nil, Html.Tag.shape, hkeys]
  unfold File.attributes File.presence
  generalize file.metadata = metadata
  cases file.requiresPython <;> cases file.gpgSig <;> cases file.yanked <;>
    cases file.provenance <;> cases metadata <;> rfl

theorem shape_optionalMeta (name : Str) (value : Option Str) :
    (value.map fun text => metaTag name text).toList.map Html.Tag.shape =
      metaOutline value.isSome := by
  cases value with
  | none => rfl
  | some text => rfl

theorem shape_metaTags (info : Meta) : info.tags.map Html.Tag.shape = metaOutline true ++
    metaOutline info.projectStatus.isSome ++ metaOutline info.projectStatusReason.isSome := by
  unfold Meta.tags
  rw [List.map_append, List.map_append, shape_optionalMeta, shape_optionalMeta]
  rfl

theorem outline_renderDetailHtml (detail : ProjectDetail)
    (h : ∀ file ∈ detail.files, file.PlainDigests) :
    Html.outline (renderDetailHtml detail) = some detail.presence.outline := by
  have hfiles : (detail.files.flatMap File.tags).map Html.Tag.shape =
      (detail.files.map File.presence).flatMap FilePresence.outline := by
    rw [List.map_flatMap, List.flatMap_map]
    exact List.flatMap_congr fun file _ => shape_fileTags file
  rw [(reads_renderDetailHtml detail h).outline]
  unfold ProjectDetail.tags Presence.outline
  simp only [List.map_append, shape_metaTags, hfiles, List.append_assoc]
  rfl

end Peryx.Pypi
