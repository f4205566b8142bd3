import Peryx.Core.Query
import Peryx.Core.Serde
import Peryx.Pypi.RenderedPages
import Peryx.Pypi.PageJson

/-! # Reading pages of HTML (html.rs) -/

namespace Peryx.Pypi

/-! ### The crates -/

structure HtmlTag where
  name : Str
  attributes : List (Str × Option Str)
  deriving DecidableEq

/-- `tl::parse`: the tags in the order of the document, unless it is too long. -/
abbrev TagParser := Str → Option (List HtmlTag)

/-- `tl` reads a page of plain HTML, of less than four gigabytes, as it is. -/
def TagParser.Reads (tl : TagParser) : Prop :=
  ∀ page tags, page.length < 2 ^ 32 → Html.tags page = some tags →
    tl page = some ((Html.starts tags).map fun tag =>
      { name := tag.1, attributes := tag.2.map fun pair => (pair.1, some pair.2) })

structure LinkParser where
  Url : Type
  join : Url → Str → Option Url
  path : Url → Str
  fragment : Url → Option Str
  /-- `set_fragment(None)`. -/
  withoutFragment : Url → Url
  /-- `to_string`. -/
  write : Url → Str

/-! ### Texts -/

def decodeEntities (text : Str) : Str :=
  if 0x26 ∈ text then
    ((((text.replace (str "&lt;") (str "<")).replace (str "&gt;") (str ">")).replace (str "&quot;")
      (str "\"")).replace (str "&#39;") (str "'")).replace (str "&amp;") (str "&")
  else text

def percentDecode (text : Str) : Str := Query.fromUtf8Lossy (Query.percentDecode text)

def isSupportedHash (algo : Str) : Bool :=
  [str "sha512", str "sha384", str "sha256", str "sha224", str "sha1", str "md5"].contains algo

def fragmentHash (fragment : Option Str) : Hashes :=
  match fragment.map percentDecode with
  | none => ∅
  | some fragment =>
    (Str.split 0x26 fragment).foldl (fun hashes part =>
      match Str.splitOnce 0x3D part with
      | none => hashes
      | some (algo, value) =>
        if isSupportedHash algo && !value.isEmpty then hashes.insert algo value else hashes) ∅

/-! ### Tags -/

namespace HtmlTag
variable (tag : HtmlTag)

def isTag (name : Str) : Bool := Str.eqIgnoreAsciiCase tag.name name

def attrValue (name : Str) : Option Str :=
  ((tag.attributes.find? fun pair => pair.1 = name).bind (·.2)).or
    (tag.attributes.findSome? fun pair => if Str.eqIgnoreAsciiCase pair.1 name then pair.2 else none)

def attrString (name : Str) : Option Str := (tag.attrValue name).map decodeEntities

def hasAttr (name : Str) : Bool :=
  (tag.attributes.any fun pair => pair.1 = name) ||
    tag.attributes.any fun pair => Str.eqIgnoreAsciiCase pair.1 name

def parseYanked : Yanked :=
  if tag.hasAttr (str "data-yanked") then
    let reason := (tag.attrString (str "data-yanked")).getD []
    if reason = [] then .yes else .reason reason
  else .no

def parseMetadataAttr (name : Str) : CoreMetadata :=
  if tag.hasAttr name then
    let value := (tag.attrString name).getD []
    if value = str "false" then .absent
    else if value = str "true" ∨ value = [] then .available
    else
      match Str.splitOnce 0x3D value with
      | some (algo, hash) => .hashes (Std.ExtTreeMap.ofList [(algo, hash)])
      | none => .available
  else .absent

def parseGpgSig : Option Bool :=
  if tag.hasAttr (str "data-gpg-sig") then
    match tag.attrString (str "data-gpg-sig") with
    | none => some true
    | some value =>
      if Str.eqIgnoreAsciiCase value (str "false") then some false
      else if Str.eqIgnoreAsciiCase value (str "true") then some true
      else if value = [] then some true else none
  else none

end HtmlTag

/-! ### Pages -/

structure UpstreamMeta where
  apiVersion : Option Str := none
  projectStatus : Option Str := none
  projectStatusReason : Option Str := none

def UpstreamMeta.read (upstream : UpstreamMeta) (tag : HtmlTag) : UpstreamMeta :=
  match tag.attrString (str "name") with
  | none => upstream
  | some name =>
    if name = str "pypi:repository-version" then
      { upstream with apiVersion := tag.attrString (str "content") }
    else if name = str "pypi:project-status" then
      { upstream with projectStatus := tag.attrString (str "content") }
    else if name = str "pypi:project-status-reason" then
      { upstream with projectStatusReason := tag.attrString (str "content") }
    else upstream

def UpstreamMeta.build (upstream : UpstreamMeta) : Except SimpleError Meta :=
  Meta.fromUpstream upstream.apiVersion upstream.projectStatus upstream.projectStatusReason

section Reader
variable (urls : LinkParser)

def linkBase (tags : List HtmlTag) (base : urls.Url) : urls.Url :=
  let before := tags.takeWhile fun tag => !tag.isTag (str "a") && !tag.isTag (str "link")
  (((before.find? fun tag => tag.isTag (str "base")).bind fun tag => tag.attrString (str "href")).bind
    (urls.join base)).getD base

def filenameFromUrl (url : urls.Url) : Option Str :=
  let filename := (Str.split 0x2F (Str.trimEnd 0x2F (urls.path url))).getLastD []
  if filename = [] then none else some (percentDecode filename)

def anchorToFile (base : urls.Url) (tag : HtmlTag) : Option File := do
  let href ← (tag.attrString (str "href")).filter fun href => !href.isEmpty
  let resolved ← urls.join base href
  let filename ← filenameFromUrl urls resolved
  some
    { filename
      url := urls.write (urls.withoutFragment resolved)
      hashes := fragmentHash (urls.fragment resolved)
      requiresPython := tag.attrString (str "data-requires-python")
      size := (tag.attrString (str "data-size")).bind Str.parseU64
      uploadTime := tag.attrString (str "data-upload-time")
      yanked := tag.parseYanked
      coreMetadata := tag.parseMetadataAttr (str "data-core-metadata")
      distInfoMetadata := tag.parseMetadataAttr (str "data-dist-info-metadata")
      gpgSig := tag.parseGpgSig
      provenance := ((tag.attrString (str "data-provenance")).map Provenance.url).getD .absent }

def readTag (base : urls.Url) (page : UpstreamMeta × List File) (tag : HtmlTag) :
    UpstreamMeta × List File :=
  if tag.isTag (str "a") then (page.1, page.2 ++ (anchorToFile urls base tag).toList)
  else if tag.isTag (str "meta") then (page.1.read tag, page.2)
  else page

def parseDetailHtml (tl : TagParser) (project html : Str) (base : urls.Url) :
    Except SimpleError ParsedDetail :=
  match tl html with
  | none => .error .html
  | some tags =>
    let (upstream, files) := tags.foldl (readTag urls (linkBase urls tags base)) ({}, [])
    upstream.build.map fun info => { info, name := project, versions := [], files }

end Reader

/-! ### Decoding what was escaped -/

def referred : List UInt8 := [0x26, 0x3C, 0x3E, 0x22, 0x27]

def referenceOf (byte : UInt8) : Str :=
  if byte = 0x26 then str "&amp;"
  else if byte = 0x3C then str "&lt;"
  else if byte = 0x3E then str "&gt;"
  else if byte = 0x22 then str "&quot;"
  else str "&#39;"

theorem isReference_referenceOf (byte : UInt8) (h : byte ∈ referred) :
    Str.IsReference (referenceOf byte) := by
  have hlt : Str.IsReference (str "&lt;") := ⟨str "lt", by decide, by decide, by decide⟩
  have hgt : Str.IsReference (str "&gt;") := ⟨str "gt", by decide, by decide, by decide⟩
  have hquot : Str.IsReference (str "&quot;") := ⟨str "quot", by decide, by decide, by decide⟩
  have hapos : Str.IsReference (str "&#39;") := ⟨str "#39", by decide, by decide, by decide⟩
  have hamp : Str.IsReference (str "&amp;") := ⟨str "amp", by decide, by decide, by decide⟩
  simp only [referred, List.mem_cons, List.not_mem_nil, or_false] at h
  rcases h with rfl | rfl | rfl | rfl | rfl
  · exact hamp
  · exact hlt
  · exact hgt
  · exact hquot
  · exact hapos

theorem referenceOf_inj (byte other : UInt8) (h : byte ∈ referred) (hother : other ∈ referred) :
    referenceOf byte = referenceOf other ↔ byte = other := by
  have hall : (referred.all fun byte => referred.all fun other =>
      decide (referenceOf byte = referenceOf other ↔ byte = other)) = true := by decide
  exact Str.forall_of_all (List.all_eq_true.mp hall byte h) other hother

theorem referenceOf_ne_single (byte other : UInt8) (h : other ∈ referred) :
    [byte] ≠ referenceOf other := by
  have hall : ∀ other ∈ referred, (referenceOf other).length ≠ 1 := Str.forall_of_all (by decide)
  intro heq
  exact hall other h (heq ▸ rfl)

def markedByte (marked : List UInt8) (byte : UInt8) : Str :=
  if byte ∈ marked then referenceOf byte else [byte]

theorem replace_marked (marked : List UInt8) (byte : UInt8) (hknown : ∀ b ∈ marked, b ∈ referred)
    (hampersand : 0x26 ∈ marked) (hbyte : byte ∈ referred) (text : Str) :
    Str.replace (text.flatMap (markedByte marked)) (referenceOf byte) [byte] =
      text.flatMap (markedByte (marked.filter (· ≠ byte))) := by
  refine Str.replace_flatMap _ (isReference_referenceOf byte hbyte) _ _ (fun other => ?_)
    (fun other => ?_) text
  · unfold markedByte
    by_cases hmem : other ∈ marked
    · rw [if_pos hmem]
      exact .inr (isReference_referenceOf other (hknown other hmem))
    · rw [if_neg hmem]
      exact .inl ⟨other, fun heq => hmem (heq ▸ hampersand), rfl⟩
  · unfold markedByte
    have hfilter : other ∈ marked.filter (· ≠ byte) ↔ other ∈ marked ∧ other ≠ byte := by
      rw [List.mem_filter, decide_eq_true_iff]
    by_cases hmem : other ∈ marked
    · have hinj := referenceOf_inj other byte (hknown other hmem) hbyte
      rw [if_pos hmem]
      by_cases heq : other = byte
      · rw [if_pos (hinj.mpr heq), if_neg fun h => (hfilter.mp h).2 heq, heq]
      · rw [if_neg fun h => heq (hinj.mp h), if_pos (hfilter.mpr ⟨hmem, heq⟩)]
    · rw [if_neg hmem, if_neg (referenceOf_ne_single other byte hbyte),
        if_neg fun h => hmem (hfilter.mp h).1]

theorem decodeEntities_eq (text : Str) : decodeEntities text =
    ((((text.replace (str "&lt;") (str "<")).replace (str "&gt;") (str ">")).replace (str "&quot;")
      (str "\"")).replace (str "&#39;") (str "'")).replace (str "&amp;") (str "&") := by
  unfold decodeEntities
  by_cases h : 0x26 ∈ text
  · exact if_pos h
  · have hplain := fun byte hbyte new =>
      Str.replace_plain new (isReference_referenceOf byte hbyte) text h
    rw [if_neg h]
    change text = ((((text.replace (referenceOf 0x3C) _).replace (referenceOf 0x3E) _).replace
      (referenceOf 0x22) _).replace (referenceOf 0x27) _).replace (referenceOf 0x26) _
    rw [hplain 0x3C (by decide), hplain 0x3E (by decide), hplain 0x22 (by decide),
      hplain 0x27 (by decide), hplain 0x26 (by decide)]

def escaped : Escape → List UInt8
  | .text => [0x26, 0x3C, 0x3E]
  | .attr => [0x26, 0x3C, 0x3E, 0x22]

theorem escapeByte_eq (escape : Escape) (byte : UInt8) :
    escapeByte escape byte = markedByte (escaped escape) byte := by
  unfold escapeByte markedByte referenceOf
  cases escape <;> unfold escaped <;> grind

theorem decodeEntities_pushEscaped (text : Str) (escape : Escape) :
    decodeEntities (pushEscaped text escape) = text := by
  have hescaped : pushEscaped text escape = text.flatMap (markedByte (escaped escape)) :=
    List.flatMap_congr fun byte _ => escapeByte_eq escape byte
  have hone : ∀ marked byte, (∀ b ∈ marked, b ∈ referred) → 0x26 ∈ marked → byte ∈ referred →
      Str.replace (text.flatMap (markedByte marked)) (referenceOf byte) [byte] =
        text.flatMap (markedByte (marked.filter (· ≠ byte))) :=
    fun marked byte hknown hampersand hbyte => replace_marked marked byte hknown hampersand hbyte text
  have hnone : text.flatMap (markedByte []) = text := by
    unfold markedByte
    exact List.flatMap_singleton' text
  rw [decodeEntities_eq, hescaped]
  change ((((Str.replace _ (referenceOf 0x3C) [0x3C]).replace (referenceOf 0x3E) [0x3E]).replace
    (referenceOf 0x22) [0x22]).replace (referenceOf 0x27) [0x27]).replace (referenceOf 0x26) [0x26] =
      text
  cases escape with
  | text =>
    rw [hone _ 0x3C (Str.forall_of_all (by decide)) (by decide) (by decide),
      hone _ 0x3E (Str.forall_of_all (by decide)) (by decide) (by decide),
      hone _ 0x22 (Str.forall_of_all (by decide)) (by decide) (by decide),
      hone _ 0x27 (Str.forall_of_all (by decide)) (by decide) (by decide),
      hone _ 0x26 (Str.forall_of_all (by decide)) (by decide) (by decide)]
    exact hnone
  | attr =>
    rw [hone _ 0x3C (Str.forall_of_all (by decide)) (by decide) (by decide),
      hone _ 0x3E (Str.forall_of_all (by decide)) (by decide) (by decide),
      hone _ 0x22 (Str.forall_of_all (by decide)) (by decide) (by decide),
      hone _ 0x27 (Str.forall_of_all (by decide)) (by decide) (by decide),
      hone _ 0x26 (Str.forall_of_all (by decide)) (by decide) (by decide)]
    exact hnone

/-! ### The attributes of a rendered tag -/

def escapedTag (name : Str) (attributes : List (Str × Str)) : HtmlTag where
  name := name
  attributes := (attributes.map escapeValue).map fun pair => (pair.1, some pair.2)

theorem isTag_escapedTag (name : Str) (attributes : List (Str × Str)) (other : Str) :
    (escapedTag name attributes).isTag other = Str.eqIgnoreAsciiCase name other := rfl

def attributeValue (attributes : List (Str × Str)) (key : Str) : Option Str :=
  (attributes.find? fun pair => pair.1 = key).map (·.2)

theorem attributeValue_nil (key : Str) : attributeValue [] key = none := rfl

theorem attributeValue_cons (name value : Str) (rest : List (Str × Str)) (key : Str) :
    attributeValue ((name, value) :: rest) key =
      if name = key then some value else attributeValue rest key := by
  unfold attributeValue
  rw [List.find?_cons]
  by_cases h : name = key
  · rw [if_pos h, decide_eq_true h]
    rfl
  · rw [if_neg h, decide_eq_false h]

theorem attributeValue_optional {α : Type} (name : Str) (write : α → Str) (value : Option α)
    (rest : List (Str × Str)) (key : Str) :
    attributeValue ((value.map fun v => (name, write v)).toList ++ rest) key =
      if name = key then (value.map write).or (attributeValue rest key) else attributeValue rest key := by
  cases value with
  | none =>
    rw [Option.map_none, Option.map_none, Option.none_or, ite_self]
    rfl
  | some v => exact attributeValue_cons name (write v) rest key

def OwnCase (attributes : List (Str × Str)) (key : Str) : Prop :=
  ∀ pair ∈ attributes, Str.eqIgnoreAsciiCase pair.1 key = true → pair.1 = key

theorem find?_escaped (attributes : List (Str × Str)) (key : Str) :
    ((attributes.map escapeValue).map fun pair => (pair.1, some pair.2)).find?
        (fun pair => pair.1 = key) =
      (attributes.find? fun pair => pair.1 = key).map fun pair =>
        (pair.1, some (pushEscaped pair.2 .attr)) := by
  rw [List.find?_map, List.find?_map, Option.map_map]
  rfl

theorem attrString_escaped (name : Str) (attributes : List (Str × Str)) (key : Str)
    (h : OwnCase attributes key) :
    (escapedTag name attributes).attrString key = attributeValue attributes key := by
  unfold HtmlTag.attrString HtmlTag.attrValue attributeValue escapedTag
  dsimp only
  rw [find?_escaped]
  cases hfind : attributes.find? fun pair => pair.1 = key with
  | some pair =>
    rw [Option.map_some, Option.bind_some, Option.some_or, Option.map_some,
      decodeEntities_pushEscaped, Option.map_some]
  | none =>
    rw [Option.map_none, Option.bind_none, Option.none_or, Option.map_none, Option.map_eq_none_iff,
      List.findSome?_eq_none_iff]
    intro read hread
    obtain ⟨escaped, hescaped, rfl⟩ := List.mem_map.mp hread
    obtain ⟨pair, hpair, rfl⟩ := List.mem_map.mp hescaped
    refine if_neg fun hcase => ?_
    have hkey := h pair hpair hcase
    exact absurd (decide_eq_true hkey) (List.find?_eq_none.mp hfind pair hpair)

theorem hasAttr_escaped (name : Str) (attributes : List (Str × Str)) (key : Str)
    (h : OwnCase attributes key) :
    (escapedTag name attributes).hasAttr key = (attributeValue attributes key).isSome := by
  rw [Bool.eq_iff_iff]
  unfold HtmlTag.hasAttr attributeValue escapedTag
  rw [Option.isSome_map, List.find?_isSome, Bool.or_eq_true, List.any_eq_true, List.any_eq_true]
  constructor
  · rintro (⟨read, hread, hkey⟩ | ⟨read, hread, hkey⟩)
    · obtain ⟨escaped, hescaped, rfl⟩ := List.mem_map.mp hread
      obtain ⟨pair, hpair, rfl⟩ := List.mem_map.mp hescaped
      exact ⟨pair, hpair, hkey⟩
    · obtain ⟨escaped, hescaped, rfl⟩ := List.mem_map.mp hread
      obtain ⟨pair, hpair, rfl⟩ := List.mem_map.mp hescaped
      exact ⟨pair, hpair, decide_eq_true (h pair hpair hkey)⟩
  · rintro ⟨pair, hpair, hkey⟩
    exact .inl ⟨_, List.mem_map_of_mem (List.mem_map_of_mem hpair), hkey⟩

def readNames : List Str := attributeNames ++ [str "data-size", str "data-upload-time"]

theorem ownCase_attributes (file : File) (key : Str) (hkey : key ∈ readNames) :
    OwnCase file.attributes key := by
  have hall : ∀ name ∈ attributeNames, ∀ key ∈ readNames,
      Str.eqIgnoreAsciiCase name key = true → name = key := by decide
  intro pair hpair
  exact hall _ ((keys_attributes file).subset (List.mem_map_of_mem hpair)) key hkey

theorem attrString_file (file : File) (name key : Str) (hkey : key ∈ readNames) :
    (escapedTag name file.attributes).attrString key = attributeValue file.attributes key :=
  attrString_escaped name _ key (ownCase_attributes file key hkey)

theorem hasAttr_file (file : File) (name key : Str) (hkey : key ∈ readNames) :
    (escapedTag name file.attributes).hasAttr key = (attributeValue file.attributes key).isSome :=
  hasAttr_escaped name _ key (ownCase_attributes file key hkey)

theorem attributeValue_file (file : File) (key : String) : attributeValue file.attributes (str key) =
    if "href" = key then some file.link
    else if "data-requires-python" = key then file.requiresPython
    else if "data-gpg-sig" = key then file.gpgSig.map displayBool
    else if "data-yanked" = key then file.yanked.attribute
    else if "data-provenance" = key then file.provenance.attribute
    else if "data-core-metadata" = key ∨ "data-dist-info-metadata" = key then file.metadata.attribute
    else none := by
  have hattributes : file.attributes = [(str "href", file.link)] ++
      ((file.requiresPython.map fun value => (str "data-requires-python", id value)).toList ++
      ((file.gpgSig.map fun value => (str "data-gpg-sig", displayBool value)).toList ++
      ((file.yanked.attribute.map fun value => (str "data-yanked", id value)).toList ++
      ((file.provenance.attribute.map fun value => (str "data-provenance", id value)).toList ++
      ((file.metadata.attribute.map fun value => (str "data-core-metadata", id value)).toList ++
      ((file.metadata.attribute.map fun value =>
        (str "data-dist-info-metadata", id value)).toList ++ [])))))) := by
    unfold File.attributes
    simp only [List.append_assoc, List.append_nil, id]
  rw [hattributes, List.singleton_append, attributeValue_cons, attributeValue_optional,
    attributeValue_optional, attributeValue_optional, attributeValue_optional,
    attributeValue_optional, attributeValue_optional, attributeValue_nil]
  simp only [Serde.str_inj]
  grind

/-! ### Fields that HTML can say -/

def Yanked.inHtml : Yanked → Yanked
  | .reason [] => .yes
  | yanked => yanked

/-- Of the hashes of a metadata sibling, the `sha256` only. -/
def CoreMetadata.inHtml : CoreMetadata → CoreMetadata
  | .hashes table =>
    match table[str "sha256"]? with
    | some sha256 => .hashes (Std.ExtTreeMap.ofList [(str "sha256", sha256)])
    | none => .available
  | claim => claim

/-- A provenance of `null` is none. -/
def Provenance.inHtml : Provenance → Provenance
  | .null => .absent
  | provenance => provenance

theorem parseYanked_file (file : File) (name : Str) :
    (escapedTag name file.attributes).parseYanked = file.yanked.inHtml := by
  unfold HtmlTag.parseYanked
  rw [hasAttr_file file name _ (by decide), attrString_file file name _ (by decide),
    attributeValue_file file "data-yanked"]
  cases file.yanked with
  | no => rfl
  | yes => rfl
  | reason reason =>
    cases reason with
    | nil => rfl
    | cons byte rest => rfl

theorem parseMetadataAttr_file (file : File) (name : Str) (key : String)
    (h : key = "data-core-metadata" ∨ key = "data-dist-info-metadata") :
    (escapedTag name file.attributes).parseMetadataAttr (str key) = file.metadata.inHtml := by
  have hread : str key ∈ readNames := by
    rcases h with rfl | rfl <;> decide
  have hvalue : attributeValue file.attributes (str key) = file.metadata.attribute := by
    rw [attributeValue_file]
    rcases h with rfl | rfl <;> rfl
  unfold HtmlTag.parseMetadataAttr
  rw [hasAttr_file file name _ hread, attrString_file file name _ hread, hvalue]
  cases file.metadata with
  | absent => rfl
  | available => rfl
  | hashes table =>
    unfold CoreMetadata.attribute CoreMetadata.inHtml
    cases hdigest : table[str "sha256"]? with
    | none =>
      simp only [hdigest]
      rfl
    | some sha256 =>
      simp only [hdigest]
      rfl

theorem parseGpgSig_file (file : File) (name : Str) :
    (escapedTag name file.attributes).parseGpgSig = file.gpgSig := by
  unfold HtmlTag.parseGpgSig
  rw [hasAttr_file file name _ (by decide), attrString_file file name _ (by decide),
    attributeValue_file file "data-gpg-sig"]
  cases file.gpgSig with
  | none => rfl
  | some value => cases value <;> rfl

/-! ### What is read of a rendered page -/

section Rendered
variable (urls : LinkParser)

/-- What the link of a file denotes, with the fields as HTML says them. -/
def readBack (base : urls.Url) (file : File) : Option File := do
  let resolved ← if file.link = [] then none else urls.join base file.link
  let filename ← filenameFromUrl urls resolved
  some
    { filename
      url := urls.write (urls.withoutFragment resolved)
      hashes := fragmentHash (urls.fragment resolved)
      requiresPython := file.requiresPython
      yanked := file.yanked.inHtml
      coreMetadata := file.metadata.inHtml
      distInfoMetadata := file.metadata.inHtml
      gpgSig := file.gpgSig
      provenance := file.provenance.inHtml }

theorem anchorToFile_file (base : urls.Url) (file : File) (name : Str) :
    anchorToFile urls base (escapedTag name file.attributes) = readBack urls base file := by
  have hhref : ((escapedTag name file.attributes).attrString (str "href")).filter
      (fun href => !href.isEmpty) = if file.link = [] then none else some file.link := by
    rw [attrString_file file name _ (by decide), attributeValue_file file "href"]
    cases hlink : file.link with
    | nil => rfl
    | cons byte rest => rfl
  have hpython : (escapedTag name file.attributes).attrString (str "data-requires-python") =
      file.requiresPython :=
    (attrString_file file name _ (by decide)).trans (attributeValue_file file _)
  have hsize : (escapedTag name file.attributes).attrString (str "data-size") = none :=
    (attrString_file file name _ (by decide)).trans (attributeValue_file file _)
  have htime : (escapedTag name file.attributes).attrString (str "data-upload-time") = none :=
    (attrString_file file name _ (by decide)).trans (attributeValue_file file _)
  have hprovenance : (escapedTag name file.attributes).attrString (str "data-provenance") =
      file.provenance.attribute :=
    (attrString_file file name _ (by decide)).trans (attributeValue_file file _)
  have hclaimed : (file.provenance.attribute.map Provenance.url).getD .absent =
      file.provenance.inHtml := by
    cases file.provenance <;> rfl
  unfold anchorToFile readBack
  rw [hhref, hpython, hsize, htime, hprovenance, hclaimed, parseYanked_file,
    parseMetadataAttr_file file name _ (.inl rfl), parseMetadataAttr_file file name _ (.inr rfl),
    parseGpgSig_file]
  by_cases hlink : file.link = []
  · rw [if_pos hlink, if_pos hlink]
    rfl
  · rw [if_neg hlink, if_neg hlink]
    rfl

def metaTags (info : Meta) : List HtmlTag :=
  [escapedTag (str "meta") [(str "name", str "pypi:repository-version"),
    (str "content", info.apiVersion)]] ++
  (info.projectStatus.map fun value => escapedTag (str "meta")
    [(str "name", str "pypi:project-status"), (str "content", value)]).toList ++
  (info.projectStatusReason.map fun value => escapedTag (str "meta")
    [(str "name", str "pypi:project-status-reason"), (str "content", value)]).toList

def fileTags (file : File) : List HtmlTag :=
  [escapedTag (str "a") file.attributes, escapedTag (str "br") []]

def pageTags (detail : ProjectDetail) : List HtmlTag :=
  [escapedTag (str "html") [], escapedTag (str "head") []] ++ metaTags detail.info ++
    [escapedTag (str "title") [], escapedTag (str "body") []] ++ detail.files.flatMap fileTags

def startTags (tags : List Html.Tag) : List HtmlTag :=
  (Html.starts tags).map fun tag =>
    { name := tag.1, attributes := tag.2.map fun pair => (pair.1, some pair.2) }

theorem startTags_append (tags more : List Html.Tag) :
    startTags (tags ++ more) = startTags tags ++ startTags more := by
  unfold startTags Html.starts
  rw [List.filterMap_append, List.map_append]

theorem startTags_metaTag (name value : Str) (h : NeedsNoEscape name) :
    startTags [metaTag name value] =
      [escapedTag (str "meta") [(str "name", name), (str "content", value)]] := by
  unfold NeedsNoEscape at h
  unfold escapedTag
  simp only [List.map_cons, List.map_nil, escapeValue, h]
  rfl

theorem startTags_optionalMeta (name : Str) (value : Option Str) (h : NeedsNoEscape name) :
    startTags (value.map fun text => metaTag name text).toList =
      (value.map fun text =>
        escapedTag (str "meta") [(str "name", name), (str "content", text)]).toList := by
  cases value with
  | none => rfl
  | some text => exact startTags_metaTag name text h

theorem startTags_meta (info : Meta) : startTags info.tags = metaTags info := by
  unfold Meta.tags metaTags
  rw [startTags_append, startTags_append, startTags_metaTag _ _ (by decide),
    startTags_optionalMeta _ _ (by decide), startTags_optionalMeta _ _ (by decide)]

theorem startTags_files (files : List File) :
    startTags (files.flatMap File.tags) = files.flatMap fileTags := by
  induction files with
  | nil => rfl
  | cons file files ih =>
    rw [List.flatMap_cons, List.flatMap_cons, startTags_append, ih]
    rfl

theorem startTags_page (detail : ProjectDetail) : startTags detail.tags = pageTags detail := by
  unfold ProjectDetail.tags pageTags
  rw [startTags_append, startTags_append, startTags_append, startTags_append, startTags_meta,
    startTags_files]
  exact List.append_nil _

theorem linkBase_none (tags : List HtmlTag) (base : urls.Url)
    (h : ∀ tag ∈ tags, tag.isTag (str "base") = false) : linkBase urls tags base = base := by
  have hnone : ((tags.takeWhile fun tag => !tag.isTag (str "a") && !tag.isTag (str "link")).find?
      fun tag => tag.isTag (str "base")) = none := by
    rw [List.find?_eq_none]
    intro tag htag
    rw [h tag ((List.takeWhile_prefix _).subset htag)]
    exact Bool.false_ne_true
  unfold linkBase
  dsimp only
  rw [hnone]
  rfl

theorem pageTags_noBase (detail : ProjectDetail) :
    ∀ tag ∈ pageTags detail, tag.isTag (str "base") = false := by
  have hnames : ∀ name ∈ [str "html", str "head", str "meta", str "title", str "body", str "a",
      str "br"], Str.eqIgnoreAsciiCase name (str "base") = false := by decide
  intro tag htag
  unfold pageTags metaTags fileTags at htag
  simp only [List.mem_append, List.mem_cons, List.not_mem_nil, or_false, List.mem_flatMap,
    Option.mem_toList, Option.map_eq_some_iff] at htag
  rcases htag with (((rfl | rfl) | ((rfl | ⟨_, _, rfl⟩) | ⟨_, _, rfl⟩)) | (rfl | rfl)) |
    ⟨_, _, (rfl | rfl)⟩
  all_goals
    rw [isTag_escapedTag]
    exact hnames _ (by decide)

theorem readTag_file (base : urls.Url) (page : UpstreamMeta × List File) (file : File) :
    (fileTags file).foldl (readTag urls base) page =
      (page.1, page.2 ++ (readBack urls base file).toList) := by
  have hanchor : readTag urls base page (escapedTag (str "a") file.attributes) =
      (page.1, page.2 ++ (readBack urls base file).toList) := by
    rw [← anchorToFile_file urls base file (str "a")]
    unfold readTag
    rw [isTag_escapedTag, if_pos (by decide)]
  have hbreak : ∀ read, readTag urls base read (escapedTag (str "br") []) = read := by
    intro read
    unfold readTag
    rw [isTag_escapedTag, isTag_escapedTag, if_neg (by decide), if_neg (by decide)]
  unfold fileTags
  rw [List.foldl_cons, List.foldl_cons, List.foldl_nil, hanchor, hbreak]

theorem readTag_files (base : urls.Url) (files : List File) (page : UpstreamMeta × List File) :
    (files.flatMap fileTags).foldl (readTag urls base) page =
      (page.1, page.2 ++ files.filterMap (readBack urls base)) := by
  induction files generalizing page with
  | nil => rw [List.flatMap_nil, List.foldl_nil, List.filterMap_nil, List.append_nil]
  | cons file files ih =>
    rw [List.flatMap_cons, List.foldl_append, readTag_file, ih, List.append_assoc]
    cases hfile : readBack urls base file with
    | none => rw [List.filterMap_cons_none hfile]; rfl
    | some read => rw [List.filterMap_cons_some hfile]; rfl

theorem attrString_meta (name value : Str) :
    (escapedTag (str "meta") [(str "name", name), (str "content", value)]).attrString (str "name") =
      some name ∧
    (escapedTag (str "meta") [(str "name", name), (str "content", value)]).attrString
      (str "content") = some value := by
  have hown : ∀ key ∈ [str "name", str "content"],
      OwnCase [(str "name", name), (str "content", value)] key := by
    have hall : ∀ other ∈ [str "name", str "content"], ∀ key ∈ [str "name", str "content"],
        Str.eqIgnoreAsciiCase other key = true → other = key := by decide
    intro key hkey pair hpair
    have hname : pair.1 ∈ [(str "name", name), (str "content", value)].map (·.1) :=
      List.mem_map_of_mem hpair
    exact hall pair.1 hname key hkey
  constructor
  · rw [attrString_escaped _ _ _ (hown _ (by decide)), attributeValue_cons, if_pos rfl]
  · rw [attrString_escaped _ _ _ (hown _ (by decide)), attributeValue_cons, if_neg (by decide),
      attributeValue_cons, if_pos rfl]

theorem readTag_meta (base : urls.Url) (info : Meta) :
    (metaTags info).foldl (readTag urls base) ({}, []) =
      ({ apiVersion := some info.apiVersion, projectStatus := info.projectStatus,
         projectStatusReason := info.projectStatusReason }, []) := by
  have hread : ∀ page name value, readTag urls base page
      (escapedTag (str "meta") [(str "name", name), (str "content", value)]) =
        (page.1.read (escapedTag (str "meta") [(str "name", name), (str "content", value)]), page.2) := by
    intro page name value
    unfold readTag
    rw [isTag_escapedTag, isTag_escapedTag, if_neg (by decide), if_pos (by decide)]
  have hversion : ∀ (upstream : UpstreamMeta) value, upstream.read (escapedTag (str "meta")
      [(str "name", str "pypi:repository-version"), (str "content", value)]) =
        { upstream with apiVersion := some value } := by
    intro upstream value
    unfold UpstreamMeta.read
    rw [(attrString_meta _ _).1, (attrString_meta _ _).2]
    exact if_pos rfl
  have hstatus : ∀ (upstream : UpstreamMeta) value, upstream.read (escapedTag (str "meta")
      [(str "name", str "pypi:project-status"), (str "content", value)]) =
        { upstream with projectStatus := some value } := by
    intro upstream value
    unfold UpstreamMeta.read
    rw [(attrString_meta _ _).1, (attrString_meta _ _).2]
    dsimp only
    rw [if_neg (by decide), if_pos rfl]
  have hreason : ∀ (upstream : UpstreamMeta) value, upstream.read (escapedTag (str "meta")
      [(str "name", str "pypi:project-status-reason"), (str "content", value)]) =
        { upstream with projectStatusReason := some value } := by
    intro upstream value
    unfold UpstreamMeta.read
    rw [(attrString_meta _ _).1, (attrString_meta _ _).2]
    dsimp only
    rw [if_neg (by decide), if_neg (by decide), if_pos rfl]
  obtain ⟨version, status, reason⟩ := info
  unfold metaTags
  rw [List.foldl_append, List.foldl_append, List.foldl_cons, List.foldl_nil, hread, hversion]
  have hoptional : ∀ page name (value : Option Str), (value.map fun text => escapedTag (str "meta")
      [(str "name", name), (str "content", text)]).toList.foldl (readTag urls base) page =
        value.elim page fun text => (page.1.read (escapedTag (str "meta")
          [(str "name", name), (str "content", text)]), page.2) := by
    intro page name value
    cases value with
    | none => rfl
    | some text => exact hread page name text
  rw [hoptional, hoptional]
  cases status with
  | none =>
    cases reason with
    | none => rfl
    | some reason => exact congrArg (·, []) (hreason _ reason)
  | some status =>
    rw [Option.elim_some, hstatus]
    cases reason with
    | none => rfl
    | some reason => exact congrArg (·, []) (hreason _ reason)

theorem parseDetailHtml_render (tl : TagParser) (htl : tl.Reads) (project : Str)
    (detail : ProjectDetail) (base : urls.Url) (hplain : ∀ file ∈ detail.files, file.PlainDigests)
    (hlength : (renderDetailHtml detail).length < 2 ^ 32) :
    parseDetailHtml urls tl project (renderDetailHtml detail) base =
      (Meta.fromUpstream (some detail.info.apiVersion) detail.info.projectStatus
        detail.info.projectStatusReason).map fun info =>
          { info, name := project, versions := [],
            files := detail.files.filterMap (readBack urls base) } := by
  have htags : tl (renderDetailHtml detail) = some (pageTags detail) := by
    rw [htl _ _ hlength (reads_renderDetailHtml detail hplain).tags]
    exact congrArg some (startTags_page detail)
  have hskip : ∀ name, name = str "html" ∨ name = str "head" ∨ name = str "title" ∨
      name = str "body" → ∀ page, readTag urls base page (escapedTag name []) = page := by
    intro name hname page
    unfold readTag
    rw [isTag_escapedTag, isTag_escapedTag]
    rcases hname with rfl | rfl | rfl | rfl <;> rw [if_neg (by decide), if_neg (by decide)]
  have hread : (pageTags detail).foldl (readTag urls base) ({}, []) =
      ({ apiVersion := some detail.info.apiVersion, projectStatus := detail.info.projectStatus,
         projectStatusReason := detail.info.projectStatusReason },
        detail.files.filterMap (readBack urls base)) := by
    unfold pageTags
    simp only [List.foldl_append, List.foldl_cons, List.foldl_nil, readTag_files,
      hskip _ (.inl rfl), hskip _ (.inr (.inl rfl)), readTag_meta, hskip _ (.inr (.inr (.inl rfl))),
      hskip _ (.inr (.inr (.inr rfl)))]
    rfl
  unfold parseDetailHtml
  rw [htags]
  dsimp only
  rw [linkBase_none urls _ _ (pageTags_noBase detail), hread]
  rfl

/-- The link of a file is its own URL and hash, as the crate writes them, and ends in its
name. -/
structure File.LinkKept (base : urls.Url) (file : File) : Prop where
  link : file.link ≠ []
  resolved : ∃ resolved, urls.join base file.link = some resolved ∧
    urls.write (urls.withoutFragment resolved) = file.url ∧
    filenameFromUrl urls resolved = some file.filename ∧
    urls.fragment resolved = file.linkedHash.map fun pair => pair.1 ++ str "=" ++ pair.2
  hash : ∀ pair ∈ file.linkedHash, isSupportedHash pair.1 = true ∧ pair.2 ≠ [] ∧
    ∀ byte ∈ pair.2, byte < 0x80 ∧ byte ≠ 0x25 ∧ byte ≠ 0x26

def File.inHtml (file : File) : File :=
  { file with
    hashes := Std.ExtTreeMap.ofList file.linkedHash.toList
    size := none
    uploadTime := none
    yanked := file.yanked.inHtml
    coreMetadata := file.metadata.inHtml
    distInfoMetadata := file.metadata.inHtml
    provenance := file.provenance.inHtml }

theorem fragmentHash_pair (algo value : Str) (halgo : isSupportedHash algo = true)
    (hne : value ≠ []) (hvalue : ∀ byte ∈ value, byte < 0x80 ∧ byte ≠ 0x25 ∧ byte ≠ 0x26) :
    fragmentHash (some (algo ++ str "=" ++ value)) = Std.ExtTreeMap.ofList [(algo, value)] := by
  have hknown : ∀ known ∈ [str "sha512", str "sha384", str "sha256", str "sha224", str "sha1",
      str "md5"], (known.all fun byte =>
        decide (byte < 0x80 ∧ byte ≠ 0x25 ∧ byte ≠ 0x26 ∧ byte ≠ 0x3D)) = true := by decide
  have hplain := Str.forall_of_all (hknown algo (List.contains_iff_mem.mp halgo))
  have hequals : str "=" = [0x3D] := by decide
  have hall : ∀ byte ∈ algo ++ str "=" ++ value, byte < 0x80 ∧ byte ≠ 0x25 ∧ byte ≠ 0x26 := by
    intro byte hbyte
    rw [hequals, List.mem_append, List.mem_append, List.mem_singleton] at hbyte
    rcases hbyte with (hbyte | rfl) | hbyte
    · exact ⟨(hplain byte hbyte).1, (hplain byte hbyte).2.1, (hplain byte hbyte).2.2.1⟩
    · decide
    · exact hvalue byte hbyte
  have hdecode : percentDecode (algo ++ str "=" ++ value) = algo ++ str "=" ++ value := by
    unfold percentDecode
    rw [Query.percentDecode_plain _ fun hmem => (hall _ hmem).2.1 rfl]
    exact Query.fromUtf8Lossy_ascii _ fun byte hbyte => (hall byte hbyte).1
  have hsplit : Str.split 0x26 (algo ++ str "=" ++ value) = [algo ++ str "=" ++ value] :=
    List.splitOn_eq_singleton fun hmem => (hall _ hmem).2.2 rfl
  have honce : Str.splitOnce 0x3D (algo ++ str "=" ++ value) = some (algo, value) := by
    rw [hequals, List.append_assoc]
    exact Str.splitOnce_append 0x3D algo value fun hmem => (hplain _ hmem).2.2.2 rfl
  have hempty : value.isEmpty = false := by
    cases value with
    | nil => exact absurd rfl hne
    | cons byte rest => rfl
  unfold fragmentHash
  rw [Option.map_some, hdecode]
  simp only [hsplit, List.foldl_cons, List.foldl_nil, honce, halgo, hempty, Bool.not_false,
    Bool.and_self, if_true]
  rfl

theorem readBack_kept (base : urls.Url) (file : File) (h : file.LinkKept urls base) :
    readBack urls base file = some file.inHtml := by
  obtain ⟨resolved, hjoin, hurl, hname, hfragment⟩ := h.resolved
  have hhashes : fragmentHash (urls.fragment resolved) =
      Std.ExtTreeMap.ofList file.linkedHash.toList := by
    rw [hfragment]
    cases hlinked : file.linkedHash with
    | none => rfl
    | some pair =>
      obtain ⟨hsupported, hne, hplain⟩ := h.hash pair hlinked
      exact fragmentHash_pair pair.1 pair.2 hsupported hne hplain
  unfold readBack
  rw [if_neg h.link, hjoin]
  simp only [Option.bind_eq_bind, Option.bind_some, hname, hurl, hhashes]
  rfl

/-- What a page of HTML keeps: its structure follows from which fields are there, and it is
read as the files its links denote, with the texts that were written. -/
theorem html_pages_kept (tl : TagParser) (htl : tl.Reads) :
    (∀ text escape, decodeEntities (pushEscaped text escape) = text) ∧
      ∀ detail : ProjectDetail, (∀ file ∈ detail.files, file.PlainDigests) →
        Html.outline (renderDetailHtml detail) = some detail.presence.outline ∧
        ((renderDetailHtml detail).length < 2 ^ 32 → ∀ project (base : urls.Url),
          parseDetailHtml urls tl project (renderDetailHtml detail) base =
            (Meta.fromUpstream (some detail.info.apiVersion) detail.info.projectStatus
              detail.info.projectStatusReason).map fun info =>
                { info, name := project, versions := [],
                  files := detail.files.filterMap (readBack urls base) }) ∧
        ∀ base : urls.Url, ∀ file ∈ detail.files, file.LinkKept urls base →
          readBack urls base file = some file.inHtml :=
  ⟨decodeEntities_pushEscaped, fun detail hplain =>
    ⟨outline_renderDetailHtml detail hplain,
      fun hlength project base => parseDetailHtml_render urls tl htl project detail base hplain hlength,
      fun base file _ hkept => readBack_kept urls base file hkept⟩⟩

end Rendered

/-! ### A page, its links absolute -/

def plainTags : TagParser := fun page => (Html.tags page).map startTags

theorem plainTags_reads : plainTags.Reads := by
  intro page tags _ htags
  unfold plainTags
  rw [htags]
  rfl

def plainLinks : LinkParser where
  Url := Str × Option Str
  join _ link :=
    match Str.splitOnce 0x23 link with
    | some (url, fragment) => some (url, some fragment)
    | none => some (link, none)
  path url := ((url.1.dropWhile fun byte => byte ≠ 0x3A).drop 3).dropWhile fun byte => byte ≠ 0x2F
  fragment url := url.2
  withoutFragment url := (url.1, none)
  write url := url.1 ++ url.2.elim [] fun fragment => 0x23 :: fragment

def demoFile : File where
  filename := str "d-1.whl"
  url := str "https://f/d-1.whl"
  hashes := Std.ExtTreeMap.ofList [(str "sha256", str "ab")]
  requiresPython := some (str ">=3")
  yanked := .reason (str "\"<&")

def demoPage : ProjectDetail where
  name := str "d"
  files := [demoFile]

/-- A page is read as it was rendered. -/
theorem demo_page_kept :
    ((parseDetailHtml plainLinks plainTags (str "d") (renderDetailHtml demoPage)
      (str "https://i/", none)).toOption.map fun parsed => parsed.files.map fun file =>
        (file.filename, file.url, file.sha256, file.requiresPython, file.yanked)) =
      some [(str "d-1.whl", str "https://f/d-1.whl", some (str "ab"), some (str ">=3"),
        .reason (str "\"<&"))] := by
  have hplain : ∀ file ∈ demoPage.files, file.PlainDigests := by
    intro file hfile
    rw [List.mem_singleton.mp hfile]
    constructor
    · have hlinked : demoFile.linkedHash = some (str "sha256", str "ab") := by decide
      intro pair hpair
      rw [hlinked, Option.mem_def, Option.some.injEq] at hpair
      rw [← hpair]
      decide
    · intro hashes hmetadata
      cases hmetadata
  have hlength : (renderDetailHtml demoPage).length < 2 ^ 32 := by
    set_option maxRecDepth 4000 in decide
  have hread := ((html_pages_kept plainLinks plainTags plainTags_reads).2 demoPage hplain).2.1 hlength
    (str "d") (str "https://i/", none)
  rw [hread]
  rfl

def renamedPage : ProjectDetail where
  name := str "d"
  files := [{ filename := str "e-1.whl", url := str "https://f/d-1.whl" }]

def hashedPage (hash : Str) : ProjectDetail where
  name := str "d"
  files := [{ filename := str "d-1.whl", url := str "https://f/d-1.whl",
              hashes := Std.ExtTreeMap.ofList [(str "sha256", hash)] }]

/-- A file is read by the name in its link, and a quote in a hash ends the link. -/
theorem link_names_file :
    ((parseDetailHtml plainLinks plainTags (str "d") (renderDetailHtml renamedPage)
      (str "https://i/", none)).toOption.map fun parsed => parsed.files.map File.filename) ≠
        some (renamedPage.files.map File.filename) ∧
      (hashedPage (str "ab")).presence = (hashedPage (str "\" x=\"")).presence ∧
      Html.outline (renderDetailHtml (hashedPage (str "ab"))) ≠
        Html.outline (renderDetailHtml (hashedPage (str "\" x=\""))) := by
  have hread : ((parseDetailHtml plainLinks plainTags (str "d") (renderDetailHtml renamedPage)
      (str "https://i/", none)).toOption.map fun parsed => parsed.files.map File.filename) =
        some [str "d-1.whl"] := by
    set_option maxRecDepth 4000 in rfl
  refine ⟨?_, ?_, ?_⟩
  · rw [hread]
    decide
  · decide
  · set_option maxRecDepth 4000 in decide

end Peryx.Pypi
