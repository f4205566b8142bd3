import Peryx.Pypi.SiblingRows

/-!
# What the records of a file read back as (store/mod.rs:125-149, store/files.rs:56-191, simple/parse.rs:13-25)
-/

namespace Peryx.Pypi
open Storage

/-- The `url` crate. -/
structure UrlParser where
  /-- `Url::parse(url).is_ok()`. -/
  parses : Str → Bool
  /-- `base.join(url)`, as it is written. -/
  join : Str → Str → Option Str

def UrlParser.absolutize (urls : UrlParser) (base url : Str) : Str :=
  if urls.parses url then url else (urls.join base url).getD url

/-- A URL is written in ASCII and without line breaks, which its parser strips. -/
def UrlParser.Written (urls : UrlParser) : Prop :=
  ∀ base url resolved, urls.join base url = some resolved →
    ∀ byte ∈ resolved, byte < 0x80 ∧ byte ≠ 0x0A

def UrlParser.OneLine (urls : UrlParser) (base url : Str) : Prop :=
  0x0A ∉ url ∨ urls.parses url = false ∧ (urls.join base url).isSome

theorem absolutize_oneLine (urls : UrlParser) (hurls : urls.Written) (base url : Str) :
    0x0A ∉ urls.absolutize base url ↔ urls.OneLine base url := by
  unfold UrlParser.absolutize UrlParser.OneLine
  cases hparses : urls.parses url with
  | true => simp
  | false =>
    cases hjoin : urls.join base url with
    | none => simp
    | some resolved =>
      have hnot : (0x0A : UInt8) ∉ resolved := fun hmem => (hurls base url resolved hjoin _ hmem).2 rfl
      simpa using hnot

theorem absolutize_isUtf8 (urls : UrlParser) (hurls : urls.Written) (base url : Str)
    (h : url.IsUtf8) : (urls.absolutize base url).IsUtf8 := by
  unfold UrlParser.absolutize
  split
  · exact h
  · cases hjoin : urls.join base url with
    | none => exact h
    | some resolved =>
      exact Str.isUtf8_ascii resolved fun byte hbyte => (hurls base url resolved hjoin byte hbyte).1

theorem mem_metadataSibling (url : Str) : 0x0A ∈ metadataSibling url ↔ 0x0A ∈ url := by
  have hsuffix : (0x0A : UInt8) ∉ str ".metadata" := by decide
  unfold metadataSibling
  rw [List.mem_append, List.mem_append]
  constructor
  · rintro ((h | h) | h)
    · exact List.mem_of_mem_take h
    · exact absurd h hsuffix
    · exact List.mem_of_mem_drop h
  · intro h
    rw [← List.take_append_drop (url.findIdx fun byte => byte == 0x3F || byte == 0x23) url,
      List.mem_append] at h
    exact h.imp Or.inl id

theorem splitFileSource_fields (value : Str) (found : FileSource)
    (h : splitFileSource value = some found) :
    0x0A ∉ found.url ∧ 0x0A ∉ found.source ∧ found.upstream ≠ some [] := by
  unfold splitFileSource at h
  split at h
  · cases h
  · rename_i url rest hurl
    have hfirst := Str.splitOnce_not_mem 0x0A value url rest hurl
    split at h
    · rename_i hsource
      cases h
      exact ⟨hfirst, (Str.splitOnce_eq_none 0x0A rest).mp hsource, nofun⟩
    · rename_i source rest' hsource
      have hsecond := Str.splitOnce_not_mem 0x0A rest source rest' hsource
      split at h
      · cases h
        exact ⟨hfirst, hsecond, nofun⟩
      · rename_i size upstream hsize
        cases h
        refine ⟨hfirst, hsecond, ?_⟩
        dsimp only
        split
        · exact nofun
        · rename_i hne
          exact fun heq => hne (Option.some.inj heq)

theorem newline_not_mem_decimal (n : Nat) : 0x0A ∉ str (toString n) := by
  rw [Str.str_toString_eq_decimal]
  intro hmem
  exact absurd ((Str.decimal_digits n).2 _ hmem).1 (by decide)

theorem parseU64_toString (n : Nat) (h : n < 2 ^ 64) : Str.parseU64 (str (toString n)) = some n := by
  rw [Str.str_toString_eq_decimal]
  exact Str.parseU64_decimal n h

theorem splitFileSource_value (url source : Str) (size : Option Nat) (upstream : Option Str)
    (hsize : ∀ n, size = some n → n < 2 ^ 64) :
    splitFileSource (fileSourceValue url source size upstream) = some ⟨url, source, size, upstream⟩ ↔
      0x0A ∉ url ∧ 0x0A ∉ source ∧ upstream ≠ some [] := by
  constructor
  · exact splitFileSource_fields _ _
  · rintro ⟨hurl, hsource, hupstream⟩
    have hfirst := fun rest => Str.splitOnce_append 0x0A url rest hurl
    have hsecond := fun rest => Str.splitOnce_append 0x0A source rest hsource
    cases upstream with
    | none =>
      cases size with
      | none =>
        have hvalue : fileSourceValue url source none none = url ++ 0x0A :: source := by
          simp [fileSourceValue, newline]
        unfold splitFileSource
        rw [hvalue, hfirst]
        simp only [(Str.splitOnce_eq_none 0x0A source).mpr hsource]
      | some n =>
        have hvalue : fileSourceValue url source (some n) none =
            url ++ 0x0A :: (source ++ 0x0A :: str (toString n)) := by
          simp [fileSourceValue, newline]
        unfold splitFileSource
        rw [hvalue, hfirst]
        simp only [hsecond, (Str.splitOnce_eq_none 0x0A _).mpr (newline_not_mem_decimal n),
          parseU64_toString n (hsize n rfl)]
    | some name =>
      have hvalue : fileSourceValue url source size (some name) =
          url ++ 0x0A :: (source ++ 0x0A ::
            ((size.elim [] fun size => str (toString size)) ++ 0x0A :: name)) := by
        simp [fileSourceValue, newline]
      have htext : 0x0A ∉ (size.elim [] fun size => str (toString size)) ∧
          Str.parseU64 (size.elim [] fun size => str (toString size)) = size := by
        cases size with
        | none => exact ⟨List.not_mem_nil, by decide⟩
        | some n => exact ⟨newline_not_mem_decimal n, parseU64_toString n (hsize n rfl)⟩
      have hname : name ≠ [] := fun heq => hupstream (congrArg some heq)
      unfold splitFileSource
      rw [hvalue, hfirst]
      simp only [hsecond, Str.splitOnce_append 0x0A _ name htext.1, htext.2, if_neg hname]

theorem splitMetadata_value (url digest source : Str) :
    splitMetadata (metadataValue url digest source) = some (url, digest, source) ↔
      0x0A ∉ url ∧ 0x0A ∉ digest := by
  have hvalue : metadataValue url digest source = url ++ 0x0A :: (digest ++ 0x0A :: source) := by
    simp [metadataValue, newline]
  constructor
  · intro h
    unfold splitMetadata at h
    obtain ⟨⟨first, rest⟩, hurl, h⟩ := Option.bind_eq_some_iff.mp h
    obtain ⟨⟨second, last⟩, hdigest, h⟩ := Option.bind_eq_some_iff.mp h
    cases h
    exact ⟨Str.splitOnce_not_mem _ _ _ _ hurl, Str.splitOnce_not_mem _ _ _ _ hdigest⟩
  · rintro ⟨hurl, hdigest⟩
    unfold splitMetadata
    rw [hvalue, Str.splitOnce_append 0x0A url _ hurl]
    simp only [Option.bind_eq_bind, Option.bind_some, Str.splitOnce_append 0x0A digest _ hdigest]
    rfl

theorem splitProvenance_value (sha256 : Str) (size : Nat) (hsize : size < 2 ^ 64) :
    splitProvenance (provenanceValue sha256 size) = some (sha256, size) ↔ 0x0A ∉ sha256 := by
  have hvalue : provenanceValue sha256 size = sha256 ++ 0x0A :: str (toString size) := by
    simp [provenanceValue, newline]
  constructor
  · intro h
    unfold splitProvenance at h
    obtain ⟨⟨first, rest⟩, hfirst, h⟩ := Option.bind_eq_some_iff.mp h
    obtain ⟨found, _, h⟩ := Option.bind_eq_some_iff.mp h
    cases h
    exact Str.splitOnce_not_mem _ _ _ _ hfirst
  · intro hsha
    unfold splitProvenance
    rw [hvalue, Str.splitOnce_append 0x0A sha256 _ hsha]
    simp only [Option.bind_eq_bind, Option.bind_some, parseU64_toString size hsize]
    rfl

/-- The provenance of an artifact is put beside what its page registers. -/
def putProvenance (rows : Rows) (sha256 : Str) (provenance : Option (Str × Nat)) : Rows :=
  provenance.elim rows fun provenance =>
    rows.insert (provenanceKey sha256) (provenanceValue provenance.1 provenance.2)

structure RecordsKept (rows : Rows) (sha256 : Str) (found : FileSource) (metadata : Option Str)
    (provenance : Option (Str × Nat)) : Prop where
  source : getFileUrl rows sha256 = some found
  metadata : ∀ digest, metadata = some digest →
    getMetadata rows sha256 = some (metadataSibling found.url, digest, found.source)
  provenance : ∀ recorded, provenance = some recorded → getProvenance rows sha256 = some recorded

theorem fileSourceValue_isUtf8 (url source : Str) (size : Option Nat) (upstream : Option Str)
    (hurl : url.IsUtf8) (hsource : source.IsUtf8)
    (hupstream : ∀ name, upstream = some name → name.IsUtf8) :
    (fileSourceValue url source size upstream).IsUtf8 := by
  have hnewline : newline.IsUtf8 := by decide
  have hhead := (hurl.append hnewline).append hsource
  unfold fileSourceValue
  cases upstream with
  | none =>
    cases size with
    | none => exact hhead
    | some n => exact (hhead.append hnewline).append (Str.isUtf8_str _)
  | some name =>
    have hsize : Str.IsUtf8 (size.elim [] fun size => str (toString size)) := by
      cases size with
      | none => decide
      | some n => exact Str.isUtf8_str _
    exact (((hhead.append hnewline).append hsize).append hnewline).append (hupstream name rfl)

section Registered
variable (rows : Rows) (source : Str) (upstream : Option Str) (file : File) (sha256 : Str)
  (provenance : Option (Str × Nat))

theorem putProvenance_apart (rows : Rows) (key : Str) (h : provenanceKey sha256 ≠ key) :
    (putProvenance rows sha256 provenance)[key]? = rows[key]? := by
  cases provenance with
  | none => rfl
  | some recorded => exact Table.getElem?_set_of_ne rows _ key (some _) h

theorem registered_source (hsha : file.sha256 = some sha256) :
    (putProvenance (registerFileRows rows source upstream file) sha256 provenance)[fileKey sha256]? =
      some (fileSourceValue file.url source file.size upstream) := by
  rw [putProvenance_apart sha256 provenance _ (fileKey sha256)
    (key_ne _ _ rfl rfl (by decide) _ _)]
  have hput := Table.getElem?_set_self rows (fileKey sha256)
    (some (fileSourceValue file.url source file.size upstream))
  unfold registerFileRows
  rw [hsha]
  dsimp only
  cases claimedMetadata file with
  | none => exact hput
  | some digest =>
    exact (Table.getElem?_set_of_ne _ (metadataKey sha256) _ (some _)
      (key_ne _ _ rfl rfl (by decide) _ _)).trans hput

theorem registered_metadata (hsha : file.sha256 = some sha256) (digest : Str)
    (hdigest : claimedMetadata file = some digest) :
    (putProvenance (registerFileRows rows source upstream file) sha256
        provenance)[metadataKey sha256]? =
      some (metadataValue (metadataSibling file.url) digest source) := by
  rw [putProvenance_apart sha256 provenance _ (metadataKey sha256)
    (key_ne _ _ rfl rfl (by decide) _ _)]
  unfold registerFileRows
  rw [hsha, hdigest]
  exact Table.getElem?_set_self _ (metadataKey sha256) (some _)

end Registered

theorem getFileUrl_of_value (rows : Rows) (sha256 value : Str)
    (hrow : rows[fileKey sha256]? = some value) (htext : value.IsUtf8) :
    getFileUrl rows sha256 = splitFileSource value := by
  unfold getFileUrl
  rw [hrow, Option.bind_some, htext, Option.bind_some]

theorem getMetadata_of_value (rows : Rows) (sha256 value : Str)
    (hrow : rows[metadataKey sha256]? = some value) (htext : value.IsUtf8) :
    getMetadata rows sha256 = splitMetadata value := by
  unfold getMetadata
  rw [hrow, Option.bind_some, htext, Option.bind_some]

theorem getProvenance_of_value (rows : Rows) (sha256 value : Str)
    (hrow : rows[provenanceKey sha256]? = some value) (htext : value.IsUtf8) :
    getProvenance rows sha256 = splitProvenance value := by
  unfold getProvenance
  rw [hrow, Option.bind_some, htext, Option.bind_some]

/-- What is recorded of a page's file and of its provenance is read back exactly when no field
that a line break ends has one in it. -/
theorem records_kept_iff (urls : UrlParser) (hurls : urls.Written) (base : Str) (rows : Rows)
    (source : Str) (upstream : Option Str) (file : File) (sha256 : Str)
    (provenance : Option (Str × Nat)) (hsha : file.sha256 = some sha256)
    (htext : file.TextRegistered) (hsource : source.IsUtf8)
    (hupstream : ∀ name, upstream = some name → name.IsUtf8)
    (hsize : ∀ size, file.size = some size → size < 2 ^ 64)
    (hprovenance : ∀ recorded, provenance = some recorded →
      recorded.1.IsUtf8 ∧ recorded.2 < 2 ^ 64) :
    RecordsKept
        (putProvenance (registerFileRows rows source upstream
          (resolveUrl urls.absolutize (some base) file)) sha256 provenance)
        sha256 ⟨urls.absolutize base file.url, source, file.size, upstream⟩ (claimedMetadata file)
        provenance ↔
      urls.OneLine base file.url ∧ 0x0A ∉ source ∧ upstream ≠ some [] ∧
        (∀ digest, claimedMetadata file = some digest → 0x0A ∉ digest) ∧
        ∀ recorded, provenance = some recorded → 0x0A ∉ recorded.1 := by
  have hurl := absolutize_isUtf8 urls hurls base file.url htext.url
  have hfile := getFileUrl_of_value _ sha256 _
    (registered_source rows source upstream (resolveUrl urls.absolutize (some base) file) sha256
      provenance hsha)
    (fileSourceValue_isUtf8 (urls.absolutize base file.url) source file.size upstream hurl hsource
      hupstream)
  have hmetadata := fun digest hdigest => getMetadata_of_value _ sha256 _
    (registered_metadata rows source upstream (resolveUrl urls.absolutize (some base) file) sha256
      provenance hsha digest hdigest)
    (metadataValue_isUtf8 (metadataSibling (urls.absolutize base file.url)) digest source
      (metadataSibling_isUtf8 _ hurl) (htext.metadata digest hdigest) hsource)
  have hrecorded : ∀ recorded, provenance = some recorded →
      getProvenance (putProvenance (registerFileRows rows source upstream
        (resolveUrl urls.absolutize (some base) file)) sha256 provenance) sha256 =
      splitProvenance (provenanceValue recorded.1 recorded.2) := by
    rintro recorded rfl
    exact getProvenance_of_value _ sha256 _ (Table.getElem?_set_self _ (provenanceKey sha256) (some _))
      (((hprovenance recorded rfl).1.append (by decide)).append (Str.isUtf8_str _))
  have hkept := splitFileSource_value (urls.absolutize base file.url) source file.size upstream hsize
  rw [absolutize_oneLine urls hurls] at hkept
  constructor
  · rintro ⟨hfound, hsibling, hproven⟩
    obtain ⟨hline, hname, hnamed⟩ := hkept.mp (hfile.symm.trans hfound)
    refine ⟨hline, hname, hnamed, fun digest hdigest => ?_, fun recorded heq => ?_⟩
    · exact ((splitMetadata_value _ _ _).mp
        ((hmetadata digest hdigest).symm.trans (hsibling digest hdigest))).2
    · exact (splitProvenance_value _ _ (hprovenance recorded heq).2).mp
        ((hrecorded recorded heq).symm.trans (hproven recorded heq))
  · rintro ⟨hline, hname, hnamed, hdigests, hproven⟩
    refine ⟨hfile.trans (hkept.mpr ⟨hline, hname, hnamed⟩), fun digest hdigest => ?_,
      fun recorded heq => ?_⟩
    · refine (hmetadata digest hdigest).trans ((splitMetadata_value _ _ _).mpr
        ⟨?_, hdigests digest hdigest⟩)
      rw [mem_metadataSibling]
      exact (absolutize_oneLine urls hurls base file.url).mpr hline
    · exact (hrecorded recorded heq).trans
        ((splitProvenance_value _ _ (hprovenance recorded heq).2).mpr (hproven recorded heq))

namespace RecordSample

def urls : UrlParser where
  parses url := Str.startsWith (url.filter fun byte => byte != 0x0A) (str "https://")
  join base url := some ((base ++ url).filter fun byte => byte < 0x80 && byte != 0x0A)

theorem urls_written : urls.Written := by
  intro base url resolved h byte hbyte
  cases h
  have hboth := (List.mem_filter.mp hbyte).2
  rw [Bool.and_eq_true, decide_eq_true_eq, bne_iff_ne] at hboth
  exact hboth

def base : Str := str "https://pypi.example/simple/app/"

def file (url : String) : File where
  filename := str "app-1-py3-none-any.whl"
  url := str url
  hashes := Std.ExtTreeMap.ofList [(str "sha256", str "00")]
  size := some 5
  coreMetadata := .hashes (Std.ExtTreeMap.ofList [(str "sha256", str "01")])

def recorded (url : String) : Rows :=
  registerFileRows ∅ (str "pypi") none (resolveUrl urls.absolutize (some base) (file url))

end RecordSample

open RecordSample in
/-- A file beside its page, from a named upstream, with its provenance. -/
theorem relative_records_kept :
    RecordsKept
      (putProvenance (registerFileRows ∅ (str "pypi") (some (str "mirror"))
        (resolveUrl urls.absolutize (some base) (file "app-1-py3-none-any.whl"))) (str "00")
        (some (str "02", 7)))
      (str "00") ⟨str "https://pypi.example/simple/app/app-1-py3-none-any.whl", str "pypi", some 5,
        some (str "mirror")⟩ (some (str "01")) (some (str "02", 7)) := by
  refine (records_kept_iff urls urls_written base ∅ (str "pypi") (some (str "mirror"))
    (file "app-1-py3-none-any.whl") (str "00") (some (str "02", 7)) (by decide) ?_ (by decide) ?_ ?_
    ?_).mpr ⟨.inl (by decide), by decide, by decide, ?_, ?_⟩
  · exact ⟨by decide, fun digest hdigest => Option.some.inj hdigest ▸ by decide⟩
  · exact fun name hname => Option.some.inj hname ▸ by decide
  · exact fun size hsize => Option.some.inj hsize ▸ by decide
  · exact fun recorded hrecorded => Option.some.inj hrecorded ▸ by decide
  · exact fun digest hdigest => Option.some.inj hdigest ▸ by decide
  · exact fun recorded hrecorded => Option.some.inj hrecorded ▸ by decide

open RecordSample in
/-- A page of `pypi` has a file fetched through another index. -/
theorem url_names_index :
    getFileUrl (recorded "https://files.example/app.whl\nprivate") (str "00") =
        some ⟨str "https://files.example/app.whl", str "private", none, some (str "5")⟩ ∧
      ¬ ∀ file : File, file.sha256 = some (str "00") →
        RecordsKept (registerFileRows ∅ (str "pypi") none
            (resolveUrl urls.absolutize (some base) file)) (str "00")
          ⟨urls.absolutize base file.url, str "pypi", file.size, none⟩ (claimedMetadata file) none := by
  have hread : getFileUrl (recorded "https://files.example/app.whl\nprivate") (str "00") =
      some ⟨str "https://files.example/app.whl", str "private", none, some (str "5")⟩ := by
    decide +kernel
  refine ⟨hread, fun hclaim => ?_⟩
  have hkept := (hclaim (file "https://files.example/app.whl\nprivate") (by decide)).source
  have hsource := congrArg (Option.map FileSource.source) (hread.symm.trans hkept)
  exact absurd hsource (by decide)

end Peryx.Pypi
