import Peryx.Oci.Names

/-! # Routing a request path (peryx-ecosystem-oci/src/name.rs:9-101) -/

namespace Peryx.Oci

inductive OciRoute where
  | catalog
  | manifest (name : Str) (reference : Reference)
  | blob (name digest : Str)
  | blobContents (name digest : Str)
  | tagsList (name : Str)
  | referrers (name digest : Str)
  | uploadStart (name : Str)
  | uploadSession (name session : Str)
  deriving Repr, DecidableEq

def classifyVerb (components : List Str) (verb tail : Str) : Option OciRoute :=
  if verb = str "blobs" ∧ tail = str "uploads" then (joinName components).map .uploadStart
  else if verb = str "manifests" then
    (joinName components).bind fun name => (parseReference tail).map (.manifest name)
  else if verb = str "blobs" then
    (joinName components).bind fun name => (parseDigest tail).map (.blob name)
  else if verb = str "tags" ∧ tail = str "list" then (joinName components).map .tagsList
  else if verb = str "referrers" then
    -- the handler answers `400` to a malformed digest, so it is kept as it is
    (joinName components).map fun name => .referrers name tail
  else none

def classifySegments : List Str → Option OciRoute
  | tail :: verb :: anchor :: front =>
    if anchor = str "blobs" ∧ verb = str "uploads" then
      (joinName front.reverse).map fun name => .uploadSession name tail
    else if anchor = str "blobs" ∧ tail = str "contents" then
      (joinName front.reverse).bind fun name => (parseDigest verb).map (.blobContents name)
    else classifyVerb (anchor :: front).reverse verb tail
  | [tail, verb] => classifyVerb [] verb tail
  | _ => none

def classify (path : Str) : Option OciRoute :=
  (Str.stripPrefix path (str "/v2/")).bind fun rest =>
    let rest := (Str.stripSuffix rest (str "/")).getD rest
    if rest = str "_catalog" then some .catalog
    else
      let segments := Str.split 0x2F rest
      if segments.any List.isEmpty then none else classifySegments segments.reverse

def Reference.text : Reference → Str
  | .tag name => name
  | .digest text => text

def OciRoute.render : OciRoute → Str
  | .catalog => str "/v2/_catalog"
  | .manifest name reference => str "/v2/" ++ name ++ str "/manifests/" ++ reference.text
  | .blob name digest => str "/v2/" ++ name ++ str "/blobs/" ++ digest
  | .blobContents name digest => str "/v2/" ++ name ++ str "/blobs/" ++ digest ++ str "/contents"
  | .tagsList name => str "/v2/" ++ name ++ str "/tags/list"
  | .referrers name digest => str "/v2/" ++ name ++ str "/referrers/" ++ digest
  | .uploadStart name => str "/v2/" ++ name ++ str "/blobs/uploads/"
  | .uploadSession name session => str "/v2/" ++ name ++ str "/blobs/uploads/" ++ session

def IsSegment (segment : Str) : Prop := segment ≠ [] ∧ 0x2F ∉ segment

def CanonicalDigest (digest : Str) : Prop := IsDigest digest ∧ LowerCase digest

def Reference.Grammatical : Reference → Prop
  | .tag name => IsTag name
  | .digest text => CanonicalDigest text

/-- The components of an endpoint are those of the distribution grammar. -/
def OciRoute.Grammatical : OciRoute → Prop
  | .catalog => True
  | .manifest name reference => RepositoryName name ∧ reference.Grammatical
  | .blob name digest => RepositoryName name ∧ CanonicalDigest digest
  | .blobContents name digest => RepositoryName name ∧ CanonicalDigest digest
  | .tagsList name => RepositoryName name
  | .referrers name digest => RepositoryName name ∧ CanonicalDigest digest
  | .uploadStart name => RepositoryName name
  | .uploadSession name session => RepositoryName name ∧ IsSegment session

/-- A pull by the tag `contents` from a repository whose last component is `blobs`. -/
def OciRoute.Shadowed : OciRoute → Prop
  | .manifest name reference => reference = .tag (str "contents") ∧ str "/blobs" <:+ str "/" ++ name
  | _ => False

def OciRoute.Accepted : OciRoute → Prop
  | .catalog => True
  | .manifest name reference => RepositoryName name ∧ reference.Accepted
  | .blob name digest => RepositoryName name ∧ DigestShape digest
  | .blobContents name digest => RepositoryName name ∧ DigestShape digest
  | .tagsList name => RepositoryName name
  | .referrers name digest => RepositoryName name ∧ IsSegment digest
  | .uploadStart name => RepositoryName name
  | .uploadSession name session => RepositoryName name ∧ IsSegment session

theorem stripSuffix_slash (front tail : Str) (h : IsSegment tail) :
    Str.stripSuffix (front ++ tail) (str "/") = none := by
  cases hstrip : Str.stripSuffix (front ++ tail) (str "/") with
  | none => rfl
  | some base =>
    have heq := Str.stripSuffix_eq_some _ _ _ hstrip
    have hlast := congrArg List.getLast? heq
    rw [List.getLast?_append_of_ne_nil _ h.1, List.getLast?_eq_some_getLast h.1,
      List.getLast?_append_of_ne_nil base (by decide)] at hlast
    have hslash : tail.getLast h.1 = 0x2F := Option.some.inj hlast
    exact absurd (hslash ▸ List.getLast_mem h.1) h.2

theorem stripSuffix_append (front ending : Str) :
    Str.stripSuffix (front ++ ending) ending = some front := by
  unfold Str.stripSuffix
  rw [if_pos (List.isSuffixOf_iff_suffix.mpr (List.suffix_append front ending))]
  simp

theorem split_plain (text segment : Str) (h : segment ∈ Str.split 0x2F text) : 0x2F ∉ segment := by
  unfold Str.split at h
  induction text generalizing segment with
  | nil =>
    rw [List.splitOn_nil, List.mem_singleton] at h
    rw [h]
    exact List.not_mem_nil
  | cons byte text ih =>
    rw [List.splitOn_cons_eq_if_modifyHead] at h
    split at h
    · rcases List.mem_cons.mp h with heq | hmem
      · rw [heq]
        exact List.not_mem_nil
      · exact ih segment hmem
    · rename_i hbyte
      cases hsplit : text.splitOn 0x2F with
      | nil => exact absurd hsplit (List.splitOn_ne_nil _ _)
      | cons first rest =>
        rw [hsplit, List.modifyHead_cons] at h
        rcases List.mem_cons.mp h with heq | hmem
        · rw [heq, List.mem_cons, not_or]
          refine ⟨fun heq => hbyte ?_, ih first (hsplit ▸ List.mem_cons_self)⟩
          rw [← heq]
          exact beq_self_eq_true _
        · exact ih segment (hsplit ▸ List.mem_cons_of_mem _ hmem)

theorem split_segments (segments : List Str) (hne : segments ≠ [])
    (h : ∀ segment ∈ segments, 0x2F ∉ segment) :
    Str.split 0x2F ([0x2F].intercalate segments) = segments :=
  List.splitOn_intercalate 0x2F h hne

theorem intercalate_concat (segments : List Str) (hne : segments ≠ []) (last : Str) :
    [0x2F].intercalate (segments ++ [last]) = [0x2F].intercalate segments ++ 0x2F :: last := by
  induction segments with
  | nil => exact absurd rfl hne
  | cons segment segments ih =>
    cases segments with
    | nil =>
      rw [List.singleton_append, List.intercalate_cons_cons, List.intercalate_singleton,
        List.intercalate_singleton, List.append_assoc, List.singleton_append]
    | cons next segments =>
      rw [List.cons_append, List.cons_append, List.intercalate_cons_cons, ← List.cons_append,
        ih (List.cons_ne_nil _ _), List.intercalate_cons_cons]
      simp only [List.append_assoc]

theorem classify_segments (rest : Str) (segments : List Str) (tail : Str)
    (hstrip : (Str.stripSuffix rest (str "/")).getD rest = [0x2F].intercalate (segments ++ [tail]))
    (hne : segments ≠ []) (h : ∀ segment ∈ segments, IsSegment segment) (htail : IsSegment tail) :
    classify (str "/v2/" ++ rest) = classifySegments (tail :: segments.reverse) := by
  have hall : ∀ segment ∈ segments ++ [tail], IsSegment segment := by
    intro segment hmem
    rcases List.mem_append.mp hmem with hmem | hmem
    · exact h segment hmem
    · exact List.mem_singleton.mp hmem ▸ htail
  have hcatalog : [0x2F].intercalate (segments ++ [tail]) ≠ str "_catalog" := by
    intro heq
    have hslash : 0x2F ∈ [0x2F].intercalate (segments ++ [tail]) := by
      rw [intercalate_concat segments hne]
      exact List.mem_append_right _ List.mem_cons_self
    rw [heq] at hslash
    exact absurd hslash (by decide)
  have hsplit := split_segments (segments ++ [tail]) (List.append_ne_nil_of_right_ne_nil _ nofun)
    fun segment hmem => (hall segment hmem).2
  have hany : (segments ++ [tail]).any List.isEmpty = false := by
    rw [List.any_eq_false]
    exact fun segment hmem => by simpa using (hall segment hmem).1
  unfold classify
  rw [(Str.stripPrefix_eq_some _ _ rest).mpr rfl, Option.bind_some]
  simp only [hstrip, hsplit, hany, if_neg hcatalog, List.reverse_append, List.reverse_singleton,
    List.singleton_append, Bool.false_eq_true, if_false]

theorem PathComponent.isSegment {component : Str} (h : PathComponent component) :
    IsSegment component := ⟨h.ne_nil, h.slash⟩

theorem ends_blobs (front : List Str) :
    str "/blobs" <:+ str "/" ++ [0x2F].intercalate (front ++ [str "blobs"]) := by
  by_cases hne : front = []
  · rw [hne, List.nil_append, List.intercalate_singleton]
    exact List.suffix_rfl
  · rw [intercalate_concat front hne, ← List.append_assoc]
    exact List.suffix_append _ (str "/blobs")

theorem classify_verb (name verb tail rest : Str) (hname : RepositoryName name)
    (hverb : IsSegment verb) (htail : IsSegment tail)
    (hstrip : (Str.stripSuffix rest (str "/")).getD rest =
      name ++ str "/" ++ verb ++ str "/" ++ tail)
    (huploads : verb ≠ str "uploads")
    (hcontents : tail = str "contents" → ¬ str "/blobs" <:+ str "/" ++ name) :
    ∃ components, joinName components = some name ∧
      classify (str "/v2/" ++ rest) = classifyVerb components verb tail := by
  obtain ⟨components, hne, hcomponents, hjoin, hlength⟩ := hname
  refine ⟨components, (joinName_eq_some _ _).mpr ⟨hne, hcomponents, hjoin, hlength⟩, ?_⟩
  have hpath : (Str.stripSuffix rest (str "/")).getD rest =
      [0x2F].intercalate (components ++ [verb] ++ [tail]) := by
    rw [hstrip, intercalate_concat _ (List.append_ne_nil_of_left_ne_nil hne _),
      intercalate_concat _ hne, ← hjoin, List.append_assoc, List.append_assoc, List.append_assoc,
      List.append_assoc]
    rfl
  have hsegments : ∀ segment ∈ components ++ [verb], IsSegment segment := by
    intro segment hmem
    rcases List.mem_append.mp hmem with hmem | hmem
    · exact (hcomponents segment hmem).isSegment
    · exact List.mem_singleton.mp hmem ▸ hverb
  rw [classify_segments rest (components ++ [verb]) tail hpath
    (List.append_ne_nil_of_left_ne_nil hne _) hsegments htail, List.reverse_append,
    List.reverse_singleton, List.singleton_append]
  cases hreverse : components.reverse with
  | nil => exact absurd (List.reverse_eq_nil_iff.mp hreverse) hne
  | cons anchor front =>
    have hback : components = front.reverse ++ [anchor] := by
      rw [← List.reverse_cons, ← hreverse, List.reverse_reverse]
    have hbrowse : ¬ (anchor = str "blobs" ∧ tail = str "contents") := by
      intro h
      refine hcontents h.2 ?_
      rw [hjoin, hback, h.1]
      exact ends_blobs front.reverse
    rw [classifySegments, if_neg fun h => huploads h.2, if_neg hbrowse, ← hreverse,
      List.reverse_reverse]

theorem classify_blobs (name verb tail rest : Str) (hname : RepositoryName name)
    (hverb : IsSegment verb) (htail : IsSegment tail)
    (hstrip : (Str.stripSuffix rest (str "/")).getD rest =
      name ++ str "/blobs/" ++ verb ++ str "/" ++ tail) :
    ∃ components, joinName components = some name ∧ classify (str "/v2/" ++ rest) =
      classifySegments (tail :: verb :: str "blobs" :: components.reverse) := by
  obtain ⟨components, hne, hcomponents, hjoin, hlength⟩ := hname
  refine ⟨components, (joinName_eq_some _ _).mpr ⟨hne, hcomponents, hjoin, hlength⟩, ?_⟩
  have hblobs : components ++ [str "blobs"] ≠ [] := List.append_ne_nil_of_left_ne_nil hne _
  have hpath : (Str.stripSuffix rest (str "/")).getD rest =
      [0x2F].intercalate (components ++ [str "blobs"] ++ [verb] ++ [tail]) := by
    rw [hstrip, intercalate_concat _ (List.append_ne_nil_of_left_ne_nil hblobs _),
      intercalate_concat _ hblobs, intercalate_concat _ hne, ← hjoin]
    simp only [List.append_assoc]
    rfl
  have hsegments : ∀ segment ∈ components ++ [str "blobs"] ++ [verb], IsSegment segment := by
    intro segment hmem
    rcases List.mem_append.mp hmem with hmem | hmem
    · rcases List.mem_append.mp hmem with hmem | hmem
      · exact (hcomponents segment hmem).isSegment
      · rw [List.mem_singleton.mp hmem]
        exact ⟨by decide, by decide⟩
    · exact List.mem_singleton.mp hmem ▸ hverb
  rw [classify_segments rest _ tail hpath (List.append_ne_nil_of_left_ne_nil hblobs _) hsegments
    htail]
  simp only [List.reverse_append, List.reverse_singleton, List.singleton_append]

theorem CanonicalDigest.shape {digest : Str} (h : CanonicalDigest digest) : DigestShape digest :=
  h.1.shape h.2

theorem DigestShape.isSegment {digest : Str} (h : DigestShape digest) : IsSegment digest :=
  ⟨List.ne_nil_of_mem h.bytes.1, h.bytes.2⟩

theorem DigestShape.ne_of_plain {digest : Str} (h : DigestShape digest) (text : Str)
    (htext : 0x3A ∉ text) : digest ≠ text :=
  fun heq => htext (heq ▸ h.bytes.1)

theorem IsTag.isSegment {tag : Str} (h : IsTag tag) : IsSegment tag := by
  refine ⟨?_, fun hmem => absurd (h.bytes _ hmem) (by decide)⟩
  obtain ⟨first, rest, rfl, _⟩ := h
  exact List.cons_ne_nil _ _

theorem Reference.Grammatical.isSegment {reference : Reference} (h : reference.Grammatical) :
    IsSegment reference.text := by
  cases reference with
  | tag name => exact IsTag.isSegment h
  | digest text => exact (CanonicalDigest.shape h).isSegment

theorem Reference.Grammatical.parse {reference : Reference} (h : reference.Grammatical) :
    parseReference reference.text = some reference := by
  cases reference with
  | tag name => exact parseReference_tag name h
  | digest text => exact parseReference_digest text (CanonicalDigest.shape h)

theorem kept_path (name verb tail : Str) (htail : IsSegment tail) :
    (Str.stripSuffix (name ++ (str "/" ++ verb ++ str "/") ++ tail) (str "/")).getD
        (name ++ (str "/" ++ verb ++ str "/") ++ tail) =
      name ++ str "/" ++ verb ++ str "/" ++ tail := by
  rw [stripSuffix_slash _ tail htail, Option.getD_none]
  simp only [List.append_assoc]

theorem classify_manifest (name : Str) (reference : Reference) (hname : RepositoryName name)
    (href : reference.Grammatical) (hshadow : ¬ (OciRoute.manifest name reference).Shadowed) :
    classify (OciRoute.manifest name reference).render = some (.manifest name reference) := by
  have hcontents : reference.text = str "contents" → ¬ str "/blobs" <:+ str "/" ++ name := by
    intro htext hblobs
    cases reference with
    | tag tag => exact hshadow ⟨congrArg Reference.tag htext, hblobs⟩
    | digest digest => exact (CanonicalDigest.shape href).ne_of_plain _ (by decide) htext
  obtain ⟨components, hjoin, hclassify⟩ := classify_verb name (str "manifests") reference.text _
    hname ⟨by decide, by decide⟩ href.isSegment (kept_path name _ _ href.isSegment) (by decide)
    hcontents
  have hrender : (OciRoute.manifest name reference).render =
      str "/v2/" ++ (name ++ (str "/" ++ str "manifests" ++ str "/") ++ reference.text) := by
    simp only [OciRoute.render, List.append_assoc]
    rfl
  have hnot : ¬ (str "manifests" = str "blobs" ∧ reference.text = str "uploads") :=
    fun h => absurd h.1 (by decide)
  rw [hrender, hclassify, classifyVerb, if_neg hnot, if_pos rfl, hjoin, Option.bind_some,
    href.parse]
  rfl

theorem classify_blob (name digest : Str) (hname : RepositoryName name)
    (hdigest : CanonicalDigest digest) :
    classify (OciRoute.blob name digest).render = some (.blob name digest) := by
  have hshape := hdigest.shape
  obtain ⟨components, hjoin, hclassify⟩ := classify_verb name (str "blobs") digest _ hname
    ⟨by decide, by decide⟩ hshape.isSegment (kept_path name _ _ hshape.isSegment) (by decide)
    fun h => absurd h (hshape.ne_of_plain _ (by decide))
  have hrender : (OciRoute.blob name digest).render =
      str "/v2/" ++ (name ++ (str "/" ++ str "blobs" ++ str "/") ++ digest) := by
    simp only [OciRoute.render, List.append_assoc]
    rfl
  have huploads : ¬ (str "blobs" = str "blobs" ∧ digest = str "uploads") :=
    fun h => hshape.ne_of_plain _ (by decide) h.2
  rw [hrender, hclassify, classifyVerb, if_neg huploads, if_neg (by decide), if_pos rfl, hjoin,
    Option.bind_some, (parseDigest_eq_some digest digest).mpr ⟨rfl, hshape⟩]
  rfl

theorem classify_blobContents (name digest : Str) (hname : RepositoryName name)
    (hdigest : CanonicalDigest digest) :
    classify (OciRoute.blobContents name digest).render = some (.blobContents name digest) := by
  have hshape := hdigest.shape
  have hsegment : IsSegment (str "contents") := ⟨by decide, by decide⟩
  have hstrip : (Str.stripSuffix (name ++ str "/blobs/" ++ digest ++ str "/" ++ str "contents")
      (str "/")).getD (name ++ str "/blobs/" ++ digest ++ str "/" ++ str "contents") =
        name ++ str "/blobs/" ++ digest ++ str "/" ++ str "contents" := by
    rw [stripSuffix_slash _ _ hsegment]
    rfl
  obtain ⟨components, hjoin, hclassify⟩ := classify_blobs name digest (str "contents") _ hname
    hshape.isSegment hsegment hstrip
  have hrender : (OciRoute.blobContents name digest).render =
      str "/v2/" ++ (name ++ str "/blobs/" ++ digest ++ str "/" ++ str "contents") := by
    simp only [OciRoute.render, List.append_assoc]
    rfl
  have huploads : ¬ (str "blobs" = str "blobs" ∧ digest = str "uploads") :=
    fun h => hshape.ne_of_plain _ (by decide) h.2
  rw [hrender, hclassify, classifySegments, if_neg huploads, if_pos ⟨rfl, rfl⟩,
    List.reverse_reverse, hjoin, Option.bind_some,
    (parseDigest_eq_some digest digest).mpr ⟨rfl, hshape⟩]
  rfl

theorem classify_tagsList (name : Str) (hname : RepositoryName name) :
    classify (OciRoute.tagsList name).render = some (.tagsList name) := by
  have hsegment : IsSegment (str "list") := ⟨by decide, by decide⟩
  obtain ⟨components, hjoin, hclassify⟩ := classify_verb name (str "tags") (str "list") _ hname
    ⟨by decide, by decide⟩ hsegment (kept_path name _ _ hsegment) (by decide)
    fun h => absurd h (by decide)
  have hrender : (OciRoute.tagsList name).render =
      str "/v2/" ++ (name ++ (str "/" ++ str "tags" ++ str "/") ++ str "list") := by
    simp only [OciRoute.render, List.append_assoc]
    rfl
  rw [hrender, hclassify, classifyVerb, if_neg (by decide), if_neg (by decide), if_neg (by decide),
    if_pos ⟨rfl, rfl⟩, hjoin]
  rfl

theorem classify_referrers (name digest : Str) (hname : RepositoryName name)
    (hdigest : CanonicalDigest digest) :
    classify (OciRoute.referrers name digest).render = some (.referrers name digest) := by
  have hshape := hdigest.shape
  obtain ⟨components, hjoin, hclassify⟩ := classify_verb name (str "referrers") digest _ hname
    ⟨by decide, by decide⟩ hshape.isSegment (kept_path name _ _ hshape.isSegment) (by decide)
    fun h => absurd h (hshape.ne_of_plain _ (by decide))
  have hrender : (OciRoute.referrers name digest).render =
      str "/v2/" ++ (name ++ (str "/" ++ str "referrers" ++ str "/") ++ digest) := by
    simp only [OciRoute.render, List.append_assoc]
    rfl
  have huploads : ¬ (str "referrers" = str "blobs" ∧ digest = str "uploads") :=
    fun h => absurd h.1 (by decide)
  have hlist : ¬ (str "referrers" = str "tags" ∧ digest = str "list") :=
    fun h => absurd h.1 (by decide)
  rw [hrender, hclassify, classifyVerb, if_neg huploads, if_neg (by decide), if_neg (by decide),
    if_neg hlist, if_pos rfl, hjoin]
  rfl

theorem classify_uploadStart (name : Str) (hname : RepositoryName name) :
    classify (OciRoute.uploadStart name).render = some (.uploadStart name) := by
  have hsegment : IsSegment (str "uploads") := ⟨by decide, by decide⟩
  have hstrip : (Str.stripSuffix (name ++ str "/blobs/uploads" ++ str "/") (str "/")).getD
      (name ++ str "/blobs/uploads" ++ str "/") =
        name ++ str "/" ++ str "blobs" ++ str "/" ++ str "uploads" := by
    rw [stripSuffix_append, Option.getD_some]
    simp only [List.append_assoc]
    rfl
  obtain ⟨components, hjoin, hclassify⟩ := classify_verb name (str "blobs") (str "uploads") _ hname
    ⟨by decide, by decide⟩ hsegment hstrip (by decide) fun h => absurd h (by decide)
  have hrender : (OciRoute.uploadStart name).render =
      str "/v2/" ++ (name ++ str "/blobs/uploads" ++ str "/") := by
    simp only [OciRoute.render, List.append_assoc]
    rfl
  rw [hrender, hclassify, classifyVerb, if_pos ⟨rfl, rfl⟩, hjoin]
  rfl

theorem classify_uploadSession (name session : Str) (hname : RepositoryName name)
    (hsession : IsSegment session) :
    classify (OciRoute.uploadSession name session).render = some (.uploadSession name session) := by
  have hstrip : (Str.stripSuffix (name ++ str "/blobs/" ++ str "uploads" ++ str "/" ++ session)
      (str "/")).getD (name ++ str "/blobs/" ++ str "uploads" ++ str "/" ++ session) =
        name ++ str "/blobs/" ++ str "uploads" ++ str "/" ++ session := by
    rw [stripSuffix_slash _ _ hsession]
    rfl
  obtain ⟨components, hjoin, hclassify⟩ := classify_blobs name (str "uploads") session _ hname
    ⟨by decide, by decide⟩ hsession hstrip
  have hrender : (OciRoute.uploadSession name session).render =
      str "/v2/" ++ (name ++ str "/blobs/" ++ str "uploads" ++ str "/" ++ session) := by
    simp only [OciRoute.render, List.append_assoc]
    rfl
  rw [hrender, hclassify, classifySegments, if_pos ⟨rfl, rfl⟩, List.reverse_reverse, hjoin]
  rfl

theorem classify_render (route : OciRoute) (h : route.Grammatical) (hshadow : ¬ route.Shadowed) :
    classify route.render = some route := by
  cases route with
  | catalog => decide
  | manifest name reference => exact classify_manifest name reference h.1 h.2 hshadow
  | blob name digest => exact classify_blob name digest h.1 h.2
  | blobContents name digest => exact classify_blobContents name digest h.1 h.2
  | tagsList name => exact classify_tagsList name h
  | referrers name digest => exact classify_referrers name digest h.1 h.2
  | uploadStart name => exact classify_uploadStart name h
  | uploadSession name session => exact classify_uploadSession name session h.1 h.2

theorem classifyVerb_accepted (components : List Str) (verb tail : Str) (htail : IsSegment tail)
    (route : OciRoute) (h : classifyVerb components verb tail = some route) : route.Accepted := by
  have hname : ∀ name, joinName components = some name → RepositoryName name :=
    fun name => joinName_repositoryName components name
  unfold classifyVerb at h
  split at h
  · obtain ⟨name, hjoin, rfl⟩ := Option.map_eq_some_iff.mp h
    exact hname name hjoin
  · split at h
    · obtain ⟨name, hjoin, h⟩ := Option.bind_eq_some_iff.mp h
      obtain ⟨reference, hreference, rfl⟩ := Option.map_eq_some_iff.mp h
      exact ⟨hname name hjoin, parseReference_accepted tail reference hreference⟩
    · split at h
      · obtain ⟨name, hjoin, h⟩ := Option.bind_eq_some_iff.mp h
        obtain ⟨digest, hdigest, rfl⟩ := Option.map_eq_some_iff.mp h
        obtain ⟨rfl, hshape⟩ := (parseDigest_eq_some tail digest).mp hdigest
        exact ⟨hname name hjoin, hshape⟩
      · split at h
        · obtain ⟨name, hjoin, rfl⟩ := Option.map_eq_some_iff.mp h
          exact hname name hjoin
        · split at h
          · obtain ⟨name, hjoin, rfl⟩ := Option.map_eq_some_iff.mp h
            exact ⟨hname name hjoin, htail⟩
          · cases h

theorem classifySegments_accepted (segments : List Str)
    (hall : ∀ segment ∈ segments, IsSegment segment) (route : OciRoute)
    (h : classifySegments segments = some route) : route.Accepted := by
  match segments, hall, h with
  | [], _, h => cases h
  | [_], _, h => cases h
  | [tail, verb], hall, h =>
    exact classifyVerb_accepted [] verb tail (hall tail List.mem_cons_self) route h
  | tail :: verb :: anchor :: front, hall, h =>
    have htail := hall tail List.mem_cons_self
    rw [classifySegments] at h
    split at h
    · obtain ⟨name, hjoin, rfl⟩ := Option.map_eq_some_iff.mp h
      exact ⟨joinName_repositoryName _ name hjoin, htail⟩
    · split at h
      · obtain ⟨name, hjoin, h⟩ := Option.bind_eq_some_iff.mp h
        obtain ⟨digest, hdigest, rfl⟩ := Option.map_eq_some_iff.mp h
        obtain ⟨rfl, hshape⟩ := (parseDigest_eq_some verb digest).mp hdigest
        exact ⟨joinName_repositoryName _ name hjoin, hshape⟩
      · exact classifyVerb_accepted _ verb tail htail route h

theorem classify_accepted (path : Str) (route : OciRoute) (h : classify path = some route) :
    route.Accepted := by
  unfold classify at h
  obtain ⟨rest, _, h⟩ := Option.bind_eq_some_iff.mp h
  dsimp only at h
  split at h
  · cases h
    trivial
  · split at h
    · cases h
    · rename_i hempty
      refine classifySegments_accepted _ (fun segment hmem => ?_) route h
      rw [List.mem_reverse] at hmem
      refine ⟨fun hnil => hempty ?_, split_plain _ segment hmem⟩
      exact List.any_eq_true.mpr ⟨segment, hmem, hnil ▸ rfl⟩

/-- The endpoints are read back, and what is read was checked. -/
theorem classify_inverts_render :
    (∀ route : OciRoute, route.Grammatical → ¬ route.Shadowed →
      classify route.render = some route) ∧
    ∀ (path : Str) (route : OciRoute), classify path = some route → route.Accepted :=
  ⟨classify_render, classify_accepted⟩

theorem teamBlobs_name : RepositoryName (str "team/blobs") := by
  have hteam : IsRun (str "team") := ⟨by decide, Str.forall_of_all (by decide)⟩
  have hblobs : IsRun (str "blobs") := ⟨by decide, Str.forall_of_all (by decide)⟩
  refine ⟨[str "team", str "blobs"], by decide, fun component hmem => ?_, by decide, by decide⟩
  rcases List.mem_cons.mp hmem with heq | hmem
  · exact heq ▸ PathComponent.run _ hteam
  · exact List.mem_singleton.mp hmem ▸ PathComponent.run _ hblobs

theorem classify_latest_of_blobs :
    classify (OciRoute.manifest (str "team/blobs") (.tag (str "latest"))).render =
        some (.manifest (str "team/blobs") (.tag (str "latest"))) ∧
      (OciRoute.tagsList (str "team")).Accepted := by
  have htag : IsTag (str "latest") := (validTag_iff _).mp (by decide)
  have hshadow : ¬ (OciRoute.manifest (str "team/blobs") (.tag (str "latest"))).Shadowed :=
    fun h => absurd h.1 (by decide)
  exact ⟨classify_inverts_render.1 _ ⟨teamBlobs_name, htag⟩ hshadow,
    classify_inverts_render.2 (str "/v2/team/tags/list") _ (by decide)⟩

/-- A repository may end in `blobs` and hold the tag `contents`. An upper-case encoding is
refused, and a referrers digest is left to the handler. -/
theorem classify_contents_of_blobs :
    ((OciRoute.manifest (str "team/blobs") (.tag (str "contents"))).Grammatical ∧
      classify (OciRoute.manifest (str "team/blobs") (.tag (str "contents"))).render = none) ∧
    (RepositoryName (str "team/blobs") ∧ IsDigest (str "custom:AB") ∧
      classify (OciRoute.blob (str "team/blobs") (str "custom:AB")).render = none) ∧
    classify (str "/v2/team/referrers/oops") = some (.referrers (str "team") (str "oops")) ∧
      ¬ IsDigest (str "oops") := by
  have htag : IsTag (str "contents") := (validTag_iff _).mp (by decide)
  have hcustom : IsRun (str "custom") := ⟨by decide, Str.forall_of_all (by decide)⟩
  have hdigest : IsDigest (str "custom:AB") :=
    ⟨str "custom", str "AB", by decide, Algorithm.run _ hcustom, by decide,
      Str.forall_of_all (by decide)⟩
  have hoops : ¬ IsDigest (str "oops") := by
    intro h
    obtain ⟨algorithm, encoded, heq, _⟩ := h
    have hcolon : 0x3A ∈ str "oops" := by
      rw [heq]
      exact List.mem_append_right _ List.mem_cons_self
    exact absurd hcolon (by decide)
  exact ⟨⟨⟨teamBlobs_name, htag⟩, by decide⟩, ⟨teamBlobs_name, hdigest, by decide⟩, by decide, hoops⟩

end Peryx.Oci
