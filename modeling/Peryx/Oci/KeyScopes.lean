import Peryx.Library.Terminated
import Peryx.Oci.Names
import Peryx.Oci.References

/-! # Keys of a repository's rows (peryx-ecosystem-oci/src/store.rs) -/

namespace Peryx.Oci
open Storage Terminated

def IsReference (text : Str) : Prop := (parseReference text).isSome = true

inductive StoreKey where
  | manifest (digest : Str)
  | tag (index repo tag : Str)
  | tagFreshness (index repo tag : Str)
  | membership (index repo digest : Str)
  | blobMembership (index repo digest : Str)
  | referrer (index repo subject referrer : Str)

namespace StoreKey

def text : StoreKey → Str
  | manifest digest => manifestKey digest
  | tag index repo name => tagKey index repo name
  | tagFreshness index repo name => tagFreshnessKey index repo name
  | membership index repo digest => membershipKey index repo digest
  | blobMembership index repo digest => blobMembershipKey index repo digest
  | referrer index repo subject digest => referrerPrefix index repo subject ++ digest

def Accepted : StoreKey → Prop
  | manifest digest => IsReference digest
  | tag _ repo reference | tagFreshness _ repo reference | membership _ repo reference
  | blobMembership _ repo reference => RepositoryName repo ∧ IsReference reference
  | referrer _ repo subject digest =>
    RepositoryName repo ∧ (parseDigest subject).isSome = true ∧ (parseDigest digest).isSome = true

def index : StoreKey → Option Str
  | manifest _ => none
  | tag index _ _ | tagFreshness index _ _ | membership index _ _ | blobMembership index _ _
  | referrer index _ _ _ => some index

def repository : StoreKey → Option (Str × Str)
  | manifest _ => none
  | tag index repo _ | tagFreshness index repo _ | membership index repo _
  | blobMembership index repo _ | referrer index repo _ _ => some (index, repo)

end StoreKey

/-- The prefix scans for one repository: `list_tags` and `delete_repo_tags_to`,
`reachable_as_child`, `delete_repo_tags_to` again, and `list_referrers`. -/
inductive RepositoryScan where
  | tags
  | memberships
  | referrers
  | referrersOf (subject : Str)

def RepositoryScan.start : RepositoryScan → Str → Str → Str
  | tags, index, repo => tagPrefix index repo
  | memberships, index, repo => membershipPrefix index repo
  | referrers, index, repo => scopedPrefix referrerPrefixAll index repo
  | referrersOf subject, index, repo => referrerPrefix index repo subject

def indexPrefix (index : Str) : Str := tagPrefixAll ++ index ++ [0]

def listRepositories (rows : Rows) (index : Str) : List Str :=
  (keysUnder rows (indexPrefix index)).filterMap fun key =>
    (Str.stripPrefix key (indexPrefix index)).bind fun rest => (rsplitNul rest).map Prod.fst

structure Clean (name : Str) : Prop where
  segments : ∀ segment ∈ Str.split 0x2F name, segment ≠ []
  nul : 0 ∉ name
  dots : ¬ str ".." <:+: name

def NotBothDots (a b : UInt8) : Prop := ¬ (a = 0x2E ∧ b = 0x2E)

theorem isChain_of_no_dot (text : Str) (h : 0x2E ∉ text) : text.IsChain NotBothDots := by
  induction text with
  | nil => exact .nil
  | cons first text ih =>
    rw [List.mem_cons, not_or] at h
    cases text with
    | nil => exact .singleton _
    | cons second text =>
      exact .cons_cons (fun hboth => h.1 hboth.1.symm) (ih h.2)

theorem Separator.isChain {separator : Str} (h : Separator separator) :
    separator.IsChain NotBothDots := by
  cases h with
  | dot => exact .singleton _
  | underscore => exact .singleton _
  | underscores => exact isChain_of_no_dot _ (by decide)
  | dashes n =>
    exact isChain_of_no_dot _ fun hmem => absurd (List.eq_of_mem_replicate hmem) (by decide)

theorem PathComponent.head_ne {component : Str} (h : PathComponent component) :
    ∀ byte ∈ component.head?, byte ≠ 0x2E := by
  have hstart := (validNameComponent_iff component).mpr h
  unfold validNameComponent at hstart
  rw [Bool.and_eq_true, Bool.and_eq_true] at hstart
  intro byte hbyte hdot
  rw [Option.mem_def] at hbyte
  have hname := hstart.1.1
  rw [hbyte, hdot] at hname
  exact absurd hname (by decide)

theorem PathComponent.isChain {component : Str} (h : PathComponent component) :
    component.IsChain NotBothDots := by
  induction h with
  | run run hrun => exact isChain_of_no_dot run fun hmem => absurd (hrun.2 _ hmem) (by decide)
  | join run separator rest hrun hseparator hrest ih =>
    have hdot : 0x2E ∉ run := fun hmem => absurd (hrun.2 _ hmem) (by decide)
    rw [List.isChain_append, List.isChain_append]
    refine ⟨⟨isChain_of_no_dot run hdot, hseparator.isChain, fun x hx y _ hboth => ?_⟩, ih,
      fun x _ y hy hboth => hrest.head_ne y hy hboth.2⟩
    exact hdot (hboth.1 ▸ List.mem_of_getLast? hx)

theorem isChain_intercalate (components : List Str)
    (h : ∀ component ∈ components, PathComponent component) :
    ([0x2F].intercalate components : Str).IsChain NotBothDots := by
  induction components with
  | nil => exact .nil
  | cons first components ih =>
    obtain ⟨hfirst, hrest⟩ := List.forall_mem_cons.mp h
    cases components with
    | nil =>
      rw [List.intercalate_singleton]
      exact hfirst.isChain
    | cons second components =>
      rw [List.intercalate_cons_cons, List.isChain_append, List.isChain_append]
      refine ⟨⟨hfirst.isChain, .singleton _, fun x _ y hy hboth => ?_⟩, ih hrest,
        fun x hx y _ hboth => ?_⟩
      · cases hy
        exact absurd hboth.2 (by decide)
      · have hslash : x = 0x2F := by simpa using hx.symm
        exact absurd (hslash ▸ hboth.1) (by decide)

theorem RepositoryName.clean {name : Str} (h : RepositoryName name) : Clean name := by
  have hbytes := h.bytes
  obtain ⟨components, hne, hcomponents, rfl, -⟩ := h
  have hsplit : Str.split 0x2F ([0x2F].intercalate components) = components :=
    List.splitOn_intercalate 0x2F (fun component hmem => (hcomponents component hmem).slash) hne
  refine ⟨fun segment hmem => ?_, fun hmem => ?_, fun hdots => ?_⟩
  · rw [hsplit] at hmem
    exact (hcomponents segment hmem).ne_nil
  · rcases hbytes 0 hmem with h | h
    · exact absurd h (by decide)
    · exact absurd h (by decide)
  · have hchain := List.IsChain.infix (isChain_intercalate components hcomponents) hdots
    cases hchain with
    | cons_cons hboth _ => exact hboth ⟨rfl, rfl⟩

theorem RepositoryName.nul {name : Str} (h : RepositoryName name) : 0 ∉ name := h.clean.nul

theorem RepositoryName.colon {name : Str} (h : RepositoryName name) : 0x3A ∉ name := by
  intro hmem
  rcases h.bytes _ hmem with h | h
  · exact absurd h (by decide)
  · exact absurd h (by decide)

theorem DigestShape.nul {digest : Str} (h : DigestShape digest) : 0 ∉ digest := by
  obtain ⟨algorithm, encoded, rfl, _, halgorithm, _, hencoded⟩ := h
  intro hmem
  rcases List.mem_append.mp hmem with hmem | hmem
  · exact absurd (halgorithm _ hmem) (by decide)
  · rcases List.mem_cons.mp hmem with hmem | hmem
    · exact absurd hmem (by decide)
    · exact absurd (hencoded _ hmem) (by decide)

theorem parseDigest_shape {digest : Str} (h : (parseDigest digest).isSome = true) :
    DigestShape digest := by
  obtain ⟨parsed, hparsed⟩ := Option.isSome_iff_exists.mp h
  exact ((parseDigest_eq_some digest parsed).mp hparsed).2

theorem IsReference.nul {reference : Str} (h : IsReference reference) : 0 ∉ reference := by
  unfold IsReference parseReference at h
  split at h
  · rw [Option.isSome_map] at h
    exact (parseDigest_shape h).nul
  · split at h
    · rename_i hvalid
      intro hmem
      exact absurd (((validTag_iff reference).mp hvalid).bytes 0 hmem) (by decide)
    · cases h

def Indexed (segments : List Str) : Option Str → Prop
  | none => segments = []
  | some index => join 0 segments = index ++ [0]

theorem indexed_inj {segments others : List Str} {a b : Option Str} (ha : Indexed segments a)
    (hb : Indexed others b) (hsome : a.isSome = b.isSome) (h : segments = others) : a = b := by
  cases a with
  | none =>
    cases b with
    | none => rfl
    | some index => cases hsome
  | some index =>
    cases b with
    | none => cases hsome
    | some other =>
      have hjoin : index ++ [0] = other ++ [0] := ha.symm.trans (h ▸ hb)
      rw [List.append_cancel_right hjoin]

theorem tagPrefixAll_join : tagPrefixAll = join 0 [str "oci", str "t"] := by decide

theorem tagFreshnessPrefixAll_join : tagFreshnessPrefixAll = join 0 [str "oci", str "tf"] := by
  decide

theorem membershipPrefixAll_join : membershipPrefixAll = join 0 [str "oci", str "mm"] := by
  decide

theorem blobMembershipPrefixAll_join : blobMembershipPrefixAll = join 0 [str "oci", str "bm"] := by
  decide

theorem referrerPrefixAll_join : referrerPrefixAll = join 0 [str "oci", str "r"] := by decide

theorem scopedPrefix_join {start kind : Str} (hstart : start = join 0 [str "oci", kind])
    (index repo : Str) : ∃ segments, Free 0 segments ∧ Indexed segments (some index) ∧
      scopedPrefix start index repo = join 0 ([str "oci", kind] ++ segments ++ [repo]) := by
  obtain ⟨segments, hfree, hjoin⟩ := exists_join 0 index
  refine ⟨segments, hfree, hjoin, ?_⟩
  have hrepo : join 0 [repo] = repo ++ [0] := join_cons 0 repo []
  rw [join_append, join_append, ← hstart, hjoin, hrepo]
  simp only [scopedPrefix, List.append_assoc]

theorem referrerPrefix_join {segments : List Str} {index repo : Str}
    (h : scopedPrefix referrerPrefixAll index repo = join 0 ([str "oci", str "r"] ++ segments ++ [repo]))
    (subject : Str) : referrerPrefix index repo subject =
      join 0 ([str "oci", str "r"] ++ segments ++ [repo, subject]) := by
  have hsubject : join 0 [subject] = subject ++ [0] := join_cons 0 subject []
  have hsplit : [str "oci", str "r"] ++ segments ++ [repo, subject] =
      [str "oci", str "r"] ++ segments ++ [repo] ++ [subject] := by simp
  unfold referrerPrefix
  rw [hsplit, join_append, ← h, hsubject, List.append_assoc]

namespace StoreKey

/-- The segment after `oci`. -/
def kind : StoreKey → Str
  | manifest _ => str "m"
  | tag _ _ _ => str "t"
  | tagFreshness _ _ _ => str "tf"
  | membership _ _ _ => str "mm"
  | blobMembership _ _ _ => str "bm"
  | referrer _ _ _ _ => str "r"

def middle : StoreKey → List Str
  | manifest _ => []
  | tag _ repo _ | tagFreshness _ repo _ | membership _ repo _ | blobMembership _ repo _ => [repo]
  | referrer _ repo subject _ => [repo, subject]

def last : StoreKey → Str
  | manifest digest => digest
  | tag _ _ name | tagFreshness _ _ name => name
  | membership _ _ digest | blobMembership _ _ digest | referrer _ _ _ digest => digest

theorem ext_parts {a b : StoreKey} (hkind : a.kind = b.kind) (hindex : a.index = b.index)
    (hmiddle : a.middle = b.middle) (hlast : a.last = b.last) : a = b := by
  cases a <;> cases b <;> dsimp only [kind] at hkind <;> first
    | exact absurd hkind (by decide)
    | simp only [index, middle, last, Option.some.injEq, List.cons.injEq, and_true]
        at hindex hmiddle hlast
      simp only [hindex, hmiddle, hlast]

theorem middle_free {key : StoreKey} (h : key.Accepted) : Free 0 key.middle := by
  cases key with
  | manifest digest => exact free_nil
  | tag index repo name => exact Free.cons h.1.nul free_nil
  | tagFreshness index repo name => exact Free.cons h.1.nul free_nil
  | membership index repo digest => exact Free.cons h.1.nul free_nil
  | blobMembership index repo digest => exact Free.cons h.1.nul free_nil
  | referrer index repo subject digest =>
    exact Free.cons h.1.nul (Free.cons (parseDigest_shape h.2.1).nul free_nil)

theorem last_free {key : StoreKey} (h : key.Accepted) : 0 ∉ key.last := by
  cases key with
  | manifest digest => exact h.nul
  | tag index repo name => exact h.2.nul
  | tagFreshness index repo name => exact h.2.nul
  | membership index repo digest => exact h.2.nul
  | blobMembership index repo digest => exact h.2.nul
  | referrer index repo subject digest => exact (parseDigest_shape h.2.2).nul

theorem kind_free (key : StoreKey) : Free 0 [str "oci", key.kind] := by
  apply Free.cons (by decide) (Free.cons _ free_nil)
  cases key <;> dsimp only [kind] <;> decide

theorem text_eq (key : StoreKey) : ∃ segments, Free 0 segments ∧ Indexed segments key.index ∧
    key.text = join 0 ([str "oci", key.kind] ++ segments ++ key.middle) ++ key.last := by
  cases key with
  | manifest digest => exact ⟨[], free_nil, rfl, rfl⟩
  | tag index repo name =>
    obtain ⟨segments, hfree, hindex, hscope⟩ := scopedPrefix_join tagPrefixAll_join index repo
    exact ⟨segments, hfree, hindex, congrArg (· ++ name) hscope⟩
  | tagFreshness index repo name =>
    obtain ⟨segments, hfree, hindex, hscope⟩ := scopedPrefix_join tagFreshnessPrefixAll_join index repo
    exact ⟨segments, hfree, hindex, congrArg (· ++ name) hscope⟩
  | membership index repo digest =>
    obtain ⟨segments, hfree, hindex, hscope⟩ := scopedPrefix_join membershipPrefixAll_join index repo
    exact ⟨segments, hfree, hindex, congrArg (· ++ digest) hscope⟩
  | blobMembership index repo digest =>
    obtain ⟨segments, hfree, hindex, hscope⟩ := scopedPrefix_join blobMembershipPrefixAll_join index repo
    exact ⟨segments, hfree, hindex, congrArg (· ++ digest) hscope⟩
  | referrer index repo subject digest =>
    obtain ⟨segments, hfree, hindex, hscope⟩ := scopedPrefix_join referrerPrefixAll_join index repo
    exact ⟨segments, hfree, hindex, congrArg (· ++ digest) (referrerPrefix_join hscope subject)⟩

theorem kind_shape {a b : StoreKey} (h : a.kind = b.kind) :
    a.middle.length = b.middle.length ∧ a.index.isSome = b.index.isSome := by
  cases a <;> cases b <;> dsimp only [kind] at h <;> first
    | exact absurd h (by decide)
    | exact ⟨rfl, rfl⟩

theorem text_inj {a b : StoreKey} (ha : a.Accepted) (hb : b.Accepted) (h : a.text = b.text) :
    a = b := by
  obtain ⟨segments, hfree, hindex, htext⟩ := a.text_eq
  obtain ⟨others, hfree', hindex', htext'⟩ := b.text_eq
  rw [htext, htext'] at h
  obtain ⟨hparts, hlast⟩ := join_append_inj ((a.kind_free.append hfree).append (middle_free ha))
    ((b.kind_free.append hfree').append (middle_free hb)) (last_free ha) (last_free hb) h
  simp only [List.cons_append, List.nil_append, List.cons.injEq, true_and] at hparts
  obtain ⟨hkind, hnames⟩ := hparts
  obtain ⟨hlength, hsome⟩ := kind_shape hkind
  obtain ⟨hsegments, hmiddle⟩ := List.append_inj' hnames hlength
  exact ext_parts hkind (indexed_inj hindex hindex' hsome hsegments) hmiddle hlast

end StoreKey

section Scans
variable (names : List Str)

def Configured (owner : StoreKey) : Prop :=
  owner.Accepted ∧ ∀ index, owner.index = some index → index ∈ names

def ScansIsolated : Prop :=
  ∀ (rows : Rows) (scan : RepositoryScan) (index repo : Str) (owner : StoreKey), index ∈ names →
    RepositoryName repo → Configured names owner →
      owner.text ∈ keysUnder rows (scan.start index repo) → owner.repository = some (index, repo)

/-- A listing has the repositories with a tag under the index and nothing else. -/
def ListsOwn : Prop :=
  ∀ rows : Rows,
    (∀ key ∈ keysUnder rows tagPrefixAll, ∃ owner, Configured names owner ∧ owner.text = key) →
    ∀ index ∈ names, ∀ repo ∈ listRepositories rows index,
      ∃ tag, Configured names (.tag index repo tag) ∧ rows[tagKey index repo tag]?.isSome = true

/-- No name of an index goes on where another ends with a NUL and a repository. -/
def NoneInside : Prop :=
  ∀ index ∈ names, ∀ other ∈ names, ∀ repo, RepositoryName repo →
    ¬ index ++ [0] ++ repo ++ [0] <+: other ++ [0]

def NoneExtends : Prop :=
  ∀ index ∈ names, ∀ other ∈ names, index ++ [0] <+: other ++ [0] → index = other

theorem start_join (scan : RepositoryScan) (index repo : Str) :
    ∃ kind segments, 0 ∉ kind ∧ Free 0 segments ∧ join 0 segments = index ++ [0] ∧
      join 0 ([str "oci", kind] ++ segments ++ [repo]) <+: scan.start index repo := by
  cases scan with
  | tags =>
    obtain ⟨segments, hfree, hindex, hscope⟩ := scopedPrefix_join tagPrefixAll_join index repo
    refine ⟨str "t", segments, by decide, hfree, hindex, ?_⟩
    rw [← hscope]
    exact List.prefix_rfl
  | memberships =>
    obtain ⟨segments, hfree, hindex, hscope⟩ := scopedPrefix_join membershipPrefixAll_join index repo
    refine ⟨str "mm", segments, by decide, hfree, hindex, ?_⟩
    rw [← hscope]
    exact List.prefix_rfl
  | referrers =>
    obtain ⟨segments, hfree, hindex, hscope⟩ := scopedPrefix_join referrerPrefixAll_join index repo
    refine ⟨str "r", segments, by decide, hfree, hindex, ?_⟩
    rw [← hscope]
    exact List.prefix_rfl
  | referrersOf subject =>
    obtain ⟨segments, hfree, hindex, hscope⟩ := scopedPrefix_join referrerPrefixAll_join index repo
    refine ⟨str "r", segments, by decide, hfree, hindex, ?_⟩
    rw [← hscope]
    exact ⟨subject ++ [0], by simp only [RepositoryScan.start, referrerPrefix, List.append_assoc]⟩

theorem middle_cases {owner : StoreKey} (h : owner.Accepted) :
    (owner.index = none ∧ owner.middle = []) ∨
    ∃ index repo, owner.index = some index ∧ owner.repository = some (index, repo) ∧
      (owner.middle = [repo] ∨ ∃ subject, owner.middle = [repo, subject] ∧ 0x3A ∈ subject) := by
  cases owner with
  | manifest digest => exact .inl ⟨rfl, rfl⟩
  | tag index repo name => exact .inr ⟨index, repo, rfl, rfl, .inl rfl⟩
  | tagFreshness index repo name => exact .inr ⟨index, repo, rfl, rfl, .inl rfl⟩
  | membership index repo digest => exact .inr ⟨index, repo, rfl, rfl, .inl rfl⟩
  | blobMembership index repo digest => exact .inr ⟨index, repo, rfl, rfl, .inl rfl⟩
  | referrer index repo subject digest =>
    exact .inr ⟨index, repo, rfl, rfl, .inr ⟨subject, rfl, (parseDigest_shape h.2.1).bytes.1⟩⟩

variable {names}

theorem own_or_inside {segments others middle : List Str} {repo name : Str}
    (hrepo : RepositoryName repo)
    (hmiddle : middle = [name] ∨ ∃ subject, middle = [name, subject] ∧ 0x3A ∈ subject)
    (h : segments ++ [repo] <+: others ++ middle) :
    (segments = others ∧ repo = name) ∨ segments ++ [repo] <+: others := by
  have hshort : segments ++ [repo] <+: others ++ [name] := by
    rcases hmiddle with hmiddle | ⟨subject, hmiddle, hcolon⟩
    · rwa [hmiddle] at h
    · have hsplit : others ++ [name, subject] = others ++ [name] ++ [subject] := by simp
      rw [hmiddle, hsplit, List.prefix_concat_iff] at h
      rcases h with heq | h
      · have hsubject := (List.append_inj' heq rfl).2
        rw [List.singleton_inj] at hsubject
        exact absurd (hsubject ▸ hcolon) hrepo.colon
      · exact h
  rcases List.prefix_concat_iff.mp hshort with heq | h
  · obtain ⟨hsegments, hname⟩ := List.append_inj' heq rfl
    exact .inl ⟨hsegments, List.singleton_inj.mp hname⟩
  · exact .inr h

theorem join_within {segments others : List Str} {index other repo : Str}
    (hsegments : join 0 segments = index ++ [0]) (hothers : join 0 others = other ++ [0])
    (h : segments ++ [repo] <+: others) : index ++ [0] ++ repo ++ [0] <+: other ++ [0] := by
  obtain ⟨back, hback⟩ := h
  have hrepo : join 0 [repo] = repo ++ [0] := join_cons 0 repo []
  refine ⟨join 0 back, ?_⟩
  rw [← hothers, ← hback, join_append, join_append, hsegments, hrepo]
  simp only [List.append_assoc]

theorem scansIsolated_of_noneInside (h : NoneInside names) : ScansIsolated names := by
  intro rows scan index repo owner hindex hrepo ⟨haccepted, hconfigured⟩ hmem
  obtain ⟨kind, segments, hkind, hfree, hjoin, hstart⟩ := start_join scan index repo
  obtain ⟨others, hfree', hindexed, htext⟩ := owner.text_eq
  have hprefix := hstart.trans ((mem_keysUnder _ _ _).mp hmem).2
  have hscan : Free 0 ([str "oci", kind] ++ segments ++ [repo]) :=
    ((Free.cons (by decide) (Free.cons hkind free_nil)).append hfree).append
      (Free.cons hrepo.nul free_nil)
  rw [htext, prefix_join_iff hscan
    ((owner.kind_free.append hfree').append (StoreKey.middle_free haccepted))
    (StoreKey.last_free haccepted)] at hprefix
  simp only [List.cons_append, List.nil_append, List.cons_prefix_cons] at hprefix
  rcases middle_cases haccepted with ⟨hnone, hmiddle⟩ | ⟨other, name, hsome, hrepository, hmiddle⟩
  · rw [hnone] at hindexed
    rw [hmiddle, show others = [] from hindexed] at hprefix
    have hempty := hprefix.2.2.length_le
    simp at hempty
  · rw [hsome] at hindexed
    rcases own_or_inside hrepo hmiddle hprefix.2.2 with ⟨hsame, hname⟩ | hinside
    · have hindices : index ++ [0] = other ++ [0] := by
        rw [← hjoin, hsame]
        exact hindexed
      rw [hrepository, hname, List.append_cancel_right hindices]
    · exact absurd (join_within hjoin hindexed hinside)
        (h index hindex other (hconfigured other hsome) repo hrepo)

/-! A store of one tag shows what a name of an index must not be. -/

def oneTag (index : Str) : Rows := (∅ : Rows).insert (tagKey index (str "a") (str "latest")) []

theorem repositoryName_a : RepositoryName (str "a") :=
  joinName_repositoryName [str "a"] (str "a") (by decide)

theorem isReference_latest : IsReference (str "latest") := by
  unfold IsReference
  decide

theorem configured_latest {other : Str} (h : other ∈ names) :
    Configured names (.tag other (str "a") (str "latest")) := by
  refine ⟨⟨repositoryName_a, isReference_latest⟩, fun index hindex => ?_⟩
  rwa [← Option.some.inj hindex]

theorem mem_oneTag (other start key : Str) :
    key ∈ keysUnder (oneTag other) start ↔
      key = tagKey other (str "a") (str "latest") ∧ start <+: key := by
  rw [mem_keysUnder, oneTag, Std.ExtTreeMap.getElem?_insert, Std.ExtTreeMap.getElem?_empty]
  by_cases heq : key = tagKey other (str "a") (str "latest")
  · simp [heq]
  · have hne : ¬ compare (tagKey other (str "a") (str "latest")) key = .eq :=
      fun hcompare => heq (Std.LawfulEqCmp.compare_eq_iff_eq.mp hcompare).symm
    rw [if_neg hne]
    simp [heq]

theorem noneInside_of_scansIsolated (h : ScansIsolated names) : NoneInside names := by
  intro index hindex other hother repo hrepo hinside
  have hprefix : RepositoryScan.tags.start index repo <+: tagKey other (str "a") (str "latest") := by
    obtain ⟨back, hback⟩ := hinside
    refine ⟨back ++ str "a" ++ [0] ++ str "latest", ?_⟩
    have hkey : tagKey other (str "a") (str "latest") =
        tagPrefixAll ++ (other ++ [0]) ++ str "a" ++ [0] ++ str "latest" := by
      simp only [tagKey, tagPrefix, scopedPrefix, List.append_assoc]
    rw [hkey, ← hback]
    simp only [RepositoryScan.start, tagPrefix, scopedPrefix, List.append_assoc]
  have hown := h (oneTag other) .tags index repo _ hindex hrepo (configured_latest hother)
    ((mem_oneTag other _ _).mpr ⟨rfl, hprefix⟩)
  have hsame : other = index := congrArg Prod.fst (Option.some.inj hown)
  have hlength := hinside.length_le
  rw [hsame] at hlength
  simp only [List.length_append, List.length_singleton] at hlength
  omega

theorem scansIsolated_iff (names : List Str) : ScansIsolated names ↔ NoneInside names :=
  ⟨noneInside_of_scansIsolated, scansIsolated_of_noneInside⟩

theorem tag_of_prefix {owner : StoreKey} (haccepted : owner.Accepted) (h : tagPrefixAll <+: owner.text) :
    ∃ index repo tag, owner = .tag index repo tag := by
  obtain ⟨segments, hfree, hindexed, htext⟩ := owner.text_eq
  have hscan : Free 0 [str "oci", str "t"] := Free.cons (by decide) (Free.cons (by decide) free_nil)
  rw [htext, tagPrefixAll_join, prefix_join_iff hscan
    ((owner.kind_free.append hfree).append (StoreKey.middle_free haccepted))
    (StoreKey.last_free haccepted)] at h
  simp only [List.cons_append, List.nil_append, List.cons_prefix_cons] at h
  have hkind := h.2.1
  cases owner with
  | tag index repo name => exact ⟨index, repo, name, rfl⟩
  | manifest | tagFreshness | membership | blobMembership | referrer =>
    dsimp only [StoreKey.kind] at hkind
    exact absurd hkind (by decide)

theorem index_of_prefix {index other repo name : Str} (hextends : NoneExtends names)
    (hindex : index ∈ names) (hother : other ∈ names)
    (haccepted : (StoreKey.tag other repo name).Accepted)
    (h : indexPrefix index <+: tagKey other repo name) : index = other := by
  obtain ⟨segments, hfree, hjoin⟩ := exists_join 0 index
  obtain ⟨others, hfree', hjoin'⟩ := exists_join 0 other
  have hrepo : join 0 [repo] = repo ++ [0] := join_cons 0 repo []
  have hkey : tagKey other repo name = tagPrefixAll ++ (join 0 (others ++ [repo]) ++ name) := by
    rw [join_append, hjoin', hrepo]
    simp only [tagKey, tagPrefix, scopedPrefix, List.append_assoc]
  have hstart : indexPrefix index = tagPrefixAll ++ join 0 segments := by
    rw [hjoin, indexPrefix, List.append_assoc]
  rw [hkey, hstart, List.prefix_append_right_inj, prefix_join_iff hfree
    (hfree'.append (Free.cons haccepted.1.nul free_nil)) haccepted.2.nul, List.prefix_concat_iff] at h
  rcases h with heq | hprefix
  · have hlong : index ++ [0] = other ++ [0] ++ repo ++ [0] := by
      rw [← hjoin, heq, join_append, hjoin', hrepo, List.append_assoc (other ++ [0])]
    have hback : other = index := hextends other hother index hindex
      ⟨repo ++ [0], by rw [hlong, List.append_assoc (other ++ [0])]⟩
    have hlength := congrArg List.length hlong
    rw [hback] at hlength
    simp only [List.length_append, List.length_singleton] at hlength
    omega
  · obtain ⟨back, hback⟩ := hprefix
    exact hextends index hindex other hother
      ⟨join 0 back, by rw [← hjoin, ← hjoin', ← hback, join_append]⟩

theorem mem_listRepositories (rows : Rows) (index repo : Str) :
    repo ∈ listRepositories rows index ↔ ∃ rest tag,
      indexPrefix index ++ rest ∈ keysUnder rows (indexPrefix index) ∧
        rsplitNul rest = some (repo, tag) := by
  unfold listRepositories
  simp only [List.mem_filterMap, Option.bind_eq_some_iff, Str.stripPrefix_eq_some,
    Option.map_eq_some_iff]
  constructor
  · rintro ⟨key, hmem, rest, hkey, ⟨name, tag⟩, hsplit, hname⟩
    exact ⟨rest, tag, hkey ▸ hmem, hname ▸ hsplit⟩
  · rintro ⟨rest, tag, hmem, hsplit⟩
    exact ⟨_, hmem, rest, rfl, (repo, tag), hsplit, rfl⟩

theorem listsOwn_of_noneExtends (h : NoneExtends names) : ListsOwn names := by
  intro rows hrows index hindex repo hmem
  obtain ⟨rest, last, hkey, hsplit⟩ := (mem_listRepositories rows index repo).mp hmem
  obtain ⟨hrow, hprefix⟩ := (mem_keysUnder _ _ _).mp hkey
  have htags : tagPrefixAll <+: indexPrefix index ++ rest :=
    ⟨index ++ [0] ++ rest, by simp only [indexPrefix, List.append_assoc]⟩
  obtain ⟨owner, hconfigured, htext⟩ := hrows _ ((mem_keysUnder _ _ _).mpr ⟨hrow, htags⟩)
  obtain ⟨other, name, tag, rfl⟩ := tag_of_prefix hconfigured.1 (htext ▸ htags)
  have htext : tagKey other name tag = indexPrefix index ++ rest := htext
  have hsame := index_of_prefix h hindex (hconfigured.2 other rfl) hconfigured.1 (htext ▸ hprefix)
  subst hsame
  have hrest : rest = name ++ [0] ++ tag := by
    have hkeys : indexPrefix index ++ rest = indexPrefix index ++ (name ++ [0] ++ tag) := by
      rw [← htext]
      simp only [tagKey, tagPrefix, scopedPrefix, indexPrefix, List.append_assoc]
    exact List.append_cancel_left hkeys
  rw [hrest, rsplitNul_append _ _ hconfigured.1.2.nul] at hsplit
  have hname : name = repo := congrArg Prod.fst (Option.some.inj hsplit)
  subst hname
  exact ⟨tag, hconfigured, htext ▸ hrow⟩

theorem noneExtends_of_listsOwn (h : ListsOwn names) : NoneExtends names := by
  intro index hindex other hother ⟨back, hback⟩
  cases List.eq_nil_or_concat' back with
  | inl hnil =>
    rw [hnil, List.append_nil] at hback
    exact List.append_cancel_right hback
  | inr hconcat =>
    obtain ⟨inner, last, rfl⟩ := hconcat
    rw [← List.append_assoc] at hback
    obtain ⟨hother', hlast⟩ := List.append_inj' hback rfl
    have hkey : tagKey other (str "a") (str "latest") =
        indexPrefix index ++ (inner ++ [0] ++ str "a" ++ [0] ++ str "latest") := by
      rw [← hother']
      simp only [tagKey, tagPrefix, scopedPrefix, indexPrefix, List.append_assoc]
    have hlisted : inner ++ [0] ++ str "a" ∈ listRepositories (oneTag other) index :=
      (mem_listRepositories _ _ _).mpr ⟨inner ++ [0] ++ str "a" ++ [0] ++ str "latest", str "latest",
        (mem_oneTag other _ _).mpr ⟨hkey.symm, List.prefix_append _ _⟩,
        rsplitNul_append _ _ (by decide)⟩
    obtain ⟨tag, hconfigured, -⟩ := h (oneTag other) (fun key hmem =>
      ⟨_, configured_latest hother, (((mem_oneTag other _ _).mp hmem).1).symm⟩) index hindex _ hlisted
    exact absurd (by simp) hconfigured.1.1.nul

theorem listsOwn_iff (names : List Str) : ListsOwn names ↔ NoneExtends names :=
  ⟨noneExtends_of_listsOwn, listsOwn_of_noneExtends⟩

theorem noneInside_of_noneExtends (h : NoneExtends names) : NoneInside names := by
  intro index hindex other hother repo _ hinside
  have hprefix : index ++ [0] <+: other ++ [0] := by
    rw [List.append_assoc] at hinside
    exact (List.prefix_append _ _).trans hinside
  have hsame := h index hindex other hother hprefix
  have hlength := hinside.length_le
  rw [hsame] at hlength
  simp only [List.length_append, List.length_singleton] at hlength
  omega

theorem noneExtends_of_nul_free (h : ∀ name ∈ names, 0 ∉ name) : NoneExtends names := by
  intro index hindex other hother ⟨back, hback⟩
  rw [List.append_assoc, List.singleton_append] at hback
  exact (append_cons_inj (h index hindex) (h other hother) hback).1

/-- Components and keys are as the grammar has them whatever the indexes are called; what a
scan returns depends on their names. -/
theorem keys_scans_iff (names : List Str) :
    (∀ component, validNameComponent component = true ↔ PathComponent component) ∧
    (∀ components name, joinName components = some name → Clean name) ∧
    (∀ a b : StoreKey, a.Accepted → b.Accepted → a.text = b.text → a = b) ∧
    (ScansIsolated names ↔ NoneInside names) ∧ (ListsOwn names ↔ NoneExtends names) :=
  ⟨validNameComponent_iff, fun _ _ hname => (joinName_repositoryName _ _ hname).clean,
    fun _ _ => StoreKey.text_inj, scansIsolated_iff names, listsOwn_iff names⟩

theorem hub_scans_isolated : ScansIsolated [str "hub", str "root/oci"] ∧
    ListsOwn [str "hub", str "root/oci"] := by
  have hfree : NoneExtends [str "hub", str "root/oci"] := noneExtends_of_nul_free (by decide)
  obtain ⟨-, -, -, hscans, hlists⟩ := keys_scans_iff [str "hub", str "root/oci"]
  exact ⟨hscans.mpr (noneInside_of_noneExtends hfree), hlists.mpr hfree⟩

/-- An index called `hub`, a NUL and `app` has its rows among those of `app` under `hub`. -/
theorem hub_scan_leaks :
    tagKey (str "hub\x00app") (str "a") (str "latest") ∈
      keysUnder (oneTag (str "hub\x00app")) (tagPrefix (str "hub") (str "app")) ∧
    ¬ ScansIsolated [str "hub", str "hub\x00app"] := by
  have hmem : tagKey (str "hub\x00app") (str "a") (str "latest") ∈
      keysUnder (oneTag (str "hub\x00app")) (tagPrefix (str "hub") (str "app")) :=
    (mem_oneTag _ _ _).mpr ⟨rfl, by decide⟩
  have happ : RepositoryName (str "app") := joinName_repositoryName [str "app"] _ (by decide)
  refine ⟨hmem, fun h => ?_⟩
  have hown := h (oneTag (str "hub\x00app")) .tags (str "hub") (str "app") _ (by simp) happ
    (configured_latest (by simp)) hmem
  exact absurd hown (by decide)

end Scans

end Peryx.Oci
