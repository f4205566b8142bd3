import Peryx.Core.Utf8
import Peryx.Library.Outcome
import Peryx.Oci.DanglingTags
import Peryx.Oci.DigestIsolation
import Peryx.Oci.TagServing

/-! # A manifest deleted in one repository -/

namespace Peryx.Oci
open Storage

/-! ### Loops that remove what they hit -/

section Sweeping
variable {α : Type} (hits : α → Option (List Str))

def removeAll (txn : DriverTxn) (keys : List Str) : DriverTxn :=
  keys.foldl (fun txn key => (txn.remove key).2) txn

def sweep (state : Nat × DriverTxn) (item : α) : Nat × DriverTxn :=
  match hits item with
  | some keys => (state.1 + 1, removeAll state.2 keys)
  | none => state

theorem removeAll_getElem? (txn : DriverTxn) (keys : List Str) (key : Str) :
    (removeAll txn keys).table[key]? = if key ∈ keys then none else txn.table[key]? := by
  induction keys generalizing txn with
  | nil => rfl
  | cons first keys ih =>
    show (removeAll (txn.remove first).2 keys).table[key]? = _
    rw [ih, DriverTxn.remove_getElem?]
    by_cases hrest : key ∈ keys
    · rw [if_pos hrest, if_pos (List.mem_cons_of_mem _ hrest)]
    · rw [if_neg hrest]
      by_cases hfirst : first = key
      · rw [if_pos hfirst, if_pos (hfirst ▸ List.mem_cons_self)]
      · rw [if_neg hfirst, if_neg]
        intro hmem
        rcases List.mem_cons.mp hmem with heq | hmem
        · exact hfirst heq.symm
        · exact hrest hmem

theorem sweep_count (items : List α) (state : Nat × DriverTxn) :
    (items.foldl (sweep hits) state).1 = state.1 + (items.filterMap hits).length := by
  induction items generalizing state with
  | nil => rfl
  | cons item items ih =>
    rw [List.foldl_cons, ih]
    unfold sweep
    cases hitem : hits item with
    | none => rw [List.filterMap_cons_none hitem]
    | some keys =>
      rw [List.filterMap_cons_some hitem, List.length_cons]
      dsimp only
      omega

theorem sweep_none (items : List α) (state : Nat × DriverTxn)
    (h : ∀ item ∈ items, hits item = none) : items.foldl (sweep hits) state = state := by
  induction items generalizing state with
  | nil => rfl
  | cons item items ih =>
    have hround : sweep hits state item = state := by
      unfold sweep
      rw [h item List.mem_cons_self]
    rw [List.foldl_cons, hround]
    exact ih state fun other hother => h other (List.mem_cons_of_mem _ hother)

theorem sweep_hit (items : List α) (state : Nat × DriverTxn) (key : Str)
    (h : state.2.table[key]? = none ∨ ∃ item ∈ items, ∃ keys, hits item = some keys ∧ key ∈ keys) :
    (items.foldl (sweep hits) state).2.table[key]? = none := by
  induction items generalizing state with
  | nil =>
    rcases h with h | ⟨_, hmem, _⟩
    · exact h
    · cases hmem
  | cons item items ih =>
    apply ih
    unfold sweep
    cases hitem : hits item with
    | none =>
      rcases h with h | ⟨other, hmem, keys, hkeys, hkey⟩
      · exact Or.inl h
      · rcases List.mem_cons.mp hmem with rfl | hmem
        · rw [hitem] at hkeys
          cases hkeys
        · exact Or.inr ⟨other, hmem, keys, hkeys, hkey⟩
    | some found =>
      dsimp only
      rw [removeAll_getElem?]
      rcases h with h | ⟨other, hmem, keys, hkeys, hkey⟩
      · refine Or.inl ?_
        split
        · rfl
        · exact h
      · rcases List.mem_cons.mp hmem with rfl | hmem
        · rw [hitem] at hkeys
          cases hkeys
          exact Or.inl (if_pos hkey)
        · exact Or.inr ⟨other, hmem, keys, hkeys, hkey⟩

theorem sweep_missed (items : List α) (state : Nat × DriverTxn) (key : Str)
    (h : ∀ item ∈ items, ∀ keys, hits item = some keys → key ∉ keys) :
    (items.foldl (sweep hits) state).2.table[key]? = state.2.table[key]? := by
  induction items generalizing state with
  | nil => rfl
  | cons item items ih =>
    rw [List.foldl_cons, ih _ fun other hother => h other (List.mem_cons_of_mem _ hother)]
    unfold sweep
    cases hitem : hits item with
    | none => rfl
    | some keys =>
      dsimp only
      rw [removeAll_getElem?, if_neg (h item List.mem_cons_self keys hitem)]

end Sweeping

/-! ### The two loops of a delete -/

def tagHit (index repo digest : Str) (row : Str × Bytes) : Option (List Str) :=
  (Str.stripPrefix row.1 (tagPrefix index repo)).bind fun tag =>
    if row.2 = digest then some [row.1, tagFreshnessKey index repo tag] else none

def referrerHit (digest key : Str) : Option (List Str) :=
  (splitReferrerKey key).bind fun (subject, referrer) =>
    if subject = digest ∨ referrer = digest then some [key] else none

theorem untag_eq_sweep (index repo digest : Str) :
    untag index repo digest = sweep (tagHit index repo digest) := by
  funext state row
  unfold untag sweep tagHit
  cases Str.stripPrefix row.1 (tagPrefix index repo) with
  | none => rfl
  | some tag =>
    by_cases hdigest : row.2 = digest
    · simp only [Option.bind_some, if_pos hdigest]
      rfl
    · simp only [Option.bind_some, if_neg hdigest]

theorem unrefer_eq_sweep (digest : Str) : unrefer digest = sweep (referrerHit digest) := by
  funext state key
  unfold unrefer sweep referrerHit
  cases splitReferrerKey key with
  | none => rfl
  | some pair =>
    obtain ⟨subject, referrer⟩ := pair
    by_cases hnames : subject = digest ∨ referrer = digest
    · simp only [Option.bind_some, if_pos hnames]
      rfl
    · simp only [Option.bind_some, if_neg hnames]

def TagsIt (rows : Rows) (index repo digest : Str) : Prop :=
  ∃ tag, rows[tagKey index repo tag]? = some digest

def NamesIt (digest key : Str) : Prop :=
  ∃ subject referrer, splitReferrerKey key = some (subject, referrer) ∧
    (subject = digest ∨ referrer = digest)

def RefersToIt (rows : Rows) (index repo digest : Str) : Prop :=
  ∃ key, scopedPrefix referrerPrefixAll index repo <+: key ∧ rows[key]?.isSome = true ∧
    NamesIt digest key

theorem tagHit_eq_some (index repo digest : Str) (row : Str × Bytes) (keys : List Str) :
    tagHit index repo digest row = some keys ↔ ∃ tag, row = (tagKey index repo tag, digest) ∧
      keys = [tagKey index repo tag, tagFreshnessKey index repo tag] := by
  unfold tagHit
  rw [Option.bind_eq_some_iff]
  constructor
  · rintro ⟨tag, hstrip, hkeys⟩
    rw [Str.stripPrefix_eq_some] at hstrip
    split at hkeys
    · rename_i hdigest
      cases hkeys
      exact ⟨tag, Prod.ext hstrip hdigest, by rw [hstrip]; rfl⟩
    · cases hkeys
  · rintro ⟨tag, rfl, rfl⟩
    refine ⟨tag, ?_, if_pos rfl⟩
    rw [Str.stripPrefix_eq_some]
    rfl

theorem referrerHit_eq_some (digest key : Str) (keys : List Str) :
    referrerHit digest key = some keys ↔ NamesIt digest key ∧ keys = [key] := by
  unfold referrerHit
  rw [Option.bind_eq_some_iff]
  constructor
  · rintro ⟨⟨subject, referrer⟩, hsplit, hkeys⟩
    dsimp only at hkeys
    split at hkeys
    · rename_i hnames
      cases hkeys
      exact ⟨⟨subject, referrer, hsplit, hnames⟩, rfl⟩
    · cases hkeys
  · rintro ⟨⟨subject, referrer, hsplit, hnames⟩, rfl⟩
    exact ⟨(subject, referrer), hsplit, if_pos hnames⟩

theorem mem_entriesUnder (txn : DriverTxn) (start : Str) (row : Str × Bytes) :
    row ∈ txn.entriesUnder start ↔ txn.table[row.1]? = some row.2 ∧ start <+: row.1 := by
  unfold DriverTxn.entriesUnder
  rw [List.mem_filter, Str.startsWith_iff]
  exact and_congr_left fun _ => Std.ExtTreeMap.mem_toList_iff_getElem?_eq_some

theorem tagKey_under (index repo tag : Str) : tagPrefix index repo <+: tagKey index repo tag :=
  List.prefix_append _ _

theorem referrers_under (index repo : Str) :
    referrerPrefixAll <+: scopedPrefix referrerPrefixAll index repo := by
  unfold scopedPrefix
  simp only [List.append_assoc]
  exact List.prefix_append _ _

theorem tagKey_ne_of_referrer (index repo tag key : Str) (h : referrerPrefixAll <+: key) :
    tagKey index repo tag ≠ key :=
  ((referrer_aside key h).1 index repo tag).symm

theorem tagFreshnessKey_ne_of_referrer (index repo tag key : Str) (h : referrerPrefixAll <+: key) :
    tagFreshnessKey index repo tag ≠ key := by
  obtain ⟨rest, rfl⟩ := h
  unfold tagFreshnessKey scopedPrefix
  simp only [List.append_assoc]
  exact append_ne_of_prefixes _ _ _ _ (by decide) (by decide)

section Loops
variable (index repo digest : Str) (stores : Stores)

def untagged : Nat × DriverTxn :=
  (DriverTxn.entriesUnder { table := stores.rows } (tagPrefix index repo)).foldl
    (sweep (tagHit index repo digest)) (0, { table := stores.rows })

def unreferred : Nat × DriverTxn :=
  (keysUnder (untagged index repo digest stores).2.table
    (scopedPrefix referrerPrefixAll index repo)).foldl (sweep (referrerHit digest))
      (0, (untagged index repo digest stores).2)

theorem deleteRepoTagsTo_run : (deleteRepoTagsTo index repo digest).run stores =
    (((untagged index repo digest stores).1, (unreferred index repo digest stores).1),
      stores.setRows (unreferred index repo digest stores).2.table) := by
  unfold deleteRepoTagsTo commitDriverTxn
  rw [Prog.run_transact, untag_eq_sweep, unrefer_eq_sweep]
  rfl

theorem untagged_kept (key : Str) (h : ∀ tag, stores.rows[tagKey index repo tag]? = some digest →
    key ≠ tagKey index repo tag ∧ key ≠ tagFreshnessKey index repo tag) :
    (untagged index repo digest stores).2.table[key]? = stores.rows[key]? := by
  apply sweep_missed
  intro row hrow keys hkeys hmem
  obtain ⟨tag, rfl, rfl⟩ := (tagHit_eq_some _ _ _ _ _).mp hkeys
  have hne := h tag ((mem_entriesUnder _ _ _).mp hrow).1
  simp only [List.mem_cons, List.not_mem_nil, or_false] at hmem
  rcases hmem with heq | heq
  · exact hne.1 heq
  · exact hne.2 heq

theorem untagged_referrer (key : Str) (h : referrerPrefixAll <+: key) :
    (untagged index repo digest stores).2.table[key]? = stores.rows[key]? :=
  untagged_kept index repo digest stores key fun tag _ =>
    ⟨(tagKey_ne_of_referrer index repo tag key h).symm,
      (tagFreshnessKey_ne_of_referrer index repo tag key h).symm⟩

theorem untagged_count : (untagged index repo digest stores).1 = 0 ↔
    ¬ TagsIt stores.rows index repo digest := by
  unfold untagged
  rw [sweep_count, Nat.zero_add, List.length_eq_zero_iff, List.filterMap_eq_nil_iff]
  constructor
  · rintro hnone ⟨tag, hrow⟩
    have hmem := (mem_entriesUnder { table := stores.rows } (tagPrefix index repo)
      (tagKey index repo tag, digest)).mpr ⟨hrow, tagKey_under index repo tag⟩
    have hsome := (tagHit_eq_some index repo digest _ _).mpr ⟨tag, rfl, rfl⟩
    rw [hnone _ hmem] at hsome
    cases hsome
  · intro hnot row hrow
    cases hhit : tagHit index repo digest row with
    | none => rfl
    | some keys =>
      obtain ⟨tag, rfl, _⟩ := (tagHit_eq_some _ _ _ _ _).mp hhit
      exact absurd ⟨tag, ((mem_entriesUnder _ _ _).mp hrow).1⟩ hnot

theorem unreferred_count : (unreferred index repo digest stores).1 = 0 ↔
    ¬ RefersToIt stores.rows index repo digest := by
  unfold unreferred
  rw [sweep_count, Nat.zero_add, List.length_eq_zero_iff, List.filterMap_eq_nil_iff]
  constructor
  · rintro hnone ⟨key, hunder, hrow, hnames⟩
    have hsome := (referrerHit_eq_some digest key _).mpr ⟨hnames, rfl⟩
    rw [hnone key ((mem_keysUnder _ _ _).mpr ⟨?_, hunder⟩)] at hsome
    · cases hsome
    · rw [untagged_referrer _ _ _ _ _ ((referrers_under index repo).trans hunder)]
      exact hrow
  · intro hnot key hkey
    obtain ⟨hrow, hunder⟩ := (mem_keysUnder _ _ _).mp hkey
    rw [untagged_referrer _ _ _ _ _ ((referrers_under index repo).trans hunder)] at hrow
    cases hhit : referrerHit digest key with
    | none => rfl
    | some keys =>
      exact absurd ⟨key, hunder, hrow, ((referrerHit_eq_some _ _ _).mp hhit).1⟩ hnot

theorem deleteRepoTagsTo_idle (htags : ¬ TagsIt stores.rows index repo digest)
    (hreferrers : ¬ RefersToIt stores.rows index repo digest) :
    (deleteRepoTagsTo index repo digest).run stores = ((0, 0), stores) := by
  have huntagged : untagged index repo digest stores = (0, { table := stores.rows }) := by
    apply sweep_none
    intro row hrow
    cases hhit : tagHit index repo digest row with
    | none => rfl
    | some keys =>
      obtain ⟨tag, rfl, _⟩ := (tagHit_eq_some _ _ _ _ _).mp hhit
      exact absurd ⟨tag, ((mem_entriesUnder _ _ _).mp hrow).1⟩ htags
  have hunreferred : unreferred index repo digest stores = (0, { table := stores.rows }) := by
    unfold unreferred
    rw [huntagged]
    apply sweep_none
    intro key hkey
    obtain ⟨hrow, hunder⟩ := (mem_keysUnder _ _ _).mp hkey
    cases hhit : referrerHit digest key with
    | none => rfl
    | some keys =>
      exact absurd ⟨key, hunder, hrow, ((referrerHit_eq_some _ _ _).mp hhit).1⟩ hreferrers
  rw [deleteRepoTagsTo_run, huntagged, hunreferred]
  rfl

theorem swept_kept (key : Str) (htag : ∀ tag, stores.rows[tagKey index repo tag]? = some digest →
      key ≠ tagKey index repo tag ∧ key ≠ tagFreshnessKey index repo tag)
    (hreferrer : ¬ (scopedPrefix referrerPrefixAll index repo <+: key ∧ NamesIt digest key)) :
    ((deleteRepoTagsTo index repo digest).run stores).2.rows[key]? = stores.rows[key]? := by
  rw [deleteRepoTagsTo_run, ← untagged_kept index repo digest stores key htag]
  apply sweep_missed
  intro other hother keys hkeys hmem
  obtain ⟨hnames, rfl⟩ := (referrerHit_eq_some _ _ _).mp hkeys
  rw [List.mem_singleton] at hmem
  subst hmem
  exact hreferrer ⟨((mem_keysUnder _ _ _).mp hother).2, hnames⟩

theorem swept_tag (tag : Str) (h : stores.rows[tagKey index repo tag]? = some digest) :
    ((deleteRepoTagsTo index repo digest).run stores).2.rows[tagKey index repo tag]? = none := by
  rw [deleteRepoTagsTo_run]
  apply sweep_hit
  refine Or.inl (sweep_hit _ _ _ _ (Or.inr ?_))
  exact ⟨(tagKey index repo tag, digest),
    (mem_entriesUnder _ _ _).mpr ⟨h, tagKey_under index repo tag⟩, _,
    (tagHit_eq_some _ _ _ _ _).mpr ⟨tag, rfl, rfl⟩, List.mem_cons_self⟩

theorem swept_referrer (key : Str) (hunder : scopedPrefix referrerPrefixAll index repo <+: key)
    (hnames : NamesIt digest key) :
    ((deleteRepoTagsTo index repo digest).run stores).2.rows[key]? = none := by
  rw [deleteRepoTagsTo_run]
  apply sweep_hit
  cases hrow : (untagged index repo digest stores).2.table[key]? with
  | none => exact Or.inl rfl
  | some value =>
    refine Or.inr ⟨key, (mem_keysUnder _ _ _).mpr ⟨?_, hunder⟩, _,
      (referrerHit_eq_some _ _ _).mpr ⟨hnames, rfl⟩, List.mem_singleton_self key⟩
    rw [hrow]
    rfl

end Loops

/-! ### What still refers to a digest -/

section Referenced
variable (parse : Bytes → Option Json)

def ListedChild (rows : Rows) (digest : Str) : Prop :=
  ∃ image manifest, manifestAt rows image = some manifest ∧
    digest ∈ (manifestDescriptors parse manifest.bytes).1

def Referenced (rows : Rows) (digest : Str) : Prop :=
  (∃ key, tagPrefixAll <+: key ∧ rows[key]?.bind Str.fromUtf8 = some digest) ∨
    ListedChild parse rows digest ∨
    ∃ key, referrerPrefixAll <+: key ∧ rows[key]?.isSome = true ∧ NamesIt digest key

theorem run_foldlM_read {β γ : Type} (f : β → γ → Prog Stores β) (g : Rows → β → γ → β)
    (hf : ∀ found item stores, (f found item).run stores = (g stores.rows found item, stores))
    (items : List γ) (found : β) (stores : Stores) :
    (items.foldlM f found).run stores = (items.foldl (g stores.rows) found, stores) := by
  induction items generalizing found with
  | nil => rfl
  | cons item items ih =>
    rw [List.foldlM_cons, Prog.run_bind, hf, ih]
    rfl

def tagFound (rows : Rows) (found : List Str) (key : Str) : List Str :=
  (rows[key]?.bind Str.fromUtf8).toList ++ found

def childrenFound (rows : Rows) (found : List Str) (key : Str) : List Str :=
  match rows[key]?.bind Manifest.decode with
  | some manifest => (manifestDescriptors parse manifest.bytes).1 ++ found
  | none => found

theorem collectChildren_run (found : List Str) (key : Str) (stores : Stores) :
    (collectChildren parse found key).run stores =
      (childrenFound parse stores.rows found key, stores) := by
  unfold collectChildren childrenFound
  rw [Prog.run_bind]
  show Prog.run (match stores.rows[key]?.bind Manifest.decode with
    | some manifest => pure ((manifestDescriptors parse manifest.bytes).1 ++ found)
    | none => pure found) stores = _
  cases stores.rows[key]?.bind Manifest.decode <;> rfl

theorem referencedManifestDigests_run (stores : Stores) :
    (referencedManifestDigests parse).run stores =
      ((keysUnder stores.rows referrerPrefixAll).foldl collectReferrer
        ((keysUnder stores.rows manifestPrefix).foldl (childrenFound parse stores.rows)
          ((keysUnder stores.rows tagPrefixAll).foldl (tagFound stores.rows) [])), stores) := by
  have htags := run_foldlM_read collectTag tagFound (fun _ _ _ => rfl)
    (keysUnder stores.rows tagPrefixAll) [] stores
  have hchildren := run_foldlM_read (collectChildren parse) (childrenFound parse)
    (collectChildren_run parse) (keysUnder stores.rows manifestPrefix)
    ((keysUnder stores.rows tagPrefixAll).foldl (tagFound stores.rows) []) stores
  simp only [referencedManifestDigests, driverPrefixKeys, Prog.run_bind, Prog.run_read, htags,
    hchildren, Prog.run_pure]

theorem mem_tagFound (rows : Rows) (digest : Str) (found : List Str) (key : Str) :
    digest ∈ tagFound rows found key ↔
      digest ∈ found ∨ rows[key]?.bind Str.fromUtf8 = some digest := by
  unfold tagFound
  rw [List.mem_append, Option.mem_toList, or_comm]

theorem mem_childrenFound (rows : Rows) (digest : Str) (found : List Str) (key : Str) :
    digest ∈ childrenFound parse rows found key ↔ digest ∈ found ∨
      ∃ manifest, rows[key]?.bind Manifest.decode = some manifest ∧
        digest ∈ (manifestDescriptors parse manifest.bytes).1 := by
  unfold childrenFound
  cases rows[key]?.bind Manifest.decode with
  | none => simp
  | some manifest => simp [or_comm]

theorem mem_collectReferrer (digest : Str) (found : List Str) (key : Str) :
    digest ∈ collectReferrer found key ↔ digest ∈ found ∨ NamesIt digest key := by
  unfold collectReferrer NamesIt
  cases splitReferrerKey key with
  | none => simp
  | some pair =>
    obtain ⟨subject, referrer⟩ := pair
    simp only [List.mem_cons, Option.some.injEq, Prod.mk.injEq]
    constructor
    · rintro (rfl | rfl | hfound)
      · exact Or.inr ⟨digest, referrer, ⟨rfl, rfl⟩, Or.inl rfl⟩
      · exact Or.inr ⟨subject, digest, ⟨rfl, rfl⟩, Or.inr rfl⟩
      · exact Or.inl hfound
    · rintro (hfound | ⟨_, _, ⟨rfl, rfl⟩, rfl | rfl⟩)
      · exact Or.inr (Or.inr hfound)
      · exact Or.inl rfl
      · exact Or.inr (Or.inl rfl)

theorem mem_referencedManifestDigests (stores : Stores) (digest : Str) :
    digest ∈ ((referencedManifestDigests parse).run stores).1 ↔
      Referenced parse stores.rows digest := by
  rw [referencedManifestDigests_run]
  dsimp only
  rw [@Visits.foldl_holds_iff _ _ collectReferrer (fun found => digest ∈ found) _
      (fun found key => mem_collectReferrer digest found key),
    @Visits.foldl_holds_iff _ _ (childrenFound parse stores.rows) (fun found => digest ∈ found) _
      (fun found key => mem_childrenFound parse stores.rows digest found key),
    @Visits.foldl_holds_iff _ _ (tagFound stores.rows) (fun found => digest ∈ found) _
      (fun found key => mem_tagFound stores.rows digest found key)]
  unfold Referenced ListedChild
  simp only [List.not_mem_nil, false_or, mem_keysUnder, or_assoc]
  refine or_congr ?_ (or_congr ?_ ?_)
  · constructor
    · rintro ⟨key, ⟨_, hunder⟩, hrow⟩
      exact ⟨key, hunder, hrow⟩
    · rintro ⟨key, hunder, hrow⟩
      obtain ⟨raw, hraw, _⟩ := Option.bind_eq_some_iff.mp hrow
      exact ⟨key, ⟨by rw [hraw]; rfl, hunder⟩, hrow⟩
  · constructor
    · rintro ⟨key, ⟨_, image, rfl⟩, manifest, hrow, hchild⟩
      exact ⟨image, manifest, hrow, hchild⟩
    · rintro ⟨image, manifest, hrow, hchild⟩
      obtain ⟨raw, hraw, _⟩ := Option.bind_eq_some_iff.mp hrow
      exact ⟨manifestKey image, ⟨by rw [hraw]; rfl, List.prefix_append _ _⟩, manifest, hrow, hchild⟩
  · constructor
    · rintro ⟨key, ⟨hrow, hunder⟩, hnames⟩
      exact ⟨key, hunder, hrow, hnames⟩
    · rintro ⟨key, hunder, hrow, hnames⟩
      exact ⟨key, ⟨hrow, hunder⟩, hnames⟩

end Referenced

/-! ### Repositories -/

structure Repository where
  index : Str
  repo : Str
  index_nul : 0 ∉ index
  repo_nul : 0 ∉ repo

theorem Repository.ext_names (a b : Repository) (hindex : a.index = b.index)
    (hrepo : a.repo = b.repo) : a = b := by
  cases a
  cases b
  cases hindex
  cases hrepo
  rfl

theorem scopedPrefix_inj (start : Str) (a b : Repository) (x y : Str)
    (h : scopedPrefix start a.index a.repo ++ x = scopedPrefix start b.index b.repo ++ y) :
    a = b := by
  simp only [scopedPrefix, List.append_assoc, List.append_cancel_left_eq,
    List.cons_append, List.nil_append] at h
  have hindex := Str.splitOnce_append 0 a.index (a.repo ++ 0 :: x) a.index_nul
  rw [h, Str.splitOnce_append 0 b.index (b.repo ++ 0 :: y) b.index_nul] at hindex
  obtain ⟨hindex, hrest⟩ := Prod.mk.injEq _ _ _ _ ▸ Option.some.inj hindex
  have hrepo := Str.splitOnce_append 0 a.repo x a.repo_nul
  rw [← hrest, Str.splitOnce_append 0 b.repo y b.repo_nul] at hrepo
  obtain ⟨hrepo, _⟩ := Prod.mk.injEq _ _ _ _ ▸ Option.some.inj hrepo
  exact Repository.ext_names a b hindex.symm hrepo.symm

def ReadableByDigest (rows : Rows) (repository : Repository) (digest : Str) : Prop :=
  isManifestMember rows repository.index repository.repo digest = true ∧
    (manifestAt rows digest).isSome = true

def ReadableByTag (rows : Rows) (repository : Repository) (tag : Str) : Prop :=
  ∃ digest, tagAt rows repository.index repository.repo tag = some digest ∧
    (manifestAt rows digest).isSome = true

/-- The repository records the digest: as a member, by a tag or in a referrer record. -/
def Holds (rows : Rows) (repository : Repository) (digest : Str) : Prop :=
  isManifestMember rows repository.index repository.repo digest = true ∨
    TagsIt rows repository.index repository.repo digest ∨
    RefersToIt rows repository.index repository.repo digest

structure Spares (before after : Rows) (other : Repository) : Prop where
  byDigest : ∀ digest, ReadableByDigest before other digest → ReadableByDigest after other digest
  byTag : ∀ tag, ReadableByTag before other tag → ReadableByTag after other tag
  tags : ∀ tag, after[tagKey other.index other.repo tag]? =
    before[tagKey other.index other.repo tag]?
  memberships : ∀ digest, after[membershipKey other.index other.repo digest]? =
    before[membershipKey other.index other.repo digest]?

section Delete
variable (parse : Bytes → Option Json)

def deleteOutcome (stores : Stores) (target : Repository) (digest : Str) : Reply × Stores :=
  let (removed, after) :=
    (deleteManifestByDigest parse target.index target.repo digest).run stores
  (deleteReply removed, after)

structure DeleteConfined (stores : Stores) (target : Repository) (digest : Str) : Prop where
  others : ∀ other, other ≠ target →
    Spares stores.rows (deleteOutcome parse stores target digest).2.rows other
  unheld : ¬ Holds stores.rows target digest → deleteOutcome parse stores target digest =
    (errorResponse .manifestUnknown (str "manifest unknown"), stores)

/-- What the reference scan still finds after the repository's own rows are gone. -/
def KeptElsewhere (rows : Rows) (target : Repository) (digest : Str) : Prop :=
  (∃ key, tagPrefixAll <+: key ∧ ¬ tagPrefix target.index target.repo <+: key ∧
    rows[key]?.bind Str.fromUtf8 = some digest) ∨
  ListedChild parse rows digest ∨
  ∃ key, referrerPrefixAll <+: key ∧
    ¬ scopedPrefix referrerPrefixAll target.index target.repo <+: key ∧
    rows[key]?.isSome = true ∧ NamesIt digest key

variable (target : Repository) (digest : Str) (stores : Stores)

def cleaned : Stores := ((deleteRepoTagsTo target.index target.repo digest).run stores).2

theorem cleaned_manifest (image : Str) :
    (cleaned target digest stores).rows[manifestKey image]? = stores.rows[manifestKey image]? :=
  (deleteRepoTagsTo_shrinks target.index target.repo digest stores).manifests image

theorem cleaned_manifestAt (image : Str) :
    manifestAt (cleaned target digest stores).rows image = manifestAt stores.rows image :=
  manifestAt_congr (cleaned_manifest target digest stores image)

theorem tagFreshnessKey_ne_of_tag (index repo tag key : Str) (h : tagPrefixAll <+: key) :
    key ≠ tagFreshnessKey index repo tag := by
  obtain ⟨rest, rfl⟩ := h
  unfold tagFreshnessKey scopedPrefix
  simp only [List.append_assoc]
  exact append_ne_of_prefixes _ _ _ _ (by decide) (by decide)

theorem not_referrer_of_tag (key : Str) (h : tagPrefixAll <+: key) : ¬ referrerPrefixAll <+: key := by
  obtain ⟨rest, rfl⟩ := h
  rintro ⟨other, heq⟩
  exact append_ne_of_prefixes _ _ _ _ (by decide) (by decide) heq

theorem cleaned_tag (key : Str) (h : tagPrefixAll <+: key)
    (hother : ¬ tagPrefix target.index target.repo <+: key) :
    (cleaned target digest stores).rows[key]? = stores.rows[key]? := by
  apply swept_kept
  · intro tag _
    refine ⟨?_, tagFreshnessKey_ne_of_tag _ _ tag key h⟩
    rintro rfl
    exact hother (tagKey_under _ _ tag)
  · rintro ⟨hunder, _⟩
    exact not_referrer_of_tag key h ((referrers_under _ _).trans hunder)

theorem cleaned_referenced : Referenced parse (cleaned target digest stores).rows digest ↔
    KeptElsewhere parse stores.rows target digest := by
  refine or_congr ?_ (or_congr ?_ ?_)
  · constructor
    · rintro ⟨key, hunder, hrow⟩
      have hother : ¬ tagPrefix target.index target.repo <+: key := by
        rintro ⟨tag, rfl⟩
        obtain ⟨raw, hraw, htext⟩ := Option.bind_eq_some_iff.mp hrow
        have hshrinks := (deleteRepoTagsTo_shrinks target.index target.repo digest stores).rows
          (tagKey target.index target.repo tag)
        rw [show ((deleteRepoTagsTo target.index target.repo digest).run stores).2.rows[
          tagKey target.index target.repo tag]? = some raw from hraw] at hshrinks
        rcases hshrinks with hsame | hnone
        · rw [((Str.fromUtf8_eq_some raw digest).mp htext).2] at hsame
          have hgone := swept_tag target.index target.repo digest stores tag hsame.symm
          exact absurd (hraw.symm.trans hgone) nofun
        · cases hnone
      rw [cleaned_tag target digest stores key hunder hother] at hrow
      exact ⟨key, hunder, hother, hrow⟩
    · rintro ⟨key, hunder, hother, hrow⟩
      refine ⟨key, hunder, ?_⟩
      rw [cleaned_tag target digest stores key hunder hother]
      exact hrow
  · unfold ListedChild
    simp only [cleaned_manifestAt]
  · have hkept : ∀ key, referrerPrefixAll <+: key →
        ¬ (scopedPrefix referrerPrefixAll target.index target.repo <+: key ∧ NamesIt digest key) →
        (cleaned target digest stores).rows[key]? = stores.rows[key]? := by
      intro key hunder hother
      exact swept_kept _ _ _ stores key (fun tag _ =>
        ⟨(tagKey_ne_of_referrer _ _ tag key hunder).symm,
          (tagFreshnessKey_ne_of_referrer _ _ tag key hunder).symm⟩) hother
    constructor
    · rintro ⟨key, hunder, hrow, hnames⟩
      have hother : ¬ scopedPrefix referrerPrefixAll target.index target.repo <+: key := by
        intro hown
        have hgone := swept_referrer target.index target.repo digest stores key hown hnames
        rw [show (cleaned target digest stores).rows[key]? = none from hgone] at hrow
        cases hrow
      rw [hkept key hunder fun hown => hother hown.1] at hrow
      exact ⟨key, hunder, hother, hrow, hnames⟩
    · rintro ⟨key, hunder, hother, hrow, hnames⟩
      refine ⟨key, hunder, ?_, hnames⟩
      rw [hkept key hunder fun hown => hother hown.1]
      exact hrow

/-! ### The two steps after the loops -/

theorem unlinkUnreferenced_kept (present : Bool)
    (h : present = true → Referenced parse stores.rows digest) :
    ((unlinkUnreferenced parse present digest).run stores).2 = stores := by
  cases present with
  | false => rfl
  | true =>
    have hmem := (mem_referencedManifestDigests parse stores digest).mpr (h rfl)
    have hstores := (referencedManifestDigests_readOnly parse).run stores
    simp only [unlinkUnreferenced, if_true, Prog.run_bind, unlinkUnless, if_pos hmem,
      Prog.run_pure, hstores]

theorem unlinkUnreferenced_unlinks (h : ¬ Referenced parse stores.rows digest) :
    ((unlinkUnreferenced parse true digest).run stores).2 =
      stores.eraseRow (manifestKey digest) := by
  have hmem := mt (mem_referencedManifestDigests parse stores digest).mp h
  have hstores := (referencedManifestDigests_readOnly parse).run stores
  simp only [unlinkUnreferenced, if_true, Prog.run_bind, unlinkUnless, if_neg hmem,
    Prog.run_pure, hstores, deleteManifest, deleteDriverValue, Prog.run_transact]

theorem reachableAsChild_readOnly (index repo : Str) :
    (reachableAsChild parse index repo digest).ReadOnly :=
  (Prog.readOnly_read _).bind fun keys => reachableFrom_readOnly parse _ _ keys

theorem prune_run (index repo : Str) :
    ((pruneManifestMembership parse index repo digest).run stores).2 = stores ∨
      ((pruneManifestMembership parse index repo digest).run stores).2 =
        stores.eraseRow (membershipKey index repo digest) := by
  have hstores := (reachableAsChild_readOnly parse digest index repo).run stores
  unfold pruneManifestMembership
  rw [Prog.run_bind, hstores]
  cases ((reachableAsChild parse index repo digest).run stores).1 with
  | true => exact Or.inl rfl
  | false => exact Or.inr rfl

theorem pruned_kept (index repo key : Str) (h : membershipKey index repo digest ≠ key) :
    ((pruneManifestMembership parse index repo digest).run stores).2.rows[key]? =
      stores.rows[key]? := by
  rcases prune_run parse digest stores index repo with heq | heq
  · rw [heq]
  · rw [heq, Stores.eraseRow_getElem?, if_neg h]

theorem prune_idle (index repo : Str) (h : isManifestMember stores.rows index repo digest ≠ true) :
    ((pruneManifestMembership parse index repo digest).run stores).2 = stores := by
  rcases prune_run parse digest stores index repo with heq | heq
  · exact heq
  · have hnone : stores.rows[membershipKey index repo digest]? = none := by
      cases hrow : stores.rows[membershipKey index repo digest]? with
      | none => rfl
      | some value =>
        apply absurd _ h
        unfold isManifestMember
        rw [hrow]
        rfl
    rw [heq]
    unfold Stores.eraseRow Stores.setRows
    rw [Table.erase_eq_self _ _ hnone]

/-! ### The outcome of a delete -/

def unlinked : Stores :=
  ((unlinkUnreferenced parse (manifestAt stores.rows digest).isSome digest).run
    (cleaned target digest stores)).2

theorem deleteOutcome_stores : (deleteOutcome parse stores target digest).2 =
    ((pruneManifestMembership parse target.index target.repo digest).run
      (unlinked parse target digest stores)).2 := by
  unfold deleteOutcome deleteManifestByDigest unlinked cleaned
  simp only [Prog.run_bind, getManifest, Prog.run_read, Prog.run_pure]

theorem deleteOutcome_reply : (deleteOutcome parse stores target digest).1 =
    deleteReply ((manifestAt stores.rows digest).isSome ||
      decide (0 < (untagged target.index target.repo digest stores).1) ||
      decide (0 < (unreferred target.index target.repo digest stores).1)) := by
  unfold deleteOutcome deleteManifestByDigest
  simp only [Prog.run_bind, getManifest, Prog.run_read, Prog.run_pure, deleteRepoTagsTo_run]

theorem unlinked_kept (key : Str) (hmanifest : manifestKey digest ≠ key) :
    (unlinked parse target digest stores).rows[key]? =
      (cleaned target digest stores).rows[key]? := by
  unfold unlinked
  by_cases h : (manifestAt stores.rows digest).isSome = true →
      Referenced parse (cleaned target digest stores).rows digest
  · rw [unlinkUnreferenced_kept parse digest _ _ h]
  · rw [Classical.not_imp] at h
    rw [h.1, unlinkUnreferenced_unlinks parse digest _ h.2, Stores.eraseRow_getElem?,
      if_neg hmanifest]

theorem deleteOutcome_kept (key : Str) (hmanifest : manifestKey digest ≠ key)
    (hmember : membershipKey target.index target.repo digest ≠ key)
    (htag : ∀ tag, key ≠ tagKey target.index target.repo tag ∧
      key ≠ tagFreshnessKey target.index target.repo tag)
    (hreferrer : ¬ referrerPrefixAll <+: key) :
    (deleteOutcome parse stores target digest).2.rows[key]? = stores.rows[key]? := by
  rw [deleteOutcome_stores, pruned_kept _ _ _ _ _ _ hmember,
    unlinked_kept parse target digest stores key hmanifest]
  exact swept_kept _ _ _ stores key (fun tag _ => htag tag) fun hown =>
    hreferrer ((referrers_under _ _).trans hown.1)

theorem deleteOutcome_manifest (h : (manifestAt stores.rows digest).isSome = true) :
    (manifestAt (deleteOutcome parse stores target digest).2.rows digest).isSome = true ↔
      KeptElsewhere parse stores.rows target digest := by
  rw [← cleaned_referenced, deleteOutcome_stores, manifestAt_congr (pruned_kept _ _ _ _ _ _
    (manifestKey_ne_membershipKey digest target.index target.repo digest).symm)]
  unfold unlinked
  rw [h]
  by_cases href : Referenced parse (cleaned target digest stores).rows digest
  · rw [unlinkUnreferenced_kept parse digest _ true fun _ => href, cleaned_manifestAt]
    exact iff_of_true h href
  · rw [unlinkUnreferenced_unlinks parse digest _ href]
    apply iff_of_false _ href
    unfold manifestAt
    rw [Stores.eraseRow_getElem?, if_pos rfl]
    exact nofun

theorem deleteOutcome_other_manifest (image : Str) (h : image ≠ digest) :
    manifestAt (deleteOutcome parse stores target digest).2.rows image =
      manifestAt stores.rows image := by
  apply manifestAt_congr
  rw [deleteOutcome_stores, pruned_kept _ _ _ _ _ _
      (manifestKey_ne_membershipKey image target.index target.repo digest).symm,
    unlinked_kept parse target digest stores _ fun heq => h ((manifestKey_inj _ _).mp heq).symm]
  exact cleaned_manifest target digest stores image

/-! ### Other repositories -/

theorem tagPrefix_of_other (other : Repository) (h : other ≠ target) (tag : Str) :
    ¬ tagPrefix target.index target.repo <+: tagKey other.index other.repo tag := by
  rintro ⟨rest, heq⟩
  exact h (scopedPrefix_inj _ _ _ _ _ heq).symm

theorem deleteOutcome_tag (other : Repository) (h : other ≠ target) (tag : Str) :
    (deleteOutcome parse stores target digest).2.rows[tagKey other.index other.repo tag]? =
      stores.rows[tagKey other.index other.repo tag]? := by
  have hunder : tagPrefixAll <+: tagKey other.index other.repo tag := by
    rw [tagKey_eq]
    exact List.prefix_append _ _
  apply deleteOutcome_kept
  · exact (tagKey_ne_manifestKey _ _ _ _).symm
  · exact (membershipKey_aside _ _ _).1 _ _ _
  · intro own
    refine ⟨?_, tagFreshnessKey_ne_of_tag _ _ _ _ hunder⟩
    intro heq
    exact tagPrefix_of_other target other h tag (heq ▸ tagKey_under _ _ own)
  · exact not_referrer_of_tag _ hunder

theorem deleteOutcome_membership (other : Repository) (h : other ≠ target) (member : Str) :
    (deleteOutcome parse stores target digest).2.rows[
        membershipKey other.index other.repo member]? =
      stores.rows[membershipKey other.index other.repo member]? := by
  apply deleteOutcome_kept
  · exact manifestKey_ne_membershipKey _ _ _ _
  · intro heq
    exact h (scopedPrefix_inj _ _ _ _ _ heq).symm
  · intro tag
    refine ⟨(membershipKey_aside _ _ _).1 _ _ _, ?_⟩
    unfold tagFreshnessKey scopedPrefix
    rw [membershipKey_eq]
    simp only [List.append_assoc]
    exact append_ne_of_prefixes _ _ _ _ (by decide) (by decide)
  · rw [membershipKey_eq]
    rintro ⟨rest, heq⟩
    exact append_ne_of_prefixes _ _ _ _ (by decide) (by decide) heq

theorem deleteOutcome_spares (other : Repository) (h : other ≠ target)
    (hbytes : (manifestAt stores.rows digest).isSome = true →
      KeptElsewhere parse stores.rows target digest ∨
        isManifestMember stores.rows other.index other.repo digest = false) :
    Spares stores.rows (deleteOutcome parse stores target digest).2.rows other where
  byDigest := by
    rintro image ⟨hmember, hstored⟩
    have hafter : isManifestMember (deleteOutcome parse stores target digest).2.rows other.index
        other.repo image = true := by
      unfold isManifestMember at hmember ⊢
      rw [deleteOutcome_membership parse target digest stores other h image]
      exact hmember
    refine ⟨hafter, ?_⟩
    by_cases himage : image = digest
    · subst himage
      rcases hbytes hstored with hkept | hnot
      · exact (deleteOutcome_manifest parse target image stores hstored).mpr hkept
      · rw [hnot] at hmember
        cases hmember
    · rw [deleteOutcome_other_manifest parse target digest stores image himage]
      exact hstored
  byTag := by
    rintro tag ⟨image, htag, hstored⟩
    refine ⟨image, ?_, ?_⟩
    · unfold tagAt at htag ⊢
      rw [deleteOutcome_tag parse target digest stores other h tag]
      exact htag
    · by_cases himage : image = digest
      · subst himage
        apply (deleteOutcome_manifest parse target image stores hstored).mpr
        refine Or.inl ⟨tagKey other.index other.repo tag, ?_,
          tagPrefix_of_other target other h tag, htag⟩
        rw [tagKey_eq]
        exact List.prefix_append _ _
      · rw [deleteOutcome_other_manifest parse target digest stores image himage]
        exact hstored
  tags := deleteOutcome_tag parse target digest stores other h
  memberships := deleteOutcome_membership parse target digest stores other h

theorem deleteOutcome_unheld (hstored : ¬ (manifestAt stores.rows digest).isSome = true)
    (h : ¬ Holds stores.rows target digest) : deleteOutcome parse stores target digest =
      (errorResponse .manifestUnknown (str "manifest unknown"), stores) := by
  simp only [Holds, not_or] at h
  obtain ⟨hmember, htags, hreferrers⟩ := h
  have hcleaned : cleaned target digest stores = stores := by
    unfold cleaned
    rw [deleteRepoTagsTo_idle _ _ _ _ htags hreferrers]
  apply Prod.ext
  · rw [deleteOutcome_reply, (untagged_count _ _ _ _).mpr htags,
      (unreferred_count _ _ _ _).mpr hreferrers, Bool.eq_false_of_not_eq_true hstored]
    rfl
  · rw [deleteOutcome_stores]
    have hunlinked : unlinked parse target digest stores = stores := by
      unfold unlinked
      rw [hcleaned]
      exact unlinkUnreferenced_kept parse digest stores _ fun htrue => absurd htrue hstored
    rw [hunlinked]
    exact prune_idle parse digest stores _ _ hmember

/-- A delete is confined to its repository exactly when the manifest is not stored, or
the repository holds the digest and either something the scan looks at still refers to
it or no other repository is a member. -/
theorem delete_confined_iff : DeleteConfined parse stores target digest ↔
    ((manifestAt stores.rows digest).isSome = true → Holds stores.rows target digest ∧
      (KeptElsewhere parse stores.rows target digest ∨ ∀ other, other ≠ target →
        isManifestMember stores.rows other.index other.repo digest = false)) := by
  constructor
  · intro h hstored
    constructor
    · by_contra hunheld
      have hreply := congrArg Prod.fst (h.unheld hunheld)
      rw [deleteOutcome_reply, hstored] at hreply
      cases hreply
    · by_cases hkept : KeptElsewhere parse stores.rows target digest
      · exact Or.inl hkept
      · apply Or.inr
        intro other hother
        apply Bool.eq_false_of_not_eq_true
        intro hmember
        have hread := ((h.others other hother).byDigest digest ⟨hmember, hstored⟩).2
        exact hkept ((deleteOutcome_manifest parse target digest stores hstored).mp hread)
  · intro h
    constructor
    · intro other hother
      apply deleteOutcome_spares parse target digest stores other hother
      intro hstored
      rcases (h hstored).2 with hkept | hnone
      · exact Or.inl hkept
      · exact Or.inr (hnone other hother)
    · intro hunheld
      apply deleteOutcome_unheld parse target digest stores _ hunheld
      intro hstored
      exact hunheld (h hstored).1

end Delete

/-! ### A manifest pushed by digest into another repository -/

def vaultApp : Repository := ⟨str "vault", str "app", by decide, by decide⟩

def storeApp : Repository := ⟨str "store", str "app", by decide, by decide⟩

/-- `store/app` does not hold the manifest of `vault/app`, and its delete unlinks it. -/
theorem delete_reaches_vault : ¬ DeleteConfined parseIndex vaultChild storeApp childDigest := by
  intro h
  have hne : vaultApp ≠ storeApp := by
    intro heq
    exact absurd (congrArg Repository.index heq) (by decide)
  have hread := (h.others vaultApp hne).byDigest childDigest ⟨by decide, by decide⟩
  exact absurd hread.2 (by decide)

end Peryx.Oci
