import Peryx.Pypi.Siblings

/-! # What ingesting pages does to the sibling rows -/

namespace Peryx.Pypi
open Storage

def keyspace (key : Str) : Str := key.take 7

theorem keyspace_append (start rest : Str) (h : start.length = 7) :
    keyspace (start ++ rest) = start := List.take_left' h

theorem ne_of_keyspace {a b : Str} (h : keyspace a ≠ keyspace b) : a ≠ b := fun hab =>
  h (congrArg keyspace hab)

theorem keyspace_of_generation {index normalized key : Str} {generation : Nat}
    (h : projectGenerationPrefix index normalized generation <+: key) :
    keyspace key = projectFilePrefix := by
  obtain ⟨rest, hrest⟩ := h
  rw [← hrest]
  unfold projectGenerationPrefix
  rw [List.append_assoc]
  exact keyspace_append projectFilePrefix _ rfl

def Untouched (key : Str) : Prop :=
  keyspace key = metadataPrefix ∨ keyspace key = provenancePrefix

theorem untouched_metadata (digest : Str) : Untouched (metadataKey digest) :=
  Or.inl (keyspace_append metadataPrefix digest rfl)

theorem untouched_provenance (digest : Str) : Untouched (provenanceKey digest) :=
  Or.inr (keyspace_append provenancePrefix digest rfl)

theorem Untouched.ne {key : Str} (h : Untouched key) (start rest : Str) (hlen : start.length = 7)
    (hmeta : start ≠ metadataPrefix) (hprov : start ≠ provenancePrefix) : start ++ rest ≠ key := by
  apply ne_of_keyspace
  rw [keyspace_append start rest hlen]
  rcases h with h | h <;> rw [h]
  · exact hmeta
  · exact hprov

theorem provenanceKey_ne_metadataKey (a b : Str) : metadataKey a ≠ provenanceKey b :=
  key_ne metadataPrefix provenancePrefix rfl rfl (by decide) a b

section Pages
variable (json : RowJson)

theorem putCachedPage_row (rows : Rows) (page : CachedPage) (key : Str) (h : Untouched key) :
    (putCachedPage json rows page)[key]? =
      (lastPut (page.siblings.map fun row => (metadataKey row.1, row.2)) key).or rows[key]? := by
  have hstatus : projectStatusKey page.index page.normalized ≠ key :=
    h.ne projectStatusPrefix _ rfl (by decide) (by decide)
  have hfresh : freshnessKey page.key ≠ key := h.ne freshnessPrefix _ rfl (by decide) (by decide)
  have hindex : indexKey page.key ≠ key := h.ne indexPrefix _ rfl (by decide) (by decide)
  have hproject : projectKey page.index page.normalized ≠ key :=
    h.ne projectsPrefix _ rfl (by decide) (by decide)
  have hfiles : ∀ row : Str × Str × Option Nat → Str × Bytes,
      (∀ file, ∃ rest, (row file).1 = filePrefix ++ rest) →
        lastPut (page.files.map row) key = none := by
    intro row hrow
    apply lastPut_none
    intro put hput
    obtain ⟨file, _, rfl⟩ := List.mem_map.mp hput
    obtain ⟨rest, hrest⟩ := hrow file
    rw [hrest]
    exact h.ne filePrefix rest rfl (by decide) (by decide)
  unfold putCachedPage
  rw [commitDriverBatch_getElem?]
  · have hfirst : ∀ status : List (Str × Bytes), (∀ put ∈ status, put.1 ≠ key) →
        lastPut ([(indexKey page.key, page.record),
          (projectKey page.index page.normalized, page.display)] ++ status) key = none := by
      intro status hs
      apply lastPut_none
      intro put hput
      simp only [List.cons_append, List.nil_append, List.mem_cons] at hput
      rcases hput with rfl | rfl | hput
      · exact hindex
      · exact hproject
      · exact hs put hput
    simp only [lastPut_append _ (List.map _ page.siblings), lastPut_append _ (List.map _ page.files)]
    rw [hfiles _ fun file => ⟨file.1, rfl⟩, Option.none_or, hfirst, Option.or_none]
    cases page.projectStatus <;> cases page.projectStatusReason <;> simp [hstatus]
  · cases page.projectStatus <;> cases page.projectStatusReason <;>
      simp [Ne.symm hfresh, Ne.symm hstatus]

theorem putCachedPage_metadata (rows : Rows) (page : CachedPage) (digest : Str) :
    (putCachedPage json rows page)[metadataKey digest]? =
      (lastPut page.siblings digest).or rows[metadataKey digest]? := by
  rw [putCachedPage_row json rows page _ (untouched_metadata digest),
    lastPut_map metadataKey fun _ _ => metadataKey_inj]

theorem putCachedPage_provenance (rows : Rows) (page : CachedPage) (digest : Str) :
    (putCachedPage json rows page)[provenanceKey digest]? = rows[provenanceKey digest]? := by
  rw [putCachedPage_row json rows page _ (untouched_provenance digest), lastPut_none]
  · rfl
  · intro put hput
    obtain ⟨row, _, rfl⟩ := List.mem_map.mp hput
    exact provenanceKey_ne_metadataKey row.1 digest

theorem storeProjectMetaState_row (rows : Rows) (index normalized key : Str)
    (state : ProjectMetaState) (h : Untouched key) :
    (storeProjectMetaState json rows index normalized state)[key]? = rows[key]? :=
  getElem?_insert_of_ne rows _ key _ (h.ne projectMetaPrefix _ rfl (by decide) (by decide))

theorem deleteGenerationRows_row (rows : Rows) (index normalized key : Str) (generation : Nat)
    (h : Untouched key) :
    (deleteGenerationRows rows index normalized generation)[key]? = rows[key]? := by
  apply eraseAll_getElem?
  intro hmem
  have hspace := keyspace_of_generation ((mem_keysUnder _ _ _).mp hmem).2
  rcases h with h | h <;> rw [h] at hspace <;> exact absurd hspace (by decide)

theorem recoverProjectGenerations_row (rows : Rows) (index normalized key : Str) (h : Untouched key) :
    (recoverProjectGenerations json rows index normalized).2[key]? = rows[key]? := by
  have hfold : ∀ (generations : List Nat) (rows : Rows),
      (generations.foldl (fun rows generation => deleteGenerationRows rows index normalized generation)
        rows)[key]? = rows[key]? := by
    intro generations
    induction generations with
    | nil => exact fun _ => rfl
    | cons generation generations ih =>
      intro rows
      rw [List.foldl_cons, ih, deleteGenerationRows_row _ _ _ _ _ h]
  unfold recoverProjectGenerations
  split
  · rfl
  · dsimp only
    split
    · exact hfold _ rows
    · rw [storeProjectMetaState_row json _ _ _ _ _ h]
      exact hfold _ rows

theorem beginProjectGeneration_row (rows : Rows) (index normalized key : Str) (h : Untouched key) :
    (beginProjectGeneration json rows index normalized).2[key]? = rows[key]? := by
  unfold beginProjectGeneration
  split
  · rfl
  · exact storeProjectMetaState_row json _ _ _ _ _ h

theorem abortProjectGeneration_row (rows : Rows) (index normalized key : Str) (generation : Nat)
    (h : Untouched key) :
    (abortProjectGeneration json rows index normalized generation)[key]? = rows[key]? := by
  have hdelete := deleteGenerationRows_row rows index normalized key generation h
  unfold abortProjectGeneration
  dsimp only
  split
  · exact hdelete
  · split
    · rw [storeProjectMetaState_row json _ _ _ _ _ h, hdelete]
    · exact hdelete

theorem publishProjectGeneration_row (rows rows' : Rows) (index normalized key : Str)
    (expectedActive : Option Nat) (generation : ProjectGeneration) (h : Untouched key)
    (hok : publishProjectGeneration json rows index normalized expectedActive generation = .ok rows') :
    rows'[key]? = rows[key]? := by
  obtain ⟨state, _, hrest⟩ := (bind_eq_ok _ _ _).mp hok
  split at hrest
  · cases hrest
  · cases hrest
    exact storeProjectMetaState_row json _ _ _ _ _ h

structure Registered (before after : Rows) (siblings : List (Str × Bytes)) : Prop where
  metadata : ∀ digest : Str,
    after[metadataKey digest]? = (lastPut siblings digest).or before[metadataKey digest]?
  provenance : ∀ digest : Str, after[provenanceKey digest]? = before[provenanceKey digest]?

theorem Registered.refl (rows : Rows) : Registered rows rows [] where
  metadata _ := rfl
  provenance _ := rfl

theorem Registered.trans {a b c : Rows} {first second : List (Str × Bytes)}
    (hab : Registered a b first) (hbc : Registered b c second) :
    Registered a c (first ++ second) where
  metadata digest := by rw [hbc.metadata, hab.metadata, lastPut_append, Option.or_assoc]
  provenance digest := by rw [hbc.provenance, hab.provenance]

theorem registered_of_same {a b : Rows} (h : ∀ key, Untouched key → b[key]? = a[key]?) :
    Registered a b [] where
  metadata digest := h _ (untouched_metadata digest)
  provenance digest := h _ (untouched_provenance digest)

theorem putCachedPage_registered (rows : Rows) (page : CachedPage) :
    Registered rows (putCachedPage json rows page) page.siblings where
  metadata digest := putCachedPage_metadata json rows page digest
  provenance digest := putCachedPage_provenance json rows page digest

theorem registerFileRows_registered (rows : Rows) (source : Str) (upstream : Option Str)
    (file : File) :
    Registered rows (registerFileRows rows source upstream file) (siblingOf source file).toList := by
  unfold registerFileRows siblingOf
  cases hsha : file.sha256 with
  | none => exact Registered.refl rows
  | some sha256 =>
    have hfile : ∀ value, Registered rows (rows.insert (fileKey sha256) value) [] := fun value =>
      registered_of_same fun key hkey => getElem?_insert_of_ne rows _ key _
        (hkey.ne filePrefix _ rfl (by decide) (by decide))
    cases hdigest : claimedMetadata file with
    | none => exact hfile _
    | some digest =>
      apply (hfile (fileSourceValue file.url source file.size upstream)).trans
      constructor
      · intro other
        show (Std.ExtTreeMap.insert _ _ _)[_]? = (lastPut [(sha256, _)] other).or _
        simp only [lastPut, Option.none_or]
        by_cases hsame : sha256 = other
        · rw [hsame, if_pos rfl]
          exact Table.getElem?_set_self _ _ (some _)
        · rw [if_neg hsame]
          exact getElem?_insert_of_ne _ _ _ _ fun hkey => hsame (metadataKey_inj hkey)
      · intro other
        exact getElem?_insert_of_ne _ _ _ _ (provenanceKey_ne_metadataKey sha256 other)

theorem insertFiles_registered (index normalized : Str) (generation : Nat) (source : Str)
    (upstream : Option Str) (files : List File) (rows : Rows) :
    let out := insertFiles json index normalized generation source upstream rows files
    Registered rows out.2 (out.1.filterMap (siblingOf source)) := by
  induction files generalizing rows with
  | nil => exact Registered.refl rows
  | cons file files ih =>
    unfold insertFiles
    dsimp only
    split
    · exact ih rows
    · have hrow : ∀ value, Registered rows
          (rows.insert (projectFileKey index normalized generation file.filename) value) [] :=
        fun value => registered_of_same fun key hkey => getElem?_insert_of_ne rows _ key _ (by
          unfold projectFileKey projectGenerationPrefix
          rw [List.append_assoc]
          exact hkey.ne projectFilePrefix _ rfl (by decide) (by decide))
      have hall := ((hrow (json.file file)).trans
        (registerFileRows_registered _ source upstream file)).trans (ih _)
      rw [List.nil_append] at hall
      simp only [List.filterMap_cons]
      cases hsib : siblingOf source file with
      | none =>
        rw [hsib] at hall
        exact hall
      | some sibling =>
        rw [hsib] at hall
        exact hall

theorem putProjectFiles_registered (rows : Rows) (index normalized : Str) (generation : Nat)
    (source : Str) (upstream : Option Str) (files : List File) (out : List File × Rows)
    (hok : putProjectFiles json rows index normalized generation source upstream files = .ok out) :
    Registered rows out.2 (out.1.filterMap (siblingOf source)) := by
  obtain ⟨state, _, hrest⟩ := (bind_eq_ok _ _ _).mp hok
  split at hrest
  · cases hrest
  · cases hrest
    exact insertFiles_registered json index normalized generation source upstream files rows

theorem insertFiles_mem (index normalized : Str) (generation : Nat) (source : Str)
    (upstream : Option Str) (files : List File) (rows : Rows) :
    ∀ file ∈ (insertFiles json index normalized generation source upstream rows files).1,
      file ∈ files := by
  induction files generalizing rows with
  | nil => exact List.forall_mem_nil _
  | cons file files ih =>
    unfold insertFiles
    dsimp only
    intro found hfound
    split at hfound
    · exact List.mem_cons_of_mem _ (ih rows found hfound)
    · rcases List.mem_cons.mp hfound with rfl | hfound
      · exact List.mem_cons_self
      · exact List.mem_cons_of_mem _ (ih _ found hfound)

theorem putProjectFiles_mem (rows : Rows) (index normalized : Str) (generation : Nat)
    (source : Str) (upstream : Option Str) (files : List File) (out : List File × Rows)
    (hok : putProjectFiles json rows index normalized generation source upstream files = .ok out) :
    ∀ file ∈ out.1, file ∈ files := by
  obtain ⟨state, _, hrest⟩ := (bind_eq_ok _ _ _).mp hok
  split at hrest
  · cases hrest
  · cases hrest
    exact insertFiles_mem json index normalized generation source upstream files rows

section Drain
variable (table : CaseMap) (pep : Pep440) (parseUploadTime : Str → Option Int)

structure Batching (page : SyncedPage) (start : Rows) (batcher : FileBatcher) : Prop where
  registered : Registered start batcher.rows (batcher.admitted.filterMap (siblingOf page.source))
  admitted : ∀ file ∈ batcher.admitted, file ∈ page.files
  batch : ∀ file ∈ batcher.batch, file ∈ page.files

variable {page : SyncedPage} {start : Rows}

theorem Batching.flush {batcher : FileBatcher} (h : Batching page start batcher) (generation : Nat) :
    Batching page start (batcher.flush json page generation).2 := by
  unfold FileBatcher.flush
  split
  · exact h
  · rename_i inserted rows hok
    refine ⟨?_, fun file hfile => ?_, List.forall_mem_nil _⟩
    · dsimp only
      rw [List.filterMap_append]
      exact h.registered.trans (putProjectFiles_registered json _ _ _ _ _ _ _ _ hok)
    · rcases List.mem_append.mp hfile with hfile | hfile
      · exact h.admitted file hfile
      · exact h.batch file (putProjectFiles_mem json _ _ _ _ _ _ _ _ hok file hfile)

theorem Batching.file {batcher : FileBatcher} (h : Batching page start batcher) (generation : Nat)
    (file : File) (hfile : file ∈ page.files) :
    Batching page start (batcher.file table pep parseUploadTime json page generation file).2 := by
  have hpushed : Batching page start
      { batcher with seen := batcher.seen + 1, batch := batcher.batch ++ [file] } := by
    refine ⟨h.registered, h.admitted, fun other hother => ?_⟩
    rcases List.mem_append.mp hother with hother | hother
    · exact h.batch other hother
    · rw [List.mem_singleton.mp hother]
      exact hfile
  unfold FileBatcher.file
  dsimp only
  split
  · exact ⟨h.registered, h.admitted, h.batch⟩
  · split
    · exact ⟨h.registered, h.admitted, h.batch⟩
    · split
      · exact hpushed.flush json generation
      · exact hpushed

theorem Batching.drain {batcher : FileBatcher} (h : Batching page start batcher) (generation : Nat)
    (files : List File) (hfiles : ∀ file ∈ files, file ∈ page.files) :
    Batching page start
      (batcher.drain table pep parseUploadTime json page generation files).2 := by
  induction files generalizing batcher with
  | nil => exact h
  | cons file files ih =>
    have hstep := h.file json table pep parseUploadTime generation file
      (hfiles file List.mem_cons_self)
    unfold FileBatcher.drain
    split
    · rename_i error batcher' heq
      rw [heq] at hstep
      exact hstep
    · rename_i batcher' heq
      rw [heq] at hstep
      exact ih hstep fun f hf => hfiles f (List.mem_cons_of_mem _ hf)

theorem parseProject_batching (rows : Rows) (page : SyncedPage) (generation : Nat) :
    Batching page rows (parseProject table pep parseUploadTime json rows page generation).2 := by
  have hstart : Batching page rows { rows := rows } := 
    ⟨Registered.refl rows, List.forall_mem_nil _, List.forall_mem_nil _⟩
  have hdrain := hstart.drain json table pep parseUploadTime generation page.files fun _ h => h
  unfold parseProject
  split
  · rename_i error batcher heq
    rw [heq] at hdrain
    exact hdrain
  · rename_i batcher heq
    rw [heq] at hdrain
    split
    · exact hdrain
    · have hflush := hdrain.flush json generation
      split
      · rename_i error flushed hf
        rw [hf] at hflush
        exact hflush
      · rename_i flushed hf
        rw [hf] at hflush
        exact hflush

theorem syncProjectFiles_registered (rows : Rows) (page : SyncedPage) :
    let out := syncProjectFiles table pep parseUploadTime json rows page
    Registered rows out.2 (out.1.filterMap (siblingOf page.source)) ∧
      ∀ file ∈ out.1, file ∈ page.files := by
  have hrecover : ∀ rows, Registered rows
      (recoverProjectGenerations json rows page.index page.project).2 [] := fun rows =>
    registered_of_same fun key hkey => recoverProjectGenerations_row json rows _ _ key hkey
  have hbegin : ∀ rows, Registered rows
      (beginProjectGeneration json rows page.index page.project).2 [] := fun rows =>
    registered_of_same fun key hkey => beginProjectGeneration_row json rows _ _ key hkey
  unfold syncProjectFiles
  dsimp only
  have hfirst := hrecover rows
  split
  · rename_i error recovered heq
    rw [heq] at hfirst
    exact ⟨hfirst, List.forall_mem_nil _⟩
  · rename_i recovered heq
    rw [heq] at hfirst
    have hsecond := hfirst.trans (hbegin recovered)
    split
    · rename_i error begun hb
      rw [hb] at hsecond
      exact ⟨hsecond, List.forall_mem_nil _⟩
    · rename_i generation expectedActive begun hb
      rw [hb] at hsecond
      have hparse := parseProject_batching json table pep parseUploadTime begun page generation
      split
      · rename_i error batcher hp
        rw [hp] at hparse
        have habort : Registered batcher.rows
            (abortProjectGeneration json batcher.rows page.index page.project generation) [] :=
          registered_of_same fun key hkey => abortProjectGeneration_row json _ _ _ key _ hkey
        have hall := hsecond.trans (hparse.registered.trans habort)
        simp only [List.append_nil, List.nil_append] at hall
        exact ⟨hall, hparse.admitted⟩
      · rename_i header batcher hp
        rw [hp] at hparse
        have hread := hsecond.trans hparse.registered
        split
        · exact ⟨hread, hparse.admitted⟩
        · rename_i published hpub
          have hpublish : Registered batcher.rows published [] :=
            registered_of_same fun key hkey =>
              publishProjectGeneration_row json _ _ _ _ key _ _ hkey hpub
          have hall := hread.trans (hpublish.trans (hrecover published))
          simp only [List.append_nil, List.nil_append] at hall
          exact ⟨hall, hparse.admitted⟩

end Drain
end Pages

theorem splitMetadata_ne_none (url metadataSha256 source : Str) :
    splitMetadata (metadataValue url metadataSha256 source) ≠ none := by
  have hmem : 0x0A ∈ metadataValue url metadataSha256 source := by simp [metadataValue, newline]
  cases hfirst : Str.splitOnce 0x0A (metadataValue url metadataSha256 source) with
  | none => exact absurd hmem ((Str.splitOnce_eq_none _ _).mp hfirst)
  | some parts =>
    obtain ⟨front, rest⟩ := parts
    have heq := Str.splitOnce_eq_some _ _ _ _ hfirst
    have hnot := Str.splitOnce_not_mem _ _ _ _ hfirst
    have hrest : (0x0A : UInt8) ∈ rest := by
      -- the value has two newlines and the front has none of them
      have hcount := congrArg (List.count (0x0A : UInt8)) heq
      rw [List.count_append, List.count_cons_self, List.count_eq_zero_of_not_mem hnot] at hcount
      have htwo : 2 ≤ List.count (0x0A : UInt8) (metadataValue url metadataSha256 source) := by
        simp only [metadataValue, newline, List.count_append, List.count_singleton_self]
        omega
      exact List.count_pos_iff.mp (by omega)
    obtain ⟨parts, hparts⟩ := Option.ne_none_iff_exists'.mp
      fun hnone => (Str.splitOnce_eq_none _ _).mp hnone hrest
    unfold splitMetadata
    rw [hfirst]
    simp [hparts]

def Readable (value : Bytes) : Prop := Str.IsUtf8 value ∧ splitMetadata value ≠ none

theorem readable_metadataValue (url metadataSha256 source : Str) (hurl : url.IsUtf8)
    (hsha : metadataSha256.IsUtf8) (hsource : source.IsUtf8) :
    Readable (metadataValue url metadataSha256 source) :=
  ⟨metadataValue_isUtf8 url metadataSha256 source hurl hsha hsource,
    splitMetadata_ne_none url metadataSha256 source⟩

theorem readable_siblingOf (source : Str) (file : File) (row : Str × Bytes)
    (hfile : file.TextRegistered) (hsource : source.IsUtf8) (h : siblingOf source file = some row) :
    Readable row.2 := by
  unfold siblingOf at h
  cases hsha : file.sha256 with
  | none =>
    rw [hsha] at h
    cases h
  | some sha256 =>
    cases hdigest : claimedMetadata file with
    | none =>
      rw [hsha, hdigest] at h
      cases h
    | some digest =>
      rw [hsha, hdigest] at h
      cases h
      exact readable_metadataValue _ _ _ (metadataSibling_isUtf8 _ hfile.url)
        (hfile.metadata digest hdigest) hsource

end Peryx.Pypi
