import Mathlib.Data.Finset.Image
import Peryx.Library.Merging
import Peryx.Pypi.PageText
import Peryx.Pypi.SyncKinds
import Peryx.Storage.LoneCalls

/-!
# The order in which rows are staged (store/projects.rs:117-151, store/index.rs:322-358, catalog.rs:259-307)

The entries of an upstream document are staged in batches, each in a transaction of its own.
-/

namespace Peryx.Pypi
open Storage

def stageAll {ε I : Type} (put : List I → Calls ε Nat) : List (List I) → Calls ε Nat
  | [] => pure 0
  | batch :: batches => do
    let written ← put batch
    let rest ← stageAll put batches
    return written + rest

def GenerationSpace.Staging {A : Type} (space : GenerationSpace A) (generation : Nat) (rows : Rows) :
    Prop :=
  ∃ state, space.state rows = .ok state ∧ state.staging = some generation

section Batches
variable {A I ε : Type} (space : GenerationSpace A) (generation : Nat)
  (insert : Rows → List I → Nat × Rows)

structure Resumes : Prop where
  nil : ∀ rows, insert rows [] = (0, rows)
  append : ∀ rows items more, insert rows (items ++ more) =
    ((insert rows items).1 + (insert (insert rows items).2 more).1,
      (insert (insert rows items).2 more).2)
  state : ∀ rows items, (insert rows items).2[space.stateKey]? = rows[space.stateKey]?

def Puts (put : List I → Calls ε Nat) : Prop :=
  ∀ (disk : Disk) (items : List I), disk.fault = .never →
    space.Staging generation disk.store.rows → (put items).run.run disk =
      (.ok (insert disk.store.rows items).1,
        { disk with store.rows := (insert disk.store.rows items).2 })

theorem puts_put : Puts space generation insert
    fun items => space.put generation fun rows => insert rows items := by
  intro disk items hfault hstaging
  refine run_rowsCall _ hfault _ _ ?_
  obtain ⟨state, hread, hgeneration⟩ := hstaging
  unfold GenerationSpace.putTxn GenerationSpace.withState
  rw [hread]
  dsimp only
  rw [if_neg fun hne => hne hgeneration]

theorem Puts.raised {δ : Type} {put : List I → Calls ε Nat} (h : Puts space generation insert put)
    (f : ε → δ) : Puts space generation insert fun items => raised f (put items) := by
  intro disk items hfault hstaging
  rw [run_raised, h disk items hfault hstaging]
  rfl

theorem run_stageAll (hresumes : Resumes space insert) {put : List I → Calls ε Nat}
    (hput : Puts space generation insert put) (batches : List (List I)) (disk : Disk)
    (hfault : disk.fault = .never) (hstaging : space.Staging generation disk.store.rows) :
    (stageAll put batches).run.run disk =
      (.ok (insert disk.store.rows batches.flatten).1,
        { disk with store.rows := (insert disk.store.rows batches.flatten).2 }) := by
  induction batches generalizing disk with
  | nil =>
    rw [List.flatten_nil, hresumes.nil]
    rfl
  | cons batch batches ih =>
    have hkept : space.Staging generation (insert disk.store.rows batch).2 := by
      obtain ⟨state, hread, hgeneration⟩ := hstaging
      refine ⟨state, ?_, hgeneration⟩
      unfold GenerationSpace.state at hread ⊢
      rw [hresumes.state]
      exact hread
    have hrest := ih { disk with store.rows := (insert disk.store.rows batch).2 } hfault hkept
    rw [stageAll, run_calls_bind (hput disk batch hfault hstaging), run_calls_bind hrest,
      List.flatten_cons, hresumes.append]
    rfl

end Batches

theorem parse_splits {A E I H : Type} (kind : SyncKind A E I H) (head : H) (generation : Nat)
    (entries : List E) (seen : Nat) (batch : List I)
    (hcheck : ∀ entry ∈ entries, (kind.check entry).isSome)
    (hlimit : seen + entries.length ≤ kind.limit) :
    ∃ batches : List (List I),
      batches.flatten = batch ++ entries.filterMap (fun entry => (kind.check entry).join) ∧
        ∀ inserted, kind.parse head generation true seen inserted batch entries = (do
          let staged ← stageAll (kind.putBatch head generation) batches
          return inserted + staged) := by
  induction entries generalizing seen batch with
  | nil =>
    refine ⟨[batch], by simp, fun inserted => ?_⟩
    unfold SyncKind.parse stageAll stageAll
    simp
  | cons entry entries ih =>
    obtain ⟨admitted, hentry⟩ := Option.isSome_iff_exists.mp (hcheck entry List.mem_cons_self)
    have hrest := fun entry hmem => hcheck entry (List.mem_cons_of_mem _ hmem)
    rw [List.length_cons] at hlimit
    have hseen : ¬ kind.limit < seen + 1 := by omega
    simp only [SyncKind.parse, List.filterMap_cons, hentry, Option.join_some, hseen, if_false]
    cases admitted with
    | none => exact ih (seen + 1) batch hrest (by omega)
    | some item =>
      dsimp only
      split
      · obtain ⟨batches, hflatten, hparse⟩ := ih (seen + 1) [] hrest (by omega)
        refine ⟨(batch ++ [item]) :: batches, by rw [List.flatten_cons, hflatten]; simp,
          fun inserted => ?_⟩
        simp only [hparse, stageAll, bind_assoc, pure_bind, Nat.add_assoc]
      · obtain ⟨batches, hflatten, hparse⟩ := ih (seen + 1) (batch ++ [item]) hrest (by omega)
        exact ⟨batches, by rw [hflatten, List.append_assoc, List.singleton_append], hparse⟩

def smaller (current display : Str) : Str := if display < current then display else current

theorem smaller_comm (a b : Str) : smaller a b = smaller b a := by
  unfold smaller
  split
  · rename_i hlt
    rw [if_neg fun hgt => List.lt_irrefl a (List.lt_trans hgt hlt)]
  · rename_i hle
    split
    · rfl
    · rename_i hge
      exact List.le_antisymm (List.not_lt.mp hle) (List.not_lt.mp hge)

structure KeptSpelling (spellings : List Str) (kept : Option Str) : Prop where
  absent : kept = none → spellings = []
  least : ∀ display, kept = some display → display ∈ spellings ∧
    ∀ other ∈ spellings, ¬ other < display

theorem joined_smaller (row : Option Str) (values : List Str) :
    KeptSpelling (row.toList ++ values) (Table.joined smaller row values) := by
  induction values generalizing row with
  | nil =>
    cases row with
    | none => exact ⟨fun _ => rfl, nofun⟩
    | some current =>
      refine ⟨nofun, fun display h => ?_⟩
      cases h
      refine ⟨List.mem_cons_self, fun other hother => ?_⟩
      rw [Option.toList_some, List.append_nil, List.mem_singleton] at hother
      rw [hother]
      exact List.lt_irrefl current
  | cons value values ih =>
    have hjoined : Table.joined smaller row (value :: values) =
        Table.joined smaller (some (row.elim value fun current => smaller current value)) values := rfl
    have hrest := ih (some (row.elim value fun current => smaller current value))
    rw [hjoined]
    cases row with
    | none => exact hrest
    | some current =>
      refine ⟨fun hnone => (List.cons_ne_nil _ _ (hrest.absent hnone)).elim, fun display h => ?_⟩
      obtain ⟨hmem, hleast⟩ := hrest.least display h
      -- What was joined is one of the two, and neither is smaller than it.
      have hone : smaller current value = current ∨ smaller current value = value := by
        unfold smaller
        split
        · exact .inr rfl
        · exact .inl rfl
      have hboth : ∀ other, other = current ∨ other = value → ¬ other < smaller current value := by
        intro other hother
        unfold smaller
        split
        · rename_i hlt
          rcases hother with rfl | rfl
          · exact fun hgt => List.lt_irrefl other (List.lt_trans hgt hlt)
          · exact List.lt_irrefl other
        · rename_i hle
          rcases hother with rfl | rfl
          · exact List.lt_irrefl other
          · exact hle
      have hjoined : ∀ other, other = current ∨ other = value → ¬ other < display := by
        intro other hother hlt
        have hle := List.not_lt.mp (hleast (smaller current value) List.mem_cons_self)
        exact hboth other hother (Std.lt_of_lt_of_le hlt hle)
      simp only [Option.elim_some, Option.toList_some, List.singleton_append, List.mem_cons] at hmem ⊢
      constructor
      · rcases hmem with rfl | hmem
        · rcases hone with hone | hone
          · exact .inl hone
          · exact .inr (.inl hone)
        · exact .inr (.inr hmem)
      · intro other hother
        rcases hother with hother | hother | hother
        · exact hjoined other (.inl hother)
        · exact hjoined other (.inr hother)
        · exact hleast other (List.mem_cons_of_mem _ hother)

theorem smaller_assoc (a b c : Str) : smaller (smaller a b) c = smaller a (smaller b c) := by
  unfold smaller
  by_cases hba : b < a
  · by_cases hcb : c < b
    · have hca := List.lt_trans hcb hba
      rw [if_pos hba, if_pos hcb, if_pos hca]
    · rw [if_pos hba, if_neg hcb, if_pos hba]
  · by_cases hcb : c < b
    · rw [if_neg hba, if_pos hcb]
    · have hca : ¬ c < a := fun hca =>
        hcb (Std.lt_of_lt_of_le hca (List.not_lt.mp hba))
      rw [if_neg hba, if_neg hca, if_neg hcb, if_neg hba]

section Catalog
variable (index : Str) (generation : Nat)

def keyedProjects (projects : List (Str × Str)) : List (Str × Str) :=
  projects.map fun project => (catalogProjectKey index generation project.1, project.2)

theorem insert_same (rows : Rows) (key value : Str) (h : rows[key]? = some value) :
    rows.insert key value = rows := by
  refine Std.ExtTreeMap.ext_getElem? fun other => ?_
  rw [Table.getElem?_put]
  split
  · rename_i heq
    rw [← heq, h]
  · rfl

theorem insertProjects_eq_merge (rows : Rows) (projects : List (Str × Str)) :
    insertProjects index generation rows projects =
      Table.merge smaller rows (keyedProjects index generation projects) := by
  induction projects generalizing rows with
  | nil => rfl
  | cons project projects ih =>
    obtain ⟨normalized, display⟩ := project
    have hcons : keyedProjects index generation ((normalized, display) :: projects) =
        (catalogProjectKey index generation normalized, display) ::
          keyedProjects index generation projects := rfl
    rw [hcons, insertProjects, Table.merge]
    cases hrow : rows[catalogProjectKey index generation normalized]? with
    | none => simp only [ih]
    | some current =>
      dsimp only
      unfold smaller
      split
      · exact ih _
      · rw [insert_same rows _ current hrow]
        exact ih rows

theorem catalogProjectKey_inj (normalized other : Str) :
    catalogProjectKey index generation normalized = catalogProjectKey index generation other ↔
      normalized = other :=
  List.append_right_inj _

theorem valuesOf_keyedProjects (projects : List (Str × Str)) (normalized : Str) :
    Table.valuesOf (keyedProjects index generation projects)
        (catalogProjectKey index generation normalized) =
      Table.valuesOf projects normalized := by
  unfold Table.valuesOf keyedProjects
  rw [List.filterMap_map]
  refine List.filterMap_congr fun project _ => ?_
  simp only [Function.comp_apply, catalogProjectKey_inj]

def newNames (rows : Rows) (projects : List (Str × Str)) : Finset Str :=
  (projects.map Prod.fst).toFinset.filter fun normalized =>
    rows[catalogProjectKey index generation normalized]? = none

theorem freshKeys_keyedProjects (rows : Rows) (projects : List (Str × Str)) :
    (Table.freshKeys rows (keyedProjects index generation projects)).card =
      (newNames index generation rows projects).card := by
  have himage : Table.freshKeys rows (keyedProjects index generation projects) =
      (newNames index generation rows projects).image (catalogProjectKey index generation) := by
    ext key
    unfold Table.freshKeys newNames keyedProjects
    simp only [Finset.mem_filter, Finset.mem_image, List.mem_toFinset, List.map_map, List.mem_map,
      Function.comp_apply]
    constructor
    · rintro ⟨⟨project, hproject, rfl⟩, hrow⟩
      exact ⟨project.1, ⟨⟨project, hproject, rfl⟩, hrow⟩, rfl⟩
    · rintro ⟨_, ⟨⟨project, hproject, rfl⟩, hrow⟩, rfl⟩
      exact ⟨⟨project, hproject, rfl⟩, hrow⟩
  rw [himage, Finset.card_image_of_injective _ fun a b hab =>
    (catalogProjectKey_inj index generation a b).mp hab]

structure CatalogStaged (projects : List (Str × Str)) (before after : Rows) : Prop where
  kept : ∀ normalized, KeptSpelling
    (before[catalogProjectKey index generation normalized]?.toList ++
      Table.valuesOf projects normalized)
    after[catalogProjectKey index generation normalized]?
  others : ∀ key, (∀ project ∈ projects, key ≠ catalogProjectKey index generation project.1) →
    after[key]? = before[key]?

theorem merged_catalogStaged (rows : Rows) (projects : List (Str × Str)) :
    CatalogStaged index generation projects rows
      (Table.merge smaller rows (keyedProjects index generation projects)).2 where
  kept normalized := by
    rw [Table.merge_row, valuesOf_keyedProjects]
    exact joined_smaller _ _
  others key hkey := by
    have hnone : Table.valuesOf (keyedProjects index generation projects) key = [] := by
      rw [List.eq_nil_iff_forall_not_mem]
      intro display hdisplay
      obtain ⟨project, hproject, heq⟩ := List.mem_map.mp ((Table.mem_valuesOf _ _ _).mp hdisplay)
      exact hkey project hproject (congrArg Prod.fst heq).symm
    rw [Table.merge_row, hnone]
    rfl

theorem insertProjects_resumes (json : GenerationJson) :
    Resumes (catalogSpace json index) (insertProjects index generation) where
  nil _ := rfl
  append rows items more := by
    have hkeyed : keyedProjects index generation (items ++ more) =
        keyedProjects index generation items ++ keyedProjects index generation more :=
      List.map_append
    simp only [insertProjects_eq_merge, hkeyed, Table.merge_append]
  state rows items := insertProjects_frame index generation rows items _
    (prefix_length_ne _ _ _ _ rfl (by decide))

variable (json : GenerationJson)

theorem catalog_staged {ε : Type} {put : List (Str × Str) → Calls ε Nat}
    (hput : Puts (catalogSpace json index) generation (insertProjects index generation) put)
    (disk : Disk) (hfault : disk.fault = .never)
    (hstaging : (catalogSpace json index).Staging generation disk.store.rows)
    (projects : List (Str × Str)) :
    ∃ rows, CatalogStaged index generation projects disk.store.rows rows ∧
      ∀ batches : List (List (Str × Str)), batches.flatten.Perm projects →
        (stageAll put batches).run.run disk =
          (.ok (newNames index generation disk.store.rows projects).card,
            { disk with store.rows := rows }) := by
  refine ⟨_, merged_catalogStaged index generation disk.store.rows projects, fun batches hperm => ?_⟩
  have hpermKeyed : (keyedProjects index generation batches.flatten).Perm
      (keyedProjects index generation projects) := hperm.map _
  refine (run_stageAll (catalogSpace json index) generation _
    (insertProjects_resumes index generation json) hput batches disk hfault hstaging).trans ?_
  rw [insertProjects_eq_merge, Table.merge_perm smaller_comm smaller_assoc disk.store.rows
    hpermKeyed, Table.merge_count, freshKeys_keyedProjects]

theorem catalog_document_staged (table : CaseMap) (head : SyncHead) (disk : Disk)
    (hfault : disk.fault = .never)
    (hstaging : (catalogSpace json index).Staging generation disk.store.rows) (names : List Str)
    (hvalid : ∀ name ∈ names, isValidName name = true) (hlimit : names.length ≤ maxCatalogProjects) :
    ∃ rows, CatalogStaged index generation
        (names.map fun name => (normalizeName table name, name)) disk.store.rows rows ∧
      ∀ order : List Str, order.Perm names →
        ((catalogKind table json index).parse head generation true 0 0 [] order).run.run disk =
          (.ok (newNames index generation disk.store.rows
            (names.map fun name => (normalizeName table name, name))).card,
            { disk with store.rows := rows }) := by
  have hput : Puts (catalogSpace json index) generation (insertProjects index generation)
      ((catalogKind table json index).putBatch head generation) :=
    (puts_put (catalogSpace json index) generation (insertProjects index generation)).raised
      _ _ _ SyncError.store
  obtain ⟨rows, hrows, hrun⟩ := catalog_staged index generation json hput disk hfault hstaging
    (names.map fun name => (normalizeName table name, name))
  refine ⟨rows, hrows, fun order horder => ?_⟩
  have hcheck : ∀ name ∈ order, (catalogKind table json index).check name =
      some (some (normalizeName table name, name)) :=
    fun name hname => if_pos (hvalid name (horder.mem_iff.mp hname))
  obtain ⟨batches, hflatten, hparse⟩ := parse_splits (catalogKind table json index) head generation
    order 0 [] (fun name hname => by rw [hcheck name hname]; rfl) (by
      rw [Nat.zero_add, horder.length_eq]
      exact hlimit)
  have hitems : batches.flatten = order.map fun name => (normalizeName table name, name) := by
    rw [hflatten, List.nil_append, ← List.filterMap_eq_map]
    exact List.filterMap_congr fun name hname => by rw [hcheck name hname]; rfl
  have hstaged := hrun batches (hitems ▸ horder.map _)
  rw [hparse, run_calls_bind hstaged, Nat.zero_add]
  rfl

end Catalog

section Project
variable (json : GenerationJson) (index normalized : Str) (generation : Nat)

def keyedFile (file : File) : Str × Bytes :=
  (projectFileKey index normalized generation file.filename, json.file file)

theorem projectFileKey_inj (filename other : Str) :
    projectFileKey index normalized generation filename =
      projectFileKey index normalized generation other ↔ filename = other :=
  List.append_right_inj _

variable (source : Str) (upstream : Option Str)

theorem insertFiles_merge (rows table : Rows) (files : List File)
    (h : Table.AgreeOn (fun key => projectGenerationPrefix index normalized generation <+: key)
      rows table) :
    (insertFiles json.toRowJson index normalized generation source upstream rows files).1.length =
        (Table.merge Table.keepFirst table
          (files.map (keyedFile json index normalized generation))).1 ∧
      Table.AgreeOn (fun key => projectGenerationPrefix index normalized generation <+: key)
        (insertFiles json.toRowJson index normalized generation source upstream rows files).2
        (Table.merge Table.keepFirst table
          (files.map (keyedFile json index normalized generation))).2 := by
  induction files generalizing rows table with
  | nil => exact ⟨rfl, h⟩
  | cons file files ih =>
    have hcons : (file :: files).map (keyedFile json index normalized generation) =
        (projectFileKey index normalized generation file.filename, json.file file) ::
          files.map (keyedFile json index normalized generation) := rfl
    rw [hcons, insertFiles, Table.merge]
    dsimp only
    rw [h (projectFileKey index normalized generation file.filename) (List.prefix_append _ _)]
    cases hrow : table[projectFileKey index normalized generation file.filename]? with
    | none =>
      obtain ⟨hcount, hrows⟩ := ih
        (registerFileRows (rows.insert (projectFileKey index normalized generation file.filename)
          (json.file file)) source upstream file)
        (table.insert (projectFileKey index normalized generation file.filename) (json.file file))
        (fun key hkey => by
          have howns : (projectSpace json index normalized).Owns key := .inr ⟨generation, hkey⟩
          rw [registerFileRows_frame index normalized _ source upstream file key howns]
          exact h.set (projectFileKey index normalized generation file.filename)
            (some (json.file file)) key hkey)
      exact ⟨congrArg (· + 1) hcount, hrows⟩
    | some current =>
      have hsame : table.insert (projectFileKey index normalized generation file.filename)
          (Table.keepFirst current (json.file file)) = table := insert_same table _ current hrow
      dsimp only
      rw [hsame]
      exact ih rows table h

theorem insertFiles_split (rows : Rows) (files more : List File) :
    (insertFiles json.toRowJson index normalized generation source upstream rows (files ++ more)).1 =
      (insertFiles json.toRowJson index normalized generation source upstream rows files).1 ++
        (insertFiles json.toRowJson index normalized generation source upstream
          (insertFiles json.toRowJson index normalized generation source upstream rows files).2
          more).1 := by
  induction files generalizing rows with
  | nil => rfl
  | cons file files ih =>
    simp only [List.cons_append, insertFiles]
    cases rows[projectFileKey index normalized generation file.filename]? with
    | none => simp only [ih, List.cons_append]
    | some current => exact ih _

theorem insertFiles_resumes : Resumes (projectSpace json index normalized) fun rows files =>
    ((insertFiles json.toRowJson index normalized generation source upstream rows files).1.length,
      (insertFiles json.toRowJson index normalized generation source upstream rows files).2) where
  nil _ := rfl
  append rows files more := by
    rw [insertFiles_split, insertFiles_append, List.length_append]
  state rows files := insertFiles_frame index normalized generation source upstream rows files _
    (.inl rfl) (prefix_length_ne _ _ _ _ rfl (by decide))

theorem files_staged (disk : Disk) (hfault : disk.fault = .never)
    (hstaging : (projectSpace json index normalized).Staging generation disk.store.rows)
    (batches : List (List File)) :
    (stageAll (putProjectFilesCall json index normalized generation source upstream)
        batches).run.run disk =
      (.ok (insertFiles json.toRowJson index normalized generation source upstream disk.store.rows
          batches.flatten).1.length,
        { disk with store.rows := (insertFiles json.toRowJson index normalized generation source
          upstream disk.store.rows batches.flatten).2 }) :=
  run_stageAll (projectSpace json index normalized) generation _
    (insertFiles_resumes json index normalized generation source upstream)
    (puts_put (projectSpace json index normalized) generation _) batches disk hfault hstaging

def FilesOrderFree (disk : Disk) (files : List File) : Prop :=
  ∃ (count : Nat) (rows : Rows), ∀ batches : List (List File), batches.flatten.Perm files →
    ∃ after : Rows, (stageAll (putProjectFilesCall json index normalized generation source upstream)
        batches).run.run disk = (.ok count, { disk with store.rows := after }) ∧
      ∀ key, projectGenerationPrefix index normalized generation <+: key → after[key]? = rows[key]?

/-- Entries of one filename that is not staged yet are the same entry. -/
def SameNameSameFile (rows : Rows) (files : List File) : Prop :=
  ∀ a ∈ files, ∀ b ∈ files, a.filename = b.filename →
    rows[projectFileKey index normalized generation a.filename]? = none → json.file a = json.file b

theorem files_order_free_iff (disk : Disk) (hfault : disk.fault = .never)
    (hstaging : (projectSpace json index normalized).Staging generation disk.store.rows)
    (files : List File) :
    FilesOrderFree json index normalized generation source upstream disk files ↔
      SameNameSameFile json index normalized generation disk.store.rows files := by
  have hmerge := fun files => insertFiles_merge json index normalized generation source upstream
    disk.store.rows disk.store.rows files fun _ _ => rfl
  have hcondition : SameNameSameFile json index normalized generation disk.store.rows files ↔
      ∀ files' : List File, files'.Perm files → ∀ key : Str,
        (Table.merge Table.keepFirst disk.store.rows
          (files'.map (keyedFile json index normalized generation))).2[key]? =
        (Table.merge Table.keepFirst disk.store.rows
          (files.map (keyedFile json index normalized generation))).2[key]? := by
    rw [Table.merge_first_perm_iff]
    unfold SameNameSameFile keyedFile
    simp only [projectFileKey_inj]
  rw [hcondition]
  constructor
  · rintro ⟨count, rows, hfree⟩ files' hperm key
    have hrow : ∀ order : List File, order.Perm files →
        projectGenerationPrefix index normalized generation <+: key →
        (Table.merge Table.keepFirst disk.store.rows
          (order.map (keyedFile json index normalized generation))).2[key]? = rows[key]? := by
      intro order horder hkey
      obtain ⟨after, hrun, hafter⟩ := hfree [order] (by simpa using horder)
      rw [files_staged json index normalized generation source upstream disk hfault hstaging] at hrun
      have hrows : (insertFiles json.toRowJson index normalized generation source upstream
          disk.store.rows [order].flatten).2 = after :=
        congrArg (fun disk : Disk => disk.store.rows) (Prod.mk.inj hrun).2
      rw [List.flatten_singleton] at hrows
      rw [← hafter key hkey, ← hrows, ← (hmerge order).2 key hkey]
    by_cases hkey : projectGenerationPrefix index normalized generation <+: key
    · rw [hrow files' hperm hkey, hrow files (List.Perm.refl _) hkey]
    · have hnone : ∀ order : List File,
          Table.valuesOf (order.map (keyedFile json index normalized generation)) key = [] := by
        intro order
        rw [List.eq_nil_iff_forall_not_mem]
        intro value hvalue
        obtain ⟨file, _, heq⟩ := List.mem_map.mp ((Table.mem_valuesOf _ _ _).mp hvalue)
        have hfile : projectFileKey index normalized generation file.filename = key :=
          congrArg Prod.fst heq
        exact hkey (hfile ▸ List.prefix_append _ _)
      rw [Table.merge_row, Table.merge_row, hnone, hnone]
  · intro hsame
    refine ⟨(Table.merge Table.keepFirst disk.store.rows
        (files.map (keyedFile json index normalized generation))).1,
      (Table.merge Table.keepFirst disk.store.rows
        (files.map (keyedFile json index normalized generation))).2, fun batches hperm => ?_⟩
    have hrun := files_staged json index normalized generation source upstream disk hfault hstaging
      batches
    rw [(hmerge batches.flatten).1, Table.merge_count_perm disk.store.rows
      (hperm.map (keyedFile json index normalized generation))] at hrun
    refine ⟨_, hrun, fun key hkey => ?_⟩
    rw [(hmerge batches.flatten).2 key hkey]
    exact hsame batches.flatten hperm key

end Project

section Order
variable (json : GenerationJson)

/-- The order of the entries of a catalog and of a page of files, and their split into batches,
do not matter to what is staged. -/
structure StagingOrderFree (json : GenerationJson) (catalog : Str) (number : Nat)
    (index normalized : Str) (generation : Nat) (source : Str) (upstream : Option Str) (disk : Disk)
    (projects : List (Str × Str)) (files : List File) : Prop where
  projects : ∃ rows, CatalogStaged catalog number projects disk.store.rows rows ∧
    ∀ batches : List (List (Str × Str)), batches.flatten.Perm projects →
      (stageAll (putCatalogProjects json catalog number) batches).run.run disk =
        (.ok (newNames catalog number disk.store.rows projects).card,
          { disk with store.rows := rows })
  files : FilesOrderFree json index normalized generation source upstream disk files

/-- The catalog never depends on the order; the files do not exactly when no two entries of one
filename differ. -/
theorem staging_order (catalog : Str) (number : Nat) (index normalized : Str) (generation : Nat)
    (source : Str) (upstream : Option Str) (disk : Disk) (hfault : disk.fault = .never)
    (hcatalog : (catalogSpace json catalog).Staging number disk.store.rows)
    (hproject : (projectSpace json index normalized).Staging generation disk.store.rows)
    (projects : List (Str × Str)) (files : List File) :
    StagingOrderFree json catalog number index normalized generation source upstream disk projects
        files ↔
      SameNameSameFile json index normalized generation disk.store.rows files := by
  have hfiles := files_order_free_iff json index normalized generation source upstream disk hfault
    hproject files
  constructor
  · exact fun h => hfiles.mp h.files
  · exact fun h => ⟨catalog_staged catalog number json (puts_put _ number _) disk hfault hcatalog
      projects, hfiles.mpr h⟩

end Order

namespace StagingSample

def json : GenerationJson := PageText.json.toGenerationJson

def rows : Rows :=
  (catalogSpace json (str "pypi")).storeState
    ((projectSpace json (str "pypi") (str "flask")).storeState ∅ ⟨none, some 1, none, 1⟩)
    ⟨none, some 1, none, 1⟩

def disk : Disk := { store := { rows := rows } }

theorem staging_of_row {A : Type} (space : GenerationSpace A) (hspace : space.Lawful) (rows : Rows)
    (state : Publication A) (generation : Nat) (hgeneration : state.staging = some generation)
    (hrow : rows[space.stateKey]? = some (space.encode state)) : space.Staging generation rows := by
  refine ⟨state, ?_, hgeneration⟩
  unfold GenerationSpace.state
  rw [hrow]
  dsimp only
  rw [hspace.decode_encode]

theorem catalog_staging : (catalogSpace json (str "pypi")).Staging 1 rows :=
  staging_of_row _ (catalogSpace_lawful _ PageText.json_faithful) rows ⟨none, some 1, none, 1⟩ 1 rfl
    ((Table.getElem?_put _ _ _ _).trans (if_pos rfl))

theorem project_staging : (projectSpace json (str "pypi") (str "flask")).Staging 1 rows := by
  refine staging_of_row _ (projectSpace_lawful _ _ PageText.json_faithful) rows
    ⟨none, some 1, none, 1⟩ 1 rfl ((Table.getElem?_put _ _ _ _).trans ?_)
  rw [if_neg (by decide)]
  exact (Table.getElem?_put _ _ _ _).trans (if_pos rfl)

def file (url : String) : File where
  filename := str "flask-1-py3-none-any.whl"
  url := str url
  hashes := Std.ExtTreeMap.ofList [(str "sha256", str "00")]

theorem unstaged : rows[projectFileKey (str "pypi") (str "flask") 1
    (str "flask-1-py3-none-any.whl")]? = none := by
  refine (Table.getElem?_put _ _ _ _).trans ?_
  rw [if_neg (by decide)]
  refine (Table.getElem?_put _ _ _ _).trans ?_
  rw [if_neg (by decide)]
  exact Std.ExtTreeMap.getElem?_empty

end StagingSample

open StagingSample in
/-- Two spellings of one project, and a file that is listed twice. -/
theorem twice_listed_staged :
    StagingOrderFree StagingSample.json (str "pypi") 1 (str "pypi") (str "flask") 1 (str "pypi") none
      disk [(str "flask", str "flask"), (str "flask", str "Flask")]
      [file "https://files.example/a.whl", file "https://files.example/a.whl"] := by
  refine (staging_order StagingSample.json (str "pypi") 1 (str "pypi") (str "flask") 1 (str "pypi")
    none disk rfl catalog_staging project_staging _ _).mpr ?_
  intro a ha b hb _ _
  simp only [List.mem_cons, List.not_mem_nil, or_false, or_self] at ha hb
  rw [ha, hb]

open StagingSample in
theorem catalog_document_spellings : ∃ rows, CatalogStaged (str "pypi") 1
    ([str "flask", str "Flask"].map fun name => (normalizeName .caseless name, name)) disk.store.rows
      rows := by
  obtain ⟨rows, hrows, _⟩ := catalog_document_staged (str "pypi") 1 StagingSample.json .caseless
    ⟨[], [], [], none, none, none, 0, 0⟩ disk rfl catalog_staging [str "flask", str "Flask"]
    (by decide) (by decide)
  exact ⟨rows, hrows⟩

open StagingSample in
/-- Of two files of one name that is staged which is listed first. -/
theorem duplicate_files_ordered : ¬ ∀ files : List File,
    StagingOrderFree StagingSample.json (str "pypi") 1 (str "pypi") (str "flask") 1 (str "pypi") none
      disk [] files := by
  intro hclaim
  have hfree := (hclaim [file "https://files.example/a.whl", file "https://files.example/b.whl"]).files
  have hsame := (files_order_free_iff StagingSample.json (str "pypi") (str "flask") 1 (str "pypi")
    none disk rfl project_staging _).mp hfree _ List.mem_cons_self _
    (List.mem_cons_of_mem _ List.mem_cons_self) rfl unstaged
  have hread := congrArg (fun raw => (StagingSample.json.readFile raw).map File.url) hsame
  have hjson : StagingSample.json.Faithful := PageText.json_faithful
  rw [hjson.file, hjson.file] at hread
  exact absurd hread (by decide)

end Peryx.Pypi
