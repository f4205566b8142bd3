import Mathlib
import Peryx.Events.UsageTotals

/-! # What restarting and expiring do to usage -/

namespace Peryx.Events

def indexUsage (tree : StatsTree) (route : Str) : Usage := (Table.lookup tree route).totals.usage

def projectUsage (tree : StatsTree) (route project : Str) : Usage :=
  ((Table.lookup tree route).projects.lookup project).totals.usage

def fileUsage (tree : StatsTree) (route project filename : Str) : Option Usage :=
  ((Table.lookup tree route).projects.lookup project).files[filename]?.map FileStats.usage

structure SameUsage (tree restored : StatsTree) : Prop where
  indexes : ∀ route, indexUsage restored route = indexUsage tree route
  projects : ∀ route project, projectUsage restored route project = projectUsage tree route project
  files : ∀ route project filename,
    fileUsage restored route project filename = fileUsage tree route project filename

def rowsUsage (P : FileDownloadRow → Prop) [DecidablePred P] (rows : List FileDownloadRow) : Usage :=
  (rows.map fun row => if P row then row.usage else 0).sum

def FileDownloadRow.tick (row : FileDownloadRow) : Tick where
  project := row.project
  totals totals := { totals with
    base.downloads := totals.base.downloads + row.downloads
    base.bytes := totals.base.bytes + row.bytes }
  files files := files.entry row.filename fun file =>
    { file with downloads := file.downloads + row.downloads, bytes := file.bytes + row.bytes }

theorem restoreRow_eq_tick (tree : StatsTree) (row : FileDownloadRow) :
    restoreRow tree row = Table.entry tree row.route fun index => index.tick row.tick := rfl

def FileDownloadRow.OfProject (route project : Str) (row : FileDownloadRow) : Prop :=
  row.route = route ∧ row.project = project

def FileDownloadRow.OfFile (route project filename : Str) (row : FileDownloadRow) : Prop :=
  row.OfProject route project ∧ row.filename = filename

instance (route project : Str) : DecidablePred (FileDownloadRow.OfProject route project) :=
  fun row => inferInstanceAs (Decidable (row.route = route ∧ row.project = project))

instance (route project filename : Str) :
    DecidablePred (FileDownloadRow.OfFile route project filename) :=
  fun row => inferInstanceAs (Decidable (row.OfProject route project ∧ row.filename = filename))

theorem indexUsage_restoreRow (tree : StatsTree) (row : FileDownloadRow) (route : Str) :
    indexUsage (restoreRow tree row) route =
      indexUsage tree route + if row.route = route then row.usage else 0 := by
  unfold indexUsage
  rw [restoreRow_eq_tick, Table.lookup_entry]
  split
  · rename_i heq
    rw [heq]
    rfl
  · rw [add_zero]

theorem project_restoreRow (tree : StatsTree) (row : FileDownloadRow) (route project : Str) :
    (Table.lookup (restoreRow tree row) route).projects.lookup project =
      if row.OfProject route project then
        let stats := (Table.lookup tree route).projects.lookup project
        { totals := row.tick.totals stats.totals, files := row.tick.files stats.files }
      else (Table.lookup tree route).projects.lookup project := by
  rw [restoreRow_eq_tick, Table.lookup_entry]
  by_cases hroute : row.route = route
  · rw [if_pos hroute, hroute]
    unfold IndexStats.tick
    dsimp only
    rw [Table.lookup_entry]
    by_cases hproject : row.tick.project = project
    · rw [if_pos hproject, if_pos ⟨hroute, hproject⟩, hproject]
    · rw [if_neg hproject, if_neg fun h => hproject h.2]
  · rw [if_neg hroute, if_neg fun h => hroute h.1]

theorem projectUsage_restoreRow (tree : StatsTree) (row : FileDownloadRow) (route project : Str) :
    projectUsage (restoreRow tree row) route project =
      projectUsage tree route project + if row.OfProject route project then row.usage else 0 := by
  unfold projectUsage
  rw [project_restoreRow]
  split
  · rfl
  · rw [add_zero]

theorem fileUsage_restoreRow (tree : StatsTree) (row : FileDownloadRow)
    (route project filename : Str) :
    fileUsage (restoreRow tree row) route project filename =
      if row.OfFile route project filename then
        some ((fileUsage tree route project filename).getD 0 + row.usage)
      else fileUsage tree route project filename := by
  unfold fileUsage
  rw [project_restoreRow]
  by_cases hproject : row.OfProject route project
  · rw [if_pos hproject]
    dsimp only [FileDownloadRow.tick]
    rw [Table.getElem?_entry]
    by_cases hfile : row.filename = filename
    · rw [if_pos hfile, if_pos ⟨hproject, hfile⟩, hfile]
      generalize ((Table.lookup tree route).projects.lookup project).files = files
      unfold Table.lookup
      cases files[filename]? with
      | none => rfl
      | some file => rfl
    · rw [if_neg hfile, if_neg fun h => hfile h.2]
  · rw [if_neg hproject, if_neg fun h => hproject h.1]

section Restoring
variable (rows : List FileDownloadRow) (route project filename : Str)

theorem restore_usage (read : StatsTree → Usage) (P : FileDownloadRow → Prop) [DecidablePred P]
    (h : ∀ tree row, read (restoreRow tree row) = read tree + if P row then row.usage else 0)
    (tree : StatsTree) : read (restoreDownloads tree rows) = read tree + rowsUsage P rows := by
  unfold restoreDownloads rowsUsage
  induction rows generalizing tree with
  | nil => exact (add_zero _).symm
  | cons row rest ih => rw [List.foldl_cons, ih, h, List.map_cons, List.sum_cons, add_assoc]

theorem restore_isSome (tree : StatsTree) :
    (fileUsage (restoreDownloads tree rows) route project filename).isSome ↔
      (fileUsage tree route project filename).isSome ∨
        ∃ row ∈ rows, row.OfFile route project filename := by
  unfold restoreDownloads
  induction rows generalizing tree with
  | nil => simp
  | cons row rest ih =>
    rw [List.foldl_cons, ih, fileUsage_restoreRow, List.exists_mem_cons_iff]
    split
    · rename_i h
      simp [h]
    · rename_i h
      simp [h]

theorem indexUsage_restored :
    indexUsage (restoreDownloads ∅ rows) route = rowsUsage (·.route = route) rows := by
  rw [restore_usage rows (indexUsage · route) _ (fun tree row => indexUsage_restoreRow tree row route)]
  unfold indexUsage
  rw [Table.lookup_empty]
  exact zero_add _

theorem projectUsage_restored :
    projectUsage (restoreDownloads ∅ rows) route project =
      rowsUsage (FileDownloadRow.OfProject route project) rows := by
  rw [restore_usage rows (projectUsage · route project) _
    (fun tree row => projectUsage_restoreRow tree row route project)]
  unfold projectUsage
  rw [Table.lookup_empty]
  exact zero_add _

theorem fileUsage_empty : fileUsage ∅ route project filename = none := by
  unfold fileUsage
  rw [Table.lookup_empty]
  rfl

theorem fileUsage_restored :
    (fileUsage (restoreDownloads ∅ rows) route project filename).getD 0 =
      rowsUsage (FileDownloadRow.OfFile route project filename) rows := by
  rw [restore_usage rows (fun tree => (fileUsage tree route project filename).getD 0)
    (FileDownloadRow.OfFile route project filename)]
  · rw [fileUsage_empty]
    exact zero_add _
  · intro tree row
    rw [fileUsage_restoreRow]
    split
    · rfl
    · rw [add_zero]

end Restoring

theorem rowsUsage_snapshot (P : FileDownloadRow → Prop) [DecidablePred P] (tree : StatsTree) :
    rowsUsage P (snapshotDownloads tree) =
      Table.sum (fun route (index : IndexStats) => Table.sum (fun project (stats : ProjectStats) =>
        Table.sum (fun filename (file : FileStats) =>
          if P ⟨route, project, filename, file.downloads, file.bytes⟩ then file.usage else 0)
          stats.files) index.projects) tree := by
  unfold rowsUsage snapshotDownloads
  rw [Table.sum_flatMap _ fun route (index : IndexStats) =>
    index.projects.toList.flatMap fun stats => stats.2.files.toList.map fun file =>
      (⟨route, stats.1, file.1, file.2.downloads, file.2.bytes⟩ : FileDownloadRow)]
  refine Table.sum_congr _ _ tree fun route index _ => ?_
  rw [Table.sum_flatMap _ fun project (stats : ProjectStats) => stats.files.toList.map fun file =>
    (⟨route, project, file.1, file.2.downloads, file.2.bytes⟩ : FileDownloadRow)]
  refine Table.sum_congr _ _ index.projects fun project stats _ => ?_
  rw [List.map_map]
  rfl

theorem rowsUsage_perm (P : FileDownloadRow → Prop) [DecidablePred P]
    {rows others : List FileDownloadRow} (h : rows.Perm others) :
    rowsUsage P rows = rowsUsage P others := (h.map _).sum_eq

theorem ProjectStats.Consistent.of_lookup {index : IndexStats} (h : index.Consistent) (project : Str) :
    (index.projects.lookup project).Consistent :=
  Table.lookup_of_rows Consistent index.projects project h.projects consistent_default

theorem IndexStats.Consistent.of_lookup {tree : StatsTree} (h : tree.Consistent) (route : Str) :
    (Table.lookup tree route).Consistent :=
  Table.lookup_of_rows Consistent tree route h consistent_default

theorem IndexStats.Consistent.usage {index : IndexStats} (h : index.Consistent) :
    index.totals.usage = Table.sum (fun _ stats => stats.totals.usage) index.projects := by
  apply Prod.ext
  · exact (h.totals .downloads).trans
      (Table.sum_fst (fun _ (stats : ProjectStats) => stats.totals.usage) index.projects).symm
  · exact (h.totals .bytes).trans
      (Table.sum_snd (fun _ (stats : ProjectStats) => stats.totals.usage) index.projects).symm

theorem IndexStats.Consistent.usage_files {index : IndexStats} (h : index.Consistent) :
    index.totals.usage = Table.sum (fun _ stats => filesUsage stats.files) index.projects := by
  rw [h.usage]
  exact Table.sum_congr _ _ index.projects fun project stats hrow => h.projects project stats hrow

theorem sum_usage_ite {V : Type} (p : Prop) [Decidable p] (weight : Str → V → Usage)
    (table : Table Str V) : Table.sum (fun k v => if p then weight k v else 0) table =
      if p then Table.sum weight table else 0 := Table.sum_ite p weight table

theorem sum_usage_row {V : Type} [Inhabited V] (weight : V → Usage) (table : Table Str V) (k : Str)
    (hdefault : weight default = 0) :
    Table.sum (fun l v => if l = k then weight v else 0) table = weight (table.lookup k) :=
  Table.sum_row weight table k hdefault

section Snapshots
variable {tree : StatsTree} (route project filename : Str)

theorem indexUsage_snapshot (h : tree.Consistent) :
    rowsUsage (·.route = route) (snapshotDownloads tree) = indexUsage tree route := by
  rw [rowsUsage_snapshot]
  change Table.sum (fun other (index : IndexStats) => Table.sum (fun _ (stats : ProjectStats) =>
    Table.sum (fun _ (file : FileStats) => if other = route then file.usage else 0) stats.files)
    index.projects) tree = _
  simp only [sum_usage_ite]
  rw [sum_usage_row (fun index : IndexStats => Table.sum (fun _ (stats : ProjectStats) =>
    Table.sum (fun _ => FileStats.usage) stats.files) index.projects) tree route (Table.sum_empty _)]
  exact (IndexStats.Consistent.of_lookup h route).usage_files.symm

theorem filesUsage_snapshot (P : Str → Prop) [DecidablePred P] (tree : StatsTree) :
    rowsUsage (fun row => row.OfProject route project ∧ P row.filename) (snapshotDownloads tree) =
      Table.sum (fun filename (file : FileStats) => if P filename then file.usage else 0)
        ((Table.lookup tree route).projects.lookup project).files := by
  rw [rowsUsage_snapshot]
  simp only [FileDownloadRow.OfProject, and_assoc, ite_and, sum_usage_ite]
  rw [sum_usage_row (fun index : IndexStats => Table.sum (fun other (stats : ProjectStats) =>
      if other = project then Table.sum (fun filename (file : FileStats) =>
        if P filename then file.usage else 0) stats.files else 0) index.projects)
    tree route (Table.sum_empty _)]
  rw [sum_usage_row (fun stats : ProjectStats => Table.sum (fun filename (file : FileStats) =>
      if P filename then file.usage else 0) stats.files)
    _ project (Table.sum_empty _)]

theorem projectUsage_snapshot (h : tree.Consistent) :
    rowsUsage (FileDownloadRow.OfProject route project) (snapshotDownloads tree) =
      projectUsage tree route project := by
  have hfiles := filesUsage_snapshot route project (fun _ => True) tree
  simp only [and_true, if_true] at hfiles
  exact hfiles.trans
    (ProjectStats.Consistent.of_lookup (IndexStats.Consistent.of_lookup h route) project).symm

theorem fileUsage_snapshot (tree : StatsTree) :
    rowsUsage (FileDownloadRow.OfFile route project filename) (snapshotDownloads tree) =
      (fileUsage tree route project filename).getD 0 := by
  refine (filesUsage_snapshot route project (· = filename) tree).trans ?_
  rw [sum_usage_row FileStats.usage _ filename rfl]
  unfold fileUsage
  generalize ((Table.lookup tree route).projects.lookup project).files = files
  unfold Table.lookup
  cases files[filename]? with
  | none => rfl
  | some file => rfl

theorem snapshot_isSome (tree : StatsTree) :
    (∃ row ∈ snapshotDownloads tree, row.OfFile route project filename) ↔
      (fileUsage tree route project filename).isSome := by
  unfold snapshotDownloads fileUsage
  rw [Option.isSome_map]
  constructor
  · intro h
    obtain ⟨row, hmem, ⟨hroute, hproject⟩, hfilename⟩ := h
    obtain ⟨index, hindex, hmem⟩ := List.mem_flatMap.mp hmem
    obtain ⟨stats, hstats, hmem⟩ := List.mem_flatMap.mp hmem
    obtain ⟨file, hfile, hrow⟩ := List.mem_map.mp hmem
    subst hrow
    subst hroute
    subst hproject
    subst hfilename
    rw [Table.lookup_of_mem hindex, Table.lookup_of_mem hstats,
      Std.ExtTreeMap.mem_toList_iff_getElem?_eq_some.mp hfile]
    rfl
  · intro h
    obtain ⟨file, hfile⟩ := Option.isSome_iff_exists.mp h
    have hnone : ¬ (default : ProjectStats).files[filename]?.isSome := by
      change ¬ (∅ : Table Str FileStats)[filename]?.isSome
      simp
    have hproject := Table.row_of_lookup (fun stats : ProjectStats => stats.files[filename]?.isSome)
      _ project hnone h
    have hindex := Table.row_of_lookup
      (fun index : IndexStats => (index.projects.lookup project).files[filename]?.isSome) tree route
      (by
        change ¬ ((∅ : Table Str ProjectStats).lookup project).files[filename]?.isSome
        rw [Table.lookup_empty]
        exact hnone) h
    refine ⟨⟨route, project, filename, file.downloads, file.bytes⟩, ?_, ⟨rfl, rfl⟩, rfl⟩
    exact List.mem_flatMap.mpr ⟨_, hindex, List.mem_flatMap.mpr ⟨_, hproject, List.mem_map.mpr
      ⟨(filename, file), Std.ExtTreeMap.mem_toList_iff_getElem?_eq_some.mpr hfile, rfl⟩⟩⟩

end Snapshots

theorem option_eq_of_getD {old new : Option Usage} (hsome : new.isSome ↔ old.isSome)
    (hget : new.getD 0 = old.getD 0) : new = old := by
  cases old with
  | none =>
    cases new with
    | none => rfl
    | some usage => exact absurd (hsome.mp rfl) (by simp)
  | some old =>
    cases new with
    | none => exact absurd (hsome.mpr rfl) (by simp)
    | some usage => exact congrArg some hget

/-- Whatever order the rows of a snapshot are written in, restoring them into nothing gives
the usage that was there. -/
theorem restored_sameUsage {tree : StatsTree} (h : tree.Consistent) {rows : List FileDownloadRow}
    (hrows : rows.Perm (snapshotDownloads tree)) : SameUsage tree (restoreDownloads ∅ rows) where
  indexes route := by
    rw [indexUsage_restored, rowsUsage_perm _ hrows, indexUsage_snapshot route h]
  projects route project := by
    rw [projectUsage_restored, rowsUsage_perm _ hrows, projectUsage_snapshot route project h]
  files route project filename := by
    apply option_eq_of_getD
    · rw [restore_isSome, fileUsage_empty, ← snapshot_isSome]
      simp [hrows.mem_iff]
    · rw [fileUsage_restored, rowsUsage_perm _ hrows, fileUsage_snapshot]

end Peryx.Events

/-!
## The daily buckets

A download is counted once in the tree and once in a bucket of its day, by different code.
Until buckets expire, what is asked of repositories and projects has one answer in both;
expiring drops whole days before the window and nothing else.
-/

namespace Peryx.Events

abbrev Asked := Str → Str → Prop

section Asking
variable (P : Asked) [∀ repository project, Decidable (P repository project)]

def treeUsage (tree : StatsTree) : Usage :=
  Table.sum (fun route (index : IndexStats) => Table.sum (fun project (stats : ProjectStats) =>
    if P route project then stats.totals.usage else 0) index.projects) tree

def dailyUsage (daily : DailyBuckets) : Usage :=
  Table.sum (fun key (totals : DailyTotals) =>
    if P key.repository key.project then totals.usage else 0) daily

def downloadUsage (download : DailyKey × UInt64) : Usage :=
  if P download.1.repository download.1.project then (1, download.2) else 0

theorem dailyUsage_addDaily (daily : DailyBuckets) (download : DailyKey × UInt64) :
    dailyUsage P (addDaily daily download) = dailyUsage P daily + downloadUsage P download := by
  unfold dailyUsage addDaily downloadUsage
  apply Table.sum_entry
  · exact ite_self 0
  · split
    · rfl
    · exact (add_zero _).symm

theorem treeUsage_tick (tree : StatsTree) (route : Str) (tick : Tick) (amount : Counter → UInt64)
    (hcounts : tick.Counts amount) :
    treeUsage P (Table.entry tree route fun index => index.tick tick) = treeUsage P tree +
      if P route tick.project then (amount .downloads, amount .bytes) else 0 := by
  unfold treeUsage
  apply Table.sum_entry
  · exact Table.sum_empty _
  · refine Table.sum_entry (fun project (stats : ProjectStats) =>
      if P route project then stats.totals.usage else 0) _ tick.project _ _ (ite_self 0) ?_
    split
    · exact hcounts.usage _
    · exact (add_zero _).symm

theorem treeUsage_totals (tree : StatsTree) (route : Str) (totals : Counters → Counters) :
    treeUsage P (Table.entry tree route fun index => { index with totals := totals index.totals }) =
      treeUsage P tree := by
  unfold treeUsage
  refine (Table.sum_entry _ tree route _ 0 (Table.sum_empty _) ?_).trans (add_zero _)
  exact (add_zero _).symm

theorem treeUsage_apply (tree : StatsTree) (event : Event) (now : Int) :
    treeUsage P (apply tree event) =
      treeUsage P tree + (collectDaily now event).elim 0 (downloadUsage P) := by
  cases hproject : event.project with
  | none =>
    rw [apply_eq_sync tree event hproject, treeUsage_totals]
    cases event with
    | catalogSync => exact (add_zero _).symm
    | _ => cases hproject
  | some project =>
    rw [apply_eq_tick tree event project hproject,
      treeUsage_tick P tree _ _ _ (event.tick_counts project)]
    cases event with
    | download =>
      cases hproject
      rfl
    | catalogSync => cases hproject
    | _ => exact congrArg (treeUsage P tree + ·) (ite_self 0)

theorem treeUsage_foldl (tree : StatsTree) (events : List (Event × Int)) :
    treeUsage P (events.foldl (fun tree event => apply tree event.1) tree) = treeUsage P tree +
      ((events.filterMap fun event => collectDaily event.2 event.1).map (downloadUsage P)).sum := by
  induction events generalizing tree with
  | nil => exact (add_zero _).symm
  | cons event rest ih =>
    rw [List.foldl_cons, ih, treeUsage_apply P tree event.1 event.2, add_assoc, List.filterMap_cons]
    cases collectDaily event.2 event.1 with
    | none => exact congrArg (treeUsage P tree + ·) (zero_add _)
    | some download => rfl

theorem dailyUsage_foldl (daily : DailyBuckets) (downloads : List (DailyKey × UInt64)) :
    dailyUsage P (downloads.foldl addDaily daily) =
      dailyUsage P daily + (downloads.map (downloadUsage P)).sum := by
  induction downloads generalizing daily with
  | nil => exact (add_zero _).symm
  | cons download rest ih =>
    rw [List.foldl_cons, ih, dailyUsage_addDaily, List.map_cons, List.sum_cons, add_assoc]

theorem step_daily (state : Aggregate) (batch : Batch) :
    (state.step none batch).daily =
      (batch.events.filterMap fun event => collectDaily event.2 event.1).foldl addDaily state.daily := by
  unfold Aggregate.step
  cases batch.events.filterMap fun event => collectDaily event.2 event.1 with
  | nil => rfl
  | cons download rest => rfl

theorem step_usage (state : Aggregate) (batch : Batch)
    (h : dailyUsage P state.daily = treeUsage P state.tree) :
    dailyUsage P (state.step none batch).daily = treeUsage P (state.step none batch).tree := by
  rw [step_daily, dailyUsage_foldl, h]
  exact (treeUsage_foldl P state.tree batch.events).symm

theorem run_usage (batches : List Batch) :
    dailyUsage P (Aggregate.run none batches).daily = treeUsage P (Aggregate.run none batches).tree := by
  unfold Aggregate.run
  have hempty : dailyUsage P ({} : Aggregate).daily = treeUsage P ({} : Aggregate).tree :=
    (Table.sum_empty _).trans (Table.sum_empty _).symm
  generalize ({} : Aggregate) = state at *
  induction batches generalizing state with
  | nil => exact hempty
  | cons batch rest ih => exact ih _ (step_usage P state batch hempty)

end Asking

theorem run_consistent (retentionDays : Option Nat) (batches : List Batch) :
    StatsTree.Consistent (Aggregate.run retentionDays batches).tree := by
  unfold Aggregate.run
  have hempty : StatsTree.Consistent ({} : Aggregate).tree := StatsTree.consistent_empty
  generalize ({} : Aggregate) = state at *
  induction batches generalizing state with
  | nil => exact hempty
  | cons batch rest ih =>
    apply ih
    have hfold := hempty.foldl_apply (batch.events.map Prod.fst)
    rw [List.foldl_map] at hfold
    exact hfold

theorem labels_isLE (key : DailyKey) : (compare ([[], [], [], []] : List Str) key.labels).isLE := by
  have hnil : ∀ (text : Str) (rest others : List Str), (compare rest others).isLE →
      (compare (([] : Str) :: rest) (text :: others)).isLE := by
    intro text rest others h
    rw [List.compare_cons_cons]
    cases text with
    | nil => exact h
    | cons c text => rfl
  exact hnil _ _ _ (hnil _ _ _ (hnil _ _ _ (hnil _ _ _ rfl)))

theorem floor_isLE (day : Int) (key : DailyKey) :
    (compare (⟨day, [], [], [], []⟩ : DailyKey) key).isLE = decide (day ≤ key.day) := by
  change ((compare day key.day).then (compare ([[], [], [], []] : List Str) key.labels)).isLE = _
  rcases lt_trichotomy day key.day with h | h | h
  · rw [Int.compare_eq_lt.mpr h]
    exact (decide_eq_true h.le).symm
  · rw [Int.compare_eq_eq.mpr h]
    exact (labels_isLE key).trans (decide_eq_true h.le).symm
  · rw [Int.compare_eq_gt.mpr h]
    exact (decide_eq_false (not_le.mpr h)).symm

theorem getElem?_expireDaily (daily : DailyBuckets) (now : Int) (retentionDays : Nat) (key : DailyKey) :
    (expireDaily daily now retentionDays)[key]? =
      if utcDay now - retentionDays ≤ key.day then daily[key]? else none := by
  unfold expireDaily
  rw [Std.ExtTreeMap.getElem?_filter']
  simp only [floor_isLE]
  cases daily[key]? with
  | none => simp
  | some totals => simp [Option.filter]

theorem foldl_addDaily_congr (downloads : List (DailyKey × UInt64)) (daily other : DailyBuckets)
    (key : DailyKey) (h : daily[key]? = other[key]?) :
    (downloads.foldl addDaily daily)[key]? = (downloads.foldl addDaily other)[key]? := by
  induction downloads generalizing daily other with
  | nil => exact h
  | cons download rest ih =>
    apply ih
    unfold addDaily
    rw [Table.getElem?_entry, Table.getElem?_entry]
    split
    · rename_i heq
      unfold Table.lookup
      rw [heq, h]
    · exact h

theorem step_kept (retentionDays : Nat) (state other : Aggregate) (batch : Batch) (key : DailyKey)
    (hwindow : utcDay batch.expiresAt - retentionDays ≤ key.day)
    (h : state.daily[key]? = other.daily[key]?) :
    (state.step (some retentionDays) batch).daily[key]? = (other.step none batch).daily[key]? := by
  rw [step_daily, ← foldl_addDaily_congr _ _ _ key h]
  unfold Aggregate.step
  dsimp only
  split
  · rename_i hempty
    rw [List.isEmpty_iff.mp hempty]
    rfl
  · rw [getElem?_expireDaily, if_pos hwindow]

theorem foldl_step_kept (retentionDays : Nat) (batches : List Batch) (state other : Aggregate)
    (key : DailyKey)
    (hwindow : ∀ batch ∈ batches, utcDay batch.expiresAt - retentionDays ≤ key.day)
    (h : state.daily[key]? = other.daily[key]?) :
    (batches.foldl (Aggregate.step (some retentionDays)) state).daily[key]? =
      (batches.foldl (Aggregate.step none) other).daily[key]? := by
  induction batches generalizing state other with
  | nil => exact h
  | cons batch rest ih =>
    rw [List.forall_mem_cons] at hwindow
    exact ih _ _ hwindow.2 (step_kept retentionDays state other batch key hwindow.1 h)

theorem run_kept (retentionDays : Nat) (batches : List Batch) (key : DailyKey)
    (hwindow : ∀ batch ∈ batches, utcDay batch.expiresAt - retentionDays ≤ key.day) :
    (Aggregate.run (some retentionDays) batches).daily[key]? =
      (Aggregate.run none batches).daily[key]? :=
  foldl_step_kept retentionDays batches {} {} key hwindow rfl

theorem allTime_usage {tree : StatsTree} (h : tree.Consistent) :
    treeUsage (fun _ _ => True) tree = Table.sum (fun _ index => index.totals.usage) tree := by
  unfold treeUsage
  apply Table.sum_congr
  intro route index hrow
  rw [(h route index hrow).usage]
  simp only [if_true]

/-- What the usage tree and the daily buckets promise of every run. -/
structure UsageKept (retentionDays : Option Nat) (batches : List Batch) : Prop where
  consistent : StatsTree.Consistent (Aggregate.run retentionDays batches).tree
  restored : ∀ rows : List FileDownloadRow,
    rows.Perm (snapshotDownloads (Aggregate.run retentionDays batches).tree) →
      SameUsage (Aggregate.run retentionDays batches).tree (restoreDownloads ∅ rows)
  allTime : Table.sum (fun _ totals => totals.usage) (Aggregate.run none batches).daily =
    Table.sum (fun _ index => index.totals.usage) (Aggregate.run none batches).tree
  asked : ∀ (P : Asked) [∀ repository project, Decidable (P repository project)],
    dailyUsage P (Aggregate.run none batches).daily = treeUsage P (Aggregate.run none batches).tree
  expired : ∀ (daily : DailyBuckets) (now : Int) (days : Nat) (key : DailyKey),
    utcDay now - days ≤ key.day → (expireDaily daily now days)[key]? = daily[key]?
  window : ∀ (days : Nat) (key : DailyKey),
    (∀ batch ∈ batches, utcDay batch.expiresAt - days ≤ key.day) →
      (Aggregate.run (some days) batches).daily[key]? = (Aggregate.run none batches).daily[key]?

theorem usage_kept (retentionDays : Option Nat) (batches : List Batch) :
    UsageKept retentionDays batches where
  consistent := run_consistent retentionDays batches
  restored rows hrows := restored_sameUsage (run_consistent retentionDays batches) hrows
  allTime := by
    rw [← allTime_usage (run_consistent none batches), ← run_usage (fun _ _ => True) batches]
    unfold dailyUsage
    simp only [if_true]
  asked P := run_usage P batches
  expired daily now days key hwindow := by
    rw [getElem?_expireDaily, if_pos hwindow]
  window days key hwindow := run_kept days batches key hwindow

end Peryx.Events
