import Mathlib
import Peryx.Events.Metrics

/-! # Usage totals add up -/

namespace Peryx.Events

inductive Counter where
  | pages
  | downloads
  | bytes
  | rejected
  | refreshes
  | changed
  | staleServed
  | upstreamErrors
  | uploads
  | family (name : Str)
  deriving DecidableEq

def Counters.read (totals : Counters) : Counter → UInt64
  | .pages => totals.base.pages
  | .downloads => totals.base.downloads
  | .bytes => totals.base.bytes
  | .rejected => totals.base.rejected
  | .refreshes => totals.cached.refreshes
  | .changed => totals.cached.changed
  | .staleServed => totals.cached.staleServed
  | .upstreamErrors => totals.cached.upstreamErrors
  | .uploads => totals.hosted.uploads
  | .family name => totals.ecosystem.lookup name

abbrev Usage := UInt64 × UInt64

def Counters.usage (totals : Counters) : Usage := (totals.base.downloads, totals.base.bytes)

def FileStats.usage (file : FileStats) : Usage := (file.downloads, file.bytes)

def DailyTotals.usage (totals : DailyTotals) : Usage := (totals.downloads, totals.bytes)

def FileDownloadRow.usage (row : FileDownloadRow) : Usage := (row.downloads, row.bytes)

def filesUsage (files : Table Str FileStats) : Usage := Table.sum (fun _ file => file.usage) files

/-- What an observation does below its index: the same to the totals of the index and of
one project, and something to the files of that project. -/
structure Tick where
  project : Str
  totals : Counters → Counters
  files : Table Str FileStats → Table Str FileStats

def IndexStats.tick (index : IndexStats) (tick : Tick) : IndexStats where
  totals := tick.totals index.totals
  projects := index.projects.entry tick.project fun stats =>
    { totals := tick.totals stats.totals, files := tick.files stats.files }

structure Tick.Counts (tick : Tick) (amount : Counter → UInt64) : Prop where
  totals : ∀ totals counter, (tick.totals totals).read counter = totals.read counter + amount counter
  files : ∀ files, filesUsage (tick.files files) =
    filesUsage files + (amount .downloads, amount .bytes)

def ProjectStats.Consistent (stats : ProjectStats) : Prop := stats.totals.usage = filesUsage stats.files

structure IndexStats.Consistent (index : IndexStats) : Prop where
  totals : ∀ counter, index.totals.read counter =
    Table.sum (fun _ stats => stats.totals.read counter) index.projects
  projects : ∀ (project : Str) (stats : ProjectStats), index.projects[project]? = some stats →
    stats.Consistent

def StatsTree.Consistent (tree : StatsTree) : Prop :=
  ∀ (route : Str) (index : IndexStats), tree[route]? = some index → index.Consistent

theorem Counters.read_default (counter : Counter) : ({} : Counters).read counter = 0 := by
  cases counter with
  | family name => exact Table.lookup_empty name
  | _ => rfl

theorem filesUsage_empty : filesUsage ∅ = 0 := Table.sum_empty _

theorem ProjectStats.consistent_default : (default : ProjectStats).Consistent := filesUsage_empty.symm

theorem IndexStats.consistent_default : (default : IndexStats).Consistent where
  totals counter := (Counters.read_default counter).trans (Table.sum_empty _).symm
  projects project stats h := by
    have hnone : (∅ : Table Str ProjectStats)[project]? = none := Std.ExtTreeMap.getElem?_empty
    exact absurd (hnone.symm.trans h) (by simp)

theorem StatsTree.consistent_empty : StatsTree.Consistent ∅ := by
  intro route index h
  rw [Std.ExtTreeMap.getElem?_empty] at h
  cases h

theorem Counters.usage_eq (totals : Counters) :
    totals.usage = (totals.read .downloads, totals.read .bytes) := rfl

theorem Tick.Counts.usage {tick : Tick} {amount : Counter → UInt64} (h : tick.Counts amount)
    (totals : Counters) :
    (tick.totals totals).usage = totals.usage + (amount .downloads, amount .bytes) := by
  rw [Counters.usage_eq, h.totals, h.totals]
  rfl

theorem ProjectStats.Consistent.tick {stats : ProjectStats} (h : stats.Consistent) {tick : Tick}
    {amount : Counter → UInt64} (hcounts : tick.Counts amount) :
    ProjectStats.Consistent { totals := tick.totals stats.totals, files := tick.files stats.files } := by
  unfold ProjectStats.Consistent
  rw [hcounts.usage, hcounts.files, h]

theorem IndexStats.Consistent.tick {index : IndexStats} (h : index.Consistent) {tick : Tick}
    {amount : Counter → UInt64} (hcounts : tick.Counts amount) : (index.tick tick).Consistent where
  totals counter := by
    have hsum := Table.sum_entry (fun _ (stats : ProjectStats) => stats.totals.read counter)
      index.projects tick.project
      (fun stats => { totals := tick.totals stats.totals, files := tick.files stats.files })
      (amount counter) (Counters.read_default counter) (hcounts.totals _ counter)
    exact (hcounts.totals _ counter).trans ((congrArg (· + amount counter) (h.totals counter)).trans
      hsum.symm)
  projects := by
    have hproject := Table.lookup_of_rows ProjectStats.Consistent index.projects tick.project h.projects
      ProjectStats.consistent_default
    exact Table.rows_of_entry ProjectStats.Consistent index.projects tick.project _ h.projects
      (hproject.tick hcounts)

theorem StatsTree.Consistent.entry {tree : StatsTree} (h : tree.Consistent) (route : Str)
    (change : IndexStats → IndexStats) (hchange : ∀ index : IndexStats, index.Consistent →
      (change index).Consistent) : StatsTree.Consistent (Table.entry tree route change) := by
  have hindex := Table.lookup_of_rows IndexStats.Consistent tree route h IndexStats.consistent_default
  exact Table.rows_of_entry IndexStats.Consistent tree route change h (hchange _ hindex)

def CachedCounters.countSync (cached : CachedCounters) (outcome : CatalogSyncOutcome)
    (projects : Option UInt64) : CachedCounters :=
  let cached := { cached with
    catalogSyncs := cached.catalogSyncs + 1
    catalogProjects := projects.getD cached.catalogProjects }
  match outcome with
  | .published => { cached with catalogPublished := cached.catalogPublished + 1 }
  | .notModified => { cached with catalogNotModified := cached.catalogNotModified + 1 }
  | .error => { cached with catalogErrors := cached.catalogErrors + 1 }

def Event.totals : Event → Counters → Counters
  | .page _ _, totals => { totals with base.pages := totals.base.pages + 1 }
  | .download _ _ _ _ _ bytes, totals => { totals with
      base.downloads := totals.base.downloads + 1
      base.bytes := totals.base.bytes + bytes }
  | .ecosystem _ _ _ family, totals => { totals with ecosystem := totals.ecosystem.count family }
  | .upload _ _, totals => { totals with hosted.uploads := totals.hosted.uploads + 1 }
  | .refresh _ _ changed, totals => { totals with
      cached.refreshes := totals.cached.refreshes + 1
      cached.changed := totals.cached.changed + if changed then 1 else 0 }
  | .staleServed _ _, totals => { totals with cached.staleServed := totals.cached.staleServed + 1 }
  | .upstreamError _ _, totals =>
    { totals with cached.upstreamErrors := totals.cached.upstreamErrors + 1 }
  | .blobRejected _ _, totals => { totals with base.rejected := totals.base.rejected + 1 }
  | .catalogSync _ outcome projects, totals =>
    { totals with cached := totals.cached.countSync outcome projects }

def Event.files : Event → Table Str FileStats → Table Str FileStats
  | .download _ _ filename _ _ bytes, files => files.entry filename fun file =>
      { file with downloads := file.downloads + 1, bytes := file.bytes + bytes }
  | .ecosystem _ _ (some filename) family, files => files.entry filename fun file =>
      { file with ecosystem := file.ecosystem.count family }
  | _, files => files

def Event.route : Event → Str
  | .page route _ | .download route _ _ _ _ _ | .ecosystem route _ _ _ | .upload route _
  | .refresh route _ _ | .staleServed route _ | .upstreamError route _ | .blobRejected route _
  | .catalogSync route _ _ => route

def Event.project : Event → Option Str
  | .page _ project | .download _ project _ _ _ _ | .ecosystem _ project _ _ | .upload _ project
  | .refresh _ project _ | .staleServed _ project | .upstreamError _ project
  | .blobRejected _ project => some project
  | .catalogSync _ _ _ => none

def Event.amount : Event → Counter → UInt64
  | .page _ _, .pages => 1
  | .download _ _ _ _ _ _, .downloads => 1
  | .download _ _ _ _ _ bytes, .bytes => bytes
  | .ecosystem _ _ _ family, .family name => if family = name then 1 else 0
  | .upload _ _, .uploads => 1
  | .refresh _ _ _, .refreshes => 1
  | .refresh _ _ changed, .changed => if changed then 1 else 0
  | .staleServed _ _, .staleServed => 1
  | .upstreamError _ _, .upstreamErrors => 1
  | .blobRejected _ _, .rejected => 1
  | _, _ => 0

def Event.tick (event : Event) (project : Str) : Tick := ⟨project, event.totals, event.files⟩

theorem apply_eq_tick (tree : StatsTree) (event : Event) (project : Str)
    (h : event.project = some project) :
    apply tree event = Table.entry tree event.route fun index => index.tick (event.tick project) := by
  cases event with
  | catalogSync => cases h
  | ecosystem route _ filename family =>
    cases h
    cases filename with
    | none => rfl
    | some filename => rfl
  | _ =>
    cases h
    rfl

theorem apply_eq_sync (tree : StatsTree) (event : Event) (h : event.project = none) :
    apply tree event = Table.entry tree event.route fun index =>
      { index with totals := event.totals index.totals } := by
  cases event with
  | catalogSync => rfl
  | _ => cases h

theorem EcosystemCounters.lookup_count (counters : EcosystemCounters) (family name : Str) :
    Table.lookup (counters.count family) name =
      Table.lookup counters name + if family = name then 1 else 0 := by
  unfold count
  rw [Table.lookup_entry]
  split
  · rename_i heq
    rw [heq]
  · rw [add_zero]

theorem Event.amount_sync (event : Event) (h : event.project = none) (counter : Counter) :
    event.amount counter = 0 := by
  cases event with
  | catalogSync => cases counter <;> rfl
  | _ => cases h

theorem Event.read_totals (event : Event) (totals : Counters) (counter : Counter) :
    (event.totals totals).read counter = totals.read counter + event.amount counter := by
  cases event with
  | ecosystem route project filename family =>
    cases counter with
    | family name => exact totals.ecosystem.lookup_count family name
    | _ => exact (add_zero _).symm
  | catalogSync route outcome projects =>
    rw [amount_sync _ rfl, add_zero]
    cases outcome <;> cases counter <;> rfl
  | _ =>
    cases counter with
    | family name => exact (add_zero _).symm
    | _ => first | rfl | exact (add_zero _).symm

theorem filesUsage_entry (files : Table Str FileStats) (filename : Str)
    (change : FileStats → FileStats) (amount : Usage)
    (h : (change (files.lookup filename)).usage = (files.lookup filename).usage + amount) :
    filesUsage (files.entry filename change) = filesUsage files + amount :=
  Table.sum_entry (fun (_ : Str) (file : FileStats) => file.usage) files filename change amount rfl h

theorem Event.filesUsage_files (event : Event) (files : Table Str FileStats) :
    filesUsage (event.files files) =
      filesUsage files + (event.amount .downloads, event.amount .bytes) := by
  cases event with
  | download route project filename version source bytes =>
    exact filesUsage_entry files filename _ (1, bytes) rfl
  | ecosystem route project filename family =>
    cases filename with
    | none => exact (add_zero _).symm
    | some filename => exact filesUsage_entry files filename _ 0 (add_zero _).symm
  | _ => exact (add_zero _).symm

theorem Event.tick_counts (event : Event) (project : Str) :
    (event.tick project).Counts event.amount where
  totals := event.read_totals
  files := event.filesUsage_files

theorem StatsTree.Consistent.apply {tree : StatsTree} (h : tree.Consistent) (event : Event) :
    StatsTree.Consistent (apply tree event) := by
  cases hproject : event.project with
  | none =>
    rw [apply_eq_sync tree event hproject]
    apply h.entry
    intro index hindex
    refine ⟨fun counter => ?_, hindex.projects⟩
    rw [event.read_totals, event.amount_sync hproject, add_zero]
    exact hindex.totals counter
  | some project =>
    rw [apply_eq_tick tree event project hproject]
    apply h.entry
    intro index hindex
    exact hindex.tick (event.tick_counts project)

theorem StatsTree.Consistent.foldl_apply {tree : StatsTree} (h : tree.Consistent)
    (events : List Event) : StatsTree.Consistent (events.foldl Events.apply tree) := by
  induction events generalizing tree with
  | nil => exact h
  | cons event rest ih => exact ih (h.apply event)

end Peryx.Events
