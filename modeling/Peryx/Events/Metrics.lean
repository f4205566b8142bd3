import Mathlib
import Peryx.Core.Text
import Peryx.Library.Tally

/-! # Usage metrics (peryx-events/src/metrics.rs) -/

namespace Peryx.Events

inductive CatalogSyncOutcome where
  | published
  | notModified
  | error
  deriving Repr, DecidableEq

inductive Event where
  | page (route project : Str)
  | download (route project filename : Str) (version source : Option Str) (bytes : UInt64)
  | ecosystem (route project : Str) (filename : Option Str) (family : Str)
  | upload (route project : Str)
  | refresh (route project : Str) (changed : Bool)
  | staleServed (route project : Str)
  | upstreamError (route project : Str)
  | blobRejected (route project : Str)
  | catalogSync (route : Str) (outcome : CatalogSyncOutcome) (projects : Option UInt64)

structure BaseCounters where
  pages : UInt64 := 0
  downloads : UInt64 := 0
  bytes : UInt64 := 0
  rejected : UInt64 := 0

structure CachedCounters where
  refreshes : UInt64 := 0
  changed : UInt64 := 0
  staleServed : UInt64 := 0
  upstreamErrors : UInt64 := 0
  catalogSyncs : UInt64 := 0
  catalogPublished : UInt64 := 0
  catalogNotModified : UInt64 := 0
  catalogErrors : UInt64 := 0
  catalogProjects : UInt64 := 0

structure HostedCounters where
  uploads : UInt64 := 0

abbrev EcosystemCounters := Table Str UInt64

structure Counters where
  base : BaseCounters := {}
  cached : CachedCounters := {}
  hosted : HostedCounters := {}
  ecosystem : EcosystemCounters := ∅

structure FileStats where
  downloads : UInt64 := 0
  bytes : UInt64 := 0
  ecosystem : EcosystemCounters := ∅

structure ProjectStats where
  totals : Counters := {}
  files : Table Str FileStats := ∅

structure IndexStats where
  totals : Counters := {}
  projects : Table Str ProjectStats := ∅

abbrev StatsTree := Table Str IndexStats

instance : Inhabited FileStats := ⟨{}⟩

instance : Inhabited ProjectStats := ⟨{}⟩

instance : Inhabited IndexStats := ⟨{}⟩

/-- `*entry(family).or_default() += 1`. -/
def EcosystemCounters.count (counters : EcosystemCounters) (family : Str) : EcosystemCounters :=
  Table.entry counters family (· + 1)

def apply (tree : StatsTree) : Event → StatsTree
  | .page route project =>
    tree.entry route fun index => { index with
      totals.base.pages := index.totals.base.pages + 1
      projects := index.projects.entry project fun stats =>
        { stats with totals.base.pages := stats.totals.base.pages + 1 } }
  | .download route project filename _ _ bytes =>
    tree.entry route fun index => { index with
      totals.base.downloads := index.totals.base.downloads + 1
      totals.base.bytes := index.totals.base.bytes + bytes
      projects := index.projects.entry project fun stats => { stats with
        totals.base.downloads := stats.totals.base.downloads + 1
        totals.base.bytes := stats.totals.base.bytes + bytes
        files := stats.files.entry filename fun file =>
          { file with downloads := file.downloads + 1, bytes := file.bytes + bytes } } }
  | .ecosystem route project filename family =>
    tree.entry route fun index => { index with
      totals.ecosystem := index.totals.ecosystem.count family
      projects := index.projects.entry project fun stats => { stats with
        totals.ecosystem := stats.totals.ecosystem.count family
        files := match filename with
          | some filename => stats.files.entry filename fun file =>
            { file with ecosystem := file.ecosystem.count family }
          | none => stats.files } }
  | .upload route project =>
    tree.entry route fun index => { index with
      totals.hosted.uploads := index.totals.hosted.uploads + 1
      projects := index.projects.entry project fun stats =>
        { stats with totals.hosted.uploads := stats.totals.hosted.uploads + 1 } }
  | .refresh route project changed =>
    tree.entry route fun index => { index with
      totals.cached.refreshes := index.totals.cached.refreshes + 1
      totals.cached.changed := index.totals.cached.changed + if changed then 1 else 0
      projects := index.projects.entry project fun stats => { stats with
        totals.cached.refreshes := stats.totals.cached.refreshes + 1
        totals.cached.changed := stats.totals.cached.changed + if changed then 1 else 0 } }
  | .staleServed route project =>
    tree.entry route fun index => { index with
      totals.cached.staleServed := index.totals.cached.staleServed + 1
      projects := index.projects.entry project fun stats =>
        { stats with totals.cached.staleServed := stats.totals.cached.staleServed + 1 } }
  | .upstreamError route project =>
    tree.entry route fun index => { index with
      totals.cached.upstreamErrors := index.totals.cached.upstreamErrors + 1
      projects := index.projects.entry project fun stats =>
        { stats with totals.cached.upstreamErrors := stats.totals.cached.upstreamErrors + 1 } }
  | .blobRejected route project =>
    tree.entry route fun index => { index with
      totals.base.rejected := index.totals.base.rejected + 1
      projects := index.projects.entry project fun stats =>
        { stats with totals.base.rejected := stats.totals.base.rejected + 1 } }
  | .catalogSync route outcome projects =>
    tree.entry route fun index =>
      let cached := { index.totals.cached with
        catalogSyncs := index.totals.cached.catalogSyncs + 1
        catalogProjects := projects.getD index.totals.cached.catalogProjects }
      { index with totals.cached := match outcome with
        | .published => { cached with catalogPublished := cached.catalogPublished + 1 }
        | .notModified => { cached with catalogNotModified := cached.catalogNotModified + 1 }
        | .error => { cached with catalogErrors := cached.catalogErrors + 1 } }

structure FileDownloadRow where
  route : Str
  project : Str
  filename : Str
  downloads : UInt64
  bytes : UInt64
  deriving DecidableEq

def snapshotDownloads (tree : StatsTree) : List FileDownloadRow :=
  tree.toList.flatMap fun index => index.2.projects.toList.flatMap fun stats =>
    stats.2.files.toList.map fun file => ⟨index.1, stats.1, file.1, file.2.downloads, file.2.bytes⟩

def restoreRow (tree : StatsTree) (row : FileDownloadRow) : StatsTree :=
  tree.entry row.route fun index => { index with
    totals.base.downloads := index.totals.base.downloads + row.downloads
    totals.base.bytes := index.totals.base.bytes + row.bytes
    projects := index.projects.entry row.project fun stats => { stats with
      totals.base.downloads := stats.totals.base.downloads + row.downloads
      totals.base.bytes := stats.totals.base.bytes + row.bytes
      files := stats.files.entry row.filename fun file =>
        { file with downloads := file.downloads + row.downloads, bytes := file.bytes + row.bytes } } }

def restoreDownloads (tree : StatsTree) (rows : List FileDownloadRow) : StatsTree :=
  rows.foldl restoreRow tree

structure DailyKey where
  day : Int
  repository : Str
  project : Str
  version : Str
  source : Str
  deriving DecidableEq

def DailyKey.labels (key : DailyKey) : List Str := [key.repository, key.project, key.version, key.source]

/-- The derived order: the day first. -/
instance : Ord DailyKey := ⟨compareLex (compareOn DailyKey.day) (compareOn DailyKey.labels)⟩

instance : Std.TransOrd DailyKey :=
  inferInstanceAs (Std.TransCmp (compareLex (compareOn DailyKey.day) (compareOn DailyKey.labels)))

theorem dailyKey_eq_of_compare (a b : DailyKey) (h : compare a b = .eq) : a = b := by
  change (compareOn DailyKey.day a b).then (compareOn DailyKey.labels a b) = .eq at h
  rw [Ordering.then_eq_eq] at h
  have hday : a.day = b.day := Std.LawfulEqCmp.eq_of_compare h.1
  have hlabels : a.labels = b.labels := Std.LawfulEqCmp.eq_of_compare h.2
  obtain ⟨_, _, _, _, _⟩ := a
  obtain ⟨_, _, _, _, _⟩ := b
  cases hday
  cases hlabels
  rfl

instance : Std.LawfulEqOrd DailyKey where
  eq_of_compare := dailyKey_eq_of_compare _ _

structure DailyTotals where
  downloads : UInt64 := 0
  bytes : UInt64 := 0
  deriving DecidableEq

instance : Inhabited DailyTotals := ⟨{}⟩

abbrev DailyBuckets := Table DailyKey DailyTotals

def utcDay (unixSecs : Int) : Int := unixSecs / 86400

def collectDaily (now : Int) : Event → Option (DailyKey × UInt64)
  | .download route project _ version source bytes =>
    some (⟨utcDay now, route, project, version.getD [], source.getD []⟩, bytes)
  | _ => none

def addDaily (daily : DailyBuckets) (download : DailyKey × UInt64) : DailyBuckets :=
  daily.entry download.1 fun totals =>
    { downloads := totals.downloads + 1, bytes := totals.bytes + download.2 }

def expireDaily (daily : DailyBuckets) (now : Int) (retentionDays : Nat) : DailyBuckets :=
  let floor : DailyKey := ⟨utcDay now - retentionDays, [], [], [], []⟩
  daily.filter fun key _ => (compare floor key).isLE

/-- What the thread drains at once: each event with what the clock says when it is
collected, and what the clock says when the buckets expire. -/
structure Batch where
  events : List (Event × Int)
  expiresAt : Int

structure Aggregate where
  tree : StatsTree := ∅
  daily : DailyBuckets := ∅

def Aggregate.step (retentionDays : Option Nat) (state : Aggregate) (batch : Batch) : Aggregate :=
  let downloads := batch.events.filterMap fun event => collectDaily event.2 event.1
  { tree := batch.events.foldl (fun tree event => apply tree event.1) state.tree
    daily :=
      if downloads.isEmpty then state.daily
      else
        let daily := downloads.foldl addDaily state.daily
        match retentionDays with
        | some days => expireDaily daily batch.expiresAt days
        | none => daily }

def Aggregate.run (retentionDays : Option Nat) (batches : List Batch) : Aggregate :=
  batches.foldl (Aggregate.step retentionDays) {}

end Peryx.Events
