import Peryx.Pypi.PageText
import Peryx.Storage.LoneCalls

/-!
# What the records of a cached page read back as (store/record.rs:136-222, store/index.rs:94-150)
-/

namespace Peryx.Pypi
open Storage

/-- What `serde_json` promises of the records it writes: they are read back, and a header is
one line. -/
structure PageJson.ReadsRecords (json : PageJson) : Prop where
  header : ∀ header, json.readHeader (json.header header) = some header
  oneLine : ∀ header, 0x0A ∉ json.header header
  overlay : ∀ overlay, json.readOverlay (json.overlay overlay) = some overlay

def CachedIndex.summarized (record : CachedIndex) (bytes : Nat) : CachedIndexSummary :=
  ⟨record.fetchedAtUnix, record.freshSecs, record.body.length, bytes, record.lastSerial,
    record.contentType⟩

section Codec
variable (json : PageJson)

theorem splitFramed_encode (hjson : json.ReadsRecords) (record : CachedIndex) :
    splitFramed (record.encode json) = some (json.header ⟨record.etag, record.lastSerial,
      record.fetchedAtUnix, record.contentType, record.freshSecs⟩, record.body) := by
  unfold splitFramed CachedIndex.encode
  rw [List.append_assoc, List.append_assoc, (Str.stripPrefix_eq_some _ _ _).mpr rfl, Option.bind_some]
  exact Str.splitOnce_append 0x0A _ record.body (hjson.oneLine _)

theorem decode_encode (hjson : json.ReadsRecords) (record : CachedIndex) :
    CachedIndex.decode json (record.encode json) = some record := by
  unfold CachedIndex.decode
  rw [splitFramed_encode json hjson]
  dsimp only
  rw [hjson.header, Option.map_some]

theorem summary_eq (raw : Bytes) : CachedIndex.summary json raw =
    (CachedIndex.decode json raw).map fun record => record.summarized raw.length := by
  unfold CachedIndex.summary CachedIndex.decode
  cases splitFramed raw with
  | none => rfl
  | some parts =>
    dsimp only
    rw [Option.map_map]
    rfl

theorem decodeFreshness_eq (raw : Bytes) : CachedIndex.decodeFreshness json raw =
    (CachedIndex.decode json raw).map fun record => (record.fetchedAtUnix, record.freshSecs) := by
  unfold CachedIndex.decodeFreshness
  rw [summary_eq, Option.map_map]
  rfl

end Codec

inductive PageWrite where
  | put (record : CachedIndex)
  | touch (overlay : FreshnessOverlay)

structure PageStep where
  key : Str
  write : PageWrite
  fault : Fault := .never

def CachedIndex.touched (record : CachedIndex) (overlay : FreshnessOverlay) : CachedIndex :=
  { record with fetchedAtUnix := overlay.fetchedAtUnix, freshSecs := overlay.freshSecs }

section Runs
variable (json : PageJson)

def PageStep.call (step : PageStep) : Calls MetaFailure Unit :=
  match step.write with
  | .put record => putIndex json step.key record
  | .touch overlay => touchIndexFreshness json step.key overlay

def PageStep.run (disk : Disk) (step : PageStep) : Disk :=
  ((step.call json).run.run { disk with fault := step.fault }).2

def committedWrites (key : Str) (steps : List PageStep) : List PageWrite :=
  (steps.filter fun step => step.key = key ∧ step.fault = .never).map (·.write)

/-- What the rows of a page hold after a write, when anything was put. -/
def PageWrite.apply (held : Option (CachedIndex × Option FreshnessOverlay)) :
    PageWrite → Option (CachedIndex × Option FreshnessOverlay)
  | .put record => some (record, none)
  | .touch overlay => held.map fun page => (page.1, some overlay)

def HoldsPage (key : Str) (rows : Rows) (page : CachedIndex × Option FreshnessOverlay) : Prop :=
  rows[indexKey key]? = some (page.1.encode json) ∧
    rows[freshnessKey key]? = page.2.map json.overlay

theorem indexKey_inj (key other : Str) : indexKey key = indexKey other ↔ key = other :=
  List.append_right_inj _

theorem freshnessKey_inj (key other : Str) : freshnessKey key = freshnessKey other ↔ key = other :=
  List.append_right_inj _

theorem indexKey_ne_freshnessKey (key other : Str) : indexKey key ≠ freshnessKey other := by
  intro heq
  have htake := congrArg (List.take 7) heq
  unfold indexKey freshnessKey at htake
  rw [List.take_append_of_le_length (by decide), List.take_append_of_le_length (by decide)] at htake
  exact absurd htake (by decide)

theorem run_batchCall_fault {ε : Type} (batch : DriverBatch) (disk : Disk)
    (h : disk.fault ≠ .never) : ((batchCall batch : Calls ε Unit).run.run disk).2 = disk := by
  change ((if disk.fault = .never then _ else _ : Except (TxnError ε) Unit × Disk)).2 = disk
  rw [if_neg h]

def PageStep.batch (step : PageStep) : DriverBatch :=
  match step.write with
  | .put record =>
    { puts := [(indexKey step.key, record.encode json)], deletes := [freshnessKey step.key] }
  | .touch overlay => { puts := [(freshnessKey step.key, json.overlay overlay)] }

theorem call_batch (step : PageStep) : step.call json = batchCall (step.batch json) := by
  obtain ⟨key, write, fault⟩ := step
  cases write <;> rfl

def PageStep.rows (step : PageStep) (rows : Rows) : Rows := commitDriverBatch rows (step.batch json)

theorem run_step (disk : Disk) (step : PageStep) : (step.run json disk).store.rows =
    if step.fault = .never then step.rows json disk.store.rows else disk.store.rows := by
  unfold PageStep.run PageStep.rows
  rw [call_batch]
  by_cases hfault : step.fault = .never
  · rw [if_pos hfault, run_batchCall _ { disk with fault := step.fault } hfault]
  · rw [if_neg hfault, run_batchCall_fault _ { disk with fault := step.fault } hfault]

theorem putIndex_rows (rows : Rows) (key other : Str) (record : CachedIndex) :
    (PageStep.rows json ⟨other, .put record, .never⟩ rows)[indexKey key]? =
        (if other = key then some (record.encode json) else rows[indexKey key]?) ∧
      (PageStep.rows json ⟨other, .put record, .never⟩ rows)[freshnessKey key]? =
        (if other = key then none else rows[freshnessKey key]?) := by
  unfold PageStep.rows PageStep.batch
  dsimp only
  constructor
  · have hkept : indexKey key ∉ [freshnessKey other] := fun hmem =>
      indexKey_ne_freshnessKey key other (List.mem_singleton.mp hmem)
    rw [commitDriverBatch_getElem? _ _ _ hkept]
    by_cases hkey : other = key
    · simp [lastPut, hkey]
    · have hne : indexKey other ≠ indexKey key := fun heq => hkey ((indexKey_inj _ _).mp heq)
      simp [lastPut, hkey, hne]
  · by_cases hkey : other = key
    · rw [if_pos hkey, hkey]
      exact Table.getElem?_set_self _ (freshnessKey key) none
    · rw [if_neg hkey]
      have hkept : freshnessKey key ∉ [freshnessKey other] := fun hmem =>
        hkey ((freshnessKey_inj _ _).mp (List.mem_singleton.mp hmem)).symm
      have hne : indexKey other ≠ freshnessKey key := indexKey_ne_freshnessKey other key
      rw [commitDriverBatch_getElem? _ _ _ hkept]
      simp [lastPut, hne]

theorem touchIndexFreshness_rows (rows : Rows) (key other : Str) (overlay : FreshnessOverlay) :
    (PageStep.rows json ⟨other, .touch overlay, .never⟩ rows)[indexKey key]? =
        rows[indexKey key]? ∧
      (PageStep.rows json ⟨other, .touch overlay, .never⟩ rows)[freshnessKey key]? =
        (if other = key then some (json.overlay overlay) else rows[freshnessKey key]?) := by
  unfold PageStep.rows PageStep.batch
  dsimp only
  constructor
  · have hne : freshnessKey other ≠ indexKey key := (indexKey_ne_freshnessKey key other).symm
    rw [commitDriverBatch_getElem? _ _ _ List.not_mem_nil]
    simp [lastPut, hne]
  · rw [commitDriverBatch_getElem? _ _ _ List.not_mem_nil]
    by_cases hkey : other = key
    · simp [lastPut, hkey]
    · have hne : freshnessKey other ≠ freshnessKey key := fun heq =>
        hkey ((freshnessKey_inj _ _).mp heq)
      simp [lastPut, hkey, hne]

theorem holdsPage_step (key : Str) (disk : Disk) (step : PageStep)
    (held : Option (CachedIndex × Option FreshnessOverlay))
    (h : ∀ page ∈ held, HoldsPage json key disk.store.rows page) :
    ∀ page ∈ (committedWrites key [step]).foldl PageWrite.apply held,
      HoldsPage json key (step.run json disk).store.rows page := by
  obtain ⟨other, write, fault⟩ := step
  rw [run_step]
  by_cases hfault : fault = .never
  · subst hfault
    rw [if_pos rfl]
    unfold committedWrites HoldsPage at *
    cases write with
    | put record =>
      obtain ⟨hindex, hfresh⟩ := putIndex_rows json disk.store.rows key other record
      rw [hindex, hfresh]
      by_cases hkey : other = key
      · simp [hkey, PageWrite.apply]
      · simpa [hkey] using h
    | touch overlay =>
      obtain ⟨hindex, hfresh⟩ := touchIndexFreshness_rows json disk.store.rows key other overlay
      rw [hindex, hfresh]
      by_cases hkey : other = key
      · cases held with
        | none => simp [hkey, PageWrite.apply]
        | some page => simpa [hkey, PageWrite.apply] using (h page rfl).1
      · simpa [hkey] using h
  · rw [if_neg hfault]
    have hnone : committedWrites key [⟨other, write, fault⟩] = [] := by
      unfold committedWrites
      simp [hfault]
    rw [hnone]
    exact h

theorem committedWrites_cons (key : Str) (step : PageStep) (steps : List PageStep) :
    committedWrites key (step :: steps) = committedWrites key [step] ++ committedWrites key steps := by
  unfold committedWrites
  rw [← List.map_append, ← List.filter_append]
  rfl

theorem holdsPage_run (key : Str) (steps : List PageStep) (disk : Disk)
    (held : Option (CachedIndex × Option FreshnessOverlay))
    (h : ∀ page ∈ held, HoldsPage json key disk.store.rows page) :
    ∀ page ∈ (committedWrites key steps).foldl PageWrite.apply held,
      HoldsPage json key (steps.foldl (PageStep.run json) disk).store.rows page := by
  induction steps generalizing disk held with
  | nil => exact h
  | cons step steps ih =>
    rw [committedWrites_cons, List.foldl_append]
    exact ih _ _ (holdsPage_step json key disk step held h)

theorem indexKey_run (key : Str) (steps : List PageStep) (disk : Disk)
    (hnone : disk.store.rows[indexKey key]? = none)
    (h : ∀ write ∈ committedWrites key steps, ∃ overlay, write = .touch overlay) :
    (steps.foldl (PageStep.run json) disk).store.rows[indexKey key]? = none := by
  induction steps generalizing disk with
  | nil => exact hnone
  | cons step steps ih =>
    rw [committedWrites_cons] at h
    refine ih _ ?_ fun write hwrite => h write (List.mem_append_right _ hwrite)
    have hfirst := fun write hwrite => h write (List.mem_append_left _ hwrite)
    obtain ⟨other, write, fault⟩ := step
    rw [run_step]
    by_cases hfault : fault = .never
    · subst hfault
      rw [if_pos rfl]
      cases write with
      | touch overlay => rw [(touchIndexFreshness_rows json _ key other overlay).1, hnone]
      | put record =>
        rw [(putIndex_rows json _ key other record).1]
        by_cases hkey : other = key
        · obtain ⟨overlay, hoverlay⟩ := hfirst (.put record) (by simp [committedWrites, hkey])
          cases hoverlay
        · rw [if_neg hkey, hnone]
    · rw [if_neg hfault]
      exact hnone

theorem foldl_touch (page : CachedIndex × Option FreshnessOverlay) (back : List FreshnessOverlay) :
    (back.map PageWrite.touch).foldl PageWrite.apply (some page) =
      some (page.1, back.getLast?.or page.2) := by
  induction back generalizing page with
  | nil => rfl
  | cons overlay back ih =>
    rw [List.map_cons, List.foldl_cons, PageWrite.apply, Option.map_some, ih, List.getLast?_cons]
    cases back.getLast? <;> rfl

theorem reads_getIndex_held (hjson : json.ReadsRecords) (key : Str) (rows : Rows)
    (page : CachedIndex × Option FreshnessOverlay) (h : HoldsPage json key rows page) :
    Reads (getIndex json key) rows (.ok (some (page.2.elim page.1 page.1.touched))) := by
  obtain ⟨record, overlay⟩ := page
  obtain ⟨hindex, hfresh⟩ := h
  have hdecoded : Reads (decoded (CachedIndex.decode json (record.encode json))) rows (.ok record) := by
    rw [decode_encode json hjson]
    exact reads_pure record rows
  have hoverlay : Reads (readOverlay json key) rows (.ok overlay) := by
    refine (reads_getCall (freshnessKey key) rows).bind_ok ?_
    rw [hfresh]
    cases overlay with
    | none => exact reads_pure none rows
    | some overlay =>
      have hread : Reads (decoded (json.readOverlay (json.overlay overlay))) rows (.ok overlay) := by
        rw [hjson.overlay]
        exact reads_pure overlay rows
      exact hread.bind_ok (reads_pure (some overlay) rows)
  refine (reads_getCall (indexKey key) rows).bind_ok ?_
  rw [hindex]
  refine hdecoded.bind_ok (hoverlay.bind_ok ?_)
  cases overlay with
  | none => exact reads_pure _ rows
  | some overlay => exact reads_pure _ rows

theorem reads_getIndex_none (key : Str) (rows : Rows) (h : rows[indexKey key]? = none) :
    Reads (getIndex json key) rows (.ok none) := by
  refine (reads_getCall (indexKey key) rows).bind_ok ?_
  rw [h]
  exact reads_pure none rows

/-- What `get_index` answers to a caller that nothing fails. -/
def getIndexAfter (disk : Disk) (key : Str) (steps : List PageStep) :
    Except (TxnError MetaFailure) (Option CachedIndex) :=
  ((getIndex json key).run.run { store := (steps.foldl (PageStep.run json) disk).store }).1

/-- A record reads back as it was written, the summaries say what the record says, and a page
is its last put with the freshness of the last touch since. -/
theorem page_records (hjson : json.ReadsRecords) :
    (∀ record, CachedIndex.decode json (record.encode json) = some record) ∧
    (∀ raw, CachedIndex.summary json raw =
        (CachedIndex.decode json raw).map (fun record => record.summarized raw.length) ∧
      CachedIndex.decodeFreshness json raw =
        (CachedIndex.decode json raw).map fun record => (record.fetchedAtUnix, record.freshSecs)) ∧
    ∀ disk key steps,
      (∀ front record (back : List FreshnessOverlay),
        committedWrites key steps = front ++ .put record :: back.map .touch →
        getIndexAfter json disk key steps =
          .ok (some (back.getLast?.elim record record.touched))) ∧
      (disk.store.rows[indexKey key]? = none →
        (∀ write ∈ committedWrites key steps, ∃ overlay, write = .touch overlay) →
          getIndexAfter json disk key steps = .ok none) := by
  refine ⟨decode_encode json hjson, fun raw => ⟨summary_eq json raw, decodeFreshness_eq json raw⟩,
    fun disk key steps => ⟨fun front record back hsteps => ?_, fun hnone htouches => ?_⟩⟩
  · have hrun := holdsPage_run json key steps disk none nofun
    have hput : ∀ held, PageWrite.apply held (.put record) = some (record, none) := fun _ => rfl
    rw [hsteps, List.foldl_append, List.foldl_cons, hput, foldl_touch, Option.or_none] at hrun
    have hreads := reads_getIndex_held json hjson key _ _ (hrun _ rfl)
    unfold getIndexAfter
    rw [hreads { store := (steps.foldl (PageStep.run json) disk).store } rfl rfl]
    rfl
  · have hreads := reads_getIndex_none json key _ (indexKey_run json key steps disk hnone htouches)
    unfold getIndexAfter
    rw [hreads { store := (steps.foldl (PageStep.run json) disk).store } rfl rfl]
    rfl

end Runs

namespace PageText
open Codec

theorem oneLine_nullable {α : Type} (codec : Codec α)
    (h : ∀ a rest, Str.stripPrefix (codec.write a ++ rest) (str "null") = none)
    (hcodec : codec.OneLine) : (nullable codec h).OneLine := by
  have hnull : (0x0A : UInt8) ∉ str "null" := by decide
  intro value
  cases value with
  | none => exact hnull
  | some a => exact hcodec a

theorem oneLine_text : text.OneLine := oneLine_nullable string _ oneLine_string

theorem oneLine_number : number.OneLine := oneLine_nullable nat _ oneLine_nat

theorem oneLine_signed : signed.OneLine := oneLine_nullable int _ oneLine_int

theorem oneLine_header : header.OneLine :=
  .map _ _ _ (.field _ _ (by decide) oneLine_text (.field _ _ (by decide) oneLine_number
    (.field _ _ (by decide) oneLine_int (.field _ _ (by decide) oneLine_text
      (.field _ _ (by decide) oneLine_signed (oneLine_close _ (by decide)))))))

theorem json_readsRecords : json.ReadsRecords where
  header h := readAll_write header h trivial
  oneLine := oneLine_header
  overlay o := readAll_write overlay o trivial

end PageText

/-- A page that was put, then touched twice, with a failed put in between. -/
theorem touched_page_read :
    let record : CachedIndex := ⟨some (str "\"e\""), some 7, -5, none, none, str "a\nb"⟩
    getIndexAfter PageText.json {} (str "root/d")
      [⟨str "root/d", .touch ⟨1, none⟩, .never⟩, ⟨str "root/d", .put record, .never⟩,
        ⟨str "root/d", .touch ⟨8, none⟩, .never⟩, ⟨str "root/d", .put ⟨none, none, 0, none, none, []⟩,
          .commit⟩,
        ⟨str "root/d", .touch ⟨9, some 600⟩, .never⟩, ⟨str "root/e", .touch ⟨3, none⟩, .never⟩] =
      .ok (some { record with fetchedAtUnix := 9, freshSecs := some 600 }) :=
  (((page_records PageText.json PageText.json_readsRecords).2.2 {} (str "root/d") _).1
    [.touch ⟨1, none⟩] _ [⟨8, none⟩, ⟨9, some 600⟩] (by rfl)).trans rfl

end Peryx.Pypi
