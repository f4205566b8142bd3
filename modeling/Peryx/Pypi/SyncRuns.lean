import Peryx.Pypi.SyncKinds

/-! # Published generations over whole runs -/

namespace Peryx.Pypi
open Storage

section Runs
variable {A E I H : Type} (kind : SyncKind A E I H)

def SyncKind.Unmoved (before : Rows) (first active : Option A) (rows : Rows) : Prop :=
  active = first ∧ ∀ a, first = some a →
    Table.AgreeOn (kind.space.Under (kind.space.number a)) before rows

structure SyncState.Published (state : SyncState A E H) : Prop where
  /-- The rows of the active generation are those of the document of one sync. -/
  active : ∃ publication, kind.space.state state.disk.store.rows = .ok publication ∧
    ∀ a, publication.active = some a →
      kind.Complete state.started (kind.space.number a) state.disk.store.rows
  kept : ∀ next publication publication' generation, SyncStep kind state next →
    kind.space.state state.disk.store.rows = .ok publication →
    kind.space.state next.disk.store.rows = .ok publication' →
    publication.active.map kind.space.number = some generation →
    publication'.active.map kind.space.number = some generation →
    Table.AgreeOn (kind.space.Under generation) state.disk.store.rows next.disk.store.rows
  /-- A sync that has failed has moved nothing, or has published its own document whole. -/
  failed : ∀ run error, state.running = some run → run.left = .done (.error error) →
    ∃ first publication, kind.space.state run.before = .ok first ∧
      kind.space.state state.disk.store.rows = .ok publication ∧
      (kind.Unmoved run.before first.active publication.active state.disk.store.rows ∨
        ∃ head generation entries, kind.Gives run.script head entries ∧
          kind.Published head generation entries publication.active state.disk.store.rows)
  /-- A sync that has succeeded has left rows of the active generation only, unless it waited
  for another and found an active generation. -/
  succeeded : ∀ run outcome, state.running = some run → run.left = .done (.ok outcome) →
    (run.script.waited = true ∧ ∃ first, kind.space.state run.before = .ok first ∧
      first.active ≠ none) ∨
    ∃ publication, kind.space.state state.disk.store.rows = .ok publication ∧
      ∀ generation key, kind.space.Under generation key →
        state.disk.store.rows[key]? ≠ none →
        publication.active.map kind.space.number = some generation

def SyncKind.Ends (started : List (SyncScript A E H)) (script : SyncScript A E H) (before : Rows)
    (first : Option A) : Except (TxnError SyncError) SyncOutcome → Disk → Prop :=
  Ending
    (fun _ rows => kind.Clean started Anything rows ∨ script.waited = true ∧
      kind.Held started (kind.Unmoved before first) (fun state _ => state.active ≠ none) rows)
    (kind.FailedWith started (kind.Unmoved before first) (kind.Gives script))

structure SyncState.Sound (state : SyncState A E H) : Prop where
  rows : ∃ publication, kind.Sound state.started state.disk.store.rows publication
  running : ∀ run, state.running = some run → ∃ first, kind.space.state run.before = .ok first ∧
    run.left.Steady (Disk.Others kind.space.Owns)
      (fun a b => kind.Careful state.started a.store.rows b.store.rows)
      (kind.Ends state.started run.script run.before first.active) state.disk

variable {kind}

theorem unmoved_local (before : Rows) (first : Option A) :
    kind.Local (kind.Unmoved before first) := by
  rintro active rows after hagree ⟨rfl, hrows⟩
  exact ⟨rfl, fun a ha => (hrows a ha).trans (hagree a ha)⟩

theorem stable_or {foot : Str → Prop} {p q : Rows → Prop} (hp : Stable foot p) (hq : Stable foot q) :
    Stable foot fun rows => p rows ∨ q rows :=
  fun a b hagree h => h.imp (hp a b hagree) (hq a b hagree)

theorem stable_failedWith (hlawful : kind.Lawful) {started : List (SyncScript A E H)}
    {more : Option A → Rows → Prop} (hlocal : kind.Local more) (gives : H → List E → Prop) :
    Stable kind.space.Owns (kind.FailedWith started more gives) := by
  refine stable_or (stable_plain hlocal _) ?_
  rintro a b hagree ⟨head, generation, entries, hgives, hheld⟩
  have hlocal' := published_local hlawful head generation entries
  exact ⟨head, generation, entries, hgives, stable_plain hlocal' _ a b hagree hheld⟩

theorem ends_stable (hlawful : kind.Lawful) (started : List (SyncScript A E H))
    (script : SyncScript A E H) (before : Rows) (first : Option A)
    (result : Except (TxnError SyncError) SyncOutcome) (a b : Disk)
    (h : kind.Ends started script before first result a)
    (hothers : Disk.Others kind.space.Owns a b) :
    kind.Ends started script before first result b := by
  have hlocal : kind.Local (kind.Unmoved before first) := unmoved_local before first
  cases result with
  | error error => exact stable_failedWith hlawful hlocal _ _ _ hothers h
  | ok outcome =>
    have hclean : Stable kind.space.Owns (kind.Clean started Anything) :=
      stable_plain anything_local _
    have hwaited : Stable kind.space.Owns fun rows => script.waited = true ∧
        kind.Held started (kind.Unmoved before first) (fun state _ => state.active ≠ none) rows :=
      fun a b hagree h => ⟨h.1, stable_plain hlocal _ a b hagree h.2⟩
    exact stable_or hclean hwaited _ _ hothers h

theorem SyncKind.Complete.more {started : List (SyncScript A E H)} {generation : Nat} {rows : Rows}
    (h : kind.Complete started generation rows) (script : SyncScript A E H) :
    kind.Complete (script :: started) generation rows := by
  obtain ⟨found, hfound, hdocument⟩ := h
  exact ⟨found, List.mem_cons_of_mem _ hfound, hdocument⟩

theorem SyncKind.Sound.more {started : List (SyncScript A E H)} {rows : Rows}
    {publication : Publication A} (h : kind.Sound started rows publication)
    (script : SyncScript A E H) : kind.Sound (script :: started) rows publication :=
  { h with complete := fun a ha => (h.complete a ha).more script }

theorem syncStep_sound (hlawful : kind.Lawful) {state next : SyncState A E H}
    (h : state.Sound kind) (hstep : SyncStep kind state next) : next.Sound kind := by
  cases hstep with
  | start script hfree =>
    obtain ⟨publication, hsound⟩ := h.rows
    have hmore := hsound.more script
    refine ⟨⟨publication, hmore⟩, fun run hrun => ?_⟩
    cases hrun
    refine ⟨publication, hsound.read, ?_⟩
    have hlocal : kind.Local (kind.Unmoved state.disk.store.rows publication.active) :=
      unmoved_local state.disk.store.rows publication.active
    exact safe_sync hlawful hlocal script List.mem_cons_self state.disk
      ⟨publication, hmore, ⟨rfl, fun a _ => Table.AgreeOn.refl _⟩, trivial⟩
  | transaction run write after hrun hleft =>
    obtain ⟨first, hfirst, hsteady⟩ := h.running run hrun
    rw [hleft] at hsteady
    obtain ⟨hcareful, hafter⟩ := hsteady state.disk (Table.AgreeOn.refl _)
    refine ⟨hcareful.1, fun found hfound => ?_⟩
    cases hfound
    exact ⟨first, hfirst, hafter⟩
  | stop run hrun => exact ⟨h.rows, nofun⟩
  | others disk hrows =>
    obtain ⟨publication, hsound⟩ := h.rows
    refine ⟨⟨publication, hsound.agree hrows⟩, fun run hrun => ?_⟩
    obtain ⟨first, hfirst, hsteady⟩ := h.running run hrun
    exact ⟨first, hfirst, hsteady.move hrows (fun a b c => Table.AgreeOn.trans)
      fun result a b hends hothers => ends_stable hlawful _ _ _ _ result a b hends hothers⟩

theorem syncs_sound (hlawful : kind.Lawful) (state : SyncState A E H)
    (h : (syncSystem kind).Reachable state) : state.Sound kind := by
  refine (syncSystem kind).invariant (SyncState.Sound kind) ?_ ?_ state h
  · rintro state ⟨hrunning, hstarted, hempty⟩
    refine ⟨⟨{}, ?_, ?_, nofun, ?_, nofun⟩, fun run hrun => ?_⟩
    · unfold GenerationSpace.state
      rw [hempty _ (.inl rfl)]
    · intro generation hnames
      rcases hnames with hnames | hnames | hnames <;> cases hnames
    · intro generation key hkey hrow
      exact absurd (hempty key (.inr ⟨generation, hkey⟩)) hrow
    · rw [hrunning] at hrun
      cases hrun
  · exact fun state next _ hsound hstep => syncStep_sound hlawful hsound hstep

theorem syncStep_careful {state next : SyncState A E H} (h : state.Sound kind)
    (hstep : SyncStep kind state next) :
    kind.Careful state.started state.disk.store.rows next.disk.store.rows := by
  obtain ⟨publication, hsound⟩ := h.rows
  cases hstep with
  | start | stop => exact hsound.careful_refl
  | transaction run write after hrun hleft =>
    obtain ⟨first, hfirst, hsteady⟩ := h.running run hrun
    rw [hleft] at hsteady
    exact (hsteady state.disk (Table.AgreeOn.refl _)).1
  | others disk hrows =>
    exact hsound.careful (hsound.agree hrows) fun generation _ _ => agree_under hrows generation

theorem syncs_published (hlawful : kind.Lawful) (state : SyncState A E H)
    (h : (syncSystem kind).Reachable state) : state.Published kind := by
  have hsound := syncs_sound hlawful state h
  obtain ⟨publication, hrows⟩ := hsound.rows
  refine ⟨⟨publication, hrows.read, hrows.complete⟩, ?_, ?_, ?_⟩
  · intro next found found' generation hstep hfound hfound' hnumber hnumber'
    exact (syncStep_careful hsound hstep).2 found found' generation hfound hfound' hnumber hnumber'
  · intro run error hrun hleft
    obtain ⟨first, hfirst, hsteady⟩ := hsound.running run hrun
    rw [hleft] at hsteady
    refine ⟨first, ?_⟩
    rcases hsteady with ⟨found, hfound, hunmoved, -⟩ |
      ⟨head, generation, entries, hgives, found, hfound, hpublished, -⟩
    · exact ⟨found, hfirst, hfound.read, .inl hunmoved⟩
    · exact ⟨found, hfirst, hfound.read, .inr ⟨head, generation, entries, hgives, hpublished⟩⟩
  · intro run outcome hrun hleft
    obtain ⟨first, hfirst, hsteady⟩ := hsound.running run hrun
    rw [hleft] at hsteady
    rcases hsteady with ⟨found, hfound, -, hstaging, hretired⟩ |
      ⟨hwaited, found, hfound, hunmoved, hactive⟩
    · refine .inr ⟨found, hfound.read, fun generation key hkey hrow => ?_⟩
      rcases hfound.named generation key hkey hrow with hnames | hnames | hnames
      · exact hnames
      · rw [hstaging] at hnames
        cases hnames
      · rw [hretired] at hnames
        cases hnames
    · refine .inl ⟨hwaited, first, hfirst, ?_⟩
      rw [← hunmoved.1]
      exact hactive

end Runs

/-- The catalog of an index and the files of a project, at every moment of every run. -/
theorem generations_published (table : CaseMap) (pep : Pep440) (parseUploadTime : Str → Option Int)
    (json : GenerationJson) (hjson : json.Faithful) (index : Str) :
    (∀ state, (syncSystem (catalogKind table json index)).Reachable state →
      state.Published (catalogKind table json index)) ∧
    ∀ normalized policy state,
      (syncSystem (projectKind table json pep parseUploadTime index normalized policy)).Reachable
        state →
      state.Published (projectKind table json pep parseUploadTime index normalized policy) :=
  ⟨fun state h => syncs_published (catalogKind_lawful table index hjson) state h,
    fun normalized policy state h =>
      syncs_published (projectKind_lawful table pep parseUploadTime index normalized hjson policy)
        state h⟩

section Driven
variable {A E I H : Type} {kind : SyncKind A E I H}

def SyncState.drive (state : SyncState A E H) : List Fault → SyncState A E H
  | [] => state
  | fault :: faults =>
    let disk : Disk := { state.disk with fault := fault }
    match state.running with
    | some ⟨script, before, .step write next⟩ =>
      SyncState.drive
        { state with disk := write disk, running := some ⟨script, before, next disk⟩ } faults
    | _ => state

def SyncState.begin (kind : SyncKind A E I H) (state : SyncState A E H)
    (script : SyncScript A E H) : SyncState A E H :=
  { state with
    running := some ⟨script, state.disk.store.rows,
      (kind.sync script.rounds script.waited script.respond).run⟩
    started := script :: state.started }

theorem drive_reachable (faults : List Fault) (state : SyncState A E H)
    (h : (syncSystem kind).Reachable state) : (syncSystem kind).Reachable (state.drive faults) := by
  induction faults generalizing state with
  | nil => exact h
  | cons fault faults ih =>
    unfold SyncState.drive
    dsimp only
    split
    · rename_i script before write next hrun
      have hfault := h.step _ _ (.others { state.disk with fault := fault } (Table.AgreeOn.refl _))
      exact ih _ (hfault.step _ _ (.transaction ⟨script, before, .step write next⟩ write next hrun rfl))
    · exact h

variable (kind) in
/-- The active generation before and after a sync that has returned, and whether it succeeded. -/
def SyncState.outcome (state : SyncState A E H) : Option (Option Nat × Option Nat × Bool) :=
  match state.running with
  | some ⟨_, before, .done result⟩ =>
    match kind.space.state before, kind.space.state state.disk.store.rows with
    | .ok first, .ok last =>
      some (first.active.map kind.space.number, last.active.map kind.space.number, result.isOk)
    | _, _ => none
  | _ => none

theorem outcome_eq (state : SyncState A E H) (before after : Option Nat) (success : Bool)
    (h : state.outcome kind = some (before, after, success)) :
    ∃ run result first last, state.running = some run ∧ run.left = .done result ∧
      result.isOk = success ∧ kind.space.state run.before = .ok first ∧
      kind.space.state state.disk.store.rows = .ok last ∧
      first.active.map kind.space.number = before ∧ last.active.map kind.space.number = after := by
  unfold SyncState.outcome at h
  split at h
  · rename_i script rows result hrun
    split at h
    · rename_i first last hfirst hlast
      cases h
      exact ⟨_, result, first, last, hrun, rfl, rfl, hfirst, hlast, rfl, rfl⟩
    · cases h
  · cases h

end Driven

namespace CatalogRuns

abbrev kind : SyncKind CatalogGeneration Str (Str × Str) SyncHead :=
  catalogKind CaseMap.caseless PageText.json.toGenerationJson (str "pypi")

def head : SyncHead where
  source := str "https://pypi.org/simple/"
  url := str "https://pypi.org/simple/"
  format := str "json"
  etag := none
  lastModified := none
  lastSerial := none
  fetchedAtUnix := 0
  bytes := 64

def script (waited : Bool) : SyncScript CatalogGeneration Str SyncHead :=
  ⟨2, waited, fun _ => some ⟨200, none, none, 0, some (head, [str "flask"], true)⟩⟩

def fresh : SyncState CatalogGeneration Str SyncHead := ⟨{}, none, []⟩

theorem fresh_reachable : (syncSystem kind).Reachable fresh :=
  .start _ ⟨rfl, rfl, fun _ _ => Std.ExtTreeMap.getElem?_empty⟩

def failed : SyncState CatalogGeneration Str SyncHead :=
  (fresh.begin kind (script false)).drive (List.replicate 6 .never ++ [.call 0])

def published : SyncState CatalogGeneration Str SyncHead :=
  (fresh.begin kind (script false)).drive (List.replicate 8 .never)

def waited : SyncState CatalogGeneration Str SyncHead :=
  let cut := ({ published with running := none }.begin kind (script false)).drive
    (List.replicate 5 .never)
  ({ cut with running := none }.begin kind (script true)).drive [.never]

theorem begin_reachable {state : SyncState CatalogGeneration Str SyncHead}
    (h : (syncSystem kind).Reachable state) (hfree : state.running = none) (waited : Bool)
    (faults : List Fault) :
    (syncSystem kind).Reachable ((state.begin kind (script waited)).drive faults) :=
  drive_reachable faults _ (h.step _ _ (.start (script waited) hfree))

theorem stop_reachable {state : SyncState CatalogGeneration Str SyncHead}
    (h : (syncSystem kind).Reachable state) :
    (syncSystem kind).Reachable { state with running := none } := by
  cases hrun : state.running with
  | none =>
    have hsame : { state with running := none } = state := by rw [← hrun]
    rw [hsame]
    exact h
  | some run => exact h.step _ _ (.stop run hrun)

theorem published_reachable : (syncSystem kind).Reachable published :=
  begin_reachable fresh_reachable rfl false _

end CatalogRuns

open CatalogRuns in
/-- One sync has returned a name and its generation is active. -/
theorem catalog_published : published.outcome kind = some (none, some 1, true) ∧
    published.Published kind :=
  ⟨by decide +kernel, (generations_published CaseMap.caseless wholeVersions (fun _ => none)
    PageText.json.toGenerationJson PageText.json_faithful (str "pypi")).1 published
    published_reachable⟩

open CatalogRuns in
/-- A sync may fail after its publication, and a sync that has waited may succeed and leave
the rows of a dead one. -/
theorem failed_sync_published :
    (∃ state run error first last, (syncSystem kind).Reachable state ∧ state.running = some run ∧
      run.left = .done (.error error) ∧ kind.space.state run.before = .ok first ∧
      kind.space.state state.disk.store.rows = .ok last ∧
      first.active.map kind.space.number ≠ last.active.map kind.space.number) ∧
    ∃ state run outcome last generation key, (syncSystem kind).Reachable state ∧
      state.running = some run ∧ run.left = .done (.ok outcome) ∧
      kind.space.state state.disk.store.rows = .ok last ∧ kind.space.Under generation key ∧
      state.disk.store.rows[key]? ≠ none ∧
      last.active.map kind.space.number ≠ some generation := by
  constructor
  · have houtcome : failed.outcome kind = some (none, some 1, false) := by decide +kernel
    obtain ⟨run, result, first, last, hrun, hleft, hok, hfirst, hlast, hbefore, hafter⟩ :=
      outcome_eq failed none (some 1) false houtcome
    cases result with
    | ok outcome => cases hok
    | error error =>
      refine ⟨failed, run, error, first, last, begin_reachable fresh_reachable rfl false _, hrun,
        hleft, hfirst, hlast, ?_⟩
      rw [hbefore, hafter]
      exact nofun
  · have houtcome : waited.outcome kind = some (some 1, some 1, true) := by decide +kernel
    obtain ⟨run, result, first, last, hrun, hleft, hok, hfirst, hlast, hbefore, hafter⟩ :=
      outcome_eq waited (some 1) (some 1) true houtcome
    cases result with
    | error error => cases hok
    | ok outcome =>
      have hcut := begin_reachable (stop_reachable published_reachable) rfl false
        (List.replicate 5 .never)
      refine ⟨waited, run, outcome, last, 2, catalogProjectKey (str "pypi") 2 (str "flask"),
        begin_reachable (stop_reachable hcut) rfl true [.never], hrun, hleft, hlast,
        List.prefix_append _ _, by decide +kernel, ?_⟩
      rw [hafter]
      exact nofun

end Peryx.Pypi
