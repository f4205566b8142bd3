import Peryx.Pypi.PageRows
import Peryx.Pypi.SyncRuns
import Peryx.Storage.Looks

/-!
# Readers among writers (store/index.rs:153-226, 456-482, store/projects.rs:283-310, store/uploads.rs)

A reader goes from a pointer to the keys below it and from a key to its value, in
transactions of their own.
-/

namespace Peryx.Pypi
open Storage

def lookValue (key : Str) : Looks MetaFailure Bytes := do
  match ← lookRow key with
  | some raw => return raw
  | none => throw .panicked

def lookDecoded {α : Type} : Option α → Looks MetaFailure α
  | some a => pure a
  | none => throw .decode

theorem areLooks_valueOf (key : Str) : AreLooks (valueOf key) (lookValue key) := by
  refine (areLooks_getCall key).bind fun found => ?_
  cases found with
  | none => exact areLooks_throw MetaFailure.panicked
  | some raw => exact areLooks_pure raw

theorem areLooks_decoded {α : Type} (found : Option α) :
    AreLooks (decoded found) (lookDecoded found) := by
  cases found with
  | none => exact areLooks_throw MetaFailure.decode
  | some a => exact areLooks_pure a

def lookState {A : Type} (space : GenerationSpace A) : Looks MetaFailure (Publication A) := do
  match ← lookRow space.stateKey with
  | none => return {}
  | some raw => lookDecoded (space.decode raw)

theorem areLooks_stateCall {A : Type} (space : GenerationSpace A) :
    AreLooks space.stateCall (lookState space) := by
  let read (found : Option Bytes) : Except MetaFailure (Publication A) :=
    found.elim (.ok {}) fun raw => (space.decode raw).elim (.error .decode) .ok
  refine areLooks_rowsCall (.row space.stateKey) space.state read ?_ ?_
  · intro rows
    show space.state rows = read rows[space.stateKey]?
    unfold GenerationSpace.state
    cases rows[space.stateKey]? with
    | none => rfl
    | some raw =>
      show _ = (space.decode raw).elim _ _
      dsimp only
      cases space.decode raw <;> rfl
  · show Query.ask _ _ = Query.ask _ _
    congr 1
    funext found
    cases found with
    | none => rfl
    | some raw =>
      show (lookDecoded (space.decode raw)).run = .done ((space.decode raw).elim _ _)
      cases space.decode raw <;> rfl

section Readers
variable (json : PageJson)

inductive Reader where
  | listProjects (index : Str)
  | listProjectFiles (index normalized : Str)
  | listIndexPages
  | scanIndexPages
  | scanIndexRecords
  | scanUploadRecords
  | listUploadEntries (index normalized : Str)
  deriving Repr, DecidableEq

abbrev Reader.Answer : Reader → Type
  | .listProjects _ => List Str
  | .listProjectFiles _ _ => List File
  | .listIndexPages => List (Str × Int × Option Int)
  | .scanIndexPages => List (Str × CachedIndexSummary)
  | .scanIndexRecords | .scanUploadRecords | .listUploadEntries _ _ => List (Str × Bytes)

def Reader.calls : (reader : Reader) → Calls MetaFailure reader.Answer
  | .listProjects index => Pypi.listProjects json.toGenerationJson index
  | .listProjectFiles index normalized =>
    Pypi.listProjectFiles json.toGenerationJson index normalized
  | .listIndexPages => Pypi.listIndexPages json
  | .scanIndexPages => Pypi.scanIndexPages json
  | .scanIndexRecords => Pypi.scanIndexRecords
  | .scanUploadRecords => Pypi.scanUploadRecords
  | .listUploadEntries index normalized => listUploadEntriesCall index normalized

def lookUnprefixed (start : Str) : Looks MetaFailure (List (Str × Bytes)) :=
  return unprefixed start (← lookVisit start)

def lookProjects (index : Str) : Looks MetaFailure (List Str) := do
  let rows ← lookUnprefixed (indexProjectsPrefix index)
  let observed := rows.filterMap fun row => (Str.fromUtf8 row.2).map fun display => (row.1, display)
  let listed ← match (← lookState (catalogSpace json.toGenerationJson index)).active with
    | none => pure []
    | some active => lookUnprefixed (catalogGenerationPrefix index active.generation)
  return (mergeNames listed observed []).mergeSort fun a b => (compare a b).isLE

def lookEach {β : Type} (start : Str) (f : Str → Looks MetaFailure β) : Looks MetaFailure (List β) := do
  (← lookKeys start).mapM f

def lookActive (index normalized : Str) : Looks MetaFailure (Option ProjectGeneration) := do
  return (← lookState (projectSpace json.toGenerationJson index normalized)).active

def lookProjectFiles (index normalized : Str) : Looks MetaFailure (List File) := do
  match ← lookActive json index normalized with
  | none => return []
  | some active =>
    lookEach (projectGenerationPrefix index normalized active.generation) fun key => do
      lookDecoded (json.readFile (← lookValue key))

def lookOverlay (key : Str) : Looks MetaFailure (Option FreshnessOverlay) := do
  match ← lookRow (freshnessKey key) with
  | none => return none
  | some raw => return some (← lookDecoded (json.readOverlay raw))

def lookFreshness (key : Str) : Looks MetaFailure (Str × Int × Option Int) := do
  let route := key.drop indexPrefix.length
  match ← lookOverlay json route with
  | some overlay => return (route, overlay.fetchedAtUnix, overlay.freshSecs)
  | none => return (route, ← lookDecoded (CachedIndex.decodeFreshness json (← lookValue key)))

def lookSummary (key : Str) : Looks MetaFailure (Str × CachedIndexSummary) := do
  let summary ← lookDecoded (CachedIndex.summary json (← lookValue key))
  let route := key.drop indexPrefix.length
  match ← lookOverlay json route with
  | none => return (route, summary)
  | some overlay => return (route, { summary with
      fetchedAtUnix := overlay.fetchedAtUnix
      freshSecs := overlay.freshSecs })

def lookRecord (start key : Str) : Looks MetaFailure (Str × Bytes) :=
  return (key.drop start.length, ← lookValue key)

def lookEntry (start key : Str) : Looks MetaFailure (Option (Str × Bytes)) :=
  return (← lookRow key).map fun record => (key.drop start.length, record)

def Reader.looks : (reader : Reader) → Looks MetaFailure reader.Answer
  | .listProjects index => lookProjects json index
  | .listProjectFiles index normalized => lookProjectFiles json index normalized
  | .listIndexPages => lookEach indexPrefix (lookFreshness json)
  | .scanIndexPages => lookEach indexPrefix (lookSummary json)
  | .scanIndexRecords => lookEach indexPrefix (lookRecord indexPrefix)
  | .scanUploadRecords => lookEach uploadPrefix (lookRecord uploadPrefix)
  | .listUploadEntries index normalized => do
    let start := projectUploadsPrefix index normalized
    return (← lookEach start (lookEntry start)).filterMap id

theorem areLooks_each {β : Type} (start : Str) {f : Str → Calls MetaFailure β}
    {g : Str → Looks MetaFailure β} (h : ∀ key, AreLooks (f key) (g key)) :
    AreLooks (keysCall start >>= fun keys => keys.mapM f) (lookEach start g) :=
  (areLooks_keysCall start).bind fun keys => areLooks_mapM keys h

theorem areLooks_visitUnprefixed (start : Str) :
    AreLooks (visitUnprefixed start) (lookUnprefixed start) :=
  (areLooks_visitCall start).bind fun _ => areLooks_pure _

theorem areLooks_listProjects (index : Str) :
    AreLooks (listProjects json.toGenerationJson index) (lookProjects json index) := by
  refine (areLooks_visitUnprefixed _).bind fun rows => ?_
  refine (areLooks_stateCall (catalogSpace json.toGenerationJson index)).bind fun state => ?_
  dsimp only
  cases state.active with
  | none => exact (areLooks_pure []).bind fun listed => areLooks_pure _
  | some active => exact (areLooks_visitUnprefixed _).bind fun listed => areLooks_pure _

theorem areLooks_listProjectFiles (index normalized : Str) :
    AreLooks (listProjectFiles json.toGenerationJson index normalized)
      (lookProjectFiles json index normalized) := by
  have hactive : AreLooks (activeProjectGeneration json.toGenerationJson index normalized)
      (lookActive json index normalized) :=
    (areLooks_stateCall _).bind fun state => areLooks_pure state.active
  refine hactive.bind fun active => ?_
  cases active with
  | none => exact areLooks_pure []
  | some active =>
    refine areLooks_each _ fun key => ?_
    exact (areLooks_valueOf key).bind fun raw => areLooks_decoded _

theorem areLooks_readOverlay (key : Str) : AreLooks (readOverlay json key) (lookOverlay json key) := by
  refine (areLooks_getCall _).bind fun found => ?_
  cases found with
  | none => exact areLooks_pure none
  | some raw => exact (areLooks_decoded _).bind fun overlay => areLooks_pure (some overlay)

theorem Reader.areLooks (reader : Reader) : AreLooks (reader.calls json) (reader.looks json) := by
  cases reader with
  | listProjects index => exact areLooks_listProjects json index
  | listProjectFiles index normalized => exact areLooks_listProjectFiles json index normalized
  | listIndexPages =>
    refine areLooks_each indexPrefix fun key => ?_
    refine (areLooks_readOverlay json _).bind fun found => ?_
    cases found with
    | none =>
      refine (areLooks_valueOf key).bind fun raw => ?_
      exact (areLooks_decoded _).bind fun freshness => areLooks_pure _
    | some overlay => exact areLooks_pure _
  | scanIndexPages =>
    refine areLooks_each indexPrefix fun key => ?_
    refine (areLooks_valueOf key).bind fun raw => ?_
    refine (areLooks_decoded _).bind fun summary => ?_
    refine (areLooks_readOverlay json _).bind fun found => ?_
    cases found <;> exact areLooks_pure _
  | scanIndexRecords | scanUploadRecords =>
    exact areLooks_each _ fun key => (areLooks_valueOf key).bind fun raw => areLooks_pure _
  | listUploadEntries index normalized =>
    have hbind : ∀ (start : Str), (lookEach start (lookEntry start) >>= fun found =>
        pure (found.filterMap id) : Looks MetaFailure (List (Str × Bytes))) =
        lookKeys start >>= fun keys => keys.mapM (lookEntry start) >>= fun found =>
          pure (found.filterMap id) := fun start => bind_assoc _ _ _
    show AreLooks _ (lookEach _ _ >>= _)
    rw [hbind]
    refine (areLooks_keysCall _).bind fun keys => ?_
    refine AreLooks.bind (areLooks_mapM keys fun key => ?_) fun found => areLooks_pure _
    exact (areLooks_getCall key).bind fun found => areLooks_pure _

section Alone
variable {rows : Rows}

theorem calm_value {key : Str} (h : rows[key]?.isSome) :
    (lookValue key).Avoids .panicked rows := by
  refine (avoids_look (.row key)).bind fun found hfound => ?_
  have hrow : rows[key]? = found := Except.ok.inj hfound
  cases found with
  | none =>
    rw [hrow] at h
    cases h
  | some raw => exact avoids_pure raw

theorem calm_decoded {α : Type} (found : Option α) : (lookDecoded found).Avoids .panicked rows := by
  cases found with
  | none => exact avoids_throw (by decide)
  | some a => exact avoids_pure a

theorem calm_state {A : Type} (space : GenerationSpace A) :
    (lookState space).Avoids .panicked rows := by
  refine (avoids_look (.row space.stateKey)).bind fun found _ => ?_
  cases found with
  | none => exact avoids_pure _
  | some raw => exact calm_decoded _

theorem calm_each {β : Type} (start : Str) {f : Str → Looks MetaFailure β}
    (h : ∀ key, rows[key]?.isSome → (f key).Avoids .panicked rows) :
    (lookEach start f).Avoids .panicked rows := by
  refine (avoids_look (.keys start)).bind fun keys hkeys => avoids_mapM keys fun key hkey => ?_
  have hunder : keysUnder rows start = keys := Except.ok.inj hkeys
  rw [← hunder] at hkey
  exact h key ((mem_keysUnder rows start key).mp hkey).1

theorem calm_unprefixed (start : Str) : (lookUnprefixed start).Avoids .panicked rows :=
  (avoids_look (.visit start)).bind fun _ _ => avoids_pure _

theorem calm_overlay (key : Str) : (lookOverlay json key).Avoids .panicked rows := by
  refine (avoids_look (.row (freshnessKey key))).bind fun found _ => ?_
  cases found with
  | none => exact avoids_pure none
  | some raw => exact (calm_decoded _).bind fun _ _ => avoids_pure _

theorem Reader.calm (reader : Reader) (rows : Rows) :
    (reader.looks json).Avoids .panicked rows := by
  cases reader with
  | listProjects index =>
    refine (calm_unprefixed _).bind fun found _ => (calm_state _).bind fun state _ => ?_
    dsimp only
    cases state.active with
    | none => exact (avoids_pure []).bind fun _ _ => avoids_pure _
    | some active => exact (calm_unprefixed _).bind fun _ _ => avoids_pure _
  | listProjectFiles index normalized =>
    refine ((calm_state _).bind fun state _ => avoids_pure _).bind fun active _ => ?_
    cases active with
    | none => exact avoids_pure []
    | some active =>
      exact calm_each _ fun key hkey => (calm_value hkey).bind fun raw _ => calm_decoded _
  | listIndexPages =>
    refine calm_each _ fun key hkey => (calm_overlay json _).bind fun found _ => ?_
    cases found with
    | none =>
      refine (calm_value hkey).bind fun raw _ => ?_
      exact (calm_decoded _).bind fun _ _ => avoids_pure _
    | some overlay => exact avoids_pure _
  | scanIndexPages =>
    refine calm_each _ fun key hkey => (calm_value hkey).bind fun raw _ => ?_
    refine (calm_decoded _).bind fun summary _ => (calm_overlay json _).bind fun found _ => ?_
    cases found <;> exact avoids_pure _
  | scanIndexRecords | scanUploadRecords =>
    exact calm_each _ fun key hkey => (calm_value hkey).bind fun raw _ => avoids_pure _
  | listUploadEntries index normalized =>
    refine (calm_each _ fun key _ => ?_).bind fun _ _ => avoids_pure _
    exact (avoids_look (.row key)).bind fun _ _ => avoids_pure _

end Alone
end Readers

section Runs
variable {A E I H : Type} (kind : SyncKind A E I H) (json : PageJson)

/-- A reader that has begun, and the states the store has been in since then. What it has
seen and has still to look at is told apart from what it has left to do. -/
structure Reading (A E H : Type) where
  reader : Reader
  left : Prog Disk (Except (TxnError MetaFailure) reader.Answer)
  seen : List (Sigma Look.Answer)
  ahead : Query Look.Answer (Except MetaFailure reader.Answer)
  passed : List (SyncState A E H)

def SyncState.rows (state : SyncState A E H) : Rows := state.disk.store.rows

def Reading.begin (reader : Reader) (syncs : SyncState A E H) : Reading A E H where
  reader := reader
  left := (reader.calls json).run
  seen := []
  ahead := (reader.looks json).run
  passed := [syncs]

def Reading.advance (reading : Reading A E H) (rows : Rows)
    (left : Prog Disk (Except (TxnError MetaFailure) reading.reader.Answer)) : Reading A E H :=
  { reading with
    left := left
    seen := reading.seen ++ reading.ahead.entry Look.of rows
    ahead := reading.ahead.advance Look.of rows }

/-- What the reader has still to look at stays as it is, or the rows become such that it would
have seen all it has seen. -/
def Reading.Undisturbed (reading : Reading A E H) (now next : Rows) : Prop :=
  Query.Undisturbed Look.of reading.seen reading.ahead now next

instance (reading : Reading A E H) (now next : Rows) : Decidable (reading.Undisturbed now next) :=
  inferInstanceAs (Decidable (Query.Undisturbed _ _ _ _ _))

structure ReadState (A E H : Type) where
  syncs : SyncState A E H
  reading : Option (Reading A E H) := none

inductive ReadStep (allowed : Reading A E H → Rows → Rows → Prop) (state : ReadState A E H) :
    ReadState A E H → Prop
  | begin (reader : Reader) (hfree : state.reading = none) :
    ReadStep allowed state { state with reading := some (.begin json reader state.syncs) }
  | transaction (reading : Reading A E H) (write : Disk → Disk)
    (next : Disk → Prog Disk (Except (TxnError MetaFailure) reading.reader.Answer))
    (hreading : state.reading = some reading) (hleft : reading.left = .step write next) :
    ReadStep allowed state
      { syncs := { state.syncs with disk := write state.syncs.disk }
        reading := some (reading.advance state.syncs.rows (next state.syncs.disk)) }
  | stop : ReadStep allowed state { state with reading := none }
  | writes (syncs : SyncState A E H) (hstep : SyncStep kind state.syncs syncs)
    (hallowed : ∀ reading write next, state.reading = some reading →
      reading.left = .step write next → allowed reading state.syncs.rows syncs.rows) :
    ReadStep allowed state
      { syncs
        reading := state.reading.map fun reading =>
          { reading with passed := syncs :: reading.passed } }

def readerSystem (allowed : Reading A E H → Rows → Rows → Prop) : System (ReadState A E H) where
  start state := (syncSystem kind).start state.syncs ∧ state.reading = none
  step := ReadStep kind json allowed

/-- A reader has answered as it does alone on one of the states that it has passed, in which
the active generation is whole, and no expectation of it has failed. -/
structure ReadState.OneState (state : ReadState A E H) : Prop where
  answered : ∀ reading answer, state.reading = some reading →
    reading.left = .done (answer.mapError .body) →
    ∃ passed ∈ reading.passed, passed.Published kind ∧
      Reads (reading.reader.calls json) passed.rows answer
  expected : ∀ reading, state.reading = some reading →
    reading.left ≠ .done (.error (.body .panicked))

structure Reading.Looking (reading : Reading A E H) (now : Rows) : Prop where
  left : reading.left = lookingCalls reading.ahead
  leads : (reading.reader.looks json).run.Leads reading.seen reading.ahead
  sees : Query.Sees Look.of (reading.reader.looks json).run reading.ahead
    (reading.passed.map SyncState.rows) now

structure ReadState.Sound (state : ReadState A E H) : Prop where
  syncs : (syncSystem kind).Reachable state.syncs
  reading : ∀ reading, state.reading = some reading →
    (∀ passed ∈ reading.passed, (syncSystem kind).Reachable passed) ∧
    (reading.left = .done (.error .store) ∨ reading.Looking json state.syncs.rows)

variable {kind json}

theorem looking_begin (reader : Reader) (syncs : SyncState A E H) :
    (Reading.begin json reader syncs).Looking json syncs.rows where
  left := reader.areLooks json
  leads := .start
  sees := Query.sees_start _ _

theorem Reading.Looking.advance {reading : Reading A E H} {disk : Disk} {write : Disk → Disk}
    {next : Disk → Prog Disk (Except (TxnError MetaFailure) reading.reader.Answer)}
    (h : reading.Looking json disk.store.rows) (hleft : reading.left = .step write next) :
    write disk = disk ∧ (next disk = .done (.error .store) ∨
      (reading.advance disk.store.rows (next disk)).Looking json disk.store.rows) := by
  have hahead := h.left.symm.trans hleft
  cases hask : reading.ahead with
  | done result =>
    rw [hask] at hahead
    cases hahead
  | ask question more =>
    rw [hask] at hahead
    obtain ⟨hwrite, hnext⟩ := Prog.step.inj hahead
    refine ⟨by rw [← hwrite]; rfl, ?_⟩
    by_cases hfault : disk.fault = .never
    · refine .inr ⟨?_, h.leads.advance _, h.sees.advance⟩
      show next disk = lookingCalls (reading.ahead.advance Look.of disk.store.rows)
      rw [hask, ← hnext]
      exact if_pos hfault
    · left
      rw [← hnext]
      exact if_neg hfault

theorem Reading.Looking.write {reading : Reading A E H} {now : Rows} (syncs : SyncState A E H)
    (h : reading.Looking json now)
    (hallowed : ∀ write next, reading.left = .step write next →
      reading.Undisturbed now syncs.rows) :
    Reading.Looking json { reading with passed := syncs :: reading.passed } syncs.rows := by
  have hchange : reading.Undisturbed now syncs.rows := by
    cases hahead : reading.ahead with
    | done result =>
      left
      rw [hahead]
      exact nofun
    | ask question more =>
      exact hallowed _ _ (h.left.trans (congrArg lookingCalls hahead))
  exact ⟨h.left, h.leads, h.sees.change h.leads hchange⟩

theorem readStep_sound {state next : ReadState A E H} (h : state.Sound kind json)
    (hstep : ReadStep kind json Reading.Undisturbed state next) : next.Sound kind json := by
  cases hstep with
  | begin reader hfree =>
    refine ⟨h.syncs, fun reading hreading => ?_⟩
    cases hreading
    refine ⟨fun passed hpassed => ?_, .inr (looking_begin reader state.syncs)⟩
    rw [List.mem_singleton.mp hpassed]
    exact h.syncs
  | transaction reading write after hreading hleft =>
    obtain ⟨hpassed, hfailed | hlooking⟩ := h.reading reading hreading
    · rw [hleft] at hfailed
      cases hfailed
    · obtain ⟨hwrite, hnext⟩ := hlooking.advance hleft
      rw [hwrite]
      refine ⟨h.syncs, fun found hfound => ?_⟩
      cases hfound
      exact ⟨hpassed, hnext⟩
  | stop => exact ⟨h.syncs, nofun⟩
  | writes syncs hsyncs hallowed =>
    have hreach := h.syncs.step _ _ hsyncs
    refine ⟨hreach, fun found hfound => ?_⟩
    obtain ⟨reading, hreading, rfl⟩ := Option.map_eq_some_iff.mp hfound
    obtain ⟨hpassed, hleft⟩ := h.reading reading hreading
    refine ⟨List.forall_mem_cons.mpr ⟨hreach, hpassed⟩, hleft.imp id fun hlooking => ?_⟩
    exact hlooking.write syncs fun write next => hallowed reading write next hreading

theorem readers_sound (state : ReadState A E H)
    (h : (readerSystem kind json Reading.Undisturbed).Reachable state) : state.Sound kind json := by
  refine (readerSystem kind json Reading.Undisturbed).invariant (ReadState.Sound kind json) ?_ ?_
    state h
  · intro state hstart
    refine ⟨.start _ hstart.1, fun reading hreading => ?_⟩
    rw [hstart.2] at hreading
    cases hreading
  · exact fun state next _ hsound hstep => readStep_sound hsound hstep

theorem Reading.Looking.answered {reading : Reading A E H} {now : Rows}
    (h : reading.Looking json now) (answer : Except MetaFailure reading.reader.Answer)
    (hleft : reading.left = .done (answer.mapError .body)) :
    ∃ passed ∈ reading.passed, (reading.reader.looks json).on passed.rows = answer := by
  have hahead := h.left.symm.trans hleft
  obtain ⟨rows, hrows, hsees⟩ := h.sees
  obtain ⟨passed, hpassed, rfl⟩ := List.mem_map.mp hrows
  refine ⟨passed, hpassed, hsees.trans ?_⟩
  cases hask : reading.ahead with
  | ask question more =>
    rw [hask] at hahead
    cases hahead
  | done result =>
    rw [hask] at hahead
    have hsame := Prog.done.inj hahead
    show result = answer
    cases result <;> cases answer <;> cases hsame <;> rfl

theorem readers_oneState (hlawful : kind.Lawful) (state : ReadState A E H)
    (h : (readerSystem kind json Reading.Undisturbed).Reachable state) :
    state.OneState kind json := by
  have hsound := readers_sound state h
  constructor
  · intro reading answer hreading hleft
    obtain ⟨hpassed, hfailed | hlooking⟩ := hsound.reading reading hreading
    · rw [hleft] at hfailed
      cases answer <;> cases hfailed
    · obtain ⟨passed, hmem, hon⟩ := hlooking.answered answer hleft
      refine ⟨passed, hmem, syncs_published hlawful passed (hpassed passed hmem), ?_⟩
      rw [← hon]
      exact (reading.reader.areLooks json).reads passed.rows
  · intro reading hreading hleft
    obtain ⟨hpassed, hfailed | hlooking⟩ := hsound.reading reading hreading
    · rw [hleft] at hfailed
      cases hfailed
    · obtain ⟨passed, hmem, hon⟩ := hlooking.answered (.error .panicked) hleft
      exact reading.reader.calm json passed.rows hon

end Runs

/-- Beside the syncs of a catalog or of a project, whatever the reader. -/
theorem readers_undisturbed (table : CaseMap) (pep : Pep440) (parseUploadTime : Str → Option Int)
    (json : PageJson) (hjson : json.toGenerationJson.Faithful) (index : Str) :
    (∀ state, (readerSystem (catalogKind table json.toGenerationJson index) json
        Reading.Undisturbed).Reachable state →
      state.OneState (catalogKind table json.toGenerationJson index) json) ∧
    ∀ normalized policy state,
      (readerSystem
        (projectKind table json.toGenerationJson pep parseUploadTime index normalized policy) json
        Reading.Undisturbed).Reachable state →
      state.OneState
        (projectKind table json.toGenerationJson pep parseUploadTime index normalized policy) json :=
  ⟨fun state h => readers_oneState (catalogKind_lawful table index hjson) state h,
    fun normalized policy state h => readers_oneState
      (projectKind_lawful table pep parseUploadTime index normalized hjson policy) state h⟩

section Driven
variable {A E I H ε α : Type} {kind : SyncKind A E I H} {json : PageJson}
  {allowed : Reading A E H → Rows → Rows → Prop}

def ReadState.look (state : ReadState A E H) : ReadState A E H :=
  match state.reading with
  | some ⟨reader, .step write next, seen, ahead, passed⟩ =>
    { syncs := { state.syncs with disk := write state.syncs.disk }
      reading := some ((Reading.mk reader (.step write next) seen ahead passed).advance
        state.syncs.rows (next state.syncs.disk)) }
  | _ => state

def ReadState.call (state : ReadState A E H) (call : Calls ε α) : ReadState A E H :=
  let syncs := { state.syncs with disk := (call.run.run state.syncs.disk).2 }
  { syncs
    reading := state.reading.map fun reading => { reading with passed := syncs :: reading.passed } }

theorem look_reachable {state : ReadState A E H}
    (h : (readerSystem kind json allowed).Reachable state) :
    (readerSystem kind json allowed).Reachable state.look := by
  unfold ReadState.look
  split
  · rename_i reader write next seen ahead passed hreading
    exact h.step _ _
      (.transaction ⟨reader, .step write next, seen, ahead, passed⟩ write next hreading rfl)
  · exact h

theorem call_reachable {state : ReadState A E H} (call : Calls ε α)
    (h : (readerSystem kind json allowed).Reachable state)
    (hothers : Disk.Others kind.space.Owns state.syncs.disk (call.run.run state.syncs.disk).2)
    (hallowed : ∀ reading, state.reading = some reading →
      allowed reading state.syncs.rows (state.call call).syncs.rows) :
    (readerSystem kind json allowed).Reachable (state.call call) :=
  h.step _ _ (.writes _ (.others _ hothers) fun reading _ _ hreading _ => hallowed reading hreading)

variable (json) in
def ReadState.begin (state : ReadState A E H) (reader : Reader) : ReadState A E H :=
  { state with reading := some (.begin json reader state.syncs) }

def ReadState.panics (state : ReadState A E H) : Bool :=
  match state.reading with
  | some ⟨_, .done (.error (.body .panicked)), _, _, _⟩ => true
  | _ => false

theorem of_panics {state : ReadState A E H} (h : state.panics = true) :
    ∃ reading, state.reading = some reading ∧ reading.left = .done (.error (.body .panicked)) := by
  unfold ReadState.panics at h
  split at h
  · rename_i reader seen ahead passed hreading
    exact ⟨_, hreading, rfl⟩
  · cases h

def ReadState.names (state : ReadState A E H) : Option (List Str) :=
  match state.reading with
  | some ⟨.listProjects _, .done (.ok names), _, _, _⟩ => some names
  | _ => none

end Driven

namespace ReaderRuns
open CatalogRuns

def place : Place := ⟨str "hosted", str "demo"⟩

def upload : Calls MetaFailure Unit :=
  putUpload place.index place.normalized (str "demo.tar.gz") (str "record")

def deletion : Calls MetaFailure Bool :=
  txnCall (deleteUploadTxn UploadText.json (fun _ => none) place.index place.normalized
    (str "demo.tar.gz") 0)

theorem upload_others (disk : Disk) :
    Disk.Others kind.space.Owns disk (upload.run.run disk).2 :=
  (projectCall_catalog PageText.json UploadText.json (fun _ => none) place _ upload
    (.putUpload _ _)).1 disk

theorem deletion_others (disk : Disk) :
    Disk.Others kind.space.Owns disk (deletion.run.run disk).2 :=
  (projectCall_catalog PageText.json UploadText.json (fun _ => none) place _ deletion
    (.deleteUpload _ _)).1 disk

variable {allowed : Reading CatalogGeneration Str SyncHead → Rows → Rows → Prop}

theorem syncs_reachable {syncs : SyncState CatalogGeneration Str SyncHead}
    (h : (syncSystem kind).Reachable syncs) :
    (readerSystem kind PageText.json allowed).Reachable ⟨syncs, none⟩ := by
  induction h with
  | start syncs hstart => exact .start _ ⟨hstart, rfl⟩
  | step syncs next h hstep ih => exact ih.step _ _ (.writes next hstep nofun)

/-- A scan of the uploads has listed the keys when the only upload is deleted. -/
def panicked : ReadState CatalogGeneration Str SyncHead :=
  (((((ReadState.mk fresh none).call upload).begin PageText.json .scanUploadRecords).look).call
    deletion).look

theorem panicked_reachable :
    (readerSystem kind PageText.json fun _ _ _ => True).Reachable panicked := by
  have hfresh : (readerSystem kind PageText.json fun _ _ _ => True).Reachable ⟨fresh, none⟩ :=
    syncs_reachable fresh_reachable
  have hupload := call_reachable upload hfresh (upload_others _) nofun
  have hbegun := hupload.step _ _ (.begin .scanUploadRecords rfl)
  exact look_reachable (call_reachable deletion (look_reachable hbegun) (deletion_others _)
    fun _ _ => trivial)

def looked : ReadState CatalogGeneration Str SyncHead :=
  ((ReadState.mk published none).begin PageText.json (.listProjects (str "pypi"))).look

/-- A file is uploaded and deleted before the listing looks again. -/
def listed : ReadState CatalogGeneration Str SyncHead :=
  ((((looked.call upload).look).call deletion).look)

theorem all_undisturbed {state : ReadState CatalogGeneration Str SyncHead} {next : Rows}
    (h : state.reading.all (fun reading =>
      decide (reading.Undisturbed state.syncs.rows next)) = true) :
    ∀ reading, state.reading = some reading → reading.Undisturbed state.syncs.rows next := by
  intro reading hreading
  rw [hreading] at h
  exact of_decide_eq_true h

theorem listed_reachable :
    (readerSystem kind PageText.json Reading.Undisturbed).Reachable listed := by
  have hpublished : (readerSystem kind PageText.json Reading.Undisturbed).Reachable
      ⟨published, none⟩ := syncs_reachable published_reachable
  have hlooked : (readerSystem kind PageText.json Reading.Undisturbed).Reachable looked :=
    look_reachable (hpublished.step _ _ (.begin (.listProjects (str "pypi")) rfl))
  have hupload := call_reachable upload hlooked (upload_others _)
    (all_undisturbed (by decide +kernel))
  exact look_reachable (call_reachable deletion (look_reachable hupload) (deletion_others _)
    (all_undisturbed (by decide +kernel)))

end ReaderRuns

open ReaderRuns in
/-- The listing is not disturbed. -/
theorem listing_undisturbed : listed.names = some [str "flask"] ∧
    listed.OneState CatalogRuns.kind PageText.json :=
  ⟨by decide +kernel, (readers_undisturbed CaseMap.caseless wholeVersions (fun _ => none)
    PageText.json PageText.json_faithful (str "pypi")).1 listed listed_reachable⟩

open ReaderRuns in
theorem expectation_fails : ¬ ∀ state,
    (readerSystem CatalogRuns.kind PageText.json fun _ _ _ => True).Reachable state →
      state.OneState CatalogRuns.kind PageText.json := by
  intro hall
  have hpanics : panicked.panics = true := by decide +kernel
  obtain ⟨reading, hreading, hleft⟩ := of_panics hpanics
  exact (hall panicked panicked_reachable).expected reading hreading hleft

end Peryx.Pypi
