import Mathlib.Logic.Relation
import Peryx.Library.Transition
import Peryx.Replication.Validation

/-!
# Concurrent syncs of one replica

Any number of `sync_once` calls run on one store. Which page a primary returns for a
position and a limit is a parameter: a hostile primary may return any.
-/

namespace Peryx.Replication
open Storage

inductive Sync where
  | opened (state : Option ReplicaState)
  | ready (state : Option ReplicaState)
  | validated (after : Nat) (page : ValidatedPage)

structure Replica where
  store : MetaStore := {}
  syncs : List Sync := []
  applied : List Nat := []

section Step
variable (encode : ReplicaState → Bytes) (decode : Bytes → Option ReplicaState)
  (answers : Nat → Nat → ChangePage → Prop) (shared : Str → Prop)

inductive Replica.Step : Replica → Replica → Prop
  | openState (replica : Replica) (state : Option ReplicaState)
      (h : readState decode replica.store.rows = .ok state) :
      Step replica { replica with syncs := .opened state :: replica.syncs }
  | check (replica : Replica) (i : Nat) (state : Option ReplicaState)
      (hsync : replica.syncs[i]? = some (.opened state))
      (h : checkCursor state replica.store.serial = .ok ()) :
      Step replica { replica with syncs := replica.syncs.set i (.ready state) }
  | receive (replica : Replica) (i : Nat) (state : Option ReplicaState) (limit : Nat)
      (page : ChangePage) (validated : ValidatedPage)
      (hsync : replica.syncs[i]? = some (.ready state))
      (hpage : answers (cursorOf state) limit page)
      (h : ValidatedPage.new page (cursorOf state) limit state = .ok validated) :
      Step replica
        { replica with syncs := replica.syncs.set i (.validated (cursorOf state) validated) }
  | commit (replica : Replica) (i : Nat) (after : Nat) (page : ValidatedPage) (store : MetaStore)
      (hsync : replica.syncs[i]? = some (.validated after page))
      (h : commitPage encode replica.store after page = .ok store) :
      Step replica
        { store := store
          syncs := replica.syncs.eraseIdx i
          applied := replica.applied ++ List.range' (after + 1) page.journal.length }
  | stop (replica : Replica) (i : Nat) :
      Step replica { replica with syncs := replica.syncs.eraseIdx i }
  | unjournaled (replica : Replica) (ops : List TxnOp) (store : MetaStore)
      (hops : ∀ op ∈ ops, op.Unshared fun key => shared key ∨ reserved key)
      (h : commitDriverTxnAt (ε := Empty) replica.store none (fun _ => .ok (ops, [])) = .ok store) :
      Step replica { replica with store := store }

def Replica.system : System Replica where
  start replica := replica = {}
  step := Replica.Step encode decode answers shared

theorem local_commit (store : MetaStore) (ops : List TxnOp) (new : MetaStore)
    (hops : ∀ op ∈ ops, op.Unshared fun key => shared key ∨ reserved key)
    (h : commitDriverTxnAt (ε := Empty) store none (fun _ => .ok (ops, [])) = .ok new) :
    new = { store with rows := new.rows } ∧
      ∀ key, shared key ∨ reserved key → new.rows[key]? = store.rows[key]? := by
  obtain ⟨_, _, _, hbody, hnew⟩ := commitDriverTxnAt_ok _ _ _ _ h
  cases hbody
  subst hnew
  refine ⟨rfl, fun key hkey => ?_⟩
  rw [MetaStore.commit_rows]
  exact stageAll_unshared (fun key => shared key ∨ reserved key) ops { table := store.rows } key
    hkey hops

def Keeps (state now : Option ReplicaState) : Prop :=
  ∀ known, state = some known → ∃ current, now = some current ∧ current.source = known.source

theorem Keeps.refl (state : Option ReplicaState) : Keeps state state :=
  fun known h => ⟨known, h, rfl⟩

theorem Keeps.trans {a b c : Option ReplicaState} (hab : Keeps a b) (hbc : Keeps b c) :
    Keeps a c := by
  intro known ha
  obtain ⟨middle, hb, hsource⟩ := hab known ha
  obtain ⟨current, hc, hsource'⟩ := hbc middle hb
  exact ⟨current, hc, hsource'.trans hsource⟩

/-- What a running call knows is still so when the state row reads `now`. -/
def Sync.Agrees (now : Option ReplicaState) : Sync → Prop
  | .opened state => Keeps state now
  | .ready state => Keeps state now
  | .validated after page => page.through = after + page.journal.length ∧
      (after = 0 ∨ ∃ current, now = some current ∧ current.source = page.source)

theorem Sync.Agrees.keeps {now later : Option ReplicaState} {sync : Sync} (h : sync.Agrees now)
    (hkeeps : Keeps now later) : sync.Agrees later := by
  cases sync with
  | opened state => exact Keeps.trans h hkeeps
  | ready state => exact Keeps.trans h hkeeps
  | validated after page =>
    refine ⟨h.1, h.2.imp_right ?_⟩
    rintro ⟨current, hnow, hsource⟩
    obtain ⟨next, hlater, hsource'⟩ := hkeeps current hnow
    exact ⟨next, hlater, hsource'.trans hsource⟩

structure Replica.Consistent (replica : Replica) (now : Option ReplicaState) : Prop where
  sequential : replica.store.Sequential
  state : readState decode replica.store.rows = .ok now
  cursor : cursorOf now = replica.store.serial
  started : now = none ↔ replica.store.serial = 0
  applied : replica.applied = List.range' 1 replica.store.serial
  syncs : ∀ sync ∈ replica.syncs, sync.Agrees now

theorem Replica.Consistent.empty : Replica.Consistent decode {} none where
  sequential := MetaStore.Sequential.empty
  state := by
    unfold readState
    rw [show ({} : Replica).store.rows[replicaStateKey]? = none from Std.ExtTreeMap.getElem?_empty]
  cursor := rfl
  started := ⟨fun _ => rfl, fun _ => rfl⟩
  applied := rfl
  syncs := nofun

theorem readState_congr {rows other : Rows} (h : rows[replicaStateKey]? = other[replicaStateKey]?) :
    readState decode rows = readState decode other := by
  unfold readState
  rw [h]

theorem Replica.Consistent.withSyncs {replica : Replica} {now : Option ReplicaState}
    (h : replica.Consistent decode now) (syncs : List Sync) (hsyncs : ∀ sync ∈ syncs, sync.Agrees now) :
    Replica.Consistent decode { replica with syncs := syncs } now :=
  ⟨h.sequential, h.state, h.cursor, h.started, h.applied, hsyncs⟩

theorem Replica.Consistent.set {replica : Replica} {now : Option ReplicaState}
    (h : replica.Consistent decode now) (i : Nat) (sync : Sync) (hsync : sync.Agrees now) :
    Replica.Consistent decode { replica with syncs := replica.syncs.set i sync } now := by
  apply h.withSyncs
  intro other hother
  rcases List.mem_or_eq_of_mem_set hother with hold | hnew
  · exact h.syncs other hold
  · rw [hnew]
    exact hsync

theorem Replica.Consistent.erase {replica : Replica} {now : Option ReplicaState}
    (h : replica.Consistent decode now) (i : Nat) :
    Replica.Consistent decode { replica with syncs := replica.syncs.eraseIdx i } now :=
  h.withSyncs decode _ fun sync hsync => h.syncs sync (List.mem_of_mem_eraseIdx hsync)

theorem Sync.Agrees.receive {now state : Option ReplicaState} (hstate : Keeps state now) (limit : Nat)
    (page : ChangePage) (validated : ValidatedPage)
    (h : ValidatedPage.new page (cursorOf state) limit state = .ok validated) :
    (Sync.validated (cursorOf state) validated).Agrees now := by
  obtain ⟨hpage, hkept⟩ := ValidatedPage.new_ok page (cursorOf state) limit state validated h
  constructor
  · rw [hkept.through, hkept.journal, List.length_map]
  · cases state with
    | none => exact Or.inl rfl
    | some known =>
      obtain ⟨current, hnow, hsource⟩ := hstate known rfl
      refine Or.inr ⟨current, hnow, ?_⟩
      rw [hsource, hkept.source]
      exact hpage.source known rfl

theorem Replica.Consistent.commit (hcodec : ∀ state, decode (encode state) = some state)
    {replica : Replica} {now : Option ReplicaState} (h : replica.Consistent decode now) (i after : Nat)
    (page : ValidatedPage) (store : MetaStore) (hpage : (Sync.validated after page).Agrees now)
    (hcommit : commitPage encode replica.store after page = .ok store) :
    ∃ later, Keeps now later ∧ store.Extends replica.store ∧ Replica.Consistent decode
      { store := store
        syncs := replica.syncs.eraseIdx i
        applied := replica.applied ++ List.range' (after + 1) page.journal.length } later := by
  rcases commitPage_ok encode _ _ _ _ hcommit with ⟨hempty, hsame⟩ | ⟨hjournal, hserial, hnew⟩
  · subst hsame
    refine ⟨now, Keeps.refl now, MetaStore.Extends.refl _, ?_⟩
    rw [hempty, List.length_nil, List.range'_zero, List.append_nil]
    exact h.erase decode i
  · obtain ⟨hthrough, hsource⟩ := hpage
    have hpos := List.length_pos_of_ne_nil hjournal
    have hlater : store.serial = after + page.journal.length := by
      rw [hnew, MetaStore.commit_serial, hserial]
    have hkeeps : Keeps now (some ⟨page.source, page.through⟩) := by
      intro known hnow
      refine ⟨_, rfl, ?_⟩
      rcases hsource with hzero | ⟨current, hcurrent, hsource⟩
      · have hnone := h.started.mpr (hserial.trans hzero)
        rw [hnone] at hnow
        cases hnow
      · rw [hnow] at hcurrent
        cases hcurrent
        exact hsource.symm
    refine ⟨some ⟨page.source, page.through⟩, hkeeps, ?_, ?_, ?_, ?_, ?_, ?_, ?_⟩
    · rw [hnew]
      exact MetaStore.commit_extends _ _ _
    · show store.Sequential
      rw [hnew]
      exact h.sequential.commit _ _ _
    · have hrow : store.rows[replicaStateKey]? = some (encode ⟨page.source, page.through⟩) := by
        rw [hnew, MetaStore.commit_rows, stage_page, if_pos rfl]
      unfold readState
      rw [hrow]
      simp only [hcodec]
    · show page.through = store.serial
      rw [hlater, hthrough]
    · refine ⟨nofun, fun hzero => ?_⟩
      replace hzero : store.serial = 0 := hzero
      omega
    · show replica.applied ++ List.range' (after + 1) page.journal.length = List.range' 1 store.serial
      rw [h.applied, hserial, hlater, Nat.add_comm after 1]
      have happend : List.range' 1 after ++ List.range' (1 + 1 * after) page.journal.length =
          List.range' 1 (after + page.journal.length) := List.range'_append
      rw [Nat.one_mul] at happend
      exact happend
    · intro sync hsync
      exact (h.syncs sync (List.mem_of_mem_eraseIdx hsync)).keeps hkeeps

theorem Replica.Consistent.step (hcodec : ∀ state, decode (encode state) = some state)
    {replica next : Replica} {now : Option ReplicaState} (h : replica.Consistent decode now)
    (hstep : Replica.Step encode decode answers shared replica next) :
    ∃ later, Keeps now later ∧ next.store.Extends replica.store ∧ next.Consistent decode later := by
  have hstay : ∀ next : Replica, next.store = replica.store → next.Consistent decode now →
      ∃ later, Keeps now later ∧ next.store.Extends replica.store ∧ next.Consistent decode later := by
    intro next hstore hnext
    refine ⟨now, Keeps.refl now, ?_, hnext⟩
    rw [hstore]
    exact MetaStore.Extends.refl _
  cases hstep with
  | openState state hread =>
    refine hstay _ rfl (h.withSyncs decode _ ?_)
    intro sync hsync
    rcases List.mem_cons.mp hsync with rfl | hsync
    · rw [h.state] at hread
      cases hread
      exact Keeps.refl now
    · exact h.syncs sync hsync
  | check i state hsync _ =>
    have hstate : Keeps state now := h.syncs _ (List.mem_of_getElem? hsync)
    exact hstay _ rfl (h.set decode i (.ready state) hstate)
  | receive i state limit page validated hsync _ hpage =>
    have hstate : Keeps state now := h.syncs _ (List.mem_of_getElem? hsync)
    exact hstay _ rfl (h.set decode i _ (Sync.Agrees.receive hstate limit page validated hpage))
  | commit i after page store hsync hcommit =>
    exact h.commit encode decode hcodec i after page store
      (h.syncs _ (List.mem_of_getElem? hsync)) hcommit
  | stop i => exact hstay _ rfl (h.erase decode i)
  | unjournaled ops store hops hcommit =>
    obtain ⟨hstore, hrows⟩ := local_commit shared replica.store ops store hops hcommit
    have hkey := hrows replicaStateKey (Or.inr (by decide))
    refine ⟨now, Keeps.refl now, ?_, ?_, ?_, ?_, ?_, h.applied.trans ?_, h.syncs⟩
    all_goals rw [hstore]
    · exact ⟨Nat.le_refl _, fun _ _ => rfl, fun _ _ => rfl⟩
    · exact ⟨h.sequential.journal, h.sequential.mutations, h.sequential.blobs⟩
    · show readState decode store.rows = .ok now
      rw [readState_congr decode hkey]
      exact h.state
    · exact h.cursor
    · exact h.started

end Step
end Peryx.Replication
