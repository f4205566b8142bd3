import Peryx.Replication.Replica
import Peryx.Replication.Syncs

/-!
# A replica follows its primary

A primary runs transactions while syncs of a replica run against whatever its journal holds
at that moment.
-/

namespace Peryx.Replication
open Storage

structure Cluster where
  primary : MetaStore := {}
  /-- The serial and the rows right after each transaction, the latest first. -/
  history : List (Nat × Rows) := []
  replica : Replica := {}

/-- The rows right after the last transaction that ended at or below a serial. -/
def rowsAt : List (Nat × Rows) → Nat → Rows
  | [], _ => ∅
  | (ended, rows) :: earlier, serial => if ended ≤ serial then rows else rowsAt earlier serial

section Runs
variable (encode : ReplicaState → Bytes) (decode : Bytes → Option ReplicaState) (source : Str)
  (shared : Str → Prop)

def Replicates {ε : Type} (body : TxnBody ε) : Prop :=
  ∀ rows ops entries, body rows = .ok (ops, entries) →
    (∀ op ∈ ops, op.KeepsLocal shared) ∧ (entries = [] → ∀ op ∈ ops, op.Unshared shared)

def Served (primary : MetaStore) (after limit : Nat) (page : ChangePage) : Prop :=
  serveChanges source primary after limit = some page

inductive Cluster.Step : Cluster → Cluster → Prop
  | transact (cluster : Cluster) (ε : Type) (expected : Option Nat) (body : TxnBody ε)
      (primary : MetaStore) (hbody : Replicates shared body)
      (h : commitDriverTxnAt cluster.primary expected body = .ok primary) :
      Step cluster
        { cluster with
          primary := primary
          history := (primary.serial, primary.rows) :: cluster.history }
  | replicate (cluster : Cluster) (replica : Replica)
      (h : Replica.Step encode decode (Served source cluster.primary) shared cluster.replica replica) :
      Step cluster { cluster with replica := replica }

def Cluster.system : System Cluster where
  start cluster := cluster = {}
  step := Cluster.Step encode decode source shared

structure Recorded (primary : MetaStore) (history : List (Nat × Rows)) : Prop where
  sequential : primary.Sequential
  rows : ∀ key, shared key → primary.rows[key]? = journaledRow primary primary.serial key
  history : ∀ serial key, shared key →
    (rowsAt history serial)[key]? = journaledRow primary serial key

theorem Recorded.empty : Recorded shared {} [] where
  sequential := MetaStore.Sequential.empty
  rows key _ := Std.ExtTreeMap.getElem?_empty
  history serial key _ := by
    have hnone := journaledRow_of_le {} MetaStore.Sequential.empty serial (Nat.zero_le _) key
    rw [hnone]
    exact Std.ExtTreeMap.getElem?_empty

theorem Recorded.transact {ε : Type} {primary new : MetaStore} {history : List (Nat × Rows)}
    (h : Recorded shared primary history) (expected : Option Nat) (body : TxnBody ε)
    (hbody : Replicates shared body) (hcommit : commitDriverTxnAt primary expected body = .ok new) :
    Recorded shared new ((new.serial, new.rows) :: history) := by
  obtain ⟨_, ops, entries, hops, rfl⟩ := commitDriverTxnAt_ok _ _ _ _ hcommit
  obtain ⟨hlocal, hquiet⟩ := hbody _ _ _ hops
  have hseq := h.sequential.commit _ (ops.foldl TxnOp.stage { table := primary.rows }) entries
  have hrows : ∀ key, shared key →
      (primary.commit (ops.foldl TxnOp.stage { table := primary.rows }) entries).rows[key]? =
        journaledRow (primary.commit (ops.foldl TxnOp.stage { table := primary.rows }) entries)
          (primary.commit (ops.foldl TxnOp.stage { table := primary.rows }) entries).serial key := by
    intro key hkey
    rw [MetaStore.commit_rows, MetaStore.commit_serial]
    by_cases hentries : entries = []
    · have hsame := stageAll_unshared shared ops { table := primary.rows } key hkey (hquiet hentries)
      rw [hsame, hentries]
      exact h.rows key hkey
    · rw [journaledRow_commit_last primary _ entries h.sequential hentries, ← h.rows key hkey]
      exact staged_row shared primary.rows ops key hkey hlocal
  refine ⟨hseq, hrows, ?_⟩
  intro serial key hkey
  rw [rowsAt]
  split
  · rename_i hle
    rw [journaledRow_of_le _ hseq serial hle]
    exact hrows key hkey
  · rename_i hlt
    rw [MetaStore.commit_serial] at hlt
    rw [journaledRow_commit_of_lt primary _ entries serial (Nat.lt_of_not_le hlt)]
    exact h.history serial key hkey

structure Copies (primary : MetaStore) (after : Nat) (page : ValidatedPage) : Prop where
  known : after + page.journal.length ≤ primary.serial
  journal : ∀ i < page.journal.length, page.journal[i]? = primary.journal[after + 1 + i]?
  metadata : ∀ key : Str, page.metadata[key]? =
    lastEffect (mutationsAfter primary after page.journal.length) key

theorem Copies.extends {primary new : MetaStore} {after : Nat} {page : ValidatedPage}
    (h : Copies primary after page) (hnew : new.Extends primary) : Copies new after page where
  known := Nat.le_trans h.known hnew.serial
  journal i hi := by
    have hknown := h.known
    rw [hnew.journal _ (by omega)]
    exact h.journal i hi
  metadata key := by
    have hknown := h.known
    have hsame : mutationsAfter new after page.journal.length =
        mutationsAfter primary after page.journal.length := by
      unfold mutationsAfter
      apply List.flatMap_congr
      intro s hs
      rw [List.mem_range'_1] at hs
      unfold mutationsAt
      rw [hnew.mutations s (by omega)]
    rw [hsame]
    exact h.metadata key

theorem served_change (primary : MetaStore) (after limit : Nat) (page : ChangePage)
    (h : Served source primary after limit page) : page.currentSerial = primary.serial ∧
      ∀ change ∈ page.changes, primary.journal[change.serial]? = some change.event ∧
        change.metadata = mutationsAt primary change.serial := by
  unfold Served serveChanges at h
  split at h
  · cases h
  · cases h
    refine ⟨rfl, ?_⟩
    intro change hchange
    obtain ⟨record, hrecord, rfl⟩ := List.mem_map.mp hchange
    obtain ⟨entry, hentry, rfl⟩ := List.mem_map.mp hrecord
    have hmem := (List.mem_filter.mp (List.mem_of_mem_take hentry)).1
    exact ⟨Std.ExtTreeMap.mem_toList_iff_getElem?_eq_some.mp hmem, rfl⟩

theorem copies_of_served (primary : MetaStore) (after limit : Nat) (page : ChangePage)
    (state : Option ReplicaState) (validated : ValidatedPage)
    (hserved : Served source primary after limit page)
    (h : ValidatedPage.new page after limit state = .ok validated) :
    Copies primary after validated := by
  obtain ⟨hcurrent, hchange⟩ := served_change source primary after limit page hserved
  obtain ⟨hpage, hkept⟩ := ValidatedPage.new_ok page after limit state validated h
  have hlength : validated.journal.length = page.changes.length := by
    rw [hkept.journal, List.length_map]
  refine ⟨?_, ?_, ?_⟩
  · rw [hlength, ← hcurrent]
    exact hpage.current
  · intro i hi
    rw [hlength] at hi
    have hserial : page.changes[i].serial = after + 1 + i := by
      have hith := congrArg (·[i]?) hpage.contiguous
      simp only [List.getElem?_map, List.getElem?_eq_getElem hi, Option.map_some] at hith
      rw [List.getElem?_range' hi, Nat.one_mul] at hith
      exact Option.some.inj hith
    rw [hkept.journal, List.getElem?_map, List.getElem?_eq_getElem hi, ← hserial,
      (hchange _ (List.getElem_mem hi)).1]
    rfl
  · intro key
    have hmutations : page.mutations = mutationsAfter primary after validated.journal.length := by
      unfold mutationsAfter ChangePage.mutations
      rw [hlength, ← hpage.contiguous, List.flatMap_map]
      exact List.flatMap_congr fun change hmem => (hchange change hmem).2
    rw [hkept.metadata.last, hmutations]

structure Mirrors (primary : MetaStore) (replica : Replica) : Prop where
  sequential : replica.store.Sequential
  behind : replica.store.serial ≤ primary.serial
  journal : ∀ s ≤ replica.store.serial, replica.store.journal[s]? = primary.journal[s]?
  rows : ∀ key, shared key → reserved key = false →
    replica.store.rows[key]? = journaledRow primary replica.store.serial key
  pages : ∀ after page, Sync.validated after page ∈ replica.syncs → Copies primary after page

theorem Mirrors.empty : Mirrors shared {} {} where
  sequential := MetaStore.Sequential.empty
  behind := Nat.le_refl _
  journal _ _ := rfl
  rows _ _ _ := Std.ExtTreeMap.getElem?_empty
  pages := nofun

theorem Mirrors.extends {primary new : MetaStore} {replica : Replica}
    (h : Mirrors shared primary replica) (hnew : new.Extends primary) : Mirrors shared new replica where
  sequential := h.sequential
  behind := Nat.le_trans h.behind hnew.serial
  journal s hs := (h.journal s hs).trans (hnew.journal s (Nat.le_trans hs h.behind)).symm
  rows key hkey hopen := by
    rw [journaledRow_of_extends hnew _ h.behind]
    exact h.rows key hkey hopen
  pages after page hpage := (h.pages after page hpage).extends hnew

theorem Mirrors.withSyncs {primary : MetaStore} {replica : Replica} (h : Mirrors shared primary replica)
    (syncs : List Sync)
    (hpages : ∀ after page, Sync.validated after page ∈ syncs → Copies primary after page) :
    Mirrors shared primary { replica with syncs := syncs } :=
  ⟨h.sequential, h.behind, h.journal, h.rows, hpages⟩

theorem Mirrors.set {primary : MetaStore} {replica : Replica} (h : Mirrors shared primary replica)
    (i : Nat) (sync : Sync)
    (hsync : ∀ after page, Sync.validated after page = sync → Copies primary after page) :
    Mirrors shared primary { replica with syncs := replica.syncs.set i sync } := by
  apply h.withSyncs
  intro after page hpage
  rcases List.mem_or_eq_of_mem_set hpage with hold | hnew
  · exact h.pages after page hold
  · exact hsync after page hnew

theorem Mirrors.erase {primary : MetaStore} {replica : Replica} (h : Mirrors shared primary replica)
    (i : Nat) : Mirrors shared primary { replica with syncs := replica.syncs.eraseIdx i } :=
  h.withSyncs shared _ fun after page hpage => h.pages after page (List.mem_of_mem_eraseIdx hpage)

theorem Mirrors.commit {primary : MetaStore} {replica : Replica} (h : Mirrors shared primary replica)
    (i after : Nat) (page : ValidatedPage) (store : MetaStore) (applied : List Nat)
    (hpage : Copies primary after page) (hcommit : commitPage encode replica.store after page = .ok store) :
    Mirrors shared primary
      { store := store, syncs := replica.syncs.eraseIdx i, applied := applied } := by
  have hpages : ∀ after page, Sync.validated after page ∈ replica.syncs.eraseIdx i →
      Copies primary after page :=
    fun after page hmem => h.pages after page (List.mem_of_mem_eraseIdx hmem)
  rcases commitPage_ok encode _ _ _ _ hcommit with ⟨_, hsame⟩ | ⟨hjournal, hserial, hnew⟩
  · subst hsame
    exact ⟨h.sequential, h.behind, h.journal, h.rows, hpages⟩
  · subst hserial hnew
    refine ⟨h.sequential.commit _ _ _, ?_, ?_, ?_, hpages⟩
    · rw [MetaStore.commit_serial]
      exact hpage.known
    · intro s hs
      rw [MetaStore.commit_serial] at hs
      rw [MetaStore.commit_journal]
      split
      · rename_i hin
        have hindex : replica.store.serial + 1 + (s - replica.store.serial - 1) = s := by omega
        rw [hpage.journal _ (by omega), hindex]
      · exact h.journal s (by omega)
    · intro key hkey hopen
      have hother : replicaStateKey ≠ key := by
        rintro rfl
        exact absurd hopen (by decide)
      rw [MetaStore.commit_rows, MetaStore.commit_serial, stage_page, if_neg hother,
        hpage.metadata, h.rows key hkey hopen, journaledRow_add]

theorem Mirrors.step {primary : MetaStore} {replica next : Replica}
    (h : Mirrors shared primary replica)
    (hstep : Replica.Step encode decode (Served source primary) shared replica next) :
    Mirrors shared primary next := by
  cases hstep with
  | openState state _ =>
    apply h.withSyncs
    intro after page hpage
    rcases List.mem_cons.mp hpage with heq | hpage
    · cases heq
    · exact h.pages after page hpage
  | check i state _ _ => exact h.set shared i _ nofun
  | receive i state limit page validated _ hserved hvalid =>
    apply h.set
    intro after kept heq
    cases heq
    exact copies_of_served source primary _ limit page state validated hserved hvalid
  | commit i after page store hsync hcommit =>
    exact h.commit encode shared i after page store _ (h.pages after page (List.mem_of_getElem? hsync))
      hcommit
  | stop i => exact h.erase shared i
  | unjournaled ops store hops hcommit =>
    obtain ⟨hstore, hrows⟩ := local_commit shared replica.store ops store hops hcommit
    have hserial : store.serial = replica.store.serial := by rw [hstore]
    have hsame : ∀ s : Nat, store.journal[s]? = replica.store.journal[s]? := fun s => by rw [hstore]
    refine ⟨?_, ?_, ?_, ?_, h.pages⟩
    · rw [hstore]
      exact ⟨h.sequential.journal, h.sequential.mutations, h.sequential.blobs⟩
    · rw [hserial]
      exact h.behind
    · intro s hs
      rw [hsame]
      exact h.journal s (hserial ▸ hs)
    · intro key hkey hopen
      rw [hserial, hrows key (Or.inl hkey)]
      exact h.rows key hkey hopen

theorem Cluster.reachable_mirrors (cluster : Cluster)
    (h : (Cluster.system encode decode source shared).Reachable cluster) :
    Recorded shared cluster.primary cluster.history ∧ Mirrors shared cluster.primary cluster.replica := by
  apply (Cluster.system encode decode source shared).invariant
    (fun cluster => Recorded shared cluster.primary cluster.history ∧
      Mirrors shared cluster.primary cluster.replica) _ _ cluster h
  · rintro cluster rfl
    exact ⟨Recorded.empty shared, Mirrors.empty shared⟩
  · rintro cluster next - ⟨hprimary, hreplica⟩ hstep
    cases hstep with
    | transact ε expected body primary hbody hcommit =>
      refine ⟨hprimary.transact shared expected body hbody hcommit, hreplica.extends shared ?_⟩
      obtain ⟨_, ops, entries, _, rfl⟩ := commitDriverTxnAt_ok _ _ _ _ hcommit
      exact MetaStore.commit_extends _ _ _
    | replicate replica hstep =>
      exact ⟨hprimary, hreplica.step encode decode source shared hstep⟩

/-- The replica's shared rows are the primary's right after the last transaction at or
below the replica's serial, and its journal is the primary's up to that serial. -/
theorem replica_converges (cluster : Cluster)
    (h : (Cluster.system encode decode source shared).Reachable cluster) :
    (∀ key, shared key → reserved key = false → cluster.replica.store.rows[key]? =
      (rowsAt cluster.history cluster.replica.store.serial)[key]?) ∧
    ∀ s : Nat, cluster.replica.store.journal[s]? =
      if s ≤ cluster.replica.store.serial then cluster.primary.journal[s]? else none := by
  obtain ⟨hprimary, hreplica⟩ := Cluster.reachable_mirrors encode decode source shared cluster h
  constructor
  · intro key hkey hopen
    rw [hprimary.history _ key hkey]
    exact hreplica.rows key hkey hopen
  · intro s
    split
    · rename_i hs
      exact hreplica.journal s hs
    · rename_i hs
      have hnone := mt (hreplica.sequential.journal s).mp fun hbound => hs hbound.2
      exact Option.not_isSome_iff_eq_none.mp hnone

end Runs

def sampleBody : TxnBody Empty := fun _ => .ok ([.put (str "simple/a") [1]], [[10], [11]])

def samplePrimary : MetaStore :=
  MetaStore.commit {} (TxnOp.stage { table := ∅ } (.put (str "simple/a") [1])) [[10], [11]]

def sampleValidated : ValidatedPage := ⟨str "primary", 1, 2, [[10]], ∅, ∅⟩

def sampleReplica : Replica where
  store := MetaStore.commit {}
    ((pageOps encodeState sampleValidated).foldl TxnOp.stage { table := ∅ }) [[10]]
  applied := [1]

def sampleCluster : Cluster := ⟨samplePrimary, [(2, samplePrimary.rows)], sampleReplica⟩

abbrev sampleSystem : System Cluster :=
  Cluster.system encodeState decodeState (str "primary") (· = str "simple/a")

theorem sampleCluster_reachable : sampleSystem.Reachable sampleCluster := by
  have hbody : Replicates (· = str "simple/a") sampleBody := by
    rintro rows ops entries h
    cases h
    refine ⟨?_, nofun⟩
    intro op hop
    rw [List.mem_singleton.mp hop]
    trivial
  have hstart : sampleSystem.Reachable { primary := {} } := .start _ rfl
  have htransact : sampleSystem.Reachable ⟨samplePrimary, [(2, samplePrimary.rows)], {}⟩ :=
    .step _ _ hstart (.transact { primary := {} } Empty none sampleBody samplePrimary hbody rfl)
  have hopen : sampleSystem.Reachable
      ⟨samplePrimary, [(2, samplePrimary.rows)], { syncs := [.opened none] }⟩ :=
    .step _ _ htransact (.replicate _ _ (.openState {} none rfl))
  have hcheck : sampleSystem.Reachable
      ⟨samplePrimary, [(2, samplePrimary.rows)], { syncs := [.ready none] }⟩ :=
    .step _ _ hopen (.replicate _ _ (.check { syncs := [.opened none] } 0 none rfl rfl))
  have hserved : Served (str "primary") samplePrimary 0 1
      ⟨1, str "primary", 0, 2, [⟨1, [10], [], []⟩]⟩ := by
    show _ = _
    decide
  have hreceive : sampleSystem.Reachable
      ⟨samplePrimary, [(2, samplePrimary.rows)], { syncs := [.validated 0 sampleValidated] }⟩ :=
    .step _ _ hcheck (.replicate _ _ (.receive { syncs := [.ready none] } 0 none 1 _
      sampleValidated rfl hserved rfl))
  exact .step _ _ hreceive (.replicate _ _
    (.commit { syncs := [.validated 0 sampleValidated] } 0 0 sampleValidated sampleReplica.store rfl rfl))

theorem sampleCluster_converges :
    (∀ key, key = str "simple/a" → reserved key = false → sampleCluster.replica.store.rows[key]? =
      (rowsAt sampleCluster.history sampleCluster.replica.store.serial)[key]?) ∧
    ∀ s : Nat, sampleCluster.replica.store.journal[s]? =
      if s ≤ sampleCluster.replica.store.serial then sampleCluster.primary.journal[s]? else none :=
  replica_converges encodeState decodeState (str "primary") (· = str "simple/a") sampleCluster
    sampleCluster_reachable

example : samplePrimary.rows[str "simple/a"]? = some [1] ∧
    sampleReplica.store.rows[str "simple/a"]? = none := by decide

end Peryx.Replication
