import Peryx.Replication.Replica
import Peryx.Replication.Syncs

/-! # Whatever a primary answers -/

namespace Peryx.Replication
open Storage

def Present (sha256 : Bytes → Str) (blobs : BlobStore) (digest : Str) (size : Nat) : Prop :=
  ∃ content, blobs[digest]? = some content ∧ content.length = size ∧ sha256 content = digest

section Blobs
variable (sha256 : Bytes → Str) (download : Str → Option BlobStream)

theorem receiveBlob_ensures (digest : Str) (size : Nat) (received : Bytes) (stream : BlobStream) :
    Ensures AnyError (receiveBlob digest size received stream) fun content => content.length = size := by
  induction stream generalizing received with
  | nil =>
    apply Ensures.ite (fun _ => Ensures.error id)
    intro hsize
    exact Ensures.pure (not_not.mp hsize)
  | cons item rest ih =>
    cases item with
    | none => exact Ensures.error id
    | some chunk =>
      apply Ensures.ite (fun _ => Ensures.error id)
      intro _
      exact ih (received ++ chunk)

theorem fetchBlob_ensures (store : BlobStore) (digest : Str) (size : Nat) :
    Ensures AnyError (fetchBlob sha256 download store digest size) fun out =>
      Present sha256 out.2 digest size ∧
        ∀ (other : Str) (content : Bytes), store[other]? = some content →
          out.2[other]? = some content := by
  unfold fetchBlob
  cases hstored : store[digest]? with
  | some content =>
    simp only
    apply Ensures.ite (fun _ => Ensures.error id)
    intro hsize
    apply Ensures.ite (fun _ => Ensures.error id)
    intro hdigest
    exact Ensures.pure
      ⟨⟨content, hstored, not_not.mp hsize, not_not.mp hdigest⟩, fun _ _ hother => hother⟩
  | none =>
    simp only
    cases download digest with
    | none => exact Ensures.error id
    | some stream =>
      have hreceived := receiveBlob_ensures digest size [] stream
      simp only
      cases hcontent : receiveBlob digest size [] stream with
      | error error => exact Ensures.error id
      | ok content =>
        rw [hcontent] at hreceived
        simp only
        apply Ensures.ite (fun _ => Ensures.error id)
        intro hdigest
        have hinsert : ∀ other : Str, (store.insert digest content)[other]? =
            if digest = other then some content else store[other]? :=
          fun other => Table.getElem?_set store digest other (some content)
        refine Ensures.pure ⟨⟨content, ?_, hreceived, not_not.mp hdigest⟩, ?_⟩
        · rw [hinsert, if_pos rfl]
        · intro other old hother
          have hne : digest ≠ other := by
            rintro rfl
            rw [hstored] at hother
            cases hother
          rw [hinsert, if_neg hne]
          exact hother

theorem fetchBlobs_ok (wanted : List (Str × Nat)) (fetched count : Nat) (store new : BlobStore)
    (h : fetchBlobs sha256 download wanted fetched store = (.ok count, new)) :
    (∀ blob ∈ wanted, Present sha256 new blob.1 blob.2) ∧
      ∀ (other : Str) (content : Bytes), store[other]? = some content →
        new[other]? = some content := by
  induction wanted generalizing fetched store with
  | nil =>
    cases h
    exact ⟨nofun, fun _ _ hother => hother⟩
  | cons blob rest ih =>
    have hround := fetchBlob_ensures sha256 download store blob.1 blob.2
    rw [fetchBlobs] at h
    cases hfetch : fetchBlob sha256 download store blob.1 blob.2 with
    | error error =>
      rw [hfetch] at h
      cases h
    | ok out =>
      obtain ⟨more, middle⟩ := out
      rw [hfetch] at h hround
      obtain ⟨⟨content, hstored, hcontent⟩, hkept⟩ := hround
      obtain ⟨hrest, hlater⟩ := ih _ middle h
      refine ⟨?_, fun other old hother => hlater other old (hkept other old hother)⟩
      intro other hother
      rcases List.mem_cons.mp hother with rfl | hother
      · exact ⟨content, hlater _ content hstored, hcontent⟩
      · exact hrest other hother

end Blobs

section Sync
variable (sha256 : Bytes → Str) (encode : ReplicaState → Bytes)
  (decode : Bytes → Option ReplicaState)

/-- The store after a page: its events after the old journal, its last word on every key,
and the cursor at its last serial. An empty page changes nothing. -/
structure Applied (page : ChangePage) (store new : MetaStore) : Prop where
  serial : new.serial = store.serial + page.changes.length
  journal : ∀ s : Nat, new.journal[s]? =
    if store.serial < s ∧ s ≤ store.serial + page.changes.length then
      (page.changes[s - store.serial - 1]?).map Change.event
    else store.journal[s]?
  rows : ∀ key : Str, new.rows[key]? =
    if page.changes = [] then store.rows[key]?
    else if replicaStateKey = key then
      some (encode ⟨page.source, store.serial + page.changes.length⟩)
    else (lastEffect page.mutations key).getD store.rows[key]?

structure Justified (primary : Primary) (limit : Nat) (store new : MetaStore) (blobs : BlobStore)
    (state : Option ReplicaState) (page : ChangePage) : Prop where
  read : readState decode store.rows = .ok state
  cursor : cursorOf state = store.serial
  answered : primary.changes store.serial limit = some page
  acceptable : Acceptable page store.serial limit state
  present : ∀ blob ∈ page.references, Present sha256 blobs blob.sha256 blob.size
  applied : Applied encode page store new

theorem applied_of_commit (page : ChangePage) (store new : MetaStore) (validated : ValidatedPage)
    (hkept : validated.Of page store.serial)
    (h : commitPage encode store store.serial validated = .ok new) : Applied encode page store new := by
  rcases commitPage_ok encode _ _ _ _ h with ⟨hempty, rfl⟩ | ⟨hjournal, _, rfl⟩
  · have hnone : page.changes = [] := by
      rw [hkept.journal, List.map_eq_nil_iff] at hempty
      exact hempty
    refine ⟨?_, ?_, ?_⟩
    · rw [hnone]
      rfl
    · intro s
      rw [if_neg]
      rw [hnone, List.length_nil]
      omega
    · intro key
      rw [if_pos hnone]
  · have hsome : page.changes ≠ [] := by
      rintro hnone
      rw [hkept.journal, hnone] at hjournal
      exact hjournal rfl
    refine ⟨?_, ?_, ?_⟩
    · rw [MetaStore.commit_serial, hkept.journal, List.length_map]
    · intro s
      rw [MetaStore.commit_journal, hkept.journal, List.length_map, List.getElem?_map]
    · intro key
      rw [MetaStore.commit_rows, stage_page, if_neg hsome, hkept.source, hkept.through,
        hkept.metadata.last]

/-- A call that fails leaves the store alone; one that succeeds is justified. -/
def Settled (primary : Primary) (limit : Nat) (store : MetaStore) :
    Except SyncError SyncOutcome × MetaStore × BlobStore → Prop
  | (.error _, new, _) => new = store
  | (.ok _, new, held) =>
    ∃ state page, Justified sha256 encode decode primary limit store new held state page

theorem syncOnce_settled (primary : Primary) (limit : Nat) (store : MetaStore) (blobs : BlobStore) :
    Settled sha256 encode decode primary limit store
      (syncOnce sha256 encode decode primary limit store blobs) := by
  unfold syncOnce
  cases hstate : readState decode store.rows with
  | error error => exact rfl
  | ok state =>
    simp only
    cases hcheck : checkCursor state store.serial with
    | error error => exact rfl
    | ok _ =>
      have hcursor : cursorOf state = store.serial := by
        unfold checkCursor at hcheck
        split at hcheck
        · cases hcheck
        · rename_i hserial
          exact (not_not.mp hserial).symm
      simp only [hcursor]
      cases hpage : primary.changes store.serial limit with
      | none => exact rfl
      | some page =>
        simp only
        cases hvalid : ValidatedPage.new page store.serial limit state with
        | error error => exact rfl
        | ok validated =>
          obtain ⟨hacceptable, hkept⟩ := ValidatedPage.new_ok page _ limit state validated hvalid
          simp only
          rcases hfetch : fetchBlobs sha256 primary.blob validated.blobs.toList 0 blobs with
            ⟨result, held⟩
          cases result with
          | error error => exact rfl
          | ok fetched =>
            simp only
            cases hcommit : commitPage encode store store.serial validated with
            | error error => exact rfl
            | ok new =>
              refine ⟨state, page, hstate, hcursor, hpage, hacceptable, ?_, ?_⟩
              · intro blob hblob
                apply (fetchBlobs_ok sha256 primary.blob _ 0 fetched blobs held hfetch).1
                  (blob.sha256, blob.size)
                exact Std.ExtTreeMap.mem_toList_iff_getElem?_eq_some.mpr
                  (hkept.blobs.listed blob hblob)
              · exact applied_of_commit encode page store new validated hkept hcommit

end Sync

section Runs
variable (sha256 : Bytes → Str) (encode : ReplicaState → Bytes)
  (decode : Bytes → Option ReplicaState) (answers : Nat → Nat → ChangePage → Prop)
  (shared : Str → Prop)

theorem Replica.reachable_consistent (hcodec : ∀ state, decode (encode state) = some state)
    (replica : Replica) (h : (Replica.system encode decode answers shared).Reachable replica) :
    ∃ now, replica.Consistent decode now := by
  apply (Replica.system encode decode answers shared).invariant
    (fun replica => ∃ now, replica.Consistent decode now) _ _ replica h
  · rintro replica rfl
    exact ⟨none, Replica.Consistent.empty decode⟩
  · rintro replica next - ⟨now, hnow⟩ hstep
    obtain ⟨later, _, _, hlater⟩ := hnow.step encode decode answers shared hcodec hstep
    exact ⟨later, hlater⟩

theorem Replica.Consistent.run (hcodec : ∀ state, decode (encode state) = some state)
    {replica later : Replica} {now : Option ReplicaState} (h : replica.Consistent decode now)
    (hrun : Relation.ReflTransGen (Replica.Step encode decode answers shared) replica later) :
    ∃ last, Keeps now last ∧ later.store.Extends replica.store ∧ later.Consistent decode last := by
  induction hrun with
  | refl => exact ⟨now, Keeps.refl now, MetaStore.Extends.refl _, h⟩
  | tail _ hstep ih =>
    obtain ⟨middle, hkeeps, hextends, hmiddle⟩ := ih
    obtain ⟨last, hkeeps', hextends', hlast⟩ := hmiddle.step encode decode answers shared hcodec hstep
    exact ⟨last, hkeeps.trans hkeeps', hextends'.trans hextends, hlast⟩

/-- The cursor is the journal's last serial, and the commits took every serial up to it once
and in order. -/
structure Replica.InOrder (replica : Replica) : Prop where
  cursor : ∃ state, readState decode replica.store.rows = .ok state ∧
    cursorOf state = replica.store.serial
  journal : ∀ s : Nat, replica.store.journal[s]?.isSome ↔ 0 < s ∧ s ≤ replica.store.serial
  applied : replica.applied = List.range' 1 replica.store.serial

/-- What the rest of a run leaves as it is: the source, and every journaled serial. -/
structure Replica.Precedes (replica later : Replica) : Prop where
  source : ∀ known, readState decode replica.store.rows = .ok (some known) →
    ∃ current, readState decode later.store.rows = .ok (some current) ∧ current.source = known.source
  serial : replica.store.serial ≤ later.store.serial
  journal : ∀ s ≤ replica.store.serial, later.store.journal[s]? = replica.store.journal[s]?

/-- Whatever a primary answers, a call writes an acceptable page or nothing, and over every
run of concurrent calls the cursor, the source and the serials stay in order. -/
theorem hostile_pages_contained (hcodec : ∀ state, decode (encode state) = some state) :
    (∀ primary limit store blobs, Settled sha256 encode decode primary limit store
      (syncOnce sha256 encode decode primary limit store blobs)) ∧
    ∀ replica, (Replica.system encode decode answers shared).Reachable replica →
      replica.InOrder decode ∧
      ∀ later, Relation.ReflTransGen (Replica.Step encode decode answers shared) replica later →
        replica.Precedes decode later := by
  refine ⟨syncOnce_settled sha256 encode decode, fun replica hreachable => ?_⟩
  obtain ⟨now, hnow⟩ := Replica.reachable_consistent encode decode answers shared hcodec replica
    hreachable
  refine ⟨⟨⟨now, hnow.state, hnow.cursor⟩, hnow.sequential.journal, hnow.applied⟩, ?_⟩
  intro later hrun
  obtain ⟨last, hkeeps, hextends, hlast⟩ := hnow.run encode decode answers shared hcodec hrun
  refine ⟨?_, hextends.serial, hextends.journal⟩
  intro known hknown
  rw [hnow.state] at hknown
  obtain ⟨current, hcurrent, hsource⟩ := hkeeps known (Except.ok.inj hknown)
  refine ⟨current, ?_, hsource⟩
  rw [hlast.state, hcurrent]

end Runs

def rivalPage : ValidatedPage := ⟨str "primary", 1, 1, [[10]], ∅, ∅⟩

def rivalStore : MetaStore :=
  MetaStore.commit {} ((pageOps encodeState rivalPage).foldl TxnOp.stage { table := ∅ }) [[10]]

def rivals : Replica := ⟨rivalStore, [.validated 0 rivalPage], [1]⟩

abbrev rivalSystem : System Replica :=
  Replica.system encodeState decodeState (fun _ _ _ => True) fun _ => False

theorem rivals_reachable : rivalSystem.Reachable rivals := by
  have hstart : rivalSystem.Reachable { store := {} } := .start _ rfl
  have hopen : rivalSystem.Reachable { syncs := [.opened none] } :=
    .step _ _ hstart (.openState { store := {} } none rfl)
  have hopens : rivalSystem.Reachable { syncs := [.opened none, .opened none] } :=
    .step _ _ hopen (.openState { syncs := [.opened none] } none rfl)
  have hcheck : rivalSystem.Reachable { syncs := [.ready none, .opened none] } :=
    .step _ _ hopens (.check { syncs := [.opened none, .opened none] } 0 none rfl rfl)
  have hchecks : rivalSystem.Reachable { syncs := [.ready none, .ready none] } :=
    .step _ _ hcheck (.check { syncs := [.ready none, .opened none] } 1 none rfl rfl)
  have hpage : rivalSystem.Reachable { syncs := [.validated 0 rivalPage, .ready none] } :=
    .step _ _ hchecks (.receive { syncs := [.ready none, .ready none] } 0 none 1
      ⟨1, str "primary", 0, 1, [⟨1, [10], [], []⟩]⟩ rivalPage rfl trivial rfl)
  have hpages : rivalSystem.Reachable
      { syncs := [.validated 0 rivalPage, .validated 0 rivalPage] } :=
    .step _ _ hpage (.receive { syncs := [.validated 0 rivalPage, .ready none] } 1 none 1
      ⟨1, str "primary", 0, 1, [⟨1, [10], [], []⟩]⟩ rivalPage rfl trivial rfl)
  exact .step _ _ hpages (.commit { syncs := [.validated 0 rivalPage, .validated 0 rivalPage] }
    0 0 rivalPage rivalStore rfl rfl)

theorem rivals_contained :
    (∀ primary limit store blobs, Settled (fun _ => []) encodeState decodeState primary limit store
      (syncOnce (fun _ => []) encodeState decodeState primary limit store blobs)) ∧
    rivals.InOrder decodeState :=
  have h := hostile_pages_contained (fun _ => []) encodeState decodeState (fun _ _ _ => True)
    (fun _ => False) decodeState_encodeState
  ⟨h.1, (h.2 rivals rivals_reachable).1⟩

/-- The other call conflicts. -/
example : (commitPage encodeState rivals.store 0 rivalPage).isOk = false := by decide

end Peryx.Replication
