import Mathlib
import Peryx.Storage.QuotaLedger

/-! # Committing and releasing charge nothing -/

/-!
## Recounting a ledger from its reservations

An exact ledger is a function of its live reservations: usage rows, group rows and
the pending table can all be recomputed from the reservation table alone. This is
what every reachable store satisfies.
-/

namespace Peryx.Quota

def liveKeys (key : QuotaReservationRecord → Option IdentityKey) (reservations : Reservations) :
    Finset IdentityKey :=
  reservations.rows.biUnion fun row => match key row.2 with
    | some k => {k}
    | none => ∅

def recount (key : QuotaReservationRecord → Option IdentityKey) (weight : IdentityKey → Nat)
    (reservations : Reservations) (scope : IdentityKey) : QuotaValue where
  committed := ∑ k ∈ (liveKeys key reservations).filter fun k => k.dropLast = scope,
    (share (tally (count key k) reservations) (weight k)).committed
  reserved := ∑ k ∈ (liveKeys key reservations).filter fun k => k.dropLast = scope,
    (share (tally (count key k) reservations) (weight k)).reserved

def digestBytes (reservations : Reservations) (k : IdentityKey) : Nat :=
  (reservations.rows.filter fun row => blobKeyOf row.2 = some k).sup fun row => row.2.bytes

structure Ledger.Recounted (ledger : Ledger) : Prop where
  usage : ∀ repository, usageAt ledger.usage repository = {
    fileBytes := tally (bytesIn repository) ledger.reservation
    accountedBytes := recount blobKeyOf (digestBytes ledger.reservation) ledger.reservation [repository]
    projects := recount projectKeyOf (fun _ => 1) ledger.reservation [repository] }
  blob : ∀ k : IdentityKey, ledger.blob[k]? =
    if k ∈ liveKeys blobKeyOf ledger.reservation then
      some ⟨digestBytes ledger.reservation k, tally (count blobKeyOf k) ledger.reservation⟩
    else none
  project : ∀ k : IdentityKey, ledger.project[k]? =
    if k ∈ liveKeys projectKeyOf ledger.reservation then
      some ⟨tally (count projectKeyOf k) ledger.reservation,
        recount versionKeyOf (fun _ => 1) ledger.reservation k⟩
    else none
  version : ∀ k : IdentityKey, ledger.version[k]? =
    if k ∈ liveKeys versionKeyOf ledger.reservation then
      some (tally (count versionKeyOf k) ledger.reservation)
    else none
  digest : ∀ (id : Nat) (reservation : QuotaReservationRecord),
    ledger.reservation[id]? = some reservation →
    digestBytes ledger.reservation (blobKey reservation.repository reservation.digest) =
      reservation.bytes
  pending : ∀ id : Nat, ledger.pending[id]? = some () ↔
    ∃ reservation, ledger.reservation[id]? = some reservation ∧ reservation.state = .reserved

theorem mem_liveKeys (key : QuotaReservationRecord → Option IdentityKey) (reservations : Reservations)
    (k : IdentityKey) : k ∈ liveKeys key reservations ↔
      ∃ (id : Nat) (reservation : QuotaReservationRecord),
        reservations[id]? = some reservation ∧ key reservation = some k := by
  unfold liveKeys
  rw [Finset.mem_biUnion]
  constructor
  · rintro ⟨⟨id, reservation⟩, hrow, hk⟩
    refine ⟨id, reservation, (Table.mem_rows _ _ _).mp hrow, ?_⟩
    cases hkey : key reservation with
    | none => simp [hkey] at hk
    | some l =>
      simp only [hkey, Finset.mem_singleton] at hk
      rw [hk]
  · rintro ⟨id, reservation, hrow, hk⟩
    exact ⟨(id, reservation), (Table.mem_rows _ _ _).mpr hrow, by simp [hk]⟩

section Group
variable {V : Type} {refs : V → References} {key : QuotaReservationRecord → Option IdentityKey}
  {table : Table IdentityKey V} {reservations : Reservations}

theorem Grouped.row_iff (h : Grouped refs key table reservations) (k : IdentityKey) :
    (∃ v, table[k]? = some v) ↔ k ∈ liveKeys key reservations := by
  rw [mem_liveKeys]
  constructor
  · rintro ⟨v, hv⟩
    apply exists_member k
    rw [← h.references k, hv]
    exact h.live k v hv
  · rintro ⟨id, reservation, hrow, hk⟩
    exact h.row_of_member id reservation k hrow hk

theorem Grouped.row_eq (h : Grouped refs key table reservations) (k : IdentityKey) (row : V)
    (hrow : ∀ v, table[k]? = some v → v = row) :
    table[k]? = if k ∈ liveKeys key reservations then some row else none := by
  cases ht : table[k]? with
  | none =>
    rw [if_neg]
    intro hmem
    obtain ⟨v, hv⟩ := (h.row_iff k).mpr hmem
    rw [ht] at hv
    cases hv
  | some v =>
    rw [if_pos ((h.row_iff k).mp ⟨v, ht⟩), hrow v ht]

theorem Grouped.row_references (h : Grouped refs key table reservations) (k : IdentityKey) (v : V)
    (hv : table[k]? = some v) : refs v = tally (count key k) reservations := by
  have hrefs := h.references k
  rw [hv] at hrefs
  exact hrefs

theorem Grouped.charged_eq (h : Grouped refs key table reservations) (weight : V → Nat)
    (size : IdentityKey → Nat) (hsize : ∀ k v, table[k]? = some v → weight v = size k)
    (scope : IdentityKey) : charged refs weight table scope = recount key size reservations scope := by
  have hsum : ∀ part : QuotaValue → Nat, part 0 = 0 →
      table.total (fun k v =>
        part (if k.dropLast = scope then share (refs v) (weight v) else 0)) =
      ∑ k ∈ (liveKeys key reservations).filter fun k => k.dropLast = scope,
        part (share (tally (count key k) reservations) (size k)) := by
    intro part hzero
    rw [Finset.sum_filter]
    apply Finset.sum_nbij Prod.fst
    · intro row hrow
      exact (h.row_iff row.1).mp ⟨row.2, (Table.mem_rows _ _ _).mp hrow⟩
    · intro a ha b hb hab
      have hva := (Table.mem_rows _ _ _).mp ha
      have hvb := (Table.mem_rows _ _ _).mp hb
      rw [hab, hvb] at hva
      exact Prod.ext hab (Option.some.inj hva).symm
    · intro k hk
      obtain ⟨v, hv⟩ := (h.row_iff k).mpr hk
      exact ⟨(k, v), (Table.mem_rows _ _ _).mpr hv, rfl⟩
    · intro row hrow
      have hv := (Table.mem_rows _ _ _).mp hrow
      dsimp only
      by_cases hscope : row.1.dropLast = scope
      · rw [if_pos hscope, if_pos hscope, h.row_references row.1 row.2 hv, hsize row.1 row.2 hv]
      · rw [if_neg hscope, if_neg hscope, hzero]
  exact QuotaValue.eq_of _ _ (hsum QuotaValue.committed rfl) (hsum QuotaValue.reserved rfl)

end Group

theorem digestBytes_eq (reservations : Reservations) (k : IdentityKey) (n : Nat)
    (hsome : k ∈ liveKeys blobKeyOf reservations)
    (h : ∀ (id : Nat) (reservation : QuotaReservationRecord),
      reservations[id]? = some reservation → blobKeyOf reservation = some k → reservation.bytes = n) :
    digestBytes reservations k = n := by
  unfold digestBytes
  apply le_antisymm
  · apply Finset.sup_le
    intro row hrow
    obtain ⟨hmem, hkey⟩ := Finset.mem_filter.mp hrow
    exact (h row.1 row.2 ((Table.mem_rows _ _ _).mp hmem) hkey).le
  · obtain ⟨id, reservation, hrow, hkey⟩ := (mem_liveKeys _ _ _).mp hsome
    rw [← h id reservation hrow hkey]
    have hmem : (id, reservation) ∈ reservations.rows.filter fun row => blobKeyOf row.2 = some k :=
      Finset.mem_filter.mpr ⟨(Table.mem_rows _ _ _).mpr hrow, hkey⟩
    exact Finset.le_sup (f := fun row : Nat × QuotaReservationRecord => row.2.bytes) hmem

theorem Ledger.Exact.digestBytes_row {ledger : Ledger} (h : ledger.Exact) (k : IdentityKey)
    (row : BlobUsage) (hrow : ledger.blob[k]? = some row) :
    digestBytes ledger.reservation k = row.bytes := by
  apply digestBytes_eq _ k _ ((h.blobs.groups.row_iff k).mp ⟨row, hrow⟩)
  intro id reservation hr hkey
  apply (h.blobs.bytes id reservation hr row _).symm
  rw [Option.some.inj hkey]
  exact hrow

theorem Ledger.Exact.recounted {ledger : Ledger} (h : ledger.Exact) : ledger.Recounted where
  usage := by
    intro repository
    have hfile := h.blobs.fileBytes repository
    have haccounted := h.blobs.accounted repository
    have hprojects := h.projects.projects repository
    rw [h.blobs.groups.charged_eq BlobUsage.bytes (digestBytes ledger.reservation)
      fun k v hv => (h.digestBytes_row k v hv).symm] at haccounted
    rw [h.projects.groups.charged_eq (fun _ => 1) (fun _ => 1) fun _ _ _ => rfl] at hprojects
    rw [← hfile, ← haccounted, ← hprojects]
  blob := by
    intro k
    apply h.blobs.groups.row_eq
    intro v hv
    rw [← h.blobs.groups.row_references k v hv, h.digestBytes_row k v hv]
  project := by
    intro k
    apply h.projects.groups.row_eq
    intro v hv
    have hversions := h.projects.versions k
    rw [hv, h.projects.versionGroups.charged_eq (fun _ => 1) (fun _ => 1) fun _ _ _ => rfl]
      at hversions
    rw [← h.projects.groups.row_references k v hv, ← hversions]
    rfl
  version := by
    intro k
    apply h.projects.versionGroups.row_eq
    intro v hv
    exact h.projects.versionGroups.row_references k v hv
  digest := by
    intro id reservation hrow
    obtain ⟨row, hblob⟩ := h.blobs.groups.row_of_member id reservation _ hrow rfl
    rw [h.digestBytes_row _ row hblob]
    exact h.blobs.bytes id reservation hrow row hblob
  pending := h.pending

section Runs
variable {σ ε : Type}

theorem Ledger.Exact.empty : Ledger.Exact {} := by
  have htally : ∀ weight, tally weight ∅ = 0 := fun weight => sumOver_empty _
  have hgrouped : ∀ {V : Type} (refs : V → References)
      (key : QuotaReservationRecord → Option IdentityKey), Grouped refs key ∅ ∅ := by
    intro V refs key
    constructor
    · intro k
      rw [htally]
      simp [referencesIn]
    · intro k v hv
      simp at hv
  refine ⟨⟨fun repository => ?_, hgrouped _ _, ?_, fun repository => ?_⟩,
    ⟨hgrouped _ _, hgrouped _ _, fun repository => ?_, fun key => ?_⟩, ?_⟩
  · rw [htally]
    simp [usageAt]
    rfl
  · intro id reservation hrow
    simp at hrow
  · rw [charged, sumOver_empty]
    simp [usageAt]
    rfl
  · rw [charged, sumOver_empty]
    simp [usageAt]
    rfl
  · rw [charged, sumOver_empty]
    simp [versionsIn]
  · intro id
    simp

theorem Op.run_spec (store : Store σ) (op : Op σ ε) (h : store.ledger.Exact) (hf : op.Fresh store) :
    (∀ after, op.run store = .ok after → after.ledger.Exact) ∧
      op.run store ≠ .error (.inr .underflow) := by
  have hledger : ∀ {α : Type} (result : Except Fault (α × Ledger)),
      Ensures Bad result (fun out => out.2.Exact) →
      (∀ after : Store σ, onLedger (ε := ε) store result = .ok after → after.ledger.Exact) ∧
        onLedger (ε := ε) store result ≠ .error (.inr .underflow) := by
    intro α result hresult
    cases result with
    | ok out =>
      refine ⟨fun after hafter => ?_, nofun⟩
      cases hafter
      exact hresult
    | error fault =>
      refine ⟨nofun, fun hbad => ?_⟩
      cases hbad
      exact hresult rfl
  cases op with
  | reserve id request limits => exact hledger _ (reserveQuota_ensures h id request limits hf)
  | commit id => exact hledger _ (commitReservation_ensures h id)
  | release id => exact hledger _ (release_ensures h id)
  | repair limit => exact hledger _ (repairAbandoned_ensures h limit)
  | commitDriver id body =>
    have hcommit := commitReservation_ensures h id
    simp only [Op.run, commitDriverTxnWithQuota]
    cases body store.driver with
    | error e => exact ⟨nofun, nofun⟩
    | ok driver =>
      cases hresult : commitReservation store.ledger id with
      | error fault =>
        refine ⟨nofun, fun hbad => ?_⟩
        cases hbad
        exact hcommit.not_bad hresult rfl
      | ok out =>
        obtain ⟨committed, ledger⟩ := out
        cases committed with
        | false => exact ⟨nofun, nofun⟩
        | true =>
          refine ⟨fun after hafter => ?_, nofun⟩
          cases hafter
          exact hcommit.of_ok hresult

theorem reachable_exact (store : Store σ) (h : Reachable ε store) : store.ledger.Exact := by
  induction h with
  | empty driver => exact Ledger.Exact.empty
  | step store op _ hf ih =>
    unfold Op.apply
    cases hrun : op.run store with
    | ok after => exact (Op.run_spec store op ih hf).1 after hrun
    | error _ => exact ih

/-- In every reachable store the tables are the recount of the live reservations,
and no operation from there subtracts below zero. -/
theorem reachable_recounted (store : Store σ) (h : Reachable ε store) :
    store.ledger.Recounted ∧
      ∀ op : Op σ ε, op.Fresh store → op.run store ≠ .error (.inr .underflow) := by
  have hexact := reachable_exact store h
  exact ⟨hexact.recounted, fun op hf => (Op.run_spec store op hexact hf).2⟩

end Runs

def sharedRequest (project : Str) : NewQuotaReservation :=
  ⟨str "r", some project, some (str "1"), str "d", 7, .hosted, 0⟩

def sharedStore : Store Unit :=
  Op.apply (Op.apply (Op.apply ⟨(), {}⟩
    (Op.reserve 1 (sharedRequest (str "a")) {} : Op Unit Empty))
    (Op.reserve 2 (sharedRequest (str "b")) {} : Op Unit Empty))
    (Op.commit 1 : Op Unit Empty)

theorem sharedRequest_fresh : (Op.apply ⟨(), {}⟩
    (Op.reserve 1 (sharedRequest (str "a")) {} : Op Unit Empty)).ledger.reservation[2]? = none := by
  decide

theorem sharedStore_recounted : sharedStore.ledger.Recounted ∧
    ∀ op : Op Unit Empty, op.Fresh sharedStore → op.run sharedStore ≠ .error (.inr .underflow) :=
  reachable_recounted sharedStore
    (.step _ _ (.step _ _ (.step _ _ (.empty ()) rfl) sharedRequest_fresh) trivial)

example : usageAt sharedStore.ledger.usage (str "r") = ⟨⟨7, 7⟩, ⟨7, 0⟩, ⟨1, 1⟩⟩ := by decide

end Peryx.Quota

namespace Peryx.Quota

def QuotaValue.sum (value : QuotaValue) : Nat := value.committed + value.reserved

section Settling

theorem checkedAdd_eq_ok (value amount sum : Nat) :
    checkedAdd value amount = .ok sum ↔ value + amount ≤ u64Max ∧ sum = value + amount := by
  unfold checkedAdd addU64
  by_cases h : value + amount ≤ u64Max
  · simp [h, eq_comm]
  · simp [h]

theorem subtract_eq_ok (value amount difference : Nat) :
    subtract value amount = .ok difference ↔ amount ≤ value ∧ difference = value - amount := by
  unfold subtract
  by_cases h : amount ≤ value
  · simp [h, eq_comm]
  · simp [h]

theorem moveValue_sum (value moved : QuotaValue) (amount : Nat)
    (h : moveValue value amount = .ok moved) : moved.sum = value.sum := by
  obtain ⟨reserved, hreserved, h⟩ := (bind_eq_ok _ _ _).mp h
  obtain ⟨committed, hcommitted, h⟩ := (bind_eq_ok _ _ _).mp h
  cases h
  obtain ⟨hle, rfl⟩ := (subtract_eq_ok _ _ _).mp hreserved
  obtain ⟨_, rfl⟩ := (checkedAdd_eq_ok _ _ _).mp hcommitted
  simp only [QuotaValue.sum]
  omega

theorem subtractValue_sum (value left : QuotaValue) (state : QuotaReservationState) (amount : Nat)
    (h : subtractValue value state amount = .ok left) : left.sum ≤ value.sum := by
  cases state with
  | committed =>
    obtain ⟨committed, hcommitted, h⟩ := (bind_eq_ok _ _ _).mp h
    cases h
    obtain ⟨_, rfl⟩ := (subtract_eq_ok _ _ _).mp hcommitted
    simp only [QuotaValue.sum]
    omega
  | reserved =>
    obtain ⟨reserved, hreserved, h⟩ := (bind_eq_ok _ _ _).mp h
    cases h
    obtain ⟨_, rfl⟩ := (subtract_eq_ok _ _ _).mp hreserved
    simp only [QuotaValue.sum]
    omega

theorem rebalanceOrRemove_sum (value left : QuotaValue) (references : References)
    (state : QuotaReservationState) (amount : Nat)
    (h : rebalanceOrRemove value references state amount = .ok left) : left.sum ≤ value.sum := by
  unfold rebalanceOrRemove at h
  split at h
  · exact subtractValue_sum value left state amount h
  · split at h
    · obtain ⟨committed, hcommitted, h⟩ := (bind_eq_ok _ _ _).mp h
      obtain ⟨reserved, hreserved, h⟩ := (bind_eq_ok _ _ _).mp h
      cases h
      obtain ⟨_, rfl⟩ := (subtract_eq_ok _ _ _).mp hcommitted
      obtain ⟨_, rfl⟩ := (checkedAdd_eq_ok _ _ _).mp hreserved
      simp only [QuotaValue.sum]
      omega
    · cases h
      exact le_refl _

theorem settle_sum (references : References) (charged : QuotaValue) (state : QuotaReservationState)
    (amount : Nat) (commit : Bool) (out : References × QuotaValue)
    (h : settle references charged state amount commit = .ok out) : out.2.sum ≤ charged.sum := by
  cases commit with
  | true =>
    obtain ⟨moved, hmoved, h⟩ := (bind_eq_ok _ _ _).mp h
    obtain ⟨_, _, h⟩ := (bind_eq_ok _ _ _).mp h
    cases h
    unfold moveIf at hmoved
    split at hmoved
    · exact (moveValue_sum charged moved amount hmoved).le
    · cases hmoved
      exact le_refl _
  | false =>
    obtain ⟨left, _, h⟩ := (bind_eq_ok _ _ _).mp h
    obtain ⟨rest, hrest, h⟩ := (bind_eq_ok _ _ _).mp h
    cases h
    exact rebalanceOrRemove_sum charged rest left state amount hrest

end Settling

structure NoMore (before after : Ledger) : Prop where
  accountedBytes : ∀ repository, (usageAt after.usage repository).accountedBytes.sum ≤
    (usageAt before.usage repository).accountedBytes.sum
  projects : ∀ repository, (usageAt after.usage repository).projects.sum ≤
    (usageAt before.usage repository).projects.sum
  versions : ∀ key : IdentityKey, (versionsIn after.project[key]?).sum ≤
    (versionsIn before.project[key]?).sum

theorem NoMore.refl (ledger : Ledger) : NoMore ledger ledger where
  accountedBytes _ := le_refl _
  projects _ := le_refl _
  versions _ := le_refl _

theorem NoMore.trans {first second third : Ledger} (h : NoMore first second)
    (h' : NoMore second third) : NoMore first third where
  accountedBytes repository := (h'.accountedBytes repository).trans (h.accountedBytes repository)
  projects repository := (h'.projects repository).trans (h.projects repository)
  versions key := (h'.versions key).trans (h.versions key)

theorem usageAt_insert_le (part : QuotaUsage → QuotaValue) (usage : Table Str QuotaUsage)
    (repository : Str) (row : QuotaUsage)
    (h : (part row).sum ≤ (part (usageAt usage repository)).sum) (other : Str) :
    (part (usageAt (usage.insert repository row) other)).sum ≤ (part (usageAt usage other)).sum := by
  rw [usageAt_insert]
  split
  · rename_i heq
    rw [← heq]
    exact h
  · exact le_refl _

theorem versionsIn_keepIf (row : ProjectUsage) :
    (versionsIn (keepIf row.references row)).sum ≤ row.versions.sum := by
  unfold keepIf
  split
  · exact Nat.zero_le _
  · exact le_refl _

theorem transitionVersion_noMore (ledger : Ledger) (reservation : QuotaReservationRecord)
    (commit : Bool) (project : ProjectUsage) (out : ProjectUsage × Ledger)
    (h : transitionVersion ledger reservation commit project = .ok out) :
    out.1.versions.sum ≤ project.versions.sum ∧ out.2.usage = ledger.usage ∧
      out.2.project = ledger.project ∧ out.2.reservation = ledger.reservation := by
  unfold transitionVersion at h
  split at h
  · cases h
    exact ⟨le_refl _, rfl, rfl, rfl⟩
  · obtain ⟨settled, hsettled, h⟩ := (bind_eq_ok _ _ _).mp h
    cases h
    exact ⟨settle_sum _ _ _ _ _ settled hsettled, rfl, rfl, rfl⟩

theorem transitionProject_noMore (ledger : Ledger) (reservation : QuotaReservationRecord)
    (commit : Bool) (out : Ledger) (h : transitionProject ledger reservation commit = .ok out) :
    NoMore ledger out ∧ out.reservation = ledger.reservation := by
  unfold transitionProject at h
  split at h
  · cases h
    exact ⟨NoMore.refl ledger, rfl⟩
  · rename_i key _
    obtain ⟨settled, hsettled, h⟩ := (bind_eq_ok _ _ _).mp h
    obtain ⟨inner, hinner, h⟩ := (bind_eq_ok _ _ _).mp h
    cases h
    obtain ⟨hversions, husage, hproject, hreservation⟩ :=
      transitionVersion_noMore _ _ _ _ inner hinner
    have hsum := settle_sum _ _ _ _ _ settled hsettled
    rw [husage, hproject]
    refine ⟨⟨?_, ?_, ?_⟩, hreservation⟩
    · exact usageAt_insert_le QuotaUsage.accountedBytes ledger.usage reservation.repository _
        (le_refl _)
    · exact usageAt_insert_le QuotaUsage.projects ledger.usage reservation.repository _ hsum
    · intro other
      dsimp only
      rw [Table.getElem?_set]
      split
      · rename_i heq
        rw [← heq]
        refine (versionsIn_keepIf inner.1).trans (hversions.trans (le_of_eq ?_))
        cases ledger.project[key]? <;> rfl
      · exact le_refl _

theorem transition_noMore (ledger : Ledger) (reservation : QuotaReservationRecord)
    (commit : Bool) (out : Ledger) (h : transition ledger reservation commit = .ok out) :
    NoMore ledger out ∧ out.reservation = ledger.reservation := by
  obtain ⟨fileBytes, _, h⟩ := (bind_eq_ok _ _ _).mp h
  obtain ⟨settled, hsettled, h⟩ := (bind_eq_ok _ _ _).mp h
  have hsum := settle_sum _ _ _ _ _ settled hsettled
  obtain ⟨hlater, hreservation⟩ := transitionProject_noMore _ reservation commit out h
  refine ⟨NoMore.trans ?_ hlater, hreservation⟩
  refine ⟨?_, ?_, fun _ => le_refl _⟩
  · exact usageAt_insert_le QuotaUsage.accountedBytes ledger.usage reservation.repository _ hsum
  · exact usageAt_insert_le QuotaUsage.projects ledger.usage reservation.repository _ (le_refl _)

def Advances (before after : Option QuotaReservationRecord) : Prop :=
  after = before ∨ after = none ∨
    ∃ reservation, before = some reservation ∧ after = some { reservation with state := .committed }

theorem Advances.trans {first second third : Option QuotaReservationRecord}
    (h : Advances first second) (h' : Advances second third) : Advances first third := by
  rcases h' with rfl | rfl | ⟨reservation, rfl, rfl⟩
  · exact h
  · exact Or.inr (Or.inl rfl)
  · rcases h with rfl | hnone | ⟨earlier, rfl, heq⟩
    · exact Or.inr (Or.inr ⟨reservation, rfl, rfl⟩)
    · cases hnone
    · cases heq
      exact Or.inr (Or.inr ⟨earlier, rfl, rfl⟩)

structure Eases (before after : Ledger) : Prop where
  noMore : NoMore before after
  rows : ∀ id : Nat, Advances before.reservation[id]? after.reservation[id]?

theorem Eases.refl (ledger : Ledger) : Eases ledger ledger :=
  ⟨NoMore.refl ledger, fun _ => Or.inl rfl⟩

theorem Eases.trans {first second third : Ledger} (h : Eases first second)
    (h' : Eases second third) : Eases first third :=
  ⟨h.noMore.trans h'.noMore, fun id => (h.rows id).trans (h'.rows id)⟩

theorem release_eases (ledger : Ledger) (id : Nat) (out : Bool × Ledger)
    (h : release ledger id = .ok out) :
    Eases ledger out.2 ∧ out.2.reservation[id]? = none := by
  unfold release at h
  split at h
  · rename_i hrow
    cases h
    exact ⟨Eases.refl ledger, hrow⟩
  · obtain ⟨after, hafter, h⟩ := (bind_eq_ok _ _ _).mp h
    cases h
    obtain ⟨hmore, hreservation⟩ := transition_noMore ledger _ false after hafter
    have hrow : ∀ other : Nat, (after.reservation.erase id)[other]? =
        if id = other then none else ledger.reservation[other]? := by
      intro other
      rw [hreservation]
      exact Table.getElem?_set ledger.reservation id other none
    refine ⟨⟨⟨hmore.accountedBytes, hmore.projects, hmore.versions⟩, ?_⟩, ?_⟩
    · intro other
      dsimp only
      rw [hrow other]
      split
      · exact Or.inr (Or.inl rfl)
      · exact Or.inl rfl
    · exact (hrow id).trans (if_pos rfl)

def Spent (row : Option QuotaReservationRecord) : Prop :=
  ∀ reservation, row = some reservation → reservation.state = .committed

theorem commitReservation_eases (ledger : Ledger) (id : Nat) (out : Bool × Ledger)
    (h : commitReservation ledger id = .ok out) :
    Eases ledger out.2 ∧ Spent out.2.reservation[id]? := by
  unfold commitReservation at h
  split at h
  · rename_i hrow
    cases h
    refine ⟨Eases.refl ledger, ?_⟩
    intro r hr
    rw [hrow] at hr
    cases hr
  · rename_i reservation hfound
    split at h
    · rename_i hcommitted
      cases h
      refine ⟨Eases.refl ledger, ?_⟩
      intro r hr
      rw [hfound] at hr
      cases hr
      exact hcommitted
    · obtain ⟨after, hafter, h⟩ := (bind_eq_ok _ _ _).mp h
      cases h
      obtain ⟨hmore, hreservation⟩ := transition_noMore ledger reservation true after hafter
      have hrow : ∀ other : Nat,
          (after.reservation.insert id { reservation with state := .committed })[other]? =
          if id = other then some { reservation with state := .committed }
          else ledger.reservation[other]? := by
        intro other
        rw [hreservation]
        exact Table.getElem?_set ledger.reservation id other (some _)
      refine ⟨⟨⟨hmore.accountedBytes, hmore.projects, hmore.versions⟩, ?_⟩, ?_⟩
      · intro other
        dsimp only
        rw [hrow other]
        split
        · rename_i heq
          subst heq
          exact Or.inr (Or.inr ⟨reservation, hfound, rfl⟩)
        · exact Or.inl rfl
      · intro r hr
        rw [(hrow id).trans (if_pos rfl)] at hr
        cases hr
        rfl

theorem releases_ease (ids : List Nat) (ledger after : Ledger)
    (h : ids.foldlM (fun ledger id => Prod.snd <$> release ledger id) ledger = .ok after) :
    Eases ledger after := by
  induction ids generalizing ledger with
  | nil =>
    cases h
    exact Eases.refl _
  | cons id ids ih =>
    rw [List.foldlM_cons] at h
    obtain ⟨next, hnext, h⟩ := (bind_eq_ok _ _ _).mp h
    obtain ⟨out, hout, hpure⟩ := (bind_eq_ok _ _ _).mp ((map_eq_pure_bind _ _).symm.trans hnext)
    cases hpure
    exact (release_eases ledger id out hout).1.trans (ih out.2 h)

theorem repairAbandoned_eases (ledger : Ledger) (limit : Nat) (out : QuotaRepairReport × Ledger)
    (h : repairAbandoned ledger limit = .ok out) : Eases ledger out.2 := by
  unfold repairAbandoned at h
  split at h
  · cases h
    exact Eases.refl ledger
  · obtain ⟨after, hafter, h⟩ := (bind_eq_ok _ _ _).mp h
    cases h
    exact releases_ease _ ledger after hafter

end Peryx.Quota
