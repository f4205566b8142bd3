import Peryx.Library.Outcome
import Peryx.Replication.Replica
import Peryx.Storage.Journal

/-! # What a validated page is, and what its commit writes -/

namespace Peryx.Replication
open Storage

def ChangePage.mutations (page : ChangePage) : List MetadataMutation :=
  page.changes.flatMap Change.metadata

def ChangePage.references (page : ChangePage) : List BlobReference :=
  page.changes.flatMap Change.blobs

structure Acceptable (page : ChangePage) (after limit : Nat) (state : Option ReplicaState) : Prop where
  version : page.version = protocolVersion
  named : page.source ≠ []
  start : page.after = after
  limit : page.changes.length ≤ limit
  source : ∀ known, state = some known → known.source = page.source
  contiguous : page.changes.map Change.serial = List.range' (after + 1) page.changes.length
  unreserved : ∀ mutation ∈ page.mutations, reserved mutation.key = false
  digests : ∀ blob ∈ page.references, digestFromHex blob.sha256 = some blob.sha256
  sizes : ∀ one ∈ page.references, ∀ two ∈ page.references,
    one.sha256 = two.sha256 → one.size = two.size
  current : after + page.changes.length ≤ page.currentSerial
  complete : page.changes = [] → page.currentSerial ≤ after

section Gather

abbrev AnyError : SyncError → Prop := fun _ => False

structure MetadataOf (mutations : List MetadataMutation) (metadata : Table Str (Option Bytes)) :
    Prop where
  unreserved : ∀ mutation ∈ mutations, reserved mutation.key = false
  last : ∀ key : Str, metadata[key]? = lastEffect mutations key

theorem gatherMutation_ensures (passed : List MetadataMutation) (metadata : Table Str (Option Bytes))
    (mutation : MetadataMutation) (h : MetadataOf passed metadata) :
    Ensures AnyError (gatherMutation metadata mutation) (MetadataOf (passed ++ [mutation])) := by
  apply Ensures.ite
  · intro _
    exact Ensures.error id
  · intro hkey
    refine Ensures.pure ⟨?_, ?_⟩
    · intro m hm
      rcases List.mem_append.mp hm with hm | hm
      · exact h.unreserved m hm
      · rw [List.mem_singleton.mp hm]
        exact Bool.eq_false_of_not_eq_true hkey
    · intro key
      have hinsert : (metadata.insert mutation.key mutation.value)[key]? =
          if mutation.key = key then some mutation.value else metadata[key]? :=
        Table.getElem?_set metadata mutation.key key (some mutation.value)
      rw [hinsert, lastEffect_append, h.last key]
      by_cases hk : mutation.key = key
      · simp [lastEffect, hk]
      · simp [lastEffect, hk]

structure BlobsOf (references : List BlobReference) (blobs : Table Str Nat) : Prop where
  digests : ∀ blob ∈ references, digestFromHex blob.sha256 = some blob.sha256
  listed : ∀ blob ∈ references, blobs[blob.sha256]? = some blob.size
  only : ∀ (digest : Str) (size : Nat), blobs[digest]? = some size → ⟨digest, size⟩ ∈ references

theorem gatherBlob_ensures (passed : List BlobReference) (blobs : Table Str Nat)
    (blob : BlobReference) (h : BlobsOf passed blobs) :
    Ensures AnyError (gatherBlob blobs blob) (BlobsOf (passed ++ [blob])) := by
  unfold gatherBlob
  cases hdigest : digestFromHex blob.sha256 with
  | none => exact Ensures.error id
  | some digest =>
    have heq := digestFromHex_eq _ _ hdigest
    subst heq
    have hadd : (∀ first, blobs[blob.sha256]? = some first → first = blob.size) →
        BlobsOf (passed ++ [blob]) (blobs.insert blob.sha256 blob.size) := by
      intro hsame
      have hinsert : ∀ key : Str, (blobs.insert blob.sha256 blob.size)[key]? =
          if blob.sha256 = key then some blob.size else blobs[key]? :=
        fun key => Table.getElem?_set blobs blob.sha256 key (some blob.size)
      refine ⟨?_, ?_, ?_⟩
      · intro b hb
        rcases List.mem_append.mp hb with hb | hb
        · exact h.digests b hb
        · rw [List.mem_singleton.mp hb]
          exact hdigest
      · intro b hb
        rw [hinsert]
        rcases List.mem_append.mp hb with hb | hb
        · split
          · rename_i hkey
            have hlisted := h.listed b hb
            rw [← hkey] at hlisted
            rw [hsame _ hlisted]
          · exact h.listed b hb
        · rw [List.mem_singleton.mp hb, if_pos rfl]
      · intro digest size hsize
        rw [hinsert] at hsize
        split at hsize
        · rename_i hkey
          cases hsize
          rw [← hkey]
          exact List.mem_append_right _ List.mem_cons_self
        · exact List.mem_append_left _ (h.only digest size hsize)
    cases hfirst : blobs[blob.sha256]? with
    | none =>
      refine Ensures.pure (hadd fun first hf => ?_)
      rw [hfirst] at hf
      cases hf
    | some first =>
      apply Ensures.ite
      · intro _
        exact Ensures.error id
      · intro hsize
        refine Ensures.pure (hadd fun other hf => ?_)
        rw [hfirst] at hf
        cases hf
        exact not_not.mp hsize

structure GatheredOf (after : Nat) (changes : List Change) (gathered : Gathered) : Prop where
  through : gathered.through = after + changes.length
  contiguous : changes.map Change.serial = List.range' (after + 1) changes.length
  journal : gathered.journal = changes.map Change.event
  metadata : MetadataOf (changes.flatMap Change.metadata) gathered.metadata
  blobs : BlobsOf (changes.flatMap Change.blobs) gathered.blobs

theorem gatherChange_ensures (after : Nat) (passed : List Change) (gathered : Gathered)
    (change : Change) (h : GatheredOf after passed gathered) :
    Ensures AnyError (gatherChange gathered change) (GatheredOf after (passed ++ [change])) := by
  apply Ensures.ite
  · intro _
    exact Ensures.error id
  · intro hserial
    have hserial := not_not.mp hserial
    have hmetadata := Ensures.foldlM_prefix MetadataOf gatherMutation_ensures
      change.metadata _ _ h.metadata
    have hblobs := Ensures.foldlM_prefix BlobsOf gatherBlob_ensures
      change.blobs _ _ h.blobs
    apply hmetadata.bind
    intro metadata hmetadata
    apply hblobs.bind
    intro blobs hblobs
    refine Ensures.pure ⟨?_, ?_, ?_, ?_, ?_⟩
    · rw [hserial, h.through, List.length_append]
      rfl
    · rw [List.map_append, h.contiguous, List.length_append, List.length_singleton,
        List.range'_1_concat, List.map_singleton, hserial, h.through]
      congr 2
      omega
    · rw [List.map_append, ← h.journal]
      rfl
    · rw [List.flatMap_append, List.flatMap_singleton]
      exact hmetadata
    · rw [List.flatMap_append, List.flatMap_singleton]
      exact hblobs

end Gather

structure ValidatedPage.Of (page : ChangePage) (after : Nat) (validated : ValidatedPage) : Prop where
  source : validated.source = page.source
  through : validated.through = after + page.changes.length
  journal : validated.journal = page.changes.map Change.event
  metadata : MetadataOf page.mutations validated.metadata
  blobs : BlobsOf page.references validated.blobs

theorem GatheredOf.acceptable {page : ChangePage} {after limit : Nat} {state : Option ReplicaState}
    {gathered : Gathered} (h : GatheredOf after page.changes gathered)
    (hversion : page.version = protocolVersion) (hnamed : page.source ≠ [])
    (hstart : page.after = after) (hlimit : page.changes.length ≤ limit)
    (hsource : ∀ known, state = some known → known.source = page.source)
    (hcurrent : gathered.through ≤ page.currentSerial)
    (hcomplete : gathered.journal = [] → page.currentSerial ≤ after) :
    Acceptable page after limit state where
  version := hversion
  named := hnamed
  start := hstart
  limit := hlimit
  source := hsource
  contiguous := h.contiguous
  unreserved := h.metadata.unreserved
  digests := h.blobs.digests
  sizes one hone two htwo heq := by
    have hlisted := h.blobs.listed one hone
    rw [heq, h.blobs.listed two htwo] at hlisted
    exact (Option.some.inj hlisted).symm
  current := by
    rw [← h.through]
    exact hcurrent
  complete hnone := by
    apply hcomplete
    rw [h.journal, hnone]
    rfl

theorem ValidatedPage.new_ensures (page : ChangePage) (after limit : Nat)
    (state : Option ReplicaState) : Ensures AnyError (ValidatedPage.new page after limit state)
      fun validated => Acceptable page after limit state ∧ validated.Of page after := by
  apply Ensures.ite (fun _ => Ensures.error id)
  intro hversion
  apply Ensures.ite (fun _ => Ensures.error id)
  intro hnamed
  apply Ensures.ite (fun _ => Ensures.error id)
  intro hstart
  apply Ensures.ite (fun _ => Ensures.error id)
  intro hlimit
  cases hfilter : state.filter fun state => state.source != page.source with
  | some known => exact Ensures.error id
  | none =>
    have hsource : ∀ known, state = some known → known.source = page.source := by
      rintro known rfl
      rw [Option.filter_eq_none_iff] at hfilter
      by_contra hne
      exact hfilter known rfl (bne_iff_ne.mpr hne)
    have hstarted : GatheredOf after [] { through := after } :=
      ⟨rfl, rfl, rfl, ⟨nofun, fun _ => rfl⟩, ⟨nofun, nofun, fun digest size hsize => by
        rw [Std.ExtTreeMap.getElem?_empty] at hsize
        cases hsize⟩⟩
    have hloop := Ensures.foldlM_prefix (GatheredOf after)
      (gatherChange_ensures after) page.changes [] _ hstarted
    apply hloop.bind
    intro gathered hgathered
    apply Ensures.ite (fun _ => Ensures.error id)
    intro hcurrent
    apply Ensures.ite (fun _ => Ensures.error id)
    intro hmissing
    refine Ensures.pure ⟨?_, rfl, hgathered.through, hgathered.journal, hgathered.metadata,
      hgathered.blobs⟩
    apply hgathered.acceptable (not_not.mp hversion) hnamed (not_not.mp hstart)
      (Nat.le_of_not_lt hlimit) hsource (Nat.le_of_not_lt hcurrent)
    intro hnone
    by_contra hmore
    exact hmissing ⟨hnone, Nat.lt_of_not_le hmore⟩

theorem ValidatedPage.new_ok (page : ChangePage) (after limit : Nat) (state : Option ReplicaState)
    (validated : ValidatedPage) (h : ValidatedPage.new page after limit state = .ok validated) :
    Acceptable page after limit state ∧ validated.Of page after :=
  (ValidatedPage.new_ensures page after limit state).of_ok h

section Commit
variable (encode : ReplicaState → Bytes)

theorem stage_rowOp (txn : DriverTxn) (row : Str × Option Bytes) (key : Str) :
    (TxnOp.stage txn (rowOp row)).table[key]? = if row.1 = key then row.2 else txn.table[key]? := by
  obtain ⟨k, value⟩ := row
  cases value with
  | some value => exact Table.getElem?_set txn.table k key (some value)
  | none =>
    simp only [rowOp, TxnOp.stage, DriverTxn.remove]
    cases hk : txn.table[k]? with
    | some old => exact Table.getElem?_set txn.table k key none
    | none =>
      show txn.table[key]? = if k = key then none else txn.table[key]?
      by_cases hkey : k = key
      · rw [if_pos hkey, ← hkey, hk]
      · rw [if_neg hkey]

theorem stage_rows (table : Table Str (Option Bytes)) (txn : DriverTxn) (key : Str) :
    ((table.toList.map rowOp).foldl TxnOp.stage txn).table[key]? =
      table[key]?.getD txn.table[key]? := by
  have hfold : ∀ (rows : List (Str × Option Bytes)) (txn : DriverTxn),
      (∀ value, (key, value) ∈ rows →
        (rows.Pairwise fun a b => a.1 ≠ b.1) →
        ((rows.map rowOp).foldl TxnOp.stage txn).table[key]? = value) ∧
      ((∀ row ∈ rows, row.1 ≠ key) →
        ((rows.map rowOp).foldl TxnOp.stage txn).table[key]? = txn.table[key]?) := by
    intro rows
    induction rows with
    | nil => exact fun txn => ⟨nofun, fun _ => rfl⟩
    | cons row rows ih =>
      intro txn
      have hstaged := stage_rowOp txn row key
      constructor
      · intro value hmem hdistinct
        rw [List.pairwise_cons] at hdistinct
        rw [List.map_cons, List.foldl_cons]
        rcases List.mem_cons.mp hmem with rfl | hmem
        · rw [(ih _).2 fun other hother => (hdistinct.1 other hother).symm, hstaged, if_pos rfl]
        · exact (ih _).1 value hmem hdistinct.2
      · intro hne
        rw [List.map_cons, List.foldl_cons, (ih _).2 fun other hother =>
          hne other (List.mem_cons_of_mem _ hother), hstaged, if_neg (hne row List.mem_cons_self)]
  cases hrow : table[key]? with
  | some value =>
    apply (hfold table.toList txn).1 value (Std.ExtTreeMap.mem_toList_iff_getElem?_eq_some.mpr hrow)
    refine table.distinct_keys_toList.imp fun {a b} hab heq => hab ?_
    rw [heq]
    exact Std.ReflCmp.compare_self
  | none =>
    apply (hfold table.toList txn).2
    rintro ⟨k, value⟩ hmem rfl
    rw [Std.ExtTreeMap.mem_toList_iff_getElem?_eq_some, hrow] at hmem
    cases hmem

theorem stage_references (blobs : List (Str × Nat)) (txn : DriverTxn) :
    ((blobs.map fun blob => TxnOp.referenceBlob blob.1 blob.2).foldl TxnOp.stage txn).table =
      txn.table := by
  induction blobs generalizing txn with
  | nil => rfl
  | cons blob blobs ih =>
    rw [List.map_cons, List.foldl_cons, ih]
    simp only [TxnOp.stage, DriverTxn.referenceBlob]
    split <;> rfl

theorem stage_page (page : ValidatedPage) (rows : Rows) (key : Str) :
    ((pageOps encode page).foldl TxnOp.stage { table := rows }).table[key]? =
      if replicaStateKey = key then some (encode ⟨page.source, page.through⟩)
      else page.metadata[key]?.getD rows[key]? := by
  have hlast : ∀ txn : DriverTxn, (TxnOp.stage txn
      (TxnOp.putLocal replicaStateKey (encode ⟨page.source, page.through⟩))).table[key]? =
      if replicaStateKey = key then some (encode ⟨page.source, page.through⟩)
      else txn.table[key]? :=
    fun txn => Table.getElem?_set txn.table replicaStateKey key (some _)
  rw [pageOps, List.foldl_append, List.foldl_cons, List.foldl_nil, hlast, List.foldl_append,
    stage_references, stage_rows]

theorem commitPage_ok (store : MetaStore) (after : Nat) (page : ValidatedPage) (new : MetaStore)
    (h : commitPage encode store after page = .ok new) :
    (page.journal = [] ∧ new = store) ∨ (page.journal ≠ [] ∧ store.serial = after ∧
      new = store.commit ((pageOps encode page).foldl TxnOp.stage { table := store.rows })
        page.journal) := by
  unfold commitPage at h
  split at h
  · rename_i hempty
    cases h
    exact Or.inl ⟨hempty, rfl⟩
  · rename_i hjournal
    split at h
    · rename_i committed hcommit
      cases h
      obtain ⟨hserial, ops, entries, hbody, hnew⟩ := commitDriverTxnAt_ok _ _ _ _ hcommit
      cases hbody
      exact Or.inr ⟨hjournal, (hserial after rfl).symm, hnew⟩
    · cases h

end Commit
end Peryx.Replication
