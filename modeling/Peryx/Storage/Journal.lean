import Peryx.Storage.DriverTxn

/-!
# The journal as a history of the rows

A committed transaction only extends the journal.
-/

namespace Peryx.Storage

theorem appendJournal_serial (journal : Table Nat Bytes) (serial : Nat) (entries : List Bytes) :
    (appendJournal journal serial entries).2 = serial + entries.length := by
  induction entries generalizing journal serial with
  | nil => rfl
  | cons entry rest ih =>
    rw [appendJournal, ih, List.length_cons]
    omega

theorem appendJournal_getElem? (journal : Table Nat Bytes) (serial : Nat) (entries : List Bytes)
    (s : Nat) : (appendJournal journal serial entries).1[s]? =
      if serial < s ∧ s ≤ serial + entries.length then entries[s - serial - 1]? else journal[s]? := by
  induction entries generalizing journal serial with
  | nil =>
    rw [if_neg (by simp)]
    rfl
  | cons entry rest ih =>
    have hinsert : (journal.insert (serial + 1) entry)[s]? =
        if serial + 1 = s then some entry else journal[s]? :=
      Table.getElem?_set journal (serial + 1) s (some entry)
    rw [appendJournal, ih, hinsert, List.length_cons]
    by_cases hfirst : serial + 1 = s
    · subst hfirst
      simp
    · by_cases hrest : serial + 1 < s ∧ s ≤ serial + 1 + rest.length
      · have hindex : s - serial - 1 = (s - (serial + 1) - 1) + 1 := by omega
        rw [if_pos hrest, if_pos (by omega), hindex, List.getElem?_cons_succ]
      · rw [if_neg hrest, if_neg hfirst, if_neg (by omega)]

theorem attach_getElem?_of_ne {V : Type} (table : Table Nat (List V)) (serial s : Nat)
    (values : List V) (h : serial ≠ s) : (attach table serial values)[s]? = table[s]? := by
  unfold attach
  split
  · rfl
  · exact Table.getElem?_set_of_ne table serial s (some values) h

theorem attach_getD_self {V : Type} (table : Table Nat (List V)) (serial : Nat) (values : List V)
    (h : table[serial]? = none) : (attach table serial values)[serial]?.getD [] = values := by
  unfold attach
  split
  · rename_i hempty
    rw [h, hempty]
    rfl
  · have hself := Table.getElem?_set_self table serial (some values)
    exact congrArg (Option.getD · []) hself

structure MetaStore.Sequential (store : MetaStore) : Prop where
  journal : ∀ s, store.journal[s]?.isSome ↔ 0 < s ∧ s ≤ store.serial
  mutations : ∀ s, store.serial < s → store.mutations[s]? = none
  blobs : ∀ s, store.serial < s → store.blobs[s]? = none

theorem MetaStore.Sequential.empty : MetaStore.Sequential {} where
  journal s := by
    simp only [Std.ExtTreeMap.getElem?_empty, Option.isSome_none, Bool.false_eq_true, false_iff]
    omega
  mutations s _ := Std.ExtTreeMap.getElem?_empty
  blobs s _ := Std.ExtTreeMap.getElem?_empty

structure MetaStore.Extends (new old : MetaStore) : Prop where
  serial : old.serial ≤ new.serial
  journal : ∀ s ≤ old.serial, new.journal[s]? = old.journal[s]?
  mutations : ∀ s ≤ old.serial, new.mutations[s]? = old.mutations[s]?

theorem MetaStore.Extends.refl (store : MetaStore) : store.Extends store :=
  ⟨Nat.le_refl _, fun _ _ => rfl, fun _ _ => rfl⟩

theorem MetaStore.Extends.trans {last new old : MetaStore} (hlast : last.Extends new)
    (hnew : new.Extends old) : last.Extends old where
  serial := Nat.le_trans hnew.serial hlast.serial
  journal s hs := (hlast.journal s (Nat.le_trans hs hnew.serial)).trans (hnew.journal s hs)
  mutations s hs := (hlast.mutations s (Nat.le_trans hs hnew.serial)).trans (hnew.mutations s hs)

section Commit
variable (store : MetaStore) (txn : DriverTxn) (entries : List Bytes)

@[simp] theorem MetaStore.commit_rows : (store.commit txn entries).rows = txn.table := by
  unfold MetaStore.commit
  split <;> rfl

@[simp] theorem MetaStore.commit_serial :
    (store.commit txn entries).serial = store.serial + entries.length := by
  unfold MetaStore.commit
  split
  · rename_i h
    rw [h]
    rfl
  · exact appendJournal_serial _ _ _

theorem MetaStore.commit_journal (s : Nat) : (store.commit txn entries).journal[s]? =
    if store.serial < s ∧ s ≤ store.serial + entries.length then entries[s - store.serial - 1]?
    else store.journal[s]? := by
  unfold MetaStore.commit
  split
  · rename_i h
    rw [h, if_neg (by simp)]
  · exact appendJournal_getElem? _ _ _ _

theorem MetaStore.commit_mutations_of_ne (s : Nat)
    (h : entries = [] ∨ s ≠ store.serial + entries.length) :
    (store.commit txn entries).mutations[s]? = store.mutations[s]? := by
  unfold MetaStore.commit
  split
  · rfl
  · rename_i hentries
    have hs : s ≠ store.serial + entries.length := h.resolve_left hentries
    apply attach_getElem?_of_ne
    rw [appendJournal_serial]
    exact Ne.symm hs

theorem MetaStore.commit_mutations_last (hseq : store.Sequential) (hentries : entries ≠ []) :
    (store.commit txn entries).mutations[store.serial + entries.length]?.getD [] = txn.mutations := by
  have hpos := List.length_pos_of_ne_nil hentries
  have hnone := hseq.mutations (store.serial + entries.length) (by omega)
  unfold MetaStore.commit
  rw [if_neg hentries]
  simp only [appendJournal_serial]
  exact attach_getD_self _ _ _ hnone

theorem MetaStore.commit_blobs_of_ne (s : Nat)
    (h : entries = [] ∨ s ≠ store.serial + entries.length) :
    (store.commit txn entries).blobs[s]? = store.blobs[s]? := by
  unfold MetaStore.commit
  split
  · rfl
  · rename_i hentries
    have hs : s ≠ store.serial + entries.length := h.resolve_left hentries
    apply attach_getElem?_of_ne
    rw [appendJournal_serial]
    exact Ne.symm hs

theorem MetaStore.Sequential.commit (hseq : store.Sequential) :
    (store.commit txn entries).Sequential where
  journal s := by
    rw [MetaStore.commit_journal, MetaStore.commit_serial]
    split
    · rename_i hs
      have hlt : s - store.serial - 1 < entries.length := by omega
      rw [List.getElem?_eq_getElem hlt]
      simp only [Option.isSome_some, true_iff]
      omega
    · rename_i hs
      rw [hseq.journal]
      omega
  mutations s hs := by
    rw [MetaStore.commit_serial] at hs
    rw [MetaStore.commit_mutations_of_ne _ _ _ s (Or.inr (by omega))]
    exact hseq.mutations s (by omega)
  blobs s hs := by
    rw [MetaStore.commit_serial] at hs
    rw [MetaStore.commit_blobs_of_ne _ _ _ s (Or.inr (by omega))]
    exact hseq.blobs s (by omega)

theorem MetaStore.commit_extends : (store.commit txn entries).Extends store where
  serial := by
    rw [MetaStore.commit_serial]
    omega
  journal s hs := by
    rw [MetaStore.commit_journal, if_neg (by omega)]
  mutations s hs := by
    apply MetaStore.commit_mutations_of_ne
    by_cases hentries : entries = []
    · exact Or.inl hentries
    · have hpos := List.length_pos_of_ne_nil hentries
      exact Or.inr (by omega)

end Commit

theorem commitDriverTxnAt_ok {ε : Type} (store : MetaStore) (expected : Option Nat)
    (body : TxnBody ε) (after : MetaStore) (h : commitDriverTxnAt store expected body = .ok after) :
    (∀ serial, expected = some serial → serial = store.serial) ∧
      ∃ ops entries, body store.rows = .ok (ops, entries) ∧
        after = store.commit (ops.foldl TxnOp.stage { table := store.rows }) entries := by
  unfold commitDriverTxnAt at h
  split at h
  · cases h
  · rename_i hfilter
    split at h
    · cases h
    · rename_i ops entries hbody
      cases h
      refine ⟨?_, ops, entries, hbody, rfl⟩
      rintro serial rfl
      rw [Option.filter_eq_none_iff] at hfilter
      by_contra hne
      exact hfilter serial rfl (bne_iff_ne.mpr hne)

def mutationsAt (store : MetaStore) (serial : Nat) : List DriverMutation :=
  store.mutations[serial]?.getD []

def mutationsAfter (store : MetaStore) (after count : Nat) : List DriverMutation :=
  (List.range' (after + 1) count).flatMap (mutationsAt store)

def journaledRow (store : MetaStore) (serial : Nat) (key : Str) : Option Bytes :=
  (lastEffect (mutationsAfter store 0 serial) key).getD none

theorem mutationsAfter_add (store : MetaStore) (after m n : Nat) :
    mutationsAfter store after (m + n) =
      mutationsAfter store after m ++ mutationsAfter store (after + m) n := by
  have hrange : List.range' (after + 1) (m + n) =
      List.range' (after + 1) m ++ List.range' (after + m + 1) n := by
    rw [Nat.add_right_comm after m 1]
    have h : List.range' (after + 1) m ++ List.range' (after + 1 + 1 * m) n =
        List.range' (after + 1) (m + n) := List.range'_append
    rw [Nat.one_mul] at h
    exact h.symm
  unfold mutationsAfter
  rw [hrange, List.flatMap_append]

theorem journaledRow_add (store : MetaStore) (after count : Nat) (key : Str) :
    journaledRow store (after + count) key =
      (lastEffect (mutationsAfter store after count) key).getD (journaledRow store after key) := by
  unfold journaledRow
  rw [mutationsAfter_add, lastEffect_append, Nat.zero_add]
  cases lastEffect (mutationsAfter store after count) key <;> rfl

theorem journaledRow_congr (store other : MetaStore) (serial : Nat) (key : Str)
    (h : ∀ s, 0 < s → s ≤ serial → store.mutations[s]? = other.mutations[s]?) :
    journaledRow store serial key = journaledRow other serial key := by
  have hsame : mutationsAfter store 0 serial = mutationsAfter other 0 serial := by
    unfold mutationsAfter
    apply List.flatMap_congr
    intro s hs
    rw [List.mem_range'_1] at hs
    unfold mutationsAt
    rw [h s (by omega) (by omega)]
  unfold journaledRow
  rw [hsame]

theorem journaledRow_of_extends {new old : MetaStore} (h : new.Extends old) (serial : Nat)
    (hs : serial ≤ old.serial) (key : Str) : journaledRow new serial key = journaledRow old serial key :=
  journaledRow_congr new old serial key fun s _ hle => h.mutations s (by omega)

theorem journaledRow_of_le (store : MetaStore) (hseq : store.Sequential) (serial : Nat)
    (hle : store.serial ≤ serial) (key : Str) :
    journaledRow store serial key = journaledRow store store.serial key := by
  have hquiet : mutationsAfter store store.serial (serial - store.serial) = [] := by
    unfold mutationsAfter
    rw [List.flatMap_eq_nil_iff]
    intro s hs
    rw [List.mem_range'_1] at hs
    unfold mutationsAt
    rw [hseq.mutations s (by omega)]
    rfl
  have hadd := journaledRow_add store store.serial (serial - store.serial) key
  rw [hquiet, Nat.add_sub_cancel' hle] at hadd
  exact hadd

theorem journaledRow_commit_of_lt (store : MetaStore) (txn : DriverTxn) (entries : List Bytes)
    (serial : Nat) (hlt : serial < store.serial + entries.length) (key : Str) :
    journaledRow (store.commit txn entries) serial key = journaledRow store serial key :=
  journaledRow_congr _ _ serial key fun s _ hs =>
    store.commit_mutations_of_ne txn entries s (Or.inr (by omega))

theorem journaledRow_commit_last (store : MetaStore) (txn : DriverTxn) (entries : List Bytes)
    (hseq : store.Sequential) (hentries : entries ≠ []) (key : Str) :
    journaledRow (store.commit txn entries) (store.serial + entries.length) key =
      (lastEffect txn.mutations key).getD (journaledRow store store.serial key) := by
  have hpos := List.length_pos_of_ne_nil hentries
  have hnext : store.serial + (entries.length - 1) + 1 = store.serial + entries.length := by omega
  have hlast : mutationsAfter (store.commit txn entries) (store.serial + (entries.length - 1)) 1 =
      txn.mutations := by
    simp only [mutationsAfter, List.range'_one, List.flatMap_singleton, mutationsAt, hnext]
    exact store.commit_mutations_last txn entries hseq hentries
  have hadd := journaledRow_add (store.commit txn entries)
    (store.serial + (entries.length - 1)) 1 key
  rw [hlast, hnext] at hadd
  rw [hadd, journaledRow_commit_of_lt store txn entries _ (by omega),
    journaledRow_of_le store hseq _ (by omega)]

end Peryx.Storage
