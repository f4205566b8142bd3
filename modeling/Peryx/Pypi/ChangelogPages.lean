import Peryx.Library.LookupTable
import Peryx.Library.Transition
import Peryx.Pypi.Changelog
import Peryx.Pypi.UploadText

/-! # Following the changelog loses nothing -/

namespace Peryx.Pypi
open Storage

inductive StoreWrite (json : UploadJson) (store : MetaStore) : MetaStore → Prop
  | commit (txn : DriverTxn) (entries : List JournalEntry) :
    StoreWrite json store (store.commit txn (entries.map json.journalEntry))
  | nextSerial : StoreWrite json store { store with serial := store.serial + 1 }

def changelogStores (json : UploadJson) : System MetaStore where
  start store := store = {}
  step := StoreWrite json

section Pages
variable (readEntry : Bytes → Option JournalEntry)

def rowEntry (row : Nat × Bytes) : Option ChangelogEntry :=
  (readEntry row.2).map fun entry => changelogEntry { entry with serial := row.1 }

def changelogEntries (store : MetaStore) : List ChangelogEntry :=
  store.journal.toList.filterMap (rowEntry readEntry)

/-- Where a page begins that is read after `after`. -/
def cursorNat (after : Int) : Nat := (cursorOf after).getD 0

def laterEntries (store : MetaStore) (after : Int) : List ChangelogEntry :=
  Cursor.after ChangelogEntry.serial (cursorNat after) (changelogEntries readEntry store)

/-- A mirror that reads pages from `after` on, while the store changes: its cursor, and the
entries it has read. -/
inductive Followed (json : UploadJson) (limit : Nat) (first : MetaStore) (after : Int) :
    MetaStore → Int → List ChangelogEntry → Prop
  | start : Followed json limit first after first after []
  | write (store next : MetaStore) (cursor : Int) (entries : List ChangelogEntry)
      (h : Followed json limit first after store cursor entries)
      (hstep : StoreWrite json store next) : Followed json limit first after next cursor entries
  | read (store : MetaStore) (cursor : Int) (entries : List ChangelogEntry) (page : ChangelogPage)
      (h : Followed json limit first after store cursor entries)
      (hpage : readChangelogPage readEntry store cursor limit = .ok page) :
    Followed json limit first after store page.resumeSerial (entries ++ page.entries)

structure Journaled (store : MetaStore) : Prop where
  serial : ∀ (serial : Nat) payload, store.journal[serial]? = some payload → serial ≤ store.serial
  read : ∀ (serial : Nat) payload, store.journal[serial]? = some payload →
    (readEntry payload).isSome = true

variable {readEntry}
variable {json : UploadJson} {store next : MetaStore}

theorem write_journal (h : StoreWrite json store next) (serial : Nat) (hle : serial ≤ store.serial) :
    next.journal[serial]? = store.journal[serial]? := by
  cases h with
  | commit txn entries => rw [MetaStore.commit_journal, if_neg (by omega)]
  | nextSerial => rfl

theorem write_serial (h : StoreWrite json store next) : store.serial ≤ next.serial := by
  cases h with
  | commit txn entries => rw [MetaStore.commit_serial]; omega
  | nextSerial => exact Nat.le_succ _

theorem write_journaled (hread : ∀ entry, readEntry (json.journalEntry entry) = some entry)
    (h : Journaled readEntry store) (hstep : StoreWrite json store next) :
    Journaled readEntry next := by
  cases hstep with
  | nextSerial =>
    refine ⟨fun serial payload hrow => ?_, h.read⟩
    have hle := h.serial serial payload hrow
    show serial ≤ store.serial + 1
    omega
  | commit txn entries =>
    have hrow : ∀ (serial : Nat) payload,
        (store.commit txn (entries.map json.journalEntry)).journal[serial]? = some payload →
        (serial ≤ store.serial + entries.length ∧ ∃ entry, payload = json.journalEntry entry) ∨
          store.journal[serial]? = some payload := by
      intro serial payload hsome
      rw [MetaStore.commit_journal, List.length_map] at hsome
      split at hsome
      · rename_i hnew
        rw [List.getElem?_map, Option.map_eq_some_iff] at hsome
        obtain ⟨entry, -, rfl⟩ := hsome
        exact .inl ⟨hnew.2, entry, rfl⟩
      · exact .inr hsome
    refine ⟨fun serial payload hsome => ?_, fun serial payload hsome => ?_⟩
    · rw [MetaStore.commit_serial, List.length_map]
      rcases hrow serial payload hsome with ⟨hle, -⟩ | hold
      · exact hle
      · have hle := h.serial serial payload hold
        omega
    · rcases hrow serial payload hsome with ⟨-, entry, rfl⟩ | hold
      · rw [hread]
        rfl
      · exact h.read serial payload hold

theorem reachable_journaled (hread : ∀ entry, readEntry (json.journalEntry entry) = some entry)
    (store : MetaStore) (h : (changelogStores json).Reachable store) :
    Journaled readEntry store := by
  refine (changelogStores json).invariant (Journaled readEntry) ?_ ?_ store h
  · rintro store rfl
    have hnone : ∀ (serial : Nat) payload, (∅ : Table Nat Bytes)[serial]? ≠ some payload := by
      intro serial payload hrow
      rw [Std.ExtTreeMap.getElem?_empty] at hrow
      cases hrow
    exact ⟨fun serial payload hrow => absurd hrow (hnone serial payload),
      fun serial payload hrow => absurd hrow (hnone serial payload)⟩
  · intro store next _ hjournaled hstep
    exact write_journaled hread hjournaled hstep

theorem mem_journal {row : Nat × Bytes} (h : row ∈ store.journal.toList) :
    store.journal[row.1]? = some row.2 :=
  Std.ExtTreeMap.mem_toList_iff_getElem?_eq_some.mp h

theorem rowEntry_serial {row : Nat × Bytes} {entry : ChangelogEntry}
    (h : rowEntry readEntry row = some entry) : entry.serial = row.1 := by
  obtain ⟨found, -, rfl⟩ := Option.map_eq_some_iff.mp h
  rfl

theorem rows_sorted (store : MetaStore) :
    store.journal.toList.Pairwise fun a b => a.1 < b.1 :=
  Std.ExtTreeMap.ordered_keys_toList.imp fun hlt => Nat.compare_eq_lt.mp hlt

theorem entries_sorted (store : MetaStore) :
    (changelogEntries readEntry store).Pairwise fun a b => a.serial < b.serial := by
  unfold changelogEntries
  rw [List.pairwise_filterMap]
  refine (rows_sorted store).imp fun {a b} hlt entry hentry other hother => ?_
  rw [rowEntry_serial hentry, rowEntry_serial hother]
  exact hlt

theorem entries_current (h : Journaled readEntry store) (entry : ChangelogEntry)
    (hentry : entry ∈ changelogEntries readEntry store) : entry.serial ≤ store.serial := by
  obtain ⟨row, hrow, heq⟩ := List.mem_filterMap.mp hentry
  rw [rowEntry_serial heq]
  exact h.serial row.1 row.2 (mem_journal hrow)

theorem entries_write (h : Journaled readEntry store) (hstep : StoreWrite json store next) :
    ∃ more, changelogEntries readEntry next = changelogEntries readEntry store ++ more ∧
      ∀ entry ∈ more, store.serial < entry.serial := by
  have hrows : next.journal.toList = store.journal.toList ++
      next.journal.toList.filter fun row => store.serial < row.1 := by
    refine Table.eq_of_keys_sorted Std.ExtTreeMap.ordered_keys_toList ?_ ?_
    · rw [List.pairwise_append]
      refine ⟨Std.ExtTreeMap.ordered_keys_toList, Std.ExtTreeMap.ordered_keys_toList.filter _, ?_⟩
      intro row hrow new hnew
      have hle := h.serial row.1 row.2 (mem_journal hrow)
      have hlt := of_decide_eq_true (List.mem_filter.mp hnew).2
      exact Nat.compare_eq_lt.mpr (by omega)
    · intro row
      rw [List.mem_append, List.mem_filter, decide_eq_true_iff,
        Std.ExtTreeMap.mem_toList_iff_getElem?_eq_some,
        Std.ExtTreeMap.mem_toList_iff_getElem?_eq_some]
      constructor
      · intro hrow
        by_cases hle : row.1 ≤ store.serial
        · exact .inl ((write_journal hstep row.1 hle).symm.trans hrow)
        · exact .inr ⟨hrow, by omega⟩
      · rintro (hrow | ⟨hrow, -⟩)
        · exact (write_journal hstep row.1 (h.serial row.1 row.2 hrow)).trans hrow
        · exact hrow
  refine ⟨(next.journal.toList.filter fun row => store.serial < row.1).filterMap
    (rowEntry readEntry), ?_, fun entry hentry => ?_⟩
  · unfold changelogEntries
    rw [← List.filterMap_append, ← hrows]
  · obtain ⟨row, hrow, heq⟩ := List.mem_filterMap.mp hentry
    rw [rowEntry_serial heq]
    exact of_decide_eq_true (List.mem_filter.mp hrow).2

theorem checkEntries_ok (after : Int) (current : Nat) (entries : List ChangelogEntry)
    (previous : Option Nat) (hsorted : entries.Pairwise fun a b => a.serial < b.serial)
    (hcurrent : ∀ entry ∈ entries, entry.serial ≤ current)
    (hcursor : ∀ entry ∈ entries, ∀ cursor, cursorOf after = some cursor → cursor < entry.serial)
    (hprevious : ∀ entry ∈ entries, ∀ serial, previous = some serial → serial < entry.serial) :
    checkEntries after current previous entries = .ok () := by
  induction entries generalizing previous with
  | nil => rfl
  | cons entry rest ih =>
    have hle := hcurrent entry List.mem_cons_self
    have hafter : ((cursorOf after).any fun cursor => entry.serial ≤ cursor) = false := by
      cases hcase : cursorOf after with
      | none => rfl
      | some cursor =>
        have hlt := hcursor entry List.mem_cons_self cursor hcase
        simpa using hlt
    have hfilter : (previous.filter fun previous => entry.serial ≤ previous) = none := by
      rw [Option.filter_eq_none_iff]
      intro serial hserial hle
      have hlt := hprevious entry List.mem_cons_self serial hserial
      have hle' := of_decide_eq_true hle
      omega
    obtain ⟨hfirst, hrest⟩ := List.pairwise_cons.mp hsorted
    unfold checkEntries
    rw [if_neg (by omega), hafter, if_neg (by simp), hfilter]
    refine ih (some entry.serial) hrest (fun other hother => hcurrent other (.tail _ hother))
      (fun other hother => hcursor other (.tail _ hother)) fun other hother serial hserial => ?_
    cases hserial
    exact hfirst other hother

theorem mapM_decode (rows : List (Nat × Bytes)) (toRecord : Nat × Bytes → JournalRecord)
    (hrecord : ∀ row, (toRecord row).serial = row.1 ∧ (toRecord row).payload = row.2)
    (h : ∀ row ∈ rows, (readEntry row.2).isSome = true) :
    ∃ entries, (rows.map toRecord).mapM (decodeEntry readEntry) = .ok entries ∧
      entries.map changelogEntry = rows.filterMap (rowEntry readEntry) := by
  induction rows with
  | nil => exact ⟨[], rfl, rfl⟩
  | cons row rest ih =>
    obtain ⟨entries, hentries, hmap⟩ := ih fun other hother => h other (.tail _ hother)
    obtain ⟨entry, hentry⟩ := Option.isSome_iff_exists.mp (h row List.mem_cons_self)
    obtain ⟨hserial, hpayload⟩ := hrecord row
    have hdecode : decodeEntry readEntry (toRecord row) = .ok { entry with serial := row.1 } := by
      unfold decodeEntry
      rw [hpayload, hentry, hserial]
    have hrow : rowEntry readEntry row = some (changelogEntry { entry with serial := row.1 }) := by
      unfold rowEntry
      rw [hentry]
      rfl
    refine ⟨{ entry with serial := row.1 } :: entries, ?_, ?_⟩
    · rw [List.map_cons, List.mapM_cons, hdecode, hentries]
      rfl
    · rw [List.map_cons, hmap, List.filterMap_cons_some hrow]

theorem filterMap_take (rows : List (Nat × Bytes)) (count : Nat)
    (h : ∀ row ∈ rows, (readEntry row.2).isSome = true) :
    (rows.take count).filterMap (rowEntry readEntry) =
      (rows.filterMap (rowEntry readEntry)).take count := by
  induction rows generalizing count with
  | nil => simp
  | cons row rest ih =>
    obtain ⟨entry, hentry⟩ := Option.isSome_iff_exists.mp (h row List.mem_cons_self)
    have hrow : rowEntry readEntry row = some (changelogEntry { entry with serial := row.1 }) := by
      unfold rowEntry
      rw [hentry]
      rfl
    cases count with
    | zero => rfl
    | succ count =>
      rw [List.take_succ_cons, List.filterMap_cons_some hrow, List.filterMap_cons_some hrow,
        List.take_succ_cons, ih count fun other hother => h other (.tail _ hother)]

theorem filterMap_after (rows : List (Nat × Bytes)) (cursor : Nat) :
    (rows.filter fun row => cursor < row.1).filterMap (rowEntry readEntry) =
      Cursor.after ChangelogEntry.serial cursor (rows.filterMap (rowEntry readEntry)) := by
  unfold Cursor.after
  rw [List.filterMap_filter, List.filter_filterMap]
  congr 1
  funext row
  cases hrow : rowEntry readEntry row with
  | none => simp
  | some entry =>
    rw [← rowEntry_serial hrow]
    simp [Option.filter]

theorem readChangelogPage_of_entries {limit serial : Nat} {after : Int}
    {decoded : List JournalEntry} {page : ChangelogPage}
    (hread : readJournalEntries readEntry store (cursorNat after) limit = .ok (serial, decoded))
    (hnew : ChangelogPage.new after serial (decoded.map changelogEntry) = .ok page) :
    readChangelogPage readEntry store after limit = .ok page := by
  have hcursor : (cursorOf after).getD 0 = cursorNat after := rfl
  simp only [readChangelogPage, hcursor, hread, bind, Except.bind, hnew]

theorem readChangelogPage_ok (h : Journaled readEntry store) (limit : Nat)
    (hlimit : limit ≤ changelogPageSize) (after : Int) :
    ∃ page, readChangelogPage readEntry store after limit = .ok page ∧ page.after = after ∧
      page.currentSerial = store.serial ∧
      page.entries = (laterEntries readEntry store after).take limit := by
  have hrows : ∀ row ∈ store.journal.toList, (readEntry row.2).isSome = true :=
    fun row hrow => h.read row.1 row.2 (mem_journal hrow)
  obtain ⟨decoded, hdecoded, hmap⟩ := mapM_decode
    ((store.journal.toList.filter fun row => cursorNat after < row.1).take limit)
    (fun row => ⟨row.1, row.2, store.mutations[row.1]?.getD [], store.blobs[row.1]?.getD []⟩)
    (fun _ => ⟨rfl, rfl⟩)
    fun row hrow => hrows row (List.mem_filter.mp (List.mem_of_mem_take hrow)).1
  have hentries : decoded.map changelogEntry = (laterEntries readEntry store after).take limit := by
    rw [hmap, filterMap_take _ _ fun row hrow => hrows row (List.mem_filter.mp hrow).1,
      filterMap_after]
    rfl
  have hmem : ∀ entry ∈ (laterEntries readEntry store after).take limit,
      entry ∈ changelogEntries readEntry store ∧ cursorNat after < entry.serial := by
    intro entry hentry
    exact (Cursor.mem_after _ _ _ _).mp (List.mem_of_mem_take hentry)
  have hchecked : checkEntries after store.serial none
      ((laterEntries readEntry store after).take limit) = .ok () := by
    refine checkEntries_ok after store.serial _ none ?_ ?_ ?_ ?_
    · exact (Cursor.sorted_after _ _ _ (entries_sorted store)).sublist (List.take_sublist _ _)
    · exact fun entry hentry => entries_current h entry (hmem entry hentry).1
    · intro entry hentry cursor hcursor
      have hlt := (hmem entry hentry).2
      unfold cursorNat at hlt
      rw [hcursor] at hlt
      exact hlt
    · intro _ _ _ hnone
      cases hnone
  have hsize : ((laterEntries readEntry store after).take limit).length ≤ changelogPageSize := by
    rw [List.length_take]
    omega
  have hread : readJournalEntries readEntry store (cursorNat after) limit =
      .ok (store.serial, decoded) := by
    unfold readJournalEntries journalPageAfter
    dsimp only
    rw [hdecoded]
    rfl
  have hnew : ChangelogPage.new after store.serial (decoded.map changelogEntry) =
      .ok ⟨after, store.serial, _, hsize, hchecked⟩ := by
    rw [hentries]
    unfold ChangelogPage.new
    rw [dif_pos hsize]
    split
    · rfl
    · rename_i error herror
      rw [hchecked] at herror
      cases herror
  refine ⟨⟨after, store.serial, _, hsize, hchecked⟩, ?_, rfl, rfl, rfl⟩
  exact readChangelogPage_of_entries hread hnew

theorem cursorNat_natCast (serial : Nat) : cursorNat serial = serial := by
  unfold cursorNat cursorOf
  rw [if_pos (Int.natCast_nonneg serial), Option.getD_some, Int.toNat_natCast]

theorem cursorOf_getD (after : Int) (current : Nat) :
    (cursorOf after).elim current (fun after => max after current) = max (cursorNat after) current := by
  unfold cursorNat
  cases cursorOf after with
  | none => simp
  | some cursor => rfl

theorem resume_lossless (h : Journaled readEntry store) (limit : Nat) (hpos : 0 < limit)
    (hlimit : limit ≤ changelogPageSize) (cursor : Int) (page : ChangelogPage)
    (hpage : readChangelogPage readEntry store cursor limit = .ok page) :
    page.entries = (laterEntries readEntry store cursor).take limit ∧
      laterEntries readEntry store page.resumeSerial =
        (laterEntries readEntry store cursor).drop limit ∧
      cursorNat cursor ≤ page.resumeSerial ∧
      page.resumeSerial ≤ max (cursorNat cursor) store.serial := by
  obtain ⟨found, hfound, hafter, hcurrent, hentries⟩ := readChangelogPage_ok h limit hlimit cursor
  rw [hpage] at hfound
  cases hfound
  refine ⟨hentries, ?_⟩
  unfold ChangelogPage.resumeSerial laterEntries
  rw [cursorNat_natCast]
  cases hlast : page.entries.getLast? with
  | some last =>
    rw [hentries] at hlast
    have hmem := List.mem_of_mem_take (List.mem_of_getLast? hlast)
    obtain ⟨hentry, hlt⟩ := (Cursor.mem_after _ _ _ _).mp hmem
    have hle := entries_current h last hentry
    refine ⟨Cursor.after_last _ _ _ _ last (entries_sorted store) hlast, ?_, ?_⟩
    · dsimp only
      omega
    · dsimp only
      omega
  | none =>
    have hnil : laterEntries readEntry store cursor = [] := by
      rw [List.getLast?_eq_none_iff, hentries, List.take_eq_nil_iff] at hlast
      rcases hlast with hzero | hnil
      · omega
      · exact hnil
    dsimp only
    rw [hafter, hcurrent, cursorOf_getD]
    have hempty : Cursor.after ChangelogEntry.serial (cursorNat cursor)
        (changelogEntries readEntry store) = [] := hnil
    rw [hempty, List.drop_nil]
    refine ⟨?_, by omega, by omega⟩
    refine Cursor.after_eq_nil _ _ _ fun entry hentry => ?_
    have hle := entries_current h entry hentry
    omega

theorem followChangelog_eq (h : Journaled readEntry store) (limit : Nat) (hpos : 0 < limit)
    (hlimit : limit ≤ changelogPageSize) (reads : Nat) (after : Int)
    (hreads : (laterEntries readEntry store after).length ≤ reads * limit) :
    followChangelog readEntry store limit (reads + 1) after =
      .ok (some (laterEntries readEntry store after)) := by
  induction reads generalizing after with
  | zero =>
    have hnil : laterEntries readEntry store after = [] := List.eq_nil_of_length_eq_zero (by omega)
    obtain ⟨page, hpage, -, -, hentries⟩ := readChangelogPage_ok h limit hlimit after
    rw [hnil, List.take_nil] at hentries
    unfold followChangelog
    rw [hpage, hnil]
    show (if page.entries = [] then Except.ok (some []) else _) = _
    rw [if_pos hentries]
  | succ reads ih =>
    obtain ⟨page, hpage, -, -, hentries⟩ := readChangelogPage_ok h limit hlimit after
    obtain ⟨-, hrest, -, -⟩ := resume_lossless h limit hpos hlimit after page hpage
    have hmul : (reads + 1) * limit = reads * limit + limit := Nat.succ_mul reads limit
    unfold followChangelog
    rw [hpage]
    show (if page.entries = [] then Except.ok (some []) else _) = _
    split
    · rename_i hempty
      rw [hentries, List.take_eq_nil_iff] at hempty
      rcases hempty with hzero | hnil
      · omega
      · rw [hnil]
    · have hlater : (laterEntries readEntry store page.resumeSerial).length ≤ reads * limit := by
        rw [hrest, List.length_drop]
        omega
      rw [ih page.resumeSerial hlater, hrest, hentries]
      show Except.ok (some (_ ++ _)) = _
      rw [List.take_append_drop]

theorem followed_lossless (hread : ∀ entry, readEntry (json.journalEntry entry) = some entry)
    (limit : Nat) (hpos : 0 < limit) (hlimit : limit ≤ changelogPageSize) {first : MetaStore}
    {after cursor : Int} {entries : List ChangelogEntry} (hfirst : Journaled readEntry first)
    (h : Followed readEntry json limit first after store cursor entries) :
    Journaled readEntry store ∧ cursorNat after ≤ cursorNat cursor ∧
      cursorNat cursor ≤ max (cursorNat after) store.serial ∧
      entries ++ laterEntries readEntry store cursor = laterEntries readEntry store after := by
  induction h with
  | start => exact ⟨hfirst, Nat.le_refl _, Nat.le_max_left _ _, rfl⟩
  | write store next cursor entries _ hstep ih =>
    obtain ⟨hjournaled, hle, hbound, hsplit⟩ := ih
    obtain ⟨more, hmore, hnew⟩ := entries_write hjournaled hstep
    have hserial := write_serial hstep
    refine ⟨write_journaled hread hjournaled hstep, hle, by omega, ?_⟩
    have hlater : ∀ cursor, laterEntries readEntry next cursor =
        laterEntries readEntry store cursor ++
          Cursor.after ChangelogEntry.serial (cursorNat cursor) more := by
      intro cursor
      unfold laterEntries
      rw [hmore, Cursor.after_append]
    have hsame : Cursor.after ChangelogEntry.serial (cursorNat cursor) more =
        Cursor.after ChangelogEntry.serial (cursorNat after) more := by
      refine Cursor.after_congr _ _ _ _ fun entry hentry => ?_
      have hlt := hnew entry hentry
      omega
    rw [hlater, hlater, ← List.append_assoc, hsplit, hsame]
  | read store cursor entries page _ hpage ih =>
    obtain ⟨hjournaled, hle, hbound, hsplit⟩ := ih
    obtain ⟨hentries, hrest, hnext, hcurrent⟩ :=
      resume_lossless hjournaled limit hpos hlimit cursor page hpage
    rw [cursorNat_natCast]
    refine ⟨hjournaled, by omega, by omega, ?_⟩
    rw [List.append_assoc, hrest, hentries, List.take_append_drop]
    exact hsplit

theorem mem_laterEntries (h : Journaled readEntry store) (after : Int) (serial : Nat) :
    (∃ entry ∈ laterEntries readEntry store after, entry.serial = serial) ↔
      (store.journal[serial]?).isSome = true ∧ cursorNat after < serial := by
  constructor
  · rintro ⟨entry, hentry, rfl⟩
    obtain ⟨hmem, hlt⟩ := (Cursor.mem_after _ _ _ _).mp hentry
    obtain ⟨row, hrow, heq⟩ := List.mem_filterMap.mp hmem
    rw [rowEntry_serial heq] at hlt ⊢
    exact ⟨by rw [mem_journal hrow]; rfl, hlt⟩
  · rintro ⟨hrow, hlt⟩
    obtain ⟨payload, hpayload⟩ := Option.isSome_iff_exists.mp hrow
    obtain ⟨entry, hentry⟩ := Option.isSome_iff_exists.mp (h.read serial payload hpayload)
    have hmem : (serial, payload) ∈ store.journal.toList :=
      Std.ExtTreeMap.mem_toList_iff_getElem?_eq_some.mpr hpayload
    refine ⟨changelogEntry { entry with serial := serial }, ?_, rfl⟩
    refine (Cursor.mem_after _ _ _ _).mpr ⟨List.mem_filterMap.mpr ⟨_, hmem, ?_⟩, hlt⟩
    unfold rowEntry
    rw [hentry]
    rfl

/-- Pages of one to `changelogPageSize` entries lose nothing: each is accepted, enough of them
read every later entry once, in the order of the serials, and end; while the journal grows, what
was read and what is still ahead are all there is. Their answers are documents. -/
theorem changelog_lossless (hread : ∀ entry, readEntry (json.journalEntry entry) = some entry)
    (limit : Nat) (hpos : 0 < limit) (hlimit : limit ≤ changelogPageSize) (store : MetaStore)
    (hstore : (changelogStores json).Reachable store) (after : Int) :
    (∃ page, readChangelogPage readEntry store after limit = .ok page) ∧
    (∀ reads, (laterEntries readEntry store after).length ≤ reads * limit →
      followChangelog readEntry store limit (reads + 1) after =
        .ok (some (laterEntries readEntry store after))) ∧
    ((laterEntries readEntry store after).Pairwise fun a b => a.serial < b.serial) ∧
    (∀ serial : Nat, (∃ entry ∈ laterEntries readEntry store after, entry.serial = serial) ↔
      (store.journal[serial]?).isSome = true ∧ cursorNat after < serial) ∧
    (∀ last cursor entries, Followed readEntry json limit store after last cursor entries →
      entries ++ laterEntries readEntry last cursor = laterEntries readEntry last after) ∧
    ∀ page : ChangelogPage, Xml.Document (renderChangelogResponse page.entries) := by
  have hjournaled := reachable_journaled hread store hstore
  refine ⟨?_, fun reads => followChangelog_eq hjournaled limit hpos hlimit reads after,
    Cursor.sorted_after _ _ _ (entries_sorted store), mem_laterEntries hjournaled after,
    fun last cursor entries h => ?_, fun page => render_document page.entries⟩
  · obtain ⟨page, hpage, -⟩ := readChangelogPage_ok hjournaled limit hlimit after
    exact ⟨page, hpage⟩
  · exact (followed_lossless hread limit hpos hlimit hjournaled h).2.2.2

end Pages

def addedEntry (project : Str) : JournalEntry where
  submittedAtUnix := 5
  action := str "add-file"
  project := project
  version := some (str "1.0")
  filename := some (str "<a>.whl")

def twoAdded : MetaStore :=
  MetaStore.commit {} { table := ∅ } ([addedEntry (str "a"), addedEntry (str "b")].map
    UploadText.json.journalEntry)

theorem twoAdded_reachable : (changelogStores UploadText.json).Reachable twoAdded := by
  have hstart : (changelogStores UploadText.json).Reachable {} := .start _ rfl
  exact hstart.step _ _ (.commit { table := ∅ } [addedEntry (str "a"), addedEntry (str "b")])

theorem changelog_lossless_twoAdded :
    followChangelog UploadText.readJournalEntry twoAdded 1
      ((laterEntries UploadText.readJournalEntry twoAdded (-1)).length + 1) (-1) =
        .ok (some (laterEntries UploadText.readJournalEntry twoAdded (-1))) :=
  (changelog_lossless UploadText.readJournalEntry_write 1 (by decide) (by decide) twoAdded
    twoAdded_reachable (-1)).2.1 _ (by omega)

/-- A page of no entries resumes at the head, past all that was not read. -/
theorem changelog_lost_by_empty_pages :
    ¬ ∀ (limit : Nat) (store last : MetaStore) (after cursor : Int) (entries : List ChangelogEntry),
      (changelogStores UploadText.json).Reachable store →
      Followed UploadText.readJournalEntry UploadText.json limit store after last cursor entries →
      entries ++ laterEntries UploadText.readJournalEntry last cursor =
        laterEntries UploadText.readJournalEntry last after := by
  intro hlossless
  have hjournaled := reachable_journaled UploadText.readJournalEntry_write twoAdded twoAdded_reachable
  obtain ⟨page, hpage, hafter, hcurrent, hentries⟩ :=
    readChangelogPage_ok hjournaled 0 (Nat.zero_le _) 0
  rw [List.take_zero] at hentries
  have hresume : page.resumeSerial = 2 := by
    unfold ChangelogPage.resumeSerial
    rw [hentries, hafter, hcurrent]
    decide +kernel
  have hsame := hlossless 0 twoAdded twoAdded 0 page.resumeSerial ([] ++ page.entries)
    twoAdded_reachable (.read twoAdded 0 [] page .start hpage)
  rw [hentries, hresume, List.append_nil, List.nil_append] at hsame
  have hfirst := (mem_laterEntries hjournaled 0 1).mpr ⟨by decide +kernel, by decide⟩
  rw [← hsame, mem_laterEntries hjournaled] at hfirst
  exact absurd hfirst.2 (by decide)

end Peryx.Pypi
