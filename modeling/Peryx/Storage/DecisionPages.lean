import Peryx.Library.Cursor
import Peryx.Storage.DecisionHistory

/-! # Pages of policy decisions (peryx-storage/src/meta/policy_decision.rs:292-350,434-460) -/

namespace Peryx.Decisions
open Numeral

structure PolicyDecisionQuery where
  repository : Option Str := none
  state : Option PolicyDecisionState := none
  rule : Option Str := none
  source : Option Str := none
  evaluatedFromUnix : Option Int64 := none
  evaluatedToUnix : Option Int64 := none
  cursor : Option Str := none
  limit : Nat := 25

structure PolicyDecisionItem where
  record : PolicyDecisionRecord
  fresh : Bool
  deriving DecidableEq

structure PolicyDecisionPage where
  decisions : List PolicyDecisionItem
  nextCursor : Option Str
  deriving DecidableEq

inductive PolicyDecisionQueryError where
  | invalidLimit
  | invalidCursor
  deriving DecidableEq

def maxQueryLimit : Nat := 100

def isHexDigit (byte : UInt8) : Bool :=
  (0x30 ≤ byte && byte ≤ 0x39) || (0x61 ≤ byte && byte ≤ 0x66) || (0x41 ≤ byte && byte ≤ 0x46)

def validCursor (cursor : Str) : Bool :=
  cursor.length == 19 && Str.startsWith cursor (str "pd_") && (cursor.drop 3).all isHexDigit

def matchesQuery (record : PolicyDecisionRecord) (query : PolicyDecisionQuery) : Bool :=
  query.repository.all (fun repository => record.repository == repository) &&
    query.state.all (fun state => record.state == state) &&
    query.rule.all (fun rule => record.rule == some rule) &&
    query.source.all (fun source => record.source == some source) &&
    query.evaluatedFromUnix.all (fun start => decide (start ≤ record.evaluatedAtUnix)) &&
    query.evaluatedToUnix.all (fun stop => decide (record.evaluatedAtUnix ≤ stop))

def decisionItem (tables : DecisionTables) (record : PolicyDecisionRecord) : PolicyDecisionItem where
  record := record
  fresh := record.inputGeneration == currentInputs tables record.repository

def scanHistory (tables : DecisionTables) (query : PolicyDecisionQuery) :
    List (Str × PolicyDecisionRecord) → List (Str × PolicyDecisionItem) →
      List (Str × PolicyDecisionItem)
  | [], found => found
  | (id, record) :: rows, found =>
    if query.cursor.any fun cursor => (compare id cursor).isGE then scanHistory tables query rows found
    else if matchesQuery record query = false then scanHistory tables query rows found
    else
      let found := found ++ [(id, decisionItem tables record)]
      if query.limit < found.length then found else scanHistory tables query rows found

def queryPolicyDecisions (tables : DecisionTables) (query : PolicyDecisionQuery) :
    Except PolicyDecisionQueryError PolicyDecisionPage :=
  if query.limit = 0 ∨ maxQueryLimit < query.limit then .error .invalidLimit
  else if query.cursor.any fun cursor => !validCursor cursor then .error .invalidCursor
  else
    let found := scanHistory tables query tables.history.toList.reverse []
    .ok ⟨(found.map Prod.snd).take query.limit,
      if query.limit < found.length then (found.map Prod.fst)[query.limit - 1]? else none⟩

/-- The rows of the history with their places in the log, the oldest first. -/
def DecisionState.rows (state : DecisionState) : List (Nat × PolicyDecisionRecord) :=
  (List.range state.log.length).filterMap fun place => (state.row place).map fun record => (place, record)

theorem mem_rows (state : DecisionState) (place : Nat) (record : PolicyDecisionRecord) :
    (place, record) ∈ state.rows ↔ place < state.log.length ∧ state.row place = some record := by
  unfold DecisionState.rows
  rw [List.mem_filterMap]
  constructor
  · intro ⟨other, hother, hrow⟩
    obtain ⟨found, hfound, heq⟩ := Option.map_eq_some_iff.mp hrow
    cases heq
    exact ⟨List.mem_range.mp hother, hfound⟩
  · intro ⟨hless, hrow⟩
    exact ⟨place, List.mem_range.mpr hless, by rw [hrow]; rfl⟩

theorem rows_sorted (state : DecisionState) : state.rows.Pairwise fun a b => a.1 < b.1 := by
  unfold DecisionState.rows
  rw [List.pairwise_filterMap]
  refine List.pairwise_lt_range.imp ?_
  intro a b hless x hx y hy
  obtain ⟨-, -, rfl⟩ := Option.map_eq_some_iff.mp hx
  obtain ⟨-, -, rfl⟩ := Option.map_eq_some_iff.mp hy
  exact hless

def tableRow (row : Nat × PolicyDecisionRecord) : Str × PolicyDecisionRecord :=
  (decisionId (row.1 + 1), row.2)

variable {maximum : Nat} {state : DecisionState}

theorem Pointed.place (h : Pointed state.tables state.log) {id : Str} {record : PolicyDecisionRecord}
    (hrow : state.tables.history[id]? = some record) :
    ∃ place, place < state.log.length ∧ id = decisionId (place + 1) ∧
      state.row place = some record := by
  obtain ⟨place, entry, hentry, hid, -⟩ := h.rows id record hrow
  refine ⟨place, ?_, hid, ?_⟩
  · exact (List.getElem?_eq_some_iff.mp hentry).1
  · unfold DecisionState.row
    rw [← hid]
    exact hrow

theorem toList_history (h : Pointed state.tables state.log) (hlength : state.log.length < 2 ^ 64) :
    state.tables.history.toList = state.rows.map tableRow := by
  have hsorted : (state.rows.map tableRow).Pairwise fun a b => compare a.1 b.1 = .lt := by
    rw [List.pairwise_map]
    refine List.Pairwise.imp_of_mem ?_ (rows_sorted state)
    intro a b ha hb hless
    have hb' := ((mem_rows state b.1 b.2).mp hb).1
    show compare (decisionId (a.1 + 1)) (decisionId (b.1 + 1)) = .lt
    rw [compare_decisionId _ _ (by omega) (by omega)]
    exact Nat.compare_eq_lt.mpr (by omega)
  have hmem : ∀ row, row ∈ state.tables.history.toList ↔ row ∈ state.rows.map tableRow := by
    intro ⟨id, record⟩
    rw [Std.ExtTreeMap.mem_toList_iff_getElem?_eq_some, List.mem_map]
    constructor
    · intro hrow
      obtain ⟨place, hless, hid, hplace⟩ := h.place hrow
      exact ⟨(place, record), (mem_rows state place record).mpr ⟨hless, hplace⟩, by rw [hid]; rfl⟩
    · intro ⟨⟨place, found⟩, hmem, heq⟩
      cases heq
      exact ((mem_rows state place found).mp hmem).2
  have hirrefl : Std.Irrefl fun a b : Str × PolicyDecisionRecord => compare a.1 b.1 = .lt :=
    ⟨fun a hless => by rw [Std.ReflOrd.compare_self] at hless; cases hless⟩
  have hanti : Std.Antisymm fun a b : Str × PolicyDecisionRecord => compare a.1 b.1 = .lt :=
    ⟨fun a b hab hba => by
      rw [Std.OrientedOrd.eq_swap, hba] at hab
      cases hab⟩
  exact Std.ExtTreeMap.ordered_keys_toList.eq_of_mem_iff hsorted hmem

def taken (query : PolicyDecisionQuery) (row : Str × PolicyDecisionRecord) : Bool :=
  query.cursor.all (fun cursor => (compare row.1 cursor).isLT) && matchesQuery row.2 query

theorem scanHistory_cons (tables : DecisionTables) (query : PolicyDecisionQuery)
    (row : Str × PolicyDecisionRecord) (rows : List (Str × PolicyDecisionRecord))
    (found : List (Str × PolicyDecisionItem)) :
    scanHistory tables query (row :: rows) found =
      if taken query row then
        if query.limit < found.length + 1 then found ++ [(row.1, decisionItem tables row.2)]
        else scanHistory tables query rows (found ++ [(row.1, decisionItem tables row.2)])
      else scanHistory tables query rows found := by
  have hskip : taken query row = (!(query.cursor.any fun cursor => (compare row.1 cursor).isGE) &&
      matchesQuery row.2 query) := by
    unfold taken
    cases query.cursor with
    | none => rfl
    | some cursor =>
      show ((compare row.1 cursor).isLT && _) = (!(compare row.1 cursor).isGE && _)
      cases compare row.1 cursor <;> rfl
  rw [hskip, scanHistory]
  cases query.cursor.any fun cursor => (compare row.1 cursor).isGE with
  | true => rfl
  | false =>
    cases matchesQuery row.2 query with
    | false => rfl
    | true => simp only [List.length_append, List.length_singleton]; rfl

theorem scanHistory_eq (tables : DecisionTables) (query : PolicyDecisionQuery)
    (rows : List (Str × PolicyDecisionRecord)) (found : List (Str × PolicyDecisionItem))
    (hfound : found.length ≤ query.limit) :
    scanHistory tables query rows found =
      (found ++ (rows.filter (taken query)).map fun row => (row.1, decisionItem tables row.2)).take
        (query.limit + 1) := by
  induction rows generalizing found with
  | nil =>
    rw [scanHistory, List.filter_nil, List.map_nil, List.append_nil, List.take_of_length_le (by omega)]
  | cons row rows ih =>
    rw [scanHistory_cons]
    cases htaken : taken query row with
    | false =>
      rw [if_neg (by decide), List.filter_cons_of_neg (by rw [htaken]; decide)]
      exact ih found hfound
    | true =>
      rw [if_pos rfl, List.filter_cons_of_pos htaken, List.map_cons]
      by_cases hfull : query.limit < found.length + 1
      · have hlength : found.length = query.limit := by omega
        rw [if_pos hfull, List.append_cons found _ ((rows.filter (taken query)).map _)]
        refine (List.take_left' ?_).symm
        rw [List.length_append, List.length_singleton, hlength]
      · rw [if_neg hfull, ih _ (by rw [List.length_append, List.length_singleton]; omega)]
        rw [List.append_assoc]
        rfl

def shown (state : DecisionState) (query : PolicyDecisionQuery) (bound : Nat) :
    List (Nat × PolicyDecisionRecord) :=
  Cursor.after (fun row => OrderDual.toDual row.1) (OrderDual.toDual bound)
    (state.rows.reverse.filter fun row => matchesQuery row.2 query)

def CursorAt (bound : Nat) : Option Str → Prop
  | none => bound = 2 ^ 64
  | some cursor => bound < 2 ^ 64 - 1 ∧ cursor = decisionId (bound + 1)

theorem mem_shown (state : DecisionState) (query : PolicyDecisionQuery) (bound place : Nat)
    (record : PolicyDecisionRecord) :
    (place, record) ∈ shown state query bound ↔
      (place < state.log.length ∧ state.row place = some record ∧ matchesQuery record query = true) ∧
        place < bound := by
  unfold shown
  rw [Cursor.mem_after, List.mem_filter, List.mem_reverse, mem_rows]
  simp only [and_assoc]
  rfl

theorem taken_filter (h : Pointed state.tables state.log) (hlength : state.log.length < 2 ^ 64)
    (query : PolicyDecisionQuery) (bound : Nat) (cursor : Option Str) (hcursor : CursorAt bound cursor) :
    state.tables.history.toList.reverse.filter (taken { query with cursor }) =
      (shown state query bound).map tableRow := by
  rw [toList_history h (by omega), ← List.map_reverse, List.filter_map]
  congr 1
  unfold shown Cursor.after
  rw [List.filter_filter]
  refine List.filter_congr fun row hrow => ?_
  have hplace := ((mem_rows state row.1 row.2).mp (List.mem_reverse.mp hrow)).1
  show ((cursor.all fun cursor => (compare (decisionId (row.1 + 1)) cursor).isLT) &&
    matchesQuery row.2 { query with cursor }) = _
  have hmatch : matchesQuery row.2 { query with cursor } = matchesQuery row.2 query := rfl
  rw [hmatch]
  congr 1
  cases cursor with
  | none =>
    have hbound : bound = 2 ^ 64 := hcursor
    exact (decide_eq_true (show row.1 < bound by omega)).symm
  | some cursor =>
    obtain ⟨hbound, rfl⟩ := hcursor
    show (compare (decisionId (row.1 + 1)) (decisionId (bound + 1))).isLT = decide (row.1 < bound)
    rw [compare_decisionId _ _ (by omega) (by omega)]
    by_cases hless : row.1 < bound
    · rw [Nat.compare_eq_lt.mpr (by omega), decide_eq_true hless]
      rfl
    · rw [decide_eq_false hless]
      cases hcompare : compare (row.1 + 1) (bound + 1) with
      | lt => exact absurd (Nat.compare_eq_lt.mp hcompare) (by omega)
      | eq => rfl
      | gt => rfl

theorem validCursor_decisionId (number : Nat) (h : number < 16 ^ 16) :
    validCursor (decisionId number) = true := by
  have hlength : (decisionId number).length = 19 := by
    unfold decisionId
    rw [List.length_append, length_padded (by omega) 16 number (by omega) h]
    rfl
  have hstart : Str.startsWith (decisionId number) (str "pd_") = true :=
    (Str.startsWith_iff _ _).mpr (List.prefix_append _ _)
  have hhex : ((decisionId number).drop 3).all isHexDigit = true := by
    refine List.all_eq_true.mpr fun byte hbyte => ?_
    have hdigits : ∀ digit < 16, isHexDigit (digitByte digit) = true := by decide
    have hpadded : (decisionId number).drop 3 = padded 16 16 number := rfl
    rw [hpadded] at hbyte
    obtain ⟨digit, hdigit, rfl⟩ := List.mem_map.mp hbyte
    exact hdigits digit (paddedDigits_lt (by omega) 16 number digit hdigit)
  unfold validCursor
  rw [hlength, hstart, hhex]
  rfl

/-- Every query with a fair limit is answered with the first rows below its cursor, and with
the place of the last of them when there are more. -/
theorem query_page (h : Pointed state.tables state.log) (hlength : state.log.length < 2 ^ 64)
    (query : PolicyDecisionQuery) (hlimit : 1 ≤ query.limit ∧ query.limit ≤ maxQueryLimit)
    (bound : Nat) (cursor : Option Str) (hcursor : CursorAt bound cursor) :
    ∃ page, queryPolicyDecisions state.tables { query with cursor } = .ok page ∧
      page.decisions = ((shown state query bound).take query.limit).map
        (fun row => decisionItem state.tables row.2) ∧
      page.nextCursor = if query.limit < (shown state query bound).length then
        (((shown state query bound).take query.limit).getLast?).map fun row => decisionId (row.1 + 1)
        else none := by
  unfold queryPolicyDecisions
  rw [if_neg (show ¬ (query.limit = 0 ∨ maxQueryLimit < query.limit) by omega), if_neg ?valid]
  case valid =>
    cases cursor with
    | none => exact nofun
    | some cursor =>
      obtain ⟨hbound, rfl⟩ := hcursor
      show ¬ (!validCursor (decisionId (bound + 1))) = true
      rw [validCursor_decisionId (bound + 1) (by omega)]
      decide
  have hscan : scanHistory state.tables { query with cursor } state.tables.history.toList.reverse [] =
      ((shown state query bound).take (query.limit + 1)).map fun row =>
        (decisionId (row.1 + 1), decisionItem state.tables row.2) := by
    rw [scanHistory_eq _ _ _ _ (Nat.zero_le _), List.nil_append,
      taken_filter h hlength query bound cursor hcursor, List.map_map, ← List.map_take]
    rfl
  refine ⟨_, rfl, ?_, ?_⟩
  · dsimp only
    rw [hscan, List.map_map, ← List.map_take, List.take_take, Nat.min_eq_left (Nat.le_succ _)]
    rfl
  · dsimp only
    rw [hscan, List.map_map, List.length_map, List.length_take]
    by_cases hmore : query.limit < (shown state query bound).length
    · have hin : query.limit - 1 < (shown state query bound).length := by omega
      rw [if_pos (by omega), if_pos hmore, List.getElem?_map, List.getElem?_take,
        if_pos (show query.limit - 1 < query.limit + 1 by omega), List.getLast?_take,
        if_neg (show ¬ query.limit = 0 by omega), List.getElem?_eq_getElem hin]
      rfl
    · rw [if_neg (by omega), if_neg hmore]

theorem shown_sorted (state : DecisionState) (query : PolicyDecisionQuery) (bound : Nat) :
    (shown state query bound).Pairwise fun a b => b.1 < a.1 := by
  refine Cursor.sorted_after (fun row : Nat × PolicyDecisionRecord => OrderDual.toDual row.1)
    (OrderDual.toDual bound) _ ?_
  exact (List.pairwise_reverse.mpr (rows_sorted state)).sublist List.filter_sublist

theorem pruneHistory_row (tables : DecisionTables) (id : Str) (record : PolicyDecisionRecord)
    (h : (pruneHistory maximum tables).history[id]? = some record) :
    tables.history[id]? = some record := by
  by_cases hlarge : maximum < tables.history.size
  · obtain ⟨staleId, hmin⟩ := minKey_of_large hlarge
    rw [pruneHistory_large hlarge hmin] at h
    exact ((getElem?_erase_row _ _ _ _).mp h).2
  · rw [pruneHistory_small (by omega)] at h
    exact h

theorem row_step {next : DecisionState} (hstep : DecisionStep maximum state next) (place : Nat)
    (record : PolicyDecisionRecord) (hplace : place < state.log.length)
    (hcounted : state.tables.decisionSerial = state.log.length)
    (hrow : next.row place = some record) : state.row place = some record := by
  cases hstep with
  | record uuid decision =>
    rcases recordStep_cases state uuid decision with heq | ⟨entry, -, -, -, heq⟩
    · rw [heq] at hrow
      exact hrow
    · rw [heq] at hrow
      have hinserted : (state.tables.history.insert (decisionId (state.tables.decisionSerial + 1))
          entry.record)[decisionId (place + 1)]? = some record := pruneHistory_row _ _ _ hrow
      have hother : decisionId (state.tables.decisionSerial + 1) ≠ decisionId (place + 1) := by
        intro hid
        have hsame := decisionId_inj hid
        omega
      have hset := Table.getElem?_set state.tables.history
        (decisionId (state.tables.decisionSerial + 1)) (decisionId (place + 1)) (some entry.record)
      rw [if_neg hother] at hset
      exact hset.symm.trans hinserted
  | advance repository => exact hrow
  | commit journal catalogGeneration =>
    obtain ⟨serial, generations, heq⟩ := commit_tables state.tables journal catalogGeneration
    unfold DecisionState.row at hrow
    rw [heq] at hrow
    exact hrow
  | failed => exact hrow

/-- An item of a page is the matching record of this place in the log. -/
def Shows (query : PolicyDecisionQuery) (log : List Recorded) (item : PolicyDecisionItem)
    (place : Nat) : Prop :=
  ∃ entry, log[place]? = some entry ∧ item.record = entry.record ∧
    matchesQuery entry.record query = true

theorem Shows.later {query : PolicyDecisionQuery} {log : List Recorded} {item : PolicyDecisionItem}
    {place : Nat} (h : Shows query log item place) (after : List Recorded) (hlog : log <+: after) :
    Shows query after item place := by
  obtain ⟨entry, hentry, hrest⟩ := h
  obtain ⟨more, rfl⟩ := hlog
  refine ⟨entry, ?_, hrest⟩
  rw [List.getElem?_append_left (List.getElem?_eq_some_iff.mp hentry).1]
  exact hentry

structure Paged (query : PolicyDecisionQuery) (first state : DecisionState) (bound : Nat)
    (items : List PolicyDecisionItem) (places : List Nat) : Prop where
  shows : List.Forall₂ (Shows query state.log) items places
  sorted : places.Pairwise fun a b => b < a
  above : ∀ place ∈ places, bound ≤ place
  complete : ∀ place record, bound ≤ place → (first.row place).isSome →
    state.row place = some record → matchesQuery record query = true → place ∈ places

variable {query : PolicyDecisionQuery} {first : DecisionState}

theorem Paged.page (hkept : state.Kept maximum) {bound : Nat} {items : List PolicyDecisionItem}
    {places : List Nat} (h : Paged query first state bound items places) (count lower : Nat)
    (hlower : lower ≤ bound)
    (hrest : Cursor.after (fun row : Nat × PolicyDecisionRecord => OrderDual.toDual row.1)
      (OrderDual.toDual lower) (shown state query bound) = (shown state query bound).drop count)
    (habove : ∀ row ∈ (shown state query bound).take count, lower ≤ row.1) :
    Paged query first state lower
      (items ++ ((shown state query bound).take count).map fun row => decisionItem state.tables row.2)
      (places ++ ((shown state query bound).take count).map Prod.fst) := by
  have htake : ∀ row ∈ (shown state query bound).take count,
      row.1 < bound ∧ Shows query state.log (decisionItem state.tables row.2) row.1 := by
    intro row hrow
    obtain ⟨⟨hless, hsome, hmatch⟩, hbound⟩ :=
      (mem_shown state query bound row.1 row.2).mp (List.mem_of_mem_take hrow)
    obtain ⟨entry, hentry, hrecord⟩ := hkept.pointed.row hsome
    exact ⟨hbound, entry, hentry, hrecord, hrecord ▸ hmatch⟩
  refine ⟨List.rel_append h.shows ?_, ?_, ?_, ?_⟩
  · rw [List.forall₂_map_left_iff, List.forall₂_map_right_iff, List.forall₂_same]
    exact fun row hrow => (htake row hrow).2
  · rw [List.pairwise_append]
    refine ⟨h.sorted, ?_, ?_⟩
    · rw [List.pairwise_map]
      exact (shown_sorted state query bound).sublist (List.take_sublist _ _)
    · intro place hplace other hother
      obtain ⟨row, hrow, rfl⟩ := List.mem_map.mp hother
      exact Nat.lt_of_lt_of_le (htake row hrow).1 (h.above place hplace)
  · intro place hplace
    rcases List.mem_append.mp hplace with hplace | hplace
    · exact hlower.trans (h.above place hplace)
    · obtain ⟨row, hrow, rfl⟩ := List.mem_map.mp hplace
      exact habove row hrow
  · intro place record hplace hfirst hrow hmatch
    by_cases hbound : bound ≤ place
    · exact List.mem_append_left _ (h.complete place record hbound hfirst hrow hmatch)
    · refine List.mem_append_right _ (List.mem_map.mpr ⟨(place, record), ?_, rfl⟩)
      obtain ⟨entry, hentry, -⟩ := hkept.pointed.row hrow
      have hshown : (place, record) ∈ shown state query bound := (mem_shown _ _ _ _ _).mpr
        ⟨⟨(List.getElem?_eq_some_iff.mp hentry).1, hrow, hmatch⟩, Nat.lt_of_not_le hbound⟩
      rw [← List.take_append_drop count (shown state query bound), List.mem_append] at hshown
      refine hshown.resolve_right fun hdrop => ?_
      rw [← hrest, Cursor.mem_after] at hdrop
      exact absurd hdrop.2 (Nat.not_lt.mpr hplace)

theorem Paged.change {next : DecisionState} (hfirst : first.Kept maximum) (hkept : state.Kept maximum)
    (hlog : first.log <+: state.log) (hstep : DecisionStep maximum state next) {bound : Nat}
    {items : List PolicyDecisionItem} {places : List Nat}
    (h : Paged query first state bound items places) : Paged query first next bound items places := by
  have hgrown : state.log <+: next.log := (run_later (.single hstep)).2
  refine ⟨h.shows.imp fun item place hshows => hshows.later next.log hgrown, h.sorted, h.above, ?_⟩
  intro place record hplace hsome hrow hmatch
  obtain ⟨old, hold⟩ := Option.isSome_iff_exists.mp hsome
  obtain ⟨entry, hentry, -⟩ := hfirst.pointed.row hold
  have hless : place < state.log.length :=
    Nat.lt_of_lt_of_le (List.getElem?_eq_some_iff.mp hentry).1 hlog.length_le
  exact h.complete place record hplace hsome
    (row_step hstep place record hless hkept.pointed.counted hrow) hmatch

theorem Paged.fetch (hkept : state.Kept maximum) (hlength : state.log.length < 2 ^ 64)
    (hlimit : 1 ≤ query.limit ∧ query.limit ≤ maxQueryLimit) {bound : Nat} {cursor : Option Str}
    (hcursor : CursorAt bound cursor) {items : List PolicyDecisionItem} {places : List Nat}
    (h : Paged query first state bound items places) :
    ∃ page, queryPolicyDecisions state.tables { query with cursor } = .ok page ∧
      ∃ lower more, Paged query first state lower (items ++ page.decisions) (places ++ more) ∧
        (page.nextCursor = none → lower = 0) ∧
        ∀ later, page.nextCursor = some later → CursorAt lower (some later) := by
  obtain ⟨page, hpage, hdecisions, hnext⟩ :=
    query_page hkept.pointed hlength query hlimit bound cursor hcursor
  refine ⟨page, hpage, ?_⟩
  rw [hdecisions, hnext]
  by_cases hmore : query.limit < (shown state query bound).length
  · have hne : (shown state query bound).take query.limit ≠ [] := by
      intro hnil
      have hzero := congrArg List.length hnil
      rw [List.length_take, List.length_nil] at hzero
      omega
    obtain ⟨last, hlast⟩ := List.getLast?_isSome.mpr hne |> Option.isSome_iff_exists.mp
    have hmem : last ∈ (shown state query bound).take query.limit := List.mem_of_getLast? hlast
    obtain ⟨⟨hless, -, -⟩, hbelow⟩ :=
      (mem_shown state query bound last.1 last.2).mp (List.mem_of_mem_take hmem)
    have hrest : Cursor.after (fun row : Nat × PolicyDecisionRecord => OrderDual.toDual row.1)
        (OrderDual.toDual last.1) (shown state query bound) =
          (shown state query bound).drop query.limit := by
      unfold shown at hlast ⊢
      have hlower : OrderDual.toDual bound ≤ OrderDual.toDual last.1 := Nat.le_of_lt hbelow
      rw [Cursor.after_after _ _ _ _ hlower]
      refine Cursor.after_last (fun row : Nat × PolicyDecisionRecord => OrderDual.toDual row.1)
        (OrderDual.toDual bound) _ query.limit last ?_ hlast
      exact (List.pairwise_reverse.mpr (rows_sorted state)).sublist List.filter_sublist
    have habove : ∀ row ∈ (shown state query bound).take query.limit, last.1 ≤ row.1 := by
      intro row hrow
      have hsorted := (shown_sorted state query bound).sublist (List.take_sublist query.limit _)
      obtain ⟨front, hfront⟩ := List.getLast?_eq_some_iff.mp hlast
      rw [hfront] at hrow hsorted
      rcases List.mem_append.mp hrow with hrow | hrow
      · exact Nat.le_of_lt
          ((List.pairwise_append.mp hsorted).2.2 row hrow last (List.mem_singleton_self last))
      · rw [List.mem_singleton.mp hrow]
    refine ⟨last.1, _, h.page hkept query.limit last.1 (Nat.le_of_lt hbelow) hrest habove, ?_, ?_⟩
    · rw [if_pos hmore, hlast]
      exact nofun
    · intro later hlater
      rw [if_pos hmore, hlast] at hlater
      cases hlater
      exact ⟨by omega, rfl⟩
  · have hall : (shown state query bound).length ≤ query.limit := by omega
    refine ⟨0, _, h.page hkept query.limit 0 (Nat.zero_le _) ?_ fun _ _ => Nat.zero_le _, ?_, ?_⟩
    · rw [List.drop_eq_nil_of_le hall]
      exact Cursor.after_eq_nil _ _ _ fun row _ => OrderDual.toDual_le_toDual.mpr (Nat.zero_le row.1)
    · exact fun _ => rfl
    · intro later hlater
      rw [if_neg hmore] at hlater
      cases hlater

end Peryx.Decisions
