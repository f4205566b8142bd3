import Peryx.Library.LookupTable
import Peryx.Storage.PolicyDecisions

/-! # The decision history along every run -/

namespace Peryx.Decisions
open Numeral

theorem decisionId_inj {number other : Nat} (h : decisionId number = decisionId other) :
    number = other :=
  padded_inj (by omega) (by omega) 16 number other (List.append_cancel_left h)

theorem compare_decisionId (a b : Nat) (ha : a < 16 ^ 16) (hb : b < 16 ^ 16) :
    compare (decisionId a) (decisionId b) = compare a b := by
  unfold decisionId
  rw [compare_append _ _ _ _ rfl, compare_padded (by omega) (by omega) 16 a b (by omega) ha hb]
  have hself : compare (str "pd_") (str "pd_") = .eq := Std.ReflCmp.compare_self
  rw [hself, Ordering.eq_then]

theorem minKey_of_large {maximum : Nat} {history : Table Str PolicyDecisionRecord}
    (h : maximum < history.size) : ∃ staleId, history.minKey? = some staleId := by
  cases hmin : history.minKey? with
  | some staleId => exact ⟨staleId, rfl⟩
  | none =>
    rw [Std.ExtTreeMap.minKey?_eq_none_iff] at hmin
    rw [hmin, Std.ExtTreeMap.size_empty] at h
    omega

theorem pruneHistory_small {maximum : Nat} {tables : DecisionTables}
    (h : tables.history.size ≤ maximum) : pruneHistory maximum tables = tables := by
  unfold pruneHistory
  rw [if_neg (by omega)]

theorem pruneHistory_large {maximum : Nat} {tables : DecisionTables} {staleId : Str}
    (h : maximum < tables.history.size) (hmin : tables.history.minKey? = some staleId) :
    pruneHistory maximum tables = { tables with
      history := tables.history.erase staleId
      current := tables.current.clear tables.currentIds[staleId]?
      currentIds := tables.currentIds.erase staleId } := by
  unfold pruneHistory
  rw [if_pos h, ← Std.ExtTreeMap.minKey?_eq_head?_keys, hmin]
  dsimp only
  cases hstale : tables.currentIds[staleId]? with
  | some subject => rfl
  | none =>
    rw [Table.erase_eq_self tables.currentIds staleId hstale]
    rfl

theorem replaceCurrent_currentIds (tables : DecisionTables) (subject historyId : Str) :
    (replaceCurrent tables subject historyId).currentIds =
      tables.currentIds.move tables.current[subject]? (some historyId) subject := by
  unfold replaceCurrent
  cases tables.current[subject]? <;> rfl

structure Pointed (tables : DecisionTables) (log : List Recorded) : Prop where
  counted : tables.decisionSerial = log.length
  rows : ∀ (id : Str) record, tables.history[id]? = some record →
    ∃ place entry, log[place]? = some entry ∧ id = decisionId (place + 1) ∧ record = entry.record
  pointer : ∀ key id : Str, tables.current[key]? = some id ↔
    ∃ place entry, LatestRecorded log entry.decision.subject place entry ∧
      key = subjectKey entry.decision ∧ id = decisionId (place + 1) ∧
      ∃ record, tables.history[id]? = some record
  back : tables.currentIds.Finds fun key => tables.current[key]?

variable {tables : DecisionTables} {log : List Recorded} {maximum : Nat}

theorem Pointed.row (h : Pointed tables log) {place : Nat} {record : PolicyDecisionRecord}
    (hrow : tables.history[decisionId (place + 1)]? = some record) :
    ∃ entry, log[place]? = some entry ∧ record = entry.record := by
  obtain ⟨place', entry, hentry, hid, hrecord⟩ := h.rows _ record hrow
  have hplace := decisionId_inj hid
  obtain rfl : place = place' := by omega
  exact ⟨entry, hentry, hrecord⟩

theorem Pointed.fresh (h : Pointed tables log) :
    tables.history[decisionId (log.length + 1)]? = none := by
  cases hrow : tables.history[decisionId (log.length + 1)]? with
  | none => rfl
  | some record =>
    obtain ⟨entry, hentry, -⟩ := h.row hrow
    rw [List.getElem?_eq_none (Nat.le_refl _)] at hentry
    cases hentry

theorem getElem?_erase_row (history : Table Str PolicyDecisionRecord) (staleId id : Str)
    (record : PolicyDecisionRecord) :
    (history.erase staleId)[id]? = some record ↔ id ≠ staleId ∧ history[id]? = some record := by
  have hrow := Table.getElem?_set history staleId id none
  have herase : (history.set staleId none) = history.erase staleId := rfl
  rw [← herase, hrow]
  by_cases hid : staleId = id
  · simp [hid]
  · rw [if_neg hid]
    exact ⟨fun hsome => ⟨fun heq => hid heq.symm, hsome⟩, fun hboth => hboth.2⟩

theorem prune_pointed (h : Pointed tables log) : Pointed (pruneHistory maximum tables) log := by
  by_cases hlarge : maximum < tables.history.size
  · obtain ⟨staleId, hmin⟩ := minKey_of_large hlarge
    rw [pruneHistory_large hlarge hmin]
    -- a subject other than the cleared one points at another row
    have hother : ∀ key id : Str, tables.current[key]? = some id →
        (tables.currentIds[staleId]? = some key ↔ id = staleId) := by
      intro key id hkey
      rw [h.back staleId key]
      dsimp only
      rw [hkey, Option.some.injEq]
    have hcleared : ∀ key id : Str, (tables.current.clear tables.currentIds[staleId]?)[key]? = some id ↔
        id ≠ staleId ∧ tables.current[key]? = some id := by
      intro key id
      rw [Table.getElem?_clear]
      split
      · rename_i hstale
        refine iff_of_false nofun fun hboth => hboth.1 ((hother key id hboth.2).mp hstale)
      · rename_i hstale
        exact ⟨fun hkey => ⟨fun heq => hstale ((hother key id hkey).mpr heq), hkey⟩, fun hboth => hboth.2⟩
    refine ⟨h.counted, ?_, ?_, ?_⟩
    · intro id record hrow
      exact h.rows id record ((getElem?_erase_row _ _ _ _).mp hrow).2
    · intro key id
      dsimp only
      rw [hcleared key id, h.pointer key id]
      constructor
      · rintro ⟨hid, place, entry, hlatest, hkey, hplace, record, hrow⟩
        exact ⟨place, entry, hlatest, hkey, hplace, record, (getElem?_erase_row _ _ _ _).mpr ⟨hid, hrow⟩⟩
      · rintro ⟨place, entry, hlatest, hkey, hplace, record, hrow⟩
        obtain ⟨hid, hrow⟩ := (getElem?_erase_row _ _ _ _).mp hrow
        exact ⟨hid, place, entry, hlatest, hkey, hplace, record, hrow⟩
    · intro id key
      dsimp only
      rw [hcleared key id]
      have hrow := Table.getElem?_set tables.currentIds staleId id none
      have herase : (tables.currentIds.set staleId none) = tables.currentIds.erase staleId := rfl
      rw [← herase, hrow, ← h.back id key]
      by_cases hid : staleId = id
      · simp [hid]
      · rw [if_neg hid]
        exact ⟨fun hsome => ⟨fun heq => hid heq.symm, hsome⟩, fun hboth => hboth.2⟩
  · rw [pruneHistory_small (by omega)]
    exact h

theorem latest_append_of_ne {subject : PolicyDecisionSubject} {place : Nat} {entry new : Recorded}
    (hne : new.decision.subject ≠ subject) :
    LatestRecorded (log ++ [new]) subject place entry ↔ LatestRecorded log subject place entry := by
  have hlast : ∀ (place' : Nat) other, (log ++ [new])[place']? = some other →
      log[place']? = some other ∨ other = new := by
    intro place' other hother
    by_cases hplace : place' < log.length
    · rw [List.getElem?_append_left hplace] at hother
      exact .inl hother
    · rw [List.getElem?_append_right (by omega)] at hother
      exact .inr (List.mem_singleton.mp (List.mem_of_getElem? hother))
  have hmono : ∀ (place' : Nat) other, log[place']? = some other →
      (log ++ [new])[place']? = some other := by
    intro place' other hother
    obtain ⟨hplace, -⟩ := List.getElem?_eq_some_iff.mp hother
    rw [List.getElem?_append_left hplace]
    exact hother
  constructor
  · rintro ⟨hentry, hsubject, hlater⟩
    refine ⟨?_, hsubject, fun later other hlt hother => hlater later other hlt (hmono later other hother)⟩
    rcases hlast place entry hentry with hold | rfl
    · exact hold
    · exact absurd hsubject hne
  · rintro ⟨hentry, hsubject, hlater⟩
    refine ⟨hmono place entry hentry, hsubject, fun later other hlt hother => ?_⟩
    rcases hlast later other hother with hold | rfl
    · exact hlater later other hlt hold
    · exact hne

theorem latest_append_self {place : Nat} {entry new : Recorded} :
    LatestRecorded (log ++ [new]) new.decision.subject place entry ↔
      place = log.length ∧ entry = new := by
  have hnew : (log ++ [new])[log.length]? = some new := List.getElem?_concat_length
  constructor
  · rintro ⟨hentry, -, hlater⟩
    obtain ⟨hplace, -⟩ := List.getElem?_eq_some_iff.mp hentry
    rw [List.length_append, List.length_singleton] at hplace
    by_cases hlast : place = log.length
    · subst hlast
      rw [hnew] at hentry
      exact ⟨rfl, (Option.some.inj hentry).symm⟩
    · exact absurd rfl (hlater log.length new (by omega) hnew)
  · rintro ⟨rfl, rfl⟩
    refine ⟨hnew, rfl, fun later other hlt hother => ?_⟩
    obtain ⟨hplace, -⟩ := List.getElem?_eq_some_iff.mp hother
    rw [List.length_append, List.length_singleton] at hplace
    omega

def insertRecord (tables : DecisionTables) (entry : Recorded) : DecisionTables :=
  replaceCurrent { tables with
    decisionSerial := tables.decisionSerial + 1
    history := tables.history.insert (decisionId (tables.decisionSerial + 1)) entry.record }
    (subjectKey entry.decision) (decisionId (tables.decisionSerial + 1))

theorem insert_pointed (h : Pointed tables log) (entry : Recorded) :
    Pointed (insertRecord tables entry) (log ++ [entry]) := by
  let newId := decisionId (tables.decisionSerial + 1)
  let subject := subjectKey entry.decision
  have hcount : tables.decisionSerial = log.length := h.counted
  have hnewId : newId = decisionId (log.length + 1) := by rw [← hcount]
  have hhistory : ∀ id : Str, (insertRecord tables entry).history[id]? =
      if newId = id then some entry.record else tables.history[id]? :=
    fun id => Table.getElem?_set tables.history newId id (some entry.record)
  have hcurrent : ∀ key : Str, (insertRecord tables entry).current[key]? =
      if subject = key then some newId else tables.current[key]? :=
    fun key => Table.getElem?_set tables.current subject key (some newId)
  have hunused : ∀ key : Str, tables.current[key]? ≠ some newId := by
    intro key hkey
    obtain ⟨place, other, -, -, -, record, hrow⟩ := (h.pointer key newId).mp hkey
    rw [hnewId, h.fresh] at hrow
    cases hrow
  refine ⟨?_, ?_, ?_, ?_⟩
  · rw [List.length_append, List.length_singleton, ← hcount]
    rfl
  · intro id record hrow
    rw [hhistory id] at hrow
    split at hrow
    · rename_i hid
      exact ⟨log.length, entry, List.getElem?_concat_length, by rw [← hid, hnewId],
        (Option.some.inj hrow).symm⟩
    · obtain ⟨place, other, hother, hid, hrecord⟩ := h.rows id record hrow
      obtain ⟨hplace, -⟩ := List.getElem?_eq_some_iff.mp hother
      exact ⟨place, other, by rw [List.getElem?_append_left hplace, hother], hid, hrecord⟩
  · intro key id
    rw [hcurrent key, hhistory id]
    by_cases hkey : subject = key
    · rw [if_pos hkey, Option.some.injEq]
      constructor
      · intro hid
        refine ⟨log.length, entry, latest_append_self.mpr ⟨rfl, rfl⟩, hkey.symm, ?_, entry.record, ?_⟩
        · rw [← hid, hnewId]
        · rw [if_pos hid]
      · rintro ⟨place, other, hlatest, hother, hid, -⟩
        have hsubject : entry.decision.subject = other.decision.subject :=
          (subjectKey_eq_iff _ _).mp (hkey.trans hother)
        rw [← hsubject] at hlatest
        obtain ⟨rfl, -⟩ := latest_append_self.mp hlatest
        rw [hid, hnewId]
    · rw [if_neg hkey, h.pointer key id]
      have hlatest : ∀ place other, key = subjectKey other.decision →
          (LatestRecorded (log ++ [entry]) other.decision.subject place other ↔
            LatestRecorded log other.decision.subject place other) := by
        intro place other hother
        refine latest_append_of_ne fun hsubject => hkey ?_
        rw [hother]
        exact (subjectKey_eq_iff _ _).mpr hsubject
      constructor
      · rintro ⟨place, other, hold, hother, hid, record, hrow⟩
        refine ⟨place, other, (hlatest place other hother).mpr hold, hother, hid, record, ?_⟩
        rw [if_neg, hrow]
        rintro rfl
        rw [hnewId, h.fresh] at hrow
        cases hrow
      · rintro ⟨place, other, hnew, hother, hid, record, hrow⟩
        have hold := (hlatest place other hother).mp hnew
        refine ⟨place, other, hold, hother, hid, ?_⟩
        split at hrow
        · rename_i heq
          obtain ⟨hplace, -⟩ := List.getElem?_eq_some_iff.mp hold.1
          have hlength := decisionId_inj ((heq.trans hid).symm.trans hnewId)
          omega
        · exact ⟨record, hrow⟩
  · have hmoved := h.back.move tables.current[subject]? (some newId) subject (fun _ hkey => hkey)
      (fun id other hold hkey => h.back.inj hkey hold)
      (fun id other hnew hkey => by
        cases hnew
        exact absurd hkey (hunused other))
    have hids : (insertRecord tables entry).currentIds =
        tables.currentIds.move tables.current[subject]? (some newId) subject :=
      replaceCurrent_currentIds _ _ _
    rw [hids]
    refine hmoved.congr fun key => ?_
    rw [hcurrent key]
    by_cases hkey : subject = key
    · rw [if_pos hkey, if_pos hkey.symm]
    · rw [if_neg hkey, if_neg fun heq => hkey heq.symm]

def Recent (maximum : Nat) (tables : DecisionTables) (log : List Recorded) : Prop :=
  log.length < 2 ^ 64 → ∀ place < log.length,
    (∃ record, tables.history[decisionId (place + 1)]? = some record) ↔ log.length ≤ place + maximum

theorem insert_size (h : Pointed tables log) (entry : Recorded) :
    (insertRecord tables entry).history.size = tables.history.size + 1 := by
  have hfresh := h.fresh
  rw [← h.counted] at hfresh
  have hcontains : tables.history.contains (decisionId (tables.decisionSerial + 1)) = false := by
    rw [Std.ExtTreeMap.contains_eq_isSome_getElem?, hfresh]
    rfl
  show (tables.history.insert (decisionId (tables.decisionSerial + 1)) entry.record).size = _
  rw [Std.ExtTreeMap.size_insert, hcontains]
  rfl

theorem prune_size (tables : DecisionTables) (h : tables.history.size ≤ maximum + 1) :
    (pruneHistory maximum tables).history.size = min tables.history.size maximum := by
  by_cases hlarge : maximum < tables.history.size
  · obtain ⟨staleId, hmin⟩ := minKey_of_large hlarge
    have hcontains := Std.ExtTreeMap.contains_minKey? hmin
    rw [pruneHistory_large hlarge hmin]
    dsimp only
    rw [Std.ExtTreeMap.size_erase, if_pos hcontains]
    omega
  · rw [pruneHistory_small (by omega)]
    omega

theorem minKey_place {staleId : Str} (h : Pointed tables log) (hlength : log.length < 2 ^ 64)
    (hmin : tables.history.minKey? = some staleId) : ∃ place < log.length,
      staleId = decisionId (place + 1) ∧ (∃ record, tables.history[staleId]? = some record) ∧
      ∀ other < log.length, (∃ record, tables.history[decisionId (other + 1)]? = some record) →
        place ≤ other := by
  obtain ⟨hmem, hleast⟩ := Std.ExtTreeMap.minKey?_eq_some_iff_mem_and_forall.mp hmin
  obtain ⟨record, hrow⟩ := Option.isSome_iff_exists.mp (Std.ExtTreeMap.mem_iff_isSome_getElem?.mp hmem)
  obtain ⟨place, entry, hentry, hid, -⟩ := h.rows staleId record hrow
  obtain ⟨hplace, -⟩ := List.getElem?_eq_some_iff.mp hentry
  refine ⟨place, hplace, hid, ⟨record, hrow⟩, ?_⟩
  rintro other hother ⟨record', hrow'⟩
  have hmem' : decisionId (other + 1) ∈ tables.history := by
    rw [Std.ExtTreeMap.mem_iff_isSome_getElem?, hrow']
    rfl
  have hle := hleast _ hmem'
  have hfits : (16 : Nat) ^ 16 = 2 ^ 64 := by decide
  rw [hid, compare_decisionId (place + 1) (other + 1) (by omega) (by omega)] at hle
  have hnumbers := Nat.isLE_compare.mp hle
  omega

theorem record_recent (h : Pointed tables log) (hsize : tables.history.size = min log.length maximum)
    (hrecent : Recent maximum tables log) (entry : Recorded) :
    Recent maximum (pruneHistory maximum (insertRecord tables entry)) (log ++ [entry]) := by
  intro hlength
  have hinserted := insert_pointed h entry
  have hsize' := insert_size h entry
  rw [List.length_append, List.length_singleton] at hlength ⊢
  have hrows : ∀ place < log.length + 1,
      (∃ record, (insertRecord tables entry).history[decisionId (place + 1)]? = some record) ↔
        log.length ≤ place + maximum := by
    intro place hplace
    have hrow : (insertRecord tables entry).history[decisionId (place + 1)]? =
        if decisionId (tables.decisionSerial + 1) = decisionId (place + 1) then some entry.record
          else tables.history[decisionId (place + 1)]? :=
      Table.getElem?_set tables.history _ _ (some entry.record)
    rw [hrow, h.counted]
    by_cases hlast : place = log.length
    · subst hlast
      rw [if_pos rfl]
      exact iff_of_true ⟨_, rfl⟩ (by omega)
    · rw [if_neg fun heq => hlast (by have := decisionId_inj heq; omega)]
      exact hrecent (by omega) place (by omega)
  intro place hplace
  by_cases hlarge : maximum < (insertRecord tables entry).history.size
  · obtain ⟨staleId, hmin⟩ := minKey_of_large hlarge
    have hnewLength : (log ++ [entry]).length = log.length + 1 := by simp
    obtain ⟨oldest, holdest, hstale, hthere, hleast⟩ :=
      minKey_place hinserted (by omega) hmin
    rw [hnewLength] at holdest hleast
    rw [hstale, hrows oldest holdest] at hthere
    have hfirst := hleast (log.length - maximum) (by omega) ((hrows _ (by omega)).mpr (by omega))
    have hpruned : ∀ record,
        (pruneHistory maximum (insertRecord tables entry)).history[decisionId (place + 1)]? =
            some record ↔
          decisionId (place + 1) ≠ staleId ∧
            (insertRecord tables entry).history[decisionId (place + 1)]? = some record := by
      intro record
      rw [pruneHistory_large hlarge hmin]
      exact getElem?_erase_row _ _ _ _
    constructor
    · rintro ⟨record, hrow⟩
      obtain ⟨hne, hrow⟩ := (hpruned record).mp hrow
      have hkept := (hrows place hplace).mp ⟨record, hrow⟩
      have hnotOldest : place ≠ oldest := by
        rintro rfl
        exact hne hstale.symm
      omega
    · intro hkept
      obtain ⟨record, hrow⟩ := (hrows place hplace).mpr (by omega)
      refine ⟨record, (hpruned record).mpr ⟨fun heq => ?_, hrow⟩⟩
      have hnumber := decisionId_inj (heq.trans hstale)
      omega
  · rw [pruneHistory_small (by omega), hrows place hplace]
    omega

section Inputs
variable (tables : DecisionTables) (repository : Str)

def Later (before after : DecisionTables) : Prop :=
  ∀ repository : Str,
    (currentInputs before repository).repository ≤ (currentInputs after repository).repository ∧
      (currentInputs before repository).policy ≤ (currentInputs after repository).policy

theorem Later.refl : Later tables tables := fun _ => ⟨Nat.le_refl _, Nat.le_refl _⟩

theorem Later.trans {a b c : DecisionTables} (h : Later a b) (h' : Later b c) : Later a c :=
  fun repository => ⟨(h repository).1.trans (h' repository).1, (h repository).2.trans (h' repository).2⟩

theorem later_insert (serial : Nat) (generation : PolicyInputGeneration)
    (hserial : tables.serial ≤ serial)
    (hpolicy : (currentInputs tables repository).policy ≤ generation.policy) :
    Later tables { tables with
      serial := serial
      generations := tables.generations.insert repository generation } := by
  intro other
  refine ⟨hserial, ?_⟩
  have hrow := Table.getElem?_set tables.generations repository other (some generation)
  have hset : tables.generations.set repository (some generation) =
      tables.generations.insert repository generation := rfl
  rw [hset] at hrow
  show _ ≤ (((tables.generations.insert repository generation)[other]?).getD {}).policy
  rw [hrow]
  split
  · rename_i heq
    rw [← heq]
    exact hpolicy
  · exact Nat.le_refl _

theorem later_commit (journal : Nat) (catalogGeneration : Option (Str × Nat)) :
    Later tables (commitDriverTxnAt tables journal catalogGeneration) := by
  cases catalogGeneration with
  | none => exact fun _ => ⟨Nat.le_add_right _ _, Nat.le_refl _⟩
  | some pair =>
    obtain ⟨repository, catalog⟩ := pair
    exact later_insert tables repository (tables.serial + journal)
      { currentInputs { tables with serial := tables.serial + journal } repository with catalog }
      (Nat.le_add_right _ _) (Nat.le_refl _)

theorem later_advance : Later tables (advancePolicyGeneration tables repository) :=
  later_insert tables repository tables.serial _ (Nat.le_refl _) (Nat.le_succ _)

theorem prune_inputs :
    currentInputs (pruneHistory maximum tables) repository = currentInputs tables repository := by
  by_cases hlarge : maximum < tables.history.size
  · obtain ⟨staleId, hmin⟩ := minKey_of_large hlarge
    rw [pruneHistory_large hlarge hmin]
    rfl
  · rw [pruneHistory_small (by omega)]

end Inputs

structure Faithful (tables : DecisionTables) (entry : Recorded) : Prop where
  written : ∃ uuid, entry.record = newRecord uuid entry.decision entry.inputs
  earlier : entry.inputs.repository ≤ (currentInputs tables entry.decision.repository).repository ∧
    entry.inputs.policy ≤ (currentInputs tables entry.decision.repository).policy

theorem Faithful.later {entry : Recorded} {after : DecisionTables} (h : Faithful tables entry)
    (hlater : Later tables after) : Faithful after entry where
  written := h.written
  earlier := ⟨h.earlier.1.trans (hlater _).1, h.earlier.2.trans (hlater _).2⟩

structure DecisionState.Kept (maximum : Nat) (state : DecisionState) : Prop where
  pointed : Pointed state.tables state.log
  size : state.tables.history.size = min state.log.length maximum
  recent : Recent maximum state.tables state.log
  faithful : ∀ entry ∈ state.log, Faithful state.tables entry

theorem recordStep_cases (state : DecisionState) (uuid : Nat) (decision : NewPolicyDecision) :
    recordStep maximum state uuid decision = state ∨
      ∃ entry : Recorded, entry.decision = decision ∧
        entry.inputs = currentInputs state.tables decision.repository ∧
        entry.record = newRecord uuid decision entry.inputs ∧
        recordStep maximum state uuid decision =
          { tables := pruneHistory maximum (insertRecord state.tables entry)
            log := state.log ++ [entry] } := by
  let inputs := currentInputs state.tables decision.repository
  unfold recordStep recordPolicyDecision
  cases validateDecision decision with
  | error error => exact .inl rfl
  | ok _ =>
    exact .inr ⟨⟨decision, newRecord uuid decision inputs, inputs⟩, rfl, rfl, rfl, rfl⟩

theorem record_later (state : DecisionState) (uuid : Nat) (decision : NewPolicyDecision) :
    Later state.tables (recordStep maximum state uuid decision).tables := by
  rcases recordStep_cases state uuid decision with heq | ⟨entry, -, -, -, heq⟩
  · rw [heq]
    exact Later.refl _
  · rw [heq]
    intro repository
    dsimp only
    rw [prune_inputs]
    exact ⟨Nat.le_refl _, Nat.le_refl _⟩

theorem step_later {state next : DecisionState} (h : DecisionStep maximum state next) :
    Later state.tables next.tables := by
  cases h with
  | record uuid decision => exact record_later state uuid decision
  | advance repository => exact later_advance _ _
  | commit journal catalogGeneration => exact later_commit _ journal catalogGeneration
  | failed => exact Later.refl _

theorem record_kept {state : DecisionState} (h : state.Kept maximum) (uuid : Nat)
    (decision : NewPolicyDecision) : (recordStep maximum state uuid decision).Kept maximum := by
  have hlater : Later state.tables (recordStep maximum state uuid decision).tables :=
    record_later state uuid decision
  rcases recordStep_cases state uuid decision with heq | ⟨entry, hdecision, hinputs, hrecord, heq⟩
  · rw [heq]
    exact h
  · rw [heq] at hlater ⊢
    have hsize := insert_size h.pointed entry
    have hold := h.size
    refine ⟨prune_pointed (insert_pointed h.pointed entry), ?_,
      record_recent h.pointed h.size h.recent entry, ?_⟩
    · rw [prune_size _ (by omega), hsize, List.length_append, List.length_singleton]
      omega
    · intro other hmem
      rcases List.mem_append.mp hmem with hmem | hmem
      · exact (h.faithful other hmem).later hlater
      · obtain rfl := List.mem_singleton.mp hmem
        subst hdecision
        have hgrown := hlater other.decision.repository
        rw [← hinputs] at hgrown
        exact ⟨⟨uuid, hrecord⟩, hgrown⟩

theorem generations_kept {state : DecisionState} {after : DecisionTables} (h : state.Kept maximum)
    (hserial : after.decisionSerial = state.tables.decisionSerial)
    (hhistory : after.history = state.tables.history) (hcurrent : after.current = state.tables.current)
    (hids : after.currentIds = state.tables.currentIds) (hlater : Later state.tables after) :
    DecisionState.Kept maximum { state with tables := after } where
  pointed := by
    obtain ⟨hcounted, hrows, hpointer, hback⟩ := h.pointed
    refine ⟨hserial.trans hcounted, ?_, ?_, ?_⟩
    · rwa [hhistory]
    · rwa [hhistory, hcurrent]
    · rwa [hids, hcurrent]
  size := by
    rw [hhistory]
    exact h.size
  recent := by
    have hrecent := h.recent
    unfold Recent at hrecent ⊢
    rwa [hhistory]
  faithful entry hmem := (h.faithful entry hmem).later hlater

theorem commit_tables (tables : DecisionTables) (journal : Nat) (catalogGeneration : Option (Str × Nat)) :
    ∃ serial generations, commitDriverTxnAt tables journal catalogGeneration =
      { tables with serial, generations } := by
  cases catalogGeneration with
  | none => exact ⟨_, _, rfl⟩
  | some pair => exact ⟨_, _, rfl⟩

theorem decisions_kept (state : DecisionState) (h : (decisionSystem maximum).Reachable state) :
    state.Kept maximum := by
  refine (decisionSystem maximum).invariant (DecisionState.Kept maximum) ?_ ?_ state h
  · rintro state rfl
    refine ⟨⟨rfl, ?_, ?_, Table.finds_empty fun key => ?_⟩, ?_, ?_, List.forall_mem_nil _⟩
    · intro id record hrow
      rw [Std.ExtTreeMap.getElem?_empty] at hrow
      cases hrow
    · intro key id
      rw [Std.ExtTreeMap.getElem?_empty]
      constructor
      · exact nofun
      · rintro ⟨place, entry, hlatest, -⟩
        cases hlatest.1
    · exact Std.ExtTreeMap.getElem?_empty
    · rw [Std.ExtTreeMap.size_empty]
      exact (Nat.zero_min _).symm
    · exact fun _ place hplace => absurd hplace (Nat.not_lt_zero _)
  · intro state next _ hkept hstep
    have hlater := step_later hstep
    cases hstep with
    | record uuid decision => exact record_kept hkept uuid decision
    | advance repository => exact generations_kept hkept rfl rfl rfl rfl hlater
    | commit journal catalogGeneration =>
      obtain ⟨serial, generations, heq⟩ := commit_tables state.tables journal catalogGeneration
      rw [heq] at hlater ⊢
      exact generations_kept hkept rfl rfl rfl rfl hlater
    | failed => exact hkept

variable {state : DecisionState}

theorem LatestRecorded.unique {subject : PolicyDecisionSubject} {place other : Nat}
    {entry found : Recorded} (h : LatestRecorded log subject place entry)
    (h' : LatestRecorded log subject other found) : place = other := by
  rcases Nat.lt_trichotomy place other with hlt | heq | hlt
  · exact absurd h'.2.1 (h.2.2 other found hlt h'.1)
  · exact heq
  · exact absurd h.2.1 (h'.2.2 place entry hlt h.1)

theorem current_of_latest (h : state.Kept maximum) {decision : NewPolicyDecision} {place : Nat}
    {entry : Recorded} (hlatest : LatestRecorded state.log decision.subject place entry) :
    (state.row place = some entry.record ∧
        state.tables.current[subjectKey decision]? = some (decisionId (place + 1))) ∨
      (state.row place = none ∧ state.tables.current[subjectKey decision]? = none) := by
  have hkey : subjectKey decision = subjectKey entry.decision :=
    (subjectKey_eq_iff _ _).mpr hlatest.2.1.symm
  cases hrow : state.row place with
  | some record =>
    obtain ⟨found, hfound, rfl⟩ := h.pointed.row hrow
    rw [hlatest.1] at hfound
    cases hfound
    refine .inl ⟨rfl, (h.pointed.pointer _ _).mpr ⟨place, entry, ?_, hkey, rfl, _, hrow⟩⟩
    rw [hlatest.2.1]
    exact hlatest
  | none =>
    refine .inr ⟨rfl, ?_⟩
    cases hcurrent : state.tables.current[subjectKey decision]? with
    | none => rfl
    | some id =>
      obtain ⟨other, found, hfound, hother, hid, record, hthere⟩ := (h.pointed.pointer _ id).mp hcurrent
      rw [← (subjectKey_eq_iff _ _).mp hother] at hfound
      rw [hlatest.unique hfound] at hrow
      rw [hid] at hthere
      exact absurd (hrow.symm.trans hthere) nofun

theorem current_of_unrecorded (h : state.Kept maximum) {decision : NewPolicyDecision}
    (hnone : ∀ entry ∈ state.log, entry.decision.subject ≠ decision.subject) :
    state.tables.current[subjectKey decision]? = none := by
  cases hcurrent : state.tables.current[subjectKey decision]? with
  | none => rfl
  | some id =>
    obtain ⟨place, entry, hlatest, hkey, -⟩ := (h.pointed.pointer _ id).mp hcurrent
    exact absurd ((subjectKey_eq_iff _ _).mp hkey).symm
      (hnone entry (List.mem_of_getElem? hlatest.1))

theorem history_of_current (h : state.Kept maximum) (key id : Str)
    (hcurrent : state.tables.current[key]? = some id) :
    ∃ record, state.tables.history[id]? = some record := by
  obtain ⟨place, entry, -, -, -, hrow⟩ := (h.pointed.pointer key id).mp hcurrent
  exact hrow

theorem read_not_panicked (h : state.Kept maximum) (subject : NewPolicyDecision) :
    currentPolicyDecision state.tables subject ≠ .error .panicked := by
  unfold currentPolicyDecision
  cases validateSubject subject with
  | error error => exact nofun
  | ok _ =>
    dsimp only
    cases hcurrent : state.tables.current[subjectKey subject]? with
    | none => exact nofun
    | some id =>
      obtain ⟨record, hrow⟩ := history_of_current h _ id hcurrent
      dsimp only
      rw [hrow]
      exact nofun

theorem read_current (h : state.Kept maximum) {subject : NewPolicyDecision}
    {record : PolicyDecisionRecord}
    (hread : currentPolicyDecision state.tables subject = .ok (some record)) :
    ∃ place entry, LatestRecorded state.log subject.subject place entry ∧ record = entry.record ∧
      currentInputs state.tables subject.repository = entry.inputs := by
  unfold currentPolicyDecision at hread
  cases hvalid : validateSubject subject with
  | error error =>
    rw [hvalid] at hread
    cases hread
  | ok _ =>
    rw [hvalid] at hread
    dsimp only at hread
    cases hcurrent : state.tables.current[subjectKey subject]? with
    | none =>
      rw [hcurrent] at hread
      cases hread
    | some id =>
      obtain ⟨place, entry, hlatest, hkey, hid, found, hrow⟩ := (h.pointed.pointer _ id).mp hcurrent
      rw [hcurrent] at hread
      dsimp only at hread
      rw [hrow] at hread
      dsimp only at hread
      rw [Except.ok.injEq] at hread
      split at hread
      · rename_i hfresh
        cases hread
        rw [hid] at hrow
        obtain ⟨entry', hentry', hrecord⟩ := h.pointed.row hrow
        rw [hlatest.1] at hentry'
        cases hentry'
        have hsubject := (subjectKey_eq_iff _ _).mp hkey
        have hrepository : subject.repository = entry.decision.repository :=
          congrArg PolicyDecisionSubject.repository hsubject
        obtain ⟨uuid, hwritten⟩ := (h.faithful entry (List.mem_of_getElem? hlatest.1)).written
        refine ⟨place, entry, by rw [hsubject]; exact hlatest, hrecord, ?_⟩
        rw [hrecord, hwritten] at hfresh
        rw [hrepository]
        exact hfresh.symm
      · cases hread

theorem run_later {before after : DecisionState}
    (h : Relation.ReflTransGen (DecisionStep maximum) before after) :
    Later before.tables after.tables ∧ before.log <+: after.log := by
  induction h with
  | refl => exact ⟨Later.refl _, List.prefix_rfl⟩
  | tail _ hstep ih =>
    refine ⟨ih.1.trans (step_later hstep), ih.2.trans ?_⟩
    cases hstep with
    | record uuid decision =>
      rcases recordStep_cases _ uuid decision with heq | ⟨entry, -, -, -, heq⟩
      · rw [heq]
      · rw [heq]
        exact List.prefix_append _ _
    | advance repository => exact List.prefix_rfl
    | commit journal catalogGeneration => exact List.prefix_rfl
    | failed => exact List.prefix_rfl

theorem inputs_unchanged {early : DecisionState} {place : Nat} {entry : Recorded}
    (hearly : early.Kept maximum)
    (hrun : Relation.ReflTransGen (DecisionStep maximum) early state)
    (hplace : place < early.log.length) (hentry : state.log[place]? = some entry)
    (hnow : currentInputs state.tables entry.decision.repository = entry.inputs) :
    (currentInputs early.tables entry.decision.repository).repository = entry.inputs.repository ∧
      (currentInputs early.tables entry.decision.repository).policy = entry.inputs.policy := by
  obtain ⟨hlater, tail, hlog⟩ := run_later hrun
  rw [← hlog, List.getElem?_append_left hplace] at hentry
  have hbefore := (hearly.faithful entry (List.mem_of_getElem? hentry)).earlier
  have hafter := hlater entry.decision.repository
  rw [hnow] at hafter
  omega

/-- The history is the newest decisions and no more than the bound; the two tables of current
decisions are inverse; a subject points at its last decision unless it was pruned, and that is
returned only while its inputs are those it was recorded with. -/
theorem policyDecisions_sound (maximum : Nat) (state : DecisionState)
    (h : (decisionSystem maximum).Reachable state) :
    state.tables.history.size ≤ maximum ∧
    (∀ key id : Str, state.tables.current[key]? = some id ↔ state.tables.currentIds[id]? = some key) ∧
    (∀ key id : Str, state.tables.current[key]? = some id →
      ∃ record, state.tables.history[id]? = some record) ∧
    (∀ subject, currentPolicyDecision state.tables subject ≠ .error .panicked) ∧
    (∀ decision place entry, LatestRecorded state.log decision.subject place entry →
      (state.row place = some entry.record ∧
        state.tables.current[subjectKey decision]? = some (decisionId (place + 1))) ∨
      (state.row place = none ∧ state.tables.current[subjectKey decision]? = none)) ∧
    (∀ decision, (∀ entry ∈ state.log, entry.decision.subject ≠ decision.subject) →
      state.tables.current[subjectKey decision]? = none) ∧
    (state.log.length < 2 ^ 64 → ∀ place < state.log.length,
      (∃ record, state.row place = some record) ↔ state.log.length ≤ place + maximum) ∧
    ∀ subject record, currentPolicyDecision state.tables subject = .ok (some record) →
      ∃ place entry, LatestRecorded state.log subject.subject place entry ∧ record = entry.record ∧
        currentInputs state.tables subject.repository = entry.inputs ∧
        ∀ early, (decisionSystem maximum).Reachable early →
          Relation.ReflTransGen (DecisionStep maximum) early state → place < early.log.length →
          (currentInputs early.tables subject.repository).repository = entry.inputs.repository ∧
            (currentInputs early.tables subject.repository).policy = entry.inputs.policy := by
  have hkept := decisions_kept state h
  refine ⟨?_, fun key id => (hkept.pointed.back id key).symm, history_of_current hkept,
    read_not_panicked hkept, fun decision place entry => current_of_latest hkept,
    fun decision => current_of_unrecorded hkept, hkept.recent, ?_⟩
  · rw [hkept.size]
    exact Nat.min_le_right _ _
  · intro subject record hread
    obtain ⟨place, entry, hlatest, hrecord, hnow⟩ := read_current hkept hread
    refine ⟨place, entry, hlatest, hrecord, hnow, fun early hearly hrun hplace => ?_⟩
    have hrepository : subject.repository = entry.decision.repository :=
      congrArg PolicyDecisionSubject.repository hlatest.2.1.symm
    rw [hrepository] at hnow ⊢
    exact inputs_unchanged (decisions_kept early hearly) hrun hplace hlatest.1 hnow

def exampleDecision : NewPolicyDecision where
  repository := str "private"
  project := str "flask"
  action := .cached
  state := .allow
  evaluatedAtUnix := 10

def exampleDecisions : DecisionState := recordStep 1 (recordStep 1 {} 7 exampleDecision) 8 exampleDecision

theorem policyDecisions_sound_example :
    exampleDecisions.tables.history.size ≤ 1 ∧
      (∃ record, currentPolicyDecision exampleDecisions.tables exampleDecision = .ok (some record)) := by
  refine ⟨?_, newRecord 8 exampleDecision {}, by decide +kernel⟩
  have hsound := policyDecisions_sound 1 exampleDecisions
    (.step _ _ (.step _ _ (.start _ rfl) (.record 7 exampleDecision)) (.record 8 exampleDecision))
  exact hsound.1

end Peryx.Decisions
