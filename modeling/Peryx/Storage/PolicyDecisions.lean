import Mathlib.Logic.Relation
import Peryx.Core.Numeral
import Peryx.Library.Table
import Peryx.Library.TextCodec
import Peryx.Library.Transition
import Peryx.Policy.Policy

/-! # Policy decisions (peryx-storage/src/meta/policy_decision.rs) -/

namespace Peryx.Decisions
open Numeral

structure PolicyInputGeneration where
  repository : Nat := 0
  catalog : Nat := 0
  policy : Nat := 0
  deriving DecidableEq

inductive PolicyDecisionState where
  | allow
  | deny
  | wait
  deriving Repr, DecidableEq

structure NewPolicyDecision where
  repository : Str
  project : Str
  version : Option Str := none
  filename : Option Str := none
  source : Option Str := none
  action : PolicyAction
  state : PolicyDecisionState
  rule : Option Str := none
  reason : Option Str := none
  evaluatedAtUnix : Int64
  nextEligibleAtUnix : Option Int64 := none
  deriving DecidableEq

structure PolicyDecisionRecord where
  id : Nat
  repository : Str
  project : Str
  version : Option Str
  filename : Option Str
  source : Option Str
  action : PolicyAction
  state : PolicyDecisionState
  rule : Option Str
  reason : Option Str
  evaluatedAtUnix : Int64
  inputGeneration : PolicyInputGeneration
  nextEligibleAtUnix : Option Int64
  deriving DecidableEq

structure PolicyDecisionSubject where
  repository : Str
  project : Str
  version : Option Str
  filename : Option Str
  source : Option Str
  action : PolicyAction
  deriving DecidableEq

inductive PolicyDecisionStoreError where
  | fieldTooLong (field : Str) (max : Nat)
  deriving DecidableEq

/-- The rows of `SERIAL` under its two keys, of `POLICY_INPUT_GENERATION`, of `POLICY_DECISION`
and of the two tables of current decisions. -/
structure DecisionTables where
  decisionSerial : Nat := 0
  serial : Nat := 0
  generations : Table Str PolicyInputGeneration := ∅
  history : Table Str PolicyDecisionRecord := ∅
  current : Table Str Str := ∅
  currentIds : Table Str Str := ∅

def maxReasonBytes : Nat := 2048

def maxSubjectBytes : Nat := 512

def tooLong (max : Nat) (value : Option Str) : Bool := value.any fun value => max < value.length

def validateSubject (decision : NewPolicyDecision) : Except PolicyDecisionStoreError Unit :=
  [("repository", some decision.repository), ("project", some decision.project),
    ("version", decision.version), ("filename", decision.filename),
    ("source", decision.source)].forM fun (field, value) =>
      if tooLong maxSubjectBytes value then .error (.fieldTooLong (str field) maxSubjectBytes)
      else .ok ()

def validateDecision (decision : NewPolicyDecision) : Except PolicyDecisionStoreError Unit := do
  validateSubject decision
  if tooLong maxSubjectBytes decision.rule then
    .error (.fieldTooLong (str "rule") maxSubjectBytes)
  else if tooLong maxReasonBytes decision.reason then
    .error (.fieldTooLong (str "reason") maxReasonBytes)
  else .ok ()

namespace SubjectText
open Codec

def nullable : Codec (Option Str) :=
  map (sum (close (str "null")) string (fun _ _ => trivial) fun _ rest => rfl)
    (fun
      | none => .inl ()
      | some text => .inr text)
    (Sum.elim (fun _ => none) some) (by rintro (_ | text) <;> rfl)

def action : Codec PolicyAction :=
  map string
    (fun
      | .upload => str "upload"
      | .cached => str "cached"
      | .serve => str "serve")
    (fun text => if text = str "upload" then .upload else if text = str "cached" then .cached else .serve)
    (by rintro (_ | _ | _) <;> decide)

def subject : Codec PolicyDecisionSubject :=
  map
    (field (str "\x7b\"repository\":") string
    (field (str ",\"project\":") string
    (field (str ",\"version\":") nullable
    (field (str ",\"filename\":") nullable
    (field (str ",\"source\":") nullable
    (field (str ",\"action\":") action (close (str "\x7d"))
      (fun _ _ => trivial))
      (fun _ _ => trivial))
      (fun _ _ => trivial))
      (fun _ _ => trivial))
      (fun _ _ => trivial))
      (fun _ _ => trivial))
    (fun subject => (subject.repository, subject.project, subject.version, subject.filename,
      subject.source, subject.action, ()))
    (fun (repository, project, version, filename, source, action, ()) =>
      { repository, project, version, filename, source, action })
    fun _ => rfl

end SubjectText

def NewPolicyDecision.subject (decision : NewPolicyDecision) : PolicyDecisionSubject where
  repository := decision.repository
  project := decision.project
  version := decision.version
  filename := decision.filename
  source := decision.source
  action := decision.action

/-- The text of `serde_json::to_string`. -/
def subjectKey (decision : NewPolicyDecision) : Str := SubjectText.subject.write decision.subject

theorem subjectKey_eq_iff (a b : NewPolicyDecision) :
    subjectKey a = subjectKey b ↔ a.subject = b.subject := by
  constructor
  · intro h
    have ha := SubjectText.subject.readAll_write a.subject trivial
    have hb := SubjectText.subject.readAll_write b.subject trivial
    have hkey : SubjectText.subject.write a.subject = SubjectText.subject.write b.subject := h
    rw [hkey, hb] at ha
    exact (Option.some.inj ha).symm
  · intro h
    exact congrArg SubjectText.subject.write h

/-- `pd_{next:016x}`. -/
def decisionId (next : Nat) : Str := str "pd_" ++ padded 16 16 next

/-- The generation of a repository with the serial of now, as every reader puts it together. -/
def currentInputs (tables : DecisionTables) (repository : Str) : PolicyInputGeneration :=
  { (tables.generations[repository]?).getD {} with repository := tables.serial }

def advancePolicyGeneration (tables : DecisionTables) (repository : Str) : DecisionTables :=
  let generation := currentInputs tables repository
  { tables with generations :=
      tables.generations.insert repository { generation with policy := generation.policy + 1 } }

def commitDriverTxnAt (tables : DecisionTables) (journal : Nat)
    (catalogGeneration : Option (Str × Nat)) : DecisionTables :=
  let tables := { tables with serial := tables.serial + journal }
  match catalogGeneration with
  | none => tables
  | some (repository, catalog) =>
    { tables with generations :=
        tables.generations.insert repository { currentInputs tables repository with catalog } }

def pruneHistory (maximum : Nat) (tables : DecisionTables) : DecisionTables :=
  match (if maximum < tables.history.size then tables.history.keys.head? else none) with
  | none => tables
  | some staleId =>
    let tables := { tables with history := tables.history.erase staleId }
    match tables.currentIds[staleId]? with
    | none => tables
    | some subject =>
      { tables with
        current := tables.current.erase subject
        currentIds := tables.currentIds.erase staleId }

def replaceCurrent (tables : DecisionTables) (subject historyId : Str) : DecisionTables :=
  let currentIds := match tables.current[subject]? with
    | some previous => tables.currentIds.erase previous
    | none => tables.currentIds
  { tables with
    current := tables.current.insert subject historyId
    currentIds := currentIds.insert historyId subject }

def newRecord (uuid : Nat) (decision : NewPolicyDecision) (inputGeneration : PolicyInputGeneration) :
    PolicyDecisionRecord where
  id := uuid
  repository := decision.repository
  project := decision.project
  version := decision.version
  filename := decision.filename
  source := decision.source
  action := decision.action
  state := decision.state
  rule := decision.rule
  reason := decision.reason
  evaluatedAtUnix := decision.evaluatedAtUnix
  inputGeneration := inputGeneration
  nextEligibleAtUnix := decision.nextEligibleAtUnix

def recordPolicyDecision (maximum : Nat) (tables : DecisionTables) (uuid : Nat)
    (decision : NewPolicyDecision) :
    Except PolicyDecisionStoreError PolicyDecisionRecord × DecisionTables :=
  match validateDecision decision with
  | .error error => (.error error, tables)
  | .ok () =>
    let next := tables.decisionSerial + 1
    let record := newRecord uuid decision (currentInputs tables decision.repository)
    let tables := { tables with
      decisionSerial := next
      history := tables.history.insert (decisionId next) record }
    (.ok record,
      pruneHistory maximum (replaceCurrent tables (subjectKey decision) (decisionId next)))

inductive ReadFailure where
  | rejected (error : PolicyDecisionStoreError)
  | panicked
  deriving DecidableEq

def currentPolicyDecision (tables : DecisionTables) (subject : NewPolicyDecision) :
    Except ReadFailure (Option PolicyDecisionRecord) :=
  match validateSubject subject with
  | .error error => .error (.rejected error)
  | .ok () =>
    match tables.current[subjectKey subject]? with
    | none => .ok none
    | some id =>
      match tables.history[id]? with
      -- "current policy decision must have history"
      | none => .error .panicked
      | some record =>
        .ok (if record.inputGeneration = currentInputs tables record.repository then some record
          else none)

/-- A recorded decision and the inputs of its repository when it was recorded. -/
structure Recorded where
  decision : NewPolicyDecision
  record : PolicyDecisionRecord
  inputs : PolicyInputGeneration

/-- The tables and every decision recorded so far, the oldest first. -/
structure DecisionState where
  tables : DecisionTables := {}
  log : List Recorded := []

def recordStep (maximum : Nat) (state : DecisionState) (uuid : Nat) (decision : NewPolicyDecision) :
    DecisionState :=
  match recordPolicyDecision maximum state.tables uuid decision with
  | (.ok record, tables) =>
    { tables, log := state.log ++ [⟨decision, record, currentInputs state.tables decision.repository⟩] }
  | (.error _, tables) => { state with tables }

inductive DecisionStep (maximum : Nat) (state : DecisionState) : DecisionState → Prop
  | record (uuid : Nat) (decision : NewPolicyDecision) :
    DecisionStep maximum state (recordStep maximum state uuid decision)
  | advance (repository : Str) :
    DecisionStep maximum state { state with tables := advancePolicyGeneration state.tables repository }
  | commit (journal : Nat) (catalogGeneration : Option (Str × Nat)) :
    DecisionStep maximum state
      { state with tables := commitDriverTxnAt state.tables journal catalogGeneration }
  | failed : DecisionStep maximum state state

def decisionSystem (maximum : Nat) : System DecisionState where
  start state := state = {}
  step := DecisionStep maximum

/-- The last decision recorded of a subject, by its place in the log. -/
def LatestRecorded (log : List Recorded) (subject : PolicyDecisionSubject) (place : Nat)
    (entry : Recorded) : Prop :=
  log[place]? = some entry ∧ entry.decision.subject = subject ∧
    ∀ (later : Nat) other, place < later → log[later]? = some other → other.decision.subject ≠ subject

def DecisionState.row (state : DecisionState) (place : Nat) : Option PolicyDecisionRecord :=
  state.tables.history[decisionId (place + 1)]?

end Peryx.Decisions
