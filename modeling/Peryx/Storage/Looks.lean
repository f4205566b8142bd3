import Peryx.Library.Queries
import Peryx.Storage.LoneCalls

/-! # Programs that only look -/

namespace Peryx.Storage

inductive Look where
  | row (key : Str)
  | keys (start : Str)
  | visit (start : Str)
  deriving Repr, DecidableEq

abbrev Look.Answer : Look → Type
  | .row _ => Option Bytes
  | .keys _ => List Str
  | .visit _ => List (Str × Bytes)

instance : (look : Look) → DecidableEq look.Answer
  | .row _ => inferInstanceAs (DecidableEq (Option Bytes))
  | .keys _ => inferInstanceAs (DecidableEq (List Str))
  | .visit _ => inferInstanceAs (DecidableEq (List (Str × Bytes)))

def Look.of : (look : Look) → Rows → look.Answer
  | .row key, rows => rows[key]?
  | .keys start, rows => keysUnder rows start
  | .visit start, rows => rows.toList.filter fun row => Str.startsWith row.1 start

abbrev Looks (ε : Type) := ExceptT ε (Query Look.Answer)

section Looks
variable {ε α β : Type}

def look (question : Look) : Looks ε question.Answer :=
  ExceptT.mk (.ask question fun answer => .done (.ok answer))

def lookRow (key : Str) : Looks ε (Option Bytes) := look (.row key)

def lookKeys (start : Str) : Looks ε (List Str) := look (.keys start)

def lookVisit (start : Str) : Looks ε (List (Str × Bytes)) := look (.visit start)

def Looks.on (q : Looks ε α) (rows : Rows) : Except ε α := Query.run Look.of q.run rows

theorem on_bind (q : Looks ε α) (f : α → Looks ε β) (rows : Rows) :
    (q >>= f).on rows = q.on rows >>= fun a => (f a).on rows := by
  show Query.run _ (q.run >>= _) rows = _
  rw [Query.run_bind]
  cases hon : q.on rows with
  | ok a =>
    rw [show Query.run Look.of q.run rows = .ok a from hon]
    rfl
  | error error =>
    rw [show Query.run Look.of q.run rows = .error error from hon]
    rfl

def Looks.Avoids (q : Looks ε α) (error : ε) (rows : Rows) : Prop := q.on rows ≠ .error error

section Avoids
variable {error : ε} {rows : Rows}

theorem avoids_pure (a : α) : (pure a : Looks ε α).Avoids error rows := nofun

theorem avoids_throw {other : ε} (h : other ≠ error) : (throw other : Looks ε α).Avoids error rows :=
  fun heq => h (Except.error.inj heq)

theorem avoids_look (question : Look) : (look question : Looks ε _).Avoids error rows := nofun

theorem Looks.Avoids.bind {q : Looks ε α} {f : α → Looks ε β} (hq : q.Avoids error rows)
    (hf : ∀ a, q.on rows = .ok a → (f a).Avoids error rows) : (q >>= f).Avoids error rows := by
  unfold Looks.Avoids at hq ⊢
  rw [on_bind]
  cases hon : q.on rows with
  | error found =>
    rw [hon] at hq
    exact fun heq => hq (congrArg Except.error (Except.error.inj heq))
  | ok a => exact hf a hon

theorem avoids_mapM {f : α → Looks ε β} (items : List α)
    (h : ∀ item ∈ items, (f item).Avoids error rows) : (items.mapM f).Avoids error rows := by
  induction items with
  | nil => exact avoids_pure []
  | cons item items ih =>
    rw [List.mapM_cons]
    have hrest := ih fun later hlater => h later (List.mem_cons_of_mem _ hlater)
    exact (h item List.mem_cons_self).bind fun b _ => hrest.bind fun bs _ => avoids_pure (b :: bs)

end Avoids

def lookingCalls : Query Look.Answer (Except ε α) → Prog Disk (Except (TxnError ε) α)
  | .done result => .done (result.mapError .body)
  | .ask question next => .step id fun disk =>
    if disk.fault = .never then lookingCalls (next (question.of disk.store.rows))
    else .done (.error .store)

def AreLooks (p : Calls ε α) (q : Looks ε α) : Prop := p.run = lookingCalls q.run

theorem areLooks_pure (a : α) : AreLooks (pure a : Calls ε α) (pure a) := rfl

theorem areLooks_throw (error : ε) : AreLooks (throw (.body error) : Calls ε α) (throw error) := rfl

theorem AreLooks.bind {p : Calls ε α} {q : Looks ε α} {f : α → Calls ε β} {g : α → Looks ε β}
    (hp : AreLooks p q) (hf : ∀ a, AreLooks (f a) (g a)) : AreLooks (p >>= f) (q >>= g) := by
  unfold AreLooks at hp ⊢
  have hbind : ∀ query : Query Look.Answer (Except ε α),
      lookingCalls query >>= ExceptT.bindCont f = lookingCalls (query >>= ExceptT.bindCont g) := by
    intro query
    induction query with
    | done result =>
      cases result with
      | error error => rfl
      | ok a => exact hf a
    | ask question next ih =>
      show Prog.step id _ = Prog.step id _
      congr 1
      funext disk
      dsimp only
      by_cases hfault : disk.fault = .never
      · rw [if_pos hfault, if_pos hfault]
        exact ih _
      · rw [if_neg hfault, if_neg hfault]
        rfl
  show p.run >>= _ = lookingCalls (q.run >>= _)
  rw [hp]
  exact hbind q.run

theorem areLooks_rowsCall {q : Looks ε α} (question : Look) (f : Rows → Except ε α)
    (g : question.Answer → Except ε α) (hf : ∀ rows, f rows = g (question.of rows))
    (hq : q.run = .ask question fun answer => .done (g answer)) :
    AreLooks (rowsCall fun rows => (f rows, rows)) q := by
  unfold AreLooks
  rw [hq]
  show Prog.step _ _ = Prog.step _ _
  congr 1
  · funext disk
    dsimp only
    cases f disk.store.rows <;> split <;> rfl
  · funext disk
    dsimp only
    rw [← hf]
    cases f disk.store.rows <;> split <;> rfl

theorem areLooks_readCall (question : Look) :
    AreLooks (readCall question.of : Calls ε _) (look question) :=
  areLooks_rowsCall question _ .ok (fun _ => rfl) rfl

theorem areLooks_getCall (key : Str) : AreLooks (getCall key : Calls ε _) (lookRow key) :=
  areLooks_readCall (.row key)

theorem areLooks_keysCall (start : Str) : AreLooks (keysCall start : Calls ε _) (lookKeys start) :=
  areLooks_readCall (.keys start)

theorem areLooks_visitCall (start : Str) :
    AreLooks (visitCall start : Calls ε _) (lookVisit start) :=
  areLooks_readCall (.visit start)

theorem areLooks_mapM (items : List α) {f : α → Calls ε β} {g : α → Looks ε β}
    (h : ∀ item, AreLooks (f item) (g item)) : AreLooks (items.mapM f) (items.mapM g) := by
  induction items with
  | nil => exact areLooks_pure []
  | cons item items ih =>
    rw [List.mapM_cons, List.mapM_cons]
    exact (h item).bind fun b => ih.bind fun rest => areLooks_pure (b :: rest)

theorem AreLooks.reads {p : Calls ε α} {q : Looks ε α} (h : AreLooks p q) (rows : Rows) :
    Reads p rows (q.on rows) := by
  intro disk hfault hrows
  rw [show p.run = lookingCalls q.run from h]
  unfold Looks.on
  induction q.run with
  | done result => rfl
  | ask question next ih =>
    show (if disk.fault = .never then _ else _ : Prog Disk _).run disk = _
    rw [if_pos hfault, hrows]
    exact ih _

end Looks
end Peryx.Storage
