import Std.Data.ExtTreeSet.Lemmas
import Peryx.Library.Confined
import Peryx.Storage.StoreCalls

/-! # Commands that run alone -/

/-!
## Calls among writers of other rows

A triple says what a program of calls does while others leave the rows of `foot` alone: each
of its transactions is as `guar` says, and its end is described apart for an answer and for
an error. Conditions speak of rows, and hold on when others write.
-/

namespace Peryx.Storage

section Triples
variable {ε δ α β : Type} {foot : Str → Prop} {guar : Rows → Rows → Prop}

def Disk.Others (foot : Str → Prop) (a b : Disk) : Prop :=
  Table.AgreeOn foot a.store.rows b.store.rows

def Stable (foot : Str → Prop) (holds : Rows → Prop) : Prop :=
  ∀ a b, Table.AgreeOn foot a b → holds a → holds b

def Ending (ok : α → Rows → Prop) (err : Rows → Prop) (result : Except (TxnError ε) α)
    (disk : Disk) : Prop :=
  match result with
  | .ok a => ok a disk.store.rows
  | .error _ => err disk.store.rows

def Triple (foot : Str → Prop) (guar : Rows → Rows → Prop) (pre : Rows → Prop) (p : Calls ε α)
    (ok : α → Rows → Prop) (err : Rows → Prop) : Prop :=
  ∀ disk, pre disk.store.rows → p.run.Steady (Disk.Others foot)
    (fun a b => guar a.store.rows b.store.rows) (Ending ok err) disk

variable {pre : Rows → Prop} {ok : α → Rows → Prop} {err : Rows → Prop}

theorem triple_pure (a : α) (h : ∀ rows, pre rows → ok a rows) :
    Triple foot guar pre (pure a : Calls ε α) ok err :=
  fun _ hpre => h _ hpre

theorem triple_throw (error : TxnError ε) (h : ∀ rows, pre rows → err rows) :
    Triple foot guar pre (throw error : Calls ε α) ok err :=
  fun _ hpre => h _ hpre

theorem Triple.bind {mid : α → Rows → Prop} {last : β → Rows → Prop} {p : Calls ε α}
    {f : α → Calls ε β} (hp : Triple foot guar pre p mid err)
    (hf : ∀ a, Triple foot guar (mid a) (f a) last err) :
    Triple foot guar pre (p >>= f) last err := by
  intro disk hpre
  rw [ExceptT.run_bind]
  refine (hp disk hpre).bind fun result after hresult => ?_
  cases result with
  | ok a => exact hf a after hresult
  | error error => exact hresult

theorem Triple.weaken {pre' : Rows → Prop} {ok' : α → Rows → Prop} {err' : Rows → Prop}
    {p : Calls ε α} (h : Triple foot guar pre p ok err) (hpre : ∀ rows, pre' rows → pre rows)
    (hok : ∀ a rows, ok a rows → ok' a rows) (herr : ∀ rows, err rows → err' rows) :
    Triple foot guar pre' p ok' err' := by
  intro disk hdisk
  refine (h disk (hpre _ hdisk)).weaken fun result after hresult => ?_
  cases result with
  | ok a => exact hok a _ hresult
  | error error => exact herr _ hresult

theorem Triple.assume {p : Calls ε α} (known : Prop) (h : ∀ rows, pre rows → known)
    (hp : known → Triple foot guar pre p ok err) : Triple foot guar pre p ok err :=
  fun disk hpre => hp (h _ hpre) disk hpre

theorem triple_rows (f : Rows → Except ε α × Rows) (hstable : Stable foot pre)
    (herr : ∀ rows, pre rows → err rows) (hrefl : ∀ rows, pre rows → guar rows rows)
    (hok : ∀ rows a after, pre rows → f rows = (.ok a, after) → guar rows after ∧ ok a after) :
    Triple foot guar pre (rowsCall f) ok err := by
  intro disk hpre
  refine Prog.steady_transact _ fun disk' hothers => ?_
  have hpre' := hstable _ _ hothers hpre
  by_cases hfault : disk'.fault = .never
  · rw [if_pos hfault]
    rcases hrun : f disk'.store.rows with ⟨answer, after⟩
    cases answer with
    | ok a => exact hok _ a after hpre' hrun
    | error error => exact ⟨hrefl _ hpre', herr _ hpre'⟩
  · rw [if_neg hfault]
    exact ⟨hrefl _ hpre', herr _ hpre'⟩

theorem triple_read (f : Rows → α) (hstable : Stable foot pre)
    (herr : ∀ rows, pre rows → err rows) (hrefl : ∀ rows, pre rows → guar rows rows) :
    Triple foot guar pre (readCall f : Calls ε α) (fun a rows => pre rows ∧ a = f rows) err := by
  refine triple_rows _ hstable herr hrefl fun rows a after hpre hrun => ?_
  cases hrun
  exact ⟨hrefl rows hpre, hpre, rfl⟩

theorem triple_forM {ι : Type} (f : ι → Calls ε Unit) (after : List ι → Rows → Prop)
    (items : List ι) (first : List ι)
    (h : ∀ (done : List ι) (item : ι), item ∈ items →
      Triple foot guar (after done) (f item) (fun _ => after (done ++ [item])) err) :
    Triple foot guar (after first) (items.forM f) (fun _ => after (first ++ items)) err := by
  induction items generalizing first with
  | nil => exact triple_pure () fun rows hrows => by rwa [List.append_nil]
  | cons item items ih =>
    refine (h first item List.mem_cons_self).bind fun _ => ?_
    have hrest := ih (first ++ [item]) fun done i hi => h done i (List.mem_cons_of_mem _ hi)
    rw [List.append_assoc] at hrest
    exact hrest

theorem Triple.handle {mid : Rows → Prop} {p : Calls ε α} {handler : TxnError ε → Calls ε α}
    (hp : Triple foot guar pre p ok mid)
    (hhandler : ∀ error, Triple foot guar mid (handler error) ok err) :
    Triple foot guar pre (tryCatch p handler) ok err := by
  intro disk hpre
  refine (hp disk hpre).bind fun result after hresult => ?_
  cases result with
  | ok a => exact hresult
  | error error => exact hhandler error after hresult

/-- `?` from one error type into another. -/
def TxnError.map (f : ε → δ) : TxnError ε → TxnError δ
  | .store => .store
  | .body error => .body (f error)

def raised (f : ε → δ) (p : Calls ε α) : Calls δ α := p.adapt (TxnError.map f)

theorem Triple.raised {p : Calls ε α} (f : ε → δ) (hp : Triple foot guar pre p ok err) :
    Triple foot guar pre (raised f p) ok err := by
  intro disk hpre
  refine (hp disk hpre).bind fun result after hresult => ?_
  cases result with
  | ok a => exact hresult
  | error error => exact hresult

end Triples
end Peryx.Storage

namespace Peryx.Storage

abbrev Digests := Std.ExtTreeSet Str

theorem mem_foldl_insert (named : List Str) (digests : Digests) (digest : Str) :
    digest ∈ named.foldl (fun digests digest => digests.insert digest) digests ↔
      digest ∈ digests ∨ digest ∈ named := by
  induction named generalizing digests with
  | nil => simp
  | cons first named ih =>
    rw [List.foldl_cons, ih, Std.ExtTreeSet.mem_insert, List.mem_cons,
      Std.LawfulEqCmp.compare_eq_iff_eq]
    constructor
    · rintro ((rfl | h) | h)
      · exact .inr (.inl rfl)
      · exact .inl h
      · exact .inr (.inr h)
    · rintro (h | rfl | h)
      · exact .inl (.inr h)
      · exact .inl (.inl rfl)
      · exact .inr h

section Lone
variable {ε δ α β : Type}

/-- The program reads these rows, answers so and leaves the store as it is. -/
def Reads (p : Calls ε α) (rows : Rows) (answer : Except ε α) : Prop :=
  ∀ disk : Disk, disk.fault = .never → disk.store.rows = rows →
    p.run.run disk = (answer.mapError .body, disk)

theorem Reads.unique {p : Calls ε α} {rows : Rows} {answer other : Except ε α}
    (h : Reads p rows answer) (hother : Reads p rows other) : answer = other := by
  have hrun := h { store := { rows := rows } } rfl rfl
  rw [hother _ rfl rfl] at hrun
  have hsame := (Prod.mk.inj hrun).1
  cases answer <;> cases other <;> simp_all [Except.mapError]

theorem reads_pure (a : α) (rows : Rows) : Reads (pure a : Calls ε α) rows (.ok a) :=
  fun _ _ _ => rfl

theorem reads_throw (error : ε) (rows : Rows) :
    Reads (throw (.body error) : Calls ε α) rows (.error error) :=
  fun _ _ _ => rfl

theorem reads_readCall (f : Rows → α) (rows : Rows) :
    Reads (readCall f : Calls ε α) rows (.ok (f rows)) := by
  intro disk hfault hrows
  rw [run_readCall f hfault, hrows]
  rfl

theorem Reads.bind {p : Calls ε α} {f : α → Calls ε β} {rows : Rows} {answer : Except ε α}
    {g : α → Except ε β} (hp : Reads p rows answer)
    (hf : ∀ a, answer = .ok a → Reads (f a) rows (g a)) : Reads (p >>= f) rows (answer >>= g) := by
  intro disk hfault hrows
  have hrun := hp disk hfault hrows
  rw [ExceptT.run_bind, Prog.run_bind, hrun]
  cases answer with
  | error error => rfl
  | ok a => exact hf a rfl disk hfault hrows

theorem Reads.bind_ok {p : Calls ε α} {f : α → Calls ε β} {rows : Rows} {a : α} {answer : Except ε β}
    (hp : Reads p rows (.ok a)) (hf : Reads (f a) rows answer) : Reads (p >>= f) rows answer :=
  hp.bind (g := fun _ => answer) fun _ ha => by
    cases ha
    exact hf

theorem Reads.map {p : Calls ε α} {rows : Rows} {answer : Except ε α} (f : α → β)
    (hp : Reads p rows answer) :
    Reads (p >>= fun a => pure (f a)) rows (answer.map f) := by
  have h := hp.bind (g := fun a => .ok (f a)) fun a _ => reads_pure (f a) rows
  cases answer <;> exact h

theorem run_batchCall (batch : DriverBatch) (disk : Disk) (h : disk.fault = .never) :
    (batchCall batch : Calls ε Unit).run.run disk =
      (.ok (), { disk with store.rows := commitDriverBatch disk.store.rows batch }) :=
  run_rowsCall _ h () _ rfl

theorem run_raised (f : ε → δ) (p : Calls ε α) (disk : Disk) : (raised f p).run.run disk =
    ((p.run.run disk).1.mapError (TxnError.map f), (p.run.run disk).2) := by
  show (p.run >>= fun result => pure (result.mapError _)).run disk = _
  rw [Prog.run_bind]
  rfl

theorem Reads.raised {p : Calls ε α} {rows : Rows} {answer : Except ε α} (f : ε → δ)
    (hp : Reads p rows answer) : Reads (raised f p) rows (answer.mapError f) := by
  intro disk hfault hrows
  rw [run_raised, hp disk hfault hrows]
  cases answer <;> rfl

theorem reads_mapM (items : List α) (f : α → Calls ε β) (g : α → β) (rows : Rows)
    (h : ∀ item ∈ items, Reads (f item) rows (.ok (g item))) :
    Reads (items.mapM f) rows (.ok (items.map g)) := by
  intro disk hfault hrows
  exact run_mapM_reads items f g fun item hitem => h item hitem disk hfault hrows

theorem reads_getCall (key : Str) (rows : Rows) :
    Reads (getCall key : Calls ε _) rows (.ok rows[key]?) :=
  reads_readCall _ rows

theorem reads_keysCall (start : Str) (rows : Rows) :
    Reads (keysCall start : Calls ε _) rows (.ok (keysUnder rows start)) :=
  reads_readCall _ rows

def visited : Except ε α → Calls ε α
  | .ok a => pure a
  | .error error => throw (.body error)

theorem reads_visited (answer : Except ε α) (rows : Rows) : Reads (visited answer) rows answer := by
  cases answer with
  | ok a => exact reads_pure a rows
  | error error => exact reads_throw error rows

end Lone
end Peryx.Storage
