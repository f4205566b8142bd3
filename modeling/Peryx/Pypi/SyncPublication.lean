import Peryx.Pypi.Syncs

/-!
# What syncs leave in the store

Rows lie under the active, the staged and the retired generation only, and no transaction of
a sync touches rows of the active one.
-/

namespace Peryx.Pypi
open Storage

variable {A E I H α : Type}

structure GenerationSpace.Lawful (space : GenerationSpace A) : Prop where
  decode_encode : ∀ state, space.decode (space.encode state) = some state
  apart : ∀ generation other key, space.rowPrefix generation <+: key →
    space.rowPrefix other <+: key → generation = other
  state_apart : ∀ generation, ¬ space.rowPrefix generation <+: space.stateKey

def GenerationSpace.Under (space : GenerationSpace A) (generation : Nat) (key : Str) : Prop :=
  space.rowPrefix generation <+: key

structure SyncKind.Lawful (kind : SyncKind A E I H) : Prop where
  space : kind.space.Lawful
  number_build : ∀ head generation count,
    kind.space.number (kind.build head generation count) = generation
  number_revalidated : ∀ etag lastModified fetchedAtUnix a,
    kind.space.number (kind.revalidated etag lastModified fetchedAtUnix a) = kind.space.number a
  insert_nil : ∀ head generation rows, (kind.insert head generation rows []).2 = rows
  insert_append : ∀ head generation rows items more,
    (kind.insert head generation rows (items ++ more)).2 =
      (kind.insert head generation (kind.insert head generation rows items).2 more).2
  insert_frame : ∀ head generation rows items key, kind.space.Owns key →
    ¬ kind.space.Under generation key →
    (kind.insert head generation rows items).2[key]? = rows[key]?
  insert_local : ∀ head generation rows other items,
    Table.AgreeOn (kind.space.Under generation) rows other →
    Table.AgreeOn (kind.space.Under generation) (kind.insert head generation rows items).2
      (kind.insert head generation other items).2

def GenerationSpace.Names (space : GenerationSpace A) (state : Publication A) (generation : Nat) :
    Prop :=
  state.active.map space.number = some generation ∨ state.staging = some generation ∨
    state.retired = some generation

namespace SyncKind
variable (kind : SyncKind A E I H)

def items (entries : List E) : List I := entries.filterMap fun entry => (kind.check entry).join

def content (head : H) (generation : Nat) (entries : List E) : Rows :=
  (kind.insert head generation ∅ (kind.items entries)).2

def Gives (script : SyncScript A E H) (head : H) (entries : List E) : Prop :=
  ∃ previous, kind.response (script.respond previous) = .document head entries true

def Complete (started : List (SyncScript A E H)) (generation : Nat) (rows : Rows) : Prop :=
  ∃ script ∈ started, ∃ head entries, kind.Gives script head entries ∧
    Table.AgreeOn (kind.space.Under generation) rows (kind.content head generation entries)

structure Sound (started : List (SyncScript A E H)) (rows : Rows) (state : Publication A) : Prop where
  read : kind.space.state rows = .ok state
  bounded : ∀ generation, kind.space.Names state generation → generation ≤ state.nextGeneration
  apart : ∀ a, state.active = some a → state.staging ≠ some (kind.space.number a) ∧
    state.retired ≠ some (kind.space.number a)
  named : ∀ generation key, kind.space.Under generation key → rows[key]? ≠ none →
    kind.space.Names state generation
  complete : ∀ a, state.active = some a → kind.Complete started (kind.space.number a) rows

def Careful (started : List (SyncScript A E H)) (rows after : Rows) : Prop :=
  (∃ state, kind.Sound started after state) ∧
    ∀ state next generation, kind.space.state rows = .ok state → kind.space.state after = .ok next →
      state.active.map kind.space.number = some generation →
      next.active.map kind.space.number = some generation →
      Table.AgreeOn (kind.space.Under generation) rows after

def Safe {ε : Type} (started : List (SyncScript A E H)) (pre : Rows → Prop) (p : Calls ε α)
    (ok : α → Rows → Prop) (err : Rows → Prop) : Prop :=
  Triple kind.space.Owns (kind.Careful started) pre p ok err

end SyncKind

section Facts
variable {kind : SyncKind A E I H} {started : List (SyncScript A E H)} {rows after : Rows}
  {state next : Publication A} {generation : Nat}

theorem under_owns (key : Str) (h : kind.space.Under generation key) : kind.space.Owns key :=
  .inr ⟨generation, h⟩

theorem agree_under (h : Table.AgreeOn kind.space.Owns rows after) (generation : Nat) :
    Table.AgreeOn (kind.space.Under generation) rows after :=
  fun key hkey => h key (under_owns key hkey)

theorem state_of_agree (h : rows[kind.space.stateKey]? = after[kind.space.stateKey]?) :
    kind.space.state after = kind.space.state rows := by
  unfold GenerationSpace.state
  rw [h]

theorem SyncKind.Complete.agree (h : kind.Complete started generation rows)
    (hagree : Table.AgreeOn (kind.space.Under generation) rows after) :
    kind.Complete started generation after := by
  obtain ⟨script, hscript, head, entries, hgives, hcontent⟩ := h
  exact ⟨script, hscript, head, entries, hgives, hagree.symm.trans hcontent⟩

theorem SyncKind.Sound.shrink (h : kind.Sound started rows state)
    (hstate : rows[kind.space.stateKey]? = after[kind.space.stateKey]?)
    (hless : ∀ key, kind.space.Owns key → after[key]? ≠ none → rows[key]? ≠ none)
    (hactive : ∀ a, state.active = some a →
      Table.AgreeOn (kind.space.Under (kind.space.number a)) rows after) :
    kind.Sound started after state where
  read := (state_of_agree hstate).trans h.read
  bounded := h.bounded
  apart := h.apart
  named generation key hkey hrow := h.named generation key hkey (hless key (under_owns key hkey) hrow)
  complete a ha := (h.complete a ha).agree (hactive a ha)

theorem SyncKind.Sound.agree (h : kind.Sound started rows state)
    (hagree : Table.AgreeOn kind.space.Owns rows after) : kind.Sound started after state := by
  refine h.shrink (hagree _ (.inl rfl)) (fun key hkey hrow => ?_) fun a _ => agree_under hagree _
  rw [hagree key hkey]
  exact hrow

theorem SyncKind.Sound.state_eq (h : kind.Sound started rows state)
    (h' : kind.space.state rows = .ok next) : next = state := by
  rw [h.read] at h'
  exact (Except.ok.inj h').symm

theorem SyncKind.Sound.careful (h : kind.Sound started rows state) (hafter : kind.Sound started after next)
    (hkept : ∀ generation, state.active.map kind.space.number = some generation →
      next.active.map kind.space.number = some generation →
      Table.AgreeOn (kind.space.Under generation) rows after) :
    kind.Careful started rows after := by
  refine ⟨⟨next, hafter⟩, fun found found' generation hfound hfound' hnumber hnumber' => ?_⟩
  rw [h.state_eq hfound] at hnumber
  rw [hafter.state_eq hfound'] at hnumber'
  exact hkept generation hnumber hnumber'

theorem SyncKind.Sound.careful_refl (h : kind.Sound started rows state) : kind.Careful started rows rows :=
  h.careful h fun _ _ _ => Table.AgreeOn.refl rows

theorem SyncKind.Sound.store (hlawful : kind.Lawful) (h : kind.Sound started rows state)
    (next : Publication A)
    (hbounded : ∀ generation, kind.space.Names next generation → generation ≤ next.nextGeneration)
    (hapart : ∀ a, next.active = some a → next.staging ≠ some (kind.space.number a) ∧
      next.retired ≠ some (kind.space.number a))
    (hnamed : ∀ generation key, kind.space.Under generation key → rows[key]? ≠ none →
      kind.space.Names next generation)
    (hcomplete : ∀ a, next.active = some a → kind.Complete started (kind.space.number a) rows) :
    kind.Sound started (kind.space.storeState rows next) next ∧
      kind.Careful started rows (kind.space.storeState rows next) ∧
      ∀ generation, Table.AgreeOn (kind.space.Under generation) rows
        (kind.space.storeState rows next) := by
  have hagree : ∀ generation, Table.AgreeOn (kind.space.Under generation) rows
      (kind.space.storeState rows next) := by
    intro generation
    refine Table.agreeOn_set rows kind.space.stateKey (some (kind.space.encode next)) ?_
    exact hlawful.space.state_apart generation
  have hread : kind.space.state (kind.space.storeState rows next) = .ok next := by
    have hself : (kind.space.storeState rows next)[kind.space.stateKey]? =
        some (kind.space.encode next) :=
      Table.getElem?_set_self rows kind.space.stateKey (some (kind.space.encode next))
    unfold GenerationSpace.state
    rw [hself]
    dsimp only
    rw [hlawful.space.decode_encode]
  have hsound : kind.Sound started (kind.space.storeState rows next) next := by
    refine ⟨hread, hbounded, hapart, fun generation key hkey hrow => ?_, fun a ha => ?_⟩
    · refine hnamed generation key hkey ?_
      rw [hagree generation key hkey]
      exact hrow
    · exact (hcomplete a ha).agree (hagree _)
  exact ⟨hsound, h.careful hsound fun generation _ _ => hagree generation, hagree⟩

end Facts

section Conditions
variable (kind : SyncKind A E I H) (started : List (SyncScript A E H))

def SyncKind.Local (more : Option A → Rows → Prop) : Prop :=
  ∀ active rows after, (∀ a, active = some a →
    Table.AgreeOn (kind.space.Under (kind.space.number a)) rows after) →
    more active rows → more active after

variable (more : Option A → Rows → Prop)

def SyncKind.Held (extra : Publication A → Rows → Prop) (rows : Rows) : Prop :=
  ∃ state, kind.Sound started rows state ∧ more state.active rows ∧ extra state rows

def SyncKind.Holds (rows : Rows) : Prop := kind.Held started more (fun _ _ => True) rows

def SyncKind.Clean (rows : Rows) : Prop :=
  kind.Held started more (fun state _ => state.staging = none ∧ state.retired = none) rows

def SyncKind.Off (generation : Nat) (rows : Rows) : Prop :=
  kind.Held started more (fun state _ => state.active.map kind.space.number ≠ some generation) rows

def SyncKind.Staged (head : H) (generation : Nat) (expected : Option Nat) (items : List I)
    (rows : Rows) : Prop :=
  kind.Held started more (fun state rows => state.staging = some generation ∧
    state.retired = none ∧ state.active.map kind.space.number = expected ∧
    Table.AgreeOn (kind.space.Under generation) rows (kind.insert head generation ∅ items).2) rows

variable {kind started more}

theorem stable_held (hlocal : kind.Local more) {extra : Publication A → Rows → Prop}
    (hextra : ∀ state a b, Table.AgreeOn kind.space.Owns a b → extra state a → extra state b) :
    Stable kind.space.Owns (kind.Held started more extra) := by
  rintro a b hagree ⟨state, hsound, hmore, hhas⟩
  exact ⟨state, hsound.agree hagree,
    hlocal _ a b (fun found _ => agree_under hagree _) hmore, hextra state a b hagree hhas⟩

theorem stable_plain (hlocal : kind.Local more) (extra : Publication A → Prop) :
    Stable kind.space.Owns (kind.Held started more fun state _ => extra state) :=
  stable_held hlocal fun _ _ _ _ h => h

theorem SyncKind.Held.careful {extra : Publication A → Rows → Prop} {rows : Rows}
    (h : kind.Held started more extra rows) : kind.Careful started rows rows := by
  obtain ⟨state, hsound, -⟩ := h
  exact hsound.careful_refl

theorem SyncKind.Held.holds {extra : Publication A → Rows → Prop} {rows : Rows}
    (h : kind.Held started more extra rows) : kind.Holds started more rows := by
  obtain ⟨state, hsound, hmore, -⟩ := h
  exact ⟨state, hsound, hmore, trivial⟩

end Conditions

section Calls
variable {kind : SyncKind A E I H} {started : List (SyncScript A E H)}
  {more : Option A → Rows → Prop} {extra : Publication A → Rows → Prop}
  {ok : α → Rows → Prop} {err : Rows → Prop}

theorem safe_withState (f : Rows → Publication A → Except MetaFailure α × Rows)
    (hstable : Stable kind.space.Owns (kind.Held started more extra))
    (herr : ∀ rows, kind.Held started more extra rows → err rows)
    (hok : ∀ rows state a after, kind.Sound started rows state → more state.active rows →
      extra state rows → f rows state = (.ok a, after) →
      kind.Careful started rows after ∧ ok a after) :
    kind.Safe started (kind.Held started more extra)
      (rowsCall fun rows => kind.space.withState rows (f rows)) ok err := by
  refine triple_rows _ hstable herr (fun rows h => h.careful) fun rows a after hpre hrun => ?_
  obtain ⟨state, hsound, hmore, hextra⟩ := hpre
  unfold GenerationSpace.withState at hrun
  rw [hsound.read] at hrun
  exact hok rows state a after hsound hmore hextra hrun

theorem safe_stateCall (hstable : Stable kind.space.Owns (kind.Held started more extra))
    (herr : ∀ rows, kind.Held started more extra rows → err rows) :
    kind.Safe started (kind.Held started more extra) kind.space.stateCall
      (fun state => kind.Held started more fun found rows => found = state ∧ extra found rows)
      err := by
  refine triple_rows _ hstable herr (fun rows h => h.careful) fun rows a after hpre hrun => ?_
  have hcareful := hpre.careful
  obtain ⟨state, hsound, hmore, hextra⟩ := hpre
  rw [hsound.read] at hrun
  cases hrun
  exact ⟨hcareful, _, hsound, hmore, rfl, hextra⟩

variable (kind started more) in
def SyncKind.Sweeping (seen : Publication A) (gone : List Nat) (rows : Rows) : Prop :=
  kind.Held started more (fun state rows => state = seen ∧
    ∀ generation ∈ gone, ∀ key, kind.space.Under generation key → rows[key]? = none) rows

theorem stable_sweeping (hlocal : kind.Local more) (seen : Publication A) (gone : List Nat) :
    Stable kind.space.Owns (kind.Sweeping started more seen gone) := by
  refine stable_held hlocal fun state a b hagree hgone => ⟨hgone.1, fun generation hg key hkey => ?_⟩
  rw [← hagree key (under_owns key hkey)]
  exact hgone.2 generation hg key hkey

theorem sweeping_batch (hlawful : kind.Lawful) (hlocal : kind.Local more) {seen : Publication A}
    {gone : List Nat} {generation : Nat} (hoff : seen.active.map kind.space.number ≠ some generation)
    (keys : List Str) (hkeys : ∀ key ∈ keys, kind.space.Under generation key) (rows : Rows)
    (h : kind.Sweeping started more seen gone rows) :
    kind.Careful started rows (commitDriverBatch rows { deletes := keys }) ∧
      kind.Sweeping started more seen gone (commitDriverBatch rows { deletes := keys }) := by
  obtain ⟨state, hsound, hmore, rfl, hgone⟩ := h
  have hother : ∀ key, ¬ kind.space.Under generation key →
      rows[key]? = (commitDriverBatch rows { deletes := keys })[key]? := by
    intro key hkey
    exact (eraseAll_getElem? rows keys key fun hmem => hkey (hkeys key hmem)).symm
  have hactive : ∀ a, state.active = some a →
      Table.AgreeOn (kind.space.Under (kind.space.number a)) rows
        (commitDriverBatch rows { deletes := keys }) := by
    intro a ha key hkey
    refine hother key fun hunder => hoff ?_
    rw [ha, Option.map_some, hlawful.space.apart _ _ key hkey hunder]
  have hless : ∀ key, kind.space.Owns key →
      (commitDriverBatch rows { deletes := keys })[key]? ≠ none → rows[key]? ≠ none := by
    intro key _ hrow hnone
    exact hrow (eraseAll_none rows keys key hnone)
  have hafter := hsound.shrink (hother _ (hlawful.space.state_apart generation)) hless hactive
  refine ⟨hsound.careful hafter fun found hfound _ => ?_, state, hafter,
    hlocal _ rows _ hactive hmore, rfl, fun found hfound key hkey => ?_⟩
  · obtain ⟨a, ha, rfl⟩ := Option.map_eq_some_iff.mp hfound
    exact hactive a ha
  · exact eraseAll_none rows keys key (hgone found hfound key hkey)

theorem safe_sweepRows (hlawful : kind.Lawful) (hlocal : kind.Local more) {seen : Publication A}
    {gone : List Nat} {generation : Nat} (hoff : seen.active.map kind.space.number ≠ some generation)
    (herr : ∀ rows, kind.Sweeping started more seen gone rows → err rows) (rounds : Nat) :
    kind.Safe started (kind.Sweeping started more seen gone)
      (sweepRows (kind.space.rowPrefix generation) rounds)
      (fun _ => kind.Sweeping started more seen (gone ++ [generation])) err := by
  have hstable : Stable kind.space.Owns (kind.Sweeping started more seen gone) :=
    stable_sweeping hlocal seen gone
  induction rounds with
  | zero => exact triple_throw _ herr
  | succ rounds ih =>
    refine (triple_read _ hstable herr fun rows h => h.careful).bind fun keys => ?_
    by_cases hkeys : keys = []
    · rw [if_pos hkeys]
      refine triple_pure () fun rows hpre => ?_
      obtain ⟨⟨state, hsound, hmore, hseen, hgone⟩, hread⟩ := hpre
      refine ⟨state, hsound, hmore, hseen, fun found hfound key hkey => ?_⟩
      rcases List.mem_append.mp hfound with hfound | hfound
      · exact hgone found hfound key hkey
      · rw [List.mem_singleton.mp hfound] at hkey
        have hempty : keysUnder rows (kind.space.rowPrefix generation) = [] := by
          have hnone := hread.symm.trans hkeys
          rw [List.take_eq_nil_iff] at hnone
          exact hnone.resolve_left (by decide)
        by_contra hrow
        have hmem := (mem_keysUnder rows (kind.space.rowPrefix generation) key).mpr
          ⟨Option.isSome_iff_ne_none.mpr hrow, hkey⟩
        rw [hempty] at hmem
        cases hmem
    · rw [if_neg hkeys]
      have hunder : ∀ rows, kind.Sweeping started more seen gone rows ∧
          keys = (keysUnder rows (kind.space.rowPrefix generation)).take deleteBatch →
          kind.Sweeping started more seen gone rows ∧
            ∀ key ∈ keys, kind.space.Under generation key := by
        rintro rows ⟨hpre, hread⟩
        refine ⟨hpre, fun key hkey => ?_⟩
        rw [hread] at hkey
        exact ((mem_keysUnder _ _ key).mp (List.mem_of_mem_take hkey)).2
      have hstable' : Stable kind.space.Owns fun rows => kind.Sweeping started more seen gone rows ∧
          ∀ key ∈ keys, kind.space.Under generation key :=
        fun a b hagree h => ⟨hstable a b hagree h.1, h.2⟩
      have hbatch : kind.Safe started (fun rows => kind.Sweeping started more seen gone rows ∧
          ∀ key ∈ keys, kind.space.Under generation key)
          (batchCall { deletes := keys } : Calls MetaFailure Unit)
          (fun _ => kind.Sweeping started more seen gone) err := by
        refine triple_rows _ hstable' (fun rows h => herr rows h.1) (fun rows h => h.1.careful)
          fun rows a after hpre hrun => ?_
        cases hrun
        exact sweeping_batch hlawful hlocal hoff keys hpre.2 rows hpre.1
      exact (hbatch.weaken hunder (fun _ _ h => h) fun _ h => h).bind fun _ => ih

theorem safe_recover (hlawful : kind.Lawful) (hlocal : kind.Local more) (rounds : Nat) :
    kind.Safe started (kind.Holds started more) (kind.space.recover rounds)
      (fun _ => kind.Clean started more) (kind.Holds started more) := by
  refine (safe_stateCall (stable_plain hlocal _) fun _ h => h).bind fun seen => ?_
  refine Triple.assume (∀ generation ∈ [seen.staging, seen.retired].filterMap id,
    seen.active.map kind.space.number ≠ some generation) ?_ fun hoff => ?_
  · rintro rows ⟨state, hsound, -, rfl, -⟩ generation hmem hactive
    obtain ⟨a, ha, rfl⟩ := Option.map_eq_some_iff.mp hactive
    obtain ⟨hstaging, hretired⟩ := hsound.apart a ha
    rw [List.mem_filterMap] at hmem
    obtain ⟨found, hfound, heq⟩ := hmem
    rw [List.mem_cons, List.mem_singleton] at hfound
    rcases hfound with rfl | rfl
    · exact hstaging heq
    · exact hretired heq
  have hsweep : kind.Safe started (kind.Sweeping started more seen [])
      (([seen.staging, seen.retired].filterMap id).forM fun generation =>
        sweepRows (kind.space.rowPrefix generation) rounds)
      (fun _ => kind.Sweeping started more seen ([] ++ [seen.staging, seen.retired].filterMap id))
      (kind.Holds started more) := triple_forM
    (fun generation => sweepRows (kind.space.rowPrefix generation) rounds)
    (kind.Sweeping started more seen) ([seen.staging, seen.retired].filterMap id) []
    fun gone generation hmem =>
      safe_sweepRows hlawful hlocal (hoff generation hmem) (fun rows h => h.holds) rounds
  refine (hsweep.weaken ?_ (fun _ _ h => h) fun _ h => h).bind fun _ => ?_
  · rintro rows ⟨state, hsound, hmore, hseen, -⟩
    exact ⟨state, hsound, hmore, hseen, nofun⟩
  refine safe_withState _ (stable_sweeping hlocal seen _) (fun rows h => h.holds)
    fun rows state a after hsound hmore hextra hrun => ?_
  obtain ⟨rfl, hgone⟩ := hextra
  simp only [if_true] at hrun
  cases hrun
  obtain ⟨hafter, hcareful, hagree⟩ := hsound.store hlawful
    ({ state with staging := none, retired := none })
    (fun generation hnames => by
      rcases hnames with hnames | hnames | hnames
      · exact hsound.bounded generation (.inl hnames)
      · cases hnames
      · cases hnames)
    (fun a _ => ⟨nofun, nofun⟩)
    (fun generation key hkey hrow => by
      rcases hsound.named generation key hkey hrow with hnames | hnames | hnames
      · exact .inl hnames
      · exact absurd (hgone generation (by simp [hnames]) key hkey) hrow
      · exact absurd (hgone generation (by simp [hnames]) key hkey) hrow)
    hsound.complete
  exact ⟨hcareful, _, hafter, hlocal _ rows _ (fun a _ => hagree _) hmore, rfl, rfl⟩

theorem safe_begin (hlawful : kind.Lawful) (hlocal : kind.Local more) (head : H) :
    kind.Safe started (kind.Clean started more) kind.space.begin
      (fun reserved => kind.Staged started more head reserved.1 reserved.2 [])
      (kind.Holds started more) := by
  refine safe_withState _ (stable_plain hlocal _) (fun rows h => h.holds)
    fun rows state a after hsound hmore hextra hrun => ?_
  obtain ⟨hstaging, hretired⟩ := hextra
  cases hrun
  have hnew : ∀ generation, kind.space.Names state generation → generation ≠ state.nextGeneration + 1 := by
    intro generation hnames
    have hbound := hsound.bounded generation hnames
    omega
  have hempty : ∀ key, kind.space.Under (state.nextGeneration + 1) key → rows[key]? = none := by
    intro key hkey
    by_contra hrow
    exact hnew _ (hsound.named _ key hkey hrow) rfl
  obtain ⟨hafter, hcareful, hagree⟩ := hsound.store hlawful
    ({ state with
      nextGeneration := state.nextGeneration + 1
      staging := some (state.nextGeneration + 1) })
    (fun generation hnames => by
      dsimp only
      rcases hnames with hnames | hnames | hnames
      · have hbound := hsound.bounded generation (.inl hnames)
        omega
      · cases hnames
        exact Nat.le_refl _
      · have hbound := hsound.bounded generation (.inr (.inr hnames))
        omega)
    (fun a ha => by
      refine ⟨fun heq => ?_, (hsound.apart a ha).2⟩
      refine hnew (kind.space.number a) (.inl ?_) (Option.some.inj heq).symm
      rw [show state.active = some a from ha]
      rfl)
    (fun generation key hkey hrow => by
      rcases hsound.named generation key hkey hrow with hnames | hnames | hnames
      · exact .inl hnames
      · rw [hstaging] at hnames
        cases hnames
      · exact .inr (.inr hnames))
    hsound.complete
  refine ⟨hcareful, _, hafter, hlocal _ rows _ (fun a _ => hagree _) hmore, rfl, hretired, rfl, ?_⟩
  intro key hkey
  rw [hlawful.insert_nil, ← hagree _ key hkey, hempty key hkey]
  exact Std.ExtTreeMap.getElem?_empty.symm

theorem stable_staged (hlocal : kind.Local more) (head : H) (generation : Nat)
    (expected : Option Nat) (items : List I) :
    Stable kind.space.Owns (kind.Staged started more head generation expected items) := by
  refine stable_held hlocal fun state a b hagree h => ⟨h.1, h.2.1, h.2.2.1, ?_⟩
  exact (agree_under hagree generation).symm.trans h.2.2.2

theorem staged_off {head : H} {generation : Nat} {expected : Option Nat} {items : List I}
    {rows : Rows} (h : kind.Staged started more head generation expected items rows) :
    kind.Off started more generation rows := by
  obtain ⟨state, hsound, hmore, hstaging, -⟩ := h
  refine ⟨state, hsound, hmore, fun hactive => ?_⟩
  obtain ⟨a, ha, rfl⟩ := Option.map_eq_some_iff.mp hactive
  exact (hsound.apart a ha).1 hstaging

theorem safe_putBatch (hlawful : kind.Lawful) (hlocal : kind.Local more) (head : H)
    (generation : Nat) (expected : Option Nat) (items batch : List I) :
    kind.Safe started (kind.Staged started more head generation expected items)
      (kind.putBatch head generation batch)
      (fun _ => kind.Staged started more head generation expected (items ++ batch))
      (kind.Off started more generation) := by
  refine Triple.raised _ ?_
  refine safe_withState _ (stable_staged hlocal head generation expected items)
    (fun rows h => staged_off h) fun rows state a after hsound hmore hextra hrun => ?_
  obtain ⟨hstaging, hretired, hexpected, hcontent⟩ := hextra
  rw [if_neg (not_not.mpr hstaging)] at hrun
  cases hrun
  have hframe : ∀ key, kind.space.Owns key → ¬ kind.space.Under generation key →
      rows[key]? = (kind.insert head generation rows batch).2[key]? :=
    fun key howns hkey => (hlawful.insert_frame head generation rows batch key howns hkey).symm
  have hactive : ∀ a, state.active = some a →
      Table.AgreeOn (kind.space.Under (kind.space.number a)) rows
        (kind.insert head generation rows batch).2 := by
    intro a ha key hkey
    refine hframe key (under_owns key hkey) fun hunder => (hsound.apart a ha).1 ?_
    rw [hlawful.space.apart _ _ key hkey hunder]
    exact hstaging
  have hread : kind.space.state (kind.insert head generation rows batch).2 = .ok state :=
    (state_of_agree (hframe _ (.inl rfl) (hlawful.space.state_apart generation))).trans hsound.read
  have hafter : kind.Sound started (kind.insert head generation rows batch).2 state := by
    refine ⟨hread, hsound.bounded, hsound.apart, fun other key hkey hrow => ?_, fun a ha =>
      (hsound.complete a ha).agree (hactive a ha)⟩
    by_cases hother : kind.space.Under generation key
    · rw [hlawful.space.apart _ _ key hkey hother]
      exact .inr (.inl hstaging)
    · rw [← hframe key (under_owns key hkey) hother] at hrow
      exact hsound.named other key hkey hrow
  refine ⟨hsound.careful hafter fun found hfound _ => ?_, state, hafter,
    hlocal _ rows _ hactive hmore, hstaging, hretired, hexpected, ?_⟩
  · obtain ⟨a, ha, rfl⟩ := Option.map_eq_some_iff.mp hfound
    exact hactive a ha
  · rw [hlawful.insert_append]
    exact hlawful.insert_local head generation rows _ batch hcontent

theorem items_cons (entry : E) (entries : List E) :
    kind.items (entry :: entries) = (kind.check entry).join.toList ++ kind.items entries := by
  unfold SyncKind.items
  rw [List.filterMap_cons]
  cases (kind.check entry).join <;> rfl

theorem safe_parse (hlawful : kind.Lawful) (hlocal : kind.Local more) (head : H)
    (generation : Nat) (expected : Option Nat) (whole : Bool) (entries : List E)
    (seen inserted : Nat) (items batch : List I) :
    kind.Safe started (kind.Staged started more head generation expected items)
      (kind.parse head generation whole seen inserted batch entries)
      (fun _ rows => whole = true ∧ kind.Staged started more head generation expected
        (items ++ (batch ++ kind.items entries)) rows)
      (kind.Off started more generation) := by
  induction entries generalizing seen inserted items batch with
  | nil =>
    unfold SyncKind.parse
    cases whole with
    | false => exact triple_throw _ fun rows h => staged_off h
    | true =>
      refine (safe_putBatch hlawful hlocal head generation expected items batch).bind fun _ => ?_
      refine triple_pure _ fun rows h => ⟨rfl, ?_⟩
      have hnil : kind.items [] = [] := rfl
      rw [hnil, List.append_nil]
      exact h
  | cons entry entries ih =>
    unfold SyncKind.parse
    rw [items_cons]
    cases hcheck : kind.check entry with
    | none => exact triple_throw _ fun rows h => staged_off h
    | some admitted =>
      dsimp only
      by_cases hlimit : kind.limit < seen + 1
      · rw [if_pos hlimit]
        exact triple_throw _ fun rows h => staged_off h
      · rw [if_neg hlimit]
        cases admitted with
        | none => exact ih (seen + 1) inserted items batch
        | some item =>
          have hitem : batch ++ ((some (some item)).join.toList ++ kind.items entries) =
              (batch ++ [item]) ++ kind.items entries := by
            simp
          dsimp only
          rw [hitem]
          by_cases hfull : (batch ++ [item]).length = kind.batch
          · rw [if_pos hfull]
            refine (safe_putBatch hlawful hlocal head generation expected items
              (batch ++ [item])).bind fun written => ?_
            have hrest := ih (seen + 1) (inserted + written) (items ++ (batch ++ [item])) []
            rw [List.nil_append, List.append_assoc items] at hrest
            exact hrest
          · rw [if_neg hfull]
            exact ih (seen + 1) inserted items (batch ++ [item])

theorem safe_giveUp (hlawful : kind.Lawful) (hlocal : kind.Local more) (rounds generation : Nat)
    (error : TxnError SyncError) (ok : Nat → Rows → Prop) :
    kind.Safe started (kind.Off started more generation) (kind.giveUp rounds generation error) ok
      (kind.Holds started more) := by
  suffices hrecover : Triple kind.space.Owns (kind.Careful started)
      (kind.Off started more generation) _ (fun _ => kind.Holds started more)
      (kind.Holds started more) from hrecover.bind fun _ => triple_throw error fun _ h => h
  refine Triple.raised _ ?_
  rintro disk ⟨seen, hsound, hmore, hoff⟩
  refine Triple.bind (safe_sweepRows hlawful hlocal hoff (fun rows h => h.holds) rounds)
    (fun _ => ?_) disk ⟨seen, hsound, hmore, rfl, List.forall_mem_nil _⟩
  refine safe_withState _ (stable_sweeping hlocal seen _) (fun rows h => h.holds)
    fun rows state a after hsound hmore hextra hrun => ?_
  obtain ⟨-, hgone⟩ := hextra
  by_cases hstaging : state.staging = some generation
  · rw [if_pos hstaging] at hrun
    cases hrun
    obtain ⟨hafter, hcareful, hagree⟩ := hsound.store hlawful
      ({ state with staging := none })
      (fun other hnames => by
        rcases hnames with hnames | hnames | hnames
        · exact hsound.bounded other (.inl hnames)
        · cases hnames
        · exact hsound.bounded other (.inr (.inr hnames)))
      (fun a ha => ⟨nofun, (hsound.apart a ha).2⟩)
      (fun other key hkey hrow => by
        rcases hsound.named other key hkey hrow with hnames | hnames | hnames
        · exact .inl hnames
        · rw [hstaging] at hnames
          cases hnames
          exact absurd (hgone generation (by simp) key hkey) hrow
        · exact .inr (.inr hnames))
      hsound.complete
    exact ⟨hcareful, _, hafter, hlocal _ rows _ (fun a _ => hagree _) hmore, trivial⟩
  · rw [if_neg hstaging] at hrun
    cases hrun
    exact ⟨hsound.careful_refl, state, hsound, hmore, trivial⟩

variable (kind) in
def SyncKind.Published (head : H) (generation : Nat) (entries : List E) (active : Option A)
    (rows : Rows) : Prop :=
  ∃ count, active = some (kind.build head generation count) ∧
    Table.AgreeOn (kind.space.Under generation) rows (kind.content head generation entries)

theorem published_local (hlawful : kind.Lawful) (head : H) (generation : Nat) (entries : List E) :
    kind.Local (kind.Published head generation entries) := by
  rintro active rows after hagree ⟨count, hactive, hcontent⟩
  refine ⟨count, hactive, ?_⟩
  have hnumber := hagree _ hactive
  rw [hlawful.number_build] at hnumber
  exact hnumber.symm.trans hcontent

theorem safe_publish (hlawful : kind.Lawful) (hlocal : kind.Local more) (head : H)
    (generation : Nat) (expected : Option Nat) (entries : List E)
    (hgives : ∃ script ∈ started, kind.Gives script head entries) (count : Nat) :
    kind.Safe started
      (fun rows => true = true ∧ kind.Staged started more head generation expected
        (kind.items entries) rows)
      (kind.space.publish expected (kind.build head generation count))
      (fun _ => kind.Holds started (kind.Published head generation entries))
      (kind.Holds started more) := by
  suffices hstaged : Triple kind.space.Owns (kind.Careful started)
      (kind.Staged started more head generation expected (kind.items entries)) _ _ _ from
    hstaged.weaken (fun rows h => h.2) (fun _ _ h => h) fun _ h => h
  refine safe_withState _ (stable_staged hlocal head generation expected _) (fun rows h => h.holds)
    fun rows state a after hsound hmore hextra hrun => ?_
  obtain ⟨hstaging, hretired, hexpected, hcontent⟩ := hextra
  have hnumber := hlawful.number_build head generation count
  rw [hnumber, if_neg (by rw [hstaging, hexpected]; simp)] at hrun
  cases hrun
  have hoff : ∀ found, state.active.map kind.space.number = some found → found ≠ generation := by
    rintro found hfound rfl
    obtain ⟨a, ha, heq⟩ := Option.map_eq_some_iff.mp hfound
    exact (hsound.apart a ha).1 (by rw [heq]; exact hstaging)
  have hcomplete : kind.Complete started generation rows := by
    obtain ⟨script, hscript, hdocument⟩ := hgives
    exact ⟨script, hscript, head, entries, hdocument, hcontent⟩
  obtain ⟨hafter, hcareful, hagree⟩ := hsound.store hlawful
    ({ state with
      retired := state.active.map kind.space.number
      active := some (kind.build head generation count)
      staging := none })
    (fun other hnames => by
      rcases hnames with hnames | hnames | hnames
      · rw [Option.map_some, hnumber] at hnames
        cases hnames
        exact hsound.bounded generation (.inr (.inl hstaging))
      · cases hnames
      · exact hsound.bounded other (.inl hnames))
    (fun a ha => by
      cases ha
      rw [hnumber]
      exact ⟨nofun, fun heq => hoff generation heq rfl⟩)
    (fun other key hkey hrow => by
      rcases hsound.named other key hkey hrow with hnames | hnames | hnames
      · exact .inr (.inr hnames)
      · rw [hstaging] at hnames
        cases hnames
        refine .inl ?_
        rw [Option.map_some, hnumber]
      · rw [hretired] at hnames
        cases hnames)
    (fun a ha => by
      cases ha
      rw [hnumber]
      exact hcomplete)
  exact ⟨hcareful, _, hafter, ⟨count, rfl, (hagree generation).symm.trans hcontent⟩, trivial⟩

def Anything : Option A → Rows → Prop := fun _ _ => True

theorem anything_local : kind.Local Anything := fun _ _ _ _ _ => trivial

theorem SyncKind.Clean.plain {rows : Rows} (h : kind.Clean started more rows) :
    kind.Clean started Anything rows := by
  obtain ⟨state, hsound, -, hclean⟩ := h
  exact ⟨state, hsound, trivial, hclean⟩

theorem safe_refresh (hlawful : kind.Lawful) (hlocal : kind.Local more) (expected : Nat)
    (etag lastModified : Option Str) (fetchedAtUnix : Int) :
    kind.Safe started (kind.Clean started more)
      (kind.space.refresh expected (kind.revalidated etag lastModified fetchedAtUnix))
      (fun _ => kind.Clean started Anything) (kind.Holds started more) := by
  refine safe_withState _ (stable_plain hlocal _) (fun rows h => h.holds)
    fun rows state a after hsound hmore hextra hrun => ?_
  obtain ⟨hstaging, hretired⟩ := hextra
  rcases hactive : state.active.filter fun active => kind.space.number active = expected with - | active <;>
    rw [hactive] at hrun
  · cases hrun
  · cases hrun
    have hsame := (Option.filter_eq_some_iff.mp hactive).1
    have hnumber := hlawful.number_revalidated etag lastModified fetchedAtUnix active
    obtain ⟨hafter, hcareful, -⟩ := hsound.store hlawful
      ({ state with active := some (kind.revalidated etag lastModified fetchedAtUnix active) })
      (fun generation hnames => by
        rcases hnames with hnames | hnames | hnames
        · rw [Option.map_some, hnumber] at hnames
          refine hsound.bounded generation (.inl ?_)
          rw [hsame]
          exact hnames
        · exact hsound.bounded generation (.inr (.inl hnames))
        · exact hsound.bounded generation (.inr (.inr hnames)))
      (fun a ha => by
        cases ha
        rw [hnumber]
        exact hsound.apart active hsame)
      (fun generation key hkey hrow => by
        rcases hsound.named generation key hkey hrow with hnames | hnames | hnames
        · refine .inl ?_
          rw [hsame, Option.map_some] at hnames
          rw [Option.map_some, hnumber]
          exact hnames
        · exact .inr (.inl hnames)
        · exact .inr (.inr hnames))
      (fun a ha => by
        cases ha
        rw [hnumber]
        exact hsound.complete active hsame)
    exact ⟨hcareful, _, hafter, trivial, hstaging, hretired⟩

theorem safe_active (hstable : Stable kind.space.Owns (kind.Held started more extra))
    (herr : ∀ rows, kind.Held started more extra rows → err rows) :
    kind.Safe started (kind.Held started more extra) kind.active
      (fun active => kind.Held started more fun state rows => state.active = active ∧ extra state rows)
      err := by
  refine (Triple.raised SyncError.store (safe_stateCall hstable herr)).bind fun state => ?_
  refine triple_pure _ ?_
  rintro rows ⟨found, hsound, hmore, rfl, hextra⟩
  exact ⟨found, hsound, hmore, rfl, hextra⟩

variable (kind started more) in
def SyncKind.FailedWith (gives : H → List E → Prop) (rows : Rows) : Prop :=
  kind.Holds started more rows ∨ ∃ head generation entries, gives head entries ∧
    kind.Holds started (kind.Published head generation entries) rows

theorem safe_publishDocument (hlawful : kind.Lawful) (hlocal : kind.Local more) (rounds : Nat)
    (head : H) (entries : List E) (whole : Bool) (gives : H → List E → Prop)
    (hwhole : whole = true → gives head entries)
    (hgives : whole = true → ∃ script ∈ started, kind.Gives script head entries) :
    kind.Safe started (kind.Clean started more) (kind.publishDocument rounds head entries whole)
      (fun _ => kind.Clean started Anything) (kind.FailedWith started more gives) := by
  have hold : ∀ rows, kind.Holds started more rows → kind.FailedWith started more gives rows :=
    fun _ h => .inl h
  refine ((Triple.raised SyncError.store (safe_begin hlawful hlocal head)).weaken (fun _ h => h)
    (fun _ _ h => h) hold).bind fun reserved => ?_
  obtain ⟨generation, expected⟩ := reserved
  have hparse := (safe_parse hlawful hlocal head generation expected whole entries 0 0 [] []).handle
    fun error => (safe_giveUp hlawful hlocal rounds generation error _ : kind.Safe started _ _ _ _)
  refine (hparse.weaken (fun _ h => h) (fun _ _ h => h) hold).bind fun count => ?_
  cases whole with
  | false => exact Triple.assume False (fun rows h => absurd h.1 Bool.false_ne_true) False.elim
  | true =>
    refine ((Triple.raised SyncError.store (safe_publish hlawful hlocal head generation expected
      entries (hgives rfl) count)).weaken (fun rows h => h) (fun _ _ h => h) hold).bind fun _ => ?_
    have hlocal' := published_local hlawful head generation entries
    refine ((Triple.raised SyncError.store (safe_recover hlawful hlocal' rounds)).weaken (fun _ h => h)
      (fun _ _ h => h) fun rows h => .inr ⟨head, generation, entries, hwhole rfl, h⟩).bind fun _ => ?_
    exact triple_pure _ fun rows h => h.plain

theorem safe_answered (hlawful : kind.Lawful) (hlocal : kind.Local more) (rounds : Nat)
    (previous : Option A) (script : SyncScript A E H) (hscript : script ∈ started) :
    kind.Safe started (kind.Clean started more)
      (kind.answered rounds previous (kind.response (script.respond previous)))
      (fun _ => kind.Clean started Anything) (kind.FailedWith started more (kind.Gives script)) := by
  have hold : ∀ rows, kind.Holds started more rows →
      kind.FailedWith started more (kind.Gives script) rows := fun _ h => .inl h
  rcases hresponse : kind.response (script.respond previous) with
    - | ⟨etag, lastModified, fetchedAtUnix⟩ | - | ⟨head, entries, whole⟩
  case failed => exact triple_throw _ fun rows h => hold rows h.holds
  case notModified =>
    unfold SyncKind.answered SyncKind.revalidate
    cases previous with
    | none => exact triple_throw _ fun rows h => hold rows h.holds
    | some previous =>
      refine ((Triple.raised SyncError.store (safe_refresh hlawful hlocal _ etag lastModified
        fetchedAtUnix)).weaken (fun _ h => h) (fun _ _ h => h) hold).bind fun _ => ?_
      exact triple_pure _ fun _ h => h
  case missing => exact triple_pure _ fun rows h => h.plain
  case document =>
    have hgives : whole = true → kind.Gives script head entries := by
      rintro rfl
      exact ⟨previous, hresponse⟩
    exact safe_publishDocument hlawful hlocal rounds head entries whole _ hgives
      fun h => ⟨script, hscript, hgives h⟩

theorem safe_renew (hlawful : kind.Lawful) (hlocal : kind.Local more)
    (script : SyncScript A E H) (hscript : script ∈ started) :
    kind.Safe started (kind.Holds started more) (kind.renew script.rounds script.respond)
      (fun _ => kind.Clean started Anything) (kind.FailedWith started more (kind.Gives script)) := by
  refine ((Triple.raised SyncError.store (safe_recover hlawful hlocal script.rounds)).weaken
    (fun _ h => h) (fun _ _ h => h) fun _ h => .inl h).bind fun _ => ?_
  refine (safe_active (stable_plain hlocal _) fun rows h => .inl h.holds).bind fun previous => ?_
  refine (safe_answered hlawful hlocal script.rounds previous script hscript).weaken ?_
    (fun _ _ h => h) fun _ h => h
  rintro rows ⟨state, hsound, hmore, -, hclean⟩
  exact ⟨state, hsound, hmore, hclean⟩

theorem safe_sync (hlawful : kind.Lawful) (hlocal : kind.Local more)
    (script : SyncScript A E H) (hscript : script ∈ started) :
    kind.Safe started (kind.Holds started more)
      (kind.sync script.rounds script.waited script.respond)
      (fun _ rows => kind.Clean started Anything rows ∨
        script.waited = true ∧ kind.Held started more (fun state _ => state.active ≠ none) rows)
      (kind.FailedWith started more (kind.Gives script)) := by
  have hcoalesced : kind.Safe started (kind.Holds started more) (kind.coalesced script.waited)
      (fun found rows => kind.Holds started more rows ∧ ∀ a, found = some a →
        script.waited = true ∧ kind.Held started more (fun state _ => state.active ≠ none) rows)
      (kind.FailedWith started more (kind.Gives script)) := by
    unfold SyncKind.coalesced
    cases script.waited with
    | false =>
      rw [if_neg Bool.false_ne_true]
      exact triple_pure _ fun rows h => ⟨h, nofun⟩
    | true =>
      rw [if_pos rfl]
      refine (safe_active (stable_plain hlocal _) fun rows h => .inl h).weaken (fun _ h => h) ?_
        fun _ h => h
      rintro found rows ⟨state, hsound, hmore, hactive, -⟩
      refine ⟨⟨state, hsound, hmore, trivial⟩, fun a ha => ⟨rfl, state, hsound, hmore, ?_⟩⟩
      show state.active ≠ none
      rw [hactive, ha]
      exact Option.some_ne_none a
  refine hcoalesced.bind fun found => ?_
  cases found with
  | some a => exact triple_pure _ fun rows h => .inr (h.2 a rfl)
  | none =>
    exact (safe_renew hlawful hlocal script hscript).weaken (fun rows h => h.1)
      (fun _ _ h => .inl h) fun _ h => h

end Calls
end Peryx.Pypi
