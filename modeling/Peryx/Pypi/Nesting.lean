import Peryx.Index.Build
import Peryx.Pypi.Resolve

/-! # How deep resolving a page nests -/

namespace Peryx.Pypi

section Nesting
variable (table : CaseMap) (pep : Pep440) (parseUploadTime : Str → Option Int)
variable (reads : LayerReads) (indexes : List Index) (project serveRoute : Str)
  (denyNoFallbackMiss : Bool)

def nestedCalls (position : Nat) : List Nat :=
  match indexes[position]? with
  | none => []
  | some index =>
    match index.policy.checkProject .serve project, index.kind with
    | .ok (), .virtual layers _ => consultedLayers indexes index layers project
    | _, _ => []

def nestedResolutions : Nat → Nat → Option Nat :=
  CallTree.eval (nestedCalls indexes project) fun _ counts => (counts.map (· + 1)).sum

def assemble (position : Nat) (resolved : List (Except CacheError (Option DetailPage))) :
    Except CacheError (Option DetailPage) :=
  match indexes[position]? with
  | none => .ok none
  | some index =>
    match index.policy.checkProject .serve project with
    | .error denial => .error (.policy denial)
    | .ok () =>
      match index.kind with
      | .virtual layers upload =>
        let outcomes := (consultedLayers indexes index layers project).zip
          (resolved.map fun outcome => outcome.map fun page => page.map DetailPage.detail)
        filterPage table pep parseUploadTime reads project index
          ((virtualDetail reads indexes index layers upload project denyNoFallbackMiss
            outcomes).map fun detail => detail.map fun detail => ⟨detail, none⟩)
      | _ =>
        filterPage table pep parseUploadTime reads project index (ownPage reads serveRoute index)

theorem resolve_eq_eval (fuel position : Nat) :
    resolveDetailPageWith table pep parseUploadTime reads indexes project serveRoute
        denyNoFallbackMiss fuel position =
      CallTree.eval (nestedCalls indexes project)
        (assemble table pep parseUploadTime reads indexes project serveRoute denyNoFallbackMiss)
        fuel position := by
  induction fuel generalizing position with
  | zero => rfl
  | succ fuel ih =>
    rw [resolveDetailPageWith, CallTree.eval]
    unfold nestedCalls assemble
    cases indexes[position]? with
    | none => rfl
    | some index =>
      dsimp only
      cases index.policy.checkProject .serve project with
      | error denial => rfl
      | ok _ =>
        dsimp only
        cases index.kind with
        | cached client offline => rfl
        | hosted isVolatile => rfl
        | virtual layers upload =>
          dsimp only
          rw [funext ih]
          rfl

/-- `inner` is a member of the virtual index at `outer`, which serves the project. -/
def Member (inner outer : Nat) : Prop :=
  ∃ index layers upload, indexes[outer]? = some index ∧
    index.policy.checkProject .serve project = .ok () ∧
    index.kind = .virtual layers upload ∧ inner ∈ layers

theorem mem_nestedCalls (inner outer : Nat) :
    inner ∈ nestedCalls indexes project outer ↔
      ∃ index layers upload, indexes[outer]? = some index ∧
        index.policy.checkProject .serve project = .ok () ∧
        index.kind = .virtual layers upload ∧ inner ∈ layers ∧
        (cachedAt indexes inner = true → consultCached index project = true) := by
  unfold nestedCalls
  cases hindex : indexes[outer]? with
  | none => simp
  | some index =>
    dsimp only
    cases hserve : index.policy.checkProject .serve project with
    | error denial => simp [hserve]
    | ok _ =>
      cases hkind : index.kind with
      | cached client offline => simp [hkind]
      | hosted isVolatile => simp [hkind]
      | virtual layers upload =>
        have hmem : inner ∈ consultedLayers indexes index layers project ↔ inner ∈ layers ∧
            (cachedAt indexes inner = true → consultCached index project = true) := by
          unfold consultedLayers
          rw [List.mem_filter, shadowOrder_eq, List.mem_append, List.mem_filter, List.mem_filter]
          cases cachedAt indexes inner <;> simp
        dsimp only
        rw [hmem]
        constructor
        · exact fun h => ⟨index, layers, upload, rfl, hserve, hkind, h⟩
        · rintro ⟨_, _, _, heq, _, hkind', h⟩
          cases heq
          rw [hkind] at hkind'
          cases hkind'
          exact h

theorem called_of_member (inner outer deeper : Nat) (h : Member indexes project inner outer)
    (hdeeper : Member indexes project deeper inner) :
    CallTree.Called (nestedCalls indexes project) inner outer := by
  obtain ⟨index, layers, upload, hindex, hserve, hkind, hmem⟩ := h
  refine (mem_nestedCalls indexes project inner outer).mpr
    ⟨index, layers, upload, hindex, hserve, hkind, hmem, fun hcached => ?_⟩
  obtain ⟨innerIndex, _, _, hinner, _, hvirtual, _⟩ := hdeeper
  rw [cachedAt, hinner, Option.any_some, hvirtual] at hcached
  cases hcached

theorem member_of_called (inner outer : Nat)
    (h : CallTree.Called (nestedCalls indexes project) inner outer) :
    Member indexes project inner outer := by
  obtain ⟨index, layers, upload, hindex, hserve, hkind, hmem, _⟩ :=
    (mem_nestedCalls indexes project inner outer).mp h
  exact ⟨index, layers, upload, hindex, hserve, hkind, hmem⟩

theorem called_cycle_iff (position : Nat) :
    Relation.TransGen (CallTree.Called (nestedCalls indexes project)) position position ↔
      Relation.TransGen (Member indexes project) position position := by
  constructor
  · exact fun h => Relation.TransGen.mono (member_of_called indexes project) _ _ h
  · intro hcycle
    have hlift : ∀ inner outer deeper, Relation.TransGen (Member indexes project) inner outer →
        Member indexes project deeper inner →
        Relation.TransGen (CallTree.Called (nestedCalls indexes project)) inner outer := by
      intro inner outer deeper hpath hdeeper
      induction hpath with
      | single hstep =>
        exact Relation.TransGen.single (called_of_member indexes project _ _ _ hstep hdeeper)
      | tail hpath hstep ih =>
        obtain ⟨before, _, hbefore⟩ := Relation.TransGen.tail'_iff.mp hpath
        exact Relation.TransGen.tail ih (called_of_member indexes project _ _ _ hstep hbefore)
    obtain ⟨deeper, _, hdeeper⟩ := Relation.TransGen.tail'_iff.mp hcycle
    exact hlift position position deeper hcycle hdeeper

/-- Resolving the page of the index at a position ends, after finitely many nested
resolutions. -/
def Ends (position : Nat) : Prop :=
  ∃ fuel outcome count,
    resolveDetailPageWith table pep parseUploadTime reads indexes project serveRoute
      denyNoFallbackMiss fuel position = some outcome ∧
    nestedResolutions indexes project fuel position = some count

theorem ends_iff_acc (position : Nat) :
    Ends table pep parseUploadTime reads indexes project serveRoute denyNoFallbackMiss position ↔
      Acc (CallTree.Called (nestedCalls indexes project)) position := by
  unfold Ends nestedResolutions
  simp only [resolve_eq_eval]
  constructor
  · rintro ⟨fuel, outcome, _, houtcome, _⟩
    exact (CallTree.exists_eval_iff _ _ position).mp ⟨fuel, by rw [houtcome]; rfl⟩
  · intro hacc
    obtain ⟨n, hn⟩ := (CallTree.exists_eval_iff _
      (assemble table pep parseUploadTime reads indexes project serveRoute denyNoFallbackMiss)
      position).mpr hacc
    obtain ⟨m, hm⟩ := (CallTree.exists_eval_iff _
      (fun _ counts => (counts.map (· + 1)).sum) position).mpr hacc
    obtain ⟨outcome, houtcome⟩ :=
      Option.isSome_iff_exists.mp (CallTree.eval_isSome_mono _ _ n m position hn)
    obtain ⟨count, hcount⟩ :=
      Option.isSome_iff_exists.mp (CallTree.eval_isSome_mono _ _ m n position hm)
    rw [Nat.add_comm] at hcount
    exact ⟨n + m, outcome, count, houtcome, hcount⟩

theorem acc_out_of_range (position : Nat) (h : indexes.length ≤ position) :
    Acc (CallTree.Called (nestedCalls indexes project)) position := by
  refine Acc.intro position fun inner hinner => ?_
  obtain ⟨_, _, _, hindex, _⟩ := (mem_nestedCalls indexes project inner position).mp hinner
  rw [List.getElem?_eq_none h] at hindex
  cases hindex

/-- For every configuration that builds: resolving the project ends on every index exactly
when no virtual index that serves it comes back to itself along such members. -/
theorem resolution_ends_iff (builders : IndexBuilders) (globalOffline : Bool)
    (configs : List IndexConfig)
    (_ : buildIndexes builders globalOffline configs = .ok indexes) :
    (∀ position < indexes.length,
      Ends table pep parseUploadTime reads indexes project serveRoute denyNoFallbackMiss position) ↔
      ∀ position, ¬ Relation.TransGen (Member indexes project) position position := by
  have hacyclic := CallTree.acc_iff_acyclic (nestedCalls indexes project)
    {position | position < indexes.length} (Set.finite_lt_nat indexes.length)
    (fun position hposition => by
      unfold nestedCalls
      rw [List.getElem?_eq_none (Nat.not_lt.mp hposition)])
  simp only [called_cycle_iff] at hacyclic
  rw [← hacyclic]
  constructor
  · intro hends position
    by_cases hposition : position < indexes.length
    · exact (ends_iff_acc table pep parseUploadTime reads indexes project serveRoute
        denyNoFallbackMiss position).mp (hends position hposition)
    · exact acc_out_of_range indexes project position (Nat.not_lt.mp hposition)
  · intro hacc position _
    exact (ends_iff_acc table pep parseUploadTime reads indexes project serveRoute
      denyNoFallbackMiss position).mpr (hacc position)

end Nesting

def plainBuilders : IndexBuilders where
  client config := .ok ⟨config.name⟩
  policy config := .ok (Policy.compile config.policy id)
  acl _ := .ok .open

def emptyReads : LayerReads where
  cachedDetail _ := .ok none
  localDetail _ := .ok none
  currentSerial := .ok 0
  overrides _ := .ok []
  yankRecord _ := none
  clock := 0

def virtualConfig (name : String) (layers : List String) : IndexConfig where
  name := str name
  route := str name
  ecosystem := .pypi
  kind := .virtual (layers.map str) none
  policy := {}

def virtualIndex (name : String) (layers : List Nat) : Index where
  name := str name
  route := str name
  ecosystem := .pypi
  kind := .virtual layers none
  policy := Policy.compile {} id
  acl := .open

/-- A virtual index that lists itself builds, and resolving a project on it never ends. -/
theorem self_member_never_ends :
    buildIndexes plainBuilders false [virtualConfig "loop" ["loop"]] =
        .ok [virtualIndex "loop" [0]] ∧
      ¬ ∀ position < [virtualIndex "loop" [0]].length,
        Ends .caseless wholeVersions (fun _ => none) emptyReads [virtualIndex "loop" [0]]
          (str "flask") (str "loop") true position := by
  refine ⟨rfl, fun hends => ?_⟩
  have hacc := (ends_iff_acc _ _ _ _ _ _ _ _ 0).mp (hends 0 (by decide))
  refine CallTree.acc_not_cycle 0 hacc (Relation.TransGen.single ?_)
  exact (mem_nestedCalls _ _ 0 0).mpr
    ⟨virtualIndex "loop" [0], [0], none, rfl, rfl, rfl, by decide, nofun⟩

/-- A virtual index may itself be a member, as long as the chain goes one way. -/
theorem chain_ends :
    buildIndexes plainBuilders false [virtualConfig "corp" [], virtualConfig "team" ["corp"],
        virtualConfig "staging" ["corp", "team"]] =
      .ok [virtualIndex "corp" [], virtualIndex "team" [0], virtualIndex "staging" [0, 1]] ∧
    ∀ position < 3,
      Ends .caseless wholeVersions (fun _ => none) emptyReads
        [virtualIndex "corp" [], virtualIndex "team" [0], virtualIndex "staging" [0, 1]]
        (str "flask") (str "staging") true position := by
  refine ⟨rfl, (resolution_ends_iff _ _ _ _ _ _ _ _ plainBuilders false
    [virtualConfig "corp" [], virtualConfig "team" ["corp"],
      virtualConfig "staging" ["corp", "team"]] rfl).mpr fun position hcycle => ?_⟩
  have hbelow : ∀ inner outer,
      Member [virtualIndex "corp" [], virtualIndex "team" [0], virtualIndex "staging" [0, 1]]
        (str "flask") inner outer → inner < outer := by
    rintro inner outer ⟨index, layers, upload, hindex, _, hkind, hmem⟩
    match outer, hindex with
    | 0, hindex =>
      cases hindex
      cases hkind
      cases hmem
    | 1, hindex =>
      cases hindex
      cases hkind
      rw [List.mem_singleton.mp hmem]
      exact Nat.zero_lt_one
    | 2, hindex =>
      cases hindex
      cases hkind
      simp only [List.mem_cons, List.not_mem_nil, or_false] at hmem
      omega
  have hlt : ∀ inner outer, Relation.TransGen (Member
      [virtualIndex "corp" [], virtualIndex "team" [0], virtualIndex "staging" [0, 1]]
      (str "flask")) inner outer → inner < outer := by
    intro inner outer hpath
    induction hpath with
    | single hstep => exact hbelow _ _ hstep
    | tail _ hstep ih => exact ih.trans (hbelow _ _ hstep)
  exact Nat.lt_irrefl position (hlt position position hcycle)

end Peryx.Pypi
