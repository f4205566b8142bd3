import Peryx.Oci.Auth

/-! # What a minted token opens -/

namespace Peryx.Oci
open Acl

section Realm
variable (base64Decode : Str → Option (List UInt8)) (indexes : Indexes)

def TokenRequester.sameAt (requester : TokenRequester) (acl : IndexAcl) : Bool :=
  requester.basic.all fun basic =>
    (acl.identify base64Decode (some basic.header) basic.now).principal == requester.principal

def TokenRequester.Vouched (requester : TokenRequester) : Prop :=
  match requester.basic with
  | none => requester.principal = .anonymous
  | some basic => ∃ index ∈ indexes.toList, index.name = basic.index ∧
      (index.acl.identify base64Decode (some basic.header) basic.now).principal = requester.principal

theorem namedRequester_vouched (now : Int) (header : Str) (requester : TokenRequester)
    (h : namedRequester base64Decode indexes now header = some requester) :
    requester.Vouched base64Decode indexes := by
  obtain ⟨index, hmem, hindex⟩ := List.exists_of_findSome?_eq_some h
  have hin : index ∈ indexes.toList := (List.mem_filter.mp hmem).1
  cases hp : (index.acl.identify base64Decode (some header) now).principal with
  | anonymous =>
    simp only [hp] at hindex
    cases hindex
  | named subject =>
    simp only [hp] at hindex
    cases hindex
    exact ⟨index, hin, rfl, hp⟩

theorem resolveRequester_vouched (now : Int) (header : Option Str) (requester : TokenRequester)
    (h : resolveRequester base64Decode indexes now header = .ok requester) :
    requester.Vouched base64Decode indexes := by
  unfold resolveRequester at h
  cases header with
  | none =>
    cases h
    rfl
  | some header =>
    dsimp only at h
    split at h
    · cases hn : namedRequester base64Decode indexes now header with
      | none =>
        rw [hn] at h
        cases h
      | some named =>
        rw [hn] at h
        cases h
        exact namedRequester_vouched base64Decode indexes now header requester hn
    · cases h
      rfl

theorem identityAt_principal (requester : TokenRequester) (acl : IndexAcl)
    (hv : requester.Vouched base64Decode indexes)
    (hs : requester.sameAt base64Decode acl = true) :
    (requester.identityAt base64Decode acl).principal = requester.principal := by
  unfold TokenRequester.Vouched at hv
  unfold TokenRequester.sameAt at hs
  unfold TokenRequester.identityAt
  cases hb : requester.basic with
  | none =>
    simp only [hb] at hv ⊢
    exact hv.symm
  | some basic =>
    simp only [hb, Option.all_some, beq_iff_eq] at hs ⊢
    exact hs

def TableSound (requester : TokenRequester) (basic : BasicAuthentication)
    (seen : AuthenticatedIndexes) : Prop :=
  ∀ index ∈ indexes.toList, ∀ known, seen[index.name]? = some known →
    known = ((index.acl.identify base64Decode (some basic.header) basic.now).principal
      == requester.principal)

def AuthenticatedSound (requester : TokenRequester) :
    Option (BasicAuthentication × AuthenticatedIndexes) → Prop
  | none => requester.basic = none
  | some (basic, seen) => requester.basic = some basic ∧
      TableSound base64Decode indexes requester basic seen

theorem tableSound_insert (requester : TokenRequester) (basic : BasicAuthentication)
    (seen : AuthenticatedIndexes) (index : Index) (hin : index ∈ indexes.toList)
    (h : TableSound base64Decode indexes requester basic seen) :
    TableSound base64Decode indexes requester basic (seen.insert index.name
      ((index.acl.identify base64Decode (some basic.header) basic.now).principal
        == requester.principal)) := by
  intro other hother known hknown
  rw [Std.ExtTreeMap.getElem?_insert] at hknown
  split at hknown
  · rename_i hname
    have heq := indexes.eq_of_name index other hin hother (Std.LawfulEqCmp.eq_of_compare hname)
    cases hknown
    rw [heq]
  · exact h other hother known hknown

theorem authenticatedAt_spec (requester : TokenRequester) (basic : BasicAuthentication)
    (seen : AuthenticatedIndexes) (index : Index) (hin : index ∈ indexes.toList)
    (hb : requester.basic = some basic)
    (h : TableSound base64Decode indexes requester basic seen) :
    (authenticatedAt base64Decode requester basic index seen).1 =
        requester.sameAt base64Decode index.acl ∧
      TableSound base64Decode indexes requester basic
        (authenticatedAt base64Decode requester basic index seen).2 := by
  have hsame : requester.sameAt base64Decode index.acl =
      ((index.acl.identify base64Decode (some basic.header) basic.now).principal
        == requester.principal) := by
    rw [TokenRequester.sameAt, hb, Option.all_some]
  rw [hsame]
  unfold authenticatedAt
  cases hseen : seen[index.name]? with
  | some known => exact ⟨h index hin known hseen, h⟩
  | none => exact ⟨rfl, tableSound_insert base64Decode indexes requester basic seen index hin h⟩

def scopeGrant (requester : TokenRequester) (scope : RequestedScope) : Option Grant :=
  match scope.resource with
  | .repository name =>
    match resolve indexes.toList name with
    | none => none
    | some (index, repo) =>
      let actions := allowedActions requester index.acl repo scope.actions
      if requester.sameAt base64Decode index.acl ∧ actions ≠ ∅ then some ⟨[⟨name⟩], actions⟩
      else none
  | .catalog =>
    match authorizeCatalogRequester base64Decode requester (ociIndexes indexes) with
    | .ok () => some ⟨[⟨catalogGrant⟩], {.read}⟩
    | .error _ => none

theorem approvedGrantsFrom_eq (requester : TokenRequester) (scopes : List RequestedScope)
    (authenticated : Option (BasicAuthentication × AuthenticatedIndexes))
    (h : AuthenticatedSound base64Decode indexes requester authenticated) :
    approvedGrantsFrom base64Decode indexes requester authenticated scopes =
      scopes.filterMap (scopeGrant base64Decode indexes requester) := by
  induction scopes generalizing authenticated with
  | nil => rfl
  | cons scope scopes ih =>
    have hcons : (scope :: scopes).filterMap (scopeGrant base64Decode indexes requester) =
        (scopeGrant base64Decode indexes requester scope).toList ++
          scopes.filterMap (scopeGrant base64Decode indexes requester) := by
      rw [List.filterMap_cons]
      cases scopeGrant base64Decode indexes requester scope <;> rfl
    rw [hcons]
    generalize scopes.filterMap (scopeGrant base64Decode indexes requester) = rest at ih ⊢
    unfold approvedGrantsFrom scopeGrant
    cases scope.resource with
    | catalog =>
      cases authorizeCatalogRequester base64Decode requester (ociIndexes indexes) with
      | ok _ => exact congrArg _ (ih authenticated h)
      | error _ => exact ih authenticated h
    | repository name =>
      cases hr : resolve indexes.toList name with
      | none =>
        simp only [hr]
        exact ih authenticated h
      | some found =>
        obtain ⟨index, repo⟩ := found
        have hin := (resolve_some indexes.toList name index repo hr).1
        by_cases hne : allowedActions requester index.acl repo scope.actions = ∅
        all_goals cases authenticated with
        | none =>
          have hs : requester.sameAt base64Decode index.acl = true := by
            rw [TokenRequester.sameAt, show requester.basic = none from h, Option.all_none]
          have hrest := ih none h
          simp [hr, hs, hne, hrest]
        | some pair =>
          obtain ⟨basic, seen⟩ := pair
          obtain ⟨hsame, hsound⟩ := authenticatedAt_spec base64Decode indexes requester basic seen
            index hin h.1 h.2
          have hrest := ih (some (basic, _)) ⟨h.1, hsound⟩
          cases hs : requester.sameAt base64Decode index.acl <;>
            simp [hr, hsame, hs, hne, hrest]

theorem approvedGrants_eq (requester : TokenRequester) (scopes : List RequestedScope)
    (hv : requester.Vouched base64Decode indexes) :
    approvedGrants base64Decode indexes requester scopes =
      scopes.filterMap (scopeGrant base64Decode indexes requester) := by
  apply approvedGrantsFrom_eq
  unfold TokenRequester.Vouched at hv
  cases hb : requester.basic with
  | none => exact hb
  | some basic =>
    simp only [hb] at hv
    obtain ⟨index, hin, hname, hp⟩ := hv
    refine ⟨hb, fun other hother known hknown => ?_⟩
    rw [Std.ExtTreeMap.getElem?_insert] at hknown
    split at hknown
    · rename_i hother'
      have heq := indexes.eq_of_name index other hin hother
        (hname.trans (Std.LawfulEqCmp.eq_of_compare hother'))
      cases hknown
      rw [← heq, hp, beq_self_eq_true]
    · simp at hknown

structure Opens (requester : TokenRequester) (scope : RequestedScope) (name : Str) (index : Index)
    (action : Action) : Prop where
  names : scope.resource = .repository name
  same : requester.sameAt base64Decode index.acl = true
  requested : action ∈ scope.actions
  allowed : ∃ repo, resolve indexes.toList name = some (index, repo) ∧
    authorize requester.principal index.acl (some repo) action = .ok ()

theorem scopeGrant_allows (requester : TokenRequester) (scope : RequestedScope) (grant : Grant)
    (glob : Glob) (action : Action)
    (hgrant : scopeGrant base64Decode indexes requester scope = some grant)
    (haction : action ∈ grant.actions) (hglob : glob ∈ grant.projects) :
    glob.pattern = catalogGrant ∨
      ∃ index, Opens base64Decode indexes requester scope glob.pattern index action := by
  unfold scopeGrant at hgrant
  cases hr : scope.resource with
  | catalog =>
    simp only [hr] at hgrant
    split at hgrant
    · cases hgrant
      rw [List.mem_singleton] at hglob
      exact Or.inl (by rw [hglob])
    · cases hgrant
  | repository name =>
    simp only [hr] at hgrant
    split at hgrant
    · cases hgrant
    · rename_i index repo hresolve
      split at hgrant
      · rename_i hcond
        cases hgrant
        rw [List.mem_singleton] at hglob
        rw [allowedActions, Finset.mem_filter] at haction
        subst hglob
        exact Or.inr ⟨index, hr, hcond.1, haction.1, repo, hresolve, haction.2⟩
      · cases hgrant

theorem scopeGrant_of_opens (requester : TokenRequester) (scope : RequestedScope) (name : Str)
    (index : Index) (action : Action)
    (h : Opens base64Decode indexes requester scope name index action) :
    ∃ grant, scopeGrant base64Decode indexes requester scope = some grant ∧
      action ∈ grant.actions ∧ ⟨name⟩ ∈ grant.projects := by
  obtain ⟨repo, hresolve, hallowed⟩ := h.allowed
  have hmem : action ∈ allowedActions requester index.acl repo scope.actions := by
    rw [allowedActions, Finset.mem_filter]
    exact ⟨h.requested, hallowed⟩
  have hne : allowedActions requester index.acl repo scope.actions ≠ ∅ :=
    Finset.ne_empty_of_mem hmem
  refine ⟨⟨[⟨name⟩], allowedActions requester index.acl repo scope.actions⟩, ?_, hmem,
    List.mem_singleton_self _⟩
  unfold scopeGrant
  simp only [h.names, hresolve]
  rw [if_pos ⟨h.same, hne⟩]

def bearerIdentity (requester : TokenRequester) (scopes : List RequestedScope) : PresentedIdentity :=
  ⟨⟨requester.principal, none⟩, .bearer (approvedGrants base64Decode indexes requester scopes)⟩

def directIdentity (requester : TokenRequester) (acl : IndexAcl) : PresentedIdentity :=
  ⟨requester.identityAt base64Decode acl, .acl⟩

/-- Whatever the token opens, the ACL it is used against opens too. -/
def TokenWithinAcl (requester : TokenRequester) (scopes : List RequestedScope) : Prop :=
  ∀ resource action index repo, resolve indexes.toList resource = some (index, repo) →
    (bearerIdentity base64Decode indexes requester scopes).authorize index.acl repo resource action
      = .ok () →
    (directIdentity base64Decode requester index.acl).authorize index.acl repo resource action = .ok ()

/-- A requested name with a star in it reaches no other index, or the requester has
the action there as well. -/
def StarsConfined (requester : TokenRequester) (scopes : List RequestedScope) : Prop :=
  ∀ scope ∈ scopes, ∀ name index action,
    Opens base64Decode indexes requester scope name index action → star ∈ name →
    ∀ resource other repo, (Glob.mk name).matches resource = true →
      resolve indexes.toList resource = some (other, repo) → other.name ≠ index.name →
      (directIdentity base64Decode requester other.acl).authorize other.acl repo resource action
        = .ok ()

theorem bearer_authorize_iff (requester : TokenRequester) (scopes : List RequestedScope)
    (hv : requester.Vouched base64Decode indexes) (acl : IndexAcl) (repo resource : Str)
    (action : Action) :
    (bearerIdentity base64Decode indexes requester scopes).authorize acl repo resource action
        = .ok () ↔
      ∃ scope ∈ scopes, ∃ grant, scopeGrant base64Decode indexes requester scope = some grant ∧
        action ∈ grant.actions ∧ ∃ glob ∈ grant.projects,
          Wildcard.Denotes star glob.pattern resource := by
  simp only [bearerIdentity, PresentedIdentity.authorize, authorizeGrants_ok,
    approvedGrants_eq base64Decode indexes requester scopes hv, List.mem_filterMap]
  constructor
  · rintro ⟨grant, ⟨scope, hscope, hgrant⟩, haction, hglob⟩
    exact ⟨scope, hscope, grant, hgrant, haction, hglob⟩
  · rintro ⟨scope, hscope, grant, hgrant, haction, hglob⟩
    exact ⟨grant, ⟨scope, hscope, hgrant⟩, haction, hglob⟩

theorem resolve_catalogGrant (index : Index) (repo : Str) :
    resolve indexes.toList catalogGrant ≠ some (index, repo) := by
  intro h
  have hsplit := resolve_eq indexes catalogGrant index repo h
  have hslash : (0x2F : UInt8) ∈ catalogGrant := by
    rw [hsplit]
    exact List.mem_append_right _ List.mem_cons_self
  exact absurd hslash (by decide)

theorem direct_authorize (requester : TokenRequester) (index : Index) (repo resource : Str)
    (action : Action) (hv : requester.Vouched base64Decode indexes)
    (hs : requester.sameAt base64Decode index.acl = true)
    (h : authorize requester.principal index.acl (some repo) action = .ok ()) :
    (directIdentity base64Decode requester index.acl).authorize index.acl repo resource action
      = .ok () := by
  simp only [directIdentity, PresentedIdentity.authorize]
  rw [identityAt_principal base64Decode indexes requester index.acl hv hs]
  exact h

theorem opens_within_index (requester : TokenRequester) (scope : RequestedScope)
    (name resource repo : Str) (index : Index) (action : Action)
    (hv : requester.Vouched base64Decode indexes)
    (ho : Opens base64Decode indexes requester scope name index action)
    (hd : Wildcard.Denotes star name resource)
    (hr : resolve indexes.toList resource = some (index, repo)) :
    (directIdentity base64Decode requester index.acl).authorize index.acl repo resource action
      = .ok () := by
  obtain ⟨own, hown, hallowed⟩ := ho.allowed
  have hcover := resolve_instance indexes name resource index own repo hown hr hd
  have hrepo := authorize_instance requester.principal index.acl own repo action hallowed hcover
  exact direct_authorize base64Decode indexes requester index repo resource action hv ho.same hrepo

/-- Minted tokens stay within the ACLs exactly when starred names are confined. -/
theorem token_within_acl_iff (now : Int) (header : Option Str) (requester : TokenRequester)
    (scopes : List RequestedScope)
    (h : resolveRequester base64Decode indexes now header = .ok requester) :
    TokenWithinAcl base64Decode indexes requester scopes ↔
      StarsConfined base64Decode indexes requester scopes := by
  have hv := resolveRequester_vouched base64Decode indexes now header requester h
  constructor
  · intro hwithin scope hscope name index action ho _ resource other repo hmatch hresolve _
    obtain ⟨grant, hgrant, haction, hglob⟩ :=
      scopeGrant_of_opens base64Decode indexes requester scope name index action ho
    apply hwithin resource action other repo hresolve
    rw [bearer_authorize_iff base64Decode indexes requester scopes hv]
    exact ⟨scope, hscope, grant, hgrant, haction, ⟨name⟩, hglob, (Glob.matches_iff _ _).mp hmatch⟩
  · intro hconfined resource action index repo hresolve hbearer
    rw [bearer_authorize_iff base64Decode indexes requester scopes hv] at hbearer
    obtain ⟨scope, hscope, grant, hgrant, haction, glob, hglob, hd⟩ := hbearer
    rcases scopeGrant_allows base64Decode indexes requester scope grant glob action hgrant haction
      hglob with hcatalog | ⟨own, ho⟩
    · rw [hcatalog, Wildcard.denotes_literal star catalogGrant resource (by decide)] at hd
      exact absurd (hd ▸ hresolve) (resolve_catalogGrant indexes index repo)
    · by_cases hname : index.name = own.name
      · obtain ⟨_, hown, _⟩ := ho.allowed
        have heq := indexes.eq_of_name index own (resolve_some _ _ _ _ hresolve).1
          (resolve_some _ _ _ _ hown).1 hname
        subst heq
        exact opens_within_index base64Decode indexes requester scope glob.pattern resource repo
          index action hv ho hd hresolve
      · by_cases hstar : star ∈ glob.pattern
        · exact hconfined scope hscope glob.pattern own action ho hstar resource index repo
            ((Glob.matches_iff _ _).mpr hd) hresolve hname
        · -- without a star the resource is the requested name itself
          rw [Wildcard.denotes_literal star glob.pattern resource hstar] at hd
          obtain ⟨_, hown, _⟩ := ho.allowed
          rw [← hd, hresolve] at hown
          cases hown
          exact absurd rfl hname

end Realm

/-- `team` reads anonymously, `team/private` opens to nobody. -/
def nestedRoutes : Indexes where
  toList :=
    [⟨str "team", str "team", .oci, .hosted false, {}, ⟨true, []⟩⟩,
      ⟨str "private", str "team/private", .oci, .hosted false, {}, ⟨false, []⟩⟩]
  names_nodup := by decide
  routes_nodup := by decide
  routes_valid := by
    intro index h
    simp only [List.mem_cons, List.not_mem_nil, or_false] at h
    rcases h with rfl | rfl <;> rfl

/-- Anyone may ask for `team/*`; the token then reads what `team/private` denies. -/
theorem nested_star_exceeds_acl :
    ∃ requester scope, resolveRequester (fun _ => none) nestedRoutes 0 none = .ok requester ∧
      parseScope (str "repository:team/*:pull") = some scope ∧
      ¬ TokenWithinAcl (fun _ => none) nestedRoutes requester [scope] := by
  refine ⟨⟨.anonymous, none⟩, ⟨.repository (str "team/*"), {.read}⟩, rfl, by decide, ?_⟩
  intro hwithin
  have hdirect := hwithin (str "team/private/app") .read nestedRoutes.toList[1] (str "app") rfl
    (by decide)
  exact absurd hdirect (by decide)

/-- Without a star the same request stays inside. -/
theorem nested_plain_within_acl :
    TokenWithinAcl (fun _ => none) nestedRoutes ⟨.anonymous, none⟩
      [⟨.repository (str "team/app"), {.read}⟩] :=
  (token_within_acl_iff (fun _ => none) nestedRoutes 0 none ⟨.anonymous, none⟩ _ rfl).mpr (by
    intro scope hscope name index action ho hstar
    rw [List.mem_singleton] at hscope
    have hname : name = str "team/app" := by
      have := ho.names
      rw [hscope] at this
      cases this
      rfl
    rw [hname] at hstar
    exact absurd hstar (by decide))

end Peryx.Oci
