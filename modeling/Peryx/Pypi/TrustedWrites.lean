import Peryx.Pypi.MutationAccess

/-! # Where a trusted publisher's token writes -/

namespace Peryx.Pypi
open Acl Identity

/-- `TrustedPublisherConfig` (config/model.rs:276-285). -/
structure TrustedPublisherConfig where
  id : Str
  issuer : Str
  repository : Str
  subject : Str
  projects : List Str
  claims : Std.ExtTreeMap Str Str

/-- `trusted_publishing` (server.rs:158-191): the repository is bound by name, and its
route is what the token is qualified with. -/
def publisherBindings (indexes : List Index) (audience : Str)
    (publishers : List TrustedPublisherConfig) : Option (List PublisherBinding) :=
  publishers.mapM fun publisher =>
    (indexes.find? fun index => index.name == publisher.repository).map fun repository =>
      { id := publisher.id
        repository := repository.route
        publisher :=
          { issuer := publisher.issuer
            audience := audience
            subject := ⟨publisher.subject⟩
            claims := publisher.claims
            projects := publisher.projects.map Glob.mk } }

theorem publisherBindings_route (indexes : List Index) (audience : Str)
    (publishers : List TrustedPublisherConfig) (bindings : List PublisherBinding)
    (h : publisherBindings indexes audience publishers = some bindings) (binding : PublisherBinding)
    (hbinding : binding ∈ bindings) : ∃ index ∈ indexes, index.route = binding.repository := by
  induction publishers generalizing bindings with
  | nil =>
    cases h
    cases hbinding
  | cons publisher publishers ih =>
    unfold publisherBindings at h
    rw [List.mapM_cons] at h
    obtain ⟨first, hfirst, h⟩ := Option.bind_eq_some_iff.mp h
    obtain ⟨others, hothers, h⟩ := Option.bind_eq_some_iff.mp h
    cases h
    rcases List.mem_cons.mp hbinding with rfl | hmem
    · obtain ⟨index, hindex, heq⟩ := Option.map_eq_some_iff.mp hfirst
      exact ⟨index, List.mem_of_find?_eq_some hindex, by rw [← heq]⟩
    · exact ih others hothers hmem

inductive WriteRequest where
  | upload (name : Str)
  | mutate (rest : Str)

/-- The project `authorize` is asked about: an upload's valid name, or the first
segment of a path. -/
def WriteRequest.project (table : CaseMap) : WriteRequest → Option Str
  | .upload name => if isValidName name then some (normalizeName table name) else none
  | .mutate rest => mutationProject table rest

theorem WriteRequest.project_slash (table : CaseMap) (request : WriteRequest) (project : Str)
    (h : request.project table = some project) : 0x2F ∉ project := by
  have hsymbol : isNameSymbol 0x2F = true := by decide
  cases request with
  | upload name =>
    rw [WriteRequest.project] at h
    split at h
    · rename_i hvalid
      cases h
      rw [mem_normalizeName table name 0x2F hsymbol]
      intro hmem
      simp only [isValidName, Bool.and_eq_true, List.all_eq_true] at hvalid
      exact absurd (hvalid.2 0x2F hmem) (by decide)
    · cases h
  | mutate rest =>
    rw [WriteRequest.project, mutationProject_eq] at h
    split at h
    · cases h
    · cases h
      rw [mem_normalizeName table _ 0x2F hsymbol]
      intro hmem
      have := List.mem_takeWhile_imp hmem
      exact absurd this (by decide)

theorem append_slash_inj (front front' back back' : Str) (hback : 0x2F ∉ back)
    (hback' : 0x2F ∉ back') (h : front ++ 0x2F :: back = front' ++ 0x2F :: back') :
    front = front' ∧ back = back' := by
  -- what one front is longer by begins with a slash of the other's back
  have hend : ∀ middle tail tail' : Str, 0x2F ∉ tail → 0x2F :: tail = middle ++ 0x2F :: tail' →
      middle = [] := by
    intro middle tail tail' htail heq
    cases middle with
    | nil => rfl
    | cons byte middle =>
      rw [List.cons_append, List.cons.injEq] at heq
      rw [heq.2] at htail
      simp at htail
  rcases List.append_eq_append_iff.mp h with ⟨middle, hfront, htail⟩ | ⟨middle, hfront, htail⟩
  · rw [hend middle back back' hback htail] at hfront htail
    rw [List.append_nil] at hfront
    exact ⟨hfront.symm, (List.cons.inj htail).2⟩
  · rw [hend middle back' back hback' htail] at hfront htail
    rw [List.append_nil] at hfront
    exact ⟨hfront, (List.cons.inj htail).2.symm⟩

theorem split_last_slash (text : Str) (h : 0x2F ∈ text) :
    ∃ front back, text = front ++ 0x2F :: back ∧ (0x2F : UInt8) ∉ back := by
  induction text with
  | nil => cases h
  | cons byte rest ih =>
    by_cases hrest : 0x2F ∈ rest
    · obtain ⟨front, back, heq, hback⟩ := ih hrest
      exact ⟨byte :: front, back, by rw [heq, List.cons_append], hback⟩
    · obtain rfl := (List.mem_cons.mp h).resolve_right hrest
      exact ⟨[], rest, rfl, hrest⟩

section Confinement
variable (table : CaseMap) (indexes : Indexes)

/-- Whatever the token is accepted for, it is the bound route and a bound project. -/
def TokenConfined (binding : PublisherBinding) (grants : List Grant) : Prop :=
  ∀ index ∈ indexes.toList, ∀ hosted, uploadTarget indexes.toList index = some hosted →
    ∀ identity token, UploadIdentity.bearer identity = some token → token.grants = grants →
      ∀ request project action, WriteRequest.project table request = some project →
        authorize index.route hosted identity (some project) action = .ok () →
        index.route = binding.repository ∧
          ∃ glob ∈ binding.publisher.projects, glob.matches project = true

/-- No writable index is mounted below the bound route where a bound glob reaches one
of its projects. -/
def NestedUnreached (binding : PublisherBinding) : Prop :=
  ∀ index ∈ indexes.toList, ∀ hosted, uploadTarget indexes.toList index = some hosted →
    hosted.kind.isHosted = true →
    ∀ below, index.route = binding.repository ++ 0x2F :: below →
      ∀ request project, WriteRequest.project table request = some project →
        ∀ glob ∈ binding.publisher.projects, glob.matches (below ++ 0x2F :: project) = false

theorem authorizeBearer_qualified (binding : PublisherBinding) (route project : Str)
    (action : Action) (hroute : route ≠ []) (hrepository : binding.repository ≠ [])
    (hstar : star ∉ binding.repository) :
    authorizeBearer (qualifyGrants [⟨binding.publisher.projects, {.write}⟩] binding.repository) route
        (some project) action = .ok () ↔
      action = .write ∧ ∃ glob ∈ binding.publisher.projects, ∃ rest,
        route ++ 0x2F :: project = binding.repository ++ 0x2F :: rest ∧ glob.matches rest = true := by
  have hfront : star ∉ binding.repository ++ [0x2F] := by
    rw [List.mem_append, not_or]
    exact ⟨hstar, by decide⟩
  unfold authorizeBearer qualifyGrants
  simp only [hroute, hrepository, if_false, authorizeGrants_ok, List.map_cons, List.map_nil,
    List.mem_singleton, exists_eq_left, Finset.mem_singleton, List.mem_map,
    exists_exists_and_eq_and, Glob.matches_iff]
  refine and_congr_right fun _ => exists_congr fun glob => and_congr_right fun _ => ?_
  rw [List.append_cons, Wildcard.denotes_literal_append star _ _ _ hfront]
  simp only [List.append_assoc, List.cons_append, List.nil_append]

/-- The token of an exchange is confined exactly when no nested index is reached. -/
theorem token_confined_iff (audience : Str) (publishers : List TrustedPublisherConfig)
    (bindings : List PublisherBinding) (claims : PublishClaims) (now : Int)
    (binding : PublisherBinding) (grants : List Grant)
    (hconfig : publisherBindings indexes.toList audience publishers = some bindings)
    (hexchange : exchangedGrants bindings claims now = .ok (binding, grants)) :
    TokenConfined table indexes binding grants ↔ NestedUnreached table indexes binding := by
  obtain ⟨hbinding, hgrants⟩ := exchangedGrants_ok bindings claims now binding grants hexchange
  obtain ⟨bound, hbound, hrepository⟩ :=
    publisherBindings_route indexes.toList audience publishers bindings hconfig binding hbinding
  have hne : binding.repository ≠ [] := hrepository ▸ indexes.route_ne_nil bound hbound
  have hstar : star ∉ binding.repository := hrepository ▸ indexes.star_not_mem_route bound hbound
  constructor
  · intro hconfined index hindex hosted htarget hhosted below hbelow request project hproject glob
      hglob
    by_contra hmatch
    rw [Bool.not_eq_false] at hmatch
    have haccepted : authorize index.route hosted ⟨⟨.anonymous, none⟩, some ⟨.anonymous, grants, []⟩⟩
        (some project) .write = .ok () := by
      rw [authorize_bearer_ok _ _ _ _ _ _ rfl, hgrants]
      refine ⟨hhosted, (authorizeBearer_qualified binding index.route project .write
        (indexes.route_ne_nil index hindex) hne hstar).mpr ⟨rfl, glob, hglob, _, ?_, hmatch⟩⟩
      rw [hbelow]
      simp
    have hroute := (hconfined index hindex hosted htarget _ _ rfl rfl request project .write hproject
      haccepted).1
    rw [hbelow] at hroute
    have hlength := congrArg List.length hroute
    simp at hlength
  · intro hunreached index hindex hosted htarget identity token hbearer htoken request project action
      hproject haccepted
    rw [authorize_bearer_ok _ _ _ _ _ _ hbearer, htoken, hgrants] at haccepted
    obtain ⟨hhosted, haccepted⟩ := haccepted
    obtain ⟨_, glob, hglob, rest, hjoined, hmatch⟩ :=
      (authorizeBearer_qualified binding index.route project action
        (indexes.route_ne_nil index hindex) hne hstar).mp haccepted
    have hslash := request.project_slash table project hproject
    by_cases hrest : 0x2F ∈ rest
    · -- the glob reached across a slash: the addressed route lies below the bound one
      obtain ⟨below, last, hsplit, hlast⟩ := split_last_slash rest hrest
      have hjoined' : index.route ++ 0x2F :: project =
          (binding.repository ++ 0x2F :: below) ++ 0x2F :: last := by
        rw [hjoined, hsplit]
        simp
      obtain ⟨hroute, hlast'⟩ := append_slash_inj _ _ project last hslash hlast hjoined'
      have hfalse := hunreached index hindex hosted htarget hhosted below hroute request project
        hproject glob hglob
      rw [hlast', ← hsplit, hmatch] at hfalse
      cases hfalse
    · obtain ⟨hroute, hproject'⟩ := append_slash_inj _ _ project rest hslash hrest hjoined
      exact ⟨hroute, glob, hglob, hproject' ▸ hmatch⟩

end Confinement

/-- `team` and, below it, `team/private`. -/
def teamIndexes : Indexes where
  toList :=
    [⟨str "team", str "team", .pypi, .hosted false, {}, ⟨true, []⟩⟩,
      ⟨str "private", str "team/private", .pypi, .hosted false, {}, ⟨false, []⟩⟩]
  names_nodup := by decide
  routes_nodup := by decide
  routes_valid := by
    intro index h
    simp only [List.mem_cons, List.not_mem_nil, or_false] at h
    rcases h with rfl | rfl <;> rfl

/-- A publisher of `team` for these project globs. -/
def teamPublisher (projects : List Str) : TrustedPublisherConfig where
  id := str "release"
  issuer := str "https://issuer.example"
  repository := str "team"
  subject := str "repo:octo/*"
  projects := projects
  claims := ∅

def teamBinding (projects : List Str) : PublisherBinding where
  id := str "release"
  repository := str "team"
  publisher := ⟨str "https://issuer.example", str "peryx", ⟨str "repo:octo/*"⟩, ∅,
    projects.map Glob.mk⟩

def octoClaims : PublishClaims where
  issuer := str "https://issuer.example"
  audience := str "peryx"
  subject := str "repo:octo/app"
  expiresAt := 60
  claims := ∅

theorem teamPublisher_exchanged (projects : List Str) :
    publisherBindings teamIndexes.toList (str "peryx") [teamPublisher projects] =
        some [teamBinding projects] ∧
      exchangedGrants [teamBinding projects] octoClaims 0 =
        .ok (teamBinding projects,
          [⟨(projects.map Glob.mk).map fun glob => ⟨str "team" ++ 0x2F :: glob.pattern⟩,
            {.write}⟩]) :=
  ⟨rfl, rfl⟩

/-- A publisher of every project of `team` writes `app` at `team/private`. -/
theorem nested_star_unconfined :
    ∃ bindings binding grants,
      publisherBindings teamIndexes.toList (str "peryx") [teamPublisher [str "*"]] = some bindings ∧
        exchangedGrants bindings octoClaims 0 = .ok (binding, grants) ∧
        ¬ TokenConfined .caseless teamIndexes binding grants := by
  obtain ⟨hconfig, hexchange⟩ := teamPublisher_exchanged [str "*"]
  refine ⟨_, _, _, hconfig, hexchange, fun hconfined => ?_⟩
  have hroute := (hconfined teamIndexes.toList[1] (by simp [teamIndexes]) teamIndexes.toList[1] rfl
    ⟨⟨.anonymous, none⟩, some ⟨.anonymous, _, []⟩⟩ _ rfl rfl (.upload (str "app")) (str "app") .write
    (by decide) rfl).1
  exact absurd hroute (by decide)

/-- A publisher of one project stays at its repository. -/
theorem literal_project_confined :
    ∃ grants, exchangedGrants [teamBinding [str "app"]] octoClaims 0 =
        .ok (teamBinding [str "app"], grants) ∧
      TokenConfined .caseless teamIndexes (teamBinding [str "app"]) grants := by
  obtain ⟨hconfig, hexchange⟩ := teamPublisher_exchanged [str "app"]
  refine ⟨_, hexchange, (token_confined_iff .caseless teamIndexes (str "peryx")
    [teamPublisher [str "app"]] _ octoClaims 0 _ _ hconfig hexchange).mpr ?_⟩
  intro index _ hosted _ _ below _ request project _ glob hglob
  obtain rfl := List.mem_singleton.mp hglob
  rw [Bool.eq_false_iff]
  intro hmatch
  rw [Glob.matches_iff, Wildcard.denotes_literal star _ _ (by decide)] at hmatch
  have hslash : (0x2F : UInt8) ∈ below ++ 0x2F :: project :=
    List.mem_append_right _ List.mem_cons_self
  rw [hmatch] at hslash
  exact absurd hslash (by decide)

end Peryx.Pypi
