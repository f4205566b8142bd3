import Peryx.Index.Index
import Peryx.Search.GlobRegex

/-! # Read access of the shared pages (peryx-driver/src/access.rs) -/

namespace Peryx.Search
open Acl

/-- The credential of a request: a header to read against each index's own tokens, or the
grants of a token that was verified. -/
inductive Credential where
  | acl (header : Option Str) (now : Int)
  | bearer (grants : List Grant)
  deriving DecidableEq

structure ReadAccess where
  credential : Credential
  deriving DecidableEq

inductive IndexCredential where
  | publicRead
  | acl (principal : Principal)
  | bearer (grants : List Grant)
  deriving DecidableEq

structure IndexReadAccess where
  index : Index
  credential : IndexCredential

structure SearchAccessPattern where
  route : Str
  glob : Str
  deriving DecidableEq

def fromHeaders (verify : Option (Str → Option (List Grant))) (header : Option Str) (now : Int) :
    ReadAccess :=
  let token := header.bind fun value => stripAuthScheme value (str "Bearer")
  match token.bind fun token => verify.bind fun verify => verify token with
  | some grants => ⟨.bearer grants⟩
  | none => ⟨.acl header now⟩

def resourcePrefix (route : Str) : Str := if route = [] then route else route ++ str "/"

def resourceName (route project : Str) : Str :=
  if route = [] then project else route ++ str "/" ++ project

def readGlobs (grants : List Grant) : List Glob :=
  (grants.filter fun grant => decide (Action.read ∈ grant.actions)).flatMap Grant.projects

section Header
variable (base64Decode : Str → Option (List UInt8))

def ReadAccess.forIndex (access : ReadAccess) (index : Index) : IndexReadAccess where
  index := index
  credential :=
    if index.acl.anonymousRead then .publicRead
    else match access.credential with
      | .acl header now => .acl (index.acl.identify base64Decode header now).principal
      | .bearer grants => .bearer grants

def IndexReadAccess.patterns (access : IndexReadAccess) : List SearchAccessPattern :=
  match access.credential with
  | .publicRead => [⟨access.index.route, str "*"⟩]
  | .acl principal =>
    (readGlobs (access.index.acl.grants principal)).map fun glob =>
      ⟨access.index.route, glob.pattern⟩
  | .bearer grants =>
    (readGlobs grants).flatMap fun glob =>
      (glob.remaindersAfter (resourcePrefix access.index.route)).map fun rest =>
        ⟨access.index.route, rest⟩

def ReadAccess.searchAccess (access : ReadAccess) (indexes : List Index) :
    List SearchAccessPattern :=
  indexes.flatMap fun index => (access.forIndex base64Decode index).patterns

end Header

def IndexReadAccess.authorizeAnyProject (access : IndexReadAccess) : Except Denial Unit :=
  match access.credential with
  | .publicRead => .ok ()
  | .acl principal => Acl.authorize principal access.index.acl none .read
  | .bearer grants =>
    if grants.any fun grant => decide (Action.read ∈ grant.actions) &&
        grant.projects.any fun project =>
          project.matchesPrefix (resourcePrefix access.index.route) then .ok ()
    else .error .forbidden

def IndexReadAccess.authorizeProject (access : IndexReadAccess) (project : Str) :
    Except Denial Unit :=
  match access.credential with
  | .publicRead => .ok ()
  | .acl principal => Acl.authorize principal access.index.acl (some project) .read
  | .bearer grants =>
    authorizeGrants grants (some (resourceName access.index.route project)) .read

structure PackageDocument where
  route : Str
  normalizedName : Str

/-- `access_query` (`engine.rs:222-243`): the documents the union of the patterns' queries
finds. -/
def accessQuery (regex : Str → Str → Bool) (patterns : List SearchAccessPattern)
    (document : PackageDocument) : Bool :=
  patterns.any fun pattern => document.route == pattern.route &&
    regex (globRegex pattern.glob) document.normalizedName

theorem mem_readGlobs (grants : List Grant) (glob : Glob) :
    glob ∈ readGlobs grants ↔
      ∃ grant ∈ grants, Action.read ∈ grant.actions ∧ glob ∈ grant.projects := by
  simp [readGlobs, and_assoc]

theorem authorizeGrants_read (grants : List Grant) (project : Str) :
    authorizeGrants grants (some project) .read = .ok () ↔
      ∃ glob ∈ readGlobs grants, Wildcard.Denotes star glob.pattern project := by
  rw [authorizeGrants_ok]
  constructor
  · rintro ⟨grant, hgrant, haction, glob, hglob, hd⟩
    exact ⟨glob, (mem_readGlobs grants glob).mpr ⟨grant, hgrant, haction, hglob⟩, hd⟩
  · rintro ⟨glob, hglob, hd⟩
    obtain ⟨grant, hgrant, haction, hmem⟩ := (mem_readGlobs grants glob).mp hglob
    exact ⟨grant, hgrant, haction, glob, hmem, hd⟩

theorem authorize_read_closed (principal : Principal) (acl : IndexAcl) (project : Str)
    (h : acl.anonymousRead = false) :
    Acl.authorize principal acl (some project) .read = .ok () ↔
      ∃ glob ∈ readGlobs (acl.grants principal), Wildcard.Denotes star glob.pattern project := by
  rw [← authorizeGrants_read]
  unfold Acl.authorize
  rw [if_neg (by simp [h])]
  cases principal with
  | anonymous =>
    have hnone : authorizeGrants (acl.grants .anonymous) (some project) .read ≠ .ok () := by
      simp [authorizeGrants, IndexAcl.grants]
    constructor
    · intro hok
      dsimp only at hok
      split at hok <;> cases hok
    · intro hok
      exact absurd hok hnone
  | named subject =>
    cases htoken : acl.token subject with
    | none => simp [IndexAcl.grants, htoken, authorizeGrants]
    | some token => simp [IndexAcl.grants, htoken]

theorem resourceName_eq (route project : Str) :
    resourceName route project = resourcePrefix route ++ project := by
  unfold resourceName resourcePrefix
  split
  · rename_i hroute
    rw [hroute, List.nil_append]
  · rfl

end Peryx.Search

/-!
## Search shows what may be read

The query the search builds from a credential finds a project of an index exactly
where the credential may read it there.
-/

namespace Peryx.Search
open Acl

/-- The globs of a credential and of the tokens it is read against are texts. -/
structure GlobTexts (access : ReadAccess) (indexes : Indexes) : Prop where
  tokens : ∀ index ∈ indexes.toList, ∀ token ∈ index.acl.tokens, ∀ grant ∈ token.grants,
    ∀ glob ∈ grant.projects, Str.IsText glob.pattern
  bearer : ∀ grants, access.credential = .bearer grants → ∀ grant ∈ grants,
    ∀ glob ∈ grant.projects, Str.IsText glob.pattern

section Header
variable (base64Decode : Str → Option (List UInt8))

def IndexReadAccess.Shows (regex : Str → Str → Bool) (access : IndexReadAccess) (project : Str) :
    Prop :=
  ∃ pattern ∈ access.patterns, regex (globRegex pattern.glob) project = true

theorem patterns_route (access : IndexReadAccess) :
    ∀ pattern ∈ access.patterns, pattern.route = access.index.route := by
  intro pattern hpattern
  unfold IndexReadAccess.patterns at hpattern
  split at hpattern
  · rw [List.mem_singleton.mp hpattern]
  · obtain ⟨_, _, rfl⟩ := List.mem_map.mp hpattern
    rfl
  · obtain ⟨_, _, hrest⟩ := List.mem_flatMap.mp hpattern
    obtain ⟨_, _, rfl⟩ := List.mem_map.mp hrest
    rfl

theorem accessQuery_iff (regex : Str → Str → Bool) (access : ReadAccess) (indexes : Indexes)
    (index : Index) (project : Str) (hindex : index ∈ indexes.toList) :
    accessQuery regex (access.searchAccess base64Decode indexes.toList) ⟨index.route, project⟩ = true ↔
      (access.forIndex base64Decode index).Shows regex project := by
  unfold accessQuery ReadAccess.searchAccess IndexReadAccess.Shows
  simp only [List.any_eq_true, List.mem_flatMap, Bool.and_eq_true, beq_iff_eq]
  constructor
  · rintro ⟨pattern, ⟨other, hother, hpattern⟩, hroute, hregex⟩
    have hsame : other.route = index.route := by
      rw [hroute, patterns_route _ pattern hpattern]
      rfl
    rw [List.inj_on_of_nodup_map indexes.routes_nodup hother hindex hsame] at hpattern
    exact ⟨pattern, hpattern, hregex⟩
  · rintro ⟨pattern, hpattern, hregex⟩
    refine ⟨pattern, ⟨index, hindex, hpattern⟩, ?_, hregex⟩
    rw [patterns_route _ pattern hpattern]
    rfl

theorem resourcePrefix_ascii (route : Str) :
    ∀ last ∈ (resourcePrefix route).getLast?, last < 0x80 := by
  intro last hlast
  unfold resourcePrefix at hlast
  split at hlast
  · rename_i hroute
    rw [hroute] at hlast
    cases hlast
  · rw [List.getLast?_append, show (str "/").getLast? = some 0x2F by decide] at hlast
    cases hlast
    decide

section Index
variable (regex : Str → Str → Bool) (hregex : DocumentedRegex regex) (project : Str)
  (hproject : Str.IsText project) (hline : 0x0A ∉ project)
include hregex hproject hline

theorem shows_public (index : Index) :
    (IndexReadAccess.mk index .publicRead).Shows regex project := by
  refine ⟨_, List.mem_singleton_self _, ?_⟩
  have hstar : Str.IsText (str "*") :=
    Str.isText_ascii _ (Str.forall_of_all (by decide))
  rw [regex_glob_iff regex hregex _ project hstar hproject hline]
  exact (Wildcard.denotes_star _ [] project).mpr ⟨[], List.nil_suffix, rfl⟩

theorem shows_acl (index : Index) (principal : Principal) (hclosed : index.acl.anonymousRead = false)
    (hglobs : ∀ glob ∈ readGlobs (index.acl.grants principal), Str.IsText glob.pattern) :
    (IndexReadAccess.mk index (.acl principal)).Shows regex project ↔
      Acl.authorize principal index.acl (some project) .read = .ok () := by
  rw [authorize_read_closed principal index.acl project hclosed]
  unfold IndexReadAccess.Shows IndexReadAccess.patterns
  constructor
  · rintro ⟨pattern, hpattern, hshow⟩
    obtain ⟨glob, hglob, rfl⟩ := List.mem_map.mp hpattern
    exact ⟨glob, hglob,
      (regex_glob_iff regex hregex _ project (hglobs glob hglob) hproject hline).mp hshow⟩
  · rintro ⟨glob, hglob, hd⟩
    exact ⟨_, List.mem_map_of_mem hglob,
      (regex_glob_iff regex hregex _ project (hglobs glob hglob) hproject hline).mpr hd⟩

theorem shows_bearer (index : Index) (grants : List Grant)
    (hglobs : ∀ glob ∈ readGlobs grants, Str.IsText glob.pattern) :
    (IndexReadAccess.mk index (.bearer grants)).Shows regex project ↔
      authorizeGrants grants (some (resourceName index.route project)) .read = .ok () := by
  rw [authorizeGrants_read, resourceName_eq]
  have hrest : ∀ glob ∈ readGlobs grants, ∀ rest ∈ glob.remaindersAfter (resourcePrefix index.route),
      Str.IsText rest := fun glob hglob rest hrest =>
    Str.isText_remainder glob.pattern _ rest (hglobs glob hglob) (resourcePrefix_ascii index.route) hrest
  unfold IndexReadAccess.Shows IndexReadAccess.patterns
  constructor
  · rintro ⟨pattern, hpattern, hshow⟩
    obtain ⟨glob, hglob, hpattern⟩ := List.mem_flatMap.mp hpattern
    obtain ⟨rest, hmem, rfl⟩ := List.mem_map.mp hpattern
    refine ⟨glob, hglob, (Wildcard.remaindersAfter_iff _ _ _ _).mp ⟨rest, hmem, ?_⟩⟩
    exact (regex_glob_iff regex hregex _ project (hrest glob hglob rest hmem) hproject hline).mp hshow
  · rintro ⟨glob, hglob, hd⟩
    obtain ⟨rest, hmem, hd⟩ := (Wildcard.remaindersAfter_iff _ _ _ _).mpr hd
    refine ⟨_, List.mem_flatMap.mpr ⟨glob, hglob, List.mem_map_of_mem hmem⟩, ?_⟩
    exact (regex_glob_iff regex hregex _ project (hrest glob hglob rest hmem) hproject hline).mpr hd

theorem shows_iff (access : ReadAccess) (indexes : Indexes) (index : Index)
    (hindex : index ∈ indexes.toList) (hglobs : GlobTexts access indexes) :
    (access.forIndex base64Decode index).Shows regex project ↔
      (access.forIndex base64Decode index).authorizeProject project = .ok () := by
  unfold ReadAccess.forIndex
  by_cases hpublic : index.acl.anonymousRead = true
  · rw [if_pos hpublic]
    exact iff_of_true (shows_public regex hregex project hproject hline index) rfl
  · rw [if_neg hpublic]
    cases hcredential : access.credential with
    | acl header now =>
      refine shows_acl regex hregex project hproject hline index _
        (Bool.not_eq_true _ ▸ hpublic) fun glob hglob => ?_
      obtain ⟨grant, hgrant, _, hmem⟩ := (mem_readGlobs _ glob).mp hglob
      obtain ⟨token, htoken, hgrants⟩ := grants_of_token index.acl _ grant hgrant
      exact hglobs.tokens index hindex token htoken grant hgrants glob hmem
    | bearer grants =>
      refine shows_bearer regex hregex project hproject hline index grants fun glob hglob => ?_
      obtain ⟨grant, hgrant, _, hmem⟩ := (mem_readGlobs _ glob).mp hglob
      exact hglobs.bearer grants hcredential grant hgrant glob hmem

end Index

theorem authorizeAnyProject_of_project (access : IndexReadAccess) (project : Str)
    (h : access.authorizeProject project = .ok ()) : access.authorizeAnyProject = .ok () := by
  obtain ⟨index, credential⟩ := access
  cases credential with
  | publicRead => rfl
  | acl principal => exact authorize_any_of_project principal index.acl project .read h
  | bearer grants =>
    obtain ⟨grant, hgrant, haction, glob, hglob, hd⟩ := (authorizeGrants_ok _ _ _).mp h
    rw [resourceName_eq] at hd
    have hprefix := (Wildcard.acceptsPrefix_iff star glob.pattern _).mpr ⟨project, hd⟩
    apply if_pos
    simp only [List.any_eq_true, Bool.and_eq_true, decide_eq_true_eq]
    exact ⟨grant, hgrant, haction, glob, hglob, hprefix⟩

/-- For every credential the search finds a project of an index exactly where the
project check accepts it, and a project that is accepted opens the listing. -/
theorem search_shows_readable (regex : Str → Str → Bool) (hregex : DocumentedRegex regex)
    (indexes : Indexes) (access : ReadAccess) (hglobs : GlobTexts access indexes) :
    (∀ index ∈ indexes.toList, ∀ project, Str.IsText project → 0x0A ∉ project →
      (accessQuery regex (access.searchAccess base64Decode indexes.toList) ⟨index.route, project⟩ = true ↔
        (access.forIndex base64Decode index).authorizeProject project = .ok ())) ∧
    ∀ index ∈ indexes.toList, ∀ project,
      (access.forIndex base64Decode index).authorizeProject project = .ok () →
        (access.forIndex base64Decode index).authorizeAnyProject = .ok () := by
  constructor
  · intro index hindex project hproject hline
    rw [accessQuery_iff base64Decode regex access indexes index project hindex]
    exact shows_iff base64Decode regex hregex project hproject hline access indexes index hindex hglobs
  · intro index _ project h
    exact authorizeAnyProject_of_project _ project h

end Header

def privateIndexes : Indexes where
  toList := [⟨str "private", str "team/private", .pypi, .hosted false, {}, ⟨false, []⟩⟩]
  names_nodup := by decide
  routes_nodup := by decide
  routes_valid := by
    intro index h
    rw [List.mem_singleton.mp h]
    rfl

def teamReader : ReadAccess := ⟨.bearer [⟨[⟨str "team/*/app-*"⟩], {.read}⟩]⟩

theorem teamReader_globs : GlobTexts teamReader privateIndexes := by
  constructor
  · intro index hindex token htoken
    rw [List.mem_singleton.mp hindex] at htoken
    cases htoken
  · intro grants hgrants grant hgrant glob hglob
    cases hgrants
    rw [List.mem_singleton.mp hgrant] at hglob
    rw [List.mem_singleton.mp hglob]
    exact Str.isText_ascii _ (Str.forall_of_all (by decide))

theorem teamReader_finds_app :
    accessQuery readRegex (teamReader.searchAccess (fun _ => none) privateIndexes.toList)
        ⟨str "team/private", str "app-core"⟩ = true ∧
      (teamReader.forIndex (fun _ => none) privateIndexes.toList[0]).authorizeAnyProject = .ok () := by
  have hagree := search_shows_readable (fun _ => none) readRegex readRegex_documented
    privateIndexes teamReader teamReader_globs
  have hmem : privateIndexes.toList[0] ∈ privateIndexes.toList := List.getElem_mem _
  have haccepted : (teamReader.forIndex (fun _ => none)
      privateIndexes.toList[0]).authorizeProject (str "app-core") = .ok () := by
    decide +kernel
  have htext := Str.isText_ascii (str "app-core") (Str.forall_of_all (by decide))
  exact ⟨(hagree.1 _ hmem (str "app-core") htext (by decide)).mpr haccepted,
    hagree.2 _ hmem _ haccepted⟩

end Peryx.Search
