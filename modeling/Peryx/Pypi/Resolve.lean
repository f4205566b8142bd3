import Peryx.Index.Index
import Peryx.Library.CallTree
import Peryx.Pypi.Policy

/-!
# Resolving a project's page (peryx-ecosystem-pypi/src/cache/resolve.rs)

A virtual index resolves its members, each by the same function, and merges what they hold
under its own fallback mode. What a cached or a hosted index itself holds is read from the
store or from upstream and is a parameter here, as the stored overrides are. The event that
records a collision is left out.
-/

namespace Peryx.Pypi

inductive CacheError where
  | policy (denial : PolicyDenial)
  | offlineMissing (what : Str)
  | rateLimited (retryAfter : Nat)
  | failed (text : Str)
  deriving Repr, DecidableEq

structure DetailPage where
  detail : ProjectDetail
  lastSerial : Option Nat

structure LayerReads where
  cachedDetail : Index → Except CacheError (Option DetailPage)
  localDetail : Index → Except CacheError (Option ProjectDetail)
  currentSerial : Except CacheError Nat
  /-- `list_overrides` of a hosted index, by filename. -/
  overrides : Str → Except CacheError (List (Str × Str))
  yankRecord : Str → Option (Str × Option Str)
  clock : Int

def rewriteUrls (route : Str) (detail : ProjectDetail) : ProjectDetail :=
  { detail with
    files := detail.files.map fun file => match file.sha256 with
      | some sha256 => { file with url := Core.localFileUrl route sha256 file.filename }
      | none => file }

def applyProjectStatus (detail : ProjectDetail) : ProjectDetail :=
  if detail.info.status.offersDownloads then detail else { detail with files := [] }

def hiddenOverride (value : Str) : Bool := value == str "hidden"

def yankedOverride (yankRecord : Str → Option (Str × Option Str)) (value : Str) : Option Yanked :=
  if value = str "yanked" then some .yes
  else match yankRecord value with
    | none => none
    | some (kind, reason) =>
      if kind ≠ str "yanked" then none
      else match reason with
        | some (byte :: text) => some (.reason (byte :: text))
        | some [] | none => some .yes

def applyOverrides (yankRecord : Str → Option (Str × Option Str)) (rows : List (Str × Str))
    (files : List File) : List File :=
  let overrides : Table Str Str := Std.ExtTreeMap.ofList rows
  (files.filter fun file => !(overrides[file.filename]?).any hiddenOverride).map fun file =>
    match (overrides[file.filename]?).bind (yankedOverride yankRecord) with
    | some yanked => { file with yanked := yanked }
    | none => file

def cachedDenial (index : Index) (project : Str) : Option PolicyDenial :=
  match index.policy.checkProject .cached project with
  | .error denial => some denial
  | .ok () => none

def consultCached (index : Index) (project : Str) : Bool :=
  index.policy.fallbackMode != .noFallback && (cachedDenial index project).isNone

def consultedLayers (indexes : List Index) (index : Index) (layers : List Nat) (project : Str) :
    List Nat :=
  (shadowOrder indexes layers).filter fun position =>
    !cachedAt indexes position || consultCached index project

abbrev LayerOutcome := Nat × Except CacheError (Option ProjectDetail)

def foundDetails (outcomes : List LayerOutcome) : List (Nat × ProjectDetail) :=
  outcomes.filterMap fun (position, outcome) => match outcome with
    | .ok (some detail) => some (position, detail)
    | .ok none | .error _ => none

def lastError (reported : CacheError → Bool) (outcomes : List LayerOutcome) : Option CacheError :=
  (outcomes.filterMap fun (_, outcome) => match outcome with
    | .error err => if reported err then some err else none
    | .ok _ => none).getLast?

def CacheError.isRateLimited : CacheError → Bool
  | .rateLimited _ => true
  | _ => false

def CacheError.isOfflineMissing : CacheError → Bool
  | .offlineMissing _ => true
  | _ => false

def candidates (indexes : List Index) (mode : FallbackMode) (details : List (Nat × ProjectDetail)) :
    List (Nat × ProjectDetail) :=
  let details := if mode ≠ .fallback then details.filter fun found => !found.2.files.isEmpty else details
  if mode = .privateFirst ∧ details.any fun found => !cachedAt indexes found.1 then
    details.filter fun found => !cachedAt indexes found.1
  else details

def memberNames (indexes : List Index) (layers : List Nat) (cached : Bool) : Str :=
  (str ", ").intercalate ((layers.filterMap fun position => indexes[position]?).filterMap
    fun index => if index.kind.isCached = cached then some index.name else none)

def noFallbackDenial (indexes : List Index) (index : Index) (layers : List Nat) (project : Str) :
    PolicyDenial where
  action := .cached
  project := project
  filename := none
  version := none
  rule := str "virtual-fallback"
  field := str "fallback_mode"
  reason := .missingFromHosted project (memberNames indexes layers false) index.name
    (memberNames indexes layers true)

def emptyOutcome (indexes : List Index) (index : Index) (layers : List Nat) (project : Str)
    (denyNoFallbackMiss : Bool) (outcomes : List LayerOutcome) :
    Except CacheError (Option ProjectDetail) :=
  match cachedDenial index project with
  | some denial => .error (.policy denial)
  | none =>
    if index.policy.fallbackMode = .noFallback ∧ denyNoFallbackMiss then
      .error (.policy (noFallbackDenial indexes index layers project))
    else match lastError CacheError.isRateLimited outcomes with
      | some err => .error err
      | none =>
        match lastError CacheError.isOfflineMissing outcomes with
        | some err => .error err
        | none => .ok none

def mergeMeta (merged : Meta) (info : Meta) : Meta :=
  let merged := if info.apiVersion = apiVersionBase then { merged with apiVersion := apiVersionBase }
    else merged
  if merged.projectStatus.isNone ∧ info.projectStatus.isSome then
    { merged with
      projectStatus := info.projectStatus
      projectStatusReason := info.projectStatusReason }
  else merged

def dedupFiles (seen : Finset Str) : List File → List File
  | [] => []
  | file :: files =>
    if file.filename ∈ seen then dedupFiles seen files
    else file :: dedupFiles (insert file.filename seen) files

def mergeDetails (project : Str) (details : List ProjectDetail) : ProjectDetail where
  info := (details.map ProjectDetail.info).foldl mergeMeta {}
  name := project
  versions := (Std.ExtTreeSet.ofList (details.flatMap ProjectDetail.versions)).toList
  files := dedupFiles ∅ (details.flatMap ProjectDetail.files)

def virtualDetail (reads : LayerReads) (indexes : List Index) (index : Index) (layers : List Nat)
    (upload : Option Nat) (project : Str) (denyNoFallbackMiss : Bool)
    (outcomes : List LayerOutcome) : Except CacheError (Option ProjectDetail) :=
  let details := candidates indexes index.policy.fallbackMode (foundDetails outcomes)
  if details.isEmpty then
    emptyOutcome indexes index layers project denyNoFallbackMiss outcomes
  else do
    let merged := mergeDetails project (details.map Prod.snd)
    let files ← match upload.bind (indexes[·]?) with
      | none => pure merged.files
      | some hosted =>
        (reads.overrides hosted.name).map fun rows => applyOverrides reads.yankRecord rows merged.files
    return some (applyProjectStatus { merged with files := files })

section Resolver
variable (table : CaseMap) (pep : Pep440) (parseUploadTime : Str → Option Int)
variable (reads : LayerReads) (indexes : List Index) (project serveRoute : Str)
  (denyNoFallbackMiss : Bool)

def ownPage (index : Index) : Except CacheError (Option DetailPage) :=
  match index.kind with
  | .cached _ _ =>
    (reads.cachedDetail index).map fun page => page.map fun page =>
      { page with detail := rewriteUrls serveRoute page.detail }
  | _ =>
    match reads.localDetail index with
    | .error err => .error err
    | .ok none => .ok none
    | .ok (some detail) =>
      reads.currentSerial.map fun serial => some ⟨rewriteUrls serveRoute detail, some serial⟩

def filterPage (index : Index) (page : Except CacheError (Option DetailPage)) :
    Except CacheError (Option DetailPage) :=
  match page with
  | .error err => .error err
  | .ok none => .ok none
  | .ok (some page) =>
    match applyDetail table pep parseUploadTime index.policy .serve project page.detail
        (some reads.clock) with
    | .error denial => .error (.policy denial)
    | .ok detail => .ok (some { page with detail := detail })

/-- `resolve_detail_page_with`, its nesting bounded by the fuel; positions of configured
layers are in range, where the source indexes. -/
def resolveDetailPageWith : Nat → Nat → Option (Except CacheError (Option DetailPage))
  | 0, _ => none
  | fuel + 1, position =>
    match indexes[position]? with
    | none => some (.ok none)
    | some index =>
      match index.policy.checkProject .serve project with
      | .error denial => some (.error (.policy denial))
      | .ok () =>
        match index.kind with
        | .virtual layers upload =>
          let ordered := consultedLayers indexes index layers project
          (ordered.mapM (resolveDetailPageWith fuel)).map fun resolved =>
            let outcomes := ordered.zip (resolved.map fun outcome =>
              outcome.map fun page => page.map DetailPage.detail)
            filterPage table pep parseUploadTime reads project index
              ((virtualDetail reads indexes index layers upload project denyNoFallbackMiss
                outcomes).map fun detail => detail.map fun detail => ⟨detail, none⟩)
        | _ =>
          some (filterPage table pep parseUploadTime reads project index
            (ownPage reads serveRoute index))

end Resolver

end Peryx.Pypi
