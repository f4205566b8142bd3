import Mathlib.Data.List.Forall2
import Peryx.Pypi.Nesting

/-! # What a resolved page depends on -/

namespace Peryx.Pypi

def File.unyanked (file : File) : File := { file.setMetadata file.metadata with yanked := .no }

section Dependence
variable (agree : Str → Prop)

structure FileAlike (a b : File) : Prop where
  form : a.unyanked = b.unyanked
  yanked : agree a.filename → a.yanked = b.yanked

structure DetailAlike (a b : ProjectDetail) : Prop where
  info : a.info = b.info
  name : a.name = b.name
  versions : a.versions = b.versions
  files : List.Forall₂ (FileAlike agree) a.files b.files

inductive OutcomeAlike {ε α β : Type} (same : α → β → Prop) :
    Except ε (Option α) → Except ε (Option β) → Prop
  | error (error : ε) : OutcomeAlike same (.error error) (.error error)
  | missing : OutcomeAlike same (.ok none) (.ok none)
  | found (a : α) (b : β) (h : same a b) : OutcomeAlike same (.ok (some a)) (.ok (some b))

def PageAlike (a b : DetailPage) : Prop := DetailAlike agree a.detail b.detail

def overrideIn (rows : List (Str × Str)) (filename : Str) : Option Str :=
  (Std.ExtTreeMap.ofList rows : Table Str Str)[filename]?

structure ReadsAlike (first second : LayerReads) : Prop where
  cached : first.cachedDetail = second.cachedDetail
  hosted : ∀ index, OutcomeAlike (DetailAlike agree) (first.localDetail index)
    (second.localDetail index)
  serial : ∃ serial serial', first.currentSerial = .ok serial ∧ second.currentSerial = .ok serial'
  yankRecord : first.yankRecord = second.yankRecord
  clock : first.clock = second.clock
  overrides : ∀ name, ∃ rows rows', first.overrides name = .ok rows ∧
    second.overrides name = .ok rows' ∧
    (∀ filename, (overrideIn rows filename).any hiddenOverride =
      (overrideIn rows' filename).any hiddenOverride) ∧
    ∀ filename, agree filename → overrideIn rows filename = overrideIn rows' filename

variable {agree}

theorem FileAlike.congr {γ : Type} {a b : File} (h : FileAlike agree a b) (f : File → γ)
    (hf : ∀ file, f file.unyanked = f file) : f a = f b := by
  rw [← hf a, h.form, hf]

theorem FileAlike.filename {a b : File} (h : FileAlike agree a b) : a.filename = b.filename :=
  h.congr File.filename fun _ => rfl

theorem FileAlike.sha256 {a b : File} (h : FileAlike agree a b) : a.sha256 = b.sha256 :=
  h.congr File.sha256 fun _ => rfl

theorem FileAlike.size {a b : File} (h : FileAlike agree a b) : a.size = b.size :=
  h.congr File.size fun _ => rfl

theorem FileAlike.withUrl {a b : File} (h : FileAlike agree a b) (url url' : Str)
    (hurl : url = url') : FileAlike agree { a with url := url } { b with url := url' } := by
  subst hurl
  exact ⟨congrArg (fun file : File => { file with url := url }) h.form, h.yanked⟩

theorem FileAlike.refl (file : File) : FileAlike agree file file := ⟨rfl, fun _ => rfl⟩

theorem DetailAlike.refl (detail : ProjectDetail) : DetailAlike agree detail detail :=
  ⟨rfl, rfl, rfl, List.forall₂_same.mpr fun file _ => .refl file⟩

theorem map_eq_of_same {γ : Type} (f : File → γ) (h : ∀ a b, FileAlike agree a b → f a = f b)
    (files files' : List File) (hfiles : List.Forall₂ (FileAlike agree) files files') :
    files.map f = files'.map f := by
  induction hfiles with
  | nil => rfl
  | cons hfile _ ih => rw [List.map_cons, List.map_cons, h _ _ hfile, ih]

theorem isEmpty_of_same {α β : Type} {related : α → β → Prop} {l : List α} {l' : List β}
    (h : List.Forall₂ related l l') : l.isEmpty = l'.isEmpty := by
  cases h with
  | nil => rfl
  | cons _ _ => rfl

theorem rewriteUrls_same (route : Str) {a b : ProjectDetail} (h : DetailAlike agree a b) :
    DetailAlike agree (rewriteUrls route a) (rewriteUrls route b) := by
  refine ⟨h.info, h.name, h.versions, ?_⟩
  refine List.rel_map (fun file file' hfile => ?_) h.files
  have hsha256 := hfile.sha256
  cases hfound : file'.sha256 with
  | none =>
    rw [hfound] at hsha256
    simp only [hsha256]
    exact hfile
  | some sha256 =>
    rw [hfound] at hsha256
    simp only [hsha256]
    exact hfile.withUrl _ _ (congrArg (Core.localFileUrl route sha256) hfile.filename)

theorem applyProjectStatus_same {a b : ProjectDetail} (h : DetailAlike agree a b) :
    DetailAlike agree (applyProjectStatus a) (applyProjectStatus b) := by
  unfold applyProjectStatus
  rw [h.info]
  split
  · exact h
  · exact ⟨rfl, h.name, h.versions, .nil⟩

section Policies
variable (table : CaseMap) (pep : Pep440) (parseUploadTime : Str → Option Int)

theorem showsFile_same (policy : Policy) (action : PolicyAction) (project : Str)
    (now : Option Int) {a b : File} (h : FileAlike agree a b) :
    showsFile table pep parseUploadTime policy action project now a =
      showsFile table pep parseUploadTime policy action project now b :=
  h.congr (showsFile table pep parseUploadTime policy action project now) fun _ => rfl

theorem projectSizeDenial_same (action : PolicyAction) (project : Str) (limit total : Nat)
    (files files' : List File) (h : List.Forall₂ (FileAlike agree) files files') :
    projectSizeDenial action project limit total files =
      projectSizeDenial action project limit total files' := by
  induction h generalizing total with
  | nil => rfl
  | cons hfile _ ih =>
    unfold projectSizeDenial
    rw [hfile.size, hfile.filename]
    split
    · rfl
    · exact ih _

theorem retainVersionsWithFiles_same {a b : ProjectDetail} (h : DetailAlike agree a b) :
    DetailAlike agree (retainVersionsWithFiles table pep a) (retainVersionsWithFiles table pep b) := by
  have hnames := map_eq_of_same File.filename (fun _ _ hfile => hfile.filename) _ _ h.files
  have hversions : ∀ files : List File, (files.filterMap fun file =>
      (parsedFilename table pep file.filename).map fun parsed => pep.versionString parsed.version) =
      (files.map File.filename).filterMap fun filename =>
        (parsedFilename table pep filename).map fun parsed => pep.versionString parsed.version := by
    intro files
    rw [List.filterMap_map]
    rfl
  unfold retainVersionsWithFiles
  refine ⟨h.info, h.name, ?_, h.files⟩
  rw [hversions, hversions, hnames, h.versions]

theorem applyDetail_same (policy : Policy) (action : PolicyAction) (project : Str)
    (now : Option Int) {a b : ProjectDetail} (h : DetailAlike agree a b) :
    (∃ denial, applyDetail table pep parseUploadTime policy action project a now = .error denial ∧
      applyDetail table pep parseUploadTime policy action project b now = .error denial) ∨
    ∃ a' b', applyDetail table pep parseUploadTime policy action project a now = .ok a' ∧
      applyDetail table pep parseUploadTime policy action project b now = .ok b' ∧
      DetailAlike agree a' b' := by
  have hshown : List.Forall₂ (FileAlike agree)
      (a.files.filter (showsFile table pep parseUploadTime policy action project now))
      (b.files.filter (showsFile table pep parseUploadTime policy action project now)) := by
    refine List.rel_filter (fun file file' hfile => ?_) h.files
    show _ = true ↔ _ = true
    rw [showsFile_same table pep parseUploadTime policy action project now hfile]
  unfold applyDetail
  cases policy.checkProject action project with
  | error denial => exact .inl ⟨denial, rfl, rfl⟩
  | ok _ =>
    cases policy.active with
    | false => exact .inr ⟨a, b, rfl, rfl, h⟩
    | true =>
      have hdenial : (policy.maxProjectSizeBytes.bind fun limit => projectSizeDenial action project
          limit 0 (a.files.filter (showsFile table pep parseUploadTime policy action project now))) =
          policy.maxProjectSizeBytes.bind fun limit => projectSizeDenial action project limit 0
            (b.files.filter (showsFile table pep parseUploadTime policy action project now)) := by
        cases policy.maxProjectSizeBytes with
        | none => rfl
        | some limit => exact projectSizeDenial_same action project limit 0 _ _ hshown
      simp only [Bool.not_true, Bool.false_eq_true, if_false, hdenial]
      cases policy.maxProjectSizeBytes.bind fun limit => projectSizeDenial action project limit 0
          (b.files.filter (showsFile table pep parseUploadTime policy action project now)) with
      | some denial => exact .inl ⟨denial, rfl, rfl⟩
      | none =>
        exact .inr ⟨_, _, rfl, rfl, retainVersionsWithFiles_same table pep
          ⟨h.info, h.name, h.versions, hshown⟩⟩

end Policies

def LayerAlike (agree : Str → Prop) (a b : LayerOutcome) : Prop :=
  a.1 = b.1 ∧ OutcomeAlike (DetailAlike agree) a.2 b.2

def FoundAlike (agree : Str → Prop) (a b : Nat × ProjectDetail) : Prop :=
  a.1 = b.1 ∧ DetailAlike agree a.2 b.2

theorem foundDetails_same {outcomes outcomes' : List LayerOutcome}
    (h : List.Forall₂ (LayerAlike agree) outcomes outcomes') :
    List.Forall₂ (FoundAlike agree) (foundDetails outcomes) (foundDetails outcomes') := by
  refine List.rel_filterMap (fun outcome outcome' hlayer => ?_) h
  obtain ⟨position, outcome⟩ := outcome
  obtain ⟨position', outcome'⟩ := outcome'
  obtain ⟨rfl, hsame⟩ := hlayer
  cases hsame with
  | error error => exact .none
  | missing => exact .none
  | found a b h => exact .some ⟨rfl, h⟩

theorem lastError_same (reported : CacheError → Bool) {outcomes outcomes' : List LayerOutcome}
    (h : List.Forall₂ (LayerAlike agree) outcomes outcomes') :
    lastError reported outcomes = lastError reported outcomes' := by
  unfold lastError
  congr 1
  induction h with
  | nil => rfl
  | cons hlayer _ ih =>
    rename_i outcome outcome' rest rest' _
    obtain ⟨position, outcome⟩ := outcome
    obtain ⟨position', outcome'⟩ := outcome'
    obtain ⟨rfl, hsame⟩ := hlayer
    cases hsame with
    | error error =>
      rw [List.filterMap_cons, List.filterMap_cons, ih]
    | missing => rw [List.filterMap_cons_none rfl, List.filterMap_cons_none rfl, ih]
    | found a b h => rw [List.filterMap_cons_none rfl, List.filterMap_cons_none rfl, ih]

theorem any_of_same {α β : Type} {related : α → β → Prop} {p : α → Bool} {q : β → Bool}
    (hpq : ∀ a b, related a b → p a = q b) {l : List α} {l' : List β}
    (h : List.Forall₂ related l l') : l.any p = l'.any q := by
  induction h with
  | nil => rfl
  | cons hhead _ ih => rw [List.any_cons, List.any_cons, hpq _ _ hhead, ih]

theorem candidates_same (indexes : List Index) (mode : FallbackMode)
    {details details' : List (Nat × ProjectDetail)}
    (h : List.Forall₂ (FoundAlike agree) details details') :
    List.Forall₂ (FoundAlike agree) (candidates indexes mode details)
      (candidates indexes mode details') := by
  have hkept : ∀ {l l' : List (Nat × ProjectDetail)}, List.Forall₂ (FoundAlike agree) l l' →
      ∀ p q : Nat × ProjectDetail → Bool, (∀ a b, FoundAlike agree a b → p a = q b) →
      List.Forall₂ (FoundAlike agree) (l.filter p) (l'.filter q) := by
    intro l l' hl p q hpq
    refine List.rel_filter (fun a b hab => ?_) hl
    show _ = true ↔ _ = true
    rw [hpq a b hab]
  have hlisted : List.Forall₂ (FoundAlike agree)
      (if mode ≠ .fallback then details.filter fun found => !found.2.files.isEmpty else details)
      (if mode ≠ .fallback then details'.filter fun found => !found.2.files.isEmpty
        else details') := by
    split
    · exact hkept h _ _ fun a b hab => by rw [isEmpty_of_same hab.2.files]
    · exact h
  have hhosted : ∀ a b : Nat × ProjectDetail, FoundAlike agree a b →
      (!cachedAt indexes a.1) = !cachedAt indexes b.1 := fun a b hab => by rw [hab.1]
  have hprivate : ∀ {l l' : List (Nat × ProjectDetail)}, List.Forall₂ (FoundAlike agree) l l' →
      List.Forall₂ (FoundAlike agree)
        (if mode = .privateFirst ∧ l.any fun found => !cachedAt indexes found.1 then
          l.filter fun found => !cachedAt indexes found.1 else l)
        (if mode = .privateFirst ∧ l'.any fun found => !cachedAt indexes found.1 then
          l'.filter fun found => !cachedAt indexes found.1 else l') := by
    intro l l' hl
    rw [any_of_same hhosted hl]
    split
    · exact hkept hl _ _ hhosted
    · exact hl
  exact hprivate hlisted

theorem dedupFiles_same (seen : Finset Str) {files files' : List File}
    (h : List.Forall₂ (FileAlike agree) files files') :
    List.Forall₂ (FileAlike agree) (dedupFiles seen files) (dedupFiles seen files') := by
  induction h generalizing seen with
  | nil => exact .nil
  | cons hfile _ ih =>
    unfold dedupFiles
    rw [hfile.filename]
    split
    · exact ih seen
    · exact .cons hfile (ih _)

theorem mergeDetails_same (project : Str) {details details' : List (Nat × ProjectDetail)}
    (h : List.Forall₂ (FoundAlike agree) details details') :
    DetailAlike agree (mergeDetails project (details.map Prod.snd))
      (mergeDetails project (details'.map Prod.snd)) := by
  have hparts : ∀ {γ : Type} (f : ProjectDetail → γ),
      (∀ a b, DetailAlike agree a b → f a = f b) →
        (details.map Prod.snd).map f = (details'.map Prod.snd).map f := by
    intro γ f hf
    induction h with
    | nil => rfl
    | cons hfound _ ih =>
      simp only [List.map_cons, hf _ _ hfound.2, ih]
  have hinfo := hparts ProjectDetail.info fun a b hab => hab.info
  have hversions := hparts ProjectDetail.versions fun a b hab => hab.versions
  have hfiles : List.Forall₂ (FileAlike agree)
      ((details.map Prod.snd).flatMap ProjectDetail.files)
      ((details'.map Prod.snd).flatMap ProjectDetail.files) := by
    clear hinfo hversions hparts
    induction h with
    | nil => exact .nil
    | cons hfound _ ih => exact List.rel_append hfound.2.files ih
  refine ⟨?_, rfl, ?_, dedupFiles_same ∅ hfiles⟩
  · unfold mergeDetails
    rw [hinfo]
  · unfold mergeDetails
    rw [List.flatMap_def, hversions, ← List.flatMap_def]

theorem applyOverrides_same (yankRecord : Str → Option (Str × Option Str))
    (rows rows' : List (Str × Str))
    (hhidden : ∀ filename, (overrideIn rows filename).any hiddenOverride =
      (overrideIn rows' filename).any hiddenOverride)
    (hagree : ∀ filename, agree filename → overrideIn rows filename = overrideIn rows' filename)
    {files files' : List File} (h : List.Forall₂ (FileAlike agree) files files') :
    List.Forall₂ (FileAlike agree) (applyOverrides yankRecord rows files)
      (applyOverrides yankRecord rows' files') := by
  have hshown : List.Forall₂ (FileAlike agree)
      (files.filter fun file => !(overrideIn rows file.filename).any hiddenOverride)
      (files'.filter fun file => !(overrideIn rows' file.filename).any hiddenOverride) := by
    refine List.rel_filter (fun file file' hfile => ?_) h
    show _ = true ↔ _ = true
    rw [hfile.filename, hhidden]
  refine List.rel_map (fun file file' hfile => ?_) hshown
  have hfound : agree file.filename →
      (overrideIn rows file.filename).bind (yankedOverride yankRecord) =
        (overrideIn rows' file'.filename).bind (yankedOverride yankRecord) := fun hname => by
    rw [hagree file.filename hname, hfile.filename]
  unfold overrideIn at hfound
  generalize Option.bind _ (yankedOverride yankRecord) = found at hfound ⊢
  generalize Option.bind _ (yankedOverride yankRecord) = found' at hfound ⊢
  cases found with
  | none =>
    cases found' with
    | none => exact hfile
    | some yanked' => exact ⟨hfile.form, fun hname => by cases hfound hname⟩
  | some yanked =>
    cases found' with
    | none => exact ⟨hfile.form, fun hname => by cases hfound hname⟩
    | some yanked' => exact ⟨hfile.form, fun hname => Option.some.inj (hfound hname)⟩

section Resolver
variable (table : CaseMap) (pep : Pep440) (parseUploadTime : Str → Option Int)
variable {first second : LayerReads} (hreads : ReadsAlike agree first second)
variable (indexes : List Index) (project serveRoute : Str) (denyNoFallbackMiss : Bool)
include hreads

theorem overridden_same (name : Str) {a b : ProjectDetail} (h : DetailAlike agree a b) :
    ∃ files files', (first.overrides name).map
        (fun rows => applyOverrides first.yankRecord rows a.files) = .ok files ∧
      (second.overrides name).map
        (fun rows => applyOverrides second.yankRecord rows b.files) = .ok files' ∧
      List.Forall₂ (FileAlike agree) files files' := by
  obtain ⟨rows, rows', hrows, hrows', hhidden, hagree⟩ := hreads.overrides name
  rw [hrows, hrows', hreads.yankRecord]
  exact ⟨_, _, rfl, rfl, applyOverrides_same second.yankRecord rows rows' hhidden hagree h.files⟩

theorem virtualDetail_same (index : Index) (layers : List Nat) (upload : Option Nat)
    {outcomes outcomes' : List LayerOutcome}
    (h : List.Forall₂ (LayerAlike agree) outcomes outcomes') :
    OutcomeAlike (DetailAlike agree)
      (virtualDetail first indexes index layers upload project denyNoFallbackMiss outcomes)
      (virtualDetail second indexes index layers upload project denyNoFallbackMiss outcomes') := by
  have hdetails := candidates_same indexes index.policy.fallbackMode (foundDetails_same h)
  have hempty : emptyOutcome indexes index layers project denyNoFallbackMiss outcomes =
      emptyOutcome indexes index layers project denyNoFallbackMiss outcomes' := by
    unfold emptyOutcome
    rw [lastError_same CacheError.isRateLimited h, lastError_same CacheError.isOfflineMissing h]
  have hmerged := mergeDetails_same project hdetails
  unfold virtualDetail
  simp only [isEmpty_of_same hdetails, hempty]
  split
  · have hrefl : ∀ outcome : Except CacheError (Option ProjectDetail),
        OutcomeAlike (DetailAlike agree) outcome outcome := by
      intro outcome
      rcases outcome with error | _ | detail
      · exact .error error
      · exact .missing
      · exact .found detail detail (.refl detail)
    exact hrefl _
  · cases upload.bind (indexes[·]?) with
    | none =>
      exact .found _ _ (applyProjectStatus_same ⟨hmerged.info, hmerged.name, hmerged.versions,
        hmerged.files⟩)
    | some hosted =>
      obtain ⟨files, files', hfiles, hfiles', hsame⟩ := overridden_same hreads hosted.name hmerged
      simp only [hfiles, hfiles']
      exact .found _ _ (applyProjectStatus_same ⟨hmerged.info, hmerged.name, hmerged.versions,
        hsame⟩)

theorem ownPage_same (index : Index) : OutcomeAlike (PageAlike agree)
    (ownPage first serveRoute index) (ownPage second serveRoute index) := by
  obtain ⟨serial, serial', hserial, hserial'⟩ := hreads.serial
  have hhosted := hreads.hosted index
  unfold ownPage
  rw [hreads.cached, hserial, hserial']
  generalize first.localDetail index = found, second.localDetail index = found' at hhosted ⊢
  cases index.kind with
  | cached client offline =>
    rcases second.cachedDetail index with error | _ | page
    · exact .error error
    · exact .missing
    · exact .found _ _ (.refl _)
  | hosted | virtual =>
    cases hhosted with
    | error error => exact .error error
    | missing => exact .missing
    | found a b h => exact .found _ _ (rewriteUrls_same serveRoute h)

theorem filterPage_same (index : Index) {page page' : Except CacheError (Option DetailPage)}
    (h : OutcomeAlike (PageAlike agree) page page') : OutcomeAlike (PageAlike agree)
      (filterPage table pep parseUploadTime first project index page)
      (filterPage table pep parseUploadTime second project index page') := by
  unfold filterPage
  cases h with
  | error error => exact .error error
  | missing => exact .missing
  | found a b h =>
    dsimp only
    rw [hreads.clock]
    rcases applyDetail_same table pep parseUploadTime index.policy .serve project
      (some second.clock) h with ⟨denial, ha, hb⟩ | ⟨a', b', ha, hb, hsame⟩
    · rw [ha, hb]
      exact .error _
    · rw [ha, hb]
      exact .found _ _ hsame

theorem assemble_same (position : Nat)
    (resolved resolved' : List (Except CacheError (Option DetailPage)))
    (h : List.Forall₂ (OutcomeAlike (PageAlike agree)) resolved resolved') :
    OutcomeAlike (PageAlike agree)
      (assemble table pep parseUploadTime first indexes project serveRoute denyNoFallbackMiss
        position resolved)
      (assemble table pep parseUploadTime second indexes project serveRoute denyNoFallbackMiss
        position resolved') := by
  have hdetail : ∀ {a b : Except CacheError (Option DetailPage)},
      OutcomeAlike (PageAlike agree) a b → OutcomeAlike (DetailAlike agree)
        (a.map fun page => page.map DetailPage.detail)
        (b.map fun page => page.map DetailPage.detail) := by
    intro a b hab
    cases hab with
    | error error => exact .error error
    | missing => exact .missing
    | found a b h => exact .found _ _ h
  have hlayers : ∀ positions : List Nat, List.Forall₂ (LayerAlike agree)
      (positions.zip (resolved.map fun outcome => outcome.map fun page => page.map DetailPage.detail))
      (positions.zip
        (resolved'.map fun outcome => outcome.map fun page => page.map DetailPage.detail)) := by
    intro positions
    induction h generalizing positions with
    | nil =>
      show List.Forall₂ _ (positions.zip []) (positions.zip [])
      rw [List.zip_nil_right]
      exact .nil
    | cons hhead _ ih =>
      cases positions with
      | nil => exact .nil
      | cons position positions => exact .cons ⟨rfl, hdetail hhead⟩ (ih positions)
  have hpage : ∀ {a b : Except CacheError (Option ProjectDetail)},
      OutcomeAlike (DetailAlike agree) a b → OutcomeAlike (PageAlike agree)
        (a.map fun detail => detail.map fun detail => (⟨detail, none⟩ : DetailPage))
        (b.map fun detail => detail.map fun detail => (⟨detail, none⟩ : DetailPage)) := by
    intro a b hab
    cases hab with
    | error error => exact .error error
    | missing => exact .missing
    | found a b h => exact .found _ _ h
  unfold assemble
  cases indexes[position]? with
  | none => exact .missing
  | some index =>
    dsimp only
    cases index.policy.checkProject .serve project with
    | error denial => exact .error _
    | ok _ =>
      dsimp only
      cases index.kind with
      | cached client offline =>
        exact filterPage_same table pep parseUploadTime hreads project index
          (ownPage_same hreads serveRoute index)
      | hosted isVolatile =>
        exact filterPage_same table pep parseUploadTime hreads project index
          (ownPage_same hreads serveRoute index)
      | virtual layers upload =>
        exact filterPage_same table pep parseUploadTime hreads project index
          (hpage (virtualDetail_same hreads indexes project denyNoFallbackMiss index layers upload
            (hlayers _)))

theorem resolve_same (fuel position : Nat) :
    Option.Rel (OutcomeAlike (PageAlike agree))
      (resolveDetailPageWith table pep parseUploadTime first indexes project serveRoute
        denyNoFallbackMiss fuel position)
      (resolveDetailPageWith table pep parseUploadTime second indexes project serveRoute
        denyNoFallbackMiss fuel position) := by
  rw [resolve_eq_eval, resolve_eq_eval]
  exact CallTree.eval_rel _ _ _ _ (fun position resolved resolved' h =>
    assemble_same table pep parseUploadTime hreads indexes project serveRoute denyNoFallbackMiss
      position resolved resolved' h) fuel position

end Resolver

end Dependence
end Peryx.Pypi
