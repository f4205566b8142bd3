import Mathlib.Data.List.Sort
import Peryx.Pypi.HostedServed
import Peryx.Pypi.Restores

/-! # What a restore leaves of the served view -/

namespace Peryx.Pypi
open Storage

theorem keysUnder_same (rows rows' : Rows) (start : Str)
    (h : ∀ key, start <+: key → ((rows[key]?).isSome ↔ (rows'[key]?).isSome)) :
    keysUnder rows start = keysUnder rows' start := by
  have hself : ∀ key : Str, compare key key ≠ .lt := by
    intro key hlt
    have heq : compare key key = .eq := Std.ReflCmp.compare_self
    rw [heq] at hlt
    cases hlt
  have : Std.Irrefl fun a b : Str => compare a b = .lt := ⟨hself⟩
  have : Std.Antisymm fun a b : Str => compare a b = .lt :=
    ⟨fun a b hab hba => absurd (Std.TransCmp.lt_trans hab hba) (hself a)⟩
  have hsorted : ∀ rows : Rows, (keysUnder rows start).Pairwise fun a b => compare a b = .lt :=
    fun rows => Std.ExtTreeMap.ordered_keys.filter _
  refine (hsorted rows).eq_of_mem_iff (hsorted rows') fun key => ?_
  rw [mem_keysUnder, mem_keysUnder]
  constructor
  · exact fun hkey => ⟨(h key hkey.2).mp hkey.1, hkey.2⟩
  · exact fun hkey => ⟨(h key hkey.2).mpr hkey.1, hkey.2⟩

theorem listOverrides_distinct (rows : Rows) (index normalized : Str) :
    (listOverrides rows index normalized).Pairwise fun a b => ¬ compare a.1 b.1 = .eq := by
  unfold listOverrides
  rw [List.pairwise_filterMap]
  refine List.Pairwise.imp_of_mem ?_ (Std.ExtTreeMap.nodup_keys.filter _ :
    (keysUnder rows (projectOverridesPrefix index normalized)).Nodup)
  intro key other hkey hother hne a ha b hb heq
  obtain ⟨_, rest, rfl⟩ := (mem_keysUnder rows _ key).mp hkey
  obtain ⟨_, rest', rfl⟩ := (mem_keysUnder rows _ other).mp hother
  rw [List.drop_left] at ha hb
  obtain ⟨_, _, rfl⟩ := Option.map_eq_some_iff.mp ha
  obtain ⟨_, _, rfl⟩ := Option.map_eq_some_iff.mp hb
  exact hne (congrArg _ (Std.LawfulEqCmp.eq_of_compare heq))

theorem overrideIn_listOverrides (rows : Rows) (index normalized filename : Str) :
    overrideIn (listOverrides rows index normalized) filename =
      (rows[overrideKey index normalized filename]?).bind Str.fromUtf8 := by
  unfold overrideIn
  cases hrow : (rows[overrideKey index normalized filename]?).bind Str.fromUtf8 with
  | some kind =>
    exact Std.ExtTreeMap.getElem?_ofList_of_mem Std.ReflCmp.compare_self
      (listOverrides_distinct rows index normalized)
      ((mem_listOverrides rows index normalized filename kind).mpr hrow)
  | none =>
    refine Std.ExtTreeMap.getElem?_ofList_of_contains_eq_false ?_
    rw [Bool.eq_false_iff]
    intro hmem
    rw [List.contains_iff_mem] at hmem
    obtain ⟨⟨name, kind⟩, hentry, rfl⟩ := List.mem_map.mp hmem
    rw [mem_listOverrides] at hentry
    rw [hrow] at hentry
    cases hentry

section Detail
variable {json : UploadJson} {agree : Str → Prop}

theorem listUploadEntries_same (rows rows' : Rows) (index project : Str)
    (h : ∀ filename, RecordAlike json agree rows[uploadKey index project filename]?
      rows'[uploadKey index project filename]?) :
    List.Forall₂ (fun entry entry' => Option.Rel (UploadedAlike agree)
        (json.readUploaded entry.2) (json.readUploaded entry'.2))
      (listUploadEntries rows index project) (listUploadEntries rows' index project) := by
  have hkeys := keysUnder_same rows rows' (projectUploadsPrefix index project) (by
    rintro _ ⟨filename, rfl⟩
    have hrow := h filename
    unfold RecordAlike uploadKey at hrow
    generalize rows[projectUploadsPrefix index project ++ filename]? = old,
      rows'[projectUploadsPrefix index project ++ filename]? = new at hrow ⊢
    cases hrow with
    | some _ => exact Iff.rfl
    | none => exact Iff.rfl)
  unfold listUploadEntries
  dsimp only
  rw [hkeys]
  have hunder : List.Forall₂ (fun key key' : Str => key = key' ∧
      projectUploadsPrefix index project <+: key)
      (keysUnder rows' (projectUploadsPrefix index project))
      (keysUnder rows' (projectUploadsPrefix index project)) :=
    List.forall₂_same.mpr fun key hkey => ⟨rfl, ((mem_keysUnder rows' _ key).mp hkey).2⟩
  refine List.rel_filterMap (fun key key' heq => ?_) hunder
  obtain ⟨rfl, filename, rfl⟩ := heq
  have hrow := h filename
  unfold RecordAlike uploadKey at hrow
  generalize rows[projectUploadsPrefix index project ++ filename]? = old,
    rows'[projectUploadsPrefix index project ++ filename]? = new at hrow ⊢
  cases hrow with
  | some hread => exact .some hread
  | none => exact .none

theorem decoded_same (entries entries' : List (Str × Bytes))
    (h : List.Forall₂ (fun entry entry' : Str × Bytes => Option.Rel (UploadedAlike agree)
      (json.readUploaded entry.2) (json.readUploaded entry'.2)) entries entries') :
    (∃ error, entries.mapM (fun entry => decodeUploaded json entry.2) = .error error ∧
      entries'.mapM (fun entry => decodeUploaded json entry.2) = .error error) ∨
    ∃ uploads uploads', entries.mapM (fun entry => decodeUploaded json entry.2) = .ok uploads ∧
      entries'.mapM (fun entry => decodeUploaded json entry.2) = .ok uploads' ∧
      List.Forall₂ (UploadedAlike agree) uploads uploads' := by
  induction h with
  | nil => exact .inr ⟨[], [], rfl, rfl, .nil⟩
  | cons hhead _ ih =>
    rename_i entry entry' entries entries' _
    rw [List.mapM_cons, List.mapM_cons]
    unfold decodeUploaded at ih ⊢
    generalize json.readUploaded entry.2 = old, json.readUploaded entry'.2 = new at hhead ⊢
    cases hhead with
    | none => exact .inl ⟨_, rfl, rfl⟩
    | some hhead =>
      rcases ih with ⟨error, hold, hnew⟩ | ⟨uploads, uploads', hold, hnew, hrest⟩
      · rw [hold, hnew]
        exact .inl ⟨error, rfl, rfl⟩
      · rw [hold, hnew]
        exact .inr ⟨_, _, rfl, rfl, .cons hhead hrest⟩

theorem livePage_same (project : Str) (uploads uploads' : List Uploaded)
    (h : List.Forall₂ (UploadedAlike agree) uploads uploads') :
    Option.Rel (DetailAlike agree) (livePage project uploads) (livePage project uploads') := by
  have hlive : List.Forall₂ (UploadedAlike agree)
      (uploads.filter fun uploaded => uploaded.trashed.isNone)
      (uploads'.filter fun uploaded => uploaded.trashed.isNone) := by
    refine List.rel_filter (fun a b hab => ?_) h
    show _ = true ↔ _ = true
    rw [hab.trashed]
  have hversions : ∀ live live' : List Uploaded, List.Forall₂ (UploadedAlike agree) live live' →
      live.map Uploaded.version = live'.map Uploaded.version := by
    intro live live' hlive
    induction hlive with
    | nil => rfl
    | cons hhead _ ih => rw [List.map_cons, List.map_cons, hhead.version, ih]
  unfold livePage
  dsimp only
  rw [isEmpty_of_same hlive]
  split
  · exact .none
  · refine .some (applyProjectStatus_same ⟨rfl, rfl, ?_, ?_⟩)
    · rw [hversions _ _ hlive]
    · exact List.rel_map (fun a b hab => hab.file) hlive

theorem localDetail_same (rows rows' : Rows) (index project : Str)
    (h : ∀ filename, RecordAlike json agree rows[uploadKey index project filename]?
      rows'[uploadKey index project filename]?) :
    OutcomeAlike (DetailAlike agree) (localDetail json rows index project)
      (localDetail json rows' index project) := by
  have hpage : ∀ rows : Rows, localDetail json rows index project =
      ((listUploadEntries rows index project).mapM fun entry => decodeUploaded json entry.2).map
        (livePage project) := by
    intro rows
    cases hdecoded : (listUploadEntries rows index project).mapM fun entry =>
        decodeUploaded json entry.2 with
    | ok uploads =>
      exact (localDetail_eq_ok json rows index project _).mpr ⟨uploads, hdecoded, rfl⟩
    | error error =>
      unfold localDetail
      dsimp only
      rw [hdecoded]
      cases hentries : listUploadEntries rows index project with
      | nil =>
        rw [hentries] at hdecoded
        cases hdecoded
      | cons entry entries => rfl
  rw [hpage, hpage]
  rcases decoded_same _ _ (listUploadEntries_same rows rows' index project h) with
    ⟨error, hold, hnew⟩ | ⟨uploads, uploads', hold, hnew, hsame⟩
  · rw [hold, hnew]
    exact .error error
  · rw [hold, hnew]
    have hlive := livePage_same project uploads uploads' hsame
    unfold Except.map
    dsimp only
    generalize livePage project uploads = page, livePage project uploads' = page' at hlive ⊢
    cases hlive with
    | none => exact .missing
    | some hdetail => exact .found _ _ hdetail

end Detail

def ProjectDetail.shown (detail : ProjectDetail) : ProjectDetail :=
  { detail with files := detail.files.map fun file => file.setMetadata file.metadata }

def shownPage (page : Except CacheError (Option DetailPage)) :
    Except CacheError (Option ProjectDetail) :=
  page.map fun page => page.map fun page => page.detail.shown

def yanksOf (page : Except CacheError (Option DetailPage)) : Except CacheError (Option (List Yanked)) :=
  page.map fun page => page.map fun page => page.detail.files.map File.yanked

theorem files_shown_iff {agree : Str → Prop} (files files' : List File)
    (h : List.Forall₂ (FileAlike agree) files files') :
    files.map (fun file => file.setMetadata file.metadata) =
        files'.map (fun file => file.setMetadata file.metadata) ↔
      files.map File.yanked = files'.map File.yanked := by
  induction h with
  | nil => exact iff_of_true rfl rfl
  | cons hfile _ ih =>
    rename_i file file' files files' _
    simp only [List.map_cons, List.cons.injEq]
    rw [ih]
    have hshown : ∀ file : File, file.setMetadata file.metadata =
      { file.unyanked with yanked := file.yanked } := fun _ => rfl
    have hyanked : ∀ file : File, (file.setMetadata file.metadata).yanked = file.yanked :=
      fun _ => rfl
    refine and_congr_left fun _ => ⟨fun heq => ?_, fun heq => ?_⟩
    · rw [← hyanked, heq, hyanked]
    · rw [hshown, hshown, hfile.form, heq]

theorem shownPage_iff {agree : Str → Prop} {page page' : Except CacheError (Option DetailPage)}
    (h : OutcomeAlike (PageAlike agree) page page') :
    shownPage page = shownPage page' ↔ yanksOf page = yanksOf page' := by
  cases h with
  | error error => exact iff_of_true rfl rfl
  | missing => exact iff_of_true rfl rfl
  | found a b h =>
    have hfiles := files_shown_iff a.detail.files b.detail.files h.files
    have hdetail : a.detail.shown = b.detail.shown ↔
        a.detail.files.map (fun file => file.setMetadata file.metadata) =
          b.detail.files.map (fun file => file.setMetadata file.metadata) := by
      unfold ProjectDetail.shown
      rw [h.info, h.name, h.versions]
      exact ⟨fun heq => congrArg ProjectDetail.files heq, fun heq => by rw [heq]⟩
    unfold shownPage yanksOf
    simp only [Except.map, Except.ok.injEq, Option.map_some, Option.some.injEq]
    rw [hdetail, hfiles]

theorem views_iff {agree : Str → Prop} {page page' : Option (Except CacheError (Option DetailPage))}
    (h : Option.Rel (OutcomeAlike (PageAlike agree)) page page') :
    page.map shownPage = page'.map shownPage ↔ page.map yanksOf = page'.map yanksOf := by
  cases h with
  | none => exact iff_of_true rfl rfl
  | some h =>
    rw [Option.map_some, Option.map_some, Option.some.injEq, shownPage_iff h, Option.map_some,
      Option.map_some, Option.some.injEq]

theorem yanksOf_same {page page' : Except CacheError (Option DetailPage)}
    (h : OutcomeAlike (PageAlike fun _ => True) page page') : yanksOf page = yanksOf page' := by
  cases h with
  | error error => rfl
  | missing => rfl
  | found a b h =>
    unfold yanksOf
    simp only [Except.map, Option.map_some]
    rw [map_eq_of_same File.yanked (fun _ _ hfile => hfile.yanked trivial) _ _ h.files]

section Reads
variable {json : UploadJson} (errorText : HostedError → Str) (upstream : LayerReads) (project : Str)

theorem storeReads_same (agree : Str → Prop) (first second : MetaStore)
    (huploads : ∀ index filename, RecordAlike json agree
      first.rows[uploadKey index project filename]? second.rows[uploadKey index project filename]?)
    (hhidden : ∀ index filename,
      ((first.rows[overrideKey index project filename]?).bind Str.fromUtf8).any hiddenOverride =
        ((second.rows[overrideKey index project filename]?).bind Str.fromUtf8).any hiddenOverride)
    (hagree : ∀ index filename, agree filename →
      first.rows[overrideKey index project filename]? =
        second.rows[overrideKey index project filename]?) :
    ReadsAlike agree (storeReads json errorText upstream project first)
      (storeReads json errorText upstream project second) where
  cached := rfl
  hosted index := by
    have hdetail := localDetail_same first.rows second.rows index.name project (huploads index.name)
    unfold storeReads
    dsimp only
    generalize localDetail json first.rows index.name project = detail,
      localDetail json second.rows index.name project = detail' at hdetail ⊢
    cases hdetail with
    | error error => exact .error _
    | missing => exact .missing
    | found a b h => exact .found a b h
  serial := ⟨_, _, rfl, rfl⟩
  yankRecord := rfl
  clock := rfl
  overrides name := by
    refine ⟨_, _, rfl, rfl, fun filename => ?_, fun filename hname => ?_⟩
    · rw [overrideIn_listOverrides, overrideIn_listOverrides]
      exact hhidden name filename
    · rw [overrideIn_listOverrides, overrideIn_listOverrides, hagree name filename hname]

end Reads

def rowsWithout (rows : Rows) (keys : List Str) : Rows := rows.filter fun key _ => key ∉ keys

theorem rowsWithout_getElem? (rows : Rows) (keys : List Str) (key : Str) :
    (rowsWithout rows keys)[key]? = if key ∈ keys then none else rows[key]? := by
  have hfilter : (rowsWithout rows keys)[key]? =
      (rows[key]?).filter fun _ => key ∉ keys := Std.ExtTreeMap.getElem?_filter'
  rw [hfilter]
  split
  · rename_i hmem
    cases rows[key]? with
    | none => rfl
    | some value => exact Option.filter_some_neg (by simpa using hmem)
  · rename_i hmem
    cases rows[key]? with
    | none => rfl
    | some value => exact Option.filter_some_pos (by simpa using hmem)

section Restore
variable {json : UploadJson} (table : CaseMap) (pep : Pep440) [BEq pep.Version]
  (parseUploadTime : Str → Option Int) (recordVersion : Bytes → Option Str)
  (errorText : HostedError → Str) (upstream : LayerReads) (indexes : List Index) (project : Str)
  (serveRoute : Str) (denyNoFallbackMiss : Bool) (fuel position : Nat)
  (hosted : Str) (isVolatile : Bool) (version : Option Str) (trash : TrashContext) (time : Int)

/-- `remove_files`, with the page it resolves. -/
def removeServed (json : UploadJson) (store : MetaStore) : Option Removal :=
  (servedPage json table pep parseUploadTime errorText upstream indexes project serveRoute
    denyNoFallbackMiss fuel position store).map fun page =>
      removeFiles json pep recordVersion hosted isVolatile project version trash page store

def servedView (json : UploadJson) (store : MetaStore) :
    Option (Except CacheError (Option ProjectDetail)) :=
  (servedPage json table pep parseUploadTime errorText upstream indexes project serveRoute
    denyNoFallbackMiss fuel position store).map shownPage

def servedYanks (json : UploadJson) (store : MetaStore) :
    Option (Except CacheError (Option (List Yanked))) :=
  (servedPage json table pep parseUploadTime errorText upstream indexes project serveRoute
    denyNoFallbackMiss fuel position store).map yanksOf

/-- The override rows that `remove_files` writes. -/
def removedOverrides (json : UploadJson) (store : MetaStore) : List Str :=
  match servedPage json table pep parseUploadTime errorText upstream indexes project serveRoute
      denyNoFallbackMiss fuel position store with
  | some (.ok page) => removedKeys pep hosted project version store.rows page
  | _ => []

end Restore

section Restored
variable {json : UploadJson} (table : CaseMap) (pep : Pep440) [BEq pep.Version]
  (parseUploadTime : Str → Option Int) (errorText : HostedError → Str) (upstream : LayerReads)
  (indexes : List Index) (project serveRoute : Str) (denyNoFallbackMiss : Bool)
  (fuel position : Nat) (hosted : Str)

omit [BEq pep.Version] in
/-- A store whose rows of the project were taken back shows what it showed, or shows it
yanked as if the overrides that are gone had never been there. -/
theorem restored_view (removed : List Str) (before after : MetaStore)
    (h : RestoredRows json hosted project removed before.rows after.rows)
    (hremoved : ∀ key ∈ removed, ∃ filename, overrideKey hosted project filename = key)
    (hshown : ∀ filename, before.rows[overrideKey hosted project filename]? ≠ some hidden) :
    servedView table pep parseUploadTime errorText upstream indexes project serveRoute
        denyNoFallbackMiss fuel position json after =
      servedView table pep parseUploadTime errorText upstream indexes project serveRoute
        denyNoFallbackMiss fuel position json before ↔
    servedYanks table pep parseUploadTime errorText upstream indexes project serveRoute
        denyNoFallbackMiss fuel position json { before with rows := rowsWithout before.rows removed } =
      servedYanks table pep parseUploadTime errorText upstream indexes project serveRoute
        denyNoFallbackMiss fuel position json before := by
  have hbare : ∀ index filename,
      (rowsWithout before.rows removed)[uploadKey index project filename]? =
        before.rows[uploadKey index project filename]? := by
    intro index filename
    rw [rowsWithout_getElem?, if_neg]
    intro hmem
    obtain ⟨name, hname⟩ := hremoved _ hmem
    exact overrideKey_ne_uploadKey _ _ _ _ _ _ hname
  have huploads : ∀ agree index filename, RecordAlike json agree
      before.rows[uploadKey index project filename]?
      after.rows[uploadKey index project filename]? := by
    intro agree index filename
    by_cases hkey : ∃ name, uploadKey index project filename = uploadKey hosted project name
    · obtain ⟨name, hname⟩ := hkey
      rw [hname]
      exact h.uploads agree name
    · rw [h.others _ fun name hname => hkey ⟨name, hname⟩, ← rowsWithout_getElem?, hbare]
      exact .refl json agree _
  have hoverrides : ∀ index filename, after.rows[overrideKey index project filename]? =
      (rowsWithout before.rows removed)[overrideKey index project filename]? := by
    intro index filename
    rw [h.others _ fun name => overrideKey_ne_uploadKey _ _ _ _ _ _, rowsWithout_getElem?]
  -- No override that is gone hid a file.
  have hhidden : ∀ index filename,
      ((before.rows[overrideKey index project filename]?).bind Str.fromUtf8).any hiddenOverride =
        ((after.rows[overrideKey index project filename]?).bind Str.fromUtf8).any
          hiddenOverride := by
    intro index filename
    rw [hoverrides, rowsWithout_getElem?]
    split
    · rename_i hmem
      obtain ⟨name, hname⟩ := hremoved _ hmem
      have hrow := hshown name
      rw [hname] at hrow
      rw [Option.bind_none, Option.any_none]
      cases hkind : (before.rows[overrideKey index project filename]?).bind Str.fromUtf8 with
      | none => rfl
      | some kind =>
        obtain ⟨raw, hraw, hkind⟩ := Option.bind_eq_some_iff.mp hkind
        have hkind := ((Str.fromUtf8_eq_some _ _).mp hkind).2
        rw [Option.any_some]
        unfold hiddenOverride
        rw [beq_eq_false_iff_ne]
        intro heq
        rw [hraw, hkind, heq] at hrow
        exact hrow rfl
    · rfl
  have hyanks := resolve_same table pep parseUploadTime
    (storeReads_same errorText upstream project (fun _ => True)
      { before with rows := rowsWithout before.rows removed } after
      (fun index filename => by
        rw [hbare]
        exact huploads _ index filename)
      (fun index filename => by rw [hoverrides])
      (fun index filename _ => (hoverrides index filename).symm))
    indexes project serveRoute denyNoFallbackMiss fuel position
  have hviews := resolve_same table pep parseUploadTime
    (storeReads_same errorText upstream project (fun _ => False) before after (huploads _) hhidden
      (fun index filename hfalse => hfalse.elim))
    indexes project serveRoute denyNoFallbackMiss fuel position
  have hsame : ∀ {page page' : Option (Except CacheError (Option DetailPage))},
      Option.Rel (OutcomeAlike (PageAlike fun _ => True)) page page' →
        page.map yanksOf = page'.map yanksOf := by
    intro page page' hpages
    cases hpages with
    | none => rfl
    | some hpages => rw [Option.map_some, Option.map_some, yanksOf_same hpages]
  unfold servedView servedYanks servedPage
  rw [hsame hyanks, eq_comm, views_iff hviews, eq_comm]

/-- A removal and the restore behind it leave an index's view of the project as it was when,
without the override rows that the removal writes over, the files are yanked as with them. -/
theorem restore_undoes_remove (recordVersion : Bytes → Option Str) (hjson : json.Faithful)
    (isVolatile : Bool) (version : Option Str) (trash : TrashContext) (time : Int)
    (store removed : MetaStore) (affected : Nat)
    (hnothing : NothingRemoved json store.rows hosted project)
    (hremove : removeServed table pep parseUploadTime recordVersion errorText upstream indexes
      project serveRoute denyNoFallbackMiss fuel position hosted isVolatile version trash json store =
        some (.ok affected, removed)) :
    ∃ count restored, restoreFiles json pep recordVersion hosted project version time removed =
        (.ok count, restored) ∧
      (servedView table pep parseUploadTime errorText upstream indexes project serveRoute
          denyNoFallbackMiss fuel position json restored =
        servedView table pep parseUploadTime errorText upstream indexes project serveRoute
          denyNoFallbackMiss fuel position json store ↔
      servedYanks table pep parseUploadTime errorText upstream indexes project serveRoute
          denyNoFallbackMiss fuel position json
          { store with rows := rowsWithout store.rows (removedOverrides table pep parseUploadTime
            errorText upstream indexes project serveRoute denyNoFallbackMiss fuel position hosted
            version json store) } =
        servedYanks table pep parseUploadTime errorText upstream indexes project serveRoute
          denyNoFallbackMiss fuel position json store) := by
  obtain ⟨page, hpage, hremove⟩ := Option.map_eq_some_iff.mp hremove
  obtain ⟨found, rfl, hrows⟩ := removeFiles_rows pep recordVersion hosted project isVolatile version
    trash hjson page store removed affected hnothing.live hremove
  obtain ⟨count, restored, hrestore, hrestored⟩ := restoreFiles_rows pep recordVersion hosted
    project isVolatile version trash time hjson found store.rows removed hnothing hrows
  have hremoved : removedOverrides table pep parseUploadTime errorText upstream indexes project
      serveRoute denyNoFallbackMiss fuel position hosted version json store =
        removedKeys pep hosted project version store.rows found := by
    unfold removedOverrides
    rw [hpage]
  rw [hremoved]
  refine ⟨count, restored, hrestore, restored_view table pep parseUploadTime errorText upstream
    indexes project serveRoute denyNoFallbackMiss fuel position hosted _ store restored hrestored
    (fun key hkey => ?_) hnothing.shown⟩
  obtain ⟨filename, hfilename, _⟩ := mem_removedKeys pep hosted project version store.rows found key
    hkey
  exact ⟨filename, hfilename⟩

end Restored

namespace RestoreSample
open HostedSample

def upstreamFile : File where
  filename := str "app-2-py3-none-any.whl"
  url := str "https://files.example/app-2-py3-none-any.whl"

def upstream : LayerReads :=
  { emptyReads with
    cachedDetail := fun _ => .ok (some
      ⟨{ name := str "app", versions := [str "2"], files := [upstreamFile] }, none⟩) }

def member (name : String) (kind : IndexKind) : Index where
  name := str name
  route := str name
  ecosystem := .pypi
  kind := kind
  policy := Policy.compile {} id
  acl := .open

def indexes : List Index :=
  [member "hosted" (.hosted true), member "pypi" (.cached ⟨str "https://pypi.example"⟩ false),
    member "team" (.virtual [0, 1] (some 0))]

def trash : TrashContext := ⟨7, none, none⟩

def remove (store : MetaStore) : Option Removal :=
  removeServed .caseless wholeVersions (fun _ => none) UploadText.recordVersion (fun _ => [])
    upstream indexes (str "app") (str "team") true 2 2 (str "hosted") true none trash
    UploadText.json store

def restore (store : MetaStore) : Removal :=
  restoreFiles UploadText.json wholeVersions UploadText.recordVersion (str "hosted") (str "app") none
    8 store

def view (store : MetaStore) : Option (Except CacheError (Option ProjectDetail)) :=
  servedView .caseless wholeVersions (fun _ => none) (fun _ => []) upstream indexes (str "app")
    (str "team") true 2 2 UploadText.json store

def yanks (store : MetaStore) : Option (Except CacheError (Option (List Yanked))) :=
  servedYanks .caseless wholeVersions (fun _ => none) (fun _ => []) upstream indexes (str "app")
    (str "team") true 2 2 UploadText.json store

def yankedStore : MetaStore :=
  apply (.putOverride (str "hosted") (str "app") upstreamFile.filename (str "yanked") 6) .never {}

def left (removal : Option Removal) : MetaStore := removal.elim {} Prod.snd

theorem removal_eq (removal : Option Removal) (affected : Nat)
    (h : removal.map (fun removal => removal.1.toOption) = some (some affected)) :
    removal = some (.ok affected, left removal) := by
  obtain ⟨⟨outcome, store⟩, rfl, houtcome⟩ := Option.map_eq_some_iff.mp h
  cases outcome with
  | error error => cases houtcome
  | ok found =>
    cases houtcome
    rfl

theorem nothingRemoved (store : MetaStore)
    (huploads : ∀ entry ∈ listUploadEntries store.rows (str "hosted") (str "app"),
      (UploadText.json.readUploaded entry.2).all fun uploaded => uploaded.trashed.isNone)
    (hoverrides : ∀ override ∈ listOverrides store.rows (str "hosted") (str "app"),
      override.2 ≠ hidden) :
    NothingRemoved UploadText.json store.rows (str "hosted") (str "app") where
  live filename uploaded hrecord := by
    obtain ⟨record, hrow, hread⟩ := hrecord
    have hlive := huploads (filename, record) ((mem_listUploadEntries _ _ _ _ _).mpr hrow)
    rw [hread] at hlive
    exact Option.isNone_iff_eq_none.mp hlive
  shown filename hrow := by
    refine hoverrides (filename, hidden) ((mem_listOverrides _ _ _ _ _).mpr ?_) rfl
    rw [hrow]
    decide

end RestoreSample

open RestoreSample in
/-- An upload and the file upstream has are removed and come back. -/
theorem removed_files_restored : ∃ count restored,
    restore (left (remove HostedSample.store)) = (.ok count, restored) ∧
      view restored = view HostedSample.store := by
  obtain ⟨count, restored, hrestore, hview⟩ := restore_undoes_remove .caseless wholeVersions
    (fun _ => none) (fun _ => []) upstream indexes (str "app") (str "team") true 2 2 (str "hosted")
    UploadText.recordVersion UploadText.json_faithful true none trash 8 HostedSample.store
    (left (remove HostedSample.store)) 2
    (nothingRemoved _ (by decide +kernel) (by decide +kernel))
    (removal_eq (remove HostedSample.store) 2 (by decide +kernel))
  exact ⟨count, restored, hrestore, hview.mpr (by decide +kernel)⟩

open RestoreSample in
/-- The yank of an upstream file is gone after its removal and restore. -/
theorem yank_override_lost :
    ¬ ∀ (store removed restored : MetaStore) (affected count : Nat),
      NothingRemoved UploadText.json store.rows (str "hosted") (str "app") →
      remove store = some (.ok affected, removed) → restore removed = (.ok count, restored) →
      view restored = view store := by
  intro hclaim
  have hrestored : some (restore (left (remove yankedStore))) =
      some (.ok 1, left (some (restore (left (remove yankedStore))))) :=
    removal_eq _ 1 (by decide +kernel)
  have hview := hclaim yankedStore (left (remove yankedStore))
    (left (some (restore (left (remove yankedStore))))) 1 1
    (nothingRemoved _ (by decide +kernel) (by decide +kernel))
    (removal_eq (remove yankedStore) 1 (by decide +kernel)) (Option.some.inj hrestored)
  have hyanks := congrArg (fun view : Option (Except CacheError (Option ProjectDetail)) =>
    (view.bind fun page => page.toOption.join).map fun detail => detail.files.map File.yanked) hview
  exact absurd hyanks (by decide +kernel)

end Peryx.Pypi
