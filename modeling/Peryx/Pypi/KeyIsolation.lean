import Peryx.Pypi.HostedDetail
import Peryx.Pypi.HostedJournal
import Peryx.Pypi.PageText

/-!
# Whose rows a request sees (store/mod.rs:50-123, store/uploads.rs, store/index.rs, serving/get.rs)
-/

namespace Peryx.Pypi
open Storage

structure Place where
  index : Str
  normalized : Str
  deriving Repr, DecidableEq

def Place.suffix (place : Place) : Str := projectSuffix place.index place.normalized

def Place.scope (place : Place) : Str := place.suffix ++ str "/"

def rowPrefixes : List Str :=
  [indexPrefix, freshnessPrefix, projectsPrefix, projectStatusPrefix, projectMetaPrefix]

def scanPrefixes : List Str := [projectFilePrefix, uploadPrefix, overridePrefix]

def digestPrefixes : List Str := [filePrefix, metadataPrefix, provenancePrefix]

/-- The rows of a place. Names of hosted files have no slash, those of upstream files may. -/
inductive Place.Owns (place : Place) : Str → Prop
  | row (start : Str) (h : start ∈ rowPrefixes) : Owns place (start ++ place.suffix)
  | file (generation : Nat) (filename : Str) :
    Owns place (projectFileKey place.index place.normalized generation filename)
  | upload (filename : Str) (h : 0x2F ∉ filename) :
    Owns place (uploadKey place.index place.normalized filename)
  | override (filename : Str) (h : 0x2F ∉ filename) :
    Owns place (overrideKey place.index place.normalized filename)

section Calls
variable (json : PageJson) (uploads : UploadJson) (recordVersion : Bytes → Option Str)

inductive ProjectCall (place : Place) : {ε α : Type} → Calls ε α → Prop
  | getIndex : ProjectCall place (getIndex json place.suffix)
  | putIndex (record : CachedIndex) : ProjectCall place (putIndex json place.suffix record)
  | touchIndexFreshness (overlay : FreshnessOverlay) :
    ProjectCall place (touchIndexFreshness json place.suffix overlay)
  | putCachedPage (page : CachedPage) : ProjectCall place (putCachedPageCall json { page with
      key := place.suffix
      index := place.index
      normalized := place.normalized })
  | getProjectStatus : ProjectCall place (getProjectStatus json place.index place.normalized)
  | putProject (display : Str) : ProjectCall place (putProject place.index place.normalized display)
  | getProject : ProjectCall place (getProject place.index place.normalized)
  | projectMetaState : ProjectCall place
      (projectSpace json.toGenerationJson place.index place.normalized).stateCall
  | listProjectFiles :
    ProjectCall place (listProjectFiles json.toGenerationJson place.index place.normalized)
  | recoverGenerations (rounds : Nat) : ProjectCall place
      (recoverProjectGenerationsCall json.toGenerationJson place.index place.normalized rounds)
  | beginGeneration : ProjectCall place
      (beginProjectGenerationCall json.toGenerationJson place.index place.normalized)
  | putFiles (generation : Nat) (source : Str) (upstream : Option Str) (files : List File) :
    ProjectCall place (putProjectFilesCall json.toGenerationJson place.index place.normalized
      generation source upstream files)
  | publishGeneration (expectedActive : Option Nat) (generation : ProjectGeneration) :
    ProjectCall place (publishProjectGenerationCall json.toGenerationJson place.index
      place.normalized expectedActive generation)
  | abortGeneration (rounds generation : Nat) : ProjectCall place
      (abortProjectGenerationCall json.toGenerationJson place.index place.normalized rounds generation)
  | refreshGeneration (expected : Nat) (etag lastModified : Option Str) (fetchedAtUnix : Int) :
    ProjectCall place (refreshProjectGenerationCall json.toGenerationJson place.index
      place.normalized expected etag lastModified fetchedAtUnix)
  | countPurge (fileDigests metadataDigests : List Str) : ProjectCall place
      (countProjectCachePurge place.index place.normalized fileDigests metadataDigests)
  | deleteCache (fileDigests metadataDigests : List Str) : ProjectCall place
      (deleteProjectCache place.index place.normalized fileDigests metadataDigests)
  | publishFile {ε : Type} (file : PublishedFile) (guard : Option Bytes → Except ε Guard) :
    ProjectCall place (txnCall (publishFileTxn uploads { file with
      index := place.index
      normalized := place.normalized } guard))
  | putUpload (filename : Str) (record : Bytes) :
    ProjectCall place (putUpload place.index place.normalized filename record)
  | promoteFiles {ε : Type} (release : PromotedRelease)
      (guard : Str → Str → Option Bytes → Except ε Guard) :
    ProjectCall place (txnCall (promoteFilesTxn uploads recordVersion { release with
      index := place.index
      normalized := place.normalized } guard))
  | mutateUploads {ε : Type} (action : Str) (submittedAtUnix : Int)
      (mutate : Str → Bytes → Except ε UploadMutation) :
    ProjectCall place (txnCall (mutateUploadsTxn uploads recordVersion place.index place.normalized
      action submittedAtUnix mutate))
  | listUploadEntries : ProjectCall place (listUploadEntriesCall place.index place.normalized)
  | deleteUpload {ε : Type} (filename : Str) (submittedAtUnix : Int) :
    ProjectCall place (txnCall (deleteUploadTxn (ε := ε) uploads recordVersion place.index
      place.normalized filename submittedAtUnix))
  | putOverride {ε : Type} (filename kind : Str) (submittedAtUnix : Int) :
    ProjectCall place (txnCall (putOverrideTxn (ε := ε) uploads place.index place.normalized
      filename kind submittedAtUnix))
  | deleteOverride {ε : Type} (filename : Str) (submittedAtUnix : Int) :
    ProjectCall place (txnCall (deleteOverrideTxn (ε := ε) uploads place.index place.normalized
      filename submittedAtUnix))
  | listOverrides : ProjectCall place (listOverridesCall place.index place.normalized)

/-- Two places have no row in common, and no call on one of them reads or changes a row of
the other. -/
structure Isolated (a b : Place) : Prop where
  rows : ∀ key, a.Owns key → ¬ b.Owns key
  left : ∀ {ε α : Type} (call : Calls ε α), ProjectCall json uploads recordVersion a call →
    Within (fun key => ¬ b.Owns key) call
  right : ∀ {ε α : Type} (call : Calls ε α), ProjectCall json uploads recordVersion b call →
    Within (fun key => ¬ a.Owns key) call

end Calls

def Place.Touches (place : Place) (key : Str) : Prop :=
  ∃ start rest, key = start ++ rest ∧ (start ∈ rowPrefixes ∧ rest = place.suffix ∨
    start ∈ scanPrefixes ∧ place.scope <+: rest ∨ start ∈ digestPrefixes)

theorem owns_layout (place : Place) (key : Str) (h : place.Owns key) :
    ∃ start rest, key = start ++ rest ∧
      (start ∈ rowPrefixes ∧ rest = place.suffix ∨ start ∈ scanPrefixes ∧ place.scope <+: rest) := by
  cases h with
  | row start h => exact ⟨start, _, rfl, .inl ⟨h, rfl⟩⟩
  | file generation filename =>
    refine ⟨projectFilePrefix, place.scope ++ (paddedGeneration generation ++ str "/" ++ filename),
      ?_, .inr ⟨by decide, List.prefix_append _ _⟩⟩
    simp only [projectFileKey, projectGenerationPrefix, Place.scope, Place.suffix, List.append_assoc]
  | upload filename h =>
    exact ⟨uploadPrefix, place.scope ++ filename, List.append_assoc _ _ _,
      .inr ⟨by decide, List.prefix_append _ _⟩⟩
  | override filename h =>
    exact ⟨overridePrefix, place.scope ++ filename, List.append_assoc _ _ _,
      .inr ⟨by decide, List.prefix_append _ _⟩⟩

theorem layout_inj (start start' rest rest' : Str)
    (h : start ∈ rowPrefixes ++ scanPrefixes ++ digestPrefixes)
    (h' : start' ∈ rowPrefixes ++ scanPrefixes ++ digestPrefixes)
    (heq : start ++ rest = start' ++ rest') : start = start' ∧ rest = rest' := by
  have hlength : ∀ x ∈ rowPrefixes ++ scanPrefixes ++ digestPrefixes, x.length = 7 := by decide
  exact List.append_inj heq ((hlength start h).trans (hlength start' h').symm)

def Apart (a b : Place) : Prop := ¬ a.scope <+: b.scope ∧ ¬ b.scope <+: a.scope

theorem touches_not_owns (a b : Place) (h : Apart a b) (key : Str) (hkey : a.Touches key) :
    ¬ b.Owns key := by
  intro howns
  obtain ⟨start, rest, rfl, hb⟩ := owns_layout b key howns
  obtain ⟨start', rest', heq, ha⟩ := hkey
  have hrows : ∀ x ∈ rowPrefixes, x ∉ scanPrefixes ∧ x ∉ digestPrefixes := by decide
  have hscans : ∀ x ∈ scanPrefixes, x ∉ digestPrefixes := by decide
  obtain ⟨rfl, rfl⟩ := layout_inj start start' rest rest'
    (by rcases hb with ⟨hb, -⟩ | ⟨hb, -⟩ <;> simp only [List.mem_append, hb, true_or, or_true])
    (by rcases ha with ⟨ha, -⟩ | ⟨ha, -⟩ | ha <;> simp only [List.mem_append, ha, true_or, or_true])
    heq
  rcases hb with ⟨hb, hrest⟩ | ⟨hb, hrest⟩
  · rcases ha with ⟨-, hrest'⟩ | ⟨ha, -⟩ | ha
    · refine h.1 ?_
      unfold Place.scope
      rw [← hrest, ← hrest']
    · exact (hrows start hb).1 ha
    · exact (hrows start hb).2 ha
  · rcases ha with ⟨ha, -⟩ | ⟨-, hrest'⟩ | ha
    · exact (hrows start ha).1 hb
    · rcases List.prefix_or_prefix_of_prefix hrest hrest' with hle | hle
      · exact h.2 hle
      · exact h.1 hle
    · exact hscans start hb ha

theorem owns_touches (place : Place) (key : Str) (h : place.Owns key) : place.Touches key := by
  obtain ⟨start, rest, hkey, hrest⟩ := owns_layout place key h
  exact ⟨start, rest, hkey, hrest.imp id .inl⟩

section Touching
variable (place : Place)

theorem touches_row (start : Str) (h : start ∈ rowPrefixes) : place.Touches (start ++ place.suffix) :=
  ⟨start, _, rfl, .inl ⟨h, rfl⟩⟩

theorem touches_digest (start digest : Str) (h : start ∈ digestPrefixes) :
    place.Touches (start ++ digest) :=
  ⟨start, digest, rfl, .inr (.inr h)⟩

theorem touches_under (start key : Str) (h : start ∈ scanPrefixes)
    (hkey : start ++ place.scope <+: key) : place.Touches key := by
  obtain ⟨rest, rfl⟩ := hkey
  exact ⟨start, place.scope ++ rest, List.append_assoc _ _ _, .inr (.inl ⟨h, List.prefix_append _ _⟩)⟩

theorem touches_upload (filename : Str) :
    place.Touches (uploadKey place.index place.normalized filename) :=
  touches_under place uploadPrefix _ (by decide) (List.prefix_append _ _)

theorem touches_override (filename : Str) :
    place.Touches (overrideKey place.index place.normalized filename) :=
  touches_under place overridePrefix _ (by decide) (List.prefix_append _ _)

theorem touches_generation (generation : Nat) (key : Str)
    (h : projectGenerationPrefix place.index place.normalized generation <+: key) :
    place.Touches key := by
  refine touches_under place projectFilePrefix key (by decide) (List.IsPrefix.trans ?_ h)
  have hparts : projectGenerationPrefix place.index place.normalized generation =
      projectFilePrefix ++ place.scope ++ (paddedGeneration generation ++ str "/") := by
    simp only [projectGenerationPrefix, Place.scope, Place.suffix, List.append_assoc]
  rw [hparts]
  exact List.prefix_append _ _

end Touching

section Footprint
variable {foot : Str → Prop}

theorem within_decoded {α : Type} (found : Option α) : Within foot (decoded found) := by
  cases found with
  | some a => exact within_pure a
  | none => exact within_throw _

theorem within_valueOf (key : Str) (h : foot key) : Within foot (valueOf key) := by
  refine (within_getCall key h).bind fun found => ?_
  cases found with
  | some raw => exact within_pure raw
  | none => exact within_throw _

theorem within_scan {α : Type} (start : Str) (h : ∀ key, start <+: key → foot key)
    (f : Str → Calls MetaFailure α) (hf : ∀ key, foot key → Within foot (f key)) :
    Within foot ((keysCall start : Calls MetaFailure _) >>= fun keys => keys.mapM f) :=
  (within_keysCall start h).bind_of (keysCall_ends start) fun keys hkeys =>
    within_mapM keys f fun key hkey => hf key (h key (hkeys key hkey))

theorem within_scanTexts (start : Str) (h : ∀ key, start <+: key → foot key) :
    Within foot (scanTexts start) := by
  refine (within_keysCall start h).bind_of (keysCall_ends start) fun keys hkeys => ?_
  refine (within_mapM keys _ fun key hkey => ?_).bind fun _ => within_pure _
  exact (within_getCall key (h key (hkeys key hkey))).bind fun _ => within_pure _

variable {A α : Type} (space : GenerationSpace A)

theorem rowsWithin_withState (h : foot space.stateKey)
    (f : Rows → Publication A → Except MetaFailure α × Rows)
    (hf : ∀ state, RowsWithin foot fun rows => f rows state) :
    RowsWithin foot fun rows => space.withState rows (f rows) := by
  have hstate : ∀ a b : Rows, Table.AgreeOn foot a b → space.state a = space.state b := by
    intro a b hab
    unfold GenerationSpace.state
    rw [hab space.stateKey h]
  refine ⟨fun rows => ?_, fun a b hab => ?_, fun a b hab => ?_⟩
  · unfold GenerationSpace.withState
    cases space.state rows with
    | error error => exact Table.AgreeOn.refl rows
    | ok state => exact (hf state).kept rows
  · unfold GenerationSpace.withState
    rw [hstate a b hab]
    cases space.state b with
    | error error => rfl
    | ok state => exact (hf state).answer a b hab
  · unfold GenerationSpace.withState
    rw [hstate a b hab]
    cases space.state b with
    | error error => exact hab
    | ok state => exact (hf state).same a b hab

theorem rowsWithin_storeState (b : α) (h : foot space.stateKey) (state : Publication A) :
    RowsWithin foot fun rows => (b, space.storeState rows state) :=
  rowsWithin_set b space.stateKey (some (space.encode state)) h

theorem within_sweepRows (start : Str) (h : ∀ key, start <+: key → foot key) (rounds : Nat) :
    Within foot (sweepRows start rounds) := by
  induction rounds with
  | zero => exact within_throw _
  | succ rounds ih =>
    refine (within_limitedKeysCall start deleteBatch h).bind_of
      (limitedKeysCall_ends start deleteBatch) fun keys hkeys => ?_
    split
    · exact within_pure ()
    · refine (within_batchCall _ ⟨List.forall_mem_nil _, fun key hkey => ?_⟩).bind fun _ => ih
      exact h key (hkeys key hkey)

theorem within_stateCall (h : foot space.stateKey) : Within foot space.stateCall := by
  refine within_rowsCall _ ⟨Table.AgreeOn.refl, fun a b hab => ?_, fun a b hab => hab⟩
  unfold GenerationSpace.state
  rw [hab space.stateKey h]

theorem within_recover (h : foot space.stateKey)
    (hrows : ∀ generation key, space.rowPrefix generation <+: key → foot key) (rounds : Nat) :
    Within foot (space.recover rounds) := by
  refine (within_stateCall space h).bind fun state => ?_
  refine (within_forM _ _ fun generation _ => ?_).bind fun _ => ?_
  · exact within_sweepRows _ (hrows generation) rounds
  · refine within_rowsCall _ (rowsWithin_withState space h _ fun current => ?_)
    exact rowsWithin_storeState space _ h _

theorem within_begin (h : foot space.stateKey) : Within foot space.begin :=
  within_rowsCall _ (rowsWithin_withState space h _ fun _ => rowsWithin_storeState space _ h _)

theorem within_put (h : foot space.stateKey) (generation : Nat) (insert : Rows → α × Rows)
    (hinsert : RowsWithin foot insert) : Within foot (space.put generation insert) := by
  refine within_rowsCall _ (rowsWithin_withState space h _ fun state => ?_)
  split
  · exact rowsWithin_answer _
  · exact hinsert.andThen fun answer => rowsWithin_answer _

theorem within_publish (h : foot space.stateKey) (expectedActive : Option Nat) (generation : A) :
    Within foot (space.publish expectedActive generation) := by
  refine within_rowsCall _ (rowsWithin_withState space h _ fun state => ?_)
  split
  · exact rowsWithin_answer _
  · exact rowsWithin_storeState space _ h _

theorem within_abort (h : foot space.stateKey)
    (hrows : ∀ generation key, space.rowPrefix generation <+: key → foot key)
    (rounds generation : Nat) : Within foot (space.abort rounds generation) := by
  refine (within_sweepRows _ (hrows generation) rounds).bind fun _ => ?_
  refine within_rowsCall _ (rowsWithin_withState space h _ fun state => ?_)
  split
  · exact rowsWithin_storeState space _ h _
  · exact rowsWithin_answer _

theorem within_refresh (h : foot space.stateKey) (expected : Nat) (touch : A → A) :
    Within foot (space.refresh expected touch) := by
  refine within_rowsCall _ (rowsWithin_withState space h _ fun state => ?_)
  split
  · exact rowsWithin_storeState space _ h _
  · exact rowsWithin_answer _

end Footprint

section Place
variable (json : PageJson) (place : Place)

theorem touches_meta : place.Touches (projectMetaKey place.index place.normalized) :=
  touches_row place projectMetaPrefix (by decide)

theorem rowsWithin_registerFileRows (source : Str) (upstream : Option Str) (file : File) :
    RowsWithin place.Touches fun rows => ((), registerFileRows rows source upstream file) := by
  unfold registerFileRows
  cases file.sha256 with
  | none => exact rowsWithin_answer ()
  | some sha256 =>
    have hfile : place.Touches (fileKey sha256) := touches_digest place filePrefix _ (by decide)
    have hmeta : place.Touches (metadataKey sha256) := touches_digest place metadataPrefix _ (by decide)
    dsimp only
    cases claimedMetadata file with
    | none => exact rowsWithin_set () _ (some _) hfile
    | some digest =>
      exact (rowsWithin_set () _ (some _) hfile).andThen fun _ => rowsWithin_set () _ (some _) hmeta

theorem insertFiles_cons (index normalized : Str) (generation : Nat) (source : Str)
    (upstream : Option Str) (rows : Rows) (file : File) (files : List File) :
    insertFiles json.toRowJson index normalized generation source upstream rows (file :: files) =
      (rows[projectFileKey index normalized generation file.filename]?).elim
        (let added := insertFiles json.toRowJson index normalized generation source upstream
          (registerFileRows (rows.insert (projectFileKey index normalized generation file.filename)
            (json.file file)) source upstream file) files
        (file :: added.1, added.2))
        fun _ => insertFiles json.toRowJson index normalized generation source upstream rows files := by
  cases hrow : rows[projectFileKey index normalized generation file.filename]? with
  | none => rw [insertFiles, hrow]; rfl
  | some raw => rw [insertFiles, hrow]; rfl

theorem rowsWithin_insertFiles (generation : Nat) (source : Str) (upstream : Option Str)
    (files : List File) : RowsWithin place.Touches fun rows =>
      insertFiles json.toRowJson place.index place.normalized generation source upstream rows files := by
  induction files with
  | nil => exact rowsWithin_answer []
  | cons file files ih =>
    have hkey : place.Touches (projectFileKey place.index place.normalized generation file.filename) :=
      touches_generation place generation _ (List.prefix_append _ _)
    have hnew : RowsWithin place.Touches fun rows =>
        insertFiles json.toRowJson place.index place.normalized generation source upstream
          (registerFileRows (rows.insert (projectFileKey place.index place.normalized generation
            file.filename) (json.file file)) source upstream file) files := by
      have hset := rowsWithin_set () _ (some (json.file file)) hkey
      have hregister := hset.andThen fun _ => rowsWithin_registerFileRows place source upstream file
      exact hregister.andThen fun _ => ih
    simp only [insertFiles_cons]
    refine rowsWithin_get _ hkey (fun row rows => row.elim
      (let added := insertFiles json.toRowJson place.index place.normalized generation source upstream
        (registerFileRows (rows.insert (projectFileKey place.index place.normalized generation
          file.filename) (json.file file)) source upstream file) files
      (file :: added.1, added.2))
      fun _ => insertFiles json.toRowJson place.index place.normalized generation source upstream
        rows files) fun row => ?_
    cases row with
    | some raw => exact ih
    | none => exact hnew.andThen fun inserted => rowsWithin_answer (file :: inserted)

theorem rowsWithin_putCachedPage (page : CachedPage) :
    RowsWithin place.Touches fun rows => ((.ok () : Except MetaFailure Unit),
      putCachedPage json.toRowJson rows { page with
        key := place.suffix
        index := place.index
        normalized := place.normalized }) := by
  have hstatus : place.Touches (projectStatusKey place.index place.normalized) :=
    touches_row place projectStatusPrefix (by decide)
  have hpage : place.Touches (indexKey place.suffix) := touches_row place indexPrefix (by decide)
  have hproject : place.Touches (projectKey place.index place.normalized) :=
    touches_row place projectsPrefix (by decide)
  have hfresh : place.Touches (freshnessKey place.suffix) :=
    touches_row place freshnessPrefix (by decide)
  refine rowsWithin_batch _ _ ⟨fun put hput => ?_, fun key hkey => ?_⟩
  · simp only [List.mem_append, List.mem_cons, List.not_mem_nil, or_false, List.mem_map] at hput
    rcases hput with ((((rfl | rfl) | hput) | ⟨file, -, rfl⟩) | ⟨sibling, -, rfl⟩)
    · exact hpage
    · exact hproject
    · split at hput
      · cases hput
      · rw [List.mem_singleton] at hput
        rw [hput]
        exact hstatus
    · exact touches_digest place filePrefix _ (by decide)
    · exact touches_digest place metadataPrefix _ (by decide)
  · rcases List.mem_cons.mp hkey with rfl | hkey
    · exact hfresh
    · dsimp only at hkey
      split at hkey
      · rw [List.mem_singleton] at hkey
        rw [hkey]
        exact hstatus
      · cases hkey

section Hosted
variable {ε : Type} (uploads : UploadJson) (recordVersion : Bytes → Option Str)

theorem within_ops (file : PublishedFile) (hindex : file.index = place.index)
    (hproject : file.normalized = place.normalized) :
    ∀ op ∈ file.ops, op.Within place.Touches := by
  intro op hop
  have hupload := touches_upload place file.filename
  have hrow : place.Touches (projectKey place.index place.normalized) :=
    touches_row place projectsPrefix (by decide)
  rw [← hindex, ← hproject] at hupload hrow
  have hmeta : place.Touches (metadataKey file.artifactSha256) :=
    touches_digest place metadataPrefix _ (by decide)
  have hprovenance : place.Touches (provenanceKey file.artifactSha256) :=
    touches_digest place provenancePrefix _ (by decide)
  unfold PublishedFile.ops at hop
  simp only [List.mem_append, List.mem_cons, List.not_mem_nil, or_false] at hop
  rcases hop with ((rfl | hop) | hop) | rfl | rfl
  · trivial
  · cases hsibling : file.metadata with
    | none =>
      rw [hsibling] at hop
      cases hop
    | some sibling =>
      rw [hsibling] at hop
      rcases List.mem_cons.mp hop with rfl | hop
      · exact hmeta
      · rw [List.mem_singleton] at hop
        rw [hop]
        trivial
  · cases hsibling : file.provenance with
    | none =>
      rw [hsibling] at hop
      cases hop
    | some sibling =>
      rw [hsibling] at hop
      rcases List.mem_cons.mp hop with rfl | hop
      · exact hprovenance
      · rw [List.mem_singleton] at hop
        rw [hop]
        trivial
  · exact hupload
  · exact hrow

theorem body_publishFile (file : PublishedFile) (hindex : file.index = place.index)
    (hproject : file.normalized = place.normalized) (guard : Option Bytes → Except ε Guard) :
    BodyWithin place.Touches (publishFileTxn uploads file guard) := by
  have hupload := touches_upload place file.filename
  rw [← hindex, ← hproject] at hupload
  refine (body_txnGet _ hupload).bind fun existing => ?_
  split
  · exact Prog.confined_pure _
  · exact Prog.confined_pure _
  · refine (Prog.confined_forM _ _ fun op hop => ?_).bind fun _ => Prog.confined_pure _
    exact body_call op (within_ops place file hindex hproject op hop)

theorem body_promoteRecords (release : PromotedRelease) (hindex : release.index = place.index)
    (hproject : release.normalized = place.normalized)
    (guard : Str → Str → Option Bytes → Except ε Guard) (files : List PromotedFile) (written : Nat)
    (journal : List JournalEntry) : BodyWithin place.Touches
      (promoteRecords recordVersion release guard files written journal) := by
  induction files generalizing written journal with
  | nil => exact Prog.confined_pure _
  | cons file files ih =>
    have hupload := touches_upload place file.filename
    rw [← hindex, ← hproject] at hupload
    refine (body_txnGet _ hupload).bind fun existing => ?_
    split
    · exact Prog.confined_pure _
    · exact ih written journal
    · refine (Prog.confined_forM _ _ fun op hop => ?_).bind fun _ => ih _ _
      refine body_call op ?_
      rcases List.mem_cons.mp hop with rfl | hop
      · exact hupload
      · cases hsize : release.blobSizes[file.token]? with
        | none =>
          rw [hsize] at hop
          cases hop
        | some size =>
          rw [hsize] at hop
          rw [List.mem_singleton.mp hop]
          trivial

theorem body_promoteFiles (release : PromotedRelease) (hindex : release.index = place.index)
    (hproject : release.normalized = place.normalized)
    (guard : Str → Str → Option Bytes → Except ε Guard) :
    BodyWithin place.Touches (promoteFilesTxn uploads recordVersion release guard) := by
  have hrow : place.Touches (projectKey place.index place.normalized) :=
    touches_row place projectsPrefix (by decide)
  rw [← hindex, ← hproject] at hrow
  refine (body_promoteRecords place recordVersion release hindex hproject guard _ 0 []).bind
    fun result => ?_
  split
  · exact Prog.confined_pure _
  · exact Prog.confined_pure _
  · exact (body_txnPut _ _ hrow).bind fun _ => Prog.confined_pure _

theorem body_mutateRows (action : Str) (submittedAtUnix : Int)
    (mutate : Str → Bytes → Except ε UploadMutation) (rows : List (Str × Bytes))
    (hrows : ∀ row ∈ rows, place.Touches row.1) (journal : List JournalEntry) :
    BodyWithin place.Touches (mutateRows recordVersion place.index place.normalized action
      submittedAtUnix mutate rows journal) := by
  induction rows generalizing journal with
  | nil => exact Prog.confined_pure _
  | cons row rows ih =>
    have hrow := hrows row List.mem_cons_self
    have hrest := ih fun r hr => hrows r (List.mem_cons_of_mem _ hr)
    unfold mutateRows
    dsimp only
    split
    · exact Prog.confined_pure _
    · exact hrest journal
    · exact (body_txnPut _ _ hrow).bind fun _ => hrest _
    · exact (body_txnRemove _ hrow).bind fun _ => hrest _

theorem body_mutateUploads (action : Str) (submittedAtUnix : Int)
    (mutate : Str → Bytes → Except ε UploadMutation) : BodyWithin place.Touches
      (mutateUploadsTxn uploads recordVersion place.index place.normalized action submittedAtUnix
        mutate) := by
  have hunder : ∀ key, projectUploadsPrefix place.index place.normalized <+: key →
      place.Touches key := fun key hkey => touches_under place uploadPrefix key (by decide) hkey
  refine (body_txnPrefix _ hunder).bind_of (txnPrefix_ends _) fun rows hrows => ?_
  refine (body_mutateRows place recordVersion action submittedAtUnix mutate rows
    (fun row hrow => hunder row.1 (hrows row hrow)) []).bind fun result => ?_
  split <;> exact Prog.confined_pure _

theorem body_deleteUpload (filename : Str) (submittedAtUnix : Int) : BodyWithin place.Touches
    (deleteUploadTxn (ε := ε) uploads recordVersion place.index place.normalized filename
      submittedAtUnix) := by
  refine (body_txnGet _ (touches_upload place filename)).bind fun existing => ?_
  split
  · exact (body_txnRemove _ (touches_upload place filename)).bind fun _ => Prog.confined_pure _
  · exact Prog.confined_pure _

theorem body_putOverride (filename kind : Str) (submittedAtUnix : Int) : BodyWithin place.Touches
    (putOverrideTxn (ε := ε) uploads place.index place.normalized filename kind submittedAtUnix) := by
  refine (body_txnGet _ (touches_override place filename)).bind fun existing => ?_
  split
  · exact Prog.confined_pure _
  · exact (body_txnPut _ _ (touches_override place filename)).bind fun _ => Prog.confined_pure _

theorem body_deleteOverride (filename : Str) (submittedAtUnix : Int) : BodyWithin place.Touches
    (deleteOverrideTxn (ε := ε) uploads place.index place.normalized filename submittedAtUnix) := by
  refine (body_txnGet _ (touches_override place filename)).bind fun existing => ?_
  split
  · exact Prog.confined_pure _
  · exact (body_txnRemove _ (touches_override place filename)).bind fun _ => Prog.confined_pure _

end Hosted

theorem within_readOverlay : Within place.Touches (readOverlay json place.suffix) := by
  have hfresh : place.Touches (freshnessKey place.suffix) :=
    touches_row place freshnessPrefix (by decide)
  refine (within_getCall _ hfresh).bind fun found => ?_
  cases found with
  | none => exact within_pure none
  | some raw => exact (within_decoded _).bind fun _ => within_pure _

theorem within_getIndex : Within place.Touches (getIndex json place.suffix) := by
  have hpage : place.Touches (indexKey place.suffix) := touches_row place indexPrefix (by decide)
  refine (within_getCall _ hpage).bind fun found => ?_
  cases found with
  | none => exact within_pure none
  | some raw =>
    refine (within_decoded _).bind fun record => ?_
    refine (within_readOverlay json place).bind fun overlay => ?_
    cases overlay <;> exact within_pure _

theorem within_listProjectFiles : Within place.Touches
    (listProjectFiles json.toGenerationJson place.index place.normalized) := by
  have hstate := within_stateCall (projectSpace json.toGenerationJson place.index place.normalized)
    (touches_meta place)
  refine (hstate.bind fun state => within_pure state.active).bind fun active => ?_
  cases active with
  | none => exact within_pure _
  | some active =>
    refine within_scan _ (touches_generation place active.generation) _ fun key hkey => ?_
    exact (within_valueOf key hkey).bind fun raw => within_decoded _

theorem within_countRows (keys : List Str) (h : ∀ key ∈ keys, place.Touches key) :
    Within place.Touches (countRows keys) :=
  (within_mapM keys _ fun key hkey => within_getCall key (h key hkey)).bind fun _ => within_pure _

theorem touches_purged (fileDigests metadataDigests : List Str) :
    ∀ key ∈ [indexKey place.suffix, freshnessKey place.suffix,
        projectKey place.index place.normalized, projectStatusKey place.index place.normalized] ++
      fileDigests.map fileKey ++ metadataDigests.map metadataKey ++ fileDigests.map provenanceKey,
      place.Touches key := by
  intro key hkey
  simp only [List.mem_append, List.mem_cons, List.not_mem_nil, or_false, List.mem_map] at hkey
  rcases hkey with ((((rfl | rfl | rfl | rfl) | ⟨digest, -, rfl⟩) | ⟨digest, -, rfl⟩) | ⟨digest, -, rfl⟩)
  · exact touches_row place indexPrefix (by decide)
  · exact touches_row place freshnessPrefix (by decide)
  · exact touches_row place projectsPrefix (by decide)
  · exact touches_row place projectStatusPrefix (by decide)
  · exact touches_digest place filePrefix _ (by decide)
  · exact touches_digest place metadataPrefix _ (by decide)
  · exact touches_digest place provenancePrefix _ (by decide)

theorem within_countPurge (fileDigests metadataDigests : List Str) : Within place.Touches
    (countProjectCachePurge place.index place.normalized fileDigests metadataDigests) := by
  have hpurged := touches_purged place fileDigests metadataDigests
  simp only [List.mem_append, List.mem_cons, List.not_mem_nil, or_false] at hpurged
  refine (within_countRows place _ fun key hkey => ?_).bind fun _ =>
    (within_countRows place _ fun key hkey => ?_).bind fun _ =>
    (within_countRows place _ fun key hkey => ?_).bind fun _ =>
    (within_countRows place _ fun key hkey => ?_).bind fun _ =>
    (within_countRows place _ fun key hkey => ?_).bind fun _ =>
    (within_countRows place _ fun key hkey => ?_).bind fun _ => within_pure _
  · exact hpurged key (.inl (.inl (.inr hkey)))
  · exact hpurged key (.inl (.inr hkey))
  · exact hpurged key (.inr hkey)
  · exact hpurged key (.inl (.inl (.inl (.inl (List.mem_singleton.mp hkey)))))
  · exact hpurged key (.inl (.inl (.inl (.inr (.inr (.inl (List.mem_singleton.mp hkey)))))))
  · exact hpurged key (.inl (.inl (.inl (.inr (.inr (.inr (List.mem_singleton.mp hkey)))))))

theorem within_deleteCache (fileDigests metadataDigests : List Str) : Within place.Touches
    (deleteProjectCache place.index place.normalized fileDigests metadataDigests) := by
  refine (within_countPurge place fileDigests metadataDigests).bind fun counts => ?_
  refine (within_batchCall _ ⟨List.forall_mem_nil _, ?_⟩).bind fun _ => within_pure _
  exact touches_purged place fileDigests metadataDigests

theorem within_listUploadEntries : Within place.Touches
    (listUploadEntriesCall place.index place.normalized) := by
  have hunder : ∀ key, projectUploadsPrefix place.index place.normalized <+: key →
      place.Touches key := fun key hkey => touches_under place uploadPrefix key (by decide) hkey
  refine (within_keysCall _ hunder).bind_of (keysCall_ends _) fun keys hkeys => ?_
  refine (within_mapM keys _ fun key hkey => ?_).bind fun _ => within_pure _
  exact (within_getCall key (hunder key (hkeys key hkey))).bind fun _ => within_pure _

theorem projectCall_within (uploads : UploadJson) (recordVersion : Bytes → Option Str)
    {ε α : Type} (call : Calls ε α) (h : ProjectCall json uploads recordVersion place call) :
    Within place.Touches call := by
  have hpage : place.Touches (indexKey place.suffix) := touches_row place indexPrefix (by decide)
  have hfresh : place.Touches (freshnessKey place.suffix) :=
    touches_row place freshnessPrefix (by decide)
  have hproject : place.Touches (projectKey place.index place.normalized) :=
    touches_row place projectsPrefix (by decide)
  have hstatus : place.Touches (projectStatusKey place.index place.normalized) :=
    touches_row place projectStatusPrefix (by decide)
  have hmeta := touches_meta place
  have hrows := touches_generation place
  cases h with
  | getIndex => exact within_getIndex json place
  | putIndex record =>
    exact within_batchCall _ ⟨List.forall_mem_singleton.mpr hpage, List.forall_mem_singleton.mpr hfresh⟩
  | touchIndexFreshness overlay =>
    exact within_batchCall _ ⟨List.forall_mem_singleton.mpr hfresh, List.forall_mem_nil _⟩
  | putCachedPage page => exact within_rowsCall _ (rowsWithin_putCachedPage json place page)
  | getProjectStatus =>
    refine (within_getCall _ hstatus).bind fun found => ?_
    cases found with
    | none => exact within_pure none
    | some raw => exact (within_decoded _).bind fun _ => within_pure _
  | putProject display => exact within_putCall _ _ hproject
  | getProject => exact (within_getCall _ hproject).bind fun _ => within_pure _
  | projectMetaState => exact within_stateCall _ hmeta
  | listProjectFiles => exact within_listProjectFiles json place
  | recoverGenerations rounds => exact within_recover _ hmeta hrows rounds
  | beginGeneration => exact within_begin _ hmeta
  | putFiles generation source upstream files =>
    refine within_put _ hmeta generation _ ?_
    exact (rowsWithin_insertFiles json place generation source upstream files).andThen
      fun inserted => rowsWithin_answer _
  | publishGeneration expectedActive generation => exact within_publish _ hmeta _ _
  | abortGeneration rounds generation => exact within_abort _ hmeta hrows rounds generation
  | refreshGeneration expected etag lastModified fetchedAtUnix => exact within_refresh _ hmeta _ _
  | countPurge fileDigests metadataDigests => exact within_countPurge place _ _
  | deleteCache fileDigests metadataDigests => exact within_deleteCache place _ _
  | publishFile file guard => exact within_txnCall _ (body_publishFile place uploads _ rfl rfl guard)
  | putUpload filename record => exact within_putCall _ _ (touches_upload place filename)
  | promoteFiles release guard =>
    exact within_txnCall _ (body_promoteFiles place uploads recordVersion _ rfl rfl guard)
  | mutateUploads action time mutate =>
    exact within_txnCall _ (body_mutateUploads place uploads recordVersion action time mutate)
  | listUploadEntries => exact within_listUploadEntries place
  | deleteUpload filename time =>
    exact within_txnCall _ (body_deleteUpload place uploads recordVersion filename time)
  | putOverride filename kind time =>
    exact within_txnCall _ (body_putOverride place uploads filename kind time)
  | deleteOverride filename time =>
    exact within_txnCall _ (body_deleteOverride place uploads filename time)
  | listOverrides =>
    exact within_scanTexts _ fun key hkey => touches_under place overridePrefix key (by decide) hkey

end Place
theorem run_listUploadEntriesCall (index normalized : Str) (disk : Disk) (h : disk.fault = .never) :
    (listUploadEntriesCall index normalized).run.run disk =
      (.ok (listUploadEntries disk.store.rows index normalized), disk) := by
  let start := projectUploadsPrefix index normalized
  have hkeys := run_readCall (ε := MetaFailure) (fun rows => keysUnder rows start) h
  have hrows := run_mapM_reads (ε := MetaFailure) (keysUnder disk.store.rows start)
    (fun key => do return (← getCall key).map fun record => (key.drop start.length, record))
    (fun key => disk.store.rows[key]?.map fun record => (key.drop start.length, record))
    fun key _ => run_calls_bind (run_readCall _ h)
  refine (run_calls_bind hkeys).trans ((run_calls_bind hrows).trans ?_)
  show (Except.ok (List.filterMap id (List.map _ _)), disk) = _
  rw [List.filterMap_map]
  rfl

theorem below_not_within (a b : Place) (h : a.scope <+: b.scope) :
    ¬ Within (fun key => ¬ b.Owns key) (listUploadEntriesCall a.index a.normalized) := by
  intro hwithin
  obtain ⟨rest, hrest⟩ := h
  have hkey : b.Owns (uploadKey b.index b.normalized []) := .upload [] List.not_mem_nil
  have hbelow : uploadKey b.index b.normalized [] = uploadKey a.index a.normalized rest := by
    show uploadPrefix ++ b.scope ++ [] = uploadPrefix ++ a.scope ++ rest
    rw [← hrest, List.append_nil, List.append_assoc]
  let rows : Rows := (∅ : Rows).insert (uploadKey b.index b.normalized []) []
  have hsame : Disk.Same (fun key => ¬ b.Owns key) {} { store := { rows := rows } } := by
    refine ⟨rfl, fun key hnot => ?_⟩
    have hne : uploadKey b.index b.normalized [] ≠ key := fun heq => hnot (heq ▸ hkey)
    exact (Table.getElem?_set_of_ne ∅ _ key (some []) hne).symm
  have hanswer := (Prog.Confined.run_same hwithin _ _ hsame).1
  rw [run_listUploadEntriesCall a.index a.normalized _ rfl,
    run_listUploadEntriesCall a.index a.normalized _ rfl] at hanswer
  have hlists : listUploadEntries ∅ a.index a.normalized =
      listUploadEntries rows a.index a.normalized := Except.ok.inj hanswer
  have hmem : (rest, []) ∈ listUploadEntries rows a.index a.normalized := by
    rw [mem_listUploadEntries, ← hbelow]
    exact Table.getElem?_set_self ∅ _ (some [])
  rw [← hlists, mem_listUploadEntries] at hmem
  simp at hmem

variable (json : PageJson) (uploads : UploadJson) (recordVersion : Bytes → Option Str)

/-- Two places are isolated from each other exactly if neither key begins with the other's,
up to a slash. -/
theorem places_isolated_iff (a b : Place) :
    Isolated json uploads recordVersion a b ↔ ¬ a.scope <+: b.scope ∧ ¬ b.scope <+: a.scope := by
  constructor
  · intro h
    exact ⟨fun hbelow => below_not_within a b hbelow (h.left _ .listUploadEntries),
      fun hbelow => below_not_within b a hbelow (h.right _ .listUploadEntries)⟩
  · intro h
    have hswap : Apart b a := ⟨h.2, h.1⟩
    refine ⟨fun key ha => ?_, fun call hcall => ?_, fun call hcall => ?_⟩
    · exact touches_not_owns a b h key (owns_touches a key ha)
    · exact (projectCall_within json a uploads recordVersion call hcall).widen
        fun key hkey => touches_not_owns a b h key hkey
    · exact (projectCall_within json b uploads recordVersion call hcall).widen
        fun key hkey => touches_not_owns b a hswap key hkey

namespace NestedIndexes

/-- The project `pypi` of an index `root`. -/
def outer : Place := ⟨str "root", str "pypi"⟩

/-- The project `flask` of an index `root/pypi`. -/
def inner : Place := ⟨str "root/pypi", str "flask"⟩

def wheel : Str := str "flask-1.0-py3-none-any.whl"

def record : Uploaded where
  version := str "1.0"
  file := { filename := wheel, url := [] }

def context : TrashContext := ⟨7, none, none⟩

/-- `inner` with one uploaded file. -/
def rows : Rows :=
  (∅ : Rows).insert (uploadKey inner.index inner.normalized wheel) (UploadText.json.uploaded record)

/-- A removal of the project `pypi` on `root`. -/
def removal : Calls HostedError Nat :=
  txnCall (mutateUploadsTxn UploadText.json UploadText.recordVersion outer.index outer.normalized
    (str "delete-file") context.deletedAtUnix
    (trashUpload UploadText.json wholeVersions true none context))

end NestedIndexes

open NestedIndexes in
/-- It trashes the file of the other index. -/
theorem nested_index_not_isolated : outer ≠ NestedIndexes.inner ∧
    NestedIndexes.inner.Owns
      (uploadKey NestedIndexes.inner.index NestedIndexes.inner.normalized wheel) ∧
    ((removal.run.run { store := { rows := rows } }).2.store.rows[
        uploadKey NestedIndexes.inner.index NestedIndexes.inner.normalized wheel]?.bind
      UploadText.json.readUploaded).map Uploaded.trashed = some (some context.info) ∧
    ¬ Isolated PageText.json UploadText.json UploadText.recordVersion outer NestedIndexes.inner := by
  refine ⟨by decide, .upload wheel (by decide), by decide +kernel, fun h => ?_⟩
  exact below_not_within outer NestedIndexes.inner (by decide) (h.left _ .listUploadEntries)

end Peryx.Pypi
