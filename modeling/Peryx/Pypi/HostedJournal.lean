import Peryx.Library.Outcome
import Peryx.Pypi.HostedChanges
import Peryx.Pypi.UploadText

/-!
# Hosted mutations are atomic and journaled

Whatever store call of a hosted transaction fails, it commits all it was to commit or
nothing.
-/

namespace Peryx.Pypi
open Storage

section Mutations
variable (json : UploadJson) (pep : Pep440) [BEq pep.Version]

def recordDigest (record : Bytes) : Option Str :=
  (json.readUploaded record).bind fun uploaded => uploaded.file.sha256

structure SameFile (old new : Bytes) : Prop where
  ne : new ≠ old
  digest : recordDigest json new = recordDigest json old

omit [BEq pep.Version] pep in
theorem decodeUploaded_ok (record : Bytes) (uploaded : Uploaded)
    (h : decodeUploaded json record = .ok uploaded) : json.readUploaded record = some uploaded := by
  unfold decodeUploaded at h
  split at h
  · cases h
    assumption
  · cases h

theorem sameFile_rewritten (hjson : json.Faithful) (record : Bytes) (old new : Uploaded)
    (hread : json.readUploaded record = some old) (hhashes : new.file.hashes = old.file.hashes)
    (hne : new.trashed ≠ old.trashed ∨ new.file.yanked ≠ old.file.yanked) :
    SameFile json record (json.uploaded new) := by
  have hnew := hjson.read new
  constructor
  · intro heq
    rw [heq, hread] at hnew
    have hsame := Option.some.inj hnew
    rcases hne with hne | hne
    · exact hne (congrArg Uploaded.trashed hsame).symm
    · exact hne (congrArg (fun uploaded => uploaded.file.yanked) hsame).symm
  · unfold recordDigest
    rw [hnew, hread]
    exact congrArg (fun hashes : Hashes => hashes[str "sha256"]?) hhashes

def KeepsFiles (mutate : Str → Bytes → Except HostedError UploadMutation) : Prop :=
  ∀ filename record mutation, mutate filename record = .ok mutation →
    mutation = .keep ∨ ∃ bytes, mutation = .replace bytes ∧ SameFile json record bytes

variable {json}

theorem trashUpload_keeps (hjson : json.Faithful) (volatile : Bool) (version : Option Str)
    (trash : TrashContext) : KeepsFiles json (trashUpload json pep volatile version trash) := by
  intro filename record mutation h
  obtain ⟨old, hold, h⟩ := (bind_eq_ok _ _ _).mp h
  split at h
  · cases h
    exact .inl rfl
  · rename_i hkept
    split at h
    · cases h
    · cases h
      refine .inr ⟨_, rfl, sameFile_rewritten json hjson record old _
        (decodeUploaded_ok json record old hold) rfl (.inl ?_)⟩
      rw [Bool.or_eq_true, not_or] at hkept
      intro heq
      rw [← heq] at hkept
      exact hkept.2 rfl

theorem untrashUpload_keeps (hjson : json.Faithful) (version : Option Str) :
    KeepsFiles json (untrashUpload json pep version) := by
  intro filename record mutation h
  obtain ⟨old, hold, h⟩ := (bind_eq_ok _ _ _).mp h
  split at h
  · cases h
    exact .inl rfl
  · rename_i hkept
    cases h
    refine .inr ⟨_, rfl, sameFile_rewritten json hjson record old _
      (decodeUploaded_ok json record old hold) rfl (.inl ?_)⟩
    rw [Bool.or_eq_true, not_or] at hkept
    intro heq
    rw [← heq] at hkept
    exact hkept.1 rfl

theorem yankUpload_keeps (hjson : json.Faithful) (version : Option Str) (yanked : Yanked) :
    KeepsFiles json (yankUpload json pep version yanked) := by
  intro filename record mutation h
  obtain ⟨old, hold, h⟩ := (bind_eq_ok _ _ _).mp h
  split at h
  · cases h
    exact .inl rfl
  · rename_i hkept
    cases h
    refine .inr ⟨_, rfl, sameFile_rewritten json hjson record old _
      (decodeUploaded_ok json record old hold) rfl (.inr ?_)⟩
    rw [Bool.or_eq_true, not_or, beq_iff_eq] at hkept
    exact Ne.symm hkept.2

omit [BEq pep.Version] pep in
theorem KeepsFiles.proper {mutate : Str → Bytes → Except HostedError UploadMutation}
    (h : KeepsFiles json mutate) : Proper mutate := by
  intro filename record bytes hmutate
  rcases h filename record _ hmutate with heq | ⟨_, heq, hsame⟩
  · cases heq
  · cases heq
    exact hsame.ne

omit [BEq pep.Version] pep in
theorem uploadConflict_fresh (existing : Option Bytes) (digest filename : Str)
    (h : (uploadConflict json existing digest filename).mapError HostedError.upload = .ok .commit) :
    existing = none := by
  unfold uploadConflict at h
  split at h
  · rfl
  · split at h
    · cases h
    · split at h <;> cases h

def HostedTxn.rowKey : HostedTxn → JournalEntry → Str
  | .publish file => uploadRow file.index
  | .promote release => uploadRow release.index
  | .yank index .. | .trash index .. | .untrash index .. | .deleteUpload index .. => uploadRow index
  | .putOverride index .. | .deleteOverride index .. => overrideRow index

def HostedTxn.siblings : HostedTxn → List (Str × Bytes)
  | .publish file => file.siblings
  | .promote release => release.siblings
  | .yank .. | .trash .. | .untrash .. | .deleteUpload .. | .putOverride .. | .deleteOverride .. => []

variable (json) in
def KeepsBytes (key : Str) (before after : Option Bytes) : Prop :=
  uploadPrefix <+: key → ∀ old new, before = some old → after = some new →
    recordDigest json new = recordDigest json old

omit [BEq pep.Version] pep in
theorem keepsBytes_mutated (index normalized : Str)
    {mutate : Str → Bytes → Except HostedError UploadMutation} (h : KeepsFiles json mutate) (key : Str)
    (before after : Option Bytes) (hmutated : Mutated index normalized mutate key before after) :
    KeepsBytes json key before after := by
  intro _ old new hold hnew
  obtain ⟨record, hrecord, hverdict⟩ := hmutated
  rw [hold] at hrecord
  cases hrecord
  rcases h _ _ _ (hverdict new hnew) with heq | ⟨bytes, heq, hsame⟩
  · cases heq
  · cases heq
    exact hsame.digest

omit [BEq pep.Version] pep in
theorem RowsChanged.mono {rowKey : JournalEntry → Str} {siblings : List (Str × Bytes)}
    {how how' : Str → Option Bytes → Option Bytes → Prop} {before after : Rows}
    {entries : List JournalEntry} (h : RowsChanged rowKey siblings how before after entries)
    (himp : ∀ entry old new, how (rowKey entry) old new → how' (rowKey entry) old new) :
    RowsChanged rowKey siblings how' before after entries where
  files := by
    refine h.files.mono how' fun key hkey old new hhow => ?_
    obtain ⟨entry, _, rfl⟩ := List.mem_map.mp hkey
    exact himp entry old new hhow
  idle := h.idle
  siblings := h.siblings

def FileRow (key : Str) : Prop := uploadPrefix <+: key ∨ overridePrefix <+: key

theorem not_under (a b rest : Str) (ha : a.length = 7) (hb : b.length = 7) (hne : a ≠ b) :
    ¬ a <+: b ++ rest := by
  rintro ⟨tail, heq⟩
  exact key_ne a b ha hb hne tail rest heq

omit [BEq pep.Version] pep in
theorem overrideRow_not_upload (index : Str) (entry : JournalEntry) :
    ¬ uploadPrefix <+: overrideRow index entry := by
  unfold overrideRow overrideKey projectOverridesPrefix
  rw [List.append_assoc]
  exact not_under uploadPrefix overridePrefix _ rfl rfl (by decide)

theorem sibling_not_file (op : HostedTxn) : ∀ row ∈ op.siblings, ¬ FileRow row.1 := by
  have hplain : ∀ start rest : Str, start.length = 7 → uploadPrefix ≠ start → overridePrefix ≠ start →
      ¬ FileRow (start ++ rest) := fun start rest hlength hupload hoverride hfile =>
    hfile.elim (not_under _ _ _ rfl hlength hupload) (not_under _ _ _ rfl hlength hoverride)
  have hproject := fun rest => hplain projectsPrefix rest rfl (by decide) (by decide)
  have hmetadata := fun rest => hplain metadataPrefix rest rfl (by decide) (by decide)
  have hprovenance := fun rest => hplain provenancePrefix rest rfl (by decide) (by decide)
  cases op with
  | publish file =>
    intro row hrow
    have hmem : row ∈ file.siblings := hrow
    unfold PublishedFile.siblings at hmem
    rcases List.mem_append.mp hmem with hmem | hmem
    · rcases List.mem_append.mp hmem with hmem | hmem
      · cases hfile : file.metadata with
        | none => simp [hfile] at hmem
        | some sibling =>
          rw [hfile] at hmem
          rw [List.mem_singleton.mp hmem]
          exact hmetadata file.artifactSha256
      · cases hfile : file.provenance with
        | none => simp [hfile] at hmem
        | some sibling =>
          rw [hfile] at hmem
          rw [List.mem_singleton.mp hmem]
          exact hprovenance file.artifactSha256
    · rw [List.mem_singleton.mp hmem]
      exact hproject (projectSuffix file.index file.normalized)
  | promote release =>
    intro row hrow
    rw [List.mem_singleton.mp hrow]
    exact hproject (projectSuffix release.index release.normalized)
  | yank | trash | untrash | deleteUpload | putOverride | deleteOverride =>
    exact List.forall_mem_nil _

variable (recordVersion : Bytes → Option Str)

theorem hostedTxn_changes (hjson : json.Faithful) (op : HostedTxn) (rows : Rows)
    (answer : op.Answer) (journal : List Bytes) (txn : DriverTxn)
    (h : (op.body json pep recordVersion).run { table := rows } = (.ok (answer, journal), txn)) :
    ∃ entries, journal = entries.map json.journalEntry ∧
      RowsChanged op.rowKey op.siblings (KeepsBytes json) rows txn.table entries := by
  have hcreated : ∀ key old new, Created key old new → KeepsBytes json key old new := by
    intro key old new hcreated _ record _ hold
    rw [hcreated.1] at hold
    cases hold
  have hremoved : ∀ key old new, Removed key old new → KeepsBytes json key old new := by
    intro key old new hremoved _ _ record _ hnew
    rw [show new = none from hremoved] at hnew
    cases hnew
  have hoverride : ∀ index entry (old new : Option Bytes),
      KeepsBytes json (overrideRow index entry) old new :=
    fun index entry _ _ hupload => absurd hupload (overrideRow_not_upload index entry)
  cases op with
  | publish file =>
    obtain ⟨entries, hjournal, hchanged⟩ := publishFileTxn_changes file json _
      (fun existing hcommit => uploadConflict_fresh existing _ _ hcommit) rows answer journal txn h
    exact ⟨entries, hjournal, hchanged.mono fun entry => hcreated _⟩
  | promote release =>
    obtain ⟨entries, hjournal, hchanged⟩ := promoteFilesTxn_changes json recordVersion release _
      (fun filename token existing hcommit => uploadConflict_fresh existing _ _ hcommit) rows answer
      journal txn h
    exact ⟨entries, hjournal, hchanged.mono fun entry => hcreated _⟩
  | yank index normalized version yanked time =>
    have hkeeps := yankUpload_keeps pep hjson version yanked
    obtain ⟨entries, hjournal, _, hchanged⟩ := mutateUploadsTxn_changes json recordVersion index
      normalized _ time _ hkeeps.proper rows answer journal txn h
    exact ⟨entries, hjournal, hchanged.mono fun entry =>
      keepsBytes_mutated index normalized hkeeps _⟩
  | trash index normalized volatile version context =>
    have hkeeps := trashUpload_keeps pep hjson volatile version context
    obtain ⟨entries, hjournal, _, hchanged⟩ := mutateUploadsTxn_changes json recordVersion index
      normalized _ _ _ hkeeps.proper rows answer journal txn h
    exact ⟨entries, hjournal, hchanged.mono fun entry =>
      keepsBytes_mutated index normalized hkeeps _⟩
  | untrash index normalized version time =>
    have hkeeps := untrashUpload_keeps pep hjson version
    obtain ⟨entries, hjournal, _, hchanged⟩ := mutateUploadsTxn_changes json recordVersion index
      normalized _ time _ hkeeps.proper rows answer journal txn h
    exact ⟨entries, hjournal, hchanged.mono fun entry =>
      keepsBytes_mutated index normalized hkeeps _⟩
  | deleteUpload index normalized filename time =>
    obtain ⟨entries, hjournal, hchanged⟩ := deleteUploadTxn_changes json recordVersion index
      normalized filename time rows answer journal txn h
    exact ⟨entries, hjournal, hchanged.mono fun entry => hremoved _⟩
  | putOverride index normalized filename kind time =>
    obtain ⟨entries, hjournal, hchanged⟩ := putOverrideTxn_changes json index normalized filename
      time kind rows answer journal txn h
    exact ⟨entries, hjournal, hchanged.mono fun entry old new _ => hoverride index entry old new⟩
  | deleteOverride index normalized filename time =>
    obtain ⟨entries, hjournal, hchanged⟩ := deleteOverrideTxn_changes json index normalized
      filename time rows answer journal txn h
    exact ⟨entries, hjournal, hchanged.mono fun entry old new _ => hoverride index entry old new⟩

variable (json) in
/-- The transaction has journaled these entries, one for each file row it changed, and
written the rows that go in with them. -/
structure Committed (op : HostedTxn) (before after : MetaStore) (entries : List JournalEntry) :
    Prop where
  journaled : Storage.Journaled before after (entries.map json.journalEntry)
  once : (entries.map op.rowKey).Nodup
  changed : ∀ key, FileRow key →
    (before.rows[key]? ≠ after.rows[key]? ↔ key ∈ entries.map op.rowKey)
  others : ∀ key : Str, before.rows[key]? ≠ after.rows[key]? → ¬ FileRow key →
    key ∈ op.siblings.map Prod.fst
  siblings : entries ≠ [] → ∀ row ∈ op.siblings, after.rows[row.1]? = some row.2
  idle : entries = [] → after = before

theorem rowKey_file (op : HostedTxn) (entry : JournalEntry) : FileRow (op.rowKey entry) := by
  have hupload : ∀ index, FileRow (uploadRow index entry) := fun index => .inl
    ((List.prefix_append _ _).trans (List.prefix_append _ _))
  have hoverride : ∀ index, FileRow (overrideRow index entry) := fun index => .inr
    ((List.prefix_append _ _).trans (List.prefix_append _ _))
  cases op with
  | publish file => exact hupload file.index
  | promote release => exact hupload release.index
  | yank index | trash index | untrash index | deleteUpload index => exact hupload index
  | putOverride index | deleteOverride index => exact hoverride index

theorem committed (op : HostedTxn) (store : MetaStore) (txn : DriverTxn)
    (entries : List JournalEntry)
    (h : RowsChanged op.rowKey op.siblings (KeepsBytes json) store.rows txn.table entries) :
    Committed json op store (store.commit txn (entries.map json.journalEntry)) entries where
  journaled := journaled_commit store txn _
  once := h.files.nodup
  changed key hfile := by
    rw [MetaStore.commit_rows]
    refine (h.files.mem_iff key fun hsibling => ?_).symm
    obtain ⟨row, hrow, rfl⟩ := List.mem_map.mp hsibling
    exact sibling_not_file op row hrow hfile
  others key hne hfile := by
    rw [MetaStore.commit_rows] at hne
    by_contra hsibling
    obtain ⟨entry, _, hkey⟩ := List.mem_map.mp ((h.files.mem_iff key hsibling).mpr hne)
    exact hfile (hkey ▸ rowKey_file op entry)
  siblings hentries row hrow := by
    rw [MetaStore.commit_rows]
    exact h.siblings hentries row hrow
  idle hentries := by
    subst hentries
    unfold MetaStore.commit
    rw [h.idle rfl]
    rfl

variable (json) in
/-- The transactions of a run, each with the store call that fails in it, if one does. -/
def runHosted (store : MetaStore) (steps : List (HostedTxn × Fault)) : MetaStore :=
  steps.foldl (fun store step => (step.1.apply json pep recordVersion step.2 store).2) store

variable (json) in
def publishedDigest (store : MetaStore) (index normalized filename : Str) : Option Str :=
  (store.rows[uploadKey index normalized filename]?).bind (recordDigest json)

theorem apply_outcome (hjson : json.Faithful) (op : HostedTxn) (fault : Fault) (store : MetaStore) :
    (∃ error, op.apply json pep recordVersion fault store = (.error error, store)) ∨
      ∃ answer after entries, op.apply json pep recordVersion fault store = (.ok answer, after) ∧
        op.apply json pep recordVersion .never store = (.ok answer, after) ∧
        Committed json op store after entries ∧
        Table.Rewrites (fun key => key ∉ op.siblings.map Prod.fst) (KeepsBytes json) store.rows
          after.rows (entries.map op.rowKey) := by
  rcases transact_atomic store (op.body json pep recordVersion) fault with hfailed | hsame
  · exact .inl hfailed
  · have happly : op.apply json pep recordVersion fault store =
        op.apply json pep recordVersion .never store := hsame
    rcases houtcome : op.apply json pep recordVersion .never store with ⟨error | answer, after⟩
    · refine .inl ⟨error, ?_⟩
      have hafter := transact_error store (op.body json pep recordVersion) .never error after houtcome
      rw [happly, houtcome, hafter]
    · obtain ⟨journal, txn, hrun, rfl⟩ := transact_ok store _ answer after houtcome
      obtain ⟨entries, rfl, hchanged⟩ := hostedTxn_changes pep recordVersion hjson op store.rows
        answer journal txn hrun
      refine .inr ⟨answer, _, entries, happly.trans houtcome, rfl, committed op store txn entries
        hchanged, ?_⟩
      rw [MetaStore.commit_rows]
      exact hchanged.files

theorem step_keeps_digest (hjson : json.Faithful) (op : HostedTxn) (fault : Fault)
    (store : MetaStore) (index normalized filename : Str)
    (hbefore : store.rows[uploadKey index normalized filename]?.isSome)
    (hafter : (op.apply json pep recordVersion fault store).2.rows[uploadKey index normalized
      filename]?.isSome) :
    publishedDigest json (op.apply json pep recordVersion fault store).2 index normalized filename =
      publishedDigest json store index normalized filename := by
  have hkey : uploadPrefix <+: uploadKey index normalized filename :=
    (List.prefix_append _ _).trans (List.prefix_append _ _)
  rcases apply_outcome pep recordVersion hjson op fault store with
    ⟨error, hfailed⟩ | ⟨answer, after, entries, happly, _, _, hrows⟩
  · rw [hfailed]
  · rw [happly] at hafter ⊢
    unfold publishedDigest
    by_cases hmem : uploadKey index normalized filename ∈ entries.map op.rowKey
    · obtain ⟨_, _, hkeeps⟩ := hrows.on _ hmem
      obtain ⟨old, hold⟩ := Option.isSome_iff_exists.mp hbefore
      obtain ⟨new, hnew⟩ := Option.isSome_iff_exists.mp hafter
      rw [hold, hnew]
      exact hkeeps hkey old new hold hnew
    · have hwatched : uploadKey index normalized filename ∉ op.siblings.map Prod.fst := by
        intro hsibling
        obtain ⟨row, hrow, heq⟩ := List.mem_map.mp hsibling
        exact sibling_not_file op row hrow (.inl (heq ▸ hkey))
      rw [hrows.off _ hwatched hmem]

theorem run_keeps_digest (hjson : json.Faithful) (steps : List (HostedTxn × Fault))
    (store : MetaStore) (index normalized filename : Str)
    (h : ∀ n, (runHosted json pep recordVersion store (steps.take n)).rows[uploadKey index normalized
      filename]?.isSome) :
    publishedDigest json (runHosted json pep recordVersion store steps) index normalized filename =
      publishedDigest json store index normalized filename := by
  induction steps generalizing store with
  | nil => rfl
  | cons step steps ih =>
    have hfirst := h 0
    have hsecond := h 1
    have hrest := ih (step.1.apply json pep recordVersion step.2 store).2 fun n => h (n + 1)
    have hstep := step_keeps_digest pep recordVersion hjson step.1 step.2 store index normalized
      filename hfirst hsecond
    exact hrest.trans hstep

/-- Every transaction on hosted rows commits its rows and one journal entry for each file
row it changes, or changes nothing; and over any run of them, whatever fails in it, the
bytes published under a filename stay the same for as long as it has a record. -/
theorem hosted_mutations_journaled (hjson : json.Faithful) :
    (∀ (op : HostedTxn) (fault : Fault) (store : MetaStore),
      (∃ error, op.apply json pep recordVersion fault store = (.error error, store)) ∨
        ∃ answer after entries, op.apply json pep recordVersion fault store = (.ok answer, after) ∧
          op.apply json pep recordVersion .never store = (.ok answer, after) ∧
          Committed json op store after entries) ∧
      ∀ (steps : List (HostedTxn × Fault)) (store : MetaStore) (index normalized filename : Str),
        (∀ n, (runHosted json pep recordVersion store (steps.take n)).rows[uploadKey index normalized
          filename]?.isSome) →
        publishedDigest json (runHosted json pep recordVersion store steps) index normalized filename =
          publishedDigest json store index normalized filename := by
  refine ⟨fun op fault store => ?_, run_keeps_digest pep recordVersion hjson⟩
  rcases apply_outcome pep recordVersion hjson op fault store with
    hfailed | ⟨answer, after, entries, happly, hnever, hcommitted, _⟩
  · exact .inl hfailed
  · exact .inr ⟨answer, after, entries, happly, hnever, hcommitted⟩

end Mutations

namespace HostedSample

instance : BEq wholeVersions.Version :=
  inferInstanceAs (BEq { text : Str // isWhole text = true })

def filename : Str := str "app-1-py3-none-any.whl"

def digest : Str := str "ba59926159d2aa256eb8739b8da7e2b574b960e1202c6d624cbe981cef996c91"

def otherDigest : Str := str "9b38c883745f422282edb55105a77c628a65790c7aa1afbb7165001bb76af2ae"

def record (sha256 : Str) : Uploaded where
  version := str "1"
  file := {
    filename := filename
    url := str "/hosted/files/" ++ sha256 ++ str "/" ++ filename
    hashes := Std.ExtTreeMap.ofList [(str "sha256", sha256)]
    size := some 5 }

def published (sha256 : Str) : PublishedFile where
  index := str "hosted"
  normalized := str "app"
  display := str "App"
  filename := filename
  artifactSha256 := sha256
  artifactSize := 5
  record := UploadText.json.uploaded (record sha256)
  version := str "1"
  submittedAtUnix := 0
  metadata := none
  provenance := none

def apply (op : HostedTxn) (fault : Fault) (store : MetaStore) : MetaStore :=
  (op.apply UploadText.json wholeVersions UploadText.recordVersion fault store).2

def store : MetaStore := apply (.publish (published digest)) .never {}

/-- The file is yanked, another file is refused under its name, and it is trashed, once in
a transaction that cannot commit. -/
def steps : List (HostedTxn × Fault) :=
  [(.yank (str "hosted") (str "app") none (.reason (str "broken")) 7, .never),
    (.publish (published otherDigest), .never),
    (.trash (str "hosted") (str "app") true (some (str "1")) ⟨8, none, none⟩, .commit),
    (.trash (str "hosted") (str "app") true (some (str "1")) ⟨9, none, none⟩, .never)]

def after (n : Nat) : MetaStore :=
  runHosted UploadText.json wholeVersions UploadText.recordVersion store (steps.take n)

theorem present (n : Nat) : (after n).rows[uploadKey (str "hosted") (str "app") filename]?.isSome := by
  match n with
  | 0 | 1 | 2 | 3 => decide +kernel
  | n + 4 =>
    have htake : steps.take (n + 4) = steps := List.take_of_length_le (by simp [steps])
    unfold after
    rw [htake]
    decide +kernel

end HostedSample

open HostedSample in
theorem contested_file_kept :
    publishedDigest UploadText.json (runHosted UploadText.json wholeVersions UploadText.recordVersion
        store steps) (str "hosted") (str "app") HostedSample.filename = some digest ∧
      (after 2).serial = 2 ∧ (after 4).serial = 3 :=
  ⟨((hosted_mutations_journaled wholeVersions UploadText.recordVersion UploadText.json_faithful).2
    steps store (str "hosted") (str "app") HostedSample.filename present).trans (by decide +kernel),
    by decide +kernel, by decide +kernel⟩

end Peryx.Pypi
