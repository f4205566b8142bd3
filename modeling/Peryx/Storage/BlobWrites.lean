import Mathlib.Logic.Function.Basic
import Peryx.Library.Transition
import Peryx.Storage.BlobFiles

/-! # Writers of the blob store (peryx-storage/src/blob/store.rs, blob/backend.rs) -/

namespace Peryx.Storage

structure StoredFile where
  bytes : Bytes
  writer : Nat
  deriving Repr, DecidableEq

abbrev Files := BlobPath → Option StoredFile

def IsStage (path : BlobPath) : Prop :=
  ∃ parent name, path = parent ++ [.normal name] ∧ str ".tmp" <+: name

inductive Writer where
  /-- `write_verified`: compare the digests. -/
  | verifying (bytes : Bytes) (expected : Digest)
  /-- `write`: is the blob there already? -/
  | checking (bytes : Bytes)
  | creating (bytes : Bytes)
  | filling (bytes : Bytes) (temp : BlobPath)
  | syncing (bytes : Bytes) (temp : BlobPath)
  /-- `begin`. -/
  | opening
  /-- A `PendingBlob`: the hashed bytes, and those of them that are not in the file yet. -/
  | pending (temp : BlobPath) (hashed buffered : Bytes)
  /-- A `StagedBlob`, flushed and synced. -/
  | staged (temp : BlobPath) (hashed : Bytes)
  /-- `persist_noclobber`. -/
  | placing (temp : BlobPath) (digest : Digest)
  | lost (temp : BlobPath) (digest : Digest)
  /-- `commit_placement` after a failed move: is the blob there now? -/
  | settling (digest : Digest)
  /-- `discard_stage`: rename the temporary file aside. -/
  | aborting (temp : BlobPath)
  | dropping (temp : BlobPath) (stored : Bool)
  | ended (stored : Bool)

def Writer.IsNew : Writer → Prop
  | .verifying _ _ | .checking _ | .opening => True
  | _ => False

def Writer.IsEnded : Writer → Prop
  | .ended _ => True
  | _ => False

section Steps
variable (sha : Sha256) (root : BlobPath)

inductive WriterStep (id : Nat) (files : Files) : Writer → Files → Writer → Prop
  | mismatch (bytes : Bytes) (expected : Digest) (h : Digest.of sha bytes ≠ expected) :
    WriterStep id files (.verifying bytes expected) files (.ended false)
  | verified (bytes : Bytes) (expected : Digest) (h : Digest.of sha bytes = expected) :
    WriterStep id files (.verifying bytes expected) files (.checking bytes)
  | present (bytes : Bytes) (h : (files (pathFor root (Digest.of sha bytes))).isSome) :
    WriterStep id files (.checking bytes) files (.ended true)
  | absent (bytes : Bytes) (h : files (pathFor root (Digest.of sha bytes)) = none) :
    WriterStep id files (.checking bytes) files (.creating bytes)
  | created (bytes : Bytes) (temp : BlobPath) (hname : IsStage temp) (hnew : files temp = none) :
    WriterStep id files (.creating bytes) (Function.update files temp (some ⟨[], id⟩))
      (.filling bytes temp)
  | filled (bytes : Bytes) (temp : BlobPath) :
    WriterStep id files (.filling bytes temp) (Function.update files temp (some ⟨bytes, id⟩))
      (.syncing bytes temp)
  | cut (bytes moved : Bytes) (temp : BlobPath) (h : moved <+: bytes) :
    WriterStep id files (.filling bytes temp) (Function.update files temp (some ⟨moved, id⟩))
      (.dropping temp false)
  | synced (bytes : Bytes) (temp : BlobPath) :
    WriterStep id files (.syncing bytes temp) files (.placing temp (Digest.of sha bytes))
  | notSynced (bytes : Bytes) (temp : BlobPath) :
    WriterStep id files (.syncing bytes temp) files (.dropping temp false)
  | opened (temp : BlobPath) (hname : IsStage temp) (hnew : files temp = none) :
    WriterStep id files .opening (Function.update files temp (some ⟨[], id⟩)) (.pending temp [] [])
  /-- `write`: the chunk is hashed; the buffer passes on what it does. -/
  | chunk (temp : BlobPath) (file : StoredFile) (hashed buffered chunk moved rest : Bytes)
    (hfile : files temp = some file) (h : buffered ++ chunk = moved ++ rest) :
    WriterStep id files (.pending temp hashed buffered)
      (Function.update files temp (some ⟨file.bytes ++ moved, id⟩))
      (.pending temp (hashed ++ chunk) rest)
  | flushed (temp : BlobPath) (file : StoredFile) (hashed buffered : Bytes)
    (hfile : files temp = some file) :
    WriterStep id files (.pending temp hashed buffered)
      (Function.update files temp (some ⟨file.bytes ++ buffered, id⟩)) (.pending temp hashed [])
  /-- A failed `write`, `flush` or `finish`: its owner drops the `PendingBlob` with the batch. -/
  | failed (temp : BlobPath) (file : StoredFile) (hashed buffered chunk moved : Bytes)
    (hfile : files temp = some file) (h : moved <+: buffered ++ chunk) :
    WriterStep id files (.pending temp hashed buffered)
      (Function.update files temp (some ⟨file.bytes ++ moved, id⟩)) (.dropping temp false)
  | finished (temp : BlobPath) (file : StoredFile) (hashed buffered : Bytes)
    (hfile : files temp = some file) :
    WriterStep id files (.pending temp hashed buffered)
      (Function.update files temp (some ⟨file.bytes ++ buffered, id⟩)) (.staged temp hashed)
  /-- `abort`, or the handle is dropped. -/
  | abandoned (temp : BlobPath) (hashed buffered : Bytes) :
    WriterStep id files (.pending temp hashed buffered) files (.aborting temp)
  /-- `abort`, a dropped handle, or `commit_as` with another digest. -/
  | refused (temp : BlobPath) (hashed : Bytes) :
    WriterStep id files (.staged temp hashed) files (.aborting temp)
  | alreadyStored (temp : BlobPath) (hashed : Bytes)
    (h : (files (pathFor root (Digest.of sha hashed))).isSome) :
    WriterStep id files (.staged temp hashed) files (.dropping temp true)
  | committing (temp : BlobPath) (hashed : Bytes)
    (h : files (pathFor root (Digest.of sha hashed)) = none) :
    WriterStep id files (.staged temp hashed) files (.placing temp (Digest.of sha hashed))
  | noDirectory (temp : BlobPath) (hashed : Bytes) :
    WriterStep id files (.staged temp hashed) files (.dropping temp false)
  | placed (temp : BlobPath) (digest : Digest) (file : StoredFile) (hfile : files temp = some file)
    (h : files (pathFor root digest) = none) :
    WriterStep id files (.placing temp digest)
      (Function.update (Function.update files temp none) (pathFor root digest) (some file))
      (.ended true)
  | notPlaced (temp : BlobPath) (digest : Digest) :
    WriterStep id files (.placing temp digest) files (.lost temp digest)
  | lostRemoved (temp : BlobPath) (digest : Digest) :
    WriterStep id files (.lost temp digest) (Function.update files temp none) (.settling digest)
  | lostKept (temp : BlobPath) (digest : Digest) :
    WriterStep id files (.lost temp digest) files (.settling digest)
  | settled (digest : Digest) :
    WriterStep id files (.settling digest) files (.ended (files (pathFor root digest)).isSome)
  | setAside (temp scratch : BlobPath) (file : StoredFile) (hname : IsStage scratch)
    (hnew : files scratch = none) (hfile : files temp = some file) :
    WriterStep id files (.aborting temp)
      (Function.update (Function.update files temp none) scratch (some file))
      (.dropping scratch false)
  | notSetAside (temp : BlobPath) :
    WriterStep id files (.aborting temp) files (.dropping temp false)
  | removed (temp : BlobPath) (stored : Bool) :
    WriterStep id files (.dropping temp stored) (Function.update files temp none) (.ended stored)
  | notRemoved (temp : BlobPath) (stored : Bool) :
    WriterStep id files (.dropping temp stored) files (.ended stored)
  | stopped (writer : Writer) (h : ¬ writer.IsEnded) :
    WriterStep id files writer files (.ended false)

structure BlobState where
  files : Files
  writers : Nat → Option Writer

inductive BlobStep : BlobState → BlobState → Prop
  | start (state : BlobState) (id : Nat) (writer : Writer) (hid : state.writers id = none)
    (hnew : writer.IsNew) :
    BlobStep state { state with writers := Function.update state.writers id (some writer) }
  | write (state : BlobState) (id : Nat) (writer next : Writer) (files : Files)
    (hid : state.writers id = some writer)
    (hstep : WriterStep sha root id state.files writer files next) :
    BlobStep state ⟨files, Function.update state.writers id (some next)⟩
  /-- `remove`. -/
  | remove (state : BlobState) (digest : Digest) :
    BlobStep state { state with files := Function.update state.files (pathFor root digest) none }

def blobSystem : System BlobState where
  start state := state = ⟨fun _ => none, fun _ => none⟩
  step := BlobStep sha root

end Steps

theorem stage_ne_pathFor (root temp : BlobPath) (h : IsStage temp) (digest : Digest) :
    temp ≠ pathFor root digest := by
  rintro rfl
  obtain ⟨parent, name, hpath, hname⟩ := h
  have hlast : pathFor root digest = (root ++ [.normal (str "sha256"), .normal (digest.hex.take 2),
      .normal ((digest.hex.drop 2).take 2)]) ++ [.normal digest.hex] := by
    simp [pathFor]
  rw [hlast] at hpath
  have hnames := List.append_inj_right' hpath rfl
  cases hnames
  obtain ⟨rest, hrest⟩ := hname
  have hdot : (0x2E : UInt8) ∈ digest.hex := by
    rw [← hrest]
    exact List.mem_append_left _ (by decide)
  exact absurd (digest.isHex 0x2E hdot) (by decide)

section Invariant
variable (sha : Sha256) (root : BlobPath)

def Staged (id : Nat) (files : Files) (temp : BlobPath) (ok : Bytes → Prop) : Prop :=
  IsStage temp ∧ ∃ bytes, files temp = some ⟨bytes, id⟩ ∧ ok bytes

def Writer.Holds (id : Nat) (files : Files) : Writer → Prop
  | .verifying _ _ | .checking _ | .creating _ | .opening | .settling _ | .ended _ => True
  | .filling _ temp | .lost temp _ | .aborting temp | .dropping temp _ =>
    Staged id files temp fun _ => True
  | .syncing bytes temp => Staged id files temp fun found => found = bytes
  | .pending temp hashed buffered => Staged id files temp fun found => found ++ buffered = hashed
  | .staged temp hashed => Staged id files temp fun found => found = hashed
  | .placing temp digest => Staged id files temp fun found => Digest.of sha found = digest

/-- What one call does to a path: nothing, or the path held nothing or a file of this writer,
and holds nothing or one afterwards. -/
def OwnOnly (id : Nat) (files after : Files) : Prop :=
  ∀ path, after path = files path ∨
    (∀ file, files path = some file → file.writer = id) ∧
      ∀ file, after path = some file → file.writer = id

variable {sha root} {id : Nat} {files after : Files} {writer next : Writer}

theorem ownOnly_refl (id : Nat) (files : Files) : OwnOnly id files files := fun _ => .inl rfl

theorem ownOnly_update (temp : BlobPath) (file : Option StoredFile)
    (hbefore : ∀ found, files temp = some found → found.writer = id)
    (hafter : ∀ found, file = some found → found.writer = id) :
    OwnOnly id files (Function.update files temp file) := by
  intro path
  by_cases hpath : path = temp
  · subst hpath
    rw [Function.update_self]
    exact .inr ⟨hbefore, hafter⟩
  · exact .inl (Function.update_of_ne hpath _ _)

theorem OwnOnly.trans {last : Files} (h : OwnOnly id files after) (h' : OwnOnly id after last) :
    OwnOnly id files last := by
  intro path
  rcases h path with heq | ⟨hbefore, hafter⟩
  · rw [← heq]
    exact h' path
  · refine .inr ⟨hbefore, ?_⟩
    rcases h' path with heq' | ⟨-, hlast⟩
    · rw [heq']
      exact hafter
    · exact hlast

theorem Staged.own {temp : BlobPath} {ok : Bytes → Prop} (h : Staged id files temp ok)
    (found : StoredFile) (hfound : files temp = some found) : found.writer = id := by
  obtain ⟨-, bytes, hfile, -⟩ := h
  rw [hfile] at hfound
  cases hfound
  rfl

theorem Staged.write {temp : BlobPath} {ok : Bytes → Prop} (h : Staged id files temp ok)
    (bytes : Bytes) : OwnOnly id files (Function.update files temp (some ⟨bytes, id⟩)) := by
  refine ownOnly_update temp _ h.own fun found hfound => ?_
  cases hfound
  rfl

theorem Staged.clear {temp : BlobPath} {ok : Bytes → Prop} (h : Staged id files temp ok) :
    OwnOnly id files (Function.update files temp none) :=
  ownOnly_update temp none h.own nofun

theorem ownOnly_new (path : BlobPath) (file : StoredFile) (hnew : files path = none)
    (hfile : file.writer = id) : OwnOnly id files (Function.update files path (some file)) := by
  refine ownOnly_update path _ (fun found hfound => ?_) fun found hfound => ?_
  · rw [hnew] at hfound
    cases hfound
  · cases hfound
    exact hfile

theorem update_none_of_none (temp path : BlobPath) (h : files path = none) :
    Function.update files temp none path = none := by
  by_cases hpath : path = temp
  · rw [hpath, Function.update_self]
  · rw [Function.update_of_ne hpath]
    exact h

theorem step_ownOnly (h : WriterStep sha root id files writer after next)
    (hholds : writer.Holds sha id files) : OwnOnly id files after := by
  cases h with
  | mismatch | verified | present | absent | synced | notSynced | abandoned | refused |
    alreadyStored | committing | noDirectory | notPlaced | lostKept | settled | notSetAside |
    notRemoved | stopped => exact ownOnly_refl id files
  | created bytes temp hname hnew => exact ownOnly_new temp _ hnew rfl
  | opened temp hname hnew => exact ownOnly_new temp _ hnew rfl
  | filled bytes temp => exact hholds.write bytes
  | cut bytes moved temp h => exact hholds.write moved
  | chunk temp file hashed buffered chunk moved rest hfile h => exact hholds.write _
  | flushed temp file hashed buffered hfile => exact hholds.write _
  | failed temp file hashed buffered chunk moved hfile h => exact hholds.write _
  | finished temp file hashed buffered hfile => exact hholds.write _
  | lostRemoved temp digest => exact hholds.clear
  | removed temp stored => exact hholds.clear
  | placed temp digest file hfile h =>
    exact hholds.clear.trans (ownOnly_new _ file (update_none_of_none temp _ h) (hholds.own file hfile))
  | setAside temp scratch file hname hnew hfile =>
    exact hholds.clear.trans
      (ownOnly_new scratch file (update_none_of_none temp _ hnew) (hholds.own file hfile))

theorem staged_new (temp : BlobPath) (bytes : Bytes) (hname : IsStage temp) {ok : Bytes → Prop}
    (h : ok bytes) : Staged id (Function.update files temp (some ⟨bytes, id⟩)) temp ok :=
  ⟨hname, bytes, Function.update_self temp _ files, h⟩

theorem Staged.weaken {temp : BlobPath} {ok weak : Bytes → Prop} (h : Staged id files temp ok)
    (hweak : ∀ bytes, ok bytes → weak bytes) : Staged id files temp weak := by
  obtain ⟨hname, bytes, hfile, hok⟩ := h
  exact ⟨hname, bytes, hfile, hweak bytes hok⟩

theorem Staged.bytes {temp : BlobPath} {ok : Bytes → Prop} (h : Staged id files temp ok)
    (file : StoredFile) (hfile : files temp = some file) : file = ⟨file.bytes, id⟩ ∧ ok file.bytes := by
  obtain ⟨-, bytes, hfound, hok⟩ := h
  rw [hfound] at hfile
  cases hfile
  exact ⟨rfl, hok⟩

theorem step_holds (h : WriterStep sha root id files writer after next)
    (hholds : writer.Holds sha id files) : next.Holds sha id after := by
  cases h with
  | mismatch | verified | present | absent | lostRemoved | lostKept | settled | placed | removed |
    notRemoved | stopped => trivial
  | created bytes temp hname hnew => exact staged_new temp [] hname trivial
  | opened temp hname hnew => exact staged_new temp [] hname rfl
  | filled bytes temp => exact staged_new temp bytes hholds.1 rfl
  | cut bytes moved temp h => exact staged_new temp moved hholds.1 trivial
  | synced bytes temp => exact hholds.weaken fun found hfound => congrArg (Digest.of sha) hfound
  | notSynced bytes temp => exact hholds.weaken fun _ _ => trivial
  | chunk temp file hashed buffered chunk moved rest hfile h =>
    obtain ⟨-, hbytes⟩ := Staged.bytes hholds file hfile
    refine staged_new temp _ hholds.1 ?_
    rw [List.append_assoc, ← h, ← List.append_assoc, hbytes]
  | flushed temp file hashed buffered hfile =>
    obtain ⟨-, hbytes⟩ := Staged.bytes hholds file hfile
    refine staged_new temp _ hholds.1 ?_
    rw [List.append_nil, hbytes]
  | failed temp file hashed buffered chunk moved hfile h => exact staged_new temp _ hholds.1 trivial
  | finished temp file hashed buffered hfile =>
    exact staged_new temp _ hholds.1 (Staged.bytes hholds file hfile).2
  | abandoned temp hashed buffered => exact hholds.weaken fun _ _ => trivial
  | refused temp hashed => exact hholds.weaken fun _ _ => trivial
  | alreadyStored temp hashed h => exact hholds.weaken fun _ _ => trivial
  | committing temp hashed h =>
    exact hholds.weaken fun found hfound => congrArg (Digest.of sha) hfound
  | noDirectory temp hashed => exact hholds.weaken fun _ _ => trivial
  | notPlaced temp digest => exact hholds.weaken fun _ _ => trivial
  | setAside temp scratch file hname hnew hfile =>
    obtain ⟨hfound, -⟩ := Staged.bytes hholds file hfile
    rw [hfound]
    exact staged_new scratch file.bytes hname trivial
  | notSetAside temp => exact hholds

theorem step_stored (h : WriterStep sha root id files writer after next)
    (hholds : writer.Holds sha id files) (digest : Digest) :
    after (pathFor root digest) = files (pathFor root digest) ∨
      next = .ended true ∧ ∃ bytes, after (pathFor root digest) = some ⟨bytes, id⟩ ∧
        Digest.of sha bytes = digest := by
  have hkeep : ∀ (temp : BlobPath) (file : Option StoredFile), IsStage temp →
      Function.update files temp file (pathFor root digest) = files (pathFor root digest) :=
    fun temp file hname => Function.update_of_ne (stage_ne_pathFor root temp hname digest).symm _ _
  cases h with
  | mismatch | verified | present | absent | synced | notSynced | abandoned | refused |
    alreadyStored | committing | noDirectory | notPlaced | lostKept | settled | notSetAside |
    notRemoved | stopped => exact .inl rfl
  | created bytes temp hname hnew => exact .inl (hkeep temp _ hname)
  | opened temp hname hnew => exact .inl (hkeep temp _ hname)
  | filled | cut | chunk | flushed | failed | finished | lostRemoved | removed =>
    exact .inl (hkeep _ _ hholds.1)
  | placed temp target file hfile h =>
    obtain ⟨hfound, hdigest⟩ := Staged.bytes hholds file hfile
    by_cases htarget : target = digest
    · subst htarget
      refine .inr ⟨rfl, file.bytes, ?_, hdigest⟩
      rw [Function.update_self, hfound]
    · have hne : pathFor root digest ≠ pathFor root target := by
        intro heq
        have hread := congrArg (digestFromPath root) heq
        rw [digestFromPath_pathFor, digestFromPath_pathFor] at hread
        exact htarget (Option.some.inj hread).symm
      rw [Function.update_of_ne hne]
      exact .inl (hkeep temp none hholds.1)
  | setAside temp scratch file hname hnew hfile =>
    rw [Function.update_of_ne (stage_ne_pathFor root scratch hname digest).symm]
    exact .inl (hkeep temp none hholds.1)

theorem Staged.frame {other : Nat} {temp : BlobPath} {ok : Bytes → Prop}
    (h : Staged other files temp ok) (hown : OwnOnly id files after) (hne : other ≠ id) :
    Staged other after temp ok := by
  obtain ⟨hname, bytes, hfile, hok⟩ := h
  refine ⟨hname, bytes, ?_, hok⟩
  rcases hown temp with heq | ⟨hbefore, -⟩
  · rw [heq]
    exact hfile
  · exact absurd (hbefore _ hfile) hne

theorem holds_frame {other : Nat} {writer : Writer} (h : writer.Holds sha other files)
    (hown : OwnOnly id files after) (hne : other ≠ id) : writer.Holds sha other after := by
  cases writer with
  | verifying | checking | creating | opening | settling | ended => trivial
  | filling | lost | aborting | dropping | syncing | pending | staged | placing =>
    exact Staged.frame h hown hne

theorem holds_remove {other : Nat} {writer : Writer} (h : writer.Holds sha other files)
    (digest : Digest) :
    writer.Holds sha other (Function.update files (pathFor root digest) none) := by
  have hstaged : ∀ (temp : BlobPath) (ok : Bytes → Prop), Staged other files temp ok →
      Staged other (Function.update files (pathFor root digest) none) temp ok := by
    rintro temp ok ⟨hname, bytes, hfile, hok⟩
    refine ⟨hname, bytes, ?_, hok⟩
    rw [Function.update_of_ne (stage_ne_pathFor root temp hname digest)]
    exact hfile
  cases writer with
  | verifying | checking | creating | opening | settling | ended => trivial
  | filling | lost | aborting | dropping | syncing | pending | staged | placing =>
    exact hstaged _ _ h

theorem new_holds (h : writer.IsNew) : writer.Holds sha id files := by
  cases writer with
  | verifying | checking | opening => trivial
  | creating | filling | syncing | pending | staged | placing | lost | settling | aborting |
    dropping | ended => exact False.elim h

theorem ended_no_step (stored : Bool) (h : WriterStep sha root id files (.ended stored) after next) :
    False := by
  cases h with
  | stopped _ hended => exact hended trivial

variable (sha root) in
structure BlobState.Sound (state : BlobState) : Prop where
  stored : ∀ digest file, state.files (pathFor root digest) = some file →
    Digest.of sha file.bytes = digest ∧ state.writers file.writer = some (.ended true)
  held : ∀ id writer, state.writers id = some writer → writer.Holds sha id state.files
  known : ∀ path file, state.files path = some file → state.writers file.writer ≠ none

theorem start_sound {state : BlobState} (h : state.Sound sha root) (hid : state.writers id = none)
    (hnew : writer.IsNew) :
    BlobState.Sound sha root { state with writers := Function.update state.writers id (some writer) } := by
  refine ⟨fun digest file hfile => ?_, fun other found hfound => ?_, fun path file hfile => ?_⟩
  · obtain ⟨hdigest, hended⟩ := h.stored digest file hfile
    refine ⟨hdigest, ?_⟩
    have hne : file.writer ≠ id := by
      rintro heq
      rw [heq, hid] at hended
      cases hended
    exact (Function.update_of_ne hne _ _).trans hended
  · by_cases hother : other = id
    · subst hother
      have hfound' : Function.update state.writers other (some writer) other = some found := hfound
      rw [Function.update_self] at hfound'
      cases hfound'
      exact new_holds hnew
    · refine h.held other found ?_
      exact (Function.update_of_ne hother _ _).symm.trans hfound
  · have hknown := h.known path file hfile
    show Function.update state.writers id (some writer) file.writer ≠ none
    by_cases hne : file.writer = id
    · rw [hne, Function.update_self]
      exact Option.some_ne_none writer
    · rw [Function.update_of_ne hne]
      exact hknown

theorem write_sound {state : BlobState} (h : state.Sound sha root)
    (hid : state.writers id = some writer)
    (hstep : WriterStep sha root id state.files writer after next) :
    BlobState.Sound sha root ⟨after, Function.update state.writers id (some next)⟩ := by
  have hholds := h.held id writer hid
  have hown := step_ownOnly hstep hholds
  refine ⟨fun digest file hfile => ?_, fun other found hfound => ?_, fun path file hfile => ?_⟩
  · rcases step_stored hstep hholds digest with heq | ⟨hnext, bytes, hplaced, hdigest⟩
    · obtain ⟨hdigest, hended⟩ := h.stored digest file (heq.symm.trans hfile)
      refine ⟨hdigest, ?_⟩
      have hne : file.writer ≠ id := by
        intro heq'
        rw [heq', hid] at hended
        cases hended
        exact ended_no_step true hstep
      exact (Function.update_of_ne hne _ _).trans hended
    · have hfound : file = ⟨bytes, id⟩ := Option.some.inj (hfile.symm.trans hplaced)
      rw [hfound, ← hnext]
      exact ⟨hdigest, Function.update_self id _ _⟩
  · by_cases hother : other = id
    · subst hother
      have hfound' : Function.update state.writers other (some next) other = some found := hfound
      rw [Function.update_self] at hfound'
      cases hfound'
      exact step_holds hstep hholds
    · refine holds_frame (h.held other found ?_) hown hother
      exact (Function.update_of_ne hother _ _).symm.trans hfound
  · show Function.update state.writers id (some next) file.writer ≠ none
    by_cases hne : file.writer = id
    · rw [hne, Function.update_self]
      exact Option.some_ne_none next
    · rw [Function.update_of_ne hne]
      rcases hown path with heq | ⟨-, hafter⟩
      · exact h.known path file (heq.symm.trans hfile)
      · exact absurd (hafter file hfile) hne

theorem remove_sound {state : BlobState} (h : state.Sound sha root) (digest : Digest) :
    BlobState.Sound sha root
      { state with files := Function.update state.files (pathFor root digest) none } := by
  have hback : ∀ path file, Function.update state.files (pathFor root digest) none path = some file →
      state.files path = some file := by
    intro path file hfile
    by_cases hpath : path = pathFor root digest
    · rw [hpath, Function.update_self] at hfile
      cases hfile
    · rw [Function.update_of_ne hpath] at hfile
      exact hfile
  exact ⟨fun other file hfile => h.stored other file (hback _ _ hfile),
    fun other found hfound => holds_remove (h.held other found hfound) digest,
    fun path file hfile => h.known path file (hback _ _ hfile)⟩

theorem reachable_sound (state : BlobState) (h : (blobSystem sha root).Reachable state) :
    state.Sound sha root := by
  refine System.invariant (blobSystem sha root) (BlobState.Sound sha root) ?_ ?_ state h
  · rintro state rfl
    exact ⟨nofun, nofun, nofun⟩
  · intro state after _ hsound hstep
    cases hstep with
    | start id writer hid hnew => exact start_sound hsound hid hnew
    | write id writer next files hid hstep => exact write_sound hsound hid hstep
    | remove digest => exact remove_sound hsound digest

variable (sha root) in
/-- In every run each file under a digest hashes to it and comes from a write that succeeded,
and digests are read from exactly the paths of blobs. -/
theorem stored_blobs_verified (state : BlobState) (h : (blobSystem sha root).Reachable state) :
    (∀ digest file, state.files (pathFor root digest) = some file →
      Digest.of sha file.bytes = digest) ∧
    (∀ id, state.writers id = some (.ended false) → ∀ digest file,
      state.files (pathFor root digest) = some file → file.writer ≠ id) ∧
    ∀ path digest, digestFromPath root path = some digest ↔ path = pathFor root digest := by
  have hsound := reachable_sound state h
  refine ⟨fun digest file hfile => (hsound.stored digest file hfile).1, ?_, digestFromPath_eq_some root⟩
  rintro id hid digest file hfile rfl
  have hended := (hsound.stored digest file hfile).2
  rw [hid] at hended
  cases hended

variable (root) in
def BlobState.blobs (state : BlobState) (digest : Digest) : Option Bytes :=
  (state.files (pathFor root digest)).map (·.bytes)

end Invariant

namespace BlobSample

def wheel : Bytes := str "wheel"

/-- The hash of `wheel`, and nothing to tell other texts apart. -/
def sha : Sha256 where
  hash bytes := if bytes = wheel then [0xBA, 0x59, 0x92, 0x61, 0x59, 0xD2, 0xAA, 0x25, 0x6E, 0xB8,
      0x73, 0x9B, 0x8D, 0xA7, 0xE2, 0xB5, 0x74, 0xB9, 0x60, 0xE1, 0x20, 0x2C, 0x6D, 0x62, 0x4C, 0xBE,
      0x98, 0x1C, 0xEF, 0x99, 0x6C, 0x91]
    else List.replicate 32 0
  length bytes := by split <;> rfl

def root : BlobPath := [.rootDir, .normal (str "blobs")]

def digest : Digest := Digest.of sha wheel

def temp : BlobPath := root ++ [.normal (str "sha256"), .normal (str "ba"), .normal (str "59"),
  .normal (str ".tmpQ3x9Za")]

theorem temp_isStage : IsStage temp :=
  ⟨root ++ [.normal (str "sha256"), .normal (str "ba"), .normal (str "59")], str ".tmpQ3x9Za", by
    simp [temp], by decide⟩

theorem next_call {files after : Files} {writers : Nat → Option Writer} {writer next : Writer}
    (h : (blobSystem sha root).Reachable ⟨files, Function.update writers 0 (some writer)⟩)
    (hstep : WriterStep sha root 0 files writer after next) :
    (blobSystem sha root).Reachable ⟨after, Function.update writers 0 (some next)⟩ := by
  have hid : Function.update writers 0 (some writer) 0 = some writer := Function.update_self _ _ _
  have hwrite := h.step _ _ (.write _ 0 writer next after hid hstep)
  rw [Function.update_idem] at hwrite
  exact hwrite

theorem written : ∃ state, (blobSystem sha root).Reachable state ∧
    state.files (pathFor root digest) = some ⟨wheel, 0⟩ := by
  have hempty : (blobSystem sha root).Reachable ⟨fun _ => none, fun _ => none⟩ := .start _ rfl
  have hstart := hempty.step _ _ (.start _ 0 (.verifying wheel digest) rfl trivial)
  have hverified := next_call hstart (.verified wheel digest rfl)
  have habsent := next_call hverified (.absent wheel rfl)
  have hcreated := next_call habsent (.created wheel temp temp_isStage rfl)
  have hfilled := next_call hcreated (.filled wheel temp)
  have hsynced := next_call hfilled (.synced wheel temp)
  have hfile : pathFor root digest ≠ temp := (stage_ne_pathFor root temp temp_isStage digest).symm
  have hplaced := next_call hsynced (.placed temp digest ⟨wheel, 0⟩ (Function.update_self _ _ _) (by
    rw [Function.update_of_ne hfile, Function.update_of_ne hfile]))
  refine ⟨_, hplaced, ?_⟩
  dsimp only
  rw [Function.update_self]

end BlobSample

open BlobSample in
/-- The wheel is found under its digest, and its path reads back. -/
theorem wheel_stored : ∃ state, (blobSystem sha root).Reachable state ∧
    state.files (pathFor root digest) = some ⟨wheel, 0⟩ ∧ Digest.of sha wheel = digest ∧
    digestFromPath root (pathFor root digest) = some digest := by
  obtain ⟨state, hreach, hfile⟩ := written
  obtain ⟨hstored, -, hpaths⟩ := stored_blobs_verified sha root state hreach
  exact ⟨state, hreach, hfile, hstored digest _ hfile, (hpaths _ _).mpr rfl⟩

end Peryx.Storage
