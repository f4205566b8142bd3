import Peryx.Oci.UploadLaws
import Peryx.Storage.StagedWriter

/-! # Sessions that are put back (registry/uploads.rs:92-130,170-231,271-296) -/

namespace Peryx.Oci
open Storage

/-- The parts of an `UploadSession` that a body goes to. -/
structure StagedSession where
  pending : FilesystemWrite
  offset : Nat

/-- A session as `start_upload` opens it. -/
def StagedSession.opened : StagedSession := ⟨.begin, 0⟩

inductive UploadBodyError where
  | transport (message : Str)
  | blob (message : Str)
  | denied (denial : PolicyDenial)
  | panicked

inductive SessionOutcome where
  | back (entry : StagedSession) (reply : UploadReply)
  | broken (entry : StagedSession) (message : Str)
  | failed (entry : StagedSession) (message : Str)
  | gone (reply : UploadReply)
  | panicked

inductive SessionCall where
  | patch (start : ChunkStart) (body : List (Except Str Bytes))
  | finish (start : ChunkStart) (body : List (Except Str Bytes)) (digest : Option Str)
  | cancel

section Requests
variable (sha256 : Bytes → Str) (file : FileCalls) (target : UploadTarget) (name session : Str)

def appendBody (entry : StagedSession) :
    List (Except Str Bytes) → Except UploadBodyError Unit × StagedSession
  | [] => (.ok (), entry)
  | .error message :: _ => (.error (.transport message), entry)
  | .ok chunk :: rest =>
    let size := entry.offset + chunk.length
    if overLimit target.index size then
      match policySizeDenial target size with
      | some denial => (.error (.denied denial), entry)
      | none => (.error .panicked, entry)
    else
      match entry.pending.writeChunk file chunk with
      | (.error (.io message), pending) => (.error (.blob message), ⟨pending, entry.offset⟩)
      | (.error .panicked, pending) => (.error .panicked, ⟨pending, entry.offset⟩)
      | (.ok (), pending) => appendBody ⟨pending, size⟩ rest

def appendOrRestore (entry : StagedSession) (body : List (Except Str Bytes))
    (next : StagedSession → SessionOutcome) : SessionOutcome :=
  match appendBody file target entry body with
  | (.ok (), entry) => next entry
  | (.error (.transport message), entry) => .broken entry message
  | (.error (.blob message), entry) => .failed entry message
  | (.error (.denied denial), _) => .gone (.denied denial)
  | (.error .panicked, _) => .panicked

def commitStaged (entry : StagedSession) (digest : Str) : SessionOutcome :=
  match blobDigest digest with
  | none => .gone digestUnsupported
  | some storage =>
    match entry.pending.finish file with
    | .error .panicked => .panicked
    | .error (.io _) => .gone .fault
    | .ok staged =>
      if sha256 staged = storage then .gone (blobCreated name digest)
      else .gone (digestMismatch storage (sha256 staged))

def patchUpload (entry : StagedSession) (start : ChunkStart) (body : List (Except Str Bytes)) :
    SessionOutcome :=
  if start.continuesAt entry.offset then
    appendOrRestore file target entry body fun entry =>
      .back entry (.progress .uploadAccepted name session entry.offset)
  else .back entry (.progress .rangeNotSatisfiable name session entry.offset)

def finishUpload (entry : StagedSession) (start : ChunkStart) (body : List (Except Str Bytes))
    (digest : Option Str) : SessionOutcome :=
  if start.continuesAt entry.offset then
    appendOrRestore file target entry body fun entry =>
      match digest with
      | none => .back entry (.reply digestRequired)
      | some digest => commitStaged sha256 file name entry digest
  else .back entry (.progress .rangeNotSatisfiable name session entry.offset)

def cancelUpload (entry : StagedSession) : SessionOutcome :=
  match entry.pending.abort file with
  | .error .panicked => .panicked
  | .error (.io _) => .gone .fault
  | .ok () => .gone .noContent

def SessionCall.act (entry : StagedSession) : SessionCall → SessionOutcome
  | .patch start body => patchUpload file target name session entry start body
  | .finish start body digest =>
    finishUpload sha256 file target name session entry start body digest
  | .cancel => cancelUpload file entry

def SessionOutcome.entry : SessionOutcome → Option StagedSession
  | .back entry _ | .broken entry _ | .failed entry _ => some entry
  | .gone _ | .panicked => none

def StagedSession.after (entry : StagedSession) : List SessionCall → Option StagedSession
  | [] => some entry
  | call :: calls =>
    (call.act sha256 file target name session entry).entry.bind fun entry => entry.after calls

inductive BodyEnd where
  | whole
  | broken (message : Str)
  | denied
  | full
  deriving DecidableEq

def bodyEnd (queued offset : Nat) : List (Except Str Bytes) → BodyEnd
  | [] => .whole
  | .error message :: _ => .broken message
  | .ok chunk :: rest =>
    if overLimit target.index (offset + chunk.length) then .denied
    else if chunk ≠ [] ∧ writeBatchBytes ≤ queued + chunk.length then .full
    else bodyEnd (queued + chunk.length) (offset + chunk.length) rest

def SessionCall.NeedsStage (entry : StagedSession) : SessionCall → Prop
  | .patch start body => start.continuesAt entry.offset = true ∧
      bodyEnd target entry.pending.queuedBytes entry.offset body = .full
  | .finish start body digest => start.continuesAt entry.offset = true ∧
      (bodyEnd target entry.pending.queuedBytes entry.offset body = .full ∨
        bodyEnd target entry.pending.queuedBytes entry.offset body = .whole ∧
          (digest.bind blobDigest).isSome)
  | .cancel => True

theorem policySizeDenial_some (size : Nat) (h : overLimit target.index size = true) :
    ∃ denial, policySizeDenial target size = some denial := by
  unfold policySizeDenial Policy.checkSize
  unfold overLimit at h
  cases hproject : target.index.policy.checkProject .upload target.repo with
  | error denial => exact ⟨denial, rfl⟩
  | ok u =>
    cases hlimit : target.index.policy.maxFileSizeBytes with
    | none =>
      rw [hlimit] at h
      cases h
    | some limit =>
      rw [hlimit] at h
      have hless : limit < size := of_decide_eq_true h
      simp only [bind, Except.bind, if_pos hless]
      exact ⟨_, rfl⟩

theorem appendBody_keeps (entry : StagedSession) (body : List (Except Str Bytes))
    (h : entry.pending.Keeps) :
    (∃ next, appendBody file target entry body = (.ok (), next) ∧ next.pending.Keeps) ∨
    (∃ message next, appendBody file target entry body = (.error (.transport message), next) ∧
      next.pending.Keeps) ∨
    (∃ message next, appendBody file target entry body = (.error (.blob message), next) ∧
      next.pending.Lost) ∨
    ∃ denial next, appendBody file target entry body = (.error (.denied denial), next) := by
  induction body generalizing entry with
  | nil => exact .inl ⟨entry, rfl, h⟩
  | cons chunk rest ih =>
    cases chunk with
    | error message => exact .inr (.inl ⟨message, entry, rfl, h⟩)
    | ok chunk =>
      rw [appendBody]
      cases hlimit : overLimit target.index (entry.offset + chunk.length) with
      | true =>
        obtain ⟨denial, hdenial⟩ := policySizeDenial_some target _ hlimit
        rw [if_pos rfl, hdenial]
        exact .inr (.inr (.inr ⟨denial, entry, rfl⟩))
      | false =>
        rw [if_neg (by decide)]
        rcases (Feed.write chunk).act_keeps file entry.pending h with ⟨hok, hnext⟩ |
          ⟨message, herror, hlost⟩
        · have hwrite : entry.pending.writeChunk file chunk =
              (.ok (), ((Feed.write chunk).act file entry.pending).2) := Prod.ext hok rfl
          rw [hwrite]
          exact ih _ hnext
        · have hwrite : entry.pending.writeChunk file chunk =
              (.error (.io message), ((Feed.write chunk).act file entry.pending).2) :=
            Prod.ext herror rfl
          rw [hwrite]
          exact .inr (.inr (.inl ⟨message, _, rfl, hlost⟩))

theorem appendBody_lost (entry : StagedSession) (body : List (Except Str Bytes))
    (h : entry.pending.Lost) :
    match bodyEnd target entry.pending.queuedBytes entry.offset body with
    | .whole => ∃ next, appendBody file target entry body = (.ok (), next) ∧ next.pending.Lost
    | .broken message => ∃ next,
        appendBody file target entry body = (.error (.transport message), next) ∧ next.pending.Lost
    | .denied => ∃ denial next, appendBody file target entry body = (.error (.denied denial), next)
    | .full => ∃ next, appendBody file target entry body = (.error .panicked, next) := by
  induction body generalizing entry with
  | nil => exact ⟨entry, rfl, h⟩
  | cons chunk rest ih =>
    cases chunk with
    | error message => exact ⟨entry, rfl, h⟩
    | ok chunk =>
      rw [appendBody, bodyEnd]
      cases hlimit : overLimit target.index (entry.offset + chunk.length) with
      | true =>
        obtain ⟨denial, hdenial⟩ := policySizeDenial_some target _ hlimit
        rw [if_pos rfl, if_pos rfl, hdenial]
        exact ⟨denial, entry, rfl⟩
      | false =>
        simp only [Bool.false_eq_true, if_false]
        by_cases hfull : chunk ≠ [] ∧ writeBatchBytes ≤ entry.pending.queuedBytes + chunk.length
        · rw [if_pos hfull, writeChunk_full file entry.pending chunk h hfull.1 hfull.2]
          exact ⟨_, rfl⟩
        · have hidle : (Feed.write chunk).Idle entry.pending := by
            by_cases hempty : chunk = []
            · exact .inl hempty
            · exact .inr (Nat.not_le.mp fun hless => hfull ⟨hempty, hless⟩)
          obtain ⟨next, hwrite, hlost, hqueued⟩ := writeChunk_idle file entry.pending chunk h hidle
          rw [if_neg hfull, hwrite, ← hqueued]
          exact ih ⟨next, entry.offset + chunk.length⟩ hlost

def SessionOutcome.Kept : SessionOutcome → Prop
  | .back entry _ | .broken entry _ => entry.pending.Keeps
  | .failed entry _ => entry.pending.Lost
  | .gone _ => True
  | .panicked => False

def SessionOutcome.StillLost : SessionOutcome → Prop
  | .back entry _ | .broken entry _ => entry.pending.Lost
  | .failed _ _ => False
  | .gone _ | .panicked => True

theorem appendOrRestore_keeps (entry : StagedSession) (body : List (Except Str Bytes))
    (next : StagedSession → SessionOutcome) (h : entry.pending.Keeps)
    (hnext : ∀ after : StagedSession, after.pending.Keeps → (next after).Kept) :
    (appendOrRestore file target entry body next).Kept := by
  unfold appendOrRestore
  rcases appendBody_keeps file target entry body h with
    ⟨after, happend, hkeeps⟩ | ⟨message, after, happend, hkeeps⟩ |
    ⟨message, after, happend, hlost⟩ | ⟨denial, after, happend⟩
  · rw [happend]
    exact hnext after hkeeps
  · rw [happend]
    exact hkeeps
  · rw [happend]
    exact hlost
  · rw [happend]
    trivial

theorem commitStaged_keeps (entry : StagedSession) (digest : Str) (h : entry.pending.Keeps) :
    (commitStaged sha256 file name entry digest).Kept := by
  unfold commitStaged
  cases blobDigest digest with
  | none => trivial
  | some storage =>
    dsimp only
    have hfinish := Closing.finish.act_keeps file entry.pending h
    cases hstaged : entry.pending.finish file with
    | ok staged =>
      dsimp only
      split
      · trivial
      · trivial
    | error fault =>
      cases fault with
      | io message => trivial
      | panicked =>
        simp only [Closing.act, hstaged] at hfinish
        exact absurd rfl hfinish

theorem SessionCall.act_keeps (entry : StagedSession) (call : SessionCall)
    (h : entry.pending.Keeps) : (call.act sha256 file target name session entry).Kept := by
  cases call with
  | patch start body =>
    show (patchUpload file target name session entry start body).Kept
    unfold patchUpload
    split
    · exact appendOrRestore_keeps file target entry body _ h fun after hkeeps => hkeeps
    · exact h
  | finish start body digest =>
    show (finishUpload sha256 file target name session entry start body digest).Kept
    unfold finishUpload
    split
    · refine appendOrRestore_keeps file target entry body _ h fun after hkeeps => ?_
      cases digest with
      | none => exact hkeeps
      | some digest => exact commitStaged_keeps sha256 file name after digest hkeeps
    · exact h
  | cancel =>
    show (cancelUpload file entry).Kept
    have habort := Closing.abort.act_keeps file entry.pending h
    unfold cancelUpload
    cases hresult : entry.pending.abort file with
    | ok u => trivial
    | error fault =>
      cases fault with
      | io message => trivial
      | panicked => exact absurd hresult habort

theorem appendOrRestore_lost (entry : StagedSession) (body : List (Except Str Bytes))
    (next : StagedSession → SessionOutcome) (h : entry.pending.Lost) (needs : Prop)
    (hnext : ∀ after : StagedSession, after.pending.Lost →
      (next after).StillLost ∧ (next after = .panicked ↔ needs)) :
    (appendOrRestore file target entry body next).StillLost ∧
      (appendOrRestore file target entry body next = .panicked ↔
        bodyEnd target entry.pending.queuedBytes entry.offset body = .full ∨
          bodyEnd target entry.pending.queuedBytes entry.offset body = .whole ∧ needs) := by
  have hend := appendBody_lost file target entry body h
  unfold appendOrRestore
  cases hbody : bodyEnd target entry.pending.queuedBytes entry.offset body with
  | whole =>
    rw [hbody] at hend
    obtain ⟨after, happend, hlost⟩ := hend
    rw [happend]
    refine ⟨(hnext after hlost).1, (hnext after hlost).2.trans ?_⟩
    exact ⟨fun hneeds => .inr ⟨rfl, hneeds⟩, fun hor => hor.elim nofun fun hboth => hboth.2⟩
  | broken message =>
    rw [hbody] at hend
    obtain ⟨after, happend, hlost⟩ := hend
    rw [happend]
    exact ⟨hlost, nofun, fun hor => hor.elim nofun fun hboth => nomatch hboth.1⟩
  | denied =>
    rw [hbody] at hend
    obtain ⟨denial, after, happend⟩ := hend
    rw [happend]
    exact ⟨trivial, nofun, fun hor => hor.elim nofun fun hboth => nomatch hboth.1⟩
  | full =>
    rw [hbody] at hend
    obtain ⟨after, happend⟩ := hend
    rw [happend]
    exact ⟨trivial, fun _ => .inl rfl, fun _ => rfl⟩

theorem commitStaged_lost (entry : StagedSession) (digest : Str) (h : entry.pending.Lost) :
    (commitStaged sha256 file name entry digest).StillLost ∧
      (commitStaged sha256 file name entry digest = .panicked ↔ (blobDigest digest).isSome) := by
  unfold commitStaged
  cases blobDigest digest with
  | none => exact ⟨trivial, nofun, nofun⟩
  | some storage =>
    rw [entry.pending.finish_lost file h]
    exact ⟨trivial, fun _ => rfl, fun _ => rfl⟩

theorem SessionCall.act_lost (entry : StagedSession) (call : SessionCall)
    (h : entry.pending.Lost) :
    (call.act sha256 file target name session entry).StillLost ∧
      (call.act sha256 file target name session entry = .panicked ↔
        call.NeedsStage target entry) := by
  cases call with
  | patch start body =>
    show (patchUpload file target name session entry start body).StillLost ∧
      (patchUpload file target name session entry start body = .panicked ↔ _)
    unfold patchUpload NeedsStage
    cases hstart : start.continuesAt entry.offset with
    | false => exact ⟨h, nofun, fun hneeds => absurd (hstart.symm.trans hneeds.1) (by decide)⟩
    | true =>
      have hbody := appendOrRestore_lost file target entry body
        (fun entry => .back entry (.progress .uploadAccepted name session entry.offset)) h False
        fun after hlost => ⟨hlost, nofun, False.elim⟩
      refine ⟨hbody.1, hbody.2.trans ?_⟩
      simp only [hstart, and_false, or_false, true_and]
  | finish start body digest =>
    show (finishUpload sha256 file target name session entry start body digest).StillLost ∧
      (finishUpload sha256 file target name session entry start body digest = .panicked ↔ _)
    unfold finishUpload NeedsStage
    cases hstart : start.continuesAt entry.offset with
    | false => exact ⟨h, nofun, fun hneeds => absurd (hstart.symm.trans hneeds.1) (by decide)⟩
    | true =>
      have hbody := appendOrRestore_lost file target entry body
        (fun entry => match digest with
          | none => .back entry (.reply digestRequired)
          | some digest => commitStaged sha256 file name entry digest) h
        ((digest.bind blobDigest).isSome) fun after hlost => by
          cases digest with
          | none => exact ⟨hlost, nofun, nofun⟩
          | some digest => exact commitStaged_lost sha256 file name after digest hlost
      refine ⟨hbody.1, hbody.2.trans ?_⟩
      simp only [hstart, true_and]
  | cancel =>
    have habort : entry.pending.abort file = .error .panicked :=
      Closing.abort.act_lost file entry.pending h
    show (cancelUpload file entry).StillLost ∧ (cancelUpload file entry = .panicked ↔ True)
    unfold cancelUpload
    rw [habort]
    exact ⟨trivial, fun _ => trivial, fun _ => rfl⟩

end Requests

end Peryx.Oci
