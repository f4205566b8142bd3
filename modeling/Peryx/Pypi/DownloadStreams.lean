import Peryx.Pypi.Downloads
import Peryx.Storage.BlobWrites

/-! # What the clients of a shared download are given -/

namespace Peryx.Pypi

open Storage

section Transfers
variable (sha : Sha256)

def Transfer.Verified (transfer : Transfer) : Prop :=
  Digest.of sha transfer.received = transfer.digest ∧
    transfer.progress.flushed = transfer.received.length ∧
    ∃ bytes, transfer.committed = some bytes ∧ Digest.of sha bytes = transfer.digest

def Transfer.Pumped (transfer : Transfer) : Prop :=
  match transfer.pump with
  | .draining _ | .flushing _ | .aborting _ | .finished => True
  | .publishing flushed _ =>
    flushed = transfer.received.length ∧ transfer.file = transfer.received
  | .committing =>
    transfer.file = transfer.received ∧ transfer.progress.flushed = transfer.received.length
  | .removing outcome | .telling outcome => outcome = .ok () → transfer.Verified sha

structure Transfer.Sound (transfer : Transfer) : Prop where
  written : transfer.file <+: transfer.received
  flushed : transfer.progress.flushed ≤ transfer.file.length
  pumped : transfer.Pumped sha
  done : ∀ outcome, transfer.progress.done = some outcome →
    transfer.pump = .finished ∧ (outcome = .ok () → transfer.Verified sha)

structure Transfer.Extends (transfer next : Transfer) : Prop where
  digest : next.digest = transfer.digest
  received : transfer.received <+: next.received
  file : transfer.file <+: next.file
  flushed : transfer.progress.flushed ≤ next.progress.flushed
  settled : ∀ outcome, transfer.progress.done = some outcome →
    next.progress = transfer.progress ∧ next.received = transfer.received ∧
      next.committed = transfer.committed

def VerifiedBlobs (blobs : Blobs) : Prop :=
  ∀ digest bytes, blobs digest = some bytes → Digest.of sha bytes = digest

variable {sha} {transfer next : Transfer} {blobs after : Blobs}

theorem VerifiedBlobs.store (h : VerifiedBlobs sha blobs) (digest : Digest) (bytes : Bytes)
    (hdigest : Digest.of sha bytes = digest) :
    VerifiedBlobs sha (Function.update blobs digest (some bytes)) := by
  intro other found hfound
  by_cases hother : other = digest
  · subst hother
    rw [Function.update_self] at hfound
    cases hfound
    exact hdigest
  · rw [Function.update_of_ne hother] at hfound
    exact h other found hfound

theorem VerifiedBlobs.remove (h : VerifiedBlobs sha blobs) (digest : Digest) :
    VerifiedBlobs sha (Function.update blobs digest none) := by
  intro other found hfound
  by_cases hother : other = digest
  · rw [hother, Function.update_self] at hfound
    cases hfound
  · rw [Function.update_of_ne hother] at hfound
    exact h other found hfound

theorem Transfer.Extends.refl (transfer : Transfer) : transfer.Extends transfer :=
  ⟨rfl, List.prefix_rfl, List.prefix_rfl, Nat.le_refl _, fun _ _ => ⟨rfl, rfl, rfl⟩⟩

theorem started_sound (digest : Digest) (tailed : Bool) :
    (Transfer.started digest tailed).Sound sha :=
  ⟨List.prefix_rfl, Nat.zero_le _, trivial, nofun⟩

theorem PumpStep.running (h : PumpStep sha transfer blobs next after) (hsound : transfer.Sound sha) :
    transfer.progress.done = none := by
  rcases hdone : transfer.progress.done with - | outcome
  · rfl
  · obtain ⟨hpump, -⟩ := hsound.done outcome hdone
    cases h with
    | dropped hwaiting =>
      rw [hpump] at hwaiting
      exact False.elim hwaiting
    | broken chunk file error hplace =>
      rcases hplace with ⟨_, hplace⟩ | ⟨_, hplace⟩ <;> rw [hpump] at hplace <;> cases hplace
    | chunk _ _ _ hplace
    | drained _ hplace
    | flushed _ hplace
    | published _ _ hplace
    | notCommitted _ hplace
    | alreadyStored _ hplace
    | placed hplace
    | aborted _ _ hplace
    | told _ hplace =>
      rw [hpump] at hplace
      cases hplace

theorem Transfer.Sound.pumpedAt (h : transfer.Sound sha) {pump : Pump}
    (hpump : transfer.pump = pump) : { transfer with pump := pump }.Pumped sha := by
  rw [← hpump]
  exact h.pumped

theorem PumpStep.sound (h : PumpStep sha transfer blobs next after) (hsound : transfer.Sound sha)
    (hblobs : VerifiedBlobs sha blobs) :
    next.Sound sha ∧ transfer.Extends next ∧ VerifiedBlobs sha after := by
  have hrunning := h.running hsound
  have hsettled : ∀ outcome, transfer.progress.done = some outcome →
      next.progress = transfer.progress ∧ next.received = transfer.received ∧
        next.committed = transfer.committed := by
    intro outcome hdone
    rw [hrunning] at hdone
    cases hdone
  have hnone : ∀ (after : Transfer) outcome, transfer.progress.done = some outcome →
      after.pump = .finished ∧ (outcome = .ok () → after.Verified sha) := by
    intro after outcome hdone
    rw [hrunning] at hdone
    cases hdone
  cases h with
  | chunk flushed chunk file hpump hgrown hfile =>
    have hreceived := List.prefix_append transfer.received chunk
    refine ⟨⟨hfile, hsound.flushed.trans hgrown.length_le, ?_, hnone _⟩,
      ⟨rfl, hreceived, hgrown, Nat.le_refl _, hsettled⟩, hblobs⟩
    unfold Transfer.Pumped
    dsimp only
    by_cases hflush : flushEvery ≤ (transfer.received ++ chunk).length - flushed
    · rw [if_pos hflush]
      trivial
    · rw [if_neg hflush]
      trivial
  | drained flushed hpump =>
    exact ⟨⟨hsound.written, hsound.flushed, trivial, hnone _⟩,
      ⟨rfl, List.prefix_rfl, List.prefix_rfl, Nat.le_refl _, hsettled⟩, hblobs⟩
  | flushed last hpump =>
    refine ⟨⟨List.prefix_rfl, hsound.flushed.trans hsound.written.length_le, ⟨rfl, rfl⟩, hnone _⟩,
      ⟨rfl, List.prefix_rfl, hsound.written, Nat.le_refl _, hsettled⟩, hblobs⟩
  | broken chunk file error hpump hgrown hfile =>
    have hreceived := List.prefix_append transfer.received chunk
    exact ⟨⟨hfile, hsound.flushed.trans hgrown.length_le, trivial, hnone _⟩,
      ⟨rfl, hreceived, hgrown, Nat.le_refl _, hsettled⟩, hblobs⟩
  | published flushed last hpump =>
    obtain ⟨hflushed, hfile⟩ : flushed = transfer.received.length ∧ transfer.file = transfer.received :=
      hsound.pumpedAt hpump
    have hlength : transfer.file.length = transfer.received.length := congrArg List.length hfile
    have hmore := hsound.flushed
    refine ⟨⟨hsound.written, ?_, ?_, hnone _⟩,
      ⟨rfl, List.prefix_rfl, List.prefix_rfl, ?_, hsettled⟩, hblobs⟩
    · show flushed ≤ transfer.file.length
      omega
    · cases last with
      | false => trivial
      | true => exact ⟨hfile, hflushed⟩
    · show transfer.progress.flushed ≤ flushed
      omega
  | notCommitted error hpump =>
    exact ⟨⟨hsound.written, hsound.flushed, nofun, hnone _⟩,
      ⟨rfl, List.prefix_rfl, List.prefix_rfl, Nat.le_refl _, hsettled⟩, hblobs⟩
  | alreadyStored bytes hpump hdigest hstored =>
    obtain ⟨hfile, hflushed⟩ : transfer.file = transfer.received ∧
      transfer.progress.flushed = transfer.received.length := hsound.pumpedAt hpump
    exact ⟨⟨hsound.written, hsound.flushed,
        fun _ => ⟨hdigest, hflushed, bytes, rfl, hblobs _ _ hstored⟩, hnone _⟩,
      ⟨rfl, List.prefix_rfl, List.prefix_rfl, Nat.le_refl _, hsettled⟩, hblobs⟩
  | placed hpump hdigest hfree =>
    obtain ⟨hfile, hflushed⟩ : transfer.file = transfer.received ∧
      transfer.progress.flushed = transfer.received.length := hsound.pumpedAt hpump
    have hbytes : Digest.of sha transfer.file = transfer.digest := by
      rw [hfile]
      exact hdigest
    exact ⟨⟨hsound.written, hsound.flushed,
        fun _ => ⟨hdigest, hflushed, transfer.file, rfl, hbytes⟩, hnone _⟩,
      ⟨rfl, List.prefix_rfl, List.prefix_rfl, Nat.le_refl _, hsettled⟩, hblobs.store _ _ hbytes⟩
  | aborted error cleanup hpump =>
    exact ⟨⟨hsound.written, hsound.flushed, nofun, hnone _⟩,
      ⟨rfl, List.prefix_rfl, List.prefix_rfl, Nat.le_refl _, hsettled⟩, hblobs⟩
  | dropped hpump =>
    exact ⟨⟨hsound.written, hsound.flushed, nofun, hnone _⟩,
      ⟨rfl, List.prefix_rfl, List.prefix_rfl, Nat.le_refl _, hsettled⟩, hblobs⟩
  | told outcome hpump =>
    have hverdict : outcome = .ok () → transfer.Verified sha := hsound.pumpedAt hpump
    refine ⟨⟨hsound.written, hsound.flushed, trivial, fun found hfound => ⟨rfl, ?_⟩⟩,
      ⟨rfl, List.prefix_rfl, List.prefix_rfl, Nat.le_refl _, hsettled⟩, hblobs⟩
    cases hfound
    exact hverdict

theorem spill_sound (hsound : transfer.Sound sha) {file : Bytes} (hgrown : transfer.file <+: file)
    (hfile : file <+: transfer.received) : { transfer with file := file }.Sound sha := by
  refine ⟨hfile, hsound.flushed.trans hgrown.length_le, ?_, hsound.done⟩
  have hwhole : transfer.file = transfer.received → file = transfer.received := by
    intro h
    rw [h] at hgrown
    exact hfile.eq_of_length_le hgrown.length_le
  have hpumped := hsound.pumped
  unfold Transfer.Pumped at hpumped ⊢
  dsimp only
  rcases hpump : transfer.pump with _ | _ | ⟨flushed, last⟩ | _ | _ | _ | _ | _ <;>
    rw [hpump] at hpumped
  case publishing => exact ⟨hpumped.1, hwhole hpumped.2⟩
  case committing => exact ⟨hwhole hpumped.1, hpumped.2⟩
  all_goals exact hpumped

theorem spill_extends {file : Bytes} (hgrown : transfer.file <+: file) :
    transfer.Extends { transfer with file := file } :=
  ⟨rfl, List.prefix_rfl, hgrown, Nat.le_refl _, fun _ _ => ⟨rfl, rfl, rfl⟩⟩

end Transfers

section Clients
variable (sha : Sha256)

def Tail.Reads (transfer : Transfer) (tail : Tail) : Prop :=
  match tail.source with
  | none => tail.delivered = []
  | some .temp => tail.delivered <+: transfer.file
  | some (.lease bytes) => transfer.progress.done = some (.ok ()) ∧
      Digest.of sha bytes = transfer.digest ∧ tail.delivered <+: bytes

def Tail.Holds (transfer : Transfer) (tail : Tail) : Prop :=
  match tail.place with
  | .looking | .waiting | .left => True
  | .opening flushed | .missed flushed | .waitingToOpen flushed =>
    tail.source = none ∧ flushed ≤ transfer.progress.flushed
  | .leasing flushed => tail.source = none ∧ flushed ≤ transfer.progress.flushed ∧
      transfer.progress.done = some (.ok ())
  | .reading flushed => flushed ≤ transfer.progress.flushed
  | .awaiting | .awaitingChange => tail.source = none
  | .fetching => tail.source = none ∧ transfer.progress.done = some (.ok ())
  | .streaming => transfer.progress.done = some (.ok ())
  | .ended outcome => outcome = .ok () → transfer.progress.done = some (.ok ()) ∧
      (transfer.received.length ≤ tail.delivered.length ∨ tail.source = some (.lease tail.delivered))

structure Tail.Sound (transfer : Transfer) (tail : Tail) : Prop where
  reads : tail.Reads sha transfer
  holds : tail.Holds transfer

variable {sha} {transfer next : Transfer} {blobs : Blobs} {tail after : Tail}

theorem joined_sound (id : Nat) (transfer : Transfer) : (Tail.joined id transfer).Sound sha transfer := by
  refine ⟨rfl, ?_⟩
  unfold Tail.Holds Tail.joined
  cases transfer.tailed <;> trivial

theorem Tail.Sound.extend (h : tail.Sound sha transfer) (hnext : transfer.Extends next) :
    tail.Sound sha next := by
  have hdone : transfer.progress.done = some (.ok ()) → next.progress.done = some (.ok ()) := by
    intro hok
    rw [(hnext.settled _ hok).1]
    exact hok
  obtain ⟨hreads, hholds⟩ := h
  constructor
  · unfold Tail.Reads at hreads ⊢
    rcases hsource : tail.source with - | - | bytes <;> rw [hsource] at hreads
    · exact hreads
    · exact hreads.trans hnext.file
    · refine ⟨hdone hreads.1, ?_, hreads.2.2⟩
      rw [hnext.digest]
      exact hreads.2.1
  · have hflushed := hnext.flushed
    unfold Tail.Holds at hholds ⊢
    rcases hplace : tail.place with
      _ | flushed | flushed | flushed | flushed | flushed | _ | _ | _ | _ | _ | outcome | _ <;>
      rw [hplace] at hholds
    case opening | missed | waitingToOpen => exact ⟨hholds.1, hholds.2.trans hflushed⟩
    case leasing => exact ⟨hholds.1, hholds.2.1.trans hflushed, hdone hholds.2.2⟩
    case reading => exact hholds.trans hflushed
    case fetching => exact ⟨hholds.1, hdone hholds.2⟩
    case streaming => exact hdone hholds
    case ended =>
      intro hok
      obtain ⟨hended, hwhole⟩ := hholds hok
      refine ⟨hdone hended, ?_⟩
      rw [(hnext.settled _ hended).2.1]
      exact hwhole
    all_goals exact hholds

theorem Tail.Sound.holdsAt (h : tail.Sound sha transfer) {place : TailPlace}
    (hplace : tail.place = place) : { tail with place := place }.Holds transfer := by
  rw [← hplace]
  exact h.holds

theorem Tail.Reads.more (h : tail.Reads sha transfer) {source : TailSource} (chunk : Bytes)
    (hsource : tail.source = some source)
    (hfound : tail.delivered ++ chunk <+: source.content transfer) (place : TailPlace) :
    { tail with delivered := tail.delivered ++ chunk, place := place }.Reads sha transfer := by
  unfold Tail.Reads at h ⊢
  dsimp only
  rw [hsource] at h ⊢
  cases source with
  | temp => exact hfound
  | lease bytes => exact ⟨h.1, h.2.1, hfound⟩

theorem reads_none (h : tail.Reads sha transfer) (hsource : tail.source = none) :
    tail.delivered = [] := by
  unfold Tail.Reads at h
  rw [hsource] at h
  exact h

theorem TailStep.transfer_eq (h : TailStep transfer blobs tail after) :
    after.transfer = tail.transfer := by
  cases h <;> rfl

theorem TailStep.sound (h : TailStep transfer blobs tail after) (htail : tail.Sound sha transfer)
    (htransfer : transfer.Sound sha) (hblobs : VerifiedBlobs sha blobs) :
    after.Sound sha transfer := by
  have hreads := htail.reads
  cases h with
  | behind hplace hsent =>
    refine ⟨hreads, ?_⟩
    unfold Tail.Holds
    dsimp only
    by_cases hsource : tail.source.isNone = true
    · rw [if_pos hsource]
      exact ⟨Option.isNone_iff_eq_none.mp hsource, Nat.le_refl _⟩
    · rw [if_neg hsource]
  | «over» outcome hplace hsent hdone =>
    refine ⟨hreads, ?_⟩
    intro hok
    rw [hok] at hdone
    obtain ⟨-, hverified⟩ := htransfer.done _ hdone
    obtain ⟨-, hflushed, -⟩ := hverified rfl
    exact ⟨hdone, .inl (by show transfer.received.length ≤ tail.delivered.length; omega)⟩
  | upToDate | changed => exact ⟨hreads, trivial⟩
  | opened flushed hplace hlinked =>
    obtain ⟨hsource, hflushed⟩ : tail.source = none ∧ flushed ≤ transfer.progress.flushed :=
      htail.holdsAt hplace
    refine ⟨?_, hflushed⟩
    show tail.delivered <+: transfer.file
    rw [reads_none hreads hsource]
    exact List.nil_prefix
  | notOpened flushed hplace =>
    have hunread : tail.source = none ∧ flushed ≤ transfer.progress.flushed := htail.holdsAt hplace
    exact ⟨hreads, hunread⟩
  | missedDone flushed hplace hdone =>
    obtain ⟨hsource, hflushed⟩ : tail.source = none ∧ flushed ≤ transfer.progress.flushed :=
      htail.holdsAt hplace
    exact ⟨hreads, hsource, hflushed, hdone⟩
  | missedFailed flushed message hplace hdone => exact ⟨hreads, nofun⟩
  | missedEarly flushed hplace hdone => exact ⟨hreads, htail.holdsAt hplace⟩
  | openAgain flushed hplace hnew =>
    have hunread : tail.source = none ∧ flushed ≤ transfer.progress.flushed := htail.holdsAt hplace
    exact ⟨hreads, hunread⟩
  | leased flushed bytes hplace hstored =>
    obtain ⟨hsource, hflushed, hdone⟩ : tail.source = none ∧ flushed ≤ transfer.progress.flushed ∧
      transfer.progress.done = some (.ok ()) := htail.holdsAt hplace
    refine ⟨⟨hdone, hblobs _ _ hstored, ?_⟩, hflushed⟩
    show tail.delivered <+: bytes
    rw [reads_none hreads hsource]
    exact List.nil_prefix
  | read flushed source chunk hplace hsource hchunk hbudget hfound =>
    exact ⟨hreads.more chunk hsource hfound _, trivial⟩
  | told outcome hplace hdone =>
    have hsource : tail.source = none := htail.holdsAt hplace
    cases outcome with
    | ok => exact ⟨hreads, hsource, hdone⟩
    | error message => exact ⟨hreads, nofun⟩
  | untold hplace hdone => exact ⟨hreads, htail.holdsAt hplace⟩
  | askAgain hplace hnew =>
    have hunread : tail.source = none := htail.holdsAt hplace
    exact ⟨hreads, hunread⟩
  | fetched bytes hplace hstored =>
    obtain ⟨hsource, hdone⟩ : tail.source = none ∧ transfer.progress.done = some (.ok ()) :=
      htail.holdsAt hplace
    refine ⟨⟨hdone, hblobs _ _ hstored, ?_⟩, hdone⟩
    show tail.delivered <+: bytes
    rw [reads_none hreads hsource]
    exact List.nil_prefix
  | streamed source chunk hplace hsource hchunk hfound =>
    have hdone : transfer.progress.done = some (.ok ()) := htail.holdsAt hplace
    refine ⟨hreads.more chunk hsource hfound tail.place, ?_⟩
    unfold Tail.Holds
    dsimp only
    rw [hplace]
    exact hdone
  | streamEnd hplace hsource =>
    have hdone : transfer.progress.done = some (.ok ()) := htail.holdsAt hplace
    exact ⟨hreads, fun _ => ⟨hdone, .inr hsource⟩⟩
  | closed | failed => exact ⟨hreads, nofun⟩

end Clients

section Runs
variable (sha : Sha256)

def Pump.IsRegistered : Pump → Prop
  | .telling _ | .finished => False
  | _ => True

structure DownloadState.Sound (state : DownloadState) : Prop where
  transfers : ∀ id transfer, state.transfers id = some transfer → transfer.Sound sha
  clients : ∀ client tail, state.clients client = some tail →
    ∃ transfer, state.transfers tail.transfer = some transfer ∧ tail.Sound sha transfer
  registry : ∀ digest id, state.registry digest = some id →
    ∃ transfer, state.transfers id = some transfer ∧ transfer.digest = digest ∧
      transfer.pump.IsRegistered
  blobs : VerifiedBlobs sha state.blobs

variable {sha} {state after : DownloadState} {transfer next : Transfer}

theorem PumpStep.registered {blobs blobs' : Blobs} (h : PumpStep sha transfer blobs next blobs')
    (hregistered : transfer.pump.IsRegistered) : next.pump.IsRegistered := by
  cases h with
  | chunk flushed chunk file hpump hgrown hfile =>
    dsimp only
    by_cases hflush : flushEvery ≤ (transfer.received ++ chunk).length - flushed
    · rw [if_pos hflush]
      trivial
    · rw [if_neg hflush]
      trivial
  | published flushed last hpump => cases last <;> trivial
  | told outcome hpump =>
    rw [hpump] at hregistered
    exact False.elim hregistered
  | drained | flushed | broken | notCommitted | alreadyStored | placed | aborted | dropped => trivial

theorem DownloadState.Sound.move (h : state.Sound sha) {id : Nat}
    (hid : state.transfers id = some transfer) (hnext : next.Sound sha)
    (hextends : transfer.Extends next) (registry : DownloadRegistry) (blobs : Blobs)
    (hregistry : ∀ digest other, registry digest = some other →
      state.registry digest = some other ∧ (other = id → next.pump.IsRegistered))
    (hblobs : VerifiedBlobs sha blobs) :
    DownloadState.Sound sha
      ⟨Function.update state.transfers id (some next), state.clients, registry, blobs⟩ := by
  refine ⟨fun other found hfound => ?_, fun client tail hclient => ?_,
    fun digest other hother => ?_, hblobs⟩
  · dsimp only at hfound
    by_cases hother : other = id
    · subst hother
      rw [Function.update_self] at hfound
      cases hfound
      exact hnext
    · rw [Function.update_of_ne hother] at hfound
      exact h.transfers other found hfound
  · obtain ⟨found, hfound, htail⟩ := h.clients client tail hclient
    dsimp only
    by_cases hother : tail.transfer = id
    · rw [hother, hid] at hfound
      cases hfound
      exact ⟨next, by rw [hother, Function.update_self], htail.extend hextends⟩
    · exact ⟨found, by rw [Function.update_of_ne hother, hfound], htail⟩
  · obtain ⟨hbefore, hown⟩ := hregistry digest other hother
    obtain ⟨found, hfound, hdigest, hregistered⟩ := h.registry digest other hbefore
    dsimp only
    by_cases hsame : other = id
    · rw [hsame, hid] at hfound
      cases hfound
      refine ⟨next, by rw [hsame, Function.update_self], ?_, hown hsame⟩
      rw [hextends.digest]
      exact hdigest
    · exact ⟨found, by rw [Function.update_of_ne hsame, hfound], hdigest, hregistered⟩

theorem DownloadState.Sound.serve (h : state.Sound sha) (client : Nat) (tail : Tail)
    (hid : state.transfers tail.transfer = some transfer) (htail : tail.Sound sha transfer) :
    DownloadState.Sound sha
      { state with clients := Function.update state.clients client (some tail) } := by
  refine ⟨h.transfers, fun other found hfound => ?_, h.registry, h.blobs⟩
  dsimp only at hfound
  by_cases hother : other = client
  · subst hother
    rw [Function.update_self] at hfound
    cases hfound
    exact ⟨transfer, hid, htail⟩
  · rw [Function.update_of_ne hother] at hfound
    exact h.clients other found hfound

theorem removeIf_some {registry : DownloadRegistry} {digest other : Digest} {id found : Nat}
    (h : registry.removeIf digest id other = some found) :
    registry other = some found ∧ (other = digest → found ≠ id) := by
  unfold DownloadRegistry.removeIf at h
  by_cases howner : registry digest = some id
  · rw [if_pos howner] at h
    by_cases hother : other = digest
    · rw [hother, Function.update_self] at h
      cases h
    · rw [Function.update_of_ne hother] at h
      exact ⟨h, fun heq => absurd heq hother⟩
  · rw [if_neg howner] at h
    refine ⟨h, ?_⟩
    rintro rfl rfl
    exact howner h

theorem downloadStep_sound {client : Option Nat} (hstep : DownloadStep sha state client after)
    (h : state.Sound sha) : after.Sound sha := by
  have hkeep : ∀ (id : Nat) (next : Transfer), next.pump.IsRegistered →
      ∀ digest other, state.registry digest = some other →
        state.registry digest = some other ∧ (other = id → next.pump.IsRegistered) :=
    fun id next hnext digest other hother => ⟨hother, fun _ => hnext⟩
  -- a step that leaves the pump where it is
  have hstay : ∀ (id : Nat) (transfer next : Transfer), state.transfers id = some transfer →
      next.pump = transfer.pump → ∀ digest other, state.registry digest = some other →
        state.registry digest = some other ∧ (other = id → next.pump.IsRegistered) := by
    intro id transfer next hid hpump digest other hother
    refine ⟨hother, ?_⟩
    rintro rfl
    obtain ⟨found, hfound, -, hregistered⟩ := h.registry digest other hother
    rw [hid] at hfound
    cases hfound
    rw [hpump]
    exact hregistered
  cases hstep with
  | start id digest tailed hid hvacant =>
    refine ⟨fun other found hfound => ?_, fun client tail hclient => ?_,
      fun key other hother => ?_, h.blobs⟩
    · dsimp only at hfound
      by_cases hother : other = id
      · subst hother
        rw [Function.update_self] at hfound
        cases hfound
        exact started_sound digest tailed
      · rw [Function.update_of_ne hother] at hfound
        exact h.transfers other found hfound
    · obtain ⟨found, hfound, htail⟩ := h.clients client tail hclient
      have hne : tail.transfer ≠ id := by
        intro heq
        rw [heq, hid] at hfound
        cases hfound
      exact ⟨found, by dsimp only; rw [Function.update_of_ne hne, hfound], htail⟩
    · dsimp only at hother
      by_cases hkey : key = digest
      · subst hkey
        rw [Function.update_self] at hother
        cases hother
        exact ⟨_, Function.update_self _ _ _, rfl, trivial⟩
      · rw [Function.update_of_ne hkey] at hother
        obtain ⟨found, hfound, hdigest, hregistered⟩ := h.registry key other hother
        have hne : other ≠ id := by
          intro heq
          rw [heq, hid] at hfound
          cases hfound
        exact ⟨found, by dsimp only; rw [Function.update_of_ne hne, hfound], hdigest, hregistered⟩
  | pump id transfer next blobs hid hpump =>
    obtain ⟨hnext, hextends, hblobs⟩ := hpump.sound (h.transfers id transfer hid) h.blobs
    refine h.move hid hnext hextends _ blobs (fun digest other hother => ⟨hother, ?_⟩) hblobs
    rintro rfl
    obtain ⟨found, hfound, -, hregistered⟩ := h.registry digest other hother
    rw [hid] at hfound
    cases hfound
    exact hpump.registered hregistered
  | deregister id transfer outcome hid hpump =>
    have hsound := h.transfers id transfer hid
    have hverdict : outcome = .ok () → transfer.Verified sha := hsound.pumpedAt hpump
    have hnone : ∀ found, transfer.progress.done = some found →
        Pump.telling outcome = .finished ∧ (found = .ok () → transfer.Verified sha) := by
      intro found hfound
      have hfinished := (hsound.done found hfound).1
      rw [hpump] at hfinished
      cases hfinished
    have hnext : Transfer.Sound sha { transfer with pump := .telling outcome } :=
      ⟨hsound.written, hsound.flushed, hverdict, hnone⟩
    refine h.move hid hnext
      ⟨rfl, List.prefix_rfl, List.prefix_rfl, Nat.le_refl _, fun _ _ => ⟨rfl, rfl, rfl⟩⟩ _ _
      (fun digest other hother => ?_) h.blobs
    obtain ⟨hbefore, hnot⟩ := removeIf_some hother
    refine ⟨hbefore, ?_⟩
    rintro rfl
    obtain ⟨found, hfound, hdigest, -⟩ := h.registry digest other hbefore
    rw [hid] at hfound
    cases hfound
    exact absurd rfl (hnot hdigest.symm)
  | spill id transfer file hid hgrown hfile =>
    exact h.move hid (spill_sound (h.transfers id transfer hid) hgrown hfile)
      (spill_extends hgrown) _ _ (hstay id transfer _ hid rfl) h.blobs
  | unlink id transfer hid =>
    have hsound := h.transfers id transfer hid
    have hnext : Transfer.Sound sha { transfer with linked := false } :=
      ⟨hsound.written, hsound.flushed, hsound.pumped, hsound.done⟩
    exact h.move hid hnext
      ⟨rfl, List.prefix_rfl, List.prefix_rfl, Nat.le_refl _, fun _ _ => ⟨rfl, rfl, rfl⟩⟩ _ _
      (hstay id transfer _ hid rfl) h.blobs
  | join client id transfer hclient hid =>
    exact h.serve client (.joined id transfer) hid (joined_sound id transfer)
  | read client tail next transfer hclient hid hread =>
    obtain ⟨found, hfound, htail⟩ := h.clients client tail hclient
    rw [hid] at hfound
    cases hfound
    refine h.serve client next ?_ (hread.sound htail (h.transfers _ transfer hid) h.blobs)
    rw [hread.transfer_eq]
    exact hid
  | leave client tail hclient hplace =>
    obtain ⟨found, hfound, htail⟩ := h.clients client tail hclient
    exact h.serve client { tail with place := .left } hfound ⟨htail.reads, trivial⟩
  | store digest bytes hfree hdigest =>
    exact ⟨h.transfers, h.clients, h.registry, h.blobs.store digest bytes hdigest⟩
  | remove digest => exact ⟨h.transfers, h.clients, h.registry, h.blobs.remove digest⟩

theorem downloads_sound (state : DownloadState) (h : (downloadSystem sha).Reachable state) :
    state.Sound sha := by
  refine (downloadSystem sha).invariant (DownloadState.Sound sha) ?_ ?_ state h
  · rintro state ⟨htransfers, hclients, hregistry, hblobs⟩
    refine ⟨fun id transfer hid => ?_, fun client tail hclient => ?_, fun digest id hid => ?_, hblobs⟩
    · rw [htransfers] at hid
      cases hid
    · rw [hclients] at hclient
      cases hclient
    · rw [hregistry] at hid
      cases hid
  · rintro state after - hsound ⟨client, hstep⟩
    exact downloadStep_sound hstep hsound

/-! ### A transfer that failed -/

/-- How many steps a client of a failed transfer has left, at most. -/
def Tail.toGo (transfer : Transfer) (tail : Tail) : Nat :=
  let behind := transfer.progress.flushed - tail.delivered.length
  match tail.place with
  | .waiting => 8 * behind + 7
  | .looking | .waitingToOpen _ => 8 * behind + 6
  | .opening _ => 8 * behind + 5
  | .missed _ => 8 * behind + 4
  | .reading _ | .leasing _ => 8 * behind + 1
  | .awaitingChange => 2
  | .awaiting => 1
  | .fetching | .streaming | .ended _ | .left => 0

def Transfer.Failed (transfer : Transfer) : Prop :=
  ∃ message, transfer.progress.done = some (.error message)

theorem Transfer.Failed.not_ok (h : transfer.Failed) : transfer.progress.done ≠ some (.ok ()) := by
  obtain ⟨message, hdone⟩ := h
  rw [hdone]
  exact nofun

theorem Transfer.Failed.told (h : transfer.Failed) : transfer.progress.done ≠ none := by
  obtain ⟨message, hdone⟩ := h
  rw [hdone]
  exact nofun

theorem TailStep.toGo_lt {blobs : Blobs} {tail last : Tail} (h : TailStep transfer blobs tail last)
    (htail : tail.Sound sha transfer) (hfailed : transfer.Failed) :
    last.toGo transfer < tail.toGo transfer := by
  have hnot := hfailed.not_ok
  have htold := hfailed.told
  cases h with
  | behind hplace hsent =>
    unfold Tail.toGo
    rw [hplace]
    dsimp only
    by_cases hsource : tail.source.isNone = true
    · rw [if_pos hsource]
      dsimp only
      omega
    · rw [if_neg hsource]
      dsimp only
      omega
  | «over» outcome hplace hsent hdone => simp [Tail.toGo, hplace]
  | upToDate hplace hsent hdone => exact absurd hdone htold
  | changed hplace hnew => simp [Tail.toGo, hplace]
  | opened flushed hplace hlinked => simp [Tail.toGo, hplace]
  | notOpened flushed hplace => simp [Tail.toGo, hplace]
  | missedDone flushed hplace hdone => exact absurd hdone hnot
  | missedFailed flushed message hplace hdone => simp [Tail.toGo, hplace]
  | missedEarly flushed hplace hdone => exact absurd hdone htold
  | openAgain flushed hplace hnew => simp [Tail.toGo, hplace]
  | leased flushed bytes hplace hstored =>
    obtain ⟨-, -, hdone⟩ : tail.source = none ∧ flushed ≤ transfer.progress.flushed ∧
      transfer.progress.done = some (.ok ()) := htail.holdsAt hplace
    exact absurd hdone hnot
  | read flushed source chunk hplace hsource hchunk hbudget hfound =>
    have hbound : flushed ≤ transfer.progress.flushed := htail.holdsAt hplace
    have hsome := List.length_pos_iff.mpr hchunk
    simp only [Tail.toGo, hplace, List.length_append]
    omega
  | told outcome hplace hdone =>
    cases outcome with
    | ok => exact absurd hdone hnot
    | error message => simp [Tail.toGo, hplace]
  | untold hplace hdone => exact absurd hdone htold
  | askAgain hplace hnew => simp [Tail.toGo, hplace]
  | fetched bytes hplace hstored =>
    obtain ⟨-, hdone⟩ : tail.source = none ∧ transfer.progress.done = some (.ok ()) :=
      htail.holdsAt hplace
    exact absurd hdone hnot
  | streamed source chunk hplace hsource hchunk hfound =>
    have hdone : transfer.progress.done = some (.ok ()) := htail.holdsAt hplace
    exact absurd hdone hnot
  | streamEnd hplace hsource =>
    have hdone : transfer.progress.done = some (.ok ()) := htail.holdsAt hplace
    exact absurd hdone hnot
  | closed error hplace hsame hpump =>
    rcases hplace with hplace | hplace | ⟨flushed, hplace⟩ <;> simp [Tail.toGo, hplace]
  | failed error hplace =>
    rcases hplace with hplace | hplace | ⟨flushed, hplace | hplace | hplace⟩
    · obtain ⟨-, hdone⟩ : tail.source = none ∧ transfer.progress.done = some (.ok ()) :=
        htail.holdsAt hplace
      exact absurd hdone hnot
    · have hdone : transfer.progress.done = some (.ok ()) := htail.holdsAt hplace
      exact absurd hdone hnot
    · simp [Tail.toGo, hplace]
    · simp [Tail.toGo, hplace]
    · simp [Tail.toGo, hplace]

theorem tail_goes_on (blobs : Blobs) {tail : Tail} (hsound : transfer.Sound sha)
    (hfailed : transfer.Failed) (hplace : ¬ tail.place.Over) :
    ∃ last, TailStep transfer blobs tail last := by
  obtain ⟨message, hdone⟩ := hfailed
  have hfinished := (hsound.done _ hdone).1
  have hchange : ∀ after, (transfer.version ≠ tail.seen → TailStep transfer blobs tail after) →
      (tail.place = .waiting ∨ tail.place = .awaitingChange ∨
        ∃ flushed, tail.place = .waitingToOpen flushed) →
      ∃ last, TailStep transfer blobs tail last := by
    intro after hnew hwaits
    by_cases hseen : transfer.version = tail.seen
    · exact ⟨_, .closed message hwaits hseen hfinished⟩
    · exact ⟨after, hnew hseen⟩
  rcases hwhere : tail.place with
    _ | flushed | flushed | flushed | flushed | flushed | _ | _ | _ | _ | _ | outcome | _
  case looking =>
    by_cases hsent : tail.delivered.length < transfer.progress.flushed
    · exact ⟨_, .behind hwhere hsent⟩
    · exact ⟨_, .over _ hwhere hsent hdone⟩
  case opening => exact ⟨_, .notOpened flushed hwhere⟩
  case missed => exact ⟨_, .missedFailed flushed message hwhere hdone⟩
  case waitingToOpen =>
    exact hchange _ (.openAgain flushed hwhere) (.inr (.inr ⟨flushed, hwhere⟩))
  case leasing => exact ⟨_, .failed message (.inr (.inr ⟨flushed, .inr (.inl hwhere)⟩))⟩
  case reading => exact ⟨_, .failed message (.inr (.inr ⟨flushed, .inr (.inr hwhere)⟩))⟩
  case waiting => exact hchange _ (.changed hwhere) (.inl hwhere)
  case awaiting => exact ⟨_, .told _ hwhere hdone⟩
  case awaitingChange => exact hchange _ (.askAgain hwhere) (.inr (.inl hwhere))
  case fetching => exact ⟨_, .failed message (.inl hwhere)⟩
  case streaming => exact ⟨_, .failed message (.inr (.inl hwhere))⟩
  case ended | left =>
    rw [hwhere] at hplace
    exact absurd trivial hplace

theorem step_extends {client : Option Nat} (hstep : DownloadStep sha state client after)
    (h : state.Sound sha) (id : Nat) (hid : state.transfers id = some transfer) :
    ∃ next, after.transfers id = some next ∧ transfer.Extends next := by
  have hone : ∀ (other : Nat) (found next : Transfer), state.transfers other = some found →
      found.Extends next →
      ∃ last, Function.update state.transfers other (some next) id = some last ∧
        transfer.Extends last := by
    intro other found next hfound hextends
    by_cases hother : id = other
    · subst hother
      rw [hid] at hfound
      cases hfound
      exact ⟨next, Function.update_self _ _ _, hextends⟩
    · exact ⟨transfer, by rw [Function.update_of_ne hother, hid], .refl transfer⟩
  cases hstep with
  | start other digest tailed hother hvacant =>
    have hne : id ≠ other := by
      intro heq
      rw [heq, hother] at hid
      cases hid
    exact ⟨transfer, by dsimp only; rw [Function.update_of_ne hne, hid], .refl transfer⟩
  | pump other found next blobs hfound hpump =>
    exact hone other found next hfound (hpump.sound (h.transfers other found hfound) h.blobs).2.1
  | deregister other found outcome hfound hpump =>
    exact hone other found _ hfound
      ⟨rfl, List.prefix_rfl, List.prefix_rfl, Nat.le_refl _, fun _ _ => ⟨rfl, rfl, rfl⟩⟩
  | spill other found file hfound hgrown hfile =>
    exact hone other found _ hfound (spill_extends hgrown)
  | unlink other found hfound =>
    exact hone other found _ hfound
      ⟨rfl, List.prefix_rfl, List.prefix_rfl, Nat.le_refl _, fun _ _ => ⟨rfl, rfl, rfl⟩⟩
  | join | read | leave | store | remove => exact ⟨transfer, hid, .refl transfer⟩

theorem step_other {who : Option Nat} (hstep : DownloadStep sha state who after) {client : Nat}
    (hwho : who ≠ some client) {tail : Tail} (hclient : state.clients client = some tail) :
    after.clients client = some tail ∨ after.clients client = some { tail with place := .left } := by
  cases hstep with
  | start | pump | deregister | spill | unlink | store | remove => exact .inl hclient
  | join other id transfer hother hid =>
    have hne : client ≠ other := by
      intro heq
      rw [heq, hother] at hclient
      cases hclient
    exact .inl (by dsimp only; rw [Function.update_of_ne hne, hclient])
  | read other found next transfer hother hid hread =>
    have hne : client ≠ other := fun heq => hwho (congrArg some heq.symm)
    exact .inl (by dsimp only; rw [Function.update_of_ne hne, hclient])
  | leave other found hother hplace =>
    by_cases hsame : client = other
    · subst hsame
      rw [hclient] at hother
      cases hother
      exact .inr (Function.update_self _ _ _)
    · exact .inl (by dsimp only; rw [Function.update_of_ne hsame, hclient])

variable (sha) in
/-- A run in which the stream of `client` takes `steps` steps of its own. -/
inductive DownloadRun (client : Nat) (state : DownloadState) : Nat → DownloadState → Prop
  | done : DownloadRun client state 0 state
  | own (steps : Nat) (middle last : DownloadState) (h : DownloadRun client state steps middle)
    (hstep : DownloadStep sha middle (some client) last) :
    DownloadRun client state (steps + 1) last
  | other (steps : Nat) (middle last : DownloadState) (who : Option Nat)
    (h : DownloadRun client state steps middle) (hwho : who ≠ some client)
    (hstep : DownloadStep sha middle who last) : DownloadRun client state steps last

theorem Transfer.Failed.extend (h : transfer.Failed) (hnext : transfer.Extends next) :
    next.Failed ∧ next.progress = transfer.progress := by
  obtain ⟨message, hdone⟩ := h
  obtain ⟨hprogress, -⟩ := hnext.settled _ hdone
  refine ⟨⟨message, ?_⟩, hprogress⟩
  rw [hprogress]
  exact hdone

theorem failed_run {client steps : Nat} (hrun : DownloadRun sha client state steps after)
    (h : state.Sound sha) {tail : Tail} (hclient : state.clients client = some tail)
    (hid : state.transfers tail.transfer = some transfer) (hfailed : transfer.Failed) :
    after.Sound sha ∧ ∃ last found, after.clients client = some last ∧
      after.transfers last.transfer = some found ∧ found.Failed ∧
      steps + last.toGo found ≤ tail.toGo transfer := by
  induction hrun with
  | done => exact ⟨h, tail, transfer, hclient, hid, hfailed, by omega⟩
  | own steps middle last hrun hstep ih =>
    obtain ⟨hmiddle, before, found, hbefore, hfound, hlost, hless⟩ := ih
    refine ⟨downloadStep_sound hstep hmiddle, ?_⟩
    cases hstep with
    | read _ tail' next transfer' hclient' hid' hread =>
      rw [hbefore] at hclient'
      cases hclient'
      rw [hfound] at hid'
      cases hid'
      obtain ⟨known, hknown, htail⟩ := hmiddle.clients client before hbefore
      rw [hfound] at hknown
      cases hknown
      have hlower := hread.toGo_lt htail hlost
      refine ⟨next, found, Function.update_self _ _ _, ?_, hlost, by omega⟩
      rw [hread.transfer_eq]
      exact hfound
  | other steps middle last who hrun hwho hstep ih =>
    obtain ⟨hmiddle, before, found, hbefore, hfound, hlost, hless⟩ := ih
    refine ⟨downloadStep_sound hstep hmiddle, ?_⟩
    obtain ⟨next, hnext, hextends⟩ := step_extends hstep hmiddle before.transfer hfound
    obtain ⟨hlater, hprogress⟩ := hlost.extend hextends
    rcases step_other hstep hwho hbefore with hafter | hafter
    · refine ⟨before, next, hafter, hnext, hlater, ?_⟩
      unfold Tail.toGo at hless ⊢
      rw [hprogress]
      exact hless
    · refine ⟨_, next, hafter, hnext, hlater, ?_⟩
      have hzero : Tail.toGo next { before with place := .left } = 0 := rfl
      omega

/-! ### All of it -/

inductive DownloadState.Knows (state : DownloadState) : Bytes → Prop
  | received (id : Nat) (transfer : Transfer) (h : state.transfers id = some transfer) :
    Knows state transfer.received
  | committed (id : Nat) (transfer : Transfer) (bytes : Bytes)
    (h : state.transfers id = some transfer) (hbytes : transfer.committed = some bytes) :
    Knows state bytes
  | leased (client : Nat) (tail : Tail) (bytes : Bytes) (h : state.clients client = some tail)
    (hbytes : tail.source = some (.lease bytes)) : Knows state bytes

variable (sha) in
def DownloadState.TellsApart (state : DownloadState) : Prop :=
  ∀ bytes other, state.Knows bytes → state.Knows other →
    Digest.of sha bytes = Digest.of sha other → bytes = other

theorem leased_eq {client : Nat} {tail : Tail} (h : state.Sound sha) (hapart : state.TellsApart sha)
    (hclient : state.clients client = some tail)
    (hid : state.transfers tail.transfer = some transfer) {bytes : Bytes}
    (hsource : tail.source = some (.lease bytes)) :
    bytes = transfer.received := by
  obtain ⟨found, hfound, htail⟩ := h.clients client tail hclient
  rw [hid] at hfound
  cases hfound
  have hreads := htail.reads
  unfold Tail.Reads at hreads
  rw [hsource] at hreads
  obtain ⟨hdone, hdigest, -⟩ := hreads
  obtain ⟨-, hverified⟩ := (h.transfers _ transfer hid).done _ hdone
  obtain ⟨hreceived, -, -⟩ := hverified rfl
  exact hapart bytes _ (.leased client tail bytes hclient hsource)
    (.received _ transfer hid) (hdigest.trans hreceived.symm)

theorem delivered_prefix {client : Nat} {tail : Tail} (h : state.Sound sha)
    (hapart : state.TellsApart sha) (hclient : state.clients client = some tail)
    (hid : state.transfers tail.transfer = some transfer) : tail.delivered <+: transfer.received := by
  obtain ⟨found, hfound, htail⟩ := h.clients client tail hclient
  rw [hid] at hfound
  cases hfound
  have hreads := htail.reads
  unfold Tail.Reads at hreads
  rcases hsource : tail.source with - | - | bytes <;> rw [hsource] at hreads
  · rw [hreads]
    exact List.nil_prefix
  · exact hreads.trans (h.transfers _ transfer hid).written
  · rw [← leased_eq h hapart hclient hid hsource]
    exact hreads.2.2

theorem ended_committed {client : Nat} {tail : Tail} (h : state.Sound sha)
    (hapart : state.TellsApart sha) (hclient : state.clients client = some tail)
    (hid : state.transfers tail.transfer = some transfer)
    (hended : tail.place = .ended (.ok ())) :
    transfer.progress.done = some (.ok ()) ∧
      Digest.of sha transfer.received = transfer.digest ∧
      tail.delivered = transfer.received ∧ transfer.committed = some tail.delivered := by
  have hprefix := delivered_prefix h hapart hclient hid
  obtain ⟨found, hfound, htail⟩ := h.clients client tail hclient
  rw [hid] at hfound
  cases hfound
  have hholds := htail.holds
  unfold Tail.Holds at hholds
  rw [hended] at hholds
  obtain ⟨hdone, hwhole⟩ := hholds rfl
  obtain ⟨-, hverified⟩ := (h.transfers _ transfer hid).done _ hdone
  obtain ⟨hreceived, -, bytes, hcommitted, hdigest⟩ := hverified rfl
  have hdelivered : tail.delivered = transfer.received := by
    rcases hwhole with hlength | hsource
    · exact hprefix.eq_of_length_le hlength
    · exact leased_eq h hapart hclient hid hsource
  have hbytes : bytes = transfer.received :=
    hapart bytes _ (.committed _ transfer bytes hid hcommitted) (.received _ transfer hid)
      (hdigest.trans hreceived.symm)
  refine ⟨hdone, hreceived, hdelivered, ?_⟩
  rw [hdelivered, ← hbytes]
  exact hcommitted

theorem registry_kept {who : Option Nat} (hstep : DownloadStep sha state who after)
    (digest : Digest) (id : Nat) (hentry : state.registry digest = some id) :
    after.registry digest = some id ∨
      after.registry digest = none ∧ ∃ transfer outcome, state.transfers id = some transfer ∧
        transfer.pump = .removing outcome ∧
        after.transfers id = some { transfer with pump := .telling outcome } := by
  cases hstep with
  | pump | spill | unlink | join | read | leave | store | remove => exact .inl hentry
  | start other key tailed hother hvacant =>
    have hne : digest ≠ key := by
      intro heq
      rw [heq, hvacant] at hentry
      cases hentry
    exact .inl (by dsimp only; rw [Function.update_of_ne hne, hentry])
  | deregister other transfer outcome hother hpump =>
    dsimp only
    unfold DownloadRegistry.removeIf
    by_cases howner : state.registry transfer.digest = some other
    · rw [if_pos howner]
      by_cases hkey : digest = transfer.digest
      · subst hkey
        rw [hentry] at howner
        cases howner
        exact .inr ⟨Function.update_self _ _ _, transfer, outcome, hother, hpump,
          Function.update_self _ _ _⟩
      · exact .inl (by rw [Function.update_of_ne hkey, hentry])
    · exact .inl (by rw [if_neg howner, hentry])

/-- In every order of the steps of pumps, clients and the blob store. -/
theorem shared_downloads (sha : Sha256) (state : DownloadState)
    (hreach : (downloadSystem sha).Reachable state) (hapart : state.TellsApart sha) :
    (∀ client tail transfer, state.clients client = some tail →
      state.transfers tail.transfer = some transfer →
      -- what a client has is a beginning of the transfer
      tail.delivered <+: transfer.received ∧
      -- and all that was committed, where its stream ended normally
      (tail.place = .ended (.ok ()) →
        Digest.of sha transfer.received = transfer.digest ∧
        transfer.committed = some tail.delivered) ∧
      -- after a failure a client has some more steps, and then an error
      (transfer.Failed → ∀ steps after, DownloadRun sha client state steps after →
        steps ≤ tail.toGo transfer ∧ ∃ last, after.clients client = some last ∧
          (last.place = .left ∨ (∃ error, last.place = .ended (.error error)) ∨
            ¬ last.place.Over ∧ ∃ later, DownloadStep sha after (some client) later))) ∧
    -- a registration goes with its own transfer, and a transfer that is over has none
    (∀ digest id, state.registry digest = some id →
      (∃ transfer, state.transfers id = some transfer ∧ transfer.digest = digest ∧
        transfer.pump.IsRegistered) ∧
      ∀ who after, DownloadStep sha state who after →
        after.registry digest = some id ∨
          after.registry digest = none ∧ ∃ transfer outcome, state.transfers id = some transfer ∧
            transfer.pump = .removing outcome ∧
            after.transfers id = some { transfer with pump := .telling outcome }) := by
  have hsound := downloads_sound state hreach
  refine ⟨fun client tail transfer hclient hid => ⟨ delivered_prefix hsound hapart hclient hid,
    fun hended => ?_, fun hfailed steps after hrun => ?_⟩, fun digest id hentry =>
    ⟨hsound.registry digest id hentry, fun who after hstep => registry_kept hstep digest id hentry⟩⟩
  · obtain ⟨-, hreceived, -, hcommitted⟩ := ended_committed hsound hapart hclient hid hended
    exact ⟨hreceived, hcommitted⟩
  · obtain ⟨hafter, last, found, hlast, hfound, hlost, hless⟩ :=
      failed_run hrun hsound hclient hid hfailed
    refine ⟨by omega, last, hlast, ?_⟩
    obtain ⟨known, hknown, htail⟩ := hafter.clients client last hlast
    rw [hfound] at hknown
    cases hknown
    by_cases hover : last.place.Over
    · have hholds := htail.holds
      unfold Tail.Holds at hholds
      rcases hplace : last.place with _ | _ | _ | _ | _ | _ | _ | _ | _ | _ | _ | outcome | _ <;>
        rw [hplace] at hover hholds
      case left => exact .inl rfl
      case ended =>
        cases outcome with
        | ok => exact absurd (hholds rfl).1 hlost.not_ok
        | error error => exact .inr (.inl ⟨error, rfl⟩)
      all_goals exact False.elim hover
    · obtain ⟨next, hnext⟩ := tail_goes_on after.blobs (hafter.transfers _ found hfound) hlost hover
      exact .inr (.inr ⟨hover, _, .read client last next found hlast hfound hnext⟩)

end Runs

/-! ### A download to its end -/

namespace DownloadSample
open BlobSample

theorem next_pump {transfer next : Transfer} {clients : Nat → Option Tail}
    {registry : DownloadRegistry} {blobs after : Blobs}
    (h : (downloadSystem sha).Reachable
      ⟨Function.update (fun _ => none) 0 (some transfer), clients, registry, blobs⟩)
    (hstep : PumpStep sha transfer blobs next after) :
    (downloadSystem sha).Reachable
      ⟨Function.update (fun _ => none) 0 (some next), clients, registry, after⟩ := by
  have hpump := h.step _ _ ⟨none, .pump 0 transfer next after rfl hstep⟩
  rw [Function.update_idem] at hpump
  exact hpump

theorem next_read {transfer : Transfer} {tail next : Tail} {registry : DownloadRegistry}
    {blobs : Blobs}
    (h : (downloadSystem sha).Reachable
      ⟨Function.update (fun _ => none) 0 (some transfer), Function.update (fun _ => none) 0 (some tail),
        registry, blobs⟩)
    (hid : tail.transfer = 0) (hstep : TailStep transfer blobs tail next) :
    (downloadSystem sha).Reachable
      ⟨Function.update (fun _ => none) 0 (some transfer), Function.update (fun _ => none) 0 (some next),
        registry, blobs⟩ := by
  have hfound : Function.update (fun _ => none) 0 (some transfer) tail.transfer = some transfer := by
    rw [hid, Function.update_self]
  have hread := h.step _ _
    ⟨some 0, .read 0 tail next transfer rfl hfound hstep⟩
  rw [Function.update_idem] at hread
  exact hread

def fetched : Transfer :=
  ⟨digest, wheel, wheel, false, true, ⟨wheel.length, some (.ok ())⟩, 2, some wheel, .finished⟩

def served : Tail := ⟨0, wheel, some .temp, 2, .ended (.ok ())⟩

theorem downloaded : ∃ registry blobs, (downloadSystem sha).Reachable
    ⟨Function.update (fun _ => none) 0 (some fetched), Function.update (fun _ => none) 0 (some served),
      registry, blobs⟩ := by
  have hempty : (downloadSystem sha).Reachable
      ⟨fun _ => none, fun _ => none, fun _ => none, fun _ => none⟩ :=
    .start _ ⟨fun _ => rfl, fun _ => rfl, fun _ => rfl, nofun⟩
  have hstart := hempty.step _ _ ⟨none, .start 0 digest true rfl rfl⟩
  have hjoin := hstart.step _ _ ⟨none, .join 0 0 _ rfl rfl⟩
  have hchunk := next_pump hjoin (.chunk 0 wheel [] rfl List.nil_prefix List.nil_prefix)
  have hdrained := next_pump hchunk (.drained 0 rfl)
  have hflushed := next_pump hdrained (.flushed true rfl)
  have hpublished := next_pump hflushed (.published wheel.length true rfl)
  have hlook := next_read hpublished rfl (.behind rfl (by decide))
  have hopen := next_read hlook rfl (.opened wheel.length rfl rfl)
  have hread := next_read hopen rfl
    (.read wheel.length .temp wheel rfl rfl (by decide) (by decide) List.prefix_rfl)
  have hplaced := next_pump hread (.placed rfl rfl rfl)
  have hremoved := hplaced.step _ _ ⟨none, .deregister 0 _ (.ok ()) rfl rfl⟩
  rw [Function.update_idem] at hremoved
  have htold := next_pump hremoved (.told (.ok ()) rfl)
  exact ⟨_, _, next_read htold rfl (.over (.ok ()) rfl (by decide) rfl)⟩

end DownloadSample

open BlobSample DownloadSample in
/-- The client that tailed the wheel was given what was committed. -/
theorem wheel_downloaded : ∃ registry blobs,
    let state : DownloadState := ⟨Function.update (fun _ => none) 0 (some fetched),
      Function.update (fun _ => none) 0 (some served), registry, blobs⟩
    (downloadSystem sha).Reachable state ∧ state.TellsApart sha ∧
      fetched.committed = some served.delivered := by
  obtain ⟨registry, blobs, hreach⟩ := downloaded
  refine ⟨registry, blobs, hreach, ?_⟩
  have hknown : ∀ bytes, DownloadState.Knows ⟨Function.update (fun _ => none) 0 (some fetched),
      Function.update (fun _ => none) 0 (some served), registry, blobs⟩ bytes → bytes = wheel := by
    intro bytes hknows
    have hone : ∀ (id : Nat) (transfer : Transfer),
        Function.update (fun _ => none) 0 (some fetched) id = some transfer → transfer = fetched := by
      intro id transfer hfound
      by_cases hid : id = 0
      · rw [hid, Function.update_self] at hfound
        exact (Option.some.inj hfound).symm
      · rw [Function.update_of_ne hid] at hfound
        cases hfound
    cases hknows with
    | received id transfer h =>
      rw [hone id transfer h]
      rfl
    | committed id transfer _ h hbytes =>
      rw [hone id transfer h] at hbytes
      exact (Option.some.inj hbytes).symm
    | leased client tail _ h hbytes =>
      dsimp only at h
      by_cases hclient : client = 0
      · rw [hclient, Function.update_self] at h
        cases h
        cases hbytes
      · rw [Function.update_of_ne hclient] at h
        cases h
  have hapart : DownloadState.TellsApart sha ⟨Function.update (fun _ => none) 0 (some fetched),
      Function.update (fun _ => none) 0 (some served), registry, blobs⟩ :=
    fun bytes other hbytes hother _ => (hknown bytes hbytes).trans (hknown other hother).symm
  refine ⟨hapart, ?_⟩
  obtain ⟨hclients, -⟩ := shared_downloads sha _ hreach hapart
  obtain ⟨-, hended, -⟩ := hclients 0 served fetched rfl rfl
  exact (hended rfl).2

end Peryx.Pypi
