import Peryx.Oci.UploadLaws

/-! # Writes to a repository that its policy blocks -/

namespace Peryx.Oci
open Storage

def wholeBody : List (Except Str Bytes) → Option Bytes
  | [] => some []
  | .ok chunk :: rest => (wholeBody rest).map fun bytes => chunk ++ bytes
  | .error _ :: _ => none

section Blocked
variable (sha256 : Bytes → Str) (indexes : Indexes)

def Completes (target : UploadTarget) (request : WriteRequest) (staged : Bytes) : Prop :=
  ∃ digest bytes, request.params (str "digest") = some digest ∧
    wholeBody request.body = some bytes ∧
    blobDigest digest = some (sha256 (staged ++ bytes)) ∧
    overLimit target.index (staged ++ bytes).length = false

/-- A `POST` that is no refused mount and brings a whole blob, or a `PUT` that could end one. -/
def CommitsBlob (target : UploadTarget) (request : WriteRequest) : UploadMethod → Prop
  | .start => (∀ reply, mountOf indexes request ≠ .error reply) ∧
      Completes sha256 target request []
  | .write .finish _ => ∃ staged : Bytes,
      (chunkStart request.contentRange).continuesAt staged.length = true ∧
        Completes sha256 target request staged
  | .write .patch _ | .status _ | .cancel _ => False

inductive RequestRun (caller : Nat) (first : Registry) : Registry → Prop
  | refl : RequestRun caller first first
  | own (state next : Registry) (event : UploadEvent) (h : RequestRun caller first state)
      (hstep : UploadStep sha256 indexes caller state event next) : RequestRun caller first next
  | other (state next : Registry) (event : UploadEvent) (h : RequestRun caller first state)
      (hstep : RegistryStep sha256 indexes state event next)
      (hcall : next.calls caller = state.calls caller) : RequestRun caller first next

def UploadEvent.Writes : UploadEvent → Prop
  | .committed _ _ _ | .recorded _ _ _ => True
  | .quiet | .progress _ _ _ _ _ => False

/-- In every run, whatever other requests do, the request commits and records nothing. -/
def Refuses (method : UploadMethod) (request : WriteRequest) : Prop :=
  ∀ state last next caller event, (registrySystem sha256 indexes).Reachable state →
    state.calls caller = .arrived method request → RequestRun sha256 indexes caller state last →
    UploadStep sha256 indexes caller last event next →
    ¬ event.Writes ∧ next.stores = last.stores

end Blocked

section Limits
variable {sha256 : Bytes → Str} {indexes : Indexes} {state next : Registry}
variable {event : UploadEvent} {caller : Nat}

def Registry.Limited (indexes : Indexes) (state : Registry) : Prop :=
  ∀ serial target, state.OwnedBy indexes serial target →
    overLimit target.index (acceptedBytes state.accepted serial).length = false

theorem overLimit_zero (index : Index) : overLimit index 0 = false := by
  unfold overLimit
  cases index.policy.maxFileSizeBytes <;> simp

theorem ownedBy_of_concat {owner : Str × Str} {serial : Nat} {target : UploadTarget}
    (hopened : next.opened = state.opened ++ [owner])
    (h : next.OwnedBy indexes serial target) :
    state.OwnedBy indexes serial target ∨ serial = state.opened.length := by
  obtain ⟨opener, htarget, howner⟩ := h
  rw [hopened, List.getElem?_append] at howner
  split at howner
  · exact .inl ⟨opener, htarget, howner⟩
  · rw [List.getElem?_singleton] at howner
    split at howner
    · exact .inr (by omega)
    · cases howner

theorem act_limited (hsound : state.Sound) (haimed : state.Aimed indexes)
    (h : state.Limited indexes) (hstep : UploadStep sha256 indexes caller state event next) :
    next.Limited indexes := by
  cases hstep with
  | append kind session request target began entry chunk rest hcall hlimit =>
    intro serial other howned
    show overLimit other.index (acceptedBytes (state.accepted ++ [_]) serial).length = false
    have hold : state.OwnedBy indexes serial other := howned
    by_cases hserial : entry.serial = serial
    · have hfits := hsound.fits caller
      rw [hcall] at hfits
      obtain ⟨htold, -⟩ := hfits
      have howner : state.OwnedBy indexes entry.serial target :=
        owned_of_call hsound haimed (by rw [hcall]; rfl) (by rw [hcall]; rfl)
      rw [← hserial] at hold ⊢
      rw [acceptedBytes_append, if_pos rfl, List.length_append, ← htold.offset,
        ownedBy_unique howner hold]
      exact hlimit
    · rw [acceptedBytes_of_ne _ _ _ (Ne.symm hserial)]
      exact h serial other hold
  | openSession request target now session hcall hfree =>
    intro serial other howned
    show overLimit other.index (acceptedBytes state.accepted serial).length = false
    have hsplit : state.OwnedBy indexes serial other ∨ serial = state.opened.length :=
      ownedBy_of_concat rfl howned
    rcases hsplit with hold | hserial
    · exact h serial other hold
    · rw [hserial, accepted_fresh hsound]
      exact overLimit_zero _
  | _ => exact h

theorem step_limited (hsound : state.Sound) (haimed : state.Aimed indexes)
    (h : state.Limited indexes) (hstep : RegistryStep sha256 indexes state event next) :
    next.Limited indexes := by
  cases hstep with
  | act caller _ _ hact => exact act_limited hsound haimed h hact
  | _ => exact h

theorem registry_limited (state : Registry)
    (h : (registrySystem sha256 indexes).Reachable state) : state.Limited indexes := by
  refine (registrySystem sha256 indexes).invariant (Registry.Limited indexes) ?_ ?_ state h
  · rintro state ⟨stores, rfl⟩ serial target howned
    exact overLimit_zero _
  · intro state next hreach hlimited ⟨event, hstep⟩
    exact step_limited (registry_sound state hreach) (registry_aimed state hreach) hlimited hstep

end Limits

section Refusing
variable {sha256 : Bytes → Str} {indexes : Indexes} {state next : Registry}
variable {event : UploadEvent} {caller : Nat}
variable {method : UploadMethod} {request : WriteRequest} {target : UploadTarget}

structure Half (target : UploadTarget) (request : WriteRequest) (staged bytes : Bytes) (size : Nat)
    (rest : List (Except Str Bytes)) : Prop where
  count : size = bytes.length
  limit : overLimit target.index size = false
  body : ∃ taken, bytes = staged ++ taken ∧
    wholeBody request.body = (wholeBody rest).map fun bytes => taken ++ bytes

theorem Half.start (staged : Bytes) (hlimit : overLimit target.index staged.length = false) :
    Half target request staged staged staged.length request.body where
  count := rfl
  limit := hlimit
  body := ⟨[], (List.append_nil _).symm, by simp⟩

theorem Half.chunk {staged bytes chunk : Bytes} {size : Nat} {rest : List (Except Str Bytes)}
    (h : Half target request staged bytes size (.ok chunk :: rest))
    (hlimit : overLimit target.index (size + chunk.length) = false) :
    Half target request staged (bytes ++ chunk) (size + chunk.length) rest where
  count := by rw [h.count, List.length_append]
  limit := hlimit
  body := by
    obtain ⟨taken, hbytes, hbody⟩ := h.body
    refine ⟨taken ++ chunk, by rw [hbytes, List.append_assoc], ?_⟩
    rw [hbody, wholeBody, Option.map_map]
    congr 1
    funext bytes
    exact (List.append_assoc ..).symm

theorem Half.completes {staged bytes : Bytes} {size : Nat} {digest : Str}
    (h : Half target request staged bytes size [])
    (hparam : request.params (str "digest") = some digest)
    (hdigest : blobDigest digest = some (sha256 bytes)) :
    Completes sha256 target request staged := by
  obtain ⟨taken, hbytes, hbody⟩ := h.body
  refine ⟨digest, taken, hparam, ?_, ?_, ?_⟩
  · rw [hbody]
    simp [wholeBody]
  · rw [← hbytes, hdigest]
  · rw [← hbytes, ← h.count]
    exact h.limit

variable (sha256 indexes method request target) in
def UploadCall.Ahead : UploadCall → Prop
  | .arrived method' request' => method' = method ∧ request' = request
  | .mounting request' target' _ | .authorizing request' target' _ _ | .beginning request' target' =>
    method = .start ∧ (∀ reply, mountOf indexes request ≠ .error reply) ∧ request' = request ∧
      target' = target
  | .writing request' target' digest pending size rest =>
    method = .start ∧ (∀ reply, mountOf indexes request ≠ .error reply) ∧ request' = request ∧
      target' = target ∧ request.params (str "digest") = some digest ∧
      Half target request [] pending.bytes size rest
  | .taking kind session request' target' =>
    method = .write kind session ∧ request' = request ∧ target' = target
  | .appending kind session request' target' _ entry rest =>
    method = .write kind session ∧ request' = request ∧ target' = target ∧ ∃ staged : Bytes,
      (chunkStart request.contentRange).continuesAt staged.length = true ∧
        Half target request staged entry.pending.bytes entry.offset rest
  | .committing _ _ pending digest _ => blobDigest digest ≠ some (sha256 pending.bytes)
  | .linking _ _ _ | .recording _ _ _ => False
  | _ => True

theorem entered_ahead (htarget : targetOf indexes request = .ok target) :
    (entered indexes method request).Ahead sha256 indexes method request target := by
  unfold entered
  rw [htarget]
  cases method with
  | start =>
    dsimp only [routed]
    cases hmount : mountOf indexes request with
    | error reply => exact trivial
    | ok mount =>
      have hok : ∀ reply, mountOf indexes request ≠ .error reply := by
        intro reply heq
        rw [hmount] at heq
        cases heq
      cases mount with
      | none => exact ⟨rfl, hok, rfl, rfl⟩
      | some mount => exact ⟨rfl, hok, rfl, rfl⟩
  | write kind session => exact ⟨rfl, rfl, rfl⟩
  | status session => exact trivial
  | cancel session => exact trivial

theorem within_of_sessionOf (hsound : state.Sound) (hlimited : state.Limited indexes)
    (htarget : targetOf indexes request = .ok target) {session : Str} {entry : UploadSession}
    (hentry : sessionOf state.uploads target.index.name request.name session = some entry) :
    entry.offset = entry.pending.bytes.length ∧
      overLimit target.index entry.pending.bytes.length = false := by
  obtain ⟨hrow, hindex, hname⟩ := (sessionOf_eq_some _ _ _ _ _).mp hentry
  have htold := hsound.told session entry hrow
  have howned : state.OwnedBy indexes entry.serial target := by
    refine ⟨request, htarget, ?_⟩
    rw [htold.owner, hindex, hname]
  rw [htold.bytes]
  exact ⟨htold.offset, hlimited entry.serial target howned⟩

theorem ahead_of_step (hsound : state.Sound) (hlimited : state.Limited indexes)
    (htarget : targetOf indexes request = .ok target)
    (hblocked : policyBlocks target.index .upload target.repo = true)
    (hnot : ¬ CommitsBlob sha256 indexes target request method)
    (h : (state.calls caller).Ahead sha256 indexes method request target)
    (hstep : UploadStep sha256 indexes caller state event next) :
    (next.calls caller).Ahead sha256 indexes method request target ∧ ¬ event.Writes ∧
      next.stores = state.stores := by
  cases hstep with
  | enter method' request' hcall =>
    rw [hcall] at h
    obtain ⟨rfl, rfl⟩ := h
    rw [go_calls]
    exact ⟨entered_ahead htarget, id, rfl⟩
  | mountHeld _ _ _ hcall | mountAbsent _ _ _ hcall | mountNext _ _ _ _ _ hcall
  | mountDenied _ _ _ hcall =>
    rw [hcall] at h
    rw [go_calls]
    exact ⟨h, id, rfl⟩
  | mountFound request' target' mount member members hcall =>
    rw [hcall] at h
    obtain ⟨-, -, -, rfl⟩ := h
    rw [go_calls, if_pos hblocked]
    exact ⟨trivial, id, rfl⟩
  | beginWrite request' target' digest hcall hdigest =>
    rw [hcall] at h
    obtain ⟨hmethod, hmount, rfl, rfl⟩ := h
    rw [go_calls]
    exact ⟨⟨hmethod, hmount, rfl, rfl, hdigest, Half.start [] (overLimit_zero _)⟩, id, rfl⟩
  | write request' target' digest pending size chunk rest hcall hlimit =>
    rw [hcall] at h
    obtain ⟨hmethod, hmount, rfl, rfl, hdigest, hhalf⟩ := h
    rw [go_calls]
    exact ⟨⟨hmethod, hmount, rfl, rfl, hdigest, hhalf.chunk hlimit⟩, id, rfl⟩
  | writeDone request' target' digest pending size hcall =>
    rw [hcall] at h
    obtain ⟨rfl, hmount, rfl, rfl, hdigest, hhalf⟩ := h
    rw [go_calls]
    exact ⟨fun heq => hnot ⟨hmount, hhalf.completes hdigest heq⟩, id, rfl⟩
  | take kind session request' target' entry now hcall hentry =>
    rw [hcall] at h
    obtain ⟨hmethod, rfl, rfl⟩ := h
    obtain ⟨hoffset, hlimit⟩ := within_of_sessionOf hsound hlimited htarget hentry
    obtain ⟨-, -, htouched, hpending⟩ := touch_owner kind entry now
    rw [go_calls]
    refine ⟨?_, id, rfl⟩
    unfold taken
    split
    · rename_i hrange
      rw [htouched, hoffset] at hrange
      refine ⟨hmethod, rfl, rfl, entry.pending.bytes, hrange, ?_⟩
      rw [htouched, hpending, hoffset]
      exact Half.start _ hlimit
    · exact trivial
  | append kind session request' target' began entry chunk rest hcall hlimit =>
    rw [hcall] at h
    obtain ⟨hmethod, rfl, rfl, staged, hrange, hhalf⟩ := h
    rw [go_calls]
    exact ⟨⟨hmethod, rfl, rfl, staged, hrange, hhalf.chunk hlimit⟩, id, rfl⟩
  | appendDone kind session request' target' began entry hcall =>
    rw [hcall] at h
    obtain ⟨rfl, rfl, rfl, staged, hrange, hhalf⟩ := h
    rw [go_calls]
    refine ⟨?_, id, rfl⟩
    unfold appended
    cases kind with
    | patch => exact trivial
    | finish =>
      dsimp only
      cases hdigest : request'.params (str "digest") with
      | none => exact trivial
      | some digest => exact fun heq => hnot ⟨staged, hrange, hhalf.completes hdigest heq⟩
  | commit request' target' pending digest storage serial hcall hdigest hlost heq =>
    rw [hcall] at h
    rw [← heq] at hdigest
    exact absurd hdigest h
  | link request' target' mount hcall =>
    rw [hcall] at h
    exact h.elim
  | record request' target' digest hcall =>
    rw [hcall] at h
    exact h.elim
  | _ =>
    rw [go_calls]
    exact ⟨trivial, id, rfl⟩

theorem reachable_of_run (h : (registrySystem sha256 indexes).Reachable state) {last : Registry}
    (hrun : RequestRun sha256 indexes caller state last) :
    (registrySystem sha256 indexes).Reachable last := by
  induction hrun with
  | refl => exact h
  | own state next event _ hstep ih => exact ih.step _ _ ⟨event, .act caller event next hstep⟩
  | other state next event _ hstep _ ih => exact ih.step _ _ ⟨event, hstep⟩

theorem ahead_of_run (htarget : targetOf indexes request = .ok target)
    (hblocked : policyBlocks target.index .upload target.repo = true)
    (hnot : ¬ CommitsBlob sha256 indexes target request method)
    (hreach : (registrySystem sha256 indexes).Reachable state)
    (hcall : state.calls caller = .arrived method request) {last : Registry}
    (hrun : RequestRun sha256 indexes caller state last) :
    (last.calls caller).Ahead sha256 indexes method request target := by
  induction hrun with
  | refl =>
    rw [hcall]
    exact ⟨rfl, rfl⟩
  | own middle next event hrun hstep ih =>
    have hmiddle := reachable_of_run hreach hrun
    exact (ahead_of_step (registry_sound middle hmiddle) (registry_limited middle hmiddle) htarget
      hblocked hnot ih hstep).1
  | other middle next event hrun hstep hsame ih =>
    rw [hsame]
    exact ih

theorem refuses_of_not (htarget : targetOf indexes request = .ok target)
    (hblocked : policyBlocks target.index .upload target.repo = true)
    (hnot : ¬ CommitsBlob sha256 indexes target request method) :
    Refuses sha256 indexes method request := by
  intro state last next caller event hreach hcall hrun hstep
  have hahead := ahead_of_run htarget hblocked hnot hreach hcall hrun
  have hlast := reachable_of_run hreach hrun
  exact (ahead_of_step (registry_sound last hlast) (registry_limited last hlast) htarget hblocked
    hnot hahead hstep).2

theorem overLimit_mono (index : Index) (size more : Nat) (hle : size ≤ more)
    (h : overLimit index more = false) : overLimit index size = false := by
  unfold overLimit at h ⊢
  cases hlimit : index.policy.maxFileSizeBytes with
  | none => rfl
  | some limit =>
    rw [hlimit, Option.any_some, decide_eq_false_iff_not] at h
    rw [Option.any_some, decide_eq_false_iff_not]
    omega

theorem write_run {first : Registry} {rest : List (Except Str Bytes)} {bytes : Bytes}
    {digest : Str} (hbody : wholeBody rest = some bytes) :
    ∀ (state : Registry) (pending : BlobWrite) (size : Nat),
    RequestRun sha256 indexes caller first state →
    state.calls caller = .writing request target digest pending size rest →
    overLimit target.index (size + bytes.length) = false →
    ∃ last, RequestRun sha256 indexes caller first last ∧ last.calls caller =
      .writing request target digest { pending with bytes := pending.bytes ++ bytes }
        (size + bytes.length) [] := by
  induction rest generalizing bytes with
  | nil =>
    intro state pending size hrun hcall _
    cases hbody
    refine ⟨state, hrun, ?_⟩
    rw [List.append_nil]
    exact hcall
  | cons next rest ih =>
    intro state pending size hrun hcall hlimit
    cases next with
    | error message => cases hbody
    | ok chunk =>
      obtain ⟨later, hrest, rfl⟩ := Option.map_eq_some_iff.mp hbody
      rw [List.length_append, ← Nat.add_assoc] at hlimit ⊢
      have hchunk := overLimit_mono target.index (size + chunk.length) _ (by omega) hlimit
      obtain ⟨last, hlast, hcalls⟩ := ih hrest _ { pending with bytes := pending.bytes ++ chunk }
        (size + chunk.length)
        (.own _ _ _ hrun (.write request target digest pending size chunk rest hcall hchunk))
        (go_calls ..) hlimit
      refine ⟨last, hlast, ?_⟩
      rw [hcalls, List.append_assoc]

theorem append_run {first : Registry} {rest : List (Except Str Bytes)} {bytes : Bytes}
    {kind : SessionWrite} {session : Str} {began : Nat} (hbody : wholeBody rest = some bytes) :
    ∀ (state : Registry) (entry : UploadSession),
    RequestRun sha256 indexes caller first state →
    state.calls caller = .appending kind session request target began entry rest →
    overLimit target.index (entry.offset + bytes.length) = false →
    ∃ last ended, RequestRun sha256 indexes caller first last ∧
      last.calls caller = .appending kind session request target began ended [] ∧
      ended.pending = { entry.pending with bytes := entry.pending.bytes ++ bytes } := by
  induction rest generalizing bytes with
  | nil =>
    intro state entry hrun hcall _
    cases hbody
    refine ⟨state, entry, hrun, hcall, ?_⟩
    rw [List.append_nil]
  | cons next rest ih =>
    intro state entry hrun hcall hlimit
    cases next with
    | error message => cases hbody
    | ok chunk =>
      obtain ⟨later, hrest, rfl⟩ := Option.map_eq_some_iff.mp hbody
      rw [List.length_append, ← Nat.add_assoc] at hlimit
      have hchunk := overLimit_mono target.index (entry.offset + chunk.length) _ (by omega) hlimit
      obtain ⟨last, ended, hlast, hcalls, hended⟩ := ih hrest _ (entry.append chunk)
        (.own _ _ _ hrun (.append kind session request target began entry chunk rest hcall hchunk))
        (go_calls ..) hlimit
      refine ⟨last, ended, hlast, hcalls, ?_⟩
      rw [hended, ← List.append_assoc]
      rfl

theorem entered_write (htarget : targetOf indexes request = .ok target) (kind : SessionWrite)
    (session : Str) :
    entered indexes (.write kind session) request = .taking kind session request target := by
  unfold entered
  rw [htarget]
  rfl

variable (sha256) in
theorem staged_reachable (htarget : targetOf indexes request = .ok target) (session : Str)
    (staged : Bytes) (hlimit : overLimit target.index staged.length = false) :
    ∃ state entry, (registrySystem sha256 indexes).Reachable state ∧ state.calls 0 = .idle ∧
      sessionOf state.uploads target.index.name request.name session = some entry ∧
      entry.pending = ⟨staged, false⟩ ∧ entry.offset = staged.length := by
  let opener : WriteRequest := { request with params := fun _ => none }
  let filler : WriteRequest := { request with contentRange := none, body := [.ok staged] }
  have hopener : entered indexes .start opener = .beginning opener target := by
    have hsame : targetOf indexes opener = .ok target := htarget
    unfold entered
    rw [hsame]
    rfl
  have hstart : (registrySystem sha256 indexes).Reachable {} := .start _ ⟨{}, rfl⟩
  have harrived := hstart.step _ _ ⟨_, .arrive 1 .start opener rfl⟩
  have hentered := harrived.step _ _ ⟨_, .act 1 _ _ (.enter _ _ rfl)⟩
  rw [hopener] at hentered
  have hopening := hentered.step _ _ ⟨_, .act 1 _ _ (.beginSession opener target rfl rfl)⟩
  have hfree : (reclaimExpired ∅ 0)[session]? = none := by
    unfold reclaimExpired
    rw [Std.ExtTreeMap.getElem?_filter', Std.ExtTreeMap.getElem?_empty]
    rfl
  have hopened := hopening.step _ _
    ⟨_, .act 1 _ _ (.openSession opener target 0 session rfl hfree)⟩
  have hpatch := hopened.step _ _ ⟨_, .arrive 2 (.write .patch session) filler rfl⟩
  have htaking := hpatch.step _ _ ⟨_, .act 2 _ _ (.enter _ _ rfl)⟩
  have hfiller : targetOf indexes filler = .ok target := htarget
  rw [entered_write hfiller] at htaking
  have htaken := htaking.step _ _ ⟨_, .act 2 _ _ (.take .patch session filler target _ 0 rfl
    ((sessionOf_eq_some _ _ _ _ _).mpr ⟨Std.ExtTreeMap.getElem?_insert_self, rfl, rfl⟩))⟩
  have hfill : overLimit target.index (0 + staged.length) = false := by
    rw [Nat.zero_add]
    exact hlimit
  have happended := htaken.step _ _
    ⟨_, .act 2 _ _ (.append .patch session filler target 0 _ staged [] rfl hfill)⟩
  have hdone := happended.step _ _ ⟨_, .act 2 _ _ (.appendDone _ _ _ _ _ _ rfl)⟩
  have hrestored := hdone.step _ _ ⟨_, .act 2 _ _ (.restoreProgress session _ _ _ rfl)⟩
  exact ⟨_, _, hrestored, rfl,
    (sessionOf_eq_some _ _ _ _ _).mpr ⟨Std.ExtTreeMap.getElem?_insert_self, rfl, rfl⟩, rfl,
    Nat.zero_add _⟩

theorem not_refuses {first last : Registry} {pending : BlobWrite} {digest : Str}
    {serial : Option Nat} (hreach : (registrySystem sha256 indexes).Reachable first)
    (hcall : first.calls caller = .arrived method request)
    (hrun : RequestRun sha256 indexes caller first last)
    (hlast : last.calls caller = .committing request target pending digest serial)
    (hlost : pending.lost = false) (hdigest : blobDigest digest = some (sha256 pending.bytes)) :
    ¬ Refuses sha256 indexes method request := by
  intro hrefuses
  have hcommit := @UploadStep.commit sha256 indexes _ _ request target pending digest _ serial hlast
    hdigest hlost rfl
  exact (hrefuses _ _ _ _ _ hreach hcall hrun hcommit).1 trivial

theorem start_commits (htarget : targetOf indexes request = .ok target)
    (hmount : ∀ reply, mountOf indexes request ≠ .error reply)
    (h : Completes sha256 target request []) : ¬ Refuses sha256 indexes .start request := by
  obtain ⟨digest, bytes, hparam, hbody, hdigest, hlimit⟩ := h
  rw [List.nil_append] at hdigest hlimit
  have hstart : (registrySystem sha256 indexes).Reachable {} := .start _ ⟨{}, rfl⟩
  have harrived := hstart.step _ _ ⟨_, .arrive 0 .start request rfl⟩
  obtain ⟨state, hrun, hcall⟩ : ∃ state,
      RequestRun sha256 indexes 0 (Registry.go {} 0 (.arrived .start request)) state ∧
        state.calls 0 = .beginning request target := by
    have hentered : RequestRun sha256 indexes 0 (Registry.go {} 0 (.arrived .start request)) _ :=
      .own _ _ _ .refl (.enter .start request rfl)
    unfold entered at hentered
    rw [htarget] at hentered
    dsimp only [routed] at hentered
    cases hfound : mountOf indexes request with
    | error reply => exact absurd hfound (hmount reply)
    | ok mount =>
      rw [hfound] at hentered
      cases mount with
      | none => exact ⟨_, hentered, go_calls ..⟩
      | some mount =>
        refine ⟨_, .own _ _ _ hentered (.mountAbsent request target mount (go_calls ..) ?_),
          go_calls ..⟩
        exact congrArg Option.isSome Std.ExtTreeMap.getElem?_empty
  have hwriting := RequestRun.own _ _ _ hrun (.beginWrite request target digest hcall hparam)
  obtain ⟨last, hlast, hdone⟩ := write_run hbody _ {} 0 hwriting (go_calls ..)
    (by rw [Nat.zero_add]; exact hlimit)
  have hcommitting := RequestRun.own _ _ _ hlast (.writeDone _ _ _ _ _ hdone)
  exact not_refuses harrived rfl hcommitting (go_calls ..) rfl hdigest

theorem finish_commits (htarget : targetOf indexes request = .ok target) (session : Str)
    (staged : Bytes) (hrange : (chunkStart request.contentRange).continuesAt staged.length = true)
    (h : Completes sha256 target request staged) :
    ¬ Refuses sha256 indexes (.write .finish session) request := by
  obtain ⟨digest, bytes, hparam, hbody, hdigest, hlimit⟩ := h
  rw [List.length_append] at hlimit
  obtain ⟨state, entry, hreach, hidle, hentry, hpending, hoffset⟩ := staged_reachable sha256 htarget
    session staged (overLimit_mono target.index staged.length _ (by omega) hlimit)
  have harrived := hreach.step _ _ ⟨_, .arrive 0 (.write .finish session) request hidle⟩
  have hentered : RequestRun sha256 indexes 0
      (state.go 0 (.arrived (.write .finish session) request)) _ :=
    .own _ _ _ .refl (.enter (.write .finish session) request (go_calls ..))
  rw [entered_write htarget] at hentered
  have htaken := RequestRun.own _ _ _ hentered
    (.take .finish session request target entry 0 (go_calls ..) hentry)
  have hcall : taken .finish session request target (SessionWrite.finish.touch entry 0) =
      .appending .finish session request target entry.offset entry request.body := by
    unfold taken
    rw [hoffset.symm] at hrange
    exact if_pos hrange
  rw [hcall] at htaken
  obtain ⟨last, ended, hlast, hdone, hended⟩ := append_run hbody _ entry htaken (go_calls ..)
    (by rw [hoffset]; exact hlimit)
  have hcommitting := RequestRun.own _ _ _ hlast (.appendDone _ _ _ _ _ _ hdone)
  have hnext : appended .finish session request target ended =
      .committing request target ended.pending digest (some ended.serial) := by
    unfold appended
    dsimp only
    rw [hparam]
  rw [hnext, hended, hpending] at hcommitting
  exact not_refuses harrived (go_calls ..) hcommitting (go_calls ..) rfl hdigest

/-- A request to a blocked repository commits and records nothing, unless it brings the whole
bytes of a blob; a manifest is answered before the store is asked anything. -/
theorem blockedWrites_refused (htarget : targetOf indexes request = .ok target)
    (hblocked : policyBlocks target.index .upload target.repo = true) :
    (∀ parse render reference upload,
      putManifestRequest request.identify request.realm indexes sha256 parse render request.name
        reference upload =
          return .ok (errorResponse .denied (str "image name is blocked by policy"))) ∧
    (Refuses sha256 indexes method request ↔ ¬ CommitsBlob sha256 indexes target request method) := by
  refine ⟨fun parse render reference upload => ?_, fun hrefuses hcommits => ?_,
    refuses_of_not htarget hblocked⟩
  · have hwritable : resolveWritable request.identify request.realm indexes request.name .write =
        .ok (target.index, target.repo) := by
      unfold targetOf at htarget
      cases hresolve : resolveWritable request.identify request.realm indexes request.name .write with
      | error reply =>
        rw [hresolve] at htarget
        cases htarget
      | ok found =>
        rw [hresolve] at htarget
        cases htarget
        rfl
    unfold putManifestRequest readPush
    rw [hwritable]
    dsimp only
    rw [if_pos hblocked]
  · cases method with
    | start => exact start_commits htarget hcommits.1 hcommits.2 hrefuses
    | write kind session =>
      cases kind with
      | patch => exact hcommits
      | finish =>
        obtain ⟨staged, hrange, hcompletes⟩ := hcommits
        exact finish_commits htarget session staged hrange hcompletes hrefuses
    | status session => exact hcommits
    | cancel session => exact hcommits

end Refusing

def appBlocked : Indexes := hostedAlone { blockProjects := {str "app"} }

/-- The digest of `abc`. -/
def abcHex : Str := str "ba7816bf8f01cfea414140de5dae2223b00361a396177a9cb410ff61f20015ad"

def postAbc : WriteRequest :=
  tokenRequest (fun name => if name = str "digest" then some (str "sha256:" ++ abcHex) else none) none
    [.ok (str "abc")]

theorem blockedWrites_refused_patch :
    Refuses (fun _ => abcHex) appBlocked (.write .patch (str "s")) postAbc :=
  have htarget : targetOf appBlocked postAbc = .ok ⟨appBlocked.toList.get ⟨0, by decide⟩, str "app"⟩ :=
    rfl
  (blockedWrites_refused htarget (by decide)).2.mpr id

/-- One `POST` puts a blob into the blocked repository `store/app`. -/
theorem blockedPost_commits :
    ¬ ∀ method request target, targetOf appBlocked request = .ok target →
      policyBlocks target.index .upload target.repo = true →
      Refuses (fun _ => abcHex) appBlocked method request := by
  intro hrefuses
  have htarget : targetOf appBlocked postAbc =
      .ok ⟨appBlocked.toList.get ⟨0, by decide⟩, str "app"⟩ := rfl
  refine start_commits htarget ?_ ?_ (hrefuses .start postAbc _ htarget (by decide))
  · intro reply hmount
    cases hmount
  · exact ⟨str "sha256:" ++ abcHex, str "abc", rfl, rfl, rfl, rfl⟩

end Peryx.Oci
