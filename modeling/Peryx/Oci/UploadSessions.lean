import Peryx.Oci.Uploads

/-! # Upload sessions along every interleaving -/

namespace Peryx.Oci
open Storage

def chunksOf (log : List Acceptance) (serial : Nat) : List Acceptance :=
  log.filter fun acceptance => acceptance.serial == serial

def acceptedBytes (log : List Acceptance) (serial : Nat) : Bytes :=
  (chunksOf log serial).flatMap Acceptance.chunk

def InOrder : Nat → List Acceptance → Prop
  | _, [] => True
  | offset, acceptance :: rest =>
    acceptance.offset = offset ∧ InOrder (offset + acceptance.chunk.length) rest

theorem acceptedBytes_append (log : List Acceptance) (acceptance : Acceptance) (serial : Nat) :
    acceptedBytes (log ++ [acceptance]) serial =
      acceptedBytes log serial ++ if acceptance.serial = serial then acceptance.chunk else [] := by
  unfold acceptedBytes chunksOf
  rw [List.filter_append, List.flatMap_append]
  congr 1
  by_cases h : acceptance.serial = serial
  · rw [if_pos h, List.filter_cons_of_pos (by simpa using h)]
    simp
  · rw [if_neg h, List.filter_cons_of_neg (by simpa using h)]
    rfl

theorem acceptedBytes_of_ne (log : List Acceptance) (acceptance : Acceptance) (serial : Nat)
    (h : serial ≠ acceptance.serial) :
    acceptedBytes (log ++ [acceptance]) serial = acceptedBytes log serial := by
  rw [acceptedBytes_append, if_neg h.symm, List.append_nil]

theorem inOrder_append (chunks : List Acceptance) (offset : Nat) (acceptance : Acceptance)
    (h : InOrder offset chunks)
    (hoffset : acceptance.offset = offset + (chunks.flatMap Acceptance.chunk).length) :
    InOrder offset (chunks ++ [acceptance]) := by
  induction chunks generalizing offset with
  | nil => exact ⟨by simpa using hoffset, trivial⟩
  | cons first rest ih =>
    rw [List.flatMap_cons, List.length_append] at hoffset
    exact ⟨h.1, ih _ h.2 (by omega)⟩

structure UploadSession.Tells (state : Registry) (entry : UploadSession) : Prop where
  offset : entry.offset = (acceptedBytes state.accepted entry.serial).length
  bytes : entry.pending.bytes = acceptedBytes state.accepted entry.serial
  owner : state.opened[entry.serial]? = some (entry.index, entry.name)

def UploadCall.serial : UploadCall → Option Nat
  | .appending _ _ _ _ _ entry _ | .restoring _ entry _ | .aborting entry => some entry.serial
  | .committing _ _ _ _ serial => serial
  | .idle | .arrived _ _ | .mounting _ _ _ | .authorizing _ _ _ _ | .linking _ _ _ | .beginning _ _
  | .writing _ _ _ _ _ _ | .opening _ _ | .taking _ _ _ _ | .asking _ _ _ | .cancelling _ _ _
  | .recording _ _ _ | .replied _ | .panicked => none

inductive Place where
  | map (session : Str)
  | call (caller : Nat)
  deriving DecidableEq

def Registry.serialAt (state : Registry) : Place → Option Nat
  | .map session => state.uploads[session]?.map UploadSession.serial
  | .call caller => (state.calls caller).serial

def Registry.Apart (state : Registry) : Prop :=
  ∀ p q serial, state.serialAt p = some serial → state.serialAt q = some serial → p = q

def UploadCall.Fits (state : Registry) : UploadCall → Prop
  | .appending _ _ request target began entry _ =>
    entry.Tells state ∧ entry.index = target.index.name ∧ entry.name = request.name ∧
      (chunkStart request.contentRange).continuesAt began = true ∧ began ≤ entry.offset
  | .restoring _ entry outcome =>
    entry.Tells state ∧ ∀ kind name, outcome = .progress kind name → entry.name = name
  | .aborting entry => entry.Tells state
  | .committing request target pending _ (some serial) =>
    pending.bytes = acceptedBytes state.accepted serial ∧
      state.opened[serial]? = some (target.index.name, request.name)
  | _ => True

structure Registry.Sound (state : Registry) : Prop where
  told : ∀ (session : Str) entry, state.uploads[session]? = some entry → entry.Tells state
  fits : ∀ caller, (state.calls caller).Fits state
  apart : state.Apart
  logged : ∀ acceptance ∈ state.accepted, acceptance.serial < state.opened.length ∧
    acceptance.range.continuesAt acceptance.began = true ∧ acceptance.began ≤ acceptance.offset
  ordered : ∀ serial, InOrder 0 (chunksOf state.accepted serial)

variable {state next : Registry}

theorem apart_of_less (h : state.Apart)
    (hless : ∀ p serial, next.serialAt p = some serial → state.serialAt p = some serial) :
    next.Apart :=
  fun p q serial hp hq => h p q serial (hless p serial hp) (hless q serial hq)

theorem apart_of_moved (h : state.Apart) (place : Place) (moved : Nat)
    (hmoved : ∀ p serial, next.serialAt p = some serial →
      (p = place ∧ serial = moved) ∨ (state.serialAt p = some serial ∧ serial ≠ moved)) :
    next.Apart := by
  intro p q serial hp hq
  rcases hmoved p serial hp with ⟨hplace, hserial⟩ | ⟨hold, hne⟩
  · rcases hmoved q serial hq with ⟨hplace', -⟩ | ⟨-, hne⟩
    · rw [hplace, hplace']
    · exact absurd hserial hne
  · rcases hmoved q serial hq with ⟨-, hserial⟩ | ⟨hold', -⟩
    · exact absurd hserial hne
    · exact h p q serial hold hold'

theorem serialAt_go (state : Registry) (caller : Nat) (call : UploadCall) (place : Place) :
    (state.go caller call).serialAt place =
      if place = .call caller then call.serial else state.serialAt place := by
  cases place with
  | map session => rfl
  | call other =>
    show (Function.update state.calls caller call other).serial = _
    by_cases hother : other = caller
    · subst hother
      rw [Function.update_self, if_pos rfl]
    · rw [Function.update_of_ne hother, if_neg fun heq => hother (Place.call.inj heq)]
      rfl

theorem serialAt_erase (state : Registry) (session : Str) (place : Place) :
    (state.setUploads (state.uploads.erase session)).serialAt place =
      if place = .map session then none else state.serialAt place := by
  cases place with
  | call caller => rfl
  | map other =>
    have hrow := Table.getElem?_set state.uploads session other none
    show ((state.uploads.set session none)[other]?).map UploadSession.serial = _
    rw [hrow]
    by_cases hother : session = other
    · rw [if_pos hother, if_pos (congrArg Place.map hother.symm)]
      rfl
    · rw [if_neg hother, if_neg fun heq => hother (Place.map.inj heq).symm]
      rfl

theorem serialAt_insert (state : Registry) (session : Str) (entry : UploadSession) (place : Place) :
    (state.setUploads (state.uploads.insert session entry)).serialAt place =
      if place = .map session then some entry.serial else state.serialAt place := by
  cases place with
  | call caller => rfl
  | map other =>
    have hrow := Table.getElem?_set state.uploads session other (some entry)
    show ((state.uploads.set session (some entry))[other]?).map UploadSession.serial = _
    rw [hrow]
    by_cases hother : session = other
    · rw [if_pos hother, if_pos (congrArg Place.map hother.symm)]
      rfl
    · rw [if_neg hother, if_neg fun heq => hother (Place.map.inj heq).symm]
      rfl

theorem getElem?_reclaim (uploads : UploadMap) (now : Int) (session : Str) (entry : UploadSession)
    (h : (reclaimExpired uploads now)[session]? = some entry) : uploads[session]? = some entry := by
  unfold reclaimExpired at h
  rw [Std.ExtTreeMap.getElem?_filter'] at h
  exact (Option.filter_eq_some_iff.mp h).1

theorem serialAt_reclaim (state : Registry) (now : Int) (place : Place) (serial : Nat)
    (h : (state.setUploads (reclaimExpired state.uploads now)).serialAt place = some serial) :
    state.serialAt place = some serial := by
  cases place with
  | call caller => exact h
  | map session =>
    obtain ⟨entry, hentry, hserial⟩ := Option.map_eq_some_iff.mp h
    have hold := getElem?_reclaim state.uploads now session entry hentry
    show state.uploads[session]?.map UploadSession.serial = some serial
    rw [hold, Option.map_some, hserial]

theorem UploadSession.Tells.keep {entry : UploadSession} (h : entry.Tells state)
    (haccepted : acceptedBytes next.accepted entry.serial = acceptedBytes state.accepted entry.serial)
    (hopened : next.opened[entry.serial]? = state.opened[entry.serial]?) : entry.Tells next where
  offset := by rw [haccepted, h.offset]
  bytes := by rw [haccepted, h.bytes]
  owner := by rw [hopened, h.owner]

theorem UploadCall.Fits.keep {call : UploadCall} (h : call.Fits state)
    (hkept : ∀ serial, call.serial = some serial →
      acceptedBytes next.accepted serial = acceptedBytes state.accepted serial ∧
        ∀ owner, state.opened[serial]? = some owner → next.opened[serial]? = some owner) :
    call.Fits next := by
  have htells : ∀ entry : UploadSession, call.serial = some entry.serial → entry.Tells state →
      entry.Tells next := by
    intro entry hserial htold
    obtain ⟨haccepted, hopened⟩ := hkept entry.serial hserial
    exact ⟨by rw [haccepted, htold.offset], by rw [haccepted, htold.bytes], hopened _ htold.owner⟩
  cases call with
  | appending kind session request target began entry rest => exact ⟨htells entry rfl h.1, h.2⟩
  | restoring session entry outcome => exact ⟨htells entry rfl h.1, h.2⟩
  | aborting entry => exact htells entry rfl h
  | committing request target pending digest serial =>
    cases serial with
    | none => exact trivial
    | some serial =>
      obtain ⟨haccepted, hopened⟩ := hkept serial rfl
      exact ⟨by rw [haccepted, h.1], hopened _ h.2⟩
  | _ => exact trivial

theorem map_sound (h : state.Sound) (caller : Nat) (call : UploadCall) (uploads : UploadMap)
    (htold : ∀ (session : Str) entry, uploads[session]? = some entry → entry.Tells state)
    (hfits : call.Fits state) (hapart : ((state.setUploads uploads).go caller call).Apart) :
    ((state.setUploads uploads).go caller call).Sound where
  told session entry hentry := (htold session entry hentry).keep rfl rfl
  fits other := by
    have hsame : ∀ call : UploadCall, call.Fits state →
        call.Fits ((state.setUploads uploads).go caller call) :=
      fun call hcall => hcall.keep fun _ _ => ⟨rfl, fun _ howner => howner⟩
    show (Function.update state.calls caller call other).Fits _
    by_cases hother : other = caller
    · rw [hother, Function.update_self]
      exact hfits.keep fun _ _ => ⟨rfl, fun _ howner => howner⟩
    · rw [Function.update_of_ne hother]
      exact (h.fits other).keep fun _ _ => ⟨rfl, fun _ howner => howner⟩
  apart := hapart
  logged := h.logged
  ordered := h.ordered

theorem go_sound (h : state.Sound) (caller : Nat) (call : UploadCall) (hfits : call.Fits state)
    (hserial : ∀ serial, call.serial = some serial → (state.calls caller).serial = some serial) :
    (state.go caller call).Sound := by
  refine map_sound h caller call state.uploads h.told hfits (apart_of_less h.apart ?_)
  intro place serial hplace
  have hgo := serialAt_go state caller call place
  have hplace' : (state.go caller call).serialAt place = some serial := hplace
  rw [hgo] at hplace'
  split at hplace'
  · rename_i hcaller
    rw [hcaller]
    exact hserial serial hplace'
  · exact hplace'

theorem erase_told (h : state.Sound) (session : Str) (other : Str) (entry : UploadSession)
    (hentry : (state.uploads.erase session)[other]? = some entry) : entry.Tells state := by
  have hrow := Table.getElem?_set state.uploads session other none
  have herase : state.uploads.set session none = state.uploads.erase session := rfl
  rw [← herase, hrow] at hentry
  split at hentry
  · cases hentry
  · exact h.told other entry hentry

theorem insert_told (h : state.Sound) (session : Str) (entry : UploadSession)
    (htells : entry.Tells state) (other : Str) (found : UploadSession)
    (hfound : (state.uploads.insert session entry)[other]? = some found) : found.Tells state := by
  have hrow := Table.getElem?_set state.uploads session other (some entry)
  have hinsert : state.uploads.set session (some entry) = state.uploads.insert session entry := rfl
  rw [← hinsert, hrow] at hfound
  split at hfound
  · cases hfound
    exact htells
  · exact h.told other found hfound

theorem take_sound (h : state.Sound) (caller : Nat) (session : Str) (entry : UploadSession)
    (call : UploadCall) (hentry : state.uploads[session]? = some entry) (hfits : call.Fits state)
    (hserial : call.serial = some entry.serial) :
    ((state.setUploads (state.uploads.erase session)).go caller call).Sound := by
  refine map_sound h caller call _ (erase_told h session) hfits ?_
  refine apart_of_moved h.apart (.call caller) entry.serial fun place serial hplace => ?_
  rw [serialAt_go, serialAt_erase] at hplace
  split at hplace
  · rename_i hcaller
    rw [hserial] at hplace
    exact .inl ⟨hcaller, (Option.some.inj hplace).symm⟩
  · split at hplace
    · cases hplace
    · rename_i hother
      refine .inr ⟨hplace, fun heq => hother ?_⟩
      have hmap : state.serialAt (.map session) = some entry.serial := by
        show state.uploads[session]?.map UploadSession.serial = _
        rw [hentry]
        rfl
      rw [heq] at hplace
      exact h.apart place (.map session) entry.serial hplace hmap

theorem restore_sound (h : state.Sound) (caller : Nat) (session : Str) (entry : UploadSession)
    (call : UploadCall) (htells : entry.Tells state)
    (hheld : (state.calls caller).serial = some entry.serial) (hfits : call.Fits state)
    (hserial : call.serial = none) :
    ((state.setUploads (state.uploads.insert session entry)).go caller call).Sound := by
  refine map_sound h caller call _ (insert_told h session entry htells) hfits ?_
  refine apart_of_moved h.apart (.map session) entry.serial fun place serial hplace => ?_
  rw [serialAt_go, serialAt_insert] at hplace
  split at hplace
  · rw [hserial] at hplace
    cases hplace
  · rename_i hcaller
    split at hplace
    · rename_i hmap
      exact .inl ⟨hmap, (Option.some.inj hplace).symm⟩
    · refine .inr ⟨hplace, fun heq => hcaller ?_⟩
      rw [heq] at hplace
      exact h.apart place (.call caller) entry.serial hplace hheld

theorem rewrite_sound (h : state.Sound) (caller : Nat) (session : Str)
    (entry found : UploadSession) (call : UploadCall) (htells : entry.Tells state)
    (hfound : state.uploads[session]? = some found) (hsame : entry.serial = found.serial)
    (hfits : call.Fits state) (hserial : call.serial = none) :
    ((state.setUploads (state.uploads.insert session entry)).go caller call).Sound := by
  refine map_sound h caller call _ (insert_told h session entry htells) hfits ?_
  refine apart_of_less h.apart fun place serial hplace => ?_
  rw [serialAt_go, serialAt_insert] at hplace
  split at hplace
  · rw [hserial] at hplace
    cases hplace
  · split at hplace
    · rename_i hmap
      rw [hmap, ← hplace, hsame]
      show state.uploads[session]?.map UploadSession.serial = _
      rw [hfound]
      rfl
    · exact hplace

theorem reclaim_sound (h : state.Sound) (now : Int) :
    (state.setUploads (reclaimExpired state.uploads now)).Sound where
  told session entry hentry :=
    (h.told session entry (getElem?_reclaim _ now session entry hentry)).keep rfl rfl
  fits caller := (h.fits caller).keep fun _ _ => ⟨rfl, fun _ howner => howner⟩
  apart := apart_of_less h.apart fun place serial => serialAt_reclaim state now place serial
  logged := h.logged
  ordered := h.ordered

theorem stores_sound (h : state.Sound) (stores : Stores) : (state.setStores stores).Sound where
  told session entry hentry := (h.told session entry hentry).keep rfl rfl
  fits caller := (h.fits caller).keep fun _ _ => ⟨rfl, fun _ howner => howner⟩
  apart := apart_of_less h.apart fun place serial hplace => by cases place <;> exact hplace
  logged := h.logged
  ordered := h.ordered

theorem accept_sound (h : state.Sound) {caller : Nat} {kind : SessionWrite} {session : Str}
    {request : WriteRequest} {target : UploadTarget} {began : Nat} {entry : UploadSession} {chunk : Bytes}
    {rest : List (Except Str Bytes)}
    (hcall : state.calls caller =
      .appending kind session request target began entry (.ok chunk :: rest)) :
    ((state.accept
      ⟨entry.serial, chunkStart request.contentRange, began, entry.offset, chunk⟩).go caller
        (.appending kind session request target began (entry.append chunk) rest)).Sound := by
  have hfits := h.fits caller
  rw [hcall] at hfits
  obtain ⟨htells, hindex, hname, hrange, hbegan⟩ := hfits
  have hheld : state.serialAt (.call caller) = some entry.serial := by
    show (state.calls caller).serial = _
    rw [hcall]
    rfl
  have hother : ∀ place serial, state.serialAt place = some serial → place ≠ .call caller →
      serial ≠ entry.serial := by
    rintro place serial hplace hne rfl
    exact hne (h.apart place (.call caller) _ hplace hheld)
  refine ⟨?_, ?_, ?_, ?_, ?_⟩
  · intro other found hfound
    refine (h.told other found hfound).keep (acceptedBytes_of_ne _ _ _ ?_) rfl
    refine hother (.map other) found.serial ?_ nofun
    have hfound' : state.uploads[other]? = some found := hfound
    show state.uploads[other]?.map UploadSession.serial = _
    rw [hfound']
    rfl
  · intro other
    show (Function.update state.calls caller _ other).Fits _
    by_cases hcaller : other = caller
    · rw [hcaller, Function.update_self]
      have hgrown : acceptedBytes (state.accepted ++
          [⟨entry.serial, chunkStart request.contentRange, began, entry.offset, chunk⟩])
            entry.serial = acceptedBytes state.accepted entry.serial ++ chunk := by
        rw [acceptedBytes_append, if_pos rfl]
      refine ⟨⟨?_, ?_, htells.owner⟩, hindex, hname, hrange, ?_⟩
      · show entry.offset + chunk.length = (acceptedBytes (_ ++ [_]) entry.serial).length
        rw [hgrown, List.length_append, ← htells.offset]
      · show entry.pending.bytes ++ chunk = acceptedBytes (_ ++ [_]) entry.serial
        rw [hgrown, htells.bytes]
      · show began ≤ entry.offset + chunk.length
        omega
    · rw [Function.update_of_ne hcaller]
      refine (h.fits other).keep fun serial hserial => ⟨acceptedBytes_of_ne _ _ _ ?_, fun _ ho => ho⟩
      exact hother (.call other) serial hserial fun heq => hcaller (Place.call.inj heq)
  · refine apart_of_less h.apart fun place serial hplace => ?_
    rw [serialAt_go] at hplace
    split at hplace
    · rename_i hplace'
      rw [hplace', hheld]
      exact hplace
    · cases place <;> exact hplace
  · intro acceptance hmem
    rcases List.mem_append.mp hmem with hmem | hmem
    · exact h.logged acceptance hmem
    · rw [List.mem_singleton.mp hmem]
      obtain ⟨hserial, -⟩ := List.getElem?_eq_some_iff.mp htells.owner
      exact ⟨hserial, hrange, hbegan⟩
  · intro serial
    show InOrder 0 (chunksOf (_ ++ [_]) serial)
    have hold := h.ordered serial
    unfold chunksOf at hold ⊢
    rw [List.filter_append]
    by_cases hserial : entry.serial = serial
    · rw [List.filter_cons_of_pos (by simpa using hserial)]
      refine inOrder_append _ _ _ hold ?_
      rw [Nat.zero_add, ← hserial]
      exact htells.offset
    · rw [List.filter_cons_of_neg (by simpa using hserial), List.filter_nil, List.append_nil]
      exact hold

theorem opened_of_place (h : state.Sound) {place : Place} {serial : Nat}
    (hplace : state.serialAt place = some serial) : serial < state.opened.length := by
  have htold : ∀ entry : UploadSession, entry.Tells state → entry.serial < state.opened.length :=
    fun entry htells => (List.getElem?_eq_some_iff.mp htells.owner).1
  cases place with
  | map session =>
    obtain ⟨entry, hentry, rfl⟩ := Option.map_eq_some_iff.mp hplace
    exact htold entry (h.told session entry hentry)
  | call caller =>
    have hfits := h.fits caller
    have hserial : (state.calls caller).serial = some serial := hplace
    cases hcall : state.calls caller with
    | appending kind session request target began entry rest =>
      rw [hcall] at hfits hserial
      cases hserial
      exact htold entry hfits.1
    | restoring session entry outcome =>
      rw [hcall] at hfits hserial
      cases hserial
      exact htold entry hfits.1
    | aborting entry =>
      rw [hcall] at hfits hserial
      cases hserial
      exact htold entry hfits
    | committing request target pending digest held =>
      rw [hcall] at hfits hserial
      cases held with
      | none => cases hserial
      | some held =>
        cases hserial
        exact (List.getElem?_eq_some_iff.mp hfits.2).1
    | _ =>
      rw [hcall] at hserial
      cases hserial

theorem accepted_fresh (h : state.Sound) : acceptedBytes state.accepted state.opened.length = [] := by
  unfold acceptedBytes chunksOf
  rw [List.filter_eq_nil_iff.mpr, List.flatMap_nil]
  intro acceptance hmem heq
  have hlogged := (h.logged acceptance hmem).1
  rw [beq_iff_eq] at heq
  omega

theorem open_sound (h : state.Sound) (caller : Nat) (index name session : Str) (now : Int)
    (call : UploadCall) (hfits : call.Fits state) (hserial : call.serial = none) :
    (((state.open_ index name).setUploads ((reclaimExpired state.uploads now).insert session
      ⟨{}, 0, index, name, now, state.opened.length⟩)).go caller call).Sound := by
  have hkeep : ∀ (serial : Nat) owner, state.opened[serial]? = some owner →
      (state.opened ++ [(index, name)])[serial]? = some owner := by
    intro serial owner howner
    obtain ⟨hlength, -⟩ := List.getElem?_eq_some_iff.mp howner
    rw [List.getElem?_append_left hlength, howner]
  refine ⟨?_, ?_, ?_, ?_, h.ordered⟩
  · intro other found hfound
    have hrow := Table.getElem?_set (reclaimExpired state.uploads now) session other
      (some ⟨{}, 0, index, name, now, state.opened.length⟩)
    have hfound' : ((reclaimExpired state.uploads now).set session
      (some ⟨{}, 0, index, name, now, state.opened.length⟩))[other]? = some found := hfound
    rw [hrow] at hfound'
    split at hfound'
    · cases hfound'
      have hempty := accepted_fresh h
      refine ⟨?_, hempty.symm, List.getElem?_concat_length⟩
      show 0 = (acceptedBytes state.accepted state.opened.length).length
      rw [hempty]
      rfl
    · have htells := h.told other found (getElem?_reclaim _ now other found hfound')
      exact ⟨htells.offset, htells.bytes, hkeep _ _ htells.owner⟩
  · intro other
    show (Function.update state.calls caller call other).Fits _
    by_cases hother : other = caller
    · rw [hother, Function.update_self]
      exact hfits.keep fun serial _ => ⟨rfl, hkeep serial⟩
    · rw [Function.update_of_ne hother]
      exact (h.fits other).keep fun serial _ => ⟨rfl, hkeep serial⟩
  · refine apart_of_moved h.apart (.map session) state.opened.length fun place serial hplace => ?_
    rw [serialAt_go] at hplace
    split at hplace
    · rw [hserial] at hplace
      cases hplace
    · have hold : place = .map session ∧ serial = state.opened.length ∨
          state.serialAt place = some serial := by
        by_cases hmap : place = .map session
        · have hrow := serialAt_insert
            ((state.open_ index name).setUploads (reclaimExpired state.uploads now)) session
            ⟨{}, 0, index, name, now, state.opened.length⟩ place
          rw [if_pos hmap] at hrow
          exact .inl ⟨hmap, Option.some.inj (hplace.symm.trans hrow)⟩
        · have hrow := serialAt_insert
            ((state.open_ index name).setUploads (reclaimExpired state.uploads now)) session
            ⟨{}, 0, index, name, now, state.opened.length⟩ place
          rw [if_neg hmap] at hrow
          refine .inr (serialAt_reclaim state now place serial ?_)
          rw [← hplace]
          exact hrow.symm
      rcases hold with hnew | hold
      · exact .inl hnew
      · exact .inr ⟨hold, fun heq => by have := opened_of_place h hold; omega⟩
  · intro acceptance hmem
    obtain ⟨hopened, hrest⟩ := h.logged acceptance hmem
    refine ⟨?_, hrest⟩
    show acceptance.serial < (state.opened ++ [(index, name)]).length
    rw [List.length_append]
    omega

theorem sessionOf_eq_some (uploads : UploadMap) (index name session : Str) (entry : UploadSession) :
    sessionOf uploads index name session = some entry ↔
      uploads[session]? = some entry ∧ entry.index = index ∧ entry.name = name := by
  unfold sessionOf UploadSession.belongsTo
  rw [Option.filter_eq_some_iff, Bool.and_eq_true, beq_iff_eq, beq_iff_eq]

theorem touch_serial (kind : SessionWrite) (entry : UploadSession) (now : Int) :
    (kind.touch entry now).serial = entry.serial := by
  cases kind <;> rfl

theorem UploadSession.Tells.touch {entry : UploadSession} (h : entry.Tells state)
    (kind : SessionWrite) (now : Int) : (kind.touch entry now).Tells state := by
  cases kind
  · exact ⟨h.offset, h.bytes, h.owner⟩
  · exact h

theorem touch_owner (kind : SessionWrite) (entry : UploadSession) (now : Int) :
    (kind.touch entry now).index = entry.index ∧ (kind.touch entry now).name = entry.name ∧
      (kind.touch entry now).offset = entry.offset ∧ (kind.touch entry now).pending = entry.pending := by
  cases kind <;> exact ⟨rfl, rfl, rfl, rfl⟩

theorem taken_fits (kind : SessionWrite) (session : Str) (request : WriteRequest)
    (target : UploadTarget) {entry : UploadSession} (h : entry.Tells state)
    (hindex : entry.index = target.index.name) (hname : entry.name = request.name) :
    (taken kind session request target entry).Fits state ∧
      (taken kind session request target entry).serial = some entry.serial := by
  unfold taken
  split
  · rename_i hrange
    exact ⟨⟨h, hindex, hname, hrange, Nat.le_refl _⟩, rfl⟩
  · refine ⟨⟨h, ?_⟩, rfl⟩
    rintro kind' name ⟨⟩
    exact hname

theorem appended_fits (kind : SessionWrite) (session : Str) (request : WriteRequest)
    (target : UploadTarget) {entry : UploadSession} (h : entry.Tells state)
    (hindex : entry.index = target.index.name) (hname : entry.name = request.name) :
    (appended kind session request target entry).Fits state ∧
      (appended kind session request target entry).serial = some entry.serial := by
  unfold appended
  cases kind with
  | patch =>
    refine ⟨⟨h, ?_⟩, rfl⟩
    rintro kind' name ⟨⟩
    exact hname
  | finish =>
    dsimp only
    cases request.params (str "digest") with
    | none => exact ⟨⟨h, nofun⟩, rfl⟩
    | some digest =>
      refine ⟨⟨h.bytes, ?_⟩, rfl⟩
      rw [← hindex, ← hname]
      exact h.owner

section Steps
variable {sha256 : Bytes → Str} {indexes : Indexes} {event : UploadEvent}

theorem entered_fits (method : UploadMethod) (request : WriteRequest) :
    (entered indexes method request).Fits state ∧ (entered indexes method request).serial = none := by
  unfold entered
  cases targetOf indexes request with
  | error reply => exact ⟨trivial, rfl⟩
  | ok target =>
    cases method with
    | start =>
      dsimp only [routed]
      rcases mountOf indexes request with reply | - | mount <;> exact ⟨trivial, rfl⟩
    | _ => exact ⟨trivial, rfl⟩

theorem act_sound (h : state.Sound) {caller : Nat}
    (hstep : UploadStep sha256 indexes caller state event next) : next.Sound := by
  have hfits := h.fits caller
  cases hstep with
  | enter method request hcall =>
    have hentered : (entered indexes method request).Fits state ∧
        (entered indexes method request).serial = none := entered_fits method request
    obtain ⟨hnext, hserial⟩ := hentered
    exact go_sound h caller _ hnext fun serial hsome => by rw [hserial] at hsome; cases hsome
  | mountFound request target mount member members hcall hmember =>
    refine go_sound h caller _ ?_ fun serial hsome => ?_
    · split <;> exact trivial
    · split at hsome <;> cases hsome
  | mountHeld | mountAbsent | mountNext | mountDenied | beginWrite | beginSession | write
  | writeDenied | writeFailed | writeDone | takeUnknown | appendDenied | stagePanicked
  | askUnknown | cancelUnknown | aborted | abortPanicked | commitRefused | commitMismatch | commitPanicked
  | failed =>
    exact go_sound h caller _ trivial nofun
  | link | commit | record =>
    exact go_sound (stores_sound h _) caller _ trivial nofun
  | openSession request target now session hcall hfree =>
    exact open_sound h caller target.index.name request.name session now _ trivial rfl
  | take kind session request target entry now hcall hentry =>
    obtain ⟨hrow, hindex, hname⟩ := (sessionOf_eq_some _ _ _ _ _).mp hentry
    obtain ⟨hindex', hname', -, -⟩ := touch_owner kind entry now
    obtain ⟨hnext, hserial⟩ := taken_fits kind session request target
      ((h.told session entry hrow).touch kind now) (hindex'.trans hindex) (hname'.trans hname)
    rw [touch_serial] at hserial
    exact take_sound h caller session entry _ hrow hnext hserial
  | append kind session request target began entry chunk rest hcall hlimit =>
    exact accept_sound h hcall
  | bodyFailed kind session request target began entry message rest hcall =>
    rw [hcall] at hfits
    exact go_sound h caller _ ⟨hfits.1, nofun⟩ fun serial hsome => by rw [hcall]; exact hsome
  | stageFailed kind session request target began entry chunk rest hcall =>
    rw [hcall] at hfits
    obtain ⟨htells, -⟩ := hfits
    exact go_sound h caller _ ⟨⟨htells.offset, htells.bytes, htells.owner⟩, nofun⟩
      fun serial hsome => by rw [hcall]; exact hsome
  | appendDone kind session request target began entry hcall =>
    rw [hcall] at hfits
    obtain ⟨hnext, hserial⟩ := appended_fits kind session request target hfits.1 hfits.2.1 hfits.2.2.1
    refine go_sound h caller _ hnext fun serial hsome => ?_
    rw [hserial] at hsome
    rw [hcall]
    exact hsome
  | restoreProgress session entry kind name hcall =>
    rw [hcall] at hfits
    exact restore_sound h caller session entry _ hfits.1 (by rw [hcall]; rfl) trivial rfl
  | restoreRefused session entry reply hcall =>
    rw [hcall] at hfits
    exact restore_sound h caller session entry _ hfits.1 (by rw [hcall]; rfl) trivial rfl
  | restoreFault session entry hcall =>
    rw [hcall] at hfits
    exact restore_sound h caller session entry _ hfits.1 (by rw [hcall]; rfl) trivial rfl
  | ask session request target entry now hcall hentry =>
    obtain ⟨hrow, -, -⟩ := (sessionOf_eq_some _ _ _ _ _).mp hentry
    have htells := h.told session entry hrow
    exact rewrite_sound h caller session { entry with lastActiveAt := now } entry _
      ⟨htells.offset, htells.bytes, htells.owner⟩ hrow rfl trivial rfl
  | cancel session request target entry hcall hentry =>
    obtain ⟨hrow, -, -⟩ := (sessionOf_eq_some _ _ _ _ _).mp hentry
    exact take_sound h caller session entry _ hrow (h.told session entry hrow) rfl

theorem step_sound (h : state.Sound) (hstep : RegistryStep sha256 indexes state event next) :
    next.Sound := by
  cases hstep with
  | arrive caller method request hcall => exact go_sound h caller _ trivial nofun
  | act caller event next hact => exact act_sound h hact
  | leave caller => exact go_sound h caller _ trivial nofun
  | reclaim now => exact reclaim_sound h now
  | elsewhere stores => exact stores_sound h stores

theorem registry_sound (state : Registry) (h : (registrySystem sha256 indexes).Reachable state) :
    state.Sound := by
  refine (registrySystem sha256 indexes).invariant Registry.Sound ?_ ?_ state h
  · rintro state ⟨stores, rfl⟩
    refine ⟨?_, fun _ => trivial, ?_, nofun, fun _ => trivial⟩
    · intro session entry hentry
      have hrow : (∅ : UploadMap)[session]? = some entry := hentry
      rw [Std.ExtTreeMap.getElem?_empty] at hrow
      cases hrow
    · rintro (session | caller) q serial hp hq
      · have hrow : (∅ : UploadMap)[session]?.map UploadSession.serial = some serial := hp
        rw [Std.ExtTreeMap.getElem?_empty] at hrow
        cases hrow
      · cases hp
  · intro state next _ hsound ⟨event, hstep⟩
    exact step_sound hsound hstep

end Steps
end Peryx.Oci
