import Peryx.Oci.BlobMemberships

/-! # The blob membership cache along every interleaving -/

namespace Peryx.Oci
open Storage BlobMembershipCache

variable {state next : Memberships} {event : MembershipEvent}

def IsMembershipKey (key : Str) : Prop := blobMembershipPrefixAll <+: key

theorem blobMembershipKey_isKey (index repo digest : Str) :
    IsMembershipKey (blobMembershipKey index repo digest) := by
  rw [blobMembershipKey_eq]
  exact List.prefix_append _ _

def MembershipCall.Fits (state : Memberships) (caller : Nat) : MembershipCall → Prop
  | .idle | .failed => True
  | .looking key | .missed key | .answering key _ | .deleting key | .returning key _ =>
    IsMembershipKey key
  | .asking key | .forgetting key | .deleted key _ => IsMembershipKey key ∧ state.writer = some caller
  | .asked key cached present =>
    IsMembershipKey key ∧ state.writer = some caller ∧ (cached = true ↔ key ∈ state.cache.entries) ∧
      (present = true → state.recorded key = true)
  | .forgotten key => IsMembershipKey key ∧ state.writer = some caller ∧ key ∉ state.cache.entries
  | .panicked => False

structure Memberships.Coherent (state : Memberships) : Prop where
  sound : state.cache.Sound blobMembershipCacheBytes
  covered : ∀ key ∈ state.cache.entries, IsMembershipKey key ∧ state.recorded key = true
  fits : ∀ caller, (state.calls caller).Fits state caller

theorem MembershipCall.Fits.holds {call : MembershipCall} {caller : Nat} (h : call.Fits state caller)
    (hlocked : call.Locked) : state.writer = some caller := by
  cases call with
  | idle | looking | missed | answering | deleting | returning | failed | panicked => cases hlocked
  | asking key | forgetting key | deleted key existed => exact h.2
  | asked key cached present => exact h.2.1
  | forgotten key => exact h.2.1

theorem MembershipCall.Fits.unlocked {call : MembershipCall} {caller : Nat}
    (h : call.Fits state caller) (hlocked : ¬ call.Locked) (next : Memberships) :
    call.Fits next caller := by
  cases call with
  | idle | looking | missed | answering | deleting | returning | failed | panicked => exact h
  | asking | forgetting | deleted | asked | forgotten => exact absurd trivial hlocked

theorem go_coherent (h : state.Coherent) (caller : Nat) (call : MembershipCall)
    (hfits : call.Fits state caller) : (state.go caller call).Coherent where
  sound := h.sound
  covered := h.covered
  fits other := by
    have hcall : call.Fits (state.go caller call) caller := by cases call <;> exact hfits
    by_cases hother : other = caller
    · subst hother
      show (Function.update state.calls other call other).Fits _ other
      rw [Function.update_self]
      exact hcall
    · show (Function.update state.calls caller call other).Fits _ other
      rw [Function.update_of_ne hother]
      have hold := h.fits other
      cases hplace : state.calls other <;> rw [hplace] at hold <;> exact hold

def Memberships.Alone (state : Memberships) (caller : Nat) : Prop :=
  ∀ other, other ≠ caller → ¬ (state.calls other).Locked

theorem alone_of_locked (h : state.Coherent) {caller : Nat} (hlocked : (state.calls caller).Locked) :
    state.Alone caller := by
  intro other hother hboth
  have hcaller := (h.fits caller).holds hlocked
  rw [(h.fits other).holds hboth] at hcaller
  exact hother (Option.some.inj hcaller)

theorem alone_of_free (h : state.Coherent) (hfree : state.writer = none) (caller : Nat) :
    state.Alone caller := by
  intro other _ hlocked
  rw [(h.fits other).holds hlocked] at hfree
  cases hfree

theorem alone_coherent (h : state.Coherent) {caller : Nat} (halone : state.Alone caller)
    (changed : Memberships) (call : MembershipCall) (hcalls : changed.calls = state.calls)
    (hsound : changed.cache.Sound blobMembershipCacheBytes)
    (hcovered : ∀ key ∈ changed.cache.entries, IsMembershipKey key ∧ changed.recorded key = true)
    (hfits : call.Fits changed caller) : (changed.go caller call).Coherent where
  sound := hsound
  covered := hcovered
  fits other := by
    have hcall : call.Fits (changed.go caller call) caller := by cases call <;> exact hfits
    by_cases hother : other = caller
    · subst hother
      show (Function.update changed.calls other call other).Fits _ other
      rw [Function.update_self]
      exact hcall
    · show (Function.update changed.calls caller call other).Fits _ other
      rw [Function.update_of_ne hother, hcalls]
      exact (h.fits other).unlocked (halone other hother) _

theorem stores_coherent (h : state.Coherent) (stores : Stores)
    (hkept : ∀ key : Str, IsMembershipKey key → state.recorded key = true →
      stores.rows[key]?.isSome = true) : Memberships.Coherent { state with stores } where
  sound := h.sound
  covered key hkey := ⟨(h.covered key hkey).1, hkept key (h.covered key hkey).1 (h.covered key hkey).2⟩
  fits caller := by
    have hold := h.fits caller
    cases hplace : state.calls caller with
    | asked key cached present =>
      rw [hplace] at hold
      exact ⟨hold.1, hold.2.1, hold.2.2.1, fun hpresent => hkept key hold.1 (hold.2.2.2 hpresent)⟩
    | _ =>
      rw [hplace] at hold
      exact hold

theorem eraseRow_recorded (key other : Str) (stores : Stores) (h : other ≠ key) :
    (stores.eraseRow key).rows[other]? = stores.rows[other]? := by
  rw [Stores.eraseRow_getElem?, if_neg h.symm]

theorem remember_sound (h : state.Coherent) {caller : Nat} {key : Str} {cached present : Bool}
    (hcall : state.calls caller = .asked key cached present) :
    ∃ cache, state.remembered key cached present = some cache ∧
      cache.Sound blobMembershipCacheBytes ∧
      ∀ other ∈ cache.entries, IsMembershipKey other ∧ state.recorded other = true := by
  have hfits := h.fits caller
  rw [hcall] at hfits
  obtain ⟨hkey, -, hcached, hpresent⟩ := hfits
  unfold Memberships.remembered
  split
  · rename_i hnew
    rw [Bool.and_eq_true, Bool.not_eq_true'] at hnew
    have hmiss : key ∉ state.cache.entries := by
      rw [← hcached, hnew.2]
      exact Bool.false_ne_true
    obtain ⟨cache, hinsert, hsound, hsub⟩ := insert_sound h.sound key hmiss
    refine ⟨cache, hinsert, hsound, fun other hother => ?_⟩
    rcases hsub other hother with rfl | hold
    · exact ⟨hkey, hpresent hnew.1⟩
    · exact h.covered other hold
  · exact ⟨state.cache, rfl, h.sound, h.covered⟩

theorem step_coherent (h : state.Coherent) (hstep : MembershipStep state event next) :
    next.Coherent := by
  cases hstep with
  | lookup caller index repo digest hcall =>
    exact go_coherent h caller _ (blobMembershipKey_isKey index repo digest)
  | hit caller key hcall hfree hhit | miss caller key hcall hfree hmiss =>
    have hfits := h.fits caller
    rw [hcall] at hfits
    exact go_coherent h caller _ hfits
  | lockLookup caller key hcall hfree | lockDelete caller key hcall hfree =>
    have hfits := h.fits caller
    rw [hcall] at hfits
    exact alone_coherent h (alone_of_free h hfree caller) (state.lock caller) _ rfl h.sound h.covered
      ⟨hfits, rfl⟩
  | ask caller key hcall =>
    have hfits := h.fits caller
    rw [hcall] at hfits
    refine go_coherent h caller _ ⟨hfits.1, hfits.2, decide_eq_true_iff, fun hpresent => ?_⟩
    rcases Bool.or_eq_true_iff.mp hpresent with hcached | hrecorded
    · exact (h.covered key (of_decide_eq_true hcached)).2
    · exact hrecorded
  | askFailed caller key hcall | deleteFailed caller key hcall =>
    have halone : state.Alone caller := alone_of_locked h (by rw [hcall]; trivial)
    exact alone_coherent h halone state.unlock _ rfl h.sound h.covered trivial
  | remember caller key cached present cache hcall hcache =>
    have halone : state.Alone caller := alone_of_locked h (by rw [hcall]; trivial)
    obtain ⟨cache', hcache', hsound, hcovered⟩ := remember_sound h hcall
    rw [hcache] at hcache'
    cases hcache'
    have hfits := h.fits caller
    rw [hcall] at hfits
    exact alone_coherent h halone { state.unlock with cache } _ rfl hsound hcovered hfits.1
  | insertPanicked caller key cached present hcall hcache =>
    obtain ⟨cache, hcache', -⟩ := remember_sound h hcall
    rw [hcache] at hcache'
    cases hcache'
  | answer caller key present hcall | deleteReturn caller key existed hcall
  | failedReturn caller hcall =>
    exact go_coherent h caller _ trivial
  | delete caller index repo digest hcall =>
    exact go_coherent h caller _ (blobMembershipKey_isKey index repo digest)
  | forget caller key cache hcall hcache =>
    have halone : state.Alone caller := alone_of_locked h (by rw [hcall]; trivial)
    obtain ⟨cache', hcache', hsound, hentries⟩ := remove_sound h.sound key
    rw [hcache] at hcache'
    cases hcache'
    have hfits := h.fits caller
    rw [hcall] at hfits
    refine alone_coherent h halone { state with cache } _ rfl hsound ?_ ⟨hfits.1, hfits.2, ?_⟩
    · exact fun other hother => h.covered other ((hentries other).mp hother).2
    · exact fun hmem => ((hentries key).mp hmem).1 rfl
  | removePanicked caller key hcall hcache =>
    obtain ⟨cache, hcache', -⟩ := remove_sound h.sound key
    rw [hcache] at hcache'
    cases hcache'
  | deleteRow caller key hcall | deleteUnsure caller key hcall =>
    have halone : state.Alone caller := alone_of_locked h (by rw [hcall]; trivial)
    have hfits := h.fits caller
    rw [hcall] at hfits
    have hcovered : ∀ other ∈ state.cache.entries,
        IsMembershipKey other ∧ (state.stores.eraseRow key).rows[other]?.isSome = true := by
      intro other hother
      have hne : other ≠ key := by
        rintro rfl
        exact hfits.2.2 hother
      rw [eraseRow_recorded key other _ hne]
      exact h.covered other hother
    first
    | exact alone_coherent h halone { state with stores := state.stores.eraseRow key } _ rfl h.sound
        hcovered ⟨hfits.1, hfits.2.1⟩
    | exact alone_coherent h halone { state.unlock with stores := state.stores.eraseRow key } _ rfl
        h.sound hcovered trivial
  | unlockDelete caller key existed hcall =>
    have halone : state.Alone caller := alone_of_locked h (by rw [hcall]; trivial)
    have hfits := h.fits caller
    rw [hcall] at hfits
    exact alone_coherent h halone state.unlock _ rfl h.sound h.covered hfits.1
  | record index repo digest =>
    refine stores_coherent h _ fun key _ hrecorded => ?_
    rw [Stores.putRow_getElem?]
    split
    · rfl
    · exact hrecorded
  | elsewhere stores hrows =>
    refine stores_coherent h stores fun key hkey hrecorded => ?_
    rw [hrows key hkey]
    exact hrecorded

theorem memberships_coherent (state : Memberships) (h : membershipSystem.Reachable state) :
    state.Coherent := by
  refine membershipSystem.invariant Memberships.Coherent ?_ ?_ state h
  · rintro state ⟨stores, rfl⟩
    exact ⟨empty_sound, fun key hkey => absurd hkey Std.ExtTreeSet.not_mem_empty, fun _ => trivial⟩
  · intro state next _ hcoherent ⟨event, hstep⟩
    exact step_coherent hcoherent hstep

theorem step_calls (h : state.Coherent) (hstep : MembershipStep state event next) :
    next.calls = state.calls ∨ ∃ caller call, next.calls = Function.update state.calls caller call ∧
      ∀ key, call = .answering key true → state.recorded key = true := by
  cases hstep with
  | hit caller key hcall hfree hhit =>
    refine .inr ⟨caller, _, rfl, fun other heq => ?_⟩
    cases heq
    exact (h.covered key hhit).2
  | remember caller key cached present cache hcall hcache =>
    refine .inr ⟨caller, _, rfl, fun other heq => ?_⟩
    cases heq
    have hfits := h.fits caller
    rw [hcall] at hfits
    exact hfits.2.2.2 rfl
  | record | elsewhere => exact .inl rfl
  | _ => exact .inr ⟨_, _, rfl, nofun⟩

theorem recorded_of_step {key : Str} (hkey : IsMembershipKey key)
    (hstep : MembershipStep state event next) (hevent : event ≠ .recorded key)
    (hgone : state.recorded key = false) : next.recorded key = false := by
  cases hstep with
  | deleteRow caller other hcall | deleteUnsure caller other hcall =>
    show (state.stores.eraseRow other).rows[key]?.isSome = false
    rw [Stores.eraseRow_getElem?]
    split
    · rfl
    · exact hgone
  | record index repo digest =>
    show (state.stores.putRow _ []).rows[key]?.isSome = false
    rw [Stores.putRow_getElem?, if_neg fun heq => hevent (by rw [heq])]
    exact hgone
  | elsewhere stores hrows =>
    show stores.rows[key]?.isSome = false
    rw [hrows key hkey]
    exact hgone
  | _ => exact hgone

structure Memberships.Gone (key : Str) (caller : Nat) (state : Memberships) : Prop where
  coherent : state.Coherent
  isKey : IsMembershipKey key
  unrecorded : state.recorded key = false
  undecided : state.calls caller ≠ .answering key true

theorem gone_step {key : Str} {caller : Nat} (h : state.Gone key caller)
    (hstep : MembershipStep state event next) (hevent : event ≠ .recorded key) :
    next.Gone key caller where
  coherent := step_coherent h.coherent hstep
  isKey := h.isKey
  unrecorded := recorded_of_step h.isKey hstep hevent h.unrecorded
  undecided := by
    rcases step_calls h.coherent hstep with hcalls | ⟨other, call, hcalls, hanswer⟩
    · rw [hcalls]
      exact h.undecided
    · rw [hcalls]
      by_cases hother : caller = other
      · rw [hother, Function.update_self]
        intro hcall
        have hrecorded := hanswer key hcall
        rw [h.unrecorded] at hrecorded
        cases hrecorded
      · rw [Function.update_of_ne hother]
        exact h.undecided

theorem gone_run {key : Str} {caller : Nat} {after : Memberships} (h : state.Gone key caller)
    (hrun : Unrecorded key state after) : after.Gone key caller := by
  induction hrun with
  | refl => exact h
  | step next after event hprev hstep hevent ih => exact gone_step ih hstep hevent

theorem unrecorded_of_deleted {key : Str} {caller : Nat} {after : Memberships} (h : state.Coherent)
    (hdelete : MembershipStep state (.rowDeleted caller key) next)
    (hrun : Unrecorded key next after) :
    after.Coherent ∧ IsMembershipKey key ∧ after.recorded key = false := by
  have hkey : IsMembershipKey key := by
    cases hdelete with
    | deleteRow _ _ hcall | deleteUnsure _ _ hcall =>
      have hfits := h.fits caller
      rw [hcall] at hfits
      exact hfits.1
  have herased : next.recorded key = false := by
    cases hdelete with
    | deleteRow _ _ hcall | deleteUnsure _ _ hcall =>
      show (state.stores.eraseRow key).rows[key]?.isSome = false
      rw [Stores.eraseRow_getElem?, if_pos rfl]
      rfl
  have hafter : after.Coherent ∧ after.recorded key = false := by
    induction hrun with
    | refl => exact ⟨step_coherent h hdelete, herased⟩
    | step middle after event hprev hstep hevent ih =>
      exact ⟨step_coherent ih.1 hstep, recorded_of_step hkey hstep hevent ih.2⟩
  exact ⟨hafter.1, hkey, hafter.2⟩

/-- The entries are the keys in the order of insertion, each once and weighed, and no call fails
an expectation. After the row of a membership is deleted the cache does not have it, and no
lookup that begins answers that it is there, as long as it is not recorded again. -/
theorem blobMemberships_coherent (state : Memberships) (h : membershipSystem.Reachable state) :
    state.cache.Sound blobMembershipCacheBytes ∧ (∀ caller, state.calls caller ≠ .panicked) ∧
    ∀ deleter key deleted after, MembershipStep state (.rowDeleted deleter key) deleted →
      Unrecorded key deleted after →
      key ∉ after.cache.entries ∧
      ∀ caller begun last final present, MembershipStep after (.lookup caller key) begun →
        Unrecorded key begun last → MembershipStep last (.answered caller key present) final →
        present = false := by
  have hcoherent := memberships_coherent state h
  refine ⟨hcoherent.sound, fun caller hcall => ?_, ?_⟩
  · have hfits := hcoherent.fits caller
    rw [hcall] at hfits
    exact hfits
  · intro deleter key deleted after hdelete hrun
    obtain ⟨hafter, hkey, hgone⟩ := unrecorded_of_deleted hcoherent hdelete hrun
    refine ⟨fun hmem => ?_, ?_⟩
    · have hrecorded := (hafter.covered key hmem).2
      rw [hgone] at hrecorded
      cases hrecorded
    · intro caller begun last final present hbegin hquiet hanswer
      have hstart : begun.Gone key caller := by
        refine ⟨step_coherent hafter hbegin, hkey, recorded_of_step hkey hbegin nofun hgone, ?_⟩
        cases hbegin with
        | lookup _ index repo digest hcall =>
          show Function.update after.calls caller _ caller ≠ _
          rw [Function.update_self]
          exact nofun
      have hlast := gone_run hstart hquiet
      cases hanswer with
      | answer _ _ _ hcall =>
        cases present with
        | false => rfl
        | true => exact absurd hcall hlast.undecided

def exampleKey : Str := blobMembershipKey (str "hosted") (str "app") (str "sha256:0")

def exampleStart : Memberships := { stores := Stores.putRow {} exampleKey [] }

theorem remove_empty (key : Str) : BlobMembershipCache.remove {} key = some {} :=
  if_neg Std.ExtTreeSet.not_mem_empty

/-- A call deletes a membership; another one looks it up. -/
theorem blobMemberships_coherent_example : ∃ last : Memberships,
    (∃ present, last.calls 1 = .answering exampleKey present) ∧
    ∀ final present, MembershipStep last (.answered 1 exampleKey present) final →
      present = false := by
  have hstart : membershipSystem.Reachable exampleStart := .start _ ⟨_, rfl⟩
  have hdeleting := hstart.step _ _ ⟨_, .delete 0 (str "hosted") (str "app") (str "sha256:0") rfl⟩
  have hforgetting := hdeleting.step _ _ ⟨_, .lockDelete 0 exampleKey rfl rfl⟩
  have hforgotten := hforgetting.step _ _ ⟨_, .forget 0 exampleKey {} rfl (remove_empty _)⟩
  have hdeleted := (blobMemberships_coherent _ hforgotten).2.2 0 exampleKey _ _
    (.deleteRow 0 exampleKey rfl)
    (.step _ _ _ (.step _ _ _ .refl (.unlockDelete 0 exampleKey _ rfl) nofun)
      (.deleteReturn 0 exampleKey _ rfl) nofun)
  refine ⟨_, ?_, fun final present => hdeleted.2 1 _ _ final present
    (.lookup 1 (str "hosted") (str "app") (str "sha256:0") rfl)
    (.step _ _ _ (.step _ _ _ (.step _ _ _ (.step _ _ _ .refl
      (.miss 1 exampleKey rfl rfl Std.ExtTreeSet.not_mem_empty) nofun)
      (.lockLookup 1 exampleKey rfl rfl) nofun)
      (.ask 1 exampleKey rfl) nofun)
      (.remember 1 exampleKey _ _ {} rfl (if_neg (by decide +kernel))) nofun)⟩
  exact ⟨_, rfl⟩

end Peryx.Oci
