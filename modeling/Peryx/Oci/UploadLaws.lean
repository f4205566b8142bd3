import Peryx.Oci.UploadSessions

/-!
# What clients of upload sessions may rely on
-/

namespace Peryx.Oci
open Storage

def UploadCall.aim : UploadCall → Option (WriteRequest × UploadTarget)
  | .mounting request target _ | .authorizing request target _ _ | .linking request target _
  | .beginning request target | .writing request target _ _ _ _ | .opening request target
  | .taking _ _ request target | .appending _ _ request target _ _ _ | .asking _ request target
  | .cancelling _ request target | .committing request target _ _ _
  | .recording request target _ => some (request, target)
  | .idle | .arrived _ _ | .restoring _ _ _ | .aborting _ | .replied _ | .panicked => none

theorem targetOf_unique {indexes : Indexes} {request other : WriteRequest}
    {target target' : UploadTarget} (h : targetOf indexes request = .ok target)
    (h' : targetOf indexes other = .ok target') (hname : request.name = other.name) :
    target = target' := by
  have hresolved : ∀ (request : WriteRequest) (target : UploadTarget),
      targetOf indexes request = .ok target → ∃ index repo,
        resolve indexes.toList request.name = some (index, repo) ∧
          writeTarget indexes index = some target.index ∧ target.repo = repo := by
    intro request target h
    unfold targetOf resolveWritable at h
    cases hresolve : resolve indexes.toList request.name with
    | none => simp [hresolve] at h
    | some found =>
      obtain ⟨index, repo⟩ := found
      rw [hresolve] at h
      dsimp only at h
      cases hwrite : writeTarget indexes index with
      | none => simp [hwrite] at h
      | some into =>
        rw [hwrite] at h
        dsimp only at h
        cases hauth : (request.identify into.acl).authorize into.acl repo request.name .write with
        | ok =>
          rw [hauth] at h
          cases h
          exact ⟨index, repo, rfl, hwrite, rfl⟩
        | error denial => cases denial <;> simp [hauth] at h
  obtain ⟨index, repo, hresolve, hwrite, hrepo⟩ := hresolved request target h
  obtain ⟨index', repo', hresolve', hwrite', hrepo'⟩ := hresolved other target' h'
  rw [hname, hresolve'] at hresolve
  cases hresolve
  rw [hwrite] at hwrite'
  cases target
  cases target'
  cases hwrite'
  cases hrepo
  cases hrepo'
  rfl

section Laws
variable {sha256 : Bytes → Str} {indexes : Indexes} {state next : Registry}
variable {event : UploadEvent} {caller : Nat}

theorem go_calls (state : Registry) (caller : Nat) (call : UploadCall) :
    (state.go caller call).calls caller = call := Function.update_self ..

theorem calls_of_step (h : UploadStep sha256 indexes caller state event next) (other : Nat)
    (hother : other ≠ caller) : next.calls other = state.calls other := by
  cases h <;> exact Function.update_of_ne hother _ _

theorem aim_taken (kind : SessionWrite) (session : Str) (request : WriteRequest)
    (target : UploadTarget) (entry : UploadSession) (aim : WriteRequest × UploadTarget)
    (h : (taken kind session request target entry).aim = some aim) : (request, target) = aim := by
  unfold taken at h
  split at h <;> cases h
  rfl

theorem aim_appended (kind : SessionWrite) (session : Str) (request : WriteRequest)
    (target : UploadTarget) (entry : UploadSession) (aim : WriteRequest × UploadTarget)
    (h : (appended kind session request target entry).aim = some aim) :
    (request, target) = aim := by
  unfold appended at h
  cases kind with
  | patch => cases h
  | finish =>
    dsimp only at h
    split at h <;> cases h
    rfl

theorem aim_entered (method : UploadMethod) (request : WriteRequest) (aim : WriteRequest × UploadTarget)
    (h : (entered indexes method request).aim = some aim) :
    aim.1 = request ∧ targetOf indexes request = .ok aim.2 := by
  unfold entered at h
  cases htarget : targetOf indexes request with
  | error reply => rw [htarget] at h; cases h
  | ok target =>
    rw [htarget] at h
    have haim : (request, target) = aim := by
      cases method with
      | start =>
        dsimp only [routed] at h
        split at h <;> cases h <;> rfl
      | _ => cases h; rfl
    cases haim
    exact ⟨rfl, rfl⟩

theorem aim_of_step (h : UploadStep sha256 indexes caller state event next)
    (aim : WriteRequest × UploadTarget) (haim : (next.calls caller).aim = some aim) :
    (state.calls caller).aim = some aim ∨ targetOf indexes aim.1 = .ok aim.2 := by
  cases h with
  | enter method request hcall =>
    rw [go_calls] at haim
    obtain ⟨hrequest, htarget⟩ := aim_entered method request aim haim
    rw [hrequest]
    exact .inr htarget
  | mountFound request target mount member members hcall =>
    rw [go_calls] at haim
    split at haim <;> cases haim
    exact .inl (by rw [hcall]; rfl)
  | take kind session request target entry now hcall =>
    rw [go_calls] at haim
    rw [← aim_taken _ _ _ _ _ aim haim, hcall]
    exact .inl rfl
  | appendDone kind session request target began entry hcall =>
    rw [go_calls] at haim
    rw [← aim_appended _ _ _ _ _ aim haim, hcall]
    exact .inl rfl
  | mountHeld _ _ _ hcall | mountAbsent _ _ _ hcall | mountNext _ _ _ _ _ hcall
  | mountDenied _ _ _ hcall | beginWrite _ _ _ hcall | beginSession _ _ hcall
  | write _ _ _ _ _ _ _ hcall | writeDone _ _ _ _ _ hcall | append _ _ _ _ _ _ _ _ hcall
  | commit _ _ _ _ _ _ hcall =>
    rw [go_calls] at haim
    cases haim
    exact .inl (by rw [hcall]; rfl)
  | _ =>
    rw [go_calls] at haim
    cases haim

structure Registry.Aimed (indexes : Indexes) (state : Registry) : Prop where
  calls : ∀ caller aim, (state.calls caller).aim = some aim → targetOf indexes aim.1 = .ok aim.2
  opened : ∀ (serial : Nat) owner, state.opened[serial]? = some owner → ∃ opener target,
    targetOf indexes opener = .ok target ∧ owner = (target.index.name, opener.name)

theorem go_aimed (h : state.Aimed indexes) (caller : Nat) (call : UploadCall)
    (hcall : call.aim = none) : (state.go caller call).Aimed indexes := by
  refine ⟨fun other aim haim => ?_, h.opened⟩
  by_cases hother : other = caller
  · subst hother
    rw [go_calls, hcall] at haim
    cases haim
  · have hsame : (state.go caller call).calls other = state.calls other :=
      Function.update_of_ne hother _ _
    rw [hsame] at haim
    exact h.calls other aim haim

theorem opened_of_step (h : state.Aimed indexes)
    (hstep : UploadStep sha256 indexes caller state event next) :
    next.opened = state.opened ∨ ∃ request target,
      state.calls caller = .opening request target ∧ targetOf indexes request = .ok target ∧
      next.opened = state.opened ++ [(target.index.name, request.name)] := by
  cases hstep with
  | openSession request target now session hcall =>
    exact .inr ⟨request, target, hcall, h.calls caller (request, target) (by rw [hcall]; rfl), rfl⟩
  | _ => exact .inl rfl

theorem act_aimed (h : state.Aimed indexes)
    (hstep : UploadStep sha256 indexes caller state event next) : next.Aimed indexes := by
  refine ⟨fun other aim haim => ?_, fun serial owner howner => ?_⟩
  · by_cases hother : other = caller
    · rw [hother] at haim
      rcases aim_of_step hstep aim haim with hold | htarget
      · exact h.calls caller aim hold
      · exact htarget
    · rw [calls_of_step hstep other hother] at haim
      exact h.calls other aim haim
  · rcases opened_of_step h hstep with hsame | ⟨request, target, -, htarget, hnew⟩
    · rw [hsame] at howner
      exact h.opened serial owner howner
    · rw [hnew, List.getElem?_append] at howner
      split at howner
      · exact h.opened serial owner howner
      · rw [List.getElem?_singleton] at howner
        split at howner <;> cases howner
        exact ⟨request, target, htarget, rfl⟩

theorem step_aimed (h : state.Aimed indexes) (hstep : RegistryStep sha256 indexes state event next) :
    next.Aimed indexes := by
  cases hstep with
  | arrive caller method request hcall => exact go_aimed h caller _ rfl
  | leave caller => exact go_aimed h caller _ rfl
  | reclaim | elsewhere => exact ⟨h.calls, h.opened⟩
  | act caller _ _ hact => exact act_aimed h hact

theorem registry_aimed (state : Registry) (h : (registrySystem sha256 indexes).Reachable state) :
    state.Aimed indexes := by
  refine (registrySystem sha256 indexes).invariant (Registry.Aimed indexes) ?_ ?_ state h
  · rintro state ⟨stores, rfl⟩
    exact ⟨nofun, nofun⟩
  · intro state next _ haimed ⟨event, hstep⟩
    exact step_aimed haimed hstep

def Registry.OwnedBy (indexes : Indexes) (state : Registry) (serial : Nat) (target : UploadTarget) :
    Prop :=
  ∃ opener, targetOf indexes opener = .ok target ∧
    state.opened[serial]? = some (target.index.name, opener.name)

theorem ownedBy_unique {serial : Nat} {target other : UploadTarget}
    (h : state.OwnedBy indexes serial target) (hother : state.OwnedBy indexes serial other) :
    other = target := by
  obtain ⟨opener, htarget, hopened⟩ := h
  obtain ⟨opener', htarget', hopened'⟩ := hother
  rw [hopened, Option.some.injEq, Prod.mk.injEq] at hopened'
  exact targetOf_unique htarget' htarget hopened'.2.symm

theorem owned_of_call (hsound : state.Sound) (haimed : state.Aimed indexes) {serial : Nat}
    {request : WriteRequest} {target : UploadTarget}
    (hserial : (state.calls caller).serial = some serial)
    (haim : (state.calls caller).aim = some (request, target)) :
    state.OwnedBy indexes serial target := by
  have htarget := haimed.calls caller _ haim
  have hfits := hsound.fits caller
  refine ⟨request, htarget, ?_⟩
  cases hcall : state.calls caller with
  | appending kind session request' target' began entry rest =>
    rw [hcall] at hserial haim hfits
    obtain ⟨htold, hindex, hname, -⟩ := hfits
    cases hserial
    cases haim
    rw [← hindex, ← hname]
    exact htold.owner
  | committing request' target' pending digest held =>
    rw [hcall] at hserial haim hfits
    cases haim
    have hheld : held = some serial := hserial
    rw [hheld] at hfits
    exact hfits.2
  | restoring | aborting =>
    rw [hcall] at haim
    cases haim
  | _ =>
    rw [hcall] at hserial
    cases hserial

end Laws

def hostedAlone (policy : Policy) : Indexes where
  toList := [⟨str "store", str "store", .oci, .hosted false, policy,
    ⟨true, [Acl.NamedToken.upload (str "secret")]⟩⟩]
  names_nodup := List.nodup_singleton _
  routes_nodup := List.nodup_singleton _
  routes_valid := by
    intro index h
    rw [List.mem_singleton.mp h]
    rfl

def tokenRequest (params : Str → Option Str) (contentRange : Option Bytes)
    (body : List (Except Str Bytes)) : WriteRequest where
  identify := fun _ => ⟨⟨.named (str "upload_token"), none⟩, .acl⟩
  realm := false
  name := str "store/app"
  params := params
  contentRange := contentRange
  body := body

end Peryx.Oci
