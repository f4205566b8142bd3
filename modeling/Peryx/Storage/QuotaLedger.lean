import Peryx.Storage.QuotaTransitions

/-! # The ledger along every run -/

namespace Peryx.Quota

structure Ledger.Exact (ledger : Ledger) : Prop where
  blobs : BlobSide ledger.usage ledger.blob ledger.reservation
  projects : ProjectSide ledger.usage ledger.project ledger.version ledger.reservation
  pending : ∀ id : Nat, ledger.pending[id]? = some () ↔
    ∃ reservation, ledger.reservation[id]? = some reservation ∧ reservation.state = .reserved

theorem BlobSide.of_usage {usage usage' : Table Str QuotaUsage} {blob : Table IdentityKey BlobUsage}
    {reservations : Reservations} (h : BlobSide usage blob reservations)
    (hfile : ∀ repository, (usageAt usage' repository).fileBytes = (usageAt usage repository).fileBytes)
    (haccounted : ∀ repository,
      (usageAt usage' repository).accountedBytes = (usageAt usage repository).accountedBytes) :
    BlobSide usage' blob reservations where
  fileBytes repository := (hfile repository).trans (h.fileBytes repository)
  groups := h.groups
  bytes := h.bytes
  accounted repository := (haccounted repository).trans (h.accounted repository)

theorem ProjectSide.of_usage {usage usage' : Table Str QuotaUsage}
    {project : Table IdentityKey ProjectUsage} {version : Table IdentityKey References}
    {reservations : Reservations} (h : ProjectSide usage project version reservations)
    (hprojects : ∀ repository,
      (usageAt usage' repository).projects = (usageAt usage repository).projects) :
    ProjectSide usage' project version reservations where
  groups := h.groups
  versionGroups := h.versionGroups
  projects repository := (hprojects repository).trans (h.projects repository)
  versions := h.versions

section Transition
variable (ledger : Ledger) {reservations : Reservations} (id : Nat)
  (reservation : QuotaReservationRecord) (commit : Bool)

theorem alike_of_row (hrow : reservations[id]? = some reservation) :
    ∀ r, reservations[id]? = some r → Alike r reservation := by
  intro r hr
  rw [hrow] at hr
  cases hr
  exact ⟨rfl, rfl, rfl, rfl, rfl⟩

theorem transitionVersion_ensures (h : Grouped ownReferences versionKeyOf ledger.version reservations)
    (hrow : reservations[id]? = some reservation)
    (hc : commit = true → reservation.state = .reserved) (key : IdentityKey)
    (hkey : projectKeyOf reservation = some key) (project : ProjectUsage)
    (hproject : project.versions = charged ownReferences (fun _ => 1) ledger.version key) :
    Ensures Bad (transitionVersion ledger reservation commit project) (fun out =>
      out.1.references = project.references ∧
      out.1.versions = charged ownReferences (fun _ => 1) out.2.version key ∧
      out.2 = { ledger with version := out.2.version } ∧
      Grouped ownReferences versionKeyOf out.2.version
        (reservations.set id (afterTransition reservation commit)) ∧
      ∀ scope, scope ≠ key → charged ownReferences (fun _ => 1) out.2.version scope =
        charged ownReferences (fun _ => 1) ledger.version scope) := by
  have hbefore := alike_of_row id reservation hrow
  have hafter := alike_afterTransition reservation
  unfold transitionVersion
  cases hv : versionKeyOf reservation with
  | none =>
    have hkeyv : versionKey reservation.repository reservation.project reservation.version = none := hv
    rw [hkeyv]
    refine Ensures.pure ⟨rfl, hproject, rfl, ?_, fun _ _ => rfl⟩
    exact h.set_ungrouped id _ (fun r hr => (hbefore r hr).keys.2.2.trans hv)
      fun r hr => (hafter r commit hr).keys.2.2.trans hv
  | some k =>
    have hkeyv : versionKey reservation.repository reservation.project reservation.version = some k := hv
    have hdrop : k.dropLast = key := by
      have hp := versionKeyOf_dropLast reservation k hv
      rw [hkey] at hp
      exact (Option.some.inj hp).symm
    have hread : ledger.version[k]?.getD {} =
        referencesIn ownReferences ledger.version[k]? := by
      cases ledger.version[k]? <;> rfl
    rw [hkeyv]
    dsimp only
    rw [hread, hproject, ← hdrop]
    apply Ensures.bind (h.settles (fun _ => 1) id reservation k 1 commit hrow hv
      (fun r hr => (hafter r commit hr).keys.2.2.trans hv) (fun _ _ => rfl) hc)
    rintro ⟨references, versions⟩ ⟨hrefs, hversions⟩
    apply Ensures.pure
    dsimp only at hrefs hversions ⊢
    refine ⟨rfl, ?_, rfl, ?_, ?_⟩
    · rw [hversions, charged_set ownReferences (fun _ => 1) ledger.version k 1 _
        fun _ _ => rfl, referencesIn_keepIf ownReferences references references rfl]
    · apply h.set_group id _ k _ (fun r hr => (hbefore r hr).keys.2.2.trans hv)
        (fun r hr => (hafter r commit hr).keys.2.2.trans hv)
      · rw [referencesIn_keepIf ownReferences references references rfl]
        exact hrefs
      · exact keepIf_live references references rfl
    · intro scope hscope
      exact charged_set_other _ _ ledger.version k scope _ (Ne.symm hscope)

theorem transitionProject_ensures
    (h : ProjectSide ledger.usage ledger.project ledger.version reservations)
    (hrow : reservations[id]? = some reservation)
    (hc : commit = true → reservation.state = .reserved) :
    Ensures Bad (transitionProject ledger reservation commit) (fun out =>
      ProjectSide out.usage out.project out.version
        (reservations.set id (afterTransition reservation commit)) ∧
      out.blob = ledger.blob ∧ out.reservation = ledger.reservation ∧ out.pending = ledger.pending ∧
      ∀ repository, (usageAt out.usage repository).fileBytes =
          (usageAt ledger.usage repository).fileBytes ∧
        (usageAt out.usage repository).accountedBytes =
          (usageAt ledger.usage repository).accountedBytes) := by
  have hbefore := alike_of_row id reservation hrow
  have hafter := alike_afterTransition reservation
  unfold transitionProject
  cases hp : projectKeyOf reservation with
  | none =>
    have hkeyp : projectKey reservation.repository reservation.project = none := hp
    rw [hkeyp]
    refine Ensures.pure ⟨?_, rfl, rfl, rfl, fun _ => ⟨rfl, rfl⟩⟩
    exact h.set_without_project id reservation _ hbefore (hafter · commit) hp
  | some key =>
    have hkeyp : projectKey reservation.repository reservation.project = some key := hp
    have hdrop := projectKeyOf_dropLast reservation key hp
    have hread : (ledger.project[key]?.getD {}).references =
        referencesIn ProjectUsage.references ledger.project[key]? := by
      cases ledger.project[key]? <;> rfl
    have hversions : (ledger.project[key]?.getD {}).versions =
        charged ownReferences (fun _ => 1) ledger.version key := by
      refine Eq.trans ?_ (h.versions key)
      cases ledger.project[key]? <;> rfl
    rw [hkeyp]
    dsimp only
    rw [hread, h.projects reservation.repository, ← hdrop]
    apply Ensures.bind (h.groups.settles (fun _ => 1) id reservation key 1 commit hrow hp
      (fun r hr => (hafter r commit hr).keys.2.1.trans hp) (fun _ _ => rfl) hc)
    rintro ⟨references, projects⟩ ⟨hrefs, hprojects⟩
    dsimp only at hrefs hprojects ⊢
    apply Ensures.bind (transitionVersion_ensures ledger id reservation commit h.versionGroups hrow hc
      key hp { ledger.project[key]?.getD {} with references := references } hversions)
    rintro ⟨group, after⟩ ⟨hgroup, hcharged, hframe, hversion, hscope⟩
    dsimp only at hgroup hcharged hframe hversion hscope ⊢
    apply Ensures.pure
    have husage : after.usage = ledger.usage := by rw [hframe]
    have hproject : after.project = ledger.project := by rw [hframe]
    have hblob : after.blob = ledger.blob := by rw [hframe]
    have hreservation : after.reservation = ledger.reservation := by rw [hframe]
    have hpending : after.pending = ledger.pending := by rw [hframe]
    rw [husage, hproject, hblob, hreservation, hpending]
    refine ⟨?_, rfl, rfl, rfl, ?_⟩
    · exact h.set id reservation _ key _ group hp hbefore (hafter · commit) hversion hscope
        (hgroup.trans hrefs) hcharged (by rw [hgroup]; exact hprojects)
    · intro repository
      rw [usageAt_insert]
      split
      · rename_i heq
        rw [← heq]
        exact ⟨rfl, rfl⟩
      · exact ⟨rfl, rfl⟩

theorem transition_ensures (hb : BlobSide ledger.usage ledger.blob reservations)
    (hp : ProjectSide ledger.usage ledger.project ledger.version reservations)
    (hrow : reservations[id]? = some reservation)
    (hc : commit = true → reservation.state = .reserved) :
    Ensures Bad (transition ledger reservation commit) (fun out =>
      BlobSide out.usage out.blob (reservations.set id (afterTransition reservation commit)) ∧
      ProjectSide out.usage out.project out.version
        (reservations.set id (afterTransition reservation commit)) ∧
      out.reservation = ledger.reservation ∧ out.pending = ledger.pending) := by
  have hbefore := alike_of_row id reservation hrow
  have hafter := alike_afterTransition reservation
  have hsize : ∀ v, ledger.blob[blobKey reservation.repository reservation.digest]? = some v →
      v.bytes = reservation.bytes := fun v hv => hb.bytes id reservation hrow v hv
  have hread : (ledger.blob[blobKey reservation.repository reservation.digest]?.getD {}).references =
      referencesIn BlobUsage.references
        ledger.blob[blobKey reservation.repository reservation.digest]? := by
    cases ledger.blob[blobKey reservation.repository reservation.digest]? <;> rfl
  have hcharge : Charges (bytesIn reservation.repository) reservation.bytes reservations[id]? := by
    intro r hr
    rw [bytesIn, (hbefore r hr).repository, if_pos rfl, (hbefore r hr).bytes]
  have hcharge' : Charges (bytesIn reservation.repository) reservation.bytes
      (afterTransition reservation commit) := by
    intro r hr
    rw [bytesIn, (hafter r commit hr).repository, if_pos rfl, (hafter r commit hr).bytes]
  have hfile := hb.fileBytes reservation.repository
  rw [tally_split _ reservations id _ hcharge, hrow] at hfile
  unfold transition
  dsimp only
  rw [hfile, hread, hb.accounted reservation.repository]
  apply Ensures.bind (settleBytes_ensures _ reservation.state reservation.bytes commit hc)
  rintro fileBytes hfileBytes
  rw [← stateIn_afterTransition reservation, ← tally_set _ reservations id _ _ hcharge'] at hfileBytes
  apply Ensures.bind (hb.groups.settles BlobUsage.bytes id reservation
    (blobKey reservation.repository reservation.digest) reservation.bytes commit hrow rfl
    (fun r hr => (hafter r commit hr).keys.1) hsize hc)
  rintro ⟨references, accountedBytes⟩ ⟨hrefs, haccounted⟩
  dsimp only at hrefs haccounted ⊢
  have hgroup := referencesIn_keepIf BlobUsage.references references
    { ledger.blob[blobKey reservation.repository reservation.digest]?.getD {} with
      references := references } rfl
  have hblobs := hb.set id reservation (afterTransition reservation commit)
    (keepIf references { ledger.blob[blobKey reservation.repository reservation.digest]?.getD {} with
      references := references })
    { usageAt ledger.usage reservation.repository with
      fileBytes := fileBytes, accountedBytes := accountedBytes }
    hbefore (hafter · commit) hsize hfileBytes (hgroup.trans hrefs)
    (keepIf_live references _ rfl)
    (by
      intro v hv
      obtain ⟨old, hold⟩ := hb.groups.row_of_member id reservation _ hrow rfl
      unfold keepIf at hv
      split at hv
      · cases hv
      · cases hv
        rw [hold]
        exact hsize old hold)
    (by rw [hgroup]; exact haccounted)
  have hprojects : ProjectSide
      (ledger.usage.insert reservation.repository
        { usageAt ledger.usage reservation.repository with
          fileBytes := fileBytes, accountedBytes := accountedBytes })
      ledger.project ledger.version reservations := by
    apply hp.of_usage
    intro repository
    rw [usageAt_insert]
    split
    · rename_i heq
      rw [← heq]
    · rfl
  apply (transitionProject_ensures
    { ledger with
      usage := ledger.usage.insert reservation.repository
        { usageAt ledger.usage reservation.repository with
          fileBytes := fileBytes, accountedBytes := accountedBytes }
      blob := ledger.blob.set (blobKey reservation.repository reservation.digest)
        (keepIf references { ledger.blob[blobKey reservation.repository reservation.digest]?.getD {}
          with references := references }) }
    id reservation commit hprojects hrow hc).mono
  rintro out ⟨hside, hblob, hreservation, hpending, husage⟩
  refine ⟨?_, hside, hreservation, hpending⟩
  rw [hblob]
  exact hblobs.of_usage (fun repository => (husage repository).1) fun repository =>
    (husage repository).2

end Transition

theorem ensureTotalAdd_ensures (value : QuotaValue) (amount : Nat) :
    Ensures Bad (ensureTotalAdd value amount) fun _ => True := by
  unfold ensureTotalAdd
  split
  · exact Ensures.pure trivial
  · exact Ensures.error (by simp [Bad])

theorem onlyIf_ensures (c : Bool) (check : Except Fault Unit)
    (h : Ensures Bad check fun _ => True) : Ensures Bad (onlyIf c check) fun _ => True := by
  cases c with
  | false => exact Ensures.pure trivial
  | true => exact h

theorem validateFields_ensures (fields : List (Str × Option Str)) :
    Ensures Bad (validateFields fields) fun _ => True := by
  induction fields with
  | nil => exact Ensures.pure trivial
  | cons field rest ih =>
    obtain ⟨name, value⟩ := field
    apply Ensures.ite
    · intro _
      exact Ensures.error (by simp [Bad])
    · intro _
      apply Ensures.ite
      · intro _
        exact Ensures.error (by simp [Bad])
      · intro _
        exact ih

theorem validateRequest_ensures (request : NewQuotaReservation) :
    Ensures Bad (validateRequest request) fun _ => True := by
  apply Ensures.bind (validateFields_ensures _)
  intro _ _
  apply Ensures.ite
  · intro _
    exact Ensures.error (by simp [Bad])
  · intro _
    exact Ensures.pure trivial

theorem ReservationRows.reserve_ensures (rows : ReservationRows) (bytes : Nat) (limits : QuotaLimits)
    (file accounted blob projects project versions version : QuotaValue)
    (hfile : Ensures Bad (reserveIf true rows.usage.fileBytes bytes) (· = file))
    (haccounted : Ensures Bad
      (reserveIf (rows.blob.references.total == 0) rows.usage.accountedBytes bytes) (· = accounted))
    (hblob : Ensures Bad (reserveIf true rows.blob.references 1) (· = blob))
    (hprojects : Ensures Bad
      (reserveIf (rows.projectKey.isSome && rows.project.references.total == 0) rows.usage.projects 1)
      (· = projects))
    (hproject : Ensures Bad (reserveIf rows.projectKey.isSome rows.project.references 1)
      (· = project))
    (hversions : Ensures Bad
      (reserveIf (rows.versionKey.isSome && rows.version.total == 0) rows.project.versions 1)
      (· = versions))
    (hversion : Ensures Bad (reserveIf rows.versionKey.isSome rows.version 1) (· = version)) :
    Ensures Bad (rows.reserve bytes limits) (fun out => out.2 = { rows with
      usage := ⟨file, accounted, projects⟩
      project := ⟨project, versions⟩
      version := version
      blob := { rows.blob with references := blob } }) := by
  apply Ensures.bind (ensureTotalAdd_ensures _ _)
  intro _ _
  apply Ensures.bind (onlyIf_ensures _ _ (ensureTotalAdd_ensures _ _))
  intro _ _
  apply Ensures.bind (onlyIf_ensures _ _ (ensureTotalAdd_ensures _ _))
  intro _ _
  apply Ensures.bind (onlyIf_ensures _ _ (ensureTotalAdd_ensures _ _))
  intro _ _
  apply Ensures.bind (ensureTotalAdd_ensures _ _)
  intro _ _
  apply Ensures.bind (onlyIf_ensures _ _ (ensureTotalAdd_ensures _ _))
  intro _ _
  apply Ensures.bind (onlyIf_ensures _ _ (ensureTotalAdd_ensures _ _))
  intro _ _
  apply Ensures.bind (onlyIf_ensures _ _ (Ensures.error (by simp [Bad])))
  intro _ _
  apply Ensures.bind hfile
  rintro _ rfl
  apply Ensures.bind haccounted
  rintro _ rfl
  apply Ensures.bind hblob
  rintro _ rfl
  apply Ensures.bind hprojects
  rintro _ rfl
  apply Ensures.bind hproject
  rintro _ rfl
  apply Ensures.bind hversions
  rintro _ rfl
  apply Ensures.bind hversion
  rintro _ rfl
  exact Ensures.pure rfl

theorem read_ensures {ledger : Ledger} (h : ledger.Exact) (request : NewQuotaReservation) :
    Ensures Bad (ReservationRows.read ledger request) (fun rows =>
      rows = {
        usage := usageAt ledger.usage request.repository
        project := ((projectKey request.repository request.project).bind
          fun key => ledger.project[key]?).getD {}
        version := ((versionKey request.repository request.project request.version).bind
          fun key => ledger.version[key]?).getD {}
        blob := ⟨request.bytes, referencesIn BlobUsage.references
          ledger.blob[blobKey request.repository request.digest]?⟩
        projectKey := projectKey request.repository request.project
        versionKey := versionKey request.repository request.project request.version
        blobKey := blobKey request.repository request.digest } ∧
      ∀ row, ledger.blob[blobKey request.repository request.digest]? = some row →
        row.bytes = request.bytes) := by
  apply Ensures.ite
  · intro _
    exact Ensures.error (by simp [Bad])
  · intro hsize
    apply Ensures.pure
    constructor
    · cases ledger.blob[blobKey request.repository request.digest]? <;> rfl
    · intro row hrow
      rw [hrow, Option.getD_some] at hsize
      by_contra hne
      apply hsize
      refine ⟨Nat.pos_of_ne_zero fun hzero => ?_, hne⟩
      exact h.blobs.groups.live _ row hrow ((total_eq_zero row.references).mp hzero)

theorem alike_of_new {reservations : Reservations} (id : Nat) (reservation : QuotaReservationRecord)
    (hid : reservations[id]? = none) : ∀ r, reservations[id]? = some r → Alike r reservation := by
  intro r hr
  rw [hid] at hr
  cases hr

theorem alike_of_some (reservation : QuotaReservationRecord) :
    ∀ r, some reservation = some r → Alike r reservation := by
  intro r hr
  cases hr
  exact ⟨rfl, rfl, rfl, rfl, rfl⟩

theorem add_reserved_ne_zero (base : QuotaValue) : base + amountIn .reserved 1 ≠ 0 := by
  intro hzero
  have hr := congrArg QuotaValue.reserved hzero
  simp [amountIn] at hr

theorem keepIf_add (base : QuotaValue) {V : Type} (row : V) :
    keepIf (base + amountIn .reserved 1) row = some row := by
  unfold keepIf
  rw [if_neg fun hzero => add_reserved_ne_zero base ((total_eq_zero _).mp hzero)]

theorem version_reserve {version : Table IdentityKey References} {reservations : Reservations}
    (h : Grouped ownReferences versionKeyOf version reservations) (id : Nat)
    (request : NewQuotaReservation) (hid : reservations[id]? = none) (key : IdentityKey)
    (hkey : projectKey request.repository request.project = some key) :
    ∃ versions references,
      Ensures Bad (reserveIf
        ((versionKey request.repository request.project request.version).isSome &&
          (((versionKey request.repository request.project request.version).bind
            fun key => version[key]?).getD {}).total == 0)
        (charged ownReferences (fun _ => 1) version key) 1) (· = versions) ∧
      Ensures Bad (reserveIf
        (versionKey request.repository request.project request.version).isSome
        (((versionKey request.repository request.project request.version).bind
          fun key => version[key]?).getD {}) 1) (· = references) ∧
      ∀ violations, Grouped ownReferences versionKeyOf
          (insertIf version (versionKey request.repository request.project request.version) references)
          (reservations.set id (some (request.record id violations))) ∧
        versions = charged ownReferences (fun _ => 1)
          (insertIf version (versionKey request.repository request.project request.version) references)
          key ∧
        ∀ scope, scope ≠ key → charged ownReferences (fun _ => 1)
            (insertIf version (versionKey request.repository request.project request.version)
              references) scope =
          charged ownReferences (fun _ => 1) version scope := by
  cases hv : versionKey request.repository request.project request.version with
  | none =>
    refine ⟨_, _, Ensures.pure rfl, Ensures.pure rfl, fun violations => ⟨?_, rfl, fun _ _ => rfl⟩⟩
    apply h.set_ungrouped id _ (fun r hr => by rw [hid] at hr; cases hr)
    intro r hr
    cases hr
    exact hv
  | some k =>
    have hdrop : k.dropLast = key := by
      have hp := versionKeyOf_dropLast (request.record id []) k hv
      exact (Option.some.inj (hkey.symm.trans hp)).symm
    have hread : version[k]?.getD {} = referencesIn ownReferences version[k]? := by
      cases version[k]? <;> rfl
    have hreserves := h.reserves (fun _ => 1) k 1 fun _ _ => rfl
    simp only [Option.isSome_some, Bool.true_and, Option.bind_some, hread]
    rw [← hdrop]
    refine ⟨_, _, hreserves.2, hreserves.1, fun violations => ⟨?_, ?_, ?_⟩⟩
    · apply h.set_group id _ k (some _) (fun r hr => by rw [hid] at hr; cases hr)
      · intro r hr
        cases hr
        exact hv
      · exact (tally_reserve _ reservations id 1 _ hid rfl (if_pos hv)).symm
      · intro v hv'
        cases hv'
        exact add_reserved_ne_zero _
    · exact (charged_set ownReferences (fun _ => 1) version k 1 (some _) fun _ _ => rfl).symm
    · intro scope hscope
      exact charged_set_other ownReferences (fun _ => 1) version k scope (some _) (Ne.symm hscope)

theorem project_reserve {usage : Table Str QuotaUsage} {project : Table IdentityKey ProjectUsage}
    {version : Table IdentityKey References} {reservations : Reservations}
    (h : ProjectSide usage project version reservations) (id : Nat)
    (request : NewQuotaReservation) (hid : reservations[id]? = none) (row : ProjectUsage)
    (hrow : row = ((projectKey request.repository request.project).bind
      fun key => project[key]?).getD {}) :
    ∃ projects references versions versionReferences,
      Ensures Bad (reserveIf ((projectKey request.repository request.project).isSome &&
          row.references.total == 0) (usageAt usage request.repository).projects 1) (· = projects) ∧
      Ensures Bad (reserveIf (projectKey request.repository request.project).isSome
        row.references 1) (· = references) ∧
      Ensures Bad (reserveIf
        ((versionKey request.repository request.project request.version).isSome &&
          (((versionKey request.repository request.project request.version).bind
            fun key => version[key]?).getD {}).total == 0) row.versions 1) (· = versions) ∧
      Ensures Bad (reserveIf
        (versionKey request.repository request.project request.version).isSome
        (((versionKey request.repository request.project request.version).bind
          fun key => version[key]?).getD {}) 1) (· = versionReferences) ∧
      ∀ violations written, written.projects = projects →
        ProjectSide (usage.insert request.repository written)
          (insertIf project (projectKey request.repository request.project)
            ⟨references, versions⟩)
          (insertIf version (versionKey request.repository request.project request.version)
            versionReferences)
          (reservations.set id (some (request.record id violations))) := by
  cases hp : projectKey request.repository request.project with
  | none =>
    have hv : versionKey request.repository request.project request.version = none :=
      versionKeyOf_none (request.record id []) hp
    rw [hv]
    refine ⟨_, _, _, _, Ensures.pure rfl, Ensures.pure rfl, Ensures.pure rfl, Ensures.pure rfl, ?_⟩
    intro violations written hwritten
    have hside := h.set_without_project id (request.record id violations) _
      (alike_of_new id _ hid) (alike_of_some _) hp
    apply hside.of_usage
    intro repository
    rw [usageAt_insert]
    split
    · rename_i heq
      rw [← heq, hwritten]
    · rfl
  | some key =>
    have hdrop : key.dropLast = [request.repository] :=
      projectKeyOf_dropLast (request.record id []) key hp
    have hrefs : row.references = referencesIn ProjectUsage.references project[key]? := by
      rw [hrow, hp, Option.bind_some]
      cases project[key]? <;> rfl
    have hversions : row.versions = charged ownReferences (fun _ => 1) version key := by
      rw [hrow, hp, Option.bind_some, ← h.versions key]
      cases project[key]? <;> rfl
    have hreserves := h.groups.reserves (fun _ => 1) key 1 fun _ _ => rfl
    obtain ⟨versions, versionReferences, hfirst, hsecond, hafter⟩ :=
      version_reserve h.versionGroups id request hid key hp
    simp only [Option.isSome_some, Bool.true_and, hrefs, hversions]
    rw [h.projects request.repository, ← hdrop]
    refine ⟨_, _, versions, versionReferences, hreserves.2, hreserves.1, hfirst, hsecond, ?_⟩
    intro violations written hwritten
    obtain ⟨hversion, hcharged, hscope⟩ := hafter violations
    have hside := h.set id (request.record id violations) (some (request.record id violations)) key
      written ⟨_, versions⟩ hp (alike_of_new id _ hid) (alike_of_some _) hversion hscope
      (tally_reserve _ reservations id 1 _ hid rfl (if_pos hp)).symm hcharged hwritten
    rw [keepIf_add] at hside
    exact hside

theorem blob_reserve {usage : Table Str QuotaUsage} {blob : Table IdentityKey BlobUsage}
    {reservations : Reservations} (h : BlobSide usage blob reservations) (id : Nat)
    (request : NewQuotaReservation) (hid : reservations[id]? = none)
    (hsize : ∀ row, blob[blobKey request.repository request.digest]? = some row →
      row.bytes = request.bytes) :
    ∃ file accounted references,
      Ensures Bad (reserveIf true (usageAt usage request.repository).fileBytes request.bytes)
        (· = file) ∧
      Ensures Bad (reserveIf ((referencesIn BlobUsage.references
          blob[blobKey request.repository request.digest]?).total == 0)
        (usageAt usage request.repository).accountedBytes request.bytes) (· = accounted) ∧
      Ensures Bad (reserveIf true (referencesIn BlobUsage.references
        blob[blobKey request.repository request.digest]?) 1) (· = references) ∧
      ∀ violations written, written.fileBytes = file → written.accountedBytes = accounted →
        BlobSide (usage.insert request.repository written)
          (blob.insert (blobKey request.repository request.digest) ⟨request.bytes, references⟩)
          (reservations.set id (some (request.record id violations))) := by
  have hreserves := h.groups.reserves BlobUsage.bytes (blobKey request.repository request.digest)
    request.bytes hsize
  rw [h.accounted request.repository]
  refine ⟨_, _, _, reserveIf_ensures _ _, hreserves.2, hreserves.1, ?_⟩
  intro violations written hfile haccounted
  apply h.set id (request.record id violations) (some (request.record id violations))
    (some ⟨request.bytes, _⟩) written (alike_of_new id _ hid) (alike_of_some _) hsize
  · rw [hfile, h.fileBytes request.repository]
    exact (tally_reserve _ reservations id request.bytes _ hid rfl (if_pos rfl)).symm
  · exact (tally_reserve _ reservations id 1 _ hid rfl (if_pos rfl)).symm
  · intro v hv
    cases hv
    exact add_reserved_ne_zero _
  · intro v hv
    cases hv
    rfl
  · exact haccounted

theorem reserveQuota_ensures {ledger : Ledger} (h : ledger.Exact) (id : Nat)
    (request : NewQuotaReservation) (limits : QuotaLimits)
    (hid : ledger.reservation[id]? = none) :
    Ensures Bad (reserveQuota ledger id request limits) fun out => out.2.Exact := by
  apply Ensures.bind (validateRequest_ensures request)
  intro _ _
  apply Ensures.bind (read_ensures h request)
  rintro rows ⟨rfl, hsize⟩
  obtain ⟨file, accounted, references, hfile, haccounted, hblob, hblobs⟩ :=
    blob_reserve h.blobs id request hid hsize
  obtain ⟨projects, project, versions, version, hprojects, hproject, hversions, hversion, hside⟩ :=
    project_reserve h.projects id request hid _ rfl
  apply Ensures.bind (ReservationRows.reserve_ensures _ request.bytes limits file accounted references
    projects project versions version hfile haccounted hblob hprojects hproject hversions hversion)
  rintro ⟨violations, rows⟩ hrows
  dsimp only at hrows
  subst hrows
  apply Ensures.pure
  exact {
    blobs := hblobs violations _ rfl rfl
    projects := hside violations _ rfl
    pending := by
      intro other
      have hpending := Table.getElem?_set ledger.pending id other (some ())
      have hreservation := Table.getElem?_set ledger.reservation id other
        (some (request.record id violations))
      show (ledger.pending.insert id ())[other]? = some () ↔ ∃ reservation,
        (ledger.reservation.insert id (request.record id violations))[other]? = some reservation ∧
          reservation.state = .reserved
      rw [show (ledger.pending.insert id ())[other]? = _ from hpending,
        show (ledger.reservation.insert id (request.record id violations))[other]? = _
          from hreservation]
      by_cases heq : id = other
      · rw [if_pos heq, if_pos heq]
        exact ⟨fun _ => ⟨_, rfl, rfl⟩, fun _ => rfl⟩
      · rw [if_neg heq, if_neg heq]
        exact h.pending other }

theorem pending_erase {ledger : Ledger} (h : ledger.Exact) (id : Nat)
    (row : Option QuotaReservationRecord)
    (hrow : ∀ reservation, row = some reservation → reservation.state = .committed) (other : Nat) :
    (ledger.pending.erase id)[other]? = some () ↔ ∃ reservation,
      (ledger.reservation.set id row)[other]? = some reservation ∧ reservation.state = .reserved := by
  have hpending := Table.getElem?_set ledger.pending id other none
  rw [show (ledger.pending.erase id)[other]? = _ from hpending, Table.getElem?_set]
  by_cases heq : id = other
  · rw [if_pos heq, if_pos heq]
    constructor
    · intro hnone
      cases hnone
    · rintro ⟨reservation, hr, hs⟩
      rw [hrow reservation hr] at hs
      cases hs
  · rw [if_neg heq, if_neg heq]
    exact h.pending other

theorem release_ensures {ledger : Ledger} (h : ledger.Exact) (id : Nat) :
    Ensures Bad (release ledger id) fun out => out.2.Exact := by
  unfold release
  cases hrow : ledger.reservation[id]? with
  | none => exact Ensures.pure h
  | some reservation =>
    apply Ensures.bind (transition_ensures ledger id reservation false h.blobs h.projects hrow
      (by intro hf; cases hf))
    rintro out ⟨hblobs, hprojects, hreservation, hpending⟩
    apply Ensures.pure
    rw [hreservation, hpending]
    exact ⟨hblobs, hprojects, pending_erase h id none (by intro r hr; cases hr)⟩

theorem commitReservation_ensures {ledger : Ledger} (h : ledger.Exact) (id : Nat) :
    Ensures Bad (commitReservation ledger id) fun out => out.2.Exact := by
  unfold commitReservation
  cases hrow : ledger.reservation[id]? with
  | none => exact Ensures.pure h
  | some reservation =>
    apply Ensures.ite
    · intro _
      exact Ensures.pure h
    · intro hstate
      have hreserved : reservation.state = .reserved := by
        cases hs : reservation.state with
        | reserved => rfl
        | committed => exact absurd hs hstate
      apply Ensures.bind (transition_ensures ledger id reservation true h.blobs h.projects hrow
        fun _ => hreserved)
      rintro out ⟨hblobs, hprojects, hreservation, hpending⟩
      apply Ensures.pure
      rw [hreservation, hpending]
      refine ⟨hblobs, hprojects, pending_erase h id (some _) ?_⟩
      intro r hr
      cases hr
      rfl

theorem repairAbandoned_ensures {ledger : Ledger} (h : ledger.Exact) (limit : Nat) :
    Ensures Bad (repairAbandoned ledger limit) fun out => out.2.Exact := by
  apply Ensures.ite
  · intro _
    exact Ensures.pure h
  · intro _
    apply Ensures.bind (Ensures.foldlM Ledger.Exact _ ?_ ledger h)
    · intro ledger hledger
      exact Ensures.pure hledger
    · intro ledger id hledger
      apply Ensures.bind (release_ensures hledger id)
      intro out hout
      exact Ensures.pure hout

end Peryx.Quota
