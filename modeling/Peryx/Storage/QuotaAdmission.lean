import Peryx.Storage.QuotaSettling

/-! # Admission under limits -/

namespace Peryx.Quota

theorem ensureTotalAdd_eq_ok (value : QuotaValue) (amount : Nat) :
    ensureTotalAdd value amount = .ok () ↔ value.sum + amount ≤ u64Max := by
  unfold ensureTotalAdd addU64 QuotaValue.sum
  by_cases hsum : value.committed + value.reserved ≤ u64Max
  · by_cases hadd : value.committed + value.reserved + amount ≤ u64Max
    · simp [hsum, hadd]
    · simp [hsum, hadd]
  · have hadd : ¬ value.committed + value.reserved + amount ≤ u64Max := by omega
    simp [hsum, hadd]

theorem onlyIf_eq_ok (c : Bool) (check : Except Fault Unit) :
    onlyIf c check = .ok () ↔ (c = true → check = .ok ()) := by
  cases c <;> simp [onlyIf]

theorem reserveIf_eq_ok (c : Bool) (value raised : QuotaValue) (amount : Nat)
    (h : reserveIf c value amount = .ok raised) :
    raised = { value with reserved := value.reserved + if c then amount else 0 } := by
  cases c with
  | false =>
    cases h
    rfl
  | true =>
    obtain ⟨reserved, hreserved, h⟩ := (bind_eq_ok _ _ _).mp h
    cases h
    obtain ⟨_, rfl⟩ := (checkedAdd_eq_ok _ _ _).mp hreserved
    rfl

theorem reserveIf_of_room (c : Bool) (value : QuotaValue) (amount : Nat)
    (h : c = true → value.sum + amount ≤ u64Max) :
    reserveIf c value amount =
      .ok { value with reserved := value.reserved + if c then amount else 0 } := by
  cases c with
  | false => rfl
  | true =>
    have hroom := h rfl
    have hle : value.reserved + amount ≤ u64Max := by
      unfold QuotaValue.sum at hroom
      omega
    have hadd := (checkedAdd_eq_ok value.reserved amount _).mpr ⟨hle, rfl⟩
    simp only [reserveIf, if_true, hadd]
    rfl

def ReservationRows.addsProject (rows : ReservationRows) : Bool :=
  rows.projectKey.isSome && rows.project.references.total == 0

def ReservationRows.addsVersion (rows : ReservationRows) : Bool :=
  rows.versionKey.isSome && rows.version.total == 0

def ReservationRows.addsAccountedBytes (rows : ReservationRows) : Bool :=
  rows.blob.references.total == 0

def ReservationRows.violations (rows : ReservationRows) (bytes : Nat) (limits : QuotaLimits) :
    List QuotaLimit :=
  limitViolations rows.usage rows.project bytes rows.addsAccountedBytes rows.addsProject
    rows.addsVersion limits

structure ReservationRows.Room (rows : ReservationRows) (bytes : Nat) : Prop where
  fileBytes : rows.usage.fileBytes.sum + bytes ≤ u64Max
  accountedBytes : rows.addsAccountedBytes = true → rows.usage.accountedBytes.sum + bytes ≤ u64Max
  projects : rows.addsProject = true → rows.usage.projects.sum + 1 ≤ u64Max
  versions : rows.addsVersion = true → rows.project.versions.sum + 1 ≤ u64Max
  blob : rows.blob.references.sum + 1 ≤ u64Max
  project : rows.projectKey.isSome = true → rows.project.references.sum + 1 ≤ u64Max
  version : rows.versionKey.isSome = true → rows.version.sum + 1 ≤ u64Max

def QuotaValue.reserveMore (value : QuotaValue) (c : Bool) (amount : Nat) : QuotaValue :=
  { value with reserved := value.reserved + if c then amount else 0 }

theorem QuotaValue.sum_reserveMore (value : QuotaValue) (c : Bool) (amount : Nat) :
    (value.reserveMore c amount).sum = value.sum + if c then amount else 0 :=
  (Nat.add_assoc _ _ _).symm

def ReservationRows.charged (rows : ReservationRows) (bytes : Nat) : ReservationRows :=
  { rows with
    usage := {
      fileBytes := rows.usage.fileBytes.reserveMore true bytes
      accountedBytes := rows.usage.accountedBytes.reserveMore rows.addsAccountedBytes bytes
      projects := rows.usage.projects.reserveMore rows.addsProject 1 }
    project := {
      references := rows.project.references.reserveMore rows.projectKey.isSome 1
      versions := rows.project.versions.reserveMore rows.addsVersion 1 }
    version := rows.version.reserveMore rows.versionKey.isSome 1
    blob := { rows.blob with references := rows.blob.references.reserveMore true 1 } }

theorem ReservationRows.reserve_eq_ok (rows : ReservationRows) (bytes : Nat) (limits : QuotaLimits)
    (out : List QuotaLimit × ReservationRows) : rows.reserve bytes limits = .ok out ↔
      rows.Room bytes ∧ (limits.audit = true ∨ rows.violations bytes limits = []) ∧
        out = (rows.violations bytes limits, rows.charged bytes) := by
  constructor
  · intro h
    obtain ⟨_, hfile, h⟩ := (bind_eq_ok _ _ _).mp h
    obtain ⟨_, haccounted, h⟩ := (bind_eq_ok _ _ _).mp h
    obtain ⟨_, hprojects, h⟩ := (bind_eq_ok _ _ _).mp h
    obtain ⟨_, hversions, h⟩ := (bind_eq_ok _ _ _).mp h
    obtain ⟨_, hblob, h⟩ := (bind_eq_ok _ _ _).mp h
    obtain ⟨_, hproject, h⟩ := (bind_eq_ok _ _ _).mp h
    obtain ⟨_, hversion, h⟩ := (bind_eq_ok _ _ _).mp h
    obtain ⟨_, hlimits, h⟩ := (bind_eq_ok _ _ _).mp h
    obtain ⟨_, hfileBytes, h⟩ := (bind_eq_ok _ _ _).mp h
    obtain ⟨_, haccountedBytes, h⟩ := (bind_eq_ok _ _ _).mp h
    obtain ⟨_, hblobReferences, h⟩ := (bind_eq_ok _ _ _).mp h
    obtain ⟨_, hprojectsRaised, h⟩ := (bind_eq_ok _ _ _).mp h
    obtain ⟨_, hprojectReferences, h⟩ := (bind_eq_ok _ _ _).mp h
    obtain ⟨_, hversionsRaised, h⟩ := (bind_eq_ok _ _ _).mp h
    obtain ⟨_, hversionReferences, h⟩ := (bind_eq_ok _ _ _).mp h
    cases h
    refine ⟨⟨?_, ?_, ?_, ?_, ?_, ?_, ?_⟩, ?_, ?_⟩
    · exact (ensureTotalAdd_eq_ok _ _).mp hfile
    · exact fun hc => (ensureTotalAdd_eq_ok _ _).mp ((onlyIf_eq_ok _ _).mp haccounted hc)
    · exact fun hc => (ensureTotalAdd_eq_ok _ _).mp ((onlyIf_eq_ok _ _).mp hprojects hc)
    · exact fun hc => (ensureTotalAdd_eq_ok _ _).mp ((onlyIf_eq_ok _ _).mp hversions hc)
    · exact (ensureTotalAdd_eq_ok _ _).mp hblob
    · exact fun hc => (ensureTotalAdd_eq_ok _ _).mp ((onlyIf_eq_ok _ _).mp hproject hc)
    · exact fun hc => (ensureTotalAdd_eq_ok _ _).mp ((onlyIf_eq_ok _ _).mp hversion hc)
    · by_contra hnot
      have hclosed := (onlyIf_eq_ok _ _).mp hlimits
      simp only [not_or, Bool.not_eq_true] at hnot
      have hblocked : (!limits.audit && !(rows.violations bytes limits).isEmpty) = true := by
        rw [hnot.1]
        cases hlist : rows.violations bytes limits with
        | nil => exact absurd hlist hnot.2
        | cons _ _ => rfl
      cases hclosed hblocked
    · rw [reserveIf_eq_ok _ _ _ _ hfileBytes, reserveIf_eq_ok _ _ _ _ haccountedBytes,
        reserveIf_eq_ok _ _ _ _ hblobReferences, reserveIf_eq_ok _ _ _ _ hprojectsRaised,
        reserveIf_eq_ok _ _ _ _ hprojectReferences, reserveIf_eq_ok _ _ _ _ hversionsRaised,
        reserveIf_eq_ok _ _ _ _ hversionReferences]
      rfl
  · rintro ⟨hroom, hlimits, rfl⟩
    have hopen : onlyIf (!limits.audit && !(rows.violations bytes limits).isEmpty)
        (.error (.error (.exceeded (rows.violations bytes limits)))) = .ok () := by
      apply (onlyIf_eq_ok _ _).mpr
      rcases hlimits with haudit | hnone
      · simp [haudit]
      · simp [hnone]
    have hfile := (ensureTotalAdd_eq_ok _ _).mpr hroom.fileBytes
    have haccounted := (onlyIf_eq_ok _ _).mpr fun hc =>
      (ensureTotalAdd_eq_ok _ _).mpr (hroom.accountedBytes hc)
    have hprojects := (onlyIf_eq_ok _ _).mpr fun hc =>
      (ensureTotalAdd_eq_ok _ _).mpr (hroom.projects hc)
    have hversions := (onlyIf_eq_ok _ _).mpr fun hc =>
      (ensureTotalAdd_eq_ok _ _).mpr (hroom.versions hc)
    have hblob := (ensureTotalAdd_eq_ok _ _).mpr hroom.blob
    have hproject := (onlyIf_eq_ok _ _).mpr fun hc =>
      (ensureTotalAdd_eq_ok _ _).mpr (hroom.project hc)
    have hversion := (onlyIf_eq_ok _ _).mpr fun hc =>
      (ensureTotalAdd_eq_ok _ _).mpr (hroom.version hc)
    have haccountedBytes := reserveIf_of_room _ _ _ hroom.accountedBytes
    have hprojectsRaised := reserveIf_of_room _ _ _ hroom.projects
    have hversionsRaised := reserveIf_of_room _ _ _ hroom.versions
    unfold ReservationRows.violations ReservationRows.addsProject ReservationRows.addsVersion
      ReservationRows.addsAccountedBytes at *
    simp only [ReservationRows.reserve, hfile, haccounted, hprojects, hversions, hblob, hproject,
      hversion, hopen, ok_bind, haccountedBytes, hprojectsRaised, hversionsRaised,
      reserveIf_of_room _ _ _ fun _ => hroom.fileBytes, reserveIf_of_room _ _ _ fun _ => hroom.blob,
      reserveIf_of_room _ _ _ hroom.project, reserveIf_of_room _ _ _ hroom.version]
    rfl

def Above (limit : Option Nat) (total : Nat) : Prop := ∃ most, limit = some most ∧ most < total

theorem exceeds_iff (value : QuotaValue) (amount : Nat) (limit : Option Nat)
    (h : value.sum + amount ≤ u64Max) :
    exceeds value amount limit = true ↔ Above limit (value.sum + amount) := by
  have htotal : value.total = value.sum := by
    unfold QuotaValue.total
    unfold QuotaValue.sum at h ⊢
    omega
  cases limit with
  | none => simp [exceeds, Above]
  | some most => simp [exceeds, addU64, htotal, h, Above]

def ReservationRows.Over (rows : ReservationRows) (bytes : Nat) (limits : QuotaLimits) :
    QuotaLimit → Prop
  | .fileBytes => Above limits.maxFileBytes bytes
  | .accountedBytes => rows.addsAccountedBytes = true ∧
      Above limits.maxAccountedBytes (rows.usage.accountedBytes.sum + bytes)
  | .projects => rows.addsProject = true ∧ Above limits.maxProjects (rows.usage.projects.sum + 1)
  | .versionsPerProject => rows.addsVersion = true ∧
      Above limits.maxVersionsPerProject (rows.project.versions.sum + 1)

theorem ReservationRows.mem_violations (rows : ReservationRows) (bytes : Nat) (limits : QuotaLimits)
    (hroom : rows.Room bytes) (limit : QuotaLimit) :
    limit ∈ rows.violations bytes limits ↔ rows.Over bytes limits limit := by
  unfold ReservationRows.violations limitViolations
  simp only [List.mem_append, List.mem_ite_nil_right, List.mem_singleton, Bool.and_eq_true]
  cases limit with
  | fileBytes => simp [ReservationRows.Over, Above, Option.any_eq_true]
  | accountedBytes =>
    simp only [reduceCtorEq, and_false, and_true, false_or, or_false, ReservationRows.Over]
    exact and_congr_right fun hadds => exceeds_iff _ _ _ (hroom.accountedBytes hadds)
  | projects =>
    simp only [reduceCtorEq, and_false, and_true, false_or, or_false, ReservationRows.Over]
    exact and_congr_right fun hadds => exceeds_iff _ _ _ (hroom.projects hadds)
  | versionsPerProject =>
    simp only [reduceCtorEq, and_false, and_true, false_or, ReservationRows.Over]
    exact and_congr_right fun hadds => exceeds_iff _ _ _ (hroom.versions hadds)

def Ledger.rowsOf (ledger : Ledger) (request : NewQuotaReservation) : ReservationRows where
  usage := usageAt ledger.usage request.repository
  project := ((projectKey request.repository request.project).bind
    fun key => ledger.project[key]?).getD {}
  version := ((versionKey request.repository request.project request.version).bind
    fun key => ledger.version[key]?).getD {}
  blob := { ledger.blob[blobKey request.repository request.digest]?.getD {} with
    bytes := request.bytes }
  projectKey := projectKey request.repository request.project
  versionKey := versionKey request.repository request.project request.version
  blobKey := blobKey request.repository request.digest

def Ledger.SameSize (ledger : Ledger) (request : NewQuotaReservation) : Prop :=
  let blob := ledger.blob[blobKey request.repository request.digest]?.getD {}
  0 < blob.references.total → blob.bytes = request.bytes

theorem read_eq_ok (ledger : Ledger) (request : NewQuotaReservation) (rows : ReservationRows) :
    ReservationRows.read ledger request = .ok rows ↔
      ledger.SameSize request ∧ rows = ledger.rowsOf request := by
  unfold ReservationRows.read Ledger.SameSize
  dsimp only
  split
  · rename_i hother
    constructor
    · intro h
      cases h
    · intro h
      exact absurd (h.1 hother.1) hother.2
  · rename_i hsame
    constructor
    · intro h
      cases h
      exact ⟨fun hlive => by_contra fun hne => hsame ⟨hlive, hne⟩, rfl⟩
    · rintro ⟨_, rfl⟩
      rfl

def Ledger.reserved (ledger : Ledger) (id : Nat) (request : NewQuotaReservation)
    (limits : QuotaLimits) : Ledger :=
  let rows := ledger.rowsOf request
  let written := (rows.charged request.bytes).write ledger request.repository
  { written with
    reservation := written.reservation.insert id
      (request.record id (rows.violations request.bytes limits))
    pending := written.pending.insert id () }

structure Ledger.Admits (ledger : Ledger) (request : NewQuotaReservation) (limits : QuotaLimits) :
    Prop where
  valid : validateRequest request = .ok ()
  sameSize : ledger.SameSize request
  room : (ledger.rowsOf request).Room request.bytes
  limits : limits.audit = true ∨ (ledger.rowsOf request).violations request.bytes limits = []

theorem reserveQuota_eq_ok (ledger : Ledger) (id : Nat) (request : NewQuotaReservation)
    (limits : QuotaLimits) (out : QuotaReservationRecord × Ledger) :
    reserveQuota ledger id request limits = .ok out ↔ ledger.Admits request limits ∧
      out = (request.record id ((ledger.rowsOf request).violations request.bytes limits),
        ledger.reserved id request limits) := by
  constructor
  · intro h
    obtain ⟨_, hvalid, h⟩ := (bind_eq_ok _ _ _).mp h
    obtain ⟨rows, hread, h⟩ := (bind_eq_ok _ _ _).mp h
    obtain ⟨admitted, hadmitted, h⟩ := (bind_eq_ok _ _ _).mp h
    obtain ⟨hsize, rfl⟩ := (read_eq_ok _ _ _).mp hread
    obtain ⟨hroom, hlimits, rfl⟩ := (ReservationRows.reserve_eq_ok _ _ _ _).mp hadmitted
    cases h
    exact ⟨⟨hvalid, hsize, hroom, hlimits⟩, rfl⟩
  · rintro ⟨hadmits, rfl⟩
    have hread := (read_eq_ok ledger request _).mpr ⟨hadmits.sameSize, rfl⟩
    have hreserve := (ReservationRows.reserve_eq_ok _ _ limits _).mpr
      ⟨hadmits.room, hadmits.limits, rfl⟩
    simp only [reserveQuota, hadmits.valid, hread, hreserve, ok_bind]
    rfl

theorem Above.mono {limit : Option Nat} {total larger : Nat} (h : Above limit total)
    (hle : total ≤ larger) : Above limit larger := by
  obtain ⟨most, hmost, hlt⟩ := h
  exact ⟨most, hmost, by omega⟩

structure Ledger.Within (ledger : Ledger) (limits : Str → QuotaLimits) : Prop where
  accountedBytes : ∀ repository, ¬ Above (limits repository).maxAccountedBytes
    (usageAt ledger.usage repository).accountedBytes.sum
  projects : ∀ repository, ¬ Above (limits repository).maxProjects
    (usageAt ledger.usage repository).projects.sum
  versions : ∀ repository project, ¬ Above (limits repository).maxVersionsPerProject
    (versionsIn ledger.project[([repository, project] : IdentityKey)]?).sum

theorem Ledger.Within.eases {ledger after : Ledger} {limits : Str → QuotaLimits}
    (h : ledger.Within limits) (hless : NoMore ledger after) : after.Within limits where
  accountedBytes repository hover :=
    h.accountedBytes repository (hover.mono (hless.accountedBytes repository))
  projects repository hover := h.projects repository (hover.mono (hless.projects repository))
  versions repository project hover :=
    h.versions repository project (hover.mono (hless.versions _))

theorem reserveMore_within (limit : Option Nat) (value : QuotaValue) (c : Bool) (amount : Nat)
    (h : ¬ Above limit value.sum) (hc : ¬ (c = true ∧ Above limit (value.sum + amount))) :
    ¬ Above limit (value.reserveMore c amount).sum := by
  rw [QuotaValue.sum_reserveMore]
  cases c with
  | false => exact h
  | true =>
    intro hover
    exact hc ⟨rfl, hover⟩

theorem versionsIn_reserved (ledger : Ledger) (id : Nat) (request : NewQuotaReservation)
    (limits : QuotaLimits) (key : IdentityKey) :
    versionsIn (ledger.reserved id request limits).project[key]? =
      if projectKey request.repository request.project = some key then
        ((ledger.rowsOf request).charged request.bytes).project.versions
      else versionsIn ledger.project[key]? := by
  show versionsIn (insertIf ledger.project (projectKey request.repository request.project)
    ((ledger.rowsOf request).charged request.bytes).project)[key]? = _
  cases projectKey request.repository request.project with
  | none => rfl
  | some own =>
    have hset := Table.getElem?_set ledger.project own key
      (some ((ledger.rowsOf request).charged request.bytes).project)
    rw [show (insertIf ledger.project (some own) _)[key]? = _ from hset]
    by_cases heq : own = key
    · rw [if_pos heq, if_pos (congrArg some heq)]
      rfl
    · rw [if_neg heq, if_neg (fun hsome => heq (Option.some.inj hsome))]

theorem rowsOf_versions (ledger : Ledger) (request : NewQuotaReservation) (key : IdentityKey)
    (h : projectKey request.repository request.project = some key) :
    (ledger.rowsOf request).project.versions = versionsIn ledger.project[key]? := by
  simp only [Ledger.rowsOf, h, Option.bind_some]
  cases ledger.project[key]? <;> rfl

theorem Ledger.Within.reserved {ledger : Ledger} {limits : Str → QuotaLimits}
    (h : ledger.Within limits) (id : Nat) (request : NewQuotaReservation)
    (haudit : (limits request.repository).audit = false)
    (hadmits : ledger.Admits request (limits request.repository)) :
    (ledger.reserved id request (limits request.repository)).Within limits := by
  have hnone : ∀ limit, ¬ (ledger.rowsOf request).Over request.bytes (limits request.repository)
      limit := by
    intro limit hover
    have hmem := (ReservationRows.mem_violations _ _ _ hadmits.room limit).mpr hover
    rcases hadmits.limits with hopen | hempty
    · rw [haudit] at hopen
      cases hopen
    · rw [hempty] at hmem
      cases hmem
  have husage : ∀ other, usageAt (ledger.reserved id request (limits request.repository)).usage
      other = if request.repository = other then
        ((ledger.rowsOf request).charged request.bytes).usage
      else usageAt ledger.usage other := fun other => usageAt_insert _ _ _ _
  refine ⟨?_, ?_, ?_⟩
  · intro repository
    rw [husage]
    split
    · rename_i heq
      subst heq
      exact reserveMore_within _ _ _ _ (h.accountedBytes _) (hnone .accountedBytes)
    · exact h.accountedBytes repository
  · intro repository
    rw [husage]
    split
    · rename_i heq
      subst heq
      exact reserveMore_within _ _ _ _ (h.projects _) (hnone .projects)
    · exact h.projects repository
  · intro repository project
    rw [versionsIn_reserved]
    split
    · rename_i hkey
      have hown : request.repository = repository := by
        obtain ⟨_, _, hparts⟩ := Option.map_eq_some_iff.mp hkey
        exact (List.cons.inj hparts).1
      subst hown
      apply reserveMore_within _ _ _ _ _ (hnone .versionsPerProject)
      rw [rowsOf_versions ledger request _ hkey]
      exact h.versions _ project
    · exact h.versions repository project

def Ledger.Uncharged (ledger : Ledger) (key : QuotaReservationRecord → Option IdentityKey)
    (k : IdentityKey) : Prop :=
  ∀ (id : Nat) (reservation : QuotaReservationRecord),
    ledger.reservation[id]? = some reservation → key reservation ≠ some k

/-- The limits a request is beyond, told from the live reservations: a digest, project
or version that one of them already charges costs nothing more. -/
def Exceeds (ledger : Ledger) (request : NewQuotaReservation) (limits : QuotaLimits) :
    QuotaLimit → Prop
  | .fileBytes => Above limits.maxFileBytes request.bytes
  | .accountedBytes =>
    ledger.Uncharged blobKeyOf (blobKey request.repository request.digest) ∧
      Above limits.maxAccountedBytes
        ((usageAt ledger.usage request.repository).accountedBytes.sum + request.bytes)
  | .projects => ∃ key, projectKey request.repository request.project = some key ∧
      ledger.Uncharged projectKeyOf key ∧
      Above limits.maxProjects ((usageAt ledger.usage request.repository).projects.sum + 1)
  | .versionsPerProject =>
    ∃ key, versionKey request.repository request.project request.version = some key ∧
      ledger.Uncharged versionKeyOf key ∧
      Above limits.maxVersionsPerProject ((versionsIn ledger.project[key.dropLast]?).sum + 1)

theorem Grouped.total_eq_zero_iff {V : Type} {refs : V → References}
    {key : QuotaReservationRecord → Option IdentityKey} {table : Table IdentityKey V}
    {ledger : Ledger} (h : Grouped refs key table ledger.reservation) (k : IdentityKey) :
    (referencesIn refs table[k]?).total = 0 ↔ ledger.Uncharged key k := by
  rw [total_eq_zero, h.references k]
  constructor
  · intro hzero id reservation hrow hk
    exact tally_ne_zero id reservation k hrow hk hzero
  · intro hnone
    by_contra hne
    obtain ⟨id, reservation, hrow, hk⟩ := exists_member k hne
    exact hnone id reservation hrow hk

theorem Ledger.Exact.addsAccountedBytes {ledger : Ledger} (h : ledger.Exact)
    (request : NewQuotaReservation) : (ledger.rowsOf request).addsAccountedBytes = true ↔
      ledger.Uncharged blobKeyOf (blobKey request.repository request.digest) := by
  rw [← h.blobs.groups.total_eq_zero_iff]
  unfold ReservationRows.addsAccountedBytes Ledger.rowsOf
  cases ledger.blob[blobKey request.repository request.digest]? <;> exact beq_iff_eq

theorem Ledger.Exact.addsProject {ledger : Ledger} (h : ledger.Exact)
    (request : NewQuotaReservation) : (ledger.rowsOf request).addsProject = true ↔
      ∃ key, projectKey request.repository request.project = some key ∧
        ledger.Uncharged projectKeyOf key := by
  unfold ReservationRows.addsProject Ledger.rowsOf
  cases projectKey request.repository request.project with
  | none => simp
  | some key =>
    simp only [Option.isSome_some, Bool.true_and, Option.bind_some, beq_iff_eq, Option.some.injEq,
      exists_eq_left', ← h.projects.groups.total_eq_zero_iff]
    cases ledger.project[key]? <;> rfl

theorem Ledger.Exact.addsVersion {ledger : Ledger} (h : ledger.Exact)
    (request : NewQuotaReservation) : (ledger.rowsOf request).addsVersion = true ↔
      ∃ key, versionKey request.repository request.project request.version = some key ∧
        ledger.Uncharged versionKeyOf key := by
  unfold ReservationRows.addsVersion Ledger.rowsOf
  cases versionKey request.repository request.project request.version with
  | none => simp
  | some key =>
    simp only [Option.isSome_some, Bool.true_and, Option.bind_some, beq_iff_eq, Option.some.injEq,
      exists_eq_left', ← h.projects.versionGroups.total_eq_zero_iff]
    cases ledger.version[key]? <;> rfl

theorem Ledger.Exact.over_iff {ledger : Ledger} (h : ledger.Exact) (request : NewQuotaReservation)
    (limits : QuotaLimits) (limit : QuotaLimit) :
    (ledger.rowsOf request).Over request.bytes limits limit ↔
      Exceeds ledger request limits limit := by
  cases limit with
  | fileBytes => exact Iff.rfl
  | accountedBytes => exact and_congr_left fun _ => h.addsAccountedBytes request
  | projects =>
    refine (and_congr_left fun _ => h.addsProject request).trans ?_
    constructor
    · rintro ⟨⟨key, hkey, hfree⟩, hover⟩
      exact ⟨key, hkey, hfree, hover⟩
    · rintro ⟨key, hkey, hfree, hover⟩
      exact ⟨⟨key, hkey, hfree⟩, hover⟩
  | versionsPerProject =>
    refine (and_congr_left fun _ => h.addsVersion request).trans ?_
    have hversions : ∀ key, versionKey request.repository request.project request.version =
        some key → (ledger.rowsOf request).project.versions =
          versionsIn ledger.project[key.dropLast]? := fun key hkey =>
      rowsOf_versions ledger request _ (versionKeyOf_dropLast (request.record 0 []) key hkey)
    constructor
    · rintro ⟨⟨key, hkey, hfree⟩, hover⟩
      rw [hversions key hkey] at hover
      exact ⟨key, hkey, hfree, hover⟩
    · rintro ⟨key, hkey, hfree, hover⟩
      rw [← hversions key hkey] at hover
      exact ⟨⟨key, hkey, hfree⟩, hover⟩

theorem Ledger.Exact.sameSize_iff {ledger : Ledger} (h : ledger.Exact)
    (request : NewQuotaReservation) : ledger.SameSize request ↔
      ∀ (id : Nat) (reservation : QuotaReservationRecord),
        ledger.reservation[id]? = some reservation →
        blobKeyOf reservation = some (blobKey request.repository request.digest) →
        reservation.bytes = request.bytes := by
  have hgroup := h.blobs.groups.total_eq_zero_iff (blobKey request.repository request.digest)
  constructor
  · intro hsize id reservation hrow hk
    obtain ⟨row, hblob⟩ := h.blobs.groups.row_of_member id reservation _ hrow hk
    have hbytes := h.blobs.bytes id reservation hrow row (by rw [Option.some.inj hk]; exact hblob)
    rw [hblob] at hgroup
    unfold Ledger.SameSize at hsize
    rw [hblob] at hsize
    rw [← hbytes]
    apply hsize
    apply Nat.pos_of_ne_zero
    intro hzero
    exact hgroup.mp hzero id reservation hrow hk
  · intro hall
    unfold Ledger.SameSize
    dsimp only
    cases hblob : ledger.blob[blobKey request.repository request.digest]? with
    | none =>
      intro hlive
      cases hlive
    | some row =>
      intro _
      obtain ⟨id, reservation, hrow, hk⟩ := exists_member _ (by
        rw [← h.blobs.groups.references (blobKey request.repository request.digest), hblob]
        exact h.blobs.groups.live _ row hblob)
      have hbytes := h.blobs.bytes id reservation hrow row
        (by rw [Option.some.inj hk]; exact hblob)
      exact hbytes.trans (hall id reservation hrow hk)

section Runs
variable {σ ε : Type}

/-- Every reservation is checked against the limits of its repository. -/
def Op.Enforced (limits : Str → QuotaLimits) : Op σ ε → Prop
  | .reserve _ request checked => checked = limits request.repository
  | _ => True

def Op.Draws (id : Nat) : Op σ ε → Prop
  | .reserve drawn _ _ => drawn = id
  | _ => False

theorem onLedger_eq_ok {α : Type} (store after : Store σ) (result : Except Fault (α × Ledger))
    (h : onLedger (ε := ε) store result = .ok after) :
    ∃ out, result = .ok out ∧ after.ledger = out.2 := by
  cases result with
  | error fault => cases h
  | ok out =>
    cases h
    exact ⟨out, rfl, rfl⟩

theorem Op.run_cases (store after : Store σ) (op : Op σ ε) (h : op.run store = .ok after) :
    (∃ id request limits, op = .reserve id request limits ∧ store.ledger.Admits request limits ∧
      after.ledger = store.ledger.reserved id request limits) ∨
      Eases store.ledger after.ledger := by
  cases op with
  | reserve id request limits =>
    obtain ⟨out, hout, hledger⟩ := onLedger_eq_ok _ _ _ h
    obtain ⟨hadmits, rfl⟩ := (reserveQuota_eq_ok _ _ _ _ _).mp hout
    exact Or.inl ⟨id, request, limits, rfl, hadmits, hledger⟩
  | commit id =>
    obtain ⟨out, hout, hledger⟩ := onLedger_eq_ok _ _ _ h
    rw [hledger]
    exact Or.inr (commitReservation_eases _ id out hout).1
  | release id =>
    obtain ⟨out, hout, hledger⟩ := onLedger_eq_ok _ _ _ h
    rw [hledger]
    exact Or.inr (release_eases _ id out hout).1
  | repair limit =>
    obtain ⟨out, hout, hledger⟩ := onLedger_eq_ok _ _ _ h
    rw [hledger]
    exact Or.inr (repairAbandoned_eases _ limit out hout)
  | commitDriver id body =>
    simp only [Op.run, commitDriverTxnWithQuota] at h
    split at h
    · cases h
    · split at h
      · cases h
      · cases h
      · rename_i ledger hcommit
        cases h
        exact Or.inr (commitReservation_eases _ id _ hcommit).1

theorem Op.apply_within (limits : Str → QuotaLimits)
    (haudit : ∀ repository, (limits repository).audit = false) (store : Store σ) (op : Op σ ε)
    (hop : op.Enforced limits) (h : store.ledger.Within limits) :
    (op.apply store).ledger.Within limits := by
  unfold Op.apply
  split
  · rename_i after hrun
    rcases Op.run_cases store after op hrun with ⟨id, request, checked, rfl, hadmits, hledger⟩ | heases
    · rw [hledger, show checked = _ from hop]
      rw [show checked = _ from hop] at hadmits
      exact h.reserved id request (haudit _) hadmits
    · exact h.eases heases.noMore
  · exact h

theorem run_within (limits : Str → QuotaLimits)
    (haudit : ∀ repository, (limits repository).audit = false) (ops : List (Op σ ε))
    (hops : ∀ op ∈ ops, op.Enforced limits) (store : Store σ) (h : store.ledger.Within limits) :
    (ops.foldl Op.apply store).ledger.Within limits := by
  induction ops generalizing store with
  | nil => exact h
  | cons op ops ih =>
    have hop := hops op List.mem_cons_self
    apply ih fun later hlater => hops later (List.mem_cons_of_mem op hlater)
    exact Op.apply_within limits haudit store op hop h

theorem Op.apply_row (store : Store σ) (op : Op σ ε) (id : Nat) (hid : ¬ op.Draws id) :
    Advances store.ledger.reservation[id]? (op.apply store).ledger.reservation[id]? := by
  unfold Op.apply
  split
  · rename_i after hrun
    rcases Op.run_cases store after op hrun with ⟨drawn, request, limits, rfl, _, hledger⟩ | heases
    · have hset := Table.getElem?_set store.ledger.reservation drawn id (some (request.record drawn
        ((store.ledger.rowsOf request).violations request.bytes limits)))
      rw [if_neg (show ¬ drawn = id from hid)] at hset
      rw [hledger]
      exact Or.inl hset
    · exact heases.rows id
  · exact Or.inl rfl

theorem run_row (ops : List (Op σ ε)) (id : Nat) (hops : ∀ op ∈ ops, ¬ op.Draws id)
    (store : Store σ) :
    Advances store.ledger.reservation[id]? (ops.foldl Op.apply store).ledger.reservation[id]? := by
  induction ops generalizing store with
  | nil => exact Or.inl rfl
  | cons op ops ih =>
    have hstep := Op.apply_row store op id (hops op List.mem_cons_self)
    exact hstep.trans (ih (fun later hlater => hops later (List.mem_cons_of_mem op hlater)) _)

theorem Spent.advances {before after : Option QuotaReservationRecord} (h : Spent before)
    (hstep : Advances before after) : Spent after := by
  rcases hstep with rfl | rfl | ⟨reservation, rfl, rfl⟩
  · exact h
  · nofun
  · intro r hr
    cases hr
    rfl

theorem commitReservation_spent (ledger : Ledger) (id : Nat) (h : Spent ledger.reservation[id]?) :
    commitReservation ledger id = .ok (false, ledger) := by
  unfold commitReservation
  split
  · rfl
  · rename_i reservation hrow
    exact if_pos (h reservation hrow)

theorem release_gone (ledger : Ledger) (id : Nat) (h : ledger.reservation[id]? = none) :
    release ledger id = .ok (false, ledger) := by
  unfold release
  rw [h]

inductive Unfit (ledger : Ledger) (request : NewQuotaReservation) (limits : QuotaLimits) : Prop where
  | invalid (h : validateRequest request ≠ .ok ())
  | otherSize (id : Nat) (reservation : QuotaReservationRecord)
      (hrow : ledger.reservation[id]? = some reservation)
      (hdigest : blobKeyOf reservation = some (blobKey request.repository request.digest))
      (hbytes : reservation.bytes ≠ request.bytes)
  | overflow (h : ¬ (ledger.rowsOf request).Room request.bytes)
  | exceeded (limit : QuotaLimit) (haudit : limits.audit = false)
      (h : Exceeds ledger request limits limit)

theorem Ledger.Exact.admits_iff {ledger : Ledger} (h : ledger.Exact)
    (request : NewQuotaReservation) (limits : QuotaLimits) :
    ledger.Admits request limits ↔ ¬ Unfit ledger request limits := by
  constructor
  · intro hadmits hunfit
    cases hunfit with
    | invalid hinvalid => exact hinvalid hadmits.valid
    | otherSize id reservation hrow hdigest hbytes =>
      exact hbytes ((h.sameSize_iff request).mp hadmits.sameSize id reservation hrow hdigest)
    | overflow hoverflow => exact hoverflow hadmits.room
    | exceeded limit haudit hover =>
      have hmem := (ReservationRows.mem_violations _ _ _ hadmits.room limit).mpr
        ((h.over_iff request limits limit).mpr hover)
      rcases hadmits.limits with hopen | hempty
      · rw [haudit] at hopen
        cases hopen
      · rw [hempty] at hmem
        cases hmem
  · intro hfit
    have hroom : (ledger.rowsOf request).Room request.bytes :=
      by_contra fun hnot => hfit (.overflow hnot)
    refine ⟨by_contra fun hnot => hfit (.invalid hnot), ?_, hroom, ?_⟩
    · apply (h.sameSize_iff request).mpr
      intro id reservation hrow hdigest
      exact by_contra fun hnot => hfit (.otherSize id reservation hrow hdigest hnot)
    · cases haudit : limits.audit with
      | true => exact Or.inl rfl
      | false =>
        apply Or.inr
        apply List.eq_nil_iff_forall_not_mem.mpr
        intro limit hmem
        apply hfit
        apply Unfit.exceeded limit haudit
        apply (h.over_iff request limits limit).mp
        exact (ReservationRows.mem_violations _ _ _ hroom limit).mp hmem

theorem reserve_fails_iff (store : Store σ) (h : store.ledger.Exact) (id : Nat)
    (request : NewQuotaReservation) (limits : QuotaLimits) :
    (∃ e, (Op.reserve id request limits : Op σ ε).run store = .error e) ↔
      Unfit store.ledger request limits := by
  have hadmits := h.admits_iff request limits
  have hok := reserveQuota_eq_ok store.ledger id request limits
  simp only [Op.run]
  cases hresult : reserveQuota store.ledger id request limits with
  | error fault =>
    have hnot : ¬ store.ledger.Admits request limits := by
      intro hadmitted
      have hsome := (hok _).mpr ⟨hadmitted, rfl⟩
      rw [hresult] at hsome
      cases hsome
    exact iff_of_true ⟨_, rfl⟩ (by_contra fun hfit => hnot (hadmits.mpr hfit))
  | ok out =>
    have hadmitted := ((hok out).mp hresult).1
    apply iff_of_false _ (hadmits.mp hadmitted)
    rintro ⟨e, he⟩
    cases he

theorem Op.apply_failed (store : Store σ) (op : Op σ ε) (e : ε ⊕ Fault)
    (h : op.run store = .error e) : op.apply store = store := by
  unfold Op.apply
  rw [h]

/-- Under fixed enforced limits a store within them stays within them along every
run. A failing operation changes nothing, and a reservation fails exactly when it is
unfit. A commit or a release repeated later does nothing, and the violations recorded
for a reservation are the limits it exceeds. -/
theorem enforced_limits_hold (limits : Str → QuotaLimits)
    (haudit : ∀ repository, (limits repository).audit = false) (store : Store σ)
    (hreachable : Reachable ε store) :
    (store.ledger.Within limits → ∀ ops : List (Op σ ε), (∀ op ∈ ops, op.Enforced limits) →
      (ops.foldl Op.apply store).ledger.Within limits) ∧
    (∀ (op : Op σ ε) (e : ε ⊕ Fault), op.run store = .error e → op.apply store = store) ∧
    (∀ (id : Nat) (request : NewQuotaReservation) (checked : QuotaLimits),
      (∃ e, (Op.reserve id request checked : Op σ ε).run store = .error e) ↔
        Unfit store.ledger request checked) ∧
    (∀ (id : Nat) (first : Bool) (after : Ledger) (ops : List (Op σ ε)),
      (∀ op ∈ ops, ¬ op.Draws id) → commitReservation store.ledger id = .ok (first, after) →
      ∀ later, (ops.foldl Op.apply { store with ledger := after }).ledger = later →
        commitReservation later id = .ok (false, later)) ∧
    (∀ (id : Nat) (first : Bool) (after : Ledger) (ops : List (Op σ ε)),
      (∀ op ∈ ops, ¬ op.Draws id) → release store.ledger id = .ok (first, after) →
      ∀ later, (ops.foldl Op.apply { store with ledger := after }).ledger = later →
        release later id = .ok (false, later) ∧ commitReservation later id = .ok (false, later)) ∧
    (∀ (id : Nat) (request : NewQuotaReservation) (checked : QuotaLimits)
      (record : QuotaReservationRecord) (after : Ledger),
      reserveQuota store.ledger id request checked = .ok (record, after) →
      ∀ limit, limit ∈ record.violations ↔ Exceeds store.ledger request checked limit) := by
  have hexact := reachable_exact store hreachable
  refine ⟨?_, ?_, ?_, ?_, ?_, ?_⟩
  · intro hwithin ops hops
    exact run_within limits haudit ops hops store hwithin
  · intro op e hrun
    exact Op.apply_failed store op e hrun
  · intro id request checked
    exact reserve_fails_iff store hexact id request checked
  · intro id first after ops hops hcommit later hlater
    have hspent := (commitReservation_eases store.ledger id _ hcommit).2
    rw [← hlater]
    exact commitReservation_spent _ id (hspent.advances (run_row ops id hops ⟨store.driver, after⟩))
  · intro id first after ops hops hrelease later hlater
    have hgone := (release_eases store.ledger id _ hrelease).2
    have hrow := run_row ops id hops ⟨store.driver, after⟩
    have hlatergone : later.reservation[id]? = none := by
      rw [← hlater]
      dsimp only at hrow hgone
      rw [hgone] at hrow
      rcases hrow with heq | hnone | ⟨_, hsome, _⟩
      · exact heq
      · exact hnone
      · cases hsome
    refine ⟨release_gone later id hlatergone, commitReservation_spent later id ?_⟩
    rw [hlatergone]
    nofun
  · intro id request checked record after hreserve limit
    obtain ⟨hadmits, hout⟩ := (reserveQuota_eq_ok _ _ _ _ _).mp hreserve
    cases hout
    exact (ReservationRows.mem_violations _ _ _ hadmits.room limit).trans
      (hexact.over_iff request checked limit)

end Runs

def tightLimits (_ : Str) : QuotaLimits :=
  { maxAccountedBytes := some 7, maxProjects := some 2, maxVersionsPerProject := some 1 }

def sharedOps : List (Op Unit Empty) :=
  [.reserve 1 (sharedRequest (str "a")) (tightLimits (str "r")),
    .reserve 2 (sharedRequest (str "b")) (tightLimits (str "r")), .commit 1]

theorem Ledger.Within.empty (limits : Str → QuotaLimits) : Ledger.Within {} limits where
  accountedBytes _ := by simp [usageAt, Above, QuotaValue.sum]
  projects _ := by simp [usageAt, Above, QuotaValue.sum]
  versions _ _ := by simp [versionsIn, Above, QuotaValue.sum]

theorem sharedOps_within :
    (sharedOps.foldl Op.apply ⟨(), {}⟩).ledger.Within tightLimits ∧
      usageAt (sharedOps.foldl Op.apply ⟨(), {}⟩).ledger.usage (str "r") =
        ⟨⟨7, 7⟩, ⟨7, 0⟩, ⟨1, 1⟩⟩ := by
  constructor
  · apply (enforced_limits_hold tightLimits (fun _ => rfl) ⟨(), {}⟩ (.empty ())).1
      (Ledger.Within.empty tightLimits)
    intro op hop
    simp only [sharedOps, List.mem_cons, List.not_mem_nil, or_false] at hop
    rcases hop with rfl | rfl | rfl
    · rfl
    · rfl
    · trivial
  · decide

end Peryx.Quota
