import Peryx.Storage.QuotaInvariant

/-! # One transaction keeps the counters exact -/

namespace Peryx.Quota

def blobKeyOf (reservation : QuotaReservationRecord) : Option IdentityKey :=
  some (blobKey reservation.repository reservation.digest)

def projectKeyOf (reservation : QuotaReservationRecord) : Option IdentityKey :=
  projectKey reservation.repository reservation.project

def versionKeyOf (reservation : QuotaReservationRecord) : Option IdentityKey :=
  versionKey reservation.repository reservation.project reservation.version

def bytesIn (repository : Str) (reservation : QuotaReservationRecord) : Nat :=
  if reservation.repository = repository then reservation.bytes else 0

structure Alike (a b : QuotaReservationRecord) : Prop where
  repository : a.repository = b.repository
  project : a.project = b.project
  version : a.version = b.version
  digest : a.digest = b.digest
  bytes : a.bytes = b.bytes

def afterTransition (reservation : QuotaReservationRecord) (commit : Bool) :
    Option QuotaReservationRecord :=
  if commit then some { reservation with state := .committed } else none

theorem stateIn_afterTransition (reservation : QuotaReservationRecord) (commit : Bool) :
    stateIn (afterTransition reservation commit) = afterState commit := by
  cases commit <;> rfl

theorem alike_afterTransition (reservation r : QuotaReservationRecord) (commit : Bool)
    (h : afterTransition reservation commit = some r) : Alike r reservation := by
  cases commit with
  | false => cases h
  | true =>
    cases h
    exact ⟨rfl, rfl, rfl, rfl, rfl⟩

theorem Alike.keys {a b : QuotaReservationRecord} (h : Alike a b) :
    blobKeyOf a = blobKeyOf b ∧ projectKeyOf a = projectKeyOf b ∧ versionKeyOf a = versionKeyOf b := by
  simp only [blobKeyOf, projectKeyOf, versionKeyOf, h.repository, h.project, h.version, h.digest,
    and_self]

theorem versionKeyOf_dropLast (reservation : QuotaReservationRecord) (k : IdentityKey)
    (h : versionKeyOf reservation = some k) : projectKeyOf reservation = some k.dropLast := by
  unfold versionKeyOf versionKey at h
  unfold projectKeyOf projectKey
  split at h
  · rename_i project version hproject _
    cases h
    rw [hproject]
    rfl
  · cases h

section Members
variable {V : Type} {refs : V → References} {key : QuotaReservationRecord → Option IdentityKey}
  {table : Table IdentityKey V} {reservations : Reservations}

theorem tally_ne_zero (id : Nat) (reservation : QuotaReservationRecord) (k : IdentityKey)
    (hrow : reservations[id]? = some reservation) (hk : key reservation = some k) :
    tally (count key k) reservations ≠ 0 := by
  have hcharge : Charges (count key k) 1 reservations[id]? := by
    intro r hr
    rw [hrow] at hr
    cases hr
    simp [count, hk]
  rw [tally_split (count key k) reservations id 1 hcharge, hrow]
  intro hzero
  have hc := congrArg QuotaValue.committed hzero
  have hr := congrArg QuotaValue.reserved hzero
  cases hs : reservation.state with
  | committed => simp [stateIn, amountInState, amountIn, hs] at hc
  | reserved => simp [stateIn, amountInState, amountIn, hs] at hr

theorem exists_member (k : IdentityKey) (h : tally (count key k) reservations ≠ 0) :
    ∃ (id : Nat) (reservation : QuotaReservationRecord),
      reservations[id]? = some reservation ∧ key reservation = some k := by
  by_contra hnone
  apply h
  apply sumOver_eq_zero
  intro id reservation hrow
  have hne : key reservation ≠ some k := fun hk => hnone ⟨id, reservation, hrow, hk⟩
  simp [count, hne]

theorem Grouped.row_of_member (h : Grouped refs key table reservations) (id : Nat)
    (reservation : QuotaReservationRecord) (k : IdentityKey)
    (hrow : reservations[id]? = some reservation) (hk : key reservation = some k) :
    ∃ v, table[k]? = some v := by
  cases ht : table[k]? with
  | some v => exact ⟨v, rfl⟩
  | none =>
    have hcount := h.references k
    rw [ht] at hcount
    exact absurd hcount.symm (tally_ne_zero id reservation k hrow hk)

variable (weight : V → Nat)

theorem Grouped.settles (h : Grouped refs key table reservations) (id : Nat)
    (reservation : QuotaReservationRecord) (k : IdentityKey) (n : Nat) (commit : Bool)
    (hrow : reservations[id]? = some reservation) (hk : key reservation = some k)
    (hkeys : ∀ r, afterTransition reservation commit = some r → key r = some k)
    (hw : ∀ v, table[k]? = some v → weight v = n)
    (hc : commit = true → reservation.state = .reserved) :
    Ensures Bad (settle (referencesIn refs table[k]?) (charged refs weight table k.dropLast)
        reservation.state n commit)
      (fun out => out.1 = tally (count key k)
          (reservations.set id (afterTransition reservation commit)) ∧
        out.2 = charged refs weight (table.erase k) k.dropLast + share out.1 n) := by
  have hbefore : tally (count key k) reservations =
      tally (count key k) (reservations.erase id) + amountIn reservation.state 1 := by
    have hcharge : Charges (count key k) 1 reservations[id]? := by
      intro r hr
      rw [hrow] at hr
      cases hr
      simp [count, hk]
    rw [tally_split (count key k) reservations id 1 hcharge, hrow]
    rfl
  have hafter : tally (count key k) (reservations.set id (afterTransition reservation commit)) =
      tally (count key k) (reservations.erase id) + amountInState (afterState commit) 1 := by
    have hcharge : Charges (count key k) 1 (afterTransition reservation commit) := by
      intro r hr
      simp [count, hkeys r hr]
    rw [tally_set (count key k) reservations id 1 _ hcharge, stateIn_afterTransition]
  rw [charged_split refs weight table k n hw, h.references k, hbefore]
  apply (settle_ensures _ _ reservation.state n commit hc).mono
  rintro out rfl
  exact ⟨hafter.symm, rfl⟩

theorem Grouped.reserves (h : Grouped refs key table reservations) (k : IdentityKey) (n : Nat)
    (hw : ∀ v, table[k]? = some v → weight v = n) :
    Ensures Bad (reserveIf true (referencesIn refs table[k]?) 1)
        (· = tally (count key k) reservations + amountIn .reserved 1) ∧
      Ensures Bad (reserveIf ((referencesIn refs table[k]?).total == 0)
          (charged refs weight table k.dropLast) n)
        (· = charged refs weight (table.erase k) k.dropLast +
          share (tally (count key k) reservations + amountIn .reserved 1) n) := by
  rw [charged_split refs weight table k n hw, h.references k]
  exact ⟨reserveIf_ensures _ _, reserveIf_share_ensures _ _ _⟩

end Members

theorem tally_reserve (weight : QuotaReservationRecord → Nat) (reservations : Reservations) (id n : Nat)
    (reservation : QuotaReservationRecord) (hid : reservations[id]? = none)
    (hs : reservation.state = .reserved) (hn : weight reservation = n) :
    tally weight (reservations.set id (some reservation)) =
      tally weight reservations + amountIn .reserved n := by
  have hcharge : Charges weight n (some reservation) := by
    intro r hr
    cases hr
    exact hn
  have hnone : Charges weight 0 reservations[id]? := by
    intro r hr
    rw [hid] at hr
    cases hr
  rw [tally_set weight reservations id n _ hcharge, tally_split weight reservations id 0 hnone, hid]
  simp only [stateIn, Option.map_some, Option.map_none, amountInState, hs, add_zero]

structure BlobSide (usage : Table Str QuotaUsage) (blob : Table IdentityKey BlobUsage)
    (reservations : Reservations) : Prop where
  fileBytes : ∀ repository,
    (usageAt usage repository).fileBytes = tally (bytesIn repository) reservations
  groups : Grouped BlobUsage.references blobKeyOf blob reservations
  bytes : ∀ (id : Nat) (reservation : QuotaReservationRecord),
    reservations[id]? = some reservation →
    ∀ row, blob[blobKey reservation.repository reservation.digest]? = some row →
      row.bytes = reservation.bytes
  accounted : ∀ repository, (usageAt usage repository).accountedBytes =
    charged BlobUsage.references BlobUsage.bytes blob [repository]

theorem usageAt_insert (usage : Table Str QuotaUsage) (repository other : Str) (row : QuotaUsage) :
    usageAt (usage.insert repository row) other =
      if repository = other then row else usageAt usage other := by
  have h := Table.getElem?_set usage repository other (some row)
  unfold usageAt
  rw [show (usage.insert repository row)[other]? = _ from h]
  split <;> rfl

theorem BlobSide.same_bytes {usage : Table Str QuotaUsage} {blob : Table IdentityKey BlobUsage}
    {reservations : Reservations} (h : BlobSide usage blob reservations) (id : Nat)
    (reservation : QuotaReservationRecord) (key : IdentityKey) (n : Nat)
    (hrow : reservations[id]? = some reservation)
    (hk : blobKey reservation.repository reservation.digest = key)
    (hn : ∀ row, blob[key]? = some row → row.bytes = n) : reservation.bytes = n := by
  obtain ⟨row, hblob⟩ := h.groups.row_of_member id reservation key hrow (by rw [blobKeyOf, hk])
  have hbytes := h.bytes id reservation hrow row (by rw [hk]; exact hblob)
  rw [← hbytes]
  exact hn row hblob

theorem BlobSide.set {usage : Table Str QuotaUsage} {blob : Table IdentityKey BlobUsage}
    {reservations : Reservations} (h : BlobSide usage blob reservations) (id : Nat)
    (reservation : QuotaReservationRecord) (row : Option QuotaReservationRecord)
    (group : Option BlobUsage) (written : QuotaUsage)
    (hbefore : ∀ r, reservations[id]? = some r → Alike r reservation)
    (hafter : ∀ r, row = some r → Alike r reservation)
    (hsize : ∀ v, blob[blobKey reservation.repository reservation.digest]? = some v →
      v.bytes = reservation.bytes)
    (hfile : written.fileBytes =
      tally (bytesIn reservation.repository) (reservations.set id row))
    (hgroup : referencesIn BlobUsage.references group =
      tally (count blobKeyOf (blobKey reservation.repository reservation.digest))
        (reservations.set id row))
    (hlive : ∀ v, group = some v → v.references ≠ 0)
    (hbytes : ∀ v, group = some v → v.bytes = reservation.bytes)
    (haccounted : written.accountedBytes =
      charged BlobUsage.references BlobUsage.bytes
          (blob.erase (blobKey reservation.repository reservation.digest)) [reservation.repository] +
        share (referencesIn BlobUsage.references group) reservation.bytes) :
    BlobSide (usage.insert reservation.repository written)
      (blob.set (blobKey reservation.repository reservation.digest) group)
      (reservations.set id row) where
  fileBytes := by
    intro repository
    rw [usageAt_insert]
    split
    · rename_i heq
      rw [← heq]
      exact hfile
    · rename_i hne
      rw [h.fileBytes repository, tally_set_unweighed]
      · intro r hr
        rw [bytesIn, (hbefore r hr).repository, if_neg hne]
      · intro r hr
        rw [bytesIn, (hafter r hr).repository, if_neg hne]
  groups := h.groups.set_group id row _ group
    (fun r hr => (hbefore r hr).keys.1) (fun r hr => (hafter r hr).keys.1) hgroup hlive
  bytes := by
    intro other r hr v hv
    rw [Table.getElem?_set] at hr hv
    split at hv
    · rename_i hkey
      rw [hbytes v hv]
      split at hr
      · exact ((hafter r hr).bytes).symm
      · exact (h.same_bytes other r _ reservation.bytes hr hkey.symm hsize).symm
    · rename_i hkey
      split at hr
      · obtain ⟨hrep, _, _, hdig, _⟩ := hafter r hr
        exact absurd (by rw [hrep, hdig]) hkey
      · exact h.bytes other r hr v hv
  accounted := by
    intro repository
    have hdrop : (blobKey reservation.repository reservation.digest).dropLast =
        [reservation.repository] := rfl
    rw [usageAt_insert]
    split
    · rename_i heq
      rw [← heq, haccounted, ← hdrop]
      exact (charged_set BlobUsage.references BlobUsage.bytes blob _ reservation.bytes group
        hbytes).symm
    · rename_i hne
      rw [h.accounted repository, charged_set_other]
      rw [hdrop]
      simpa using hne

def ownReferences (references : References) : References := references

def versionsIn (row : Option ProjectUsage) : QuotaValue :=
  match row with
  | some project => project.versions
  | none => 0

structure ProjectSide (usage : Table Str QuotaUsage) (project : Table IdentityKey ProjectUsage)
    (version : Table IdentityKey References) (reservations : Reservations) : Prop where
  groups : Grouped ProjectUsage.references projectKeyOf project reservations
  versionGroups : Grouped ownReferences versionKeyOf version reservations
  projects : ∀ repository, (usageAt usage repository).projects =
    charged ProjectUsage.references (fun _ => 1) project [repository]
  versions : ∀ key : IdentityKey, versionsIn project[key]? = charged ownReferences (fun _ => 1) version key

theorem projectKeyOf_dropLast (reservation : QuotaReservationRecord) (k : IdentityKey)
    (h : projectKeyOf reservation = some k) : k.dropLast = [reservation.repository] := by
  obtain ⟨project, _, hk⟩ := Option.map_eq_some_iff.mp h
  rw [← hk]
  rfl

theorem versionKeyOf_none (reservation : QuotaReservationRecord)
    (h : projectKeyOf reservation = none) : versionKeyOf reservation = none := by
  cases hv : versionKeyOf reservation with
  | none => rfl
  | some k =>
    rw [versionKeyOf_dropLast reservation k hv] at h
    cases h

theorem ProjectSide.set_without_project {usage : Table Str QuotaUsage}
    {project : Table IdentityKey ProjectUsage} {version : Table IdentityKey References}
    {reservations : Reservations} (h : ProjectSide usage project version reservations) (id : Nat)
    (reservation : QuotaReservationRecord) (row : Option QuotaReservationRecord)
    (hbefore : ∀ r, reservations[id]? = some r → Alike r reservation)
    (hafter : ∀ r, row = some r → Alike r reservation)
    (hnone : projectKeyOf reservation = none) :
    ProjectSide usage project version (reservations.set id row) where
  groups := h.groups.set_ungrouped id row (fun r hr => (hbefore r hr).keys.2.1.trans hnone)
    fun r hr => (hafter r hr).keys.2.1.trans hnone
  versionGroups := h.versionGroups.set_ungrouped id row
    (fun r hr => (hbefore r hr).keys.2.2.trans (versionKeyOf_none reservation hnone))
    fun r hr => (hafter r hr).keys.2.2.trans (versionKeyOf_none reservation hnone)
  projects := h.projects
  versions := h.versions

theorem charged_versions_of_unreferenced (version : Table IdentityKey References)
    (reservations : Reservations) (key : IdentityKey)
    (hv : Grouped ownReferences versionKeyOf version reservations)
    (hzero : tally (count projectKeyOf key) reservations = 0) :
    charged ownReferences (fun _ => 1) version key = 0 := by
  apply sumOver_eq_zero
  intro k v hrow
  by_cases hk : k.dropLast = key
  · have hrefs : referencesIn ownReferences version[k]? ≠ 0 := by
      rw [hrow]
      exact hv.live k v hrow
    rw [hv.references k] at hrefs
    obtain ⟨other, r, hr, hkr⟩ := exists_member k hrefs
    have hproject := versionKeyOf_dropLast r k hkr
    rw [hk] at hproject
    exact absurd hzero (tally_ne_zero other r key hr hproject)
  · rw [if_neg hk]

theorem ProjectSide.set {usage : Table Str QuotaUsage} {project : Table IdentityKey ProjectUsage}
    {version version' : Table IdentityKey References} {reservations : Reservations}
    (h : ProjectSide usage project version reservations) (uid : Nat)
    (reservation : QuotaReservationRecord) (row : Option QuotaReservationRecord)
    (key : IdentityKey) (written : QuotaUsage) (group : ProjectUsage)
    (hkey : projectKeyOf reservation = some key)
    (hbefore : ∀ r, reservations[uid]? = some r → Alike r reservation)
    (hafter : ∀ r, row = some r → Alike r reservation)
    (hversion : Grouped ownReferences versionKeyOf version' (reservations.set uid row))
    (hscope : ∀ scope, scope ≠ key →
      charged ownReferences (fun _ => 1) version' scope = charged ownReferences (fun _ => 1) version scope)
    (hrefs : group.references = tally (count projectKeyOf key) (reservations.set uid row))
    (hversions : group.versions = charged ownReferences (fun _ => 1) version' key)
    (hprojects : written.projects = charged ProjectUsage.references (fun _ => 1)
      (project.erase key) key.dropLast + share group.references 1) :
    ProjectSide (usage.insert reservation.repository written)
      (project.set key (keepIf group.references group)) version' (reservations.set uid row) where
  groups := by
    apply h.groups.set_group uid row key _ (fun r hr => (hbefore r hr).keys.2.1.trans hkey)
      (fun r hr => (hafter r hr).keys.2.1.trans hkey)
    · rw [referencesIn_keepIf ProjectUsage.references group.references group rfl]
      exact hrefs
    · exact keepIf_live group.references group rfl
  versionGroups := hversion
  projects := by
    intro repository
    have hdrop := projectKeyOf_dropLast reservation key hkey
    rw [usageAt_insert]
    split
    · rename_i heq
      rw [← heq, hprojects, ← hdrop, charged_set ProjectUsage.references (fun _ => 1) project key 1
        _ fun _ _ => rfl, referencesIn_keepIf ProjectUsage.references group.references group rfl]
    · rename_i hne
      rw [h.projects repository, charged_set_other]
      rw [hdrop]
      simpa using hne
  versions := by
    intro scope
    rw [Table.getElem?_set]
    split
    · rename_i heq
      rw [← heq]
      unfold keepIf
      split
      · rename_i hzero
        rw [total_eq_zero, hrefs] at hzero
        exact (charged_versions_of_unreferenced version' _ key hversion hzero).symm
      · exact hversions
    · rename_i hne
      rw [h.versions scope, hscope scope (Ne.symm hne)]

end Peryx.Quota
