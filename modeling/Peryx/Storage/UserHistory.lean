import Peryx.Storage.Users

/-! # Users along every run -/

namespace Peryx.Users
open Identity Numeral

theorem IsUserId.length {id : Str} (h : IsUserId id) : id.length = 36 := by
  obtain ⟨uuid, hlength, rfl⟩ := h
  rw [List.length_append, hlength]
  rfl

theorem eventKey_inj {id other : Str} {a b : Nat} (hlength : id.length = other.length)
    (h : eventKey id a = eventKey other b) : id = other ∧ a = b := by
  obtain ⟨hid, hrest⟩ := List.append_inj h hlength
  exact ⟨hid, padded_inj (by omega) (by omega) 20 a b (List.cons.inj hrest).2⟩

theorem compare_self_id (id : Str) : compare id id = .eq := Std.ReflCmp.compare_self

theorem compare_eventKey (id : Str) (a b : Nat) (ha : a < 2 ^ 64) (hb : b < 2 ^ 64) :
    compare (eventKey id a) (eventKey id b) = compare a b := by
  have hslash : compare (0x2F : UInt8) 0x2F = .eq := by decide
  unfold eventKey
  rw [compare_append id id _ _ rfl, compare_self_id, Ordering.eq_then, List.compare_cons_cons, hslash,
    Ordering.eq_then, compare_padded (by omega) (by omega) 20 a b (by omega) (by omega) (by omega)]

def inRange (id key : Str) : Bool :=
  (compare (id ++ [0x2F]) key).isLE && (compare key (id ++ [0x2F, 0x7E])).isLT

theorem inRange_own (id : Str) (sequence : Nat) (h : sequence < 2 ^ 64) :
    inRange id (eventKey id sequence) = true := by
  have hslash : compare (0x2F : UInt8) 0x2F = .eq := by decide
  have hlength : (padded 10 20 sequence).length = 20 :=
    length_padded (by omega) 20 sequence (by omega) (by omega)
  cases hpadded : padded 10 20 sequence with
  | nil =>
    rw [hpadded] at hlength
    cases hlength
  | cons digit digits =>
    have hdigit := isDigit_of_mem_padded 20 sequence digit (by rw [hpadded]; exact List.mem_cons_self)
    have htilde : compare digit (0x7E : UInt8) = .lt := by
      have hlt : digit < 0x7E := UInt8.lt_of_le_of_lt hdigit.2 (by decide)
      show compareOfLessAndEq digit 0x7E = .lt
      unfold compareOfLessAndEq
      rw [if_pos hlt]
    unfold inRange eventKey
    rw [compare_append id id _ _ rfl, compare_append id id _ _ rfl, compare_self_id, Ordering.eq_then,
      Ordering.eq_then, List.compare_cons_cons, List.compare_cons_cons, hslash, Ordering.eq_then,
      Ordering.eq_then, hpadded, List.compare_cons_cons, htilde]
    rfl

theorem inRange_other (id other : Str) (sequence : Nat) (hlength : id.length = other.length)
    (h : inRange id (eventKey other sequence) = true) : other = id := by
  unfold inRange eventKey at h
  rw [compare_append id other _ _ hlength, compare_append other id _ _ hlength.symm,
    Bool.and_eq_true] at h
  have hswap : compare other id = (compare id other).swap := Std.OrientedCmp.eq_swap
  rw [hswap] at h
  cases hcompare : compare id other with
  | eq => exact (Std.LawfulEqCmp.eq_of_compare hcompare).symm
  | lt =>
    rw [hcompare] at h
    exact nomatch h.2
  | gt =>
    rw [hcompare] at h
    exact nomatch h.1

def historyOf (id : Str) (changes : List UserLifecycleChange) : List UserLifecycleEvent :=
  changes.mapIdx fun number change => ⟨id, number + 1, change⟩

theorem historyOf_append (id : Str) (changes : List UserLifecycleChange)
    (change : UserLifecycleChange) :
    historyOf id (changes ++ [change]) =
      historyOf id changes ++ [⟨id, changes.length + 1, change⟩] := by
  unfold historyOf
  rw [List.mapIdx_append]
  simp

theorem replay_created (folding : NameFolding) (id display : Str) :
    replay folding (historyOf id [.created display]) =
      some ⟨id, folding.shown display, .active, 1⟩ :=
  rfl

theorem getElem?_historyOf (id : Str) (changes : List UserLifecycleChange) (number : Nat)
    (event : UserLifecycleEvent) : (historyOf id changes)[number]? = some event ↔
      ∃ change, changes[number]? = some change ∧ event = ⟨id, number + 1, change⟩ := by
  unfold historyOf
  rw [List.getElem?_mapIdx, Option.map_eq_some_iff]
  simp only [eq_comm]

theorem historyOf_sorted (id : Str) (changes : List UserLifecycleChange) :
    (historyOf id changes).Pairwise fun a b => a.sequence < b.sequence := by
  rw [List.pairwise_iff_getElem]
  intro i j hi hj hij
  simp only [historyOf, List.getElem_mapIdx]
  omega

theorem mem_historyOf (id : Str) (changes : List UserLifecycleChange) (event : UserLifecycleEvent) :
    event ∈ historyOf id changes ↔
      ∃ number change, changes[number]? = some change ∧ event = ⟨id, number + 1, change⟩ := by
  rw [List.mem_iff_getElem?]
  simp only [getElem?_historyOf]

def UserTables.canonicalOf (tables : UserTables) (id : Str) : Option Str :=
  tables.user[id]?.map fun user => user.name.canonical

variable (folding : NameFolding)

structure UserTables.Changed (tables : UserTables) (user : ServerUser)
    (changes : List UserLifecycleChange) : Prop where
  revision : changes.length = user.revision
  replayed : replay folding (historyOf user.id changes) = some user
  rows : ∀ number change, changes[number]? = some change →
    tables.event[eventKey user.id (number + 1)]? = some ⟨user.id, number + 1, change⟩

structure UserStore.Aligned (store : UserStore) : Prop where
  ids : ∀ (id : Str) user, store.tables.user[id]? = some user → user.id = id ∧ user.revision < 2 ^ 64 ∧
    IsUserId id ∧ id ∈ store.drawn
  names : store.tables.name.Finds store.tables.canonicalOf
  history : ∀ (id : Str) user, store.tables.user[id]? = some user →
    ∃ changes, store.tables.Changed folding user changes
  strays : ∀ (key : Str) event, store.tables.event[key]? = some event →
    ∃ user, store.tables.user[event.userId]? = some user ∧ 1 ≤ event.sequence ∧
      event.sequence ≤ user.revision ∧ key = eventKey event.userId event.sequence

def UserTables.record (tables : UserTables) (names : Table Str Str) (user : ServerUser)
    (change : UserLifecycleChange) : UserTables :=
  ({ tables with name := names }.writeUser user).appendEvent ⟨user.id, user.revision, change⟩

variable {folding} {store : UserStore}

theorem record_user (tables : UserTables) (names : Table Str Str) (user : ServerUser)
    (change : UserLifecycleChange) (id : Str) :
    (tables.record names user change).user[id]? =
      if user.id = id then some user else tables.user[id]? :=
  Table.getElem?_set tables.user user.id id (some user)

theorem record_event (tables : UserTables) (names : Table Str Str) (user : ServerUser)
    (change : UserLifecycleChange) (key : Str) :
    (tables.record names user change).event[key]? =
      if eventKey user.id user.revision = key then some ⟨user.id, user.revision, change⟩
      else tables.event[key]? :=
  Table.getElem?_set tables.event (eventKey user.id user.revision) key (some ⟨user.id, user.revision, change⟩)

theorem UserStore.Aligned.length (h : store.Aligned folding) {id : Str} {user : ServerUser}
    (hrow : store.tables.user[id]? = some user) : id.length = 36 := by
  exact (h.ids id user hrow).2.2.1.length

theorem record_aligned (h : store.Aligned folding) (names : Table Str Str)
    (user : ServerUser) (change : UserLifecycleChange) (changes : List UserLifecycleChange)
    (drawn : List Str) (hdrawn : ∀ id ∈ store.drawn, id ∈ drawn)
    (hid : IsUserId user.id ∧ user.id ∈ drawn)
    (hbound : user.revision < 2 ^ 64)
    (hbefore : ∀ old, store.tables.user[user.id]? = some old → old.revision + 1 = user.revision)
    (hnames : names.Finds fun id =>
      if id = user.id then some user.name.canonical else store.tables.canonicalOf id)
    (hlength : changes.length + 1 = user.revision)
    (hreplay : replay folding (historyOf user.id (changes ++ [change])) = some user)
    (hrows : ∀ number change, changes[number]? = some change →
      store.tables.event[eventKey user.id (number + 1)]? = some ⟨user.id, number + 1, change⟩) :
    UserStore.Aligned folding ⟨store.tables.record names user change, drawn⟩ := by
  have hown : user.id.length = 36 := hid.1.length
  refine ⟨fun id found hrow => ?_, ?_, fun id found hrow => ?_, fun key event hrow => ?_⟩
  · rw [record_user] at hrow
    split at hrow
    · rename_i heq
      cases hrow
      rw [← heq]
      exact ⟨rfl, hbound, hid⟩
    · obtain ⟨hname, hsmall, huser, hmem⟩ := h.ids id found hrow
      exact ⟨hname, hsmall, huser, hdrawn id hmem⟩
  · refine hnames.congr fun id => ?_
    unfold UserTables.canonicalOf
    rw [record_user]
    by_cases heq : user.id = id
    · rw [if_pos heq, if_pos heq.symm]
      rfl
    · rw [if_neg heq, if_neg fun hsame => heq hsame.symm]
  · rw [record_user] at hrow
    split at hrow
    · cases hrow
      refine ⟨changes ++ [change], ?_, hreplay, fun number found hfound => ?_⟩
      · rw [List.length_append]
        exact hlength
      · rw [record_event]
        rcases Nat.lt_trichotomy number changes.length with hlt | heq | hgt
        · rw [List.getElem?_append_left hlt] at hfound
          rw [if_neg, hrows number found hfound]
          intro heq
          have := (eventKey_inj rfl heq).2
          omega
        · subst heq
          rw [List.getElem?_append_right (Nat.le_refl _), Nat.sub_self] at hfound
          cases hfound
          rw [if_pos (by rw [hlength]), hlength]
        · rw [List.getElem?_eq_none (by rw [List.length_append]; exact hgt)] at hfound
          cases hfound
    · rename_i hother
      obtain ⟨kept, hrevision, hreplayed, hkept⟩ := h.history id found hrow
      refine ⟨kept, hrevision, hreplayed, fun number change hchange => ?_⟩
      rw [record_event, if_neg, hkept number change hchange]
      intro heq
      have hname := (h.ids id found hrow).1
      have hsame := (eventKey_inj (by rw [hown, hname, h.length hrow]) heq).1
      exact hother (hsame.trans hname)
  · rw [record_event] at hrow
    split at hrow
    · rename_i hkey
      cases hrow
      have hpositive : 1 ≤ user.revision := by omega
      refine ⟨user, ?_, hpositive, Nat.le_refl _, hkey.symm⟩
      rw [record_user, if_pos rfl]
    · obtain ⟨found, hfound, hone, hle, hkey⟩ := h.strays key event hrow
      by_cases heq : user.id = event.userId
      · refine ⟨user, ?_, hone, ?_, hkey⟩
        · rw [record_user, if_pos heq]
        · have := hbefore found (by rw [heq]; exact hfound)
          omega
      · refine ⟨found, ?_, hone, hle, hkey⟩
        rw [record_user, if_neg heq]
        exact hfound

theorem userName_shown {value : Str} {name : UserName} (h : folding.userName value = .ok name) :
    name = folding.shown name.display := by
  unfold NameFolding.userName at h
  split at h
  · cases h
  · cases h
    rfl

theorem changed_aligned (h : store.Aligned folding) (names : Table Str Str) (id : Str)
    (old user : ServerUser) (change : UserLifecycleChange)
    (hrow : store.tables.user[id]? = some old) (hid : user.id = id)
    (hbound : old.revision + 1 < 2 ^ 64) (hrevision : user.revision = old.revision + 1)
    (hchange : (old.change folding change).map (fun changed =>
      { changed with revision := old.revision + 1 }) = some user)
    (hnames : names.Finds fun other =>
      if other = user.id then some user.name.canonical else store.tables.canonicalOf other) :
    UserStore.Aligned folding ⟨store.tables.record names user change, store.drawn⟩ := by
  obtain ⟨hname, hsmall, huser, hmem⟩ := h.ids id old hrow
  obtain ⟨changes, hlength, hreplayed, hrows⟩ := h.history id old hrow
  rw [hname] at hreplayed hrows
  refine record_aligned h names user change changes store.drawn (fun _ hdrawn => hdrawn) ?_
    (by omega) ?_ hnames (by omega) ?_ ?_
  · rw [hid]
    exact ⟨huser, hmem⟩
  · intro found hfound
    rw [hid, hrow] at hfound
    cases hfound
    exact hrevision.symm
  · rw [hid, historyOf_append, replay_append folding _ _ old hreplayed]
    unfold ServerUser.follow
    rw [if_pos ⟨hname.symm, by rw [hlength]⟩, hlength]
    exact hchange
  · rw [hid]
    exact hrows

theorem names_kept (h : store.Aligned folding) (id : Str) (old user : ServerUser)
    (hrow : store.tables.user[id]? = some old) (hid : user.id = id)
    (hname : user.name.canonical = old.name.canonical) : store.tables.name.Finds fun other =>
      if other = user.id then some user.name.canonical else store.tables.canonicalOf other := by
  refine h.names.congr fun other => ?_
  split
  · rename_i heq
    rw [heq, hid]
    unfold UserTables.canonicalOf
    rw [hrow, hname]
    rfl
  · rfl

theorem unchanged_aligned (h : store.Aligned folding) (drawn : List Str) :
    UserStore.Aligned folding ⟨store.tables, drawn ++ store.drawn⟩ :=
  { h with
    ids := fun id user hrow => by
      obtain ⟨hname, hsmall, huser, hmem⟩ := h.ids id user hrow
      exact ⟨hname, hsmall, huser, List.mem_append_right drawn hmem⟩ }

theorem newName_ok {value : Str} {name : UserName} (h : newName folding value = .ok name) :
    name = folding.shown name.display := by
  unfold newName at h
  split at h
  · rename_i found hfound
    cases h
    exact userName_shown hfound
  · cases h

theorem createUser_ok {id displayName : Str} {tables staged : UserTables} {user : ServerUser}
    (h : createUser folding id displayName tables = .ok (user, staged)) :
    ∃ name, name = folding.shown name.display ∧ tables.name[name.canonical]? = none ∧
      user = ⟨id, name, .active, 1⟩ ∧
      staged = tables.record (tables.name.insert name.canonical id) user (.created name.display) := by
  unfold createUser at h
  cases hname : newName folding displayName with
  | error error =>
    rw [hname] at h
    cases h
  | ok name =>
    rw [hname] at h
    dsimp only [bind, Except.bind] at h
    split at h
    · cases h
    · rename_i hfree
      cases h
      exact ⟨name, newName_ok hname, not_not.mp hfree, rfl, rfl⟩

theorem nextRevision_ok {user : ServerUser} {revision : Nat} (h : nextRevision user = .ok revision) :
    revision = user.revision + 1 ∧ user.revision + 1 < 2 ^ 64 := by
  unfold nextRevision at h
  split at h
  · rename_i hbound
    cases h
    exact ⟨rfl, hbound⟩
  · cases h

def renamedRows (tables : UserTables) (old : ServerUser) (name : UserName) : Table Str Str :=
  if old.name.canonical ≠ name.canonical then
    (tables.name.erase old.name.canonical).insert name.canonical old.id
  else tables.name

theorem renameUser_ok {id displayName : Str} {tables staged : UserTables} {user : ServerUser}
    (h : renameUser folding id displayName tables = .ok (user, staged)) :
    staged = tables ∨ ∃ name old, name = folding.shown name.display ∧
      tables.user[id]? = some old ∧ old.revision + 1 < 2 ^ 64 ∧
      (old.name.canonical ≠ name.canonical → tables.name[name.canonical]? = none) ∧
      user = { old with name := name, revision := old.revision + 1 } ∧
      staged = tables.record (renamedRows tables old name) user
        (.renamed old.name.display name.display) := by
  unfold renameUser at h
  cases hname : newName folding displayName with
  | error error =>
    rw [hname] at h
    cases h
  | ok name =>
    rw [hname] at h
    cases hrow : tables.user[id]? with
    | none =>
      rw [hrow] at h
      cases h
    | some old =>
      rw [hrow] at h
      dsimp only [bind, Except.bind] at h
      split at h
      · cases h
        exact .inl rfl
      · refine .inr ⟨name, old, newName_ok hname, rfl, ?_⟩
        have hfinish : ∀ names : Table Str Str,
            (do
              let revision ← nextRevision old
              let user : ServerUser := { old with name := name, revision := revision }
              let tables := UserTables.writeUser { tables with name := names } user
              let tables := tables.appendEvent
                ⟨user.id, user.revision, .renamed old.name.display user.name.display⟩
              return (user, tables) : Except UserStoreError _) = .ok (user, staged) →
            old.revision + 1 < 2 ^ 64 ∧
              user = { old with name := name, revision := old.revision + 1 } ∧
              staged = tables.record names user (.renamed old.name.display name.display) := by
          intro names hdone
          cases hnext : nextRevision old with
          | error error =>
            rw [hnext] at hdone
            cases hdone
          | ok revision =>
            rw [hnext] at hdone
            cases hdone
            obtain ⟨rfl, hbound⟩ := nextRevision_ok hnext
            exact ⟨hbound, rfl, rfl⟩
        unfold renamedRows
        split at h
        · rename_i hmoved
          split at h
          · cases h
          · rename_i hfree
            obtain ⟨hbound, huser, hstaged⟩ := hfinish _ h
            rw [if_pos hmoved]
            exact ⟨hbound, fun _ => not_not.mp hfree, huser, hstaged⟩
        · rename_i hkept
          obtain ⟨hbound, huser, hstaged⟩ := hfinish _ h
          rw [if_neg hkept]
          exact ⟨hbound, fun hmoved => absurd hmoved hkept, huser, hstaged⟩

theorem setUserState_ok {id : Str} {state : UserState} {tables staged : UserTables}
    {user : ServerUser} (h : setUserState id state tables = .ok (user, staged)) :
    staged = tables ∨ ∃ old, tables.user[id]? = some old ∧ old.revision + 1 < 2 ^ 64 ∧
      old.state ≠ state ∧ user = { old with state := state, revision := old.revision + 1 } ∧
      staged = tables.record tables.name user (stateChange state) := by
  unfold setUserState at h
  cases hrow : tables.user[id]? with
  | none =>
    rw [hrow] at h
    cases h
  | some old =>
    rw [hrow] at h
    dsimp only [bind, Except.bind] at h
    split at h
    · cases h
      exact .inl rfl
    · rename_i hstate
      cases hnext : nextRevision old with
      | error error =>
        rw [hnext] at h
        cases h
      | ok revision =>
        rw [hnext] at h
        cases h
        obtain ⟨rfl, hbound⟩ := nextRevision_ok hnext
        exact .inr ⟨old, rfl, hbound, hstate, rfl, rfl⟩

theorem create_aligned (h : store.Aligned folding) (id displayName : Str) (hid : IsUserId id)
    (hfresh : id ∉ store.drawn) (user : ServerUser) (staged : UserTables)
    (hrun : createUser folding id displayName store.tables = .ok (user, staged)) :
    UserStore.Aligned folding ⟨staged, id :: store.drawn⟩ := by
  obtain ⟨name, hname, hfree, rfl, rfl⟩ := createUser_ok hrun
  have hnone : store.tables.user[id]? = none := by
    cases hrow : store.tables.user[id]? with
    | none => rfl
    | some old => exact absurd (h.ids _ old hrow).2.2.2 hfresh
  have hnames := h.names.move none (some name.canonical) id
    (fun key hkey => by
      unfold UserTables.canonicalOf at hkey
      rw [hnone] at hkey
      cases hkey)
    (fun key other hold => nomatch hold)
    (fun key other hnew hkey => by
      cases hnew
      rw [(h.names _ other).mpr hkey] at hfree
      cases hfree)
  refine record_aligned h _ _ _ [] (id :: store.drawn) (fun _ => List.mem_cons_of_mem id)
    ⟨hid, List.mem_cons_self⟩ (Nat.one_lt_two_pow (by decide)) ?_ hnames rfl ?_ ?_
  · intro old hold
    rw [hnone] at hold
    cases hold
  · rw [List.nil_append, replay_created, ← hname]
  · exact fun number change hchange => nomatch hchange

theorem rename_aligned (h : store.Aligned folding) (id displayName : Str) (user : ServerUser)
    (staged : UserTables) (hrun : renameUser folding id displayName store.tables = .ok (user, staged)) :
    UserStore.Aligned folding ⟨staged, store.drawn⟩ := by
  rcases renameUser_ok hrun with rfl | ⟨name, old, hname, hrow, hbound, hfree, rfl, rfl⟩
  · exact unchanged_aligned h []
  · have hid := (h.ids id old hrow).1
    refine changed_aligned h _ id old _ _ hrow hid hbound rfl ?_ ?_
    · unfold ServerUser.change
      dsimp only
      rw [if_pos rfl, ← hname]
      rfl
    · unfold renamedRows
      split
      · rename_i hmoved
        have hcanonical : store.tables.canonicalOf id = some old.name.canonical := by
          unfold UserTables.canonicalOf
          rw [hrow]
          rfl
        have hnames := h.names.move (some old.name.canonical) (some name.canonical) id
          (fun key hkey => by rw [← hkey, hcanonical])
          (fun key other hold hkey => by
            cases hold
            exact h.names.inj hkey hcanonical)
          (fun key other hnew hkey => by
            cases hnew
            rw [(h.names _ other).mpr hkey] at hfree
            exact nomatch hfree hmoved)
        rw [← hid] at hnames
        exact hnames
      · rename_i hkept
        exact names_kept h id old _ hrow hid (not_not.mp hkept).symm

theorem setState_aligned (h : store.Aligned folding) (id : Str) (state : UserState)
    (user : ServerUser) (staged : UserTables)
    (hrun : setUserState id state store.tables = .ok (user, staged)) :
    UserStore.Aligned folding ⟨staged, store.drawn⟩ := by
  rcases setUserState_ok hrun with rfl | ⟨old, hrow, hbound, hstate, rfl, rfl⟩
  · exact unchanged_aligned h []
  · have hid := (h.ids id old hrow).1
    refine changed_aligned h _ id old _ _ hrow hid hbound rfl ?_ (names_kept h id old _ hrow hid rfl)
    obtain ⟨oldId, oldName, oldState, oldRevision⟩ := old
    cases state <;> cases oldState <;> first | exact absurd rfl hstate | rfl

theorem run_aligned (h : store.Aligned folding) (drawn : List Str) (txn : UserTxn ServerUser)
    (hok : ∀ user staged, txn store.tables = .ok (user, staged) →
      UserStore.Aligned folding ⟨staged, drawn ++ store.drawn⟩) :
    UserStore.Aligned folding ⟨(txn.run store.tables).2, drawn ++ store.drawn⟩ := by
  unfold UserTxn.run
  cases hrun : txn store.tables with
  | error error => exact unchanged_aligned h drawn
  | ok result => exact hok result.1 result.2 hrun

theorem users_aligned (store : UserStore) (h : (userSystem folding).Reachable store) :
    store.Aligned folding := by
  refine (userSystem folding).invariant (UserStore.Aligned folding) ?_ ?_ store h
  · rintro store rfl
    refine ⟨fun id user hrow => ?_, Table.finds_empty fun id => ?_, fun id user hrow => ?_,
      fun key event hrow => ?_⟩
    · exact nomatch Std.ExtTreeMap.getElem?_empty.symm.trans hrow
    · unfold UserTables.canonicalOf
      rw [Std.ExtTreeMap.getElem?_empty]
      rfl
    · exact nomatch Std.ExtTreeMap.getElem?_empty.symm.trans hrow
    · exact nomatch Std.ExtTreeMap.getElem?_empty.symm.trans hrow
  · rintro store next - haligned ⟨op, hdraw, rfl⟩
    cases op with
    | create id displayName =>
      obtain ⟨hid, hfresh⟩ := hdraw id List.mem_cons_self
      exact run_aligned haligned [id] _ (create_aligned haligned id displayName hid hfresh)
    | rename id displayName => exact run_aligned haligned [] _ (rename_aligned haligned id displayName)
    | setState id state => exact run_aligned haligned [] _ (setState_aligned haligned id state)
    | failed => exact unchanged_aligned haligned []

theorem events_in_range (h : store.Aligned folding) (id : Str) (user : ServerUser)
    (changes : List UserLifecycleChange) (hrow : store.tables.user[id]? = some user)
    (hchanged : store.tables.Changed folding user changes) :
    (store.tables.event.toList.filter fun row => inRange id row.1) =
      (historyOf id changes).map fun event => (eventKey id event.sequence, event) := by
  obtain ⟨hname, hsmall, -⟩ := h.ids id user hrow
  obtain ⟨hlength, -, hrows⟩ := hchanged
  rw [hname] at hrows
  have hnumber : ∀ number change, changes[number]? = some change → number + 1 < 2 ^ 64 := by
    intro number change hchange
    have := (List.getElem?_eq_some_iff.mp hchange).1
    omega
  have hsorted : ((historyOf id changes).map fun event => (eventKey id event.sequence, event)).Pairwise
      fun a b => compare a.1 b.1 = .lt := by
    rw [List.pairwise_map]
    refine (historyOf_sorted id changes).imp_of_mem fun {a b} ha hb hlt => ?_
    obtain ⟨number, change, hchange, rfl⟩ := (mem_historyOf id changes a).mp ha
    obtain ⟨number', change', hchange', rfl⟩ := (mem_historyOf id changes b).mp hb
    rw [compare_eventKey id _ _ (hnumber _ _ hchange) (hnumber _ _ hchange')]
    exact Nat.compare_eq_lt.mpr hlt
  have hsorted' : (store.tables.event.toList.filter fun row => inRange id row.1).Pairwise
      fun a b => compare a.1 b.1 = .lt :=
    Std.ExtTreeMap.ordered_keys_toList.filter _
  have hmem : ∀ row, row ∈ (store.tables.event.toList.filter fun row => inRange id row.1) ↔
      row ∈ (historyOf id changes).map fun event => (eventKey id event.sequence, event) := by
    rintro ⟨key, event⟩
    rw [List.mem_filter, Std.ExtTreeMap.mem_toList_iff_getElem?_eq_some, List.mem_map]
    constructor
    · rintro ⟨hevent, hrange⟩
      obtain ⟨found, hfound, hone, hle, rfl⟩ := h.strays key event hevent
      have hid : event.userId = id :=
        inRange_other id _ _ (by rw [h.length hrow, h.length hfound]) hrange
      rw [hid, hrow] at hfound
      cases hfound
      obtain ⟨number, hsequence⟩ : ∃ number, event.sequence = number + 1 :=
        ⟨event.sequence - 1, by omega⟩
      obtain ⟨change, hchange⟩ : ∃ change, changes[number]? = some change :=
        ⟨_, List.getElem?_eq_getElem (by omega)⟩
      rw [hid, hsequence, hrows number change hchange] at hevent
      refine ⟨event, (mem_historyOf id changes event).mpr ⟨number, change, hchange, ?_⟩, ?_⟩
      · exact (Option.some.inj hevent).symm
      · rw [hid]
    · rintro ⟨found, hfound, heq⟩
      obtain ⟨number, change, hchange, rfl⟩ := (mem_historyOf id changes found).mp hfound
      cases heq
      exact ⟨hrows number change hchange, inRange_own id _ (hnumber number change hchange)⟩
  exact Table.eq_of_keys_sorted hsorted' hsorted hmem

theorem userEvents_eq (h : store.Aligned folding) (id : Str) (user : ServerUser)
    (changes : List UserLifecycleChange) (hrow : store.tables.user[id]? = some user)
    (hchanged : store.tables.Changed folding user changes) :
    userEvents store.tables id = historyOf id changes := by
  have hrange := events_in_range h id user changes hrow hchanged
  unfold inRange at hrange
  unfold userEvents
  rw [hrange, List.map_map]
  exact List.map_id _

theorem historyOf_sequences (id : Str) (changes : List UserLifecycleChange) :
    (historyOf id changes).map UserLifecycleEvent.sequence = List.range' 1 changes.length := by
  apply List.ext_getElem?
  intro number
  rw [List.getElem?_map, historyOf, List.getElem?_mapIdx]
  by_cases hlt : number < changes.length
  · rw [List.getElem?_eq_getElem hlt, List.getElem?_range' hlt]
    show some (number + 1) = some (1 + 1 * number)
    rw [Nat.one_mul, Nat.add_comm]
  · rw [List.getElem?_eq_none (by omega), List.getElem?_eq_none (by rw [List.length_range']; omega)]
    rfl

structure UserTables.Exact (folding : NameFolding) (tables : UserTables) : Prop where
  /-- Each user has the row of its canonical name, and no other row is there. -/
  names : ∀ (canonical id : Str), tables.name[canonical]? = some id ↔
    ∃ user, tables.user[id]? = some user ∧ user.name.canonical = canonical
  dense : ∀ (id : Str) user, tables.user[id]? = some user →
    (userEvents tables id).map UserLifecycleEvent.sequence = List.range' 1 user.revision
  replayed : ∀ (id : Str) user, tables.user[id]? = some user →
    replay folding (userEvents tables id) = some user

theorem UserStore.Aligned.exact (h : store.Aligned folding) :
    store.tables.Exact folding where
  names canonical id := by
    rw [h.names canonical id]
    exact Option.map_eq_some_iff
  dense id user hrow := by
    obtain ⟨changes, hchanged⟩ := h.history id user hrow
    rw [userEvents_eq h id user changes hrow hchanged, historyOf_sequences, hchanged.revision]
  replayed id user hrow := by
    obtain ⟨changes, hchanged⟩ := h.history id user hrow
    have hname := (h.ids id user hrow).1
    rw [userEvents_eq h id user changes hrow hchanged, ← hname]
    exact hchanged.replayed

/-- In every run the names are one to one, the events dense and replayed to the record; an
operation that is rejected changes nothing. -/
theorem users_exact (folding : NameFolding) (store : UserStore)
    (h : (userSystem folding).Reachable store) :
    store.tables.Exact folding ∧ ∀ (op : UserOp) error,
      (op.run folding store.tables).1 = .error error →
      (op.run folding store.tables).2 = store.tables := by
  refine ⟨(users_aligned store h).exact, fun op error herror => ?_⟩
  have hdropped : ∀ txn : UserTxn ServerUser, (txn.run store.tables).1 = .error error →
      (txn.run store.tables).2 = store.tables := by
    intro txn htxn
    unfold UserTxn.run at htxn ⊢
    split at htxn
    · cases htxn
    · rfl
  cases op with
  | create id displayName => exact hdropped _ herror
  | rename id displayName => exact hdropped _ herror
  | setState id state => exact hdropped _ herror
  | failed => rfl

def asciiFolding : NameFolding := ⟨List.map Str.asciiLower, id⟩

def firstId : Str := str "usr_" ++ padded 16 32 1

def secondId : Str := str "usr_" ++ padded 16 32 2

def oneUser : UserStore :=
  ⟨((UserOp.create firstId (str "Ada")).run asciiFolding {}).2, [firstId]⟩

def twoUsers : UserStore :=
  ⟨((UserOp.create secondId (str "Grace")).run asciiFolding oneUser.tables).2, [secondId, firstId]⟩

def renamed : UserStore :=
  ⟨((UserOp.rename firstId (str "Countess")).run asciiFolding twoUsers.tables).2, [secondId, firstId]⟩

theorem renamed_exact : renamed.tables.Exact asciiFolding ∧
    ((UserOp.rename secondId (str "COUNTESS")).run asciiFolding renamed.tables).2 = renamed.tables := by
  have hstart : (userSystem asciiFolding).Reachable {} := .start _ rfl
  have hone : (userSystem asciiFolding).Reachable oneUser := by
    refine hstart.step _ _ ⟨.create firstId (str "Ada"), fun id hid => ?_, rfl⟩
    rw [List.mem_singleton.mp hid]
    exact ⟨⟨padded 16 32 1, by decide, rfl⟩, nofun⟩
  have htwo : (userSystem asciiFolding).Reachable twoUsers := by
    refine hone.step _ _ ⟨.create secondId (str "Grace"), fun id hid => ?_, rfl⟩
    rw [List.mem_singleton.mp hid]
    exact ⟨⟨padded 16 32 2, by decide, rfl⟩, by decide⟩
  have hrenamed : (userSystem asciiFolding).Reachable renamed :=
    htwo.step _ _ ⟨.rename firstId (str "Countess"), nofun, rfl⟩
  have hexact := users_exact asciiFolding renamed hrenamed
  exact ⟨hexact.1, hexact.2 (.rename secondId (str "COUNTESS")) (.duplicateName (str "countess"))
    (by decide +kernel)⟩

end Peryx.Users
