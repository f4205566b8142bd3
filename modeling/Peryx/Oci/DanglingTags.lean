import Peryx.Oci.TagRequests

/-!
# Tags and the manifests they point to

A delete by digest unlinks the manifest some transactions after it looked for references,
and a push writes its tag some transactions after it stored the manifest.
-/

namespace Peryx.Oci
open Storage Acl

def NoDangling (rows : Rows) : Prop := ∀ index repo tag digest,
  rows[tagKey index repo tag]? = some digest → (manifestAt rows digest).isSome

def Aside (key : Str) : Prop :=
  (∀ index repo tag, key ≠ tagKey index repo tag) ∧ ∀ digest, key ≠ manifestKey digest

def Quiet (write : Stores → Stores) : Prop :=
  (∀ index repo tag, KeepsRow (tagKey index repo tag) write) ∧
    ∀ digest, KeepsRow (manifestKey digest) write

theorem tagKey_ne_manifestKey (index repo tag digest : Str) :
    tagKey index repo tag ≠ manifestKey digest := by
  rw [tagKey_eq]
  exact append_ne_of_prefixes _ _ _ _ (by decide) (by decide)

theorem membershipKey_aside (index repo digest : Str) : Aside (membershipKey index repo digest) := by
  refine ⟨fun index' repo' tag => ?_, fun other => (manifestKey_ne_membershipKey _ _ _ _).symm⟩
  rw [membershipKey_eq, tagKey_eq]
  exact append_ne_of_prefixes _ _ _ _ (by decide) (by decide)

theorem blobMembershipKey_aside (index repo digest : Str) :
    Aside (blobMembershipKey index repo digest) := by
  refine ⟨fun index' repo' tag => ?_, fun other => (manifestKey_ne_blobMembershipKey _ _ _ _).symm⟩
  rw [blobMembershipKey_eq, tagKey_eq]
  exact append_ne_of_prefixes _ _ _ _ (by decide) (by decide)

theorem referrer_aside (key : Str) (h : referrerPrefixAll <+: key) : Aside key := by
  obtain ⟨rest, rfl⟩ := h
  refine ⟨fun index repo tag => ?_, fun digest => ?_⟩
  · rw [tagKey_eq]
    exact append_ne_of_prefixes _ _ _ _ (by decide) (by decide)
  · exact append_ne_of_prefixes _ _ _ _ (by decide) (by decide)

theorem tagFreshnessKey_ne_manifestKey (index repo tag digest : Str) :
    tagFreshnessKey index repo tag ≠ manifestKey digest := by
  unfold tagFreshnessKey scopedPrefix
  simp only [List.append_assoc]
  exact append_ne_of_prefixes _ _ _ _ (by decide) (by decide)

theorem quiet_id : Quiet id := ⟨fun _ _ _ => keepsRow_id _, fun _ => keepsRow_id _⟩

theorem always_put_quiet (key : Str) (value : Bytes) (h : Aside key) :
    (putDriverValue key value).Always Quiet :=
  ⟨⟨fun index repo tag => (always_putDriverValue key _ value (h.1 index repo tag)).1,
    fun digest => (always_putDriverValue key _ value (h.2 digest)).1⟩, fun _ => trivial⟩

theorem always_delete_quiet (key : Str) (h : Aside key) : (deleteDriverValue key).Always Quiet :=
  ⟨⟨fun index repo tag => (always_deleteDriverValue key _ (h.1 index repo tag)).1,
    fun digest => (always_deleteDriverValue key _ (h.2 digest)).1⟩, fun _ => trivial⟩

structure Shrinks (old new : Rows) : Prop where
  rows : ∀ key : Str, new[key]? = old[key]? ∨ new[key]? = none
  manifests : ∀ digest, new[manifestKey digest]? = old[manifestKey digest]?

theorem Shrinks.refl (rows : Rows) : Shrinks rows rows := ⟨fun _ => Or.inl rfl, fun _ => rfl⟩

theorem Shrinks.remove {old : Rows} {txn : DriverTxn} (h : Shrinks old txn.table) (key : Str)
    (hkey : ∀ digest, key ≠ manifestKey digest) : Shrinks old (txn.remove key).2.table := by
  refine ⟨fun other => ?_, fun digest => ?_⟩
  · rw [DriverTxn.remove_getElem?]
    split
    · exact Or.inr rfl
    · exact h.rows other
  · rw [DriverTxn.remove_getElem?, if_neg (hkey digest)]
    exact h.manifests digest

theorem untag_shrinks (index repo digest : Str) (old : Rows) (state : Nat × DriverTxn)
    (row : Str × Bytes) (h : Shrinks old state.2.table) :
    Shrinks old (untag index repo digest state row).2.table := by
  unfold untag
  split
  · rename_i tag htag
    split
    · rw [Str.stripPrefix_eq_some] at htag
      refine (h.remove row.1 fun other => ?_).remove _ fun other => tagFreshnessKey_ne_manifestKey _ _ _ _
      rw [htag]
      exact tagKey_ne_manifestKey index repo tag other
    · exact h
  · exact h

theorem unrefer_shrinks (digest : Str) (old : Rows) (state : Nat × DriverTxn) (key : Str)
    (hkey : referrerPrefixAll <+: key) (h : Shrinks old state.2.table) :
    Shrinks old (unrefer digest state key).2.table := by
  unfold unrefer
  split
  · split
    · exact h.remove key (referrer_aside key hkey).2
    · exact h
  · exact h

theorem foldl_shrinks {α : Type} (old : Rows) (round : Nat × DriverTxn → α → Nat × DriverTxn)
    (items : List α) (hround : ∀ state, ∀ item ∈ items, Shrinks old state.2.table →
      Shrinks old (round state item).2.table) (state : Nat × DriverTxn)
    (h : Shrinks old state.2.table) : Shrinks old (items.foldl round state).2.table := by
  induction items generalizing state with
  | nil => exact h
  | cons item items ih =>
    refine ih (fun state i hi => hround state i (List.mem_cons_of_mem _ hi)) _ ?_
    exact hround state item List.mem_cons_self h

theorem deleteRepoTagsTo_shrinks (index repo digest : Str) (stores : Stores) :
    Shrinks stores.rows ((deleteRepoTagsTo index repo digest).run stores).2.rows := by
  refine foldl_shrinks stores.rows _ _ (fun state key hkey h => ?_) _ ?_
  · refine unrefer_shrinks digest stores.rows state key ?_ h
    obtain ⟨_, hstart⟩ := (mem_keysUnder _ _ _).mp hkey
    refine List.IsPrefix.trans ?_ hstart
    unfold scopedPrefix
    simp only [List.append_assoc]
    exact ⟨_, rfl⟩
  · exact foldl_shrinks stores.rows _ _
      (fun state row _ h => untag_shrinks index repo digest stores.rows state row h) _
      (Shrinks.refl stores.rows)

theorem deleteTag_shrinks (index repo tag : Str) (stores : Stores) :
    Shrinks stores.rows ((deleteTag index repo tag).run stores).2.rows := by
  have hstart : Shrinks stores.rows (⟨stores.rows, ∅, []⟩ : DriverTxn).table := Shrinks.refl stores.rows
  exact (hstart.remove _ (tagKey_ne_manifestKey index repo tag)).remove _
    (tagFreshnessKey_ne_manifestKey index repo tag)

section Requests
variable (parse : Bytes → Option Json) (render : Json → Bytes)

theorem linkManifest_quiet (push : Push) : (linkManifest parse push).Always Quiet := by
  refine (always_put_quiet _ _ (membershipKey_aside _ _ _)).bind fun _ => ?_
  refine (Prog.always_forM _ _ fun child _ => ?_).bind fun _ => ?_
  · exact always_put_quiet _ _ (membershipKey_aside _ _ child)
  · exact Prog.always_forM _ _ fun blob _ => always_put_quiet _ _ (blobMembershipKey_aside _ _ blob)

theorem referProg_quiet (push : Push) : (referProg parse render push).Always Quiet := by
  refine Prog.Always.bind ?_ fun subject => trivial
  unfold recordReferrer
  split
  · trivial
  · split
    · trivial
    · refine (always_put_quiet _ _ (referrer_aside _ ?_)).bind fun _ => trivial
      rw [referrerKey_eq]
      exact ⟨_, rfl⟩

theorem reachableFrom_readOnly (digest start : Str) (keys : List Str) :
    (reachableFrom parse digest start keys).ReadOnly := by
  induction keys with
  | nil => trivial
  | cons key keys ih =>
    unfold reachableFrom
    simp only
    split
    · exact ih
    · refine (Prog.readOnly_read _).bind fun manifest => ?_
      cases manifest with
      | none => exact ih
      | some manifest =>
        simp only
        split
        · trivial
        · exact ih

theorem pruneProg_quiet (target : Target) (removed : Bool) :
    (pruneProg parse target removed).Always Quiet := by
  refine Prog.Always.bind ?_ fun _ => trivial
  have hreads : (reachableAsChild parse target.index target.repo target.digest).ReadOnly :=
    (Prog.readOnly_read _).bind fun keys => reachableFrom_readOnly parse _ _ keys
  refine (hreads.mono fun write hwrite => hwrite ▸ quiet_id).bind fun reachable => ?_
  cases reachable with
  | true => trivial
  | false => exact (always_delete_quiet _ (membershipKey_aside _ _ _)).bind fun _ => trivial

theorem collectTag_readOnly (found : List Str) (key : Str) : (collectTag found key).ReadOnly :=
  (Prog.readOnly_read _).bind fun _ => trivial

theorem collectChildren_readOnly (found : List Str) (key : Str) :
    (collectChildren parse found key).ReadOnly := by
  refine (Prog.readOnly_read _).bind fun raw => ?_
  cases raw.bind Manifest.decode with
  | none => trivial
  | some manifest => trivial

theorem referencedManifestDigests_readOnly : (referencedManifestDigests parse).ReadOnly := by
  refine (Prog.readOnly_read _).bind fun tags => ?_
  refine Prog.ReadOnly.bind (Prog.always_foldlM _ _ collectTag_readOnly _) fun found => ?_
  refine (Prog.readOnly_read _).bind fun manifests => ?_
  refine Prog.ReadOnly.bind (Prog.always_foldlM _ _ (collectChildren_readOnly parse) _) fun found => ?_
  exact (Prog.readOnly_read _).bind fun _ => trivial

def Request.Pending (digest : Str) : Request → Prop
  | linking push _ _ => push.canonical = digest ∧ ∃ tag, push.reference = .tag tag
  | tagging push _ => push.canonical = digest
  | _ => False

def Request.Sweeping (digest : Str) : Request → Prop
  | scanning target _ _ _ => target.digest = digest
  | unlinking target _ => target.digest = digest
  | _ => False

def Request.Formed : Request → Prop
  | checking push write next => push.manifest.Storable ∧ (Prog.step write next).ReadOnly
  | recording push => push.manifest.Storable
  | linking _ write next => (Prog.step write next).Always Quiet
  | tagging push tag => push.reference = .tag tag
  | scanning _ _ write next => (Prog.step write next).ReadOnly
  | closing write next => (Prog.step write next).Always Quiet
  | _ => True

structure Effect (r r' : Request) (s t : Stores) : Prop where
  formed : r'.Formed
  tags : ∀ index repo tag digest, t.rows[tagKey index repo tag]? = some digest →
    s.rows[tagKey index repo tag]? = some digest ∨
      ∃ push name, r = .tagging push name ∧ digest = push.canonical
  manifests : ∀ digest, (manifestAt s.rows digest).isSome → (manifestAt t.rows digest).isSome ∨
    ∃ target removed, r = .unlinking target removed ∧ digest = target.digest
  pending : ∀ digest, r'.Pending digest → r.Pending digest ∨ (manifestAt t.rows digest).isSome
  sweeping : ∀ digest, r'.Sweeping digest → r.Sweeping digest ∨ ∃ target present,
    r = .untagging target present ∧ digest = target.digest

theorem manifestAt_congr {s t : Rows} {digest : Str}
    (h : t[manifestKey digest]? = s[manifestKey digest]?) : manifestAt t digest = manifestAt s digest := by
  unfold manifestAt
  rw [h]

theorem Effect.of_quiet {r r' : Request} {s : Stores} {write : Stores → Stores} (h : Quiet write)
    (hformed : r'.Formed) (hpending : ∀ digest, r'.Pending digest → r.Pending digest)
    (hsweeping : ∀ digest, r'.Sweeping digest → r.Sweeping digest) : Effect r r' s (write s) where
  formed := hformed
  tags := fun index repo tag digest hrow => Or.inl (by rwa [h.1 index repo tag s] at hrow)
  manifests := fun digest hstored => Or.inl (by rwa [manifestAt_congr (h.2 digest s)])
  pending := fun digest hp => Or.inl (hpending digest hp)
  sweeping := fun digest hs => Or.inl (hsweeping digest hs)

theorem Effect.of_shrinks {r r' : Request} {s t : Stores} (h : Shrinks s.rows t.rows)
    (hformed : r'.Formed) (hpending : ∀ digest, ¬ r'.Pending digest)
    (hsweeping : ∀ digest, r'.Sweeping digest → ∃ target present,
      r = .untagging target present ∧ digest = target.digest) : Effect r r' s t where
  formed := hformed
  tags := by
    intro index repo tag digest hrow
    rcases h.rows (tagKey index repo tag) with hsame | hnone
    · exact Or.inl (hsame ▸ hrow)
    · rw [hnone] at hrow
      cases hrow
  manifests := fun digest hstored => Or.inl (by rwa [manifestAt_congr (h.manifests digest)])
  pending := fun digest hp => absurd hp (hpending digest)
  sweeping := fun digest hs => Or.inr (hsweeping digest hs)

theorem close_spec (p : Prog Stores Answer) (h : p.Always Quiet) : (Request.close p).Formed ∧
    ∀ digest, ¬ (Request.close p).Pending digest ∧ ¬ (Request.close p).Sweeping digest := by
  cases p with
  | done answer => exact ⟨trivial, fun _ => ⟨id, id⟩⟩
  | step write next => exact ⟨h, fun _ => ⟨id, id⟩⟩

theorem link_spec (push : Push) (p : Prog Stores Unit) (h : p.Always Quiet) :
    (Request.link parse render push p).Formed ∧
    ∀ digest, ¬ (Request.link parse render push p).Sweeping digest ∧
      ((Request.link parse render push p).Pending digest →
        push.canonical = digest ∧ ∃ tag, push.reference = .tag tag) := by
  cases p with
  | step write next => exact ⟨h, fun digest => ⟨id, id⟩⟩
  | done _ =>
    show (Request.tag parse render push).Formed ∧ ∀ digest,
      ¬ (Request.tag parse render push).Sweeping digest ∧
      ((Request.tag parse render push).Pending digest →
        push.canonical = digest ∧ ∃ tag, push.reference = .tag tag)
    unfold Request.tag
    split
    · rename_i tag htag
      exact ⟨htag, fun digest => ⟨id, fun hp => ⟨hp, tag, htag⟩⟩⟩
    · obtain ⟨hformed, hnot⟩ := close_spec _ (referProg_quiet parse render push)
      exact ⟨hformed, fun digest => ⟨(hnot digest).2, fun hp => absurd hp (hnot digest).1⟩⟩

theorem check_spec (push : Push) (p : Prog Stores (Option Reply)) (hstorable : push.manifest.Storable)
    (h : p.ReadOnly) : (Request.check push p).Formed ∧
    ∀ digest, ¬ (Request.check push p).Pending digest ∧ ¬ (Request.check push p).Sweeping digest := by
  cases p with
  | step write next => exact ⟨⟨hstorable, h⟩, fun _ => ⟨id, id⟩⟩
  | done missing =>
    cases missing with
    | none => exact ⟨hstorable, fun _ => ⟨id, id⟩⟩
    | some reply => exact ⟨trivial, fun _ => ⟨id, id⟩⟩

theorem scan_spec (target : Target) (removed : Bool) (p : Prog Stores (List Str)) (h : p.ReadOnly) :
    (Request.scan parse target removed p).Formed ∧
    ∀ digest, ¬ (Request.scan parse target removed p).Pending digest ∧
      ((Request.scan parse target removed p).Sweeping digest → target.digest = digest) := by
  cases p with
  | step write next => exact ⟨h, fun _ => ⟨id, id⟩⟩
  | done found =>
    unfold Request.scan
    simp only
    split
    · obtain ⟨hformed, hnot⟩ := close_spec _ (pruneProg_quiet parse target removed)
      exact ⟨hformed, fun digest => ⟨(hnot digest).1, fun hs => absurd hs (hnot digest).2⟩⟩
    · exact ⟨trivial, fun _ => ⟨id, id⟩⟩

theorem untagged_spec (target : Target) (present removed : Bool) :
    (Request.untagged parse target present removed).Formed ∧
    ∀ digest, ¬ (Request.untagged parse target present removed).Pending digest ∧
      ((Request.untagged parse target present removed).Sweeping digest → target.digest = digest) := by
  unfold Request.untagged
  split
  · exact scan_spec parse target removed _ (referencedManifestDigests_readOnly parse)
  · obtain ⟨hformed, hnot⟩ := close_spec _ (pruneProg_quiet parse target removed)
    exact ⟨hformed, fun digest => ⟨(hnot digest).1, fun hs => absurd hs (hnot digest).2⟩⟩

theorem manifestAt_putRow (stores : Stores) (digest : Str) (manifest : Manifest)
    (h : manifest.Storable) :
    manifestAt (stores.putRow (manifestKey digest) manifest.encode).rows digest = some manifest := by
  unfold manifestAt
  rw [Stores.putRow_getElem?, if_pos rfl]
  exact Manifest.decode_encode manifest h

theorem record_effect (push : Push) (s : Stores) (h : push.manifest.Storable) :
    Effect (.recording push) (.link parse render push (linkManifest parse push)) s
      (s.putRow (manifestKey push.canonical) push.manifest.encode) := by
  obtain ⟨hformed, hlink⟩ := link_spec parse render push _ (linkManifest_quiet parse push)
  have hstored := manifestAt_putRow s push.canonical push.manifest h
  refine ⟨hformed, fun index repo tag digest hrow => Or.inl ?_, fun digest hs => Or.inl ?_,
    fun digest hp => Or.inr ?_, fun digest hs => absurd hs (hlink digest).1⟩
  · rwa [Stores.putRow_getElem?, if_neg (tagKey_ne_manifestKey index repo tag _).symm] at hrow
  · by_cases hsame : push.canonical = digest
    · rw [← hsame, hstored]
      rfl
    · rwa [manifestAt_congr (s := s.rows)]
      rw [Stores.putRow_getElem?, if_neg (mt (manifestKey_inj _ _).mp hsame)]
  · rw [← ((hlink digest).2 hp).1, hstored]
    rfl

theorem tag_effect (push : Push) (name : Str) (s : Stores) :
    Effect (.tagging push name) (.close (referProg parse render push)) s
      ((putTag push.index push.repo name push.canonical).run s).2 := by
  have hrows : ∀ key : Str, ((putTag push.index push.repo name push.canonical).run s).2.rows[key]? =
      if tagKey push.index push.repo name = key then some push.canonical else s.rows[key]? :=
    fun key => Table.getElem?_set s.rows _ key (some push.canonical)
  obtain ⟨hformed, hnot⟩ := close_spec _ (referProg_quiet parse render push)
  refine ⟨hformed, fun index repo tag digest hrow => ?_, fun digest hs => Or.inl ?_,
    fun digest hp => absurd hp (hnot digest).1, fun digest hs => absurd hs (hnot digest).2⟩
  · rw [hrows] at hrow
    split at hrow
    · exact Or.inr ⟨push, name, rfl, (Option.some.inj hrow).symm⟩
    · exact Or.inl hrow
  · rwa [manifestAt_congr (s := s.rows)]
    rw [hrows, if_neg (tagKey_ne_manifestKey _ _ _ _)]

theorem unlink_effect (target : Target) (removed : Bool) (s : Stores) :
    Effect (.unlinking target removed) (.close (pruneProg parse target removed)) s
      (s.eraseRow (manifestKey target.digest)) := by
  obtain ⟨hformed, hnot⟩ := close_spec _ (pruneProg_quiet parse target removed)
  refine ⟨hformed, fun index repo tag digest hrow => Or.inl ?_, fun digest hs => ?_,
    fun digest hp => absurd hp (hnot digest).1, fun digest hs => absurd hs (hnot digest).2⟩
  · rwa [Stores.eraseRow_getElem?, if_neg (tagKey_ne_manifestKey index repo tag _).symm] at hrow
  · by_cases hsame : target.digest = digest
    · exact Or.inr ⟨target, removed, rfl, hsame.symm⟩
    · refine Or.inl ?_
      rwa [manifestAt_congr (s := s.rows)]
      rw [Stores.eraseRow_getElem?, if_neg (mt (manifestKey_inj _ _).mp hsame)]

theorem act_effect (r r' : Request) (s t : Stores) (hformed : r.Formed)
    (h : r.act parse render s = some (t, r')) : Effect r r' s t := by
  cases r with
  | checking push write next =>
    obtain ⟨hstorable, hwrite, hnext⟩ := hformed
    cases h
    obtain ⟨hcheck, hnot⟩ := check_spec push (next s) hstorable (hnext s)
    exact .of_quiet (hwrite ▸ quiet_id) hcheck (fun digest hp => absurd hp (hnot digest).1)
      fun digest hs => absurd hs (hnot digest).2
  | recording push =>
    cases h
    exact record_effect parse render push s hformed
  | linking push write next =>
    obtain ⟨hwrite, hnext⟩ := hformed
    cases h
    obtain ⟨hlink, hspec⟩ := link_spec parse render push (next s) (hnext s)
    exact .of_quiet hwrite hlink (fun digest => (hspec digest).2)
      fun digest hs => absurd hs (hspec digest).1
  | tagging push tag =>
    cases h
    exact tag_effect parse render push tag s
  | finding target =>
    cases h
    exact .of_quiet quiet_id trivial (fun digest => id) fun digest => id
  | untagging target present =>
    cases h
    obtain ⟨hspec, hnot⟩ := untagged_spec parse target present
      (removedAny present ((deleteRepoTagsTo target.index target.repo target.digest).run s).1)
    exact .of_shrinks (deleteRepoTagsTo_shrinks _ _ _ s) hspec (fun digest => (hnot digest).1)
      fun digest hs => ⟨target, present, rfl, ((hnot digest).2 hs).symm⟩
  | scanning target removed write next =>
    obtain ⟨hwrite, hnext⟩ := hformed
    cases h
    obtain ⟨hscan, hspec⟩ := scan_spec parse target removed (next s) (hnext s)
    exact .of_quiet (hwrite ▸ quiet_id) hscan (fun digest hp => absurd hp (hspec digest).1)
      fun digest => (hspec digest).2
  | unlinking target removed =>
    cases h
    exact unlink_effect parse target removed s
  | closing write next =>
    obtain ⟨hwrite, hnext⟩ := hformed
    cases h
    obtain ⟨hclose, hnot⟩ := close_spec (next s) (hnext s)
    exact .of_quiet hwrite hclose (fun digest hp => absurd hp (hnot digest).1)
      fun digest hs => absurd hs (hnot digest).2
  | removing index repo tag =>
    cases h
    exact .of_shrinks (deleteTag_shrinks index repo tag s) trivial (fun _ => id)
      fun digest hs => hs.elim
  | finished answer => cases h

def Reference.IsText : Reference → Prop
  | .digest value => Str.fromUtf8 value = some value
  | .tag _ => True

variable (realm : Bool) (indexes : Indexes) (sha256 : Bytes → Str)

inductive Call : Request → Prop
  | push (identify : IndexAcl → PresentedIdentity) (name : Str) (reference : Reference)
    (upload : Upload) : Call (.ofPush parse identify realm indexes sha256 name reference upload)
  | delete (identify : IndexAcl → PresentedIdentity) (name : Str) (reference : Reference)
    (h : reference.IsText) : Call (.ofDelete identify realm indexes name reference)

theorem storable_of_supported (mediaType : Str) (bytes : Bytes)
    (h : isSupportedManifestType mediaType = true) : Manifest.Storable ⟨mediaType, bytes⟩ := by
  show mediaType.length ≤ 65535 ∧ Str.fromUtf8 mediaType = some mediaType
  unfold isSupportedManifestType at h
  simp only [Bool.or_eq_true, beq_iff_eq] at h
  rcases h with ((rfl | rfl) | rfl) | rfl
  · exact ⟨by decide, by decide⟩
  · exact ⟨by decide, by decide⟩
  · exact ⟨by decide, by decide⟩
  · exact ⟨by decide, by decide⟩

theorem readPush_storable (identify : IndexAcl → PresentedIdentity) (name : Str)
    (reference : Reference) (upload : Upload) (push : Push)
    (h : readPush identify realm indexes sha256 name reference upload = .ok push) :
    push.manifest.Storable := by
  unfold readPush at h
  split at h
  · cases h
  · split at h
    · cases h
    · simp only at h
      split at h
      · cases h
      · rename_i hsupported
        have hsupported := Bool.eq_true_of_not_eq_false hsupported
        split at h
        · cases h
        · cases h
        · split at h
          · split at h
            · cases h
            · cases h
              exact storable_of_supported _ _ hsupported
          · cases h
            exact storable_of_supported _ _ hsupported

theorem call_spec (r : Request) (h : Call parse realm indexes sha256 r) : r.Formed ∧
    ∀ digest, ¬ r.Pending digest ∧ ¬ r.Sweeping digest := by
  cases h with
  | push identify name reference upload =>
    unfold Request.ofPush
    split
    · exact ⟨trivial, fun _ => ⟨id, id⟩⟩
    · rename_i push hread
      exact check_spec push _ (readPush_storable realm indexes sha256 identify name reference upload
        push hread) (missingManifestReference_readOnly parse _ _ _)
  | delete identify name reference htext =>
    unfold Request.ofDelete
    split
    · exact ⟨trivial, fun _ => ⟨id, id⟩⟩
    · split
      · exact ⟨trivial, fun _ => ⟨id, id⟩⟩
      · exact ⟨trivial, fun _ => ⟨id, id⟩⟩

/-- When a delete unlinks a manifest, no tag points to it, and no by-tag push stored it
and has its tag still to write. -/
def Current : Guard Stores Request := fun s r others => ∀ target removed,
  r = .unlinking target removed →
    (∀ index repo tag, s.rows[tagKey index repo tag]? ≠ some target.digest) ∧
      ∀ q ∈ others, ¬ q.Pending target.digest

/-- No by-tag push of a digest is between storing the manifest and writing the tag while
a delete of the digest is between looking for references and unlinking it. -/
def Apart : Guard Stores Request := fun _ r others => ∀ q ∈ others, ∀ digest,
  ¬ (r.Pending digest ∧ q.Sweeping digest) ∧ ¬ (r.Sweeping digest ∧ q.Pending digest)

def registry (guard : Guard Stores Request) : System (Server Stores Request) :=
  serving (Request.act parse render) (Call parse realm indexes sha256) {} guard

def Anchored (r : Request) (s : Stores) : Prop :=
  r.Formed ∧ ∀ digest, r.Pending digest → (manifestAt s.rows digest).isSome

inductive WriteCall : Prog Stores Answer → Prop
  | push (identify : IndexAcl → PresentedIdentity) (name : Str) (reference : Reference)
    (upload : Upload) : WriteCall
      (putManifestRequest identify realm indexes sha256 parse render name reference upload)
  | delete (identify : IndexAcl → PresentedIdentity) (name : Str) (reference : Reference)
    (h : reference.IsText) :
    WriteCall (deleteManifestRequest identify realm indexes parse name reference)

/-- The requests reach the stores that the handlers reach, and stand where the handlers stand. -/
theorem writers_interleave (server : Server Stores (Prog Stores Answer)) :
    (serving Prog.act (WriteCall parse render realm indexes sha256) {} fun _ _ _ => True).Reachable
        server ↔
      ∃ requests, (registry parse render realm indexes sha256 fun _ _ _ => True).Reachable requests ∧
        server = ⟨requests.store, requests.running.map (Request.prog parse render)⟩ := by
  refine serving_programs (Request.prog parse render) (fun p => ?_) (fun r s => ?_) server
  · constructor
    · intro h
      cases h with
      | push identify name reference upload =>
        exact ⟨_, .push identify name reference upload, ofPush_prog ..⟩
      | delete identify name reference h =>
        exact ⟨_, .delete identify name reference h, ofDelete_prog ..⟩
    · rintro ⟨r, h, rfl⟩
      cases h with
      | push identify name reference upload =>
        rw [ofPush_prog]
        exact .push identify name reference upload
      | delete identify name reference h =>
        rw [ofDelete_prog]
        exact .delete identify name reference h
  · cases hact : r.act parse render s with
    | none =>
      obtain ⟨answer, hanswer⟩ := act_none parse render r s hact
      rw [hanswer]
      rfl
    | some next =>
      obtain ⟨write, later, hprog, hstore, hnext⟩ := act_prog parse render r next.2 s next.1 hact
      rw [hprog, Option.map_some, hstore, hnext]
      rfl

theorem current_step (s t : Stores) (r r' : Request) (others : List Request)
    (hinv : NoDangling s.rows) (hr : Anchored r s) (hothers : ∀ q ∈ others, Anchored q s)
    (hguard : Current s r others) (hact : r.act parse render s = some (t, r')) :
    NoDangling t.rows ∧ Anchored r' t ∧ ∀ q ∈ others, Anchored q t := by
  have heffect := act_effect parse render r r' s t hr.1 hact
  refine ⟨fun index repo tag digest hrow => ?_, ⟨heffect.formed, fun digest hp => ?_⟩,
    fun q hq => ⟨(hothers q hq).1, fun digest hp => ?_⟩⟩
  · rcases heffect.tags index repo tag digest hrow with hold | ⟨push, name, rfl, rfl⟩
    · rcases heffect.manifests digest (hinv index repo tag digest hold) with hstored | ⟨target, removed, rfl, rfl⟩
      · exact hstored
      · exact absurd hold ((hguard target removed rfl).1 index repo tag)
    · rcases heffect.manifests push.canonical (hr.2 _ rfl) with hstored | ⟨target, removed, hunlink, _⟩
      · exact hstored
      · cases hunlink
  · rcases heffect.pending digest hp with hold | hstored
    · rcases heffect.manifests digest (hr.2 digest hold) with hstored | ⟨target, removed, rfl, rfl⟩
      · exact hstored
      · exact hold.elim
    · exact hstored
  · rcases heffect.manifests digest ((hothers q hq).2 digest hp) with hstored | ⟨target, removed, rfl, rfl⟩
    · exact hstored
    · exact absurd hp ((hguard target removed rfl).2 q hq)

theorem current_anchored (server : Server Stores Request)
    (h : (registry parse render realm indexes sha256 Current).Reachable server) :
    NoDangling server.store.rows ∧ ∀ r ∈ server.running, Anchored r server.store := by
  refine serving_invariant (fun s => NoDangling s.rows) Anchored ?_ ?_ ?_ server h
  · intro index repo tag digest hrow
    cases hrow
  · intro s r hcall
    obtain ⟨hformed, hnot⟩ := call_spec parse realm indexes sha256 r hcall
    exact ⟨hformed, fun digest hp => absurd hp (hnot digest).1⟩
  · exact current_step parse render

section Scan
variable (index repo tag digest : Str)

def PointsTo (s : Stores) : Prop := s.rows[tagKey index repo tag]? = some digest

theorem collectTag_keeps (found : List Str) (key : Str) (h : digest ∈ found) :
    (collectTag found key).Ends (PointsTo index repo tag digest) (digest ∈ ·) :=
  fun _ _ => List.mem_append_right _ h

theorem collectTag_finds (htext : Str.fromUtf8 digest = some digest) (found : List Str) :
    (collectTag found (tagKey index repo tag)).Ends (PointsTo index repo tag digest)
      (digest ∈ ·) := by
  intro s hs
  show digest ∈ (s.rows[tagKey index repo tag]?.bind Str.fromUtf8).toList ++ found
  rw [show s.rows[tagKey index repo tag]? = some digest from hs, Option.bind_some, htext]
  exact List.mem_cons_self

theorem collectChildren_keeps (found : List Str) (key : Str) (h : digest ∈ found) :
    (collectChildren parse found key).Ends (PointsTo index repo tag digest) (digest ∈ ·) := by
  refine (Prog.ends_true _).bind fun raw _ => ?_
  cases raw.bind Manifest.decode with
  | none => exact h
  | some manifest => exact List.mem_append_right _ h

theorem collectReferrer_keeps (keys : List Str) (found : List Str) (h : digest ∈ found) :
    digest ∈ keys.foldl collectReferrer found := by
  induction keys generalizing found with
  | nil => exact h
  | cons key keys ih =>
    refine ih _ ?_
    unfold collectReferrer
    split
    · exact List.mem_cons_of_mem _ (List.mem_cons_of_mem _ h)
    · exact h

theorem referencedManifestDigests_finds (htext : Str.fromUtf8 digest = some digest) :
    (referencedManifestDigests parse).Ends (PointsTo index repo tag digest) (digest ∈ ·) := by
  refine Prog.Ends.bind (m := (tagKey index repo tag ∈ ·)) (Prog.ends_read _ fun s hs => ?_)
    fun tags htags => ?_
  · rw [mem_keysUnder, show s.rows[tagKey index repo tag]? = some digest from hs, tagKey_eq]
    exact ⟨rfl, _, rfl⟩
  · refine Prog.Ends.bind (m := (digest ∈ ·)) ?_ fun found hfound => ?_
    · exact Prog.ends_foldlM _ (fun found key => collectTag_keeps index repo tag digest found key) _
        (collectTag_finds index repo tag digest htext) _ _ htags
    · refine (Prog.ends_true _).bind fun manifests _ => ?_
      refine Prog.Ends.bind (m := (digest ∈ ·)) ?_ fun found hfound => ?_
      · exact Prog.ends_foldlM_keep _
          (fun found key => collectChildren_keeps parse index repo tag digest found key) _ _ hfound
      · exact (Prog.ends_true _).bind fun keys _ => collectReferrer_keeps digest keys found hfound

end Scan

/-- What a delete knows: a tag that points to its digest now, and as long as the scan
goes on, is found; at the unlink no tag does. -/
def Request.Watches (s : Stores) : Request → Prop
  | finding target => Str.fromUtf8 target.digest = some target.digest
  | untagging target _ => Str.fromUtf8 target.digest = some target.digest
  | scanning target _ write next => ∀ index repo tag, PointsTo index repo tag target.digest s →
    (Prog.step write next).Ends (PointsTo index repo tag target.digest) (target.digest ∈ ·)
  | unlinking target _ => ∀ index repo tag, ¬ PointsTo index repo tag target.digest s
  | _ => True

theorem close_watches (s : Stores) (p : Prog Stores Answer) : (Request.close p).Watches s := by
  cases p with
  | done answer => trivial
  | step write next => trivial

theorem link_watches (s : Stores) (push : Push) (p : Prog Stores Unit) :
    (Request.link parse render push p).Watches s := by
  cases p with
  | step write next => trivial
  | done _ =>
    show (Request.tag parse render push).Watches s
    unfold Request.tag
    split
    · trivial
    · exact close_watches s _

theorem check_watches (s : Stores) (push : Push) (p : Prog Stores (Option Reply)) :
    (Request.check push p).Watches s := by
  cases p with
  | step write next => trivial
  | done missing =>
    cases missing with
    | none => trivial
    | some reply => trivial

theorem scan_watches (s : Stores) (target : Target) (removed : Bool) (p : Prog Stores (List Str))
    (h : ∀ index repo tag, PointsTo index repo tag target.digest s →
      p.Ends (PointsTo index repo tag target.digest) (target.digest ∈ ·)) :
    (Request.scan parse target removed p).Watches s := by
  cases p with
  | step write next => exact h
  | done found =>
    unfold Request.scan
    simp only
    split
    · exact close_watches s _
    · rename_i habsent
      exact fun index repo tag hpoints => habsent (h index repo tag hpoints)

theorem act_watches (r r' : Request) (s t : Stores) (hformed : r.Formed) (hwatches : r.Watches s)
    (h : r.act parse render s = some (t, r')) : r'.Watches t := by
  cases r with
  | checking push write next =>
    cases h
    exact check_watches _ push _
  | recording push =>
    cases h
    exact link_watches parse render _ push _
  | linking push write next =>
    cases h
    exact link_watches parse render _ push _
  | tagging push tag =>
    cases h
    exact close_watches _ _
  | finding target =>
    cases h
    exact hwatches
  | untagging target present =>
    cases h
    unfold Request.untagged
    split
    · exact scan_watches parse _ target _ _ fun index repo tag _ =>
        referencedManifestDigests_finds parse index repo tag target.digest hwatches
    · exact close_watches _ _
  | scanning target removed write next =>
    cases h
    refine scan_watches parse _ target removed _ fun index repo tag hpoints => ?_
    rw [hformed.1] at hpoints
    exact hwatches index repo tag hpoints s hpoints
  | unlinking target removed =>
    cases h
    exact close_watches _ _
  | closing write next =>
    cases h
    exact close_watches _ _
  | removing index repo tag =>
    cases h
    trivial
  | finished answer => cases h

theorem watches_others (r r' q : Request) (s t : Stores) (heffect : Effect r r' s t)
    (hwatches : q.Watches s) (hapart : ∀ digest, ¬ (r.Pending digest ∧ q.Sweeping digest)) :
    q.Watches t := by
  have hpoints : ∀ digest, q.Sweeping digest → ∀ index repo tag, PointsTo index repo tag digest t →
      PointsTo index repo tag digest s := by
    intro digest hsweeping index repo tag hrow
    rcases heffect.tags index repo tag digest hrow with hold | ⟨push, name, rfl, rfl⟩
    · exact hold
    · exact absurd ⟨rfl, hsweeping⟩ (hapart push.canonical)
  cases q with
  | scanning target removed write next =>
    exact fun index repo tag hrow =>
      hwatches index repo tag (hpoints target.digest rfl index repo tag hrow)
  | unlinking target removed =>
    exact fun index repo tag hrow =>
      hwatches index repo tag (hpoints target.digest rfl index repo tag hrow)
  | _ => exact hwatches

theorem call_watches (r : Request) (s : Stores) (h : Call parse realm indexes sha256 r) :
    r.Watches s := by
  cases h with
  | push identify name reference upload =>
    unfold Request.ofPush
    split
    · trivial
    · exact check_watches s _ _
  | delete identify name reference htext =>
    unfold Request.ofDelete
    split
    · trivial
    · split
      · trivial
      · exact htext

theorem apart_watches (server : Server Stores Request)
    (h : (registry parse render realm indexes sha256 Apart).Reachable server) :
    ∀ r ∈ server.running, r.Formed ∧ r.Watches server.store := by
  refine (serving_invariant (fun _ => True) (fun r s => r.Formed ∧ r.Watches s) trivial ?_ ?_
    server h).2
  · exact fun s r hcall => ⟨(call_spec parse realm indexes sha256 r hcall).1,
      call_watches parse realm indexes sha256 r s hcall⟩
  · intro s t r r' others _ hr hothers hguard hact
    have heffect := act_effect parse render r r' s t hr.1 hact
    refine ⟨trivial, ⟨heffect.formed, act_watches parse render r r' s t hr.1 hr.2 hact⟩, ?_⟩
    exact fun q hq => ⟨(hothers q hq).1, watches_others r r' q s t heffect (hothers q hq).2
      fun digest => (hguard q hq digest).1⟩

theorem apart_current (server : Server Stores Request)
    (h : (registry parse render realm indexes sha256 Apart).Reachable server) :
    (registry parse render realm indexes sha256 Current).Reachable server := by
  refine serving_mono Current ?_ server h
  intro s t front back r r' hreach hguard hact target removed hunlink
  have hwatches := (apart_watches parse render realm indexes sha256 _ hreach r
    (List.mem_append_right _ List.mem_cons_self)).2
  subst hunlink
  exact ⟨hwatches, fun q hq hpending => (hguard q hq target.digest).2 ⟨rfl, hpending⟩⟩

theorem pending_dangles (push : Push) (name : Str) (hname : push.reference = .tag name)
    (p : Prog Stores Unit) (hquiet : p.Always Quiet) (s : Stores) (front back : List Request)
    (hreach : (registry parse render realm indexes sha256 fun _ _ _ => True).Reachable
      ⟨s, front ++ Request.link parse render push p :: back⟩)
    (hgone : manifestAt s.rows push.canonical = none) :
    ∃ server, (registry parse render realm indexes sha256 fun _ _ _ => True).Reachable server ∧
      ¬ NoDangling server.store.rows := by
  induction p generalizing s with
  | done _ =>
    have htag : Request.link parse render push (.done ()) = .tagging push name := by
      show Request.tag parse render push = _
      unfold Request.tag
      rw [hname]
    rw [htag] at hreach
    refine ⟨_, .step _ _ hreach (.act s _ front back _ _ rfl trivial), fun hno => ?_⟩
    have hrows : ∀ key : Str, ((putTag push.index push.repo name push.canonical).run s).2.rows[key]? =
        if tagKey push.index push.repo name = key then some push.canonical else s.rows[key]? :=
      fun key => Table.getElem?_set s.rows _ key (some push.canonical)
    have hstored := hno push.index push.repo name push.canonical (by rw [hrows, if_pos rfl])
    rw [manifestAt_congr (s := s.rows) (by rw [hrows, if_neg (tagKey_ne_manifestKey _ _ _ _)]),
      hgone] at hstored
    cases hstored
  | step write next ih =>
    refine ih s (hquiet.2 s) (write s) (.step _ _ hreach (.act s _ front back _ _ rfl trivial)) ?_
    rw [manifestAt_congr (hquiet.1.2 push.canonical s)]
    exact hgone

theorem unlink_dangles (s t : Stores) (front back : List Request) (r r' : Request)
    (hreach : (registry parse render realm indexes sha256 Current).Reachable
      ⟨s, front ++ r :: back⟩)
    (hact : r.act parse render s = some (t, r')) (hstale : ¬ Current s r (front ++ back)) :
    ∃ server, (registry parse render realm indexes sha256 fun _ _ _ => True).Reachable server ∧
      ¬ NoDangling server.store.rows := by
  obtain ⟨hinv, hanchored⟩ := current_anchored parse render realm indexes sha256 _ hreach
  have hfree := serving_mono (fun _ _ _ => True) (fun _ _ _ _ _ _ _ _ _ => trivial) _ hreach
  have hnext : (registry parse render realm indexes sha256 fun _ _ _ => True).Reachable
      ⟨t, front ++ r' :: back⟩ := .step _ _ hfree (.act s t front back r r' hact trivial)
  unfold Current at hstale
  push Not at hstale
  obtain ⟨target, removed, rfl, hstale⟩ := hstale
  cases hact
  have hgone : manifestAt (s.eraseRow (manifestKey target.digest)).rows target.digest = none := by
    unfold manifestAt
    rw [Stores.eraseRow_getElem?, if_pos rfl]
    rfl
  by_cases hcurrent : ∀ index repo tag, s.rows[tagKey index repo tag]? ≠ some target.digest
  · obtain ⟨q, hq, hpending⟩ := hstale hcurrent
    have hrunning : ∃ f b, front ++ Request.close (pruneProg parse target removed) :: back =
        f ++ q :: b := by
      rcases List.mem_append.mp hq with hq | hq
      · obtain ⟨f, b, rfl⟩ := List.append_of_mem hq
        exact ⟨f, b ++ Request.close (pruneProg parse target removed) :: back, by
          rw [List.append_assoc, List.cons_append]⟩
      · obtain ⟨f, b, rfl⟩ := List.append_of_mem hq
        exact ⟨front ++ Request.close (pruneProg parse target removed) :: f, b, by
          rw [List.append_assoc, List.cons_append]⟩
    obtain ⟨f, b, hrunning⟩ := hrunning
    rw [hrunning] at hnext
    have hformed : q.Formed := by
      refine (hanchored q ?_).1
      rcases List.mem_append.mp hq with hq | hq
      · exact List.mem_append_left _ hq
      · exact List.mem_append_right _ (List.mem_cons_of_mem _ hq)
    cases q with
    | linking push write next =>
      obtain ⟨hcanonical, name, hname⟩ := hpending
      exact pending_dangles parse render realm indexes sha256 push name hname (.step write next)
        hformed _ f b hnext (hcanonical ▸ hgone)
    | tagging push name =>
      have htag : Request.link parse render push (.done ()) = .tagging push name := by
        show Request.tag parse render push = _
        unfold Request.tag
        rw [show push.reference = .tag name from hformed]
      rw [← htag] at hnext
      exact pending_dangles parse render realm indexes sha256 push name hformed (.done ()) trivial _
        f b hnext ((show push.canonical = target.digest from hpending) ▸ hgone)
    | _ => exact hpending.elim
  · push Not at hcurrent
    obtain ⟨index, repo, tag, hrow⟩ := hcurrent
    refine ⟨_, hnext, fun hno => ?_⟩
    have hstored := hno index repo tag target.digest
      (by rwa [Stores.eraseRow_getElem?, if_neg (tagKey_ne_manifestKey index repo tag _).symm])
    rw [hgone] at hstored
    cases hstored

/-- Every run whose unlinks are all current leaves no tag dangling, in any state; a run
that keeps pushes and deletes of one digest apart is such a run; and from an unlink that
is not current the registry can reach a dangling tag. -/
theorem no_dangling_while_current :
    (∀ server, (registry parse render realm indexes sha256 Current).Reachable server →
      NoDangling server.store.rows) ∧
    (∀ server, (registry parse render realm indexes sha256 Apart).Reachable server →
      (registry parse render realm indexes sha256 Current).Reachable server) ∧
    ∀ s t front back r r', (registry parse render realm indexes sha256 Current).Reachable
        ⟨s, front ++ r :: back⟩ →
      Request.act parse render r s = some (t, r') → ¬ Current s r (front ++ back) →
      ∃ server, (registry parse render realm indexes sha256 fun _ _ _ => True).Reachable server ∧
        ¬ NoDangling server.store.rows :=
  ⟨fun server h => (current_anchored parse render realm indexes sha256 server h).1,
    apart_current parse render realm indexes sha256,
    unlink_dangles parse render realm indexes sha256⟩

end Requests

def parseEmpty : Bytes → Option Json := fun _ => some (.object [])

def emptyUpload : Upload := ⟨none, [.ok (str "\x7b\x7d")]⟩

def pushAndDelete : Server Stores Request where
  store := {}
  running :=
    [.ofDelete uploader false vaultAndStore (str "store/app") (.digest childDigest),
      .ofPush parseEmpty uploader false vaultAndStore (fun _ => childHex) (str "store/app")
        (.tag (str "latest")) emptyUpload]

def overtaken : Option (Server Stores Request) :=
  pushAndDelete.play (Request.act parseEmpty fun _ => []) [1, 1, 0, 0, 0, 0, 0, 0, 0, 1]

theorem overtaken_rows : (overtaken.map fun server =>
    (server.store.rows[tagKey (str "store") (str "app") (str "latest")]?,
      (manifestAt server.store.rows childDigest).isSome)) = some (some childDigest, false) := by
  decide

theorem overtaken_dangles :
    ¬ ∀ server, (registry parseEmpty (fun _ => []) false vaultAndStore (fun _ => childHex)
      fun _ _ _ => True).Reachable server → NoDangling server.store.rows := by
  intro hno
  obtain ⟨last, hlast, hrows⟩ := Option.map_eq_some_iff.mp overtaken_rows
  have hstart : (registry parseEmpty (fun _ => []) false vaultAndStore (fun _ => childHex)
      fun _ _ _ => True).Reachable pushAndDelete := by
    refine serving_arrivals _ fun r hr => ?_
    simp only [List.mem_cons, List.not_mem_nil, or_false] at hr
    rcases hr with rfl | rfl
    · exact .delete uploader _ _ (show Str.fromUtf8 childDigest = some childDigest by decide)
    · exact .push uploader _ _ _
  obtain ⟨htag, hgone⟩ := Prod.mk.inj hrows
  have hstored := hno last (play_reachable _ _ _ hstart hlast) (str "store") (str "app")
    (str "latest") childDigest htag
  rw [hgone] at hstored
  cases hstored

end Peryx.Oci
