import Peryx.Oci.ManifestWrite

/-! # What a push makes a repository serve -/

namespace Peryx.Oci
open Storage Acl

theorem blobPresent_readOnly (blob : Str) : (blobPresent blob).ReadOnly := by
  unfold blobPresent
  split
  · trivial
  · exact (Prog.readOnly_read _).bind fun _ => trivial

theorem blobHeld_readOnly (index repo blob : Str) : (blobHeld index repo blob).ReadOnly := by
  refine (blobPresent_readOnly blob).bind fun present => ?_
  cases present with
  | true => exact Prog.readOnly_read _
  | false => trivial

theorem missingBlob_readOnly (index repo : Str) (blobs : List Str) :
    (missingBlob index repo blobs).ReadOnly := by
  induction blobs with
  | nil => trivial
  | cons blob blobs ih =>
    refine (blobHeld_readOnly index repo blob).bind fun held => ?_
    cases held with
    | true => exact ih
    | false => trivial

theorem missingChild_readOnly (children : List Str) : (missingChild children).ReadOnly := by
  induction children with
  | nil => trivial
  | cons child children ih =>
    refine (Prog.readOnly_read _).bind fun manifest => ?_
    cases manifest with
    | some manifest => exact ih
    | none => trivial

theorem blobHeld_run (index repo blob : Str) (stores : Stores)
    (h : ((blobHeld index repo blob).run stores).1 = true) :
    isBlobMember stores.rows index repo blob = true := by
  unfold blobHeld at h
  rw [Prog.run_bind, (blobPresent_readOnly blob).run] at h
  cases hpresent : ((blobPresent blob).run stores).1 with
  | true =>
    rw [hpresent] at h
    exact h
  | false =>
    rw [hpresent] at h
    cases h

theorem missingBlob_none (index repo : Str) (blobs : List Str) (stores : Stores)
    (h : ((missingBlob index repo blobs).run stores).1 = none) :
    ∀ blob ∈ blobs, isBlobMember stores.rows index repo blob = true := by
  induction blobs with
  | nil => exact nofun
  | cons blob blobs ih =>
    unfold missingBlob at h
    rw [Prog.run_bind, (blobHeld_readOnly index repo blob).run] at h
    cases hheld : ((blobHeld index repo blob).run stores).1 with
    | true =>
      rw [hheld] at h
      intro other hother
      rcases List.mem_cons.mp hother with rfl | hother
      · exact blobHeld_run index repo other stores hheld
      · exact ih h other hother
    | false =>
      rw [hheld] at h
      cases h

theorem missingChild_none (children : List Str) (stores : Stores)
    (h : ((missingChild children).run stores).1 = none) :
    ∀ child ∈ children, (manifestAt stores.rows child).isSome := by
  induction children with
  | nil => exact nofun
  | cons child children ih =>
    unfold missingChild at h
    simp only [getManifest, Prog.run_bind, Prog.run_read] at h
    cases hstored : manifestAt stores.rows child with
    | some manifest =>
      rw [hstored] at h
      intro other hother
      rcases List.mem_cons.mp hother with rfl | hother
      · rw [hstored]
        rfl
      · exact ih h other hother
    | none =>
      rw [hstored] at h
      cases h

section Push
variable (parse : Bytes → Option Json)

theorem missingManifestReference_readOnly (index repo : Str) (bytes : Bytes) :
    (missingManifestReference parse index repo bytes).ReadOnly := by
  refine (missingBlob_readOnly index repo _).bind fun missing => ?_
  cases missing with
  | some reply => trivial
  | none => exact missingChild_readOnly _

theorem missingManifestReference_none (index repo : Str) (bytes : Bytes) (stores : Stores)
    (h : ((missingManifestReference parse index repo bytes).run stores).1 = none) :
    (∀ child ∈ (manifestDescriptors parse bytes).1, (manifestAt stores.rows child).isSome) ∧
      ∀ blob ∈ (manifestDescriptors parse bytes).2, isBlobMember stores.rows index repo blob = true := by
  unfold missingManifestReference at h
  rw [Prog.run_bind, (missingBlob_readOnly index repo _).run] at h
  cases hblob : ((missingBlob index repo (manifestDescriptors parse bytes).2).run stores).1 with
  | some reply =>
    rw [hblob] at h
    cases h
  | none =>
    rw [hblob] at h
    exact ⟨missingChild_none _ stores h, missingBlob_none index repo _ stores hblob⟩

theorem recordManifest_keeps (index repo digest : Str) (manifest : Manifest) (key : Str)
    (hmanifest : manifestKey digest ≠ key) (hmember : membershipKey index repo digest ≠ key)
    (hchildren : ∀ child ∈ (manifestDescriptors parse manifest.bytes).1,
      membershipKey index repo child ≠ key)
    (hblobs : ∀ blob ∈ (manifestDescriptors parse manifest.bytes).2,
      blobMembershipKey index repo blob ≠ key) :
    (recordManifest parse index repo digest manifest).Always (KeepsRow key) := by
  refine (always_putDriverValue _ key _ hmanifest).bind fun _ => ?_
  refine (always_putDriverValue _ key _ hmember).bind fun _ => ?_
  refine (Prog.always_forM _ _ fun child hchild => ?_).bind fun _ => ?_
  · exact always_putDriverValue _ key _ (hchildren child hchild)
  · exact Prog.always_forM _ _ fun blob hblob => always_putDriverValue _ key _ (hblobs blob hblob)

theorem tagPush_keeps (push : Push) (key : Str)
    (h : ∀ tag, tagKey push.index push.repo tag ≠ key) : (tagPush push).Always (KeepsRow key) := by
  unfold tagPush
  split
  · trivial
  · rename_i tag _
    refine (Prog.always_transact _ fun stores => ?_).bind fun _ => trivial
    show (stores.rows.insert (tagKey push.index push.repo tag) push.canonical)[key]? = _
    rw [Std.ExtTreeMap.getElem?_insert, if_neg (by simpa using h tag)]

variable (render : Json → Bytes)

theorem recordReferrer_keeps (push : Push) (key : Str)
    (h : ∀ subject, referrerPrefix push.index push.repo subject ++ push.canonical ≠ key) :
    (recordReferrer parse render push).Always (KeepsRow key) := by
  unfold recordReferrer
  split
  · trivial
  · split
    · trivial
    · rename_i subject _
      exact (always_putDriverValue _ key _ (h subject)).bind fun _ => trivial

theorem recordPush_keeps (push : Push) (key : Str)
    (hrecord : (recordManifest parse push.index push.repo push.canonical push.manifest).Always
      (KeepsRow key))
    (htag : ∀ tag, tagKey push.index push.repo tag ≠ key)
    (hreferrer : ∀ subject, referrerPrefix push.index push.repo subject ++ push.canonical ≠ key) :
    (recordPush parse render push).Always (KeepsRow key) :=
  hrecord.bind fun _ => (tagPush_keeps push key htag).bind fun _ =>
    (recordReferrer_keeps parse render push key hreferrer).bind fun _ => trivial

/-- What the repository holds after is the pushed manifest or something it held before. -/
def OwnOnly (index repo canonical : Str) (before after : Rows) : Prop :=
  ∀ digest, (isManifestMember after index repo digest || isBlobMember after index repo digest) = true →
    digest = canonical ∨
      (isManifestMember before index repo digest || isBlobMember before index repo digest) = true

/-- No blob becomes a member, and no manifest but the pushed one and the children it
lists that are stored. -/
structure NamedOnly (push : Push) (before after : Rows) : Prop where
  blobs : ∀ digest, isBlobMember after push.index push.repo digest = true →
    isBlobMember before push.index push.repo digest = true
  manifests : ∀ digest, isManifestMember after push.index push.repo digest = true →
    isManifestMember before push.index push.repo digest = true ∨ digest = push.canonical ∨
      digest ∈ (manifestDescriptors parse push.manifest.bytes).1 ∧ (manifestAt before digest).isSome

def Created : Except Fault Reply → Prop
  | .ok (.created _ _ _) => True
  | _ => False

theorem manifestKey_ne_membershipKey (digest index repo other : Str) :
    manifestKey digest ≠ membershipKey index repo other := by
  rw [membershipKey_eq]
  exact append_ne_of_prefixes _ _ _ _ (by decide) (by decide)

theorem manifestKey_ne_blobMembershipKey (digest index repo other : Str) :
    manifestKey digest ≠ blobMembershipKey index repo other := by
  rw [blobMembershipKey_eq]
  exact append_ne_of_prefixes _ _ _ _ (by decide) (by decide)

theorem membershipKey_ne_blobMembershipKey (index repo digest index' repo' other : Str) :
    membershipKey index repo digest ≠ blobMembershipKey index' repo' other := by
  rw [membershipKey_eq, blobMembershipKey_eq]
  exact append_ne_of_prefixes _ _ _ _ (by decide) (by decide)

theorem recordPush_blobs (push : Push) (stores : Stores) (digest : Str)
    (h : digest ∉ (manifestDescriptors parse push.manifest.bytes).2) :
    isBlobMember ((recordPush parse render push).run stores).2.rows push.index push.repo digest =
      isBlobMember stores.rows push.index push.repo digest := by
  have hkeeps : (recordPush parse render push).Always
      (KeepsRow (blobMembershipKey push.index push.repo digest)) := by
    refine recordPush_keeps parse render push _ (recordManifest_keeps parse _ _ _ _ _
      (manifestKey_ne_blobMembershipKey _ _ _ _) (membershipKey_ne_blobMembershipKey _ _ _ _ _ _)
      (fun child _ => membershipKey_ne_blobMembershipKey _ _ _ _ _ _) fun blob hblob heq => ?_)
      (fun tag => ?_) fun subject => ?_
    · rw [blobMembershipKey_inj] at heq
      exact h (heq ▸ hblob)
    · rw [tagKey_eq, blobMembershipKey_eq]
      exact append_ne_of_prefixes _ _ _ _ (by decide) (by decide)
    · rw [referrerKey_eq, blobMembershipKey_eq]
      exact append_ne_of_prefixes _ _ _ _ (by decide) (by decide)
  unfold isBlobMember
  exact congrArg Option.isSome (hkeeps.run_eq (fun stores : Stores =>
    stores.rows[blobMembershipKey push.index push.repo digest]?) stores)

theorem recordPush_manifests (push : Push) (stores : Stores) (digest : Str)
    (hown : digest ≠ push.canonical)
    (h : digest ∉ (manifestDescriptors parse push.manifest.bytes).1) :
    isManifestMember ((recordPush parse render push).run stores).2.rows push.index push.repo digest =
      isManifestMember stores.rows push.index push.repo digest := by
  have hkeeps : (recordPush parse render push).Always
      (KeepsRow (membershipKey push.index push.repo digest)) := by
    refine recordPush_keeps parse render push _ (recordManifest_keeps parse _ _ _ _ _
      (manifestKey_ne_membershipKey _ _ _ _) (fun heq => ?_) (fun child hchild heq => ?_)
      fun blob _ => (membershipKey_ne_blobMembershipKey _ _ _ _ _ _).symm) (fun tag => ?_)
      fun subject => ?_
    · rw [membershipKey_inj] at heq
      exact hown heq.symm
    · rw [membershipKey_inj] at heq
      exact h (heq ▸ hchild)
    · rw [tagKey_eq, membershipKey_eq]
      exact append_ne_of_prefixes _ _ _ _ (by decide) (by decide)
    · rw [referrerKey_eq, membershipKey_eq]
      exact append_ne_of_prefixes _ _ _ _ (by decide) (by decide)
  unfold isManifestMember
  exact congrArg Option.isSome (hkeeps.run_eq (fun stores : Stores =>
    stores.rows[membershipKey push.index push.repo digest]?) stores)

theorem storePush_run (push : Push) (stores : Stores) :
    ((storePush parse render push).run stores).2 = stores ∨
    ((missingManifestReference parse push.index push.repo push.manifest.bytes).run stores).1 = none ∧
      (storePush parse render push).run stores = (recordPush parse render push).run stores := by
  unfold storePush
  rw [Prog.run_bind, (missingManifestReference_readOnly parse _ _ _).run]
  cases ((missingManifestReference parse push.index push.repo push.manifest.bytes).run stores).1 with
  | some reply => exact Or.inl rfl
  | none => exact Or.inr ⟨rfl, rfl⟩

theorem storePush_names (push : Push) (stores : Stores) :
    NamedOnly parse push stores.rows ((storePush parse render push).run stores).2.rows := by
  rcases storePush_run parse render push stores with hsame | ⟨hnone, hrun⟩
  · rw [hsame]
    exact ⟨fun _ => id, fun _ => Or.inl⟩
  · obtain ⟨hchildren, hblobs⟩ := missingManifestReference_none parse _ _ _ stores hnone
    rw [hrun]
    refine ⟨fun digest hafter => ?_, fun digest hafter => ?_⟩
    · by_cases hnamed : digest ∈ (manifestDescriptors parse push.manifest.bytes).2
      · exact hblobs digest hnamed
      · rwa [recordPush_blobs parse render push stores digest hnamed] at hafter
    · by_cases hown : digest = push.canonical
      · exact Or.inr (Or.inl hown)
      · by_cases hnamed : digest ∈ (manifestDescriptors parse push.manifest.bytes).1
        · exact Or.inr (Or.inr ⟨hnamed, hchildren digest hnamed⟩)
        · rw [recordPush_manifests parse render push stores digest hown hnamed] at hafter
          exact Or.inl hafter

variable (identify : IndexAcl → PresentedIdentity) (realm : Bool) (indexes : Indexes)
  (sha256 : Bytes → Str)

theorem resolveWritable_error (name : Str) (action : Action) (reply : Reply)
    (h : resolveWritable identify realm indexes name action = .error reply) : ¬ Created (.ok reply) := by
  unfold resolveWritable at h
  split at h
  · cases h
    exact id
  · split at h
    · cases h
      exact id
    · split at h
      · cases h
      · cases h
        exact id
      · cases h
        unfold resourceChallenge
        split
        · exact id
        · exact id

theorem readPush_error (name : Str) (reference : Reference) (upload : Upload)
    (answer : Except Fault Reply)
    (h : readPush identify realm indexes sha256 name reference upload = .error answer) :
    ¬ Created answer := by
  unfold readPush at h
  split at h
  · rename_i reply hresolve
    cases h
    exact resolveWritable_error identify realm indexes name .write reply hresolve
  · split at h
    · cases h
      exact id
    · simp only at h
      split at h
      · cases h
        exact id
      · split at h
        · cases h
          exact id
        · cases h
          exact id
        · split at h
          · split at h
            · cases h
              exact id
            · cases h
          · cases h

/-- For every store, document and reference: a push that succeeds makes no blob a member,
and no manifest but its own and the stored children it lists. -/
theorem push_names_members (name : Str) (reference : Reference) (upload : Upload) (stores : Stores)
    (h : Created ((putManifestRequest identify realm indexes sha256 parse render name reference
      upload).run stores).1) :
    ∃ push, readPush identify realm indexes sha256 name reference upload = .ok push ∧
      NamedOnly parse push stores.rows ((putManifestRequest identify realm indexes sha256 parse
        render name reference upload).run stores).2.rows := by
  unfold putManifestRequest at h ⊢
  cases hread : readPush identify realm indexes sha256 name reference upload with
  | error answer =>
    rw [hread] at h
    exact absurd h (readPush_error identify realm indexes sha256 name reference upload answer hread)
  | ok push =>
    refine ⟨push, rfl, ?_⟩
    show NamedOnly parse push stores.rows ((storePush parse render push >>= fun reply =>
      pure (Except.ok reply)).run stores).2.rows
    rw [Prog.run_bind]
    exact storePush_names parse render push stores

end Push

/-- `vault` and `store` are hosted; `store` has an upload token. -/
def vaultAndStore : Indexes where
  toList :=
    [⟨str "vault", str "vault", .oci, .hosted false, {}, ⟨false, []⟩⟩,
      ⟨str "store", str "store", .oci, .hosted false, {}, ⟨true, [NamedToken.upload (str "secret")]⟩⟩]
  names_nodup := by decide
  routes_nodup := by decide
  routes_valid := by
    intro index h
    simp only [List.mem_cons, List.not_mem_nil, or_false] at h
    rcases h with rfl | rfl <;> rfl

def uploader : IndexAcl → PresentedIdentity := fun _ => ⟨⟨.named (str "upload_token"), none⟩, .acl⟩

def childHex : Str := str "44136fa355b3678a1146ad16f7e8649e94fb4fc21fe77e8310c060f61caaff8a"

def childDigest : Str := str "sha256:" ++ childHex

def indexBytes : Bytes :=
  str "\x7b\"manifests\":[\x7b\"digest\":\"" ++ childDigest ++ str "\"\x7d]\x7d"

def parseIndex : Bytes → Option Json := fun bytes =>
  if bytes = indexBytes then
    some (.object [(str "manifests", .array [.object [(str "digest", .string childDigest)]])])
  else some (.object [])

def hashIndex : Bytes → Str := fun bytes =>
  if bytes = indexBytes then str "2b643b7409617f8a4eb7796ad7ef2c0825feacb99844c6910b5dac3d0efaa7a4"
  else childHex

/-- The store after `vault/app` recorded the child. -/
def vaultChild : Stores :=
  ((recordManifest parseIndex (str "vault") (str "app") childDigest
    ⟨defaultManifestType, str "\x7b\x7d"⟩).run {}).2

def pushIndex : Prog Stores (Except Fault Reply) :=
  putManifestRequest uploader false vaultAndStore hashIndex parseIndex (fun _ => []) (str "store/app")
    (.tag (str "latest")) ⟨some ociIndexType, [.ok indexBytes]⟩

theorem pushIndex_names :
    Created (pushIndex.run vaultChild).1 ∧
    ∃ push, readPush uploader false vaultAndStore hashIndex (str "store/app") (.tag (str "latest"))
        ⟨some ociIndexType, [.ok indexBytes]⟩ = .ok push ∧
      NamedOnly parseIndex push vaultChild.rows (pushIndex.run vaultChild).2.rows :=
  ⟨trivial, push_names_members parseIndex (fun _ => []) uploader false vaultAndStore hashIndex
    (str "store/app") (.tag (str "latest")) ⟨some ociIndexType, [.ok indexBytes]⟩ vaultChild trivial⟩

/-- The child only `vault/app` held is a member of `store/app` after the push. -/
theorem pushIndex_adds_child :
    ¬ (Created (pushIndex.run vaultChild).1 → OwnOnly (str "store") (str "app")
      (canonicalDigest hashIndex indexBytes) vaultChild.rows (pushIndex.run vaultChild).2.rows) := by
  intro hown
  rcases hown trivial childDigest rfl with h | h
  · exact absurd h (by decide)
  · exact absurd h (by decide)

end Peryx.Oci
