import Peryx.Oci.DanglingTags
import Peryx.Oci.ServedDigests

/-!
# Manifests are filed under their own digests

Pushes, deletes and reads run one transaction at a time in any order, over upstreams that
answer what they like.
-/

namespace Peryx.Oci
open Storage Acl

section Filing
variable {sha256 : Bytes → Str}

def Filed (sha256 : Bytes → Str) (stores : Stores) : Prop := ∀ digest manifest,
  manifestAt stores.rows digest = some manifest → digest = canonicalDigest sha256 manifest.bytes

abbrev Files (sha256 : Bytes → Str) {α : Type} (p : Prog Stores α) : Prop :=
  p.Always fun write => ∀ stores, Filed sha256 stores → Filed sha256 (write stores)

theorem filed_of_rows {before after : Stores}
    (h : ∀ digest, after.rows[manifestKey digest]? = before.rows[manifestKey digest]? ∨
      after.rows[manifestKey digest]? = none) (hbefore : Filed sha256 before) : Filed sha256 after := by
  intro digest manifest hmanifest
  rcases h digest with hsame | hnone
  · rw [manifestAt_congr hsame] at hmanifest
    exact hbefore digest manifest hmanifest
  · unfold manifestAt at hmanifest
    rw [hnone] at hmanifest
    cases hmanifest

theorem files_quiet {α : Type} {p : Prog Stores α} (h : p.Always Quiet) : Files sha256 p :=
  h.mono fun _ hwrite stores => filed_of_rows fun digest => .inl (hwrite.2 digest stores)

theorem files_readOnly {α : Type} {p : Prog Stores α} (h : p.ReadOnly) : Files sha256 p :=
  h.mono fun write hwrite stores hstores => by rwa [hwrite]

theorem files_read {α : Type} (f : Stores → α) : Files sha256 (Prog.read f) :=
  files_readOnly (Prog.readOnly_read f)

theorem filed_put (key : Str) (value : Bytes) (h : ∀ digest, key ≠ manifestKey digest)
    (stores : Stores) : Filed sha256 stores → Filed sha256 (stores.putRow key value) :=
  filed_of_rows fun digest => .inl ((Stores.putRow_getElem? stores key _ value).trans (if_neg (h digest)))

theorem putTag_files (index repo tag digest : Str) : Files sha256 (putTag index repo tag digest) :=
  Prog.always_transact _ (filed_put _ digest (tagKey_ne_manifestKey index repo tag))

theorem setTagFreshness_files (index repo tag digest : Str) (seconds : Int) :
    Files sha256 (setTagFreshness index repo tag digest seconds) :=
  Prog.always_modify _ (filed_put _ _ fun _ => tagFreshnessKey_ne_manifestKey _ _ _ _)

theorem deleteTag_files (index repo tag : Str) : Files sha256 (deleteTag index repo tag) :=
  Prog.always_transact _ fun stores => filed_of_rows fun digest =>
    .inl ((deleteTag_shrinks index repo tag stores).manifests digest)

theorem deleteManifest_files (digest : Str) : Files sha256 (deleteManifest digest) := by
  refine Prog.always_transact _ fun stores => filed_of_rows fun other => ?_
  rw [Stores.eraseRow_getElem?]
  split
  · exact .inr rfl
  · exact .inl rfl

variable {parse : Bytes → Option Json} {render : Json → Bytes}

theorem recordManifest_files (index repo : Str) (manifest : Manifest) (h : manifest.Storable) :
    Files sha256 (recordManifest parse index repo (canonicalDigest sha256 manifest.bytes) manifest) := by
  refine Prog.Always.bind (Prog.always_modify _ fun stores hstores digest other hother => ?_) fun _ =>
    files_quiet (linkManifest_quiet parse
      ⟨index, repo, [], .tag [], canonicalDigest sha256 manifest.bytes, manifest⟩)
  rw [manifestAt_putManifest] at hother
  split at hother
  · rename_i hdigest
    rw [Manifest.decode_encode manifest h] at hother
    cases hother
    exact hdigest.symm
  · exact hstores digest other hother

theorem recordPush_files (push : Push) (h : push.manifest.Storable)
    (hcanonical : push.canonical = canonicalDigest sha256 push.manifest.bytes) :
    Files sha256 (recordPush parse render push) := by
  have hrecord : Files sha256
      (recordManifest parse push.index push.repo push.canonical push.manifest) := by
    rw [hcanonical]
    exact recordManifest_files _ _ push.manifest h
  have htag : Files sha256 (tagPush push) := by
    unfold tagPush
    cases push.reference with
    | digest digest => trivial
    | tag tag => exact (putTag_files _ _ _ _).bind fun _ => trivial
  exact hrecord.bind fun _ => htag.bind fun _ =>
    (files_quiet (referProg_quiet parse render push).of_bind).bind fun _ => trivial

theorem deleteManifestByDigest_files (index repo digest : Str) :
    Files sha256 (deleteManifestByDigest parse index repo digest) := by
  have htags : Files sha256 (deleteRepoTagsTo index repo digest) :=
    Prog.always_transact _ fun stores => filed_of_rows fun other =>
      .inl ((deleteRepoTagsTo_shrinks index repo digest stores).manifests other)
  refine (files_read _).bind fun manifest => htags.bind fun removed => Prog.Always.bind ?_ fun _ =>
    (files_quiet (pruneProg_quiet parse ⟨index, repo, digest⟩ true).of_bind).bind fun _ => trivial
  unfold unlinkUnreferenced
  split
  · refine (files_readOnly (referencedManifestDigests_readOnly parse)).bind fun found => ?_
    unfold unlinkUnless
    split
    · trivial
    · exact (deleteManifest_files digest).bind fun _ => trivial
  · trivial

section Reading
variable {repo tag : Str} {head : Bool} {bounds : Bounds} {clock : Index → Readings} {member : Index}
  {manifestDigest : Index → UpstreamClient → Str → Str → Except UpstreamError (Option Str)}
  {client : UpstreamClient}

theorem storedReply_files (digest : Str) : Files sha256 (storedReply head digest) :=
  (files_read _).bind fun _ => trivial

theorem freshTag_files (now : Int) : Files sha256 (freshTag bounds member repo tag head now) := by
  refine (files_read _).bind fun found => ?_
  split
  · trivial
  · split
    · trivial
    · exact storedReply_files _

theorem staleTag_files : Files sha256 (staleTag bounds clock member repo tag head) := by
  refine (files_read _).bind fun found => ?_
  split
  · trivial
  · split
    · exact storedReply_files _
    · trivial

theorem unchangedTag_files :
    Files sha256 (unchangedTag manifestDigest clock member repo tag head client) := by
  refine (files_read _).bind fun found => ?_
  split
  · trivial
  · split
    · split
      · trivial
      · refine (files_read _).bind fun manifest => ?_
        split
        · trivial
        · exact (setTagFreshness_files _ _ _ _ _).bind fun _ => trivial
    · trivial

variable {upstream : Index → UpstreamClient → Str → Str → Except UpstreamError UpstreamManifest}

/-- The media types that an upstream sends fit the length of two bytes before a stored one. -/
def Short (upstream : Index → UpstreamClient → Str → Str → Except UpstreamError UpstreamManifest) : Prop :=
  ∀ member client repo reference response bytes, upstream member client repo reference = .ok response →
    Manifest.Storable ⟨response.contentType.getD defaultManifestType, bytes⟩

variable (hshort : Short upstream)
include hshort

theorem storeManifest_files {reference : Str} (response : UpstreamManifest)
    (h : upstream member client repo reference = .ok response) :
    Files sha256 (storeManifest sha256 parse member.name repo response) := by
  rcases storeManifest_eq sha256 parse member.name repo response with
    ⟨_, fault, _, hstore⟩ | ⟨manifest, _, hmedia, hstore⟩
  · rw [hstore]
    trivial
  · rw [hstore]
    have hstorable : manifest.Storable := by
      unfold Manifest.Storable
      rw [hmedia]
      exact hshort _ _ _ _ _ manifest.bytes h
    exact (recordManifest_files _ repo manifest hstorable).bind fun _ => trivial

theorem fetchManifestByDigest_files (digest : Str) :
    Files sha256 (fetchManifestByDigest sha256 parse upstream member client repo digest head) := by
  unfold fetchManifestByDigest
  split
  · split <;> trivial
  · trivial
  · rename_i response hanswer
    refine (storeManifest_files hshort response hanswer).bind fun stored => ?_
    split
    · trivial
    · split <;> trivial

theorem pullFromMembers_files (digest : Str) (members : List Index) :
    Files sha256 (pullFromMembers sha256 parse upstream repo digest head members) := by
  induction members with
  | nil => trivial
  | cons member members ih =>
    unfold pullFromMembers
    split
    · exact ih
    · refine Prog.Always.bind ((files_read _).bind fun stored => ?_) fun answer => ?_
      · split
        · trivial
        · exact fetchManifestByDigest_files hshort digest
      · split
        · exact ih
        · trivial

theorem negotiateManifest_files (members : List Index) (accept : Option Str) (reply : Reply) :
    Files sha256 (negotiateManifest sha256 parse upstream members repo accept reply head) := by
  unfold negotiateManifest
  split
  · split
    · refine (files_read _).bind fun list => ?_
      split
      · trivial
      · split
        · trivial
        · refine (files_read _).bind fun stored => ?_
          split
          · trivial
          · refine (pullFromMembers_files hshort _ members).bind fun pulled => ?_
            split <;> trivial
    · trivial
  · trivial

theorem serveDigest_files (digest : Str) (members : List Index) :
    Files sha256 (serveDigest sha256 parse upstream members repo digest head) := by
  have hmembers : (manifestAuthorized repo digest members).ReadOnly := by
    induction members with
    | nil => trivial
    | cons member members ih =>
      refine (Prog.readOnly_read _).bind fun recorded => ?_
      split
      · trivial
      · exact ih
  refine Prog.Always.bind ((files_readOnly hmembers).bind fun recorded => ?_) fun found => ?_
  · split
    · exact storedReply_files digest
    · trivial
  · split
    · trivial
    · exact pullFromMembers_files hshort digest members

theorem fetchTag_files :
    Files sha256 (fetchTag sha256 parse upstream bounds clock member repo tag head client) := by
  unfold fetchTag
  split
  · rename_i response hanswer
    refine Prog.Always.bind ((storeManifest_files hshort response hanswer).bind fun stored => ?_)
      fun stored => ?_
    · split
      · trivial
      · exact (putTag_files _ _ _ _).bind fun _ => (setTagFreshness_files _ _ _ _ _).bind fun _ => trivial
    · split <;> trivial
  · split
    · exact (deleteTag_files _ _ _).bind fun _ => trivial
    · refine staleTag_files.bind fun stale => ?_
      split <;> trivial
  · exact staleTag_files.bind fun stale => trivial

theorem serveTag_files (members : List Index) :
    Files sha256 (serveTag sha256 parse upstream manifestDigest bounds clock repo tag head members) := by
  induction members with
  | nil => trivial
  | cons member members ih =>
    refine Prog.Always.bind ?_ fun answer => ?_
    · unfold memberTag
      split
      · refine (files_read _).bind fun digest => ?_
        split
        · exact (storedReply_files _).bind fun _ => trivial
        · trivial
      · refine (freshTag_files _).bind fun fresh => ?_
        split
        · trivial
        · refine (freshTag_files _).bind fun gated => ?_
          split
          · trivial
          · refine unchangedTag_files.bind fun unchanged => ?_
            split
            · trivial
            · exact fetchTag_files hshort
    · split
      · exact ih
      · trivial

theorem serveRequest_files (indexes : Indexes) (name : Str) (reference : Reference)
    (accept : Option Str) : Files sha256 (serveRequest sha256 parse upstream manifestDigest bounds
      clock indexes name reference head accept) := by
  unfold serveRequest
  split
  · trivial
  · split
    · trivial
    · refine Prog.Always.bind ?_ fun served => ?_
      · cases reference with
        | digest digest => exact serveDigest_files hshort digest _
        | tag tag => exact serveTag_files hshort _
      · split
        · trivial
        · unfold negotiate
          split
          · split
            · trivial
            · exact negotiateManifest_files hshort _ accept _
          · trivial

end Reading

variable (sha256 parse render) (realm : Bool) (indexes : Indexes)

/-- A handler of the registry; each read has its own answers from the upstreams. -/
inductive HandlerCall : Prog Stores Answer → Prop
  | write (p : Prog Stores Answer) (h : WriteCall parse render realm indexes sha256 p) : HandlerCall p
  | read (upstream : Index → UpstreamClient → Str → Str → Except UpstreamError UpstreamManifest)
    (hshort : Short upstream)
    (manifestDigest : Index → UpstreamClient → Str → Str → Except UpstreamError (Option Str))
    (bounds : Bounds) (clock : Index → Readings) (name : Str) (reference : Reference) (head : Bool)
    (accept : Option Str) : HandlerCall (serveRequest sha256 parse upstream manifestDigest bounds
      clock indexes name reference head accept)

theorem readPush_canonical (identify : IndexAcl → PresentedIdentity) (name : Str)
    (reference : Reference) (upload : Upload) (push : Push)
    (h : readPush identify realm indexes sha256 name reference upload = .ok push) :
    push.canonical = canonicalDigest sha256 push.manifest.bytes := by
  unfold readPush at h
  split at h
  · cases h
  · split at h
    · cases h
    · simp only at h
      split at h
      · cases h
      · split at h
        · cases h
        · cases h
        · split at h
          · split at h
            · cases h
            · cases h
              rfl
          · cases h
            rfl

theorem writeCall_files (p : Prog Stores Answer) (h : WriteCall parse render realm indexes sha256 p) :
    Files sha256 p := by
  cases h with
  | push identify name reference upload =>
    unfold putManifestRequest
    split
    · trivial
    · rename_i push hread
      refine Prog.Always.bind ((files_readOnly (missingManifestReference_readOnly parse _ _ _)).bind
        fun missing => ?_) fun _ => trivial
      split
      · trivial
      · exact recordPush_files push (readPush_storable realm indexes sha256 identify name reference
          upload push hread) (readPush_canonical sha256 realm indexes identify name reference upload
          push hread)
  | delete identify name reference _ =>
    unfold deleteManifestRequest
    split
    · trivial
    · split
      · exact (deleteTag_files _ _ _).bind fun _ => trivial
      · exact (deleteManifestByDigest_files _ _ _).bind fun _ => trivial

/-- However requests interleave, a stored manifest is filed under the digest of its bytes. -/
theorem manifests_filed (server : Server Stores (Prog Stores Answer))
    (h : (serving Prog.act (HandlerCall sha256 parse render realm indexes) {} fun _ _ _ => True).Reachable
      server) : Filed sha256 server.store := by
  refine serving_always (Filed sha256) (fun digest manifest hrow => by cases hrow) (fun p hp => ?_) server h
  cases hp with
  | write p hp => exact writeCall_files sha256 parse render realm indexes p hp
  | read upstream hshort manifestDigest bounds clock name reference head accept =>
    exact serveRequest_files hshort indexes name reference accept

end Filing

def pushing : Server Stores (Prog Stores Answer) where
  store := {}
  running := [putManifestRequest uploader false vaultAndStore (fun _ => childHex) parseEmpty
    (fun _ => []) (str "store/app") (.tag (str "latest")) emptyUpload]

theorem pushing_filed : ∃ server, pushing.play Prog.act [0] = some server ∧
    (manifestAt server.store.rows childDigest).isSome ∧ Filed (fun _ => childHex) server.store :=
  ⟨_, rfl, by decide, manifests_filed (fun _ => childHex) parseEmpty (fun _ => []) false vaultAndStore _
    (play_reachable [0] pushing _ (serving_arrivals _ fun r hr =>
      List.mem_singleton.mp hr ▸ .write _ (.push _ _ _ _)) rfl)⟩

end Peryx.Oci
