import Peryx.Oci.DigestIsolation
import Peryx.Oci.TagServing

/-!
# Hosted tags shadow upstream ones (peryx-index/src/resolve.rs:48-60, registry/mod.rs:597-608)
-/

namespace Peryx.Oci
open Storage

theorem shadowOrder_stable (indexes : List Index) (layers : List Nat) :
    (shadowOrder indexes layers).Perm layers ∧
    (∀ flag, (shadowOrder indexes layers).filter (fun position => cachedAt indexes position == flag) =
      layers.filter fun position => cachedAt indexes position == flag) ∧
    (shadowOrder indexes layers).Pairwise fun a b =>
      cachedAt indexes a = true → cachedAt indexes b = true := by
  refine ⟨List.perm_insertionSort _ layers, fun flag => ?_, ?_⟩
  · rw [shadowOrder_eq, List.filter_append, List.filter_filter, List.filter_filter]
    cases flag with
    | false =>
      have hnone : layers.filter (fun position => (cachedAt indexes position == false) &&
          cachedAt indexes position) = [] :=
        List.filter_eq_nil_iff.mpr fun position _ => by cases cachedAt indexes position <;> decide
      rw [hnone, List.append_nil]
      exact List.filter_congr fun position _ => by cases cachedAt indexes position <;> decide
    | true =>
      have hnone : layers.filter (fun position => (cachedAt indexes position == true) &&
          !cachedAt indexes position) = [] :=
        List.filter_eq_nil_iff.mpr fun position _ => by cases cachedAt indexes position <;> decide
      rw [hnone, List.nil_append]
      exact List.filter_congr fun position _ => by cases cachedAt indexes position <;> decide
  · rw [shadowOrder_eq, List.pairwise_append]
    refine ⟨?_, ?_, fun a _ b hb _ => (List.mem_filter.mp hb).2⟩
    · refine List.Pairwise.imp_of_mem (R := fun _ _ => True) ?_ (List.pairwise_of_forall fun _ _ => trivial)
      intro a b ha _ _ hcached
      have hnot := (List.mem_filter.mp ha).2
      rw [hcached] at hnot
      cases hnot
    · refine List.Pairwise.imp_of_mem (R := fun _ _ => True) ?_ (List.pairwise_of_forall fun _ _ => trivial)
      intro a b _ hb _ _
      exact (List.mem_filter.mp hb).2

/-- The layers before one that is not cached, as far as they are not cached either. -/
def uncachedBefore (indexes : List Index) (front : List Nat) : List Index :=
  (front.filter fun position => !cachedAt indexes position).filterMap (indexes[·]?)

theorem servingMembers_split (indexes : Indexes) (index member : Index) (front back : List Nat)
    (position : Nat) (upload : Option Nat)
    (hkind : index.kind = .virtual (front ++ position :: back) upload)
    (hmember : indexes.toList[position]? = some member) (hcached : member.kind.isCached = false) :
    ∃ rest, servingMembers indexes index =
      uncachedBefore indexes.toList front ++ member :: rest := by
  have hflag : cachedAt indexes.toList position = false := by
    unfold cachedAt
    rw [hmember]
    exact hcached
  unfold servingMembers
  rw [hkind]
  dsimp only
  rw [shadowOrder_eq, List.filter_append, List.filter_cons_of_pos (by rw [hflag]; rfl),
    List.append_assoc, List.filterMap_append, List.cons_append, List.filterMap_cons, hmember]
  exact ⟨_, rfl⟩

theorem uncachedBefore_not_cached (indexes : List Index) (front : List Nat) (member : Index)
    (h : member ∈ uncachedBefore indexes front) : member.kind.isCached = false := by
  obtain ⟨position, hposition, hmember⟩ := List.mem_filterMap.mp h
  have hflag := (List.mem_filter.mp hposition).2
  unfold cachedAt at hflag
  rw [hmember] at hflag
  simpa using hflag

theorem proxyClient_of_not_cached (member : Index) (h : member.kind.isCached = false) :
    member.proxyClient = none := by
  unfold Index.proxyClient
  cases hkind : member.kind with
  | cached client offline =>
    rw [hkind] at h
    cases h
  | hosted isVolatile => rfl
  | virtual layers upload => rfl

def HoldsTag (rows : Rows) (repo tag : Str) (member : Index) (digest : Str) (manifest : Manifest) :
    Prop :=
  tagAt rows member.name repo tag = some digest ∧ manifestAt rows digest = some manifest

def Lacks (rows : Rows) (repo tag : Str) (member : Index) : Prop :=
  ∀ digest manifest, ¬ HoldsTag rows repo tag member digest manifest

/-- Rows that have the tags of these members and what they name as they were. -/
def SameTags (members : List Index) (repo tag : Str) (before after : Rows) : Prop :=
  ∀ member ∈ members, tagAt after member.name repo tag = tagAt before member.name repo tag ∧
    ∀ digest, tagAt before member.name repo tag = some digest →
      manifestAt after digest = manifestAt before digest

section Shadowing
variable (sha256 : Bytes → Str) (parse : Bytes → Option Json)
  (upstream : Index → UpstreamClient → Str → Str → Except UpstreamError UpstreamManifest)
  (manifestDigest : Index → UpstreamClient → Str → Str → Except UpstreamError (Option Str))
  (bounds : Bounds) (clock : Index → Readings) (repo tag : Str) (head : Bool) (stores : Stores)

def taggedReply (found : Option Str) : Prog Stores (Except Fault (Option Reply)) :=
  match found with
  | some digest => storedReply head digest >>= fun reply => pure (.ok reply)
  | none => pure (.ok none)

theorem memberTag_stored (member : Index) (h : member.kind.isCached = false) :
    memberTag sha256 parse upstream manifestDigest bounds clock member repo tag head =
      getTag member.name repo tag >>= taggedReply head := by
  unfold memberTag
  rw [proxyClient_of_not_cached member h]
  rfl

theorem memberTag_holds (members : List Index) (member : Index) (hmem : member ∈ members)
    (hcached : member.kind.isCached = false) (digest : Str) (manifest : Manifest)
    (h : HoldsTag stores.rows repo tag member digest manifest) :
    (memberTag sha256 parse upstream manifestDigest bounds clock member repo tag head).Ends
      (fun found => SameTags members repo tag stores.rows found.rows)
      fun answer => answer =
        .ok (some (.manifest (manifestResponse manifest digest head .stored))) := by
  rw [memberTag_stored sha256 parse upstream manifestDigest bounds clock repo tag head member hcached]
  intro first hfirst
  have htag : tagAt first.rows member.name repo tag = some digest := (hfirst member hmem).1.trans h.1
  show Prog.Ends _ _ (taggedReply head (tagAt first.rows member.name repo tag))
  rw [htag]
  intro second hsecond
  have hmanifest : manifestAt second.rows digest = some manifest :=
    ((hsecond member hmem).2 digest h.1).trans h.2
  show Except.ok ((manifestAt second.rows digest).map _) = _
  rw [hmanifest]
  rfl

theorem memberTag_lacks (members : List Index) (member : Index) (hmem : member ∈ members)
    (hcached : member.kind.isCached = false) (h : Lacks stores.rows repo tag member) :
    (memberTag sha256 parse upstream manifestDigest bounds clock member repo tag head).Ends
      (fun found => SameTags members repo tag stores.rows found.rows)
      fun answer => answer = .ok none := by
  rw [memberTag_stored sha256 parse upstream manifestDigest bounds clock repo tag head member hcached]
  intro first hfirst
  show Prog.Ends _ _ (taggedReply head (tagAt first.rows member.name repo tag))
  rw [(hfirst member hmem).1]
  cases htag : tagAt stores.rows member.name repo tag with
  | none => rfl
  | some digest =>
    intro second hsecond
    show Except.ok ((manifestAt second.rows digest).map _) = _
    rw [(hsecond member hmem).2 digest htag]
    cases hmanifest : manifestAt stores.rows digest with
    | none => rfl
    | some manifest => exact absurd ⟨htag, hmanifest⟩ (h digest manifest)

theorem serveTag_first (members front rest : List Index) (member : Index)
    (hfront : ∀ other ∈ front, other ∈ members ∧ other.kind.isCached = false ∧
      Lacks stores.rows repo tag other)
    (hmem : member ∈ members) (hcached : member.kind.isCached = false) (digest : Str)
    (manifest : Manifest) (h : HoldsTag stores.rows repo tag member digest manifest) :
    (serveTag sha256 parse upstream manifestDigest bounds clock repo tag head
        (front ++ member :: rest)).Ends
      (fun found => SameTags members repo tag stores.rows found.rows)
      fun answer => answer =
        .ok (some (.manifest (manifestResponse manifest digest head .stored))) := by
  induction front with
  | nil =>
    refine (memberTag_holds sha256 parse upstream manifestDigest bounds clock repo tag head stores
      members member hmem hcached digest manifest h).bind fun answer hanswer => ?_
    rw [hanswer]
    rfl
  | cons other front ih =>
    obtain ⟨hother, huncached, hlacks⟩ := hfront other List.mem_cons_self
    refine (memberTag_lacks sha256 parse upstream manifestDigest bounds clock repo tag head stores
      members other hother huncached hlacks).bind fun answer hanswer => ?_
    rw [hanswer]
    exact ih fun o ho => hfront o (List.mem_cons_of_mem _ ho)

theorem memberTag_run (member : Index) (h : member.kind.isCached = false) :
    (memberTag sha256 parse upstream manifestDigest bounds clock member repo tag head).run stores =
      (.ok ((tagAt stores.rows member.name repo tag).bind fun digest =>
        (manifestAt stores.rows digest).map fun manifest =>
          .manifest (manifestResponse manifest digest head .stored)), stores) := by
  rw [memberTag_stored sha256 parse upstream manifestDigest bounds clock repo tag head member h,
    Prog.run_bind]
  show (taggedReply head (tagAt stores.rows member.name repo tag)).run stores = _
  cases tagAt stores.rows member.name repo tag with
  | none => rfl
  | some digest => rfl

theorem serveTag_run (front rest : List Index) (member : Index)
    (hfront : ∀ other ∈ front, other.kind.isCached = false ∧ Lacks stores.rows repo tag other)
    (hcached : member.kind.isCached = false) (digest : Str) (manifest : Manifest)
    (h : HoldsTag stores.rows repo tag member digest manifest) :
    (serveTag sha256 parse upstream manifestDigest bounds clock repo tag head
        (front ++ member :: rest)).run stores =
      (.ok (some (.manifest (manifestResponse manifest digest head .stored))), stores) := by
  induction front with
  | nil =>
    rw [List.nil_append, serveTag, Prog.run_bind,
      memberTag_run sha256 parse upstream manifestDigest bounds clock repo tag head stores member
        hcached, h.1, Option.bind_some, h.2]
    rfl
  | cons other front ih =>
    obtain ⟨huncached, hlacks⟩ := hfront other List.mem_cons_self
    have hnone : ((tagAt stores.rows other.name repo tag).bind fun digest =>
        (manifestAt stores.rows digest).map fun manifest =>
          Reply.manifest (manifestResponse manifest digest head .stored)) = none := by
      cases htag : tagAt stores.rows other.name repo tag with
      | none => rfl
      | some found =>
        cases hstored : manifestAt stores.rows found with
        | none => rw [Option.bind_some, hstored, Option.map_none]
        | some kept => exact absurd ⟨htag, hstored⟩ (hlacks found kept)
    rw [List.cons_append, serveTag, Prog.run_bind,
      memberTag_run sha256 parse upstream manifestDigest bounds clock repo tag head stores other
        huncached, hnone]
    exact ih fun o ho => hfront o (List.mem_cons_of_mem _ ho)

/-- A member that is not cached and holds the tag, as the first such layer, answers: alone,
among requests that leave these tags as they are, and to a client of image indexes. -/
theorem virtual_tag_shadowing :
    (∀ (indexes : List Index) (layers : List Nat),
      (shadowOrder indexes layers).Perm layers ∧
      (∀ flag, (shadowOrder indexes layers).filter
          (fun position => cachedAt indexes position == flag) =
        layers.filter fun position => cachedAt indexes position == flag) ∧
      (shadowOrder indexes layers).Pairwise fun a b =>
        cachedAt indexes a = true → cachedAt indexes b = true) ∧
    ∀ (indexes : Indexes) (index member : Index) (front back : List Nat) (position : Nat)
      (upload : Option Nat) (digest : Str) (manifest : Manifest),
      index.kind = .virtual (front ++ position :: back) upload →
      indexes.toList[position]? = some member → member.kind.isCached = false →
      HoldsTag stores.rows repo tag member digest manifest →
      (∀ other ∈ uncachedBefore indexes.toList front, Lacks stores.rows repo tag other) →
      ((serveTag sha256 parse upstream manifestDigest bounds clock repo tag head
          (servingMembers indexes index)).run stores).1 =
        .ok (some (.manifest (manifestResponse manifest digest head .stored))) ∧
      (serveTag sha256 parse upstream manifestDigest bounds clock repo tag head
          (servingMembers indexes index)).Ends
        (fun found => SameTags (uncachedBefore indexes.toList front ++ [member]) repo tag
          stores.rows found.rows)
        (fun answer => answer =
          .ok (some (.manifest (manifestResponse manifest digest head .stored)))) ∧
      ∀ name accept, resolve indexes.toList name = some (index, repo) →
        policyBlocks index .serve repo = false → accept.any acceptExcludesListTypes = false →
        ((serveRequest sha256 parse upstream manifestDigest bounds clock indexes name (.tag tag)
            head accept).run stores).1 =
          .ok (.manifest (manifestResponse manifest digest head .stored)) := by
  refine ⟨shadowOrder_stable, ?_⟩
  intro indexes index member front back position upload digest manifest hkind hmember hcached hholds
    hlacks
  obtain ⟨rest, hmembers⟩ :=
    servingMembers_split indexes index member front back position upload hkind hmember hcached
  have hfront : ∀ other ∈ uncachedBefore indexes.toList front,
      other.kind.isCached = false ∧ Lacks stores.rows repo tag other := fun other hother =>
    ⟨uncachedBefore_not_cached indexes.toList front other hother, hlacks other hother⟩
  have hrun := serveTag_run sha256 parse upstream manifestDigest bounds clock repo tag head stores _
    rest member hfront hcached digest manifest hholds
  rw [← hmembers] at hrun
  refine ⟨by rw [hrun], ?_, fun name accept hresolve hpolicy haccept => ?_⟩
  · rw [hmembers]
    exact serveTag_first sha256 parse upstream manifestDigest bounds clock repo tag head stores _ _
      rest member (fun other hother => ⟨List.mem_append_left _ hother, hfront other hother⟩)
      (List.mem_append_right _ (List.mem_singleton_self member)) hcached digest manifest hholds
  · unfold serveRequest
    rw [hresolve]
    simp only [hpolicy, Bool.false_eq_true, if_false, Prog.run_bind, serveReference, hrun,
      Option.getD_some, negotiate, haccept, false_and, negotiateManifest_plain _ _ _ _ _ _ _ _ haccept]
    rfl

end Shadowing
/-- `team` lists the proxy `hub` before the hosted `vault`. -/
def team : Index :=
  ⟨str "team", str "team", .oci, .virtual [1, 0] none, {}, ⟨true, []⟩⟩

def teamIndexes : Indexes where
  toList := vaultAndHub.toList ++ [team]
  names_nodup := by decide
  routes_nodup := by decide
  routes_valid := by
    intro index h
    rcases List.mem_append.mp h with h | h
    · exact vaultAndHub.routes_valid index h
    · rw [List.mem_singleton.mp h]
      rfl

/-- `vault/app` with a tag. -/
def taggedStores : Stores := ((putTag (str "vault") (str "app") (str "v1") vaultDigest).run vaultStores).2

theorem vault_answers_before_hub :
    ((serveTag (fun _ => vaultHex) (fun _ => none) unknownUpstream (fun _ _ _ _ => .ok none)
        ⟨600, 0⟩ (fun _ => ⟨0, 0, 0, 0⟩) (str "app") (str "v1") false
        (servingMembers teamIndexes team)).run taggedStores).1 =
      .ok (some (.manifest
        (manifestResponse ⟨defaultManifestType, str "\x7b\x7d"⟩ vaultDigest false .stored))) :=
  ((virtual_tag_shadowing (fun _ => vaultHex) (fun _ => none) unknownUpstream
    (fun _ _ _ _ => .ok none) ⟨600, 0⟩ (fun _ => ⟨0, 0, 0, 0⟩) (str "app") (str "v1") false
    taggedStores).2 teamIndexes team vaultAndHub.toList[0] [1] [] 0 none vaultDigest
    ⟨defaultManifestType, str "\x7b\x7d"⟩ rfl rfl rfl ⟨by decide +kernel, by decide +kernel⟩
    (fun other hother => absurd hother List.not_mem_nil)).1

end Peryx.Oci
