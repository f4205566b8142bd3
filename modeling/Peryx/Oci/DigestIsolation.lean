import Peryx.Oci.Manifests

/-! # Reads by digest and the memberships of a repository -/

namespace Peryx.Oci
open Storage

def RecordedBy (members : List Index) (repo digest : Str) (rows : Rows) : Prop :=
  ∃ member ∈ members, isManifestMember rows member.name repo digest = true

def Proxied (members : List Index) : Prop := ∃ member ∈ members, member.proxyClient.isSome

section Request
variable (indexes : Indexes) (name digest : Str)

/-- A serving member of the index the name resolves to records the digest. -/
def Recorded (rows : Rows) : Prop := ∃ index repo, resolve indexes.toList name = some (index, repo) ∧
  RecordedBy (servingMembers indexes index) repo digest rows

/-- If the name may be served at all and through a proxy, a stored manifest of this
digest is recorded by a serving member. -/
def Confined (rows : Rows) : Prop := ∀ index repo, resolve indexes.toList name = some (index, repo) →
  policyBlocks index .serve repo = false → Proxied (servingMembers indexes index) →
  (manifestAt rows digest).isSome → RecordedBy (servingMembers indexes index) repo digest rows

end Request

section FastPath
variable (repo digest : Str)

end FastPath

section Pull
variable (sha256 : Bytes → Str) (parse : Bytes → Option Json)
  (upstream : Index → UpstreamClient → Str → Str → Except UpstreamError UpstreamManifest)
  (repo digest : Str) (head : Bool)

end Pull

section Serve
variable (sha256 : Bytes → Str) (parse : Bytes → Option Json)
  (upstream : Index → UpstreamClient → Str → Str → Except UpstreamError UpstreamManifest)

theorem negotiateManifest_plain (members : List Index) (repo : Str) (accept : Option Str)
    (reply : Reply) (head : Bool) (h : accept.any acceptExcludesListTypes = false) :
    negotiateManifest sha256 parse upstream members repo accept reply head = pure (.ok reply) := by
  unfold negotiateManifest
  split
  · rw [h, if_neg (by simp)]
  · rfl

variable (indexes : Indexes) (name digest : Str) (head : Bool)

end Serve

/-- `vault` is hosted and private, `hub` proxies an upstream. -/
def vaultAndHub : Indexes where
  toList :=
    [⟨str "vault", str "vault", .oci, .hosted false, {}, ⟨false, []⟩⟩,
      ⟨str "hub", str "hub", .oci, .cached ⟨str "https://registry.example/"⟩ false, {}, ⟨true, []⟩⟩]
  names_nodup := by decide
  routes_nodup := by decide
  routes_valid := by
    intro index h
    simp only [List.mem_cons, List.not_mem_nil, or_false] at h
    rcases h with rfl | rfl <;> rfl

def vaultHex : Str := str "44136fa355b3678a1146ad16f7e8649e94fb4fc21fe77e8310c060f61caaff8a"

def vaultDigest : Str := str "sha256:" ++ vaultHex

/-- The store after `vault/app` recorded one manifest. -/
def vaultStores : Stores :=
  ((recordManifest (fun _ => some (.object [])) (str "vault") (str "app") vaultDigest
    ⟨defaultManifestType, str "\x7b\x7d"⟩).run {}).2

def unknownUpstream : Index → UpstreamClient → Str → Str → Except UpstreamError UpstreamManifest :=
  fun _ _ _ _ => .error (.status 404 (str "404 Not Found"))

end Peryx.Oci
