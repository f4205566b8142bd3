import Peryx.Oci.Names

/-!
# Serving a manifest by tag (peryx-ecosystem-oci/src/registry/manifests/mod.rs:25-89,200-401)

A tag of a hosted member is read from the store. The clock is read anew each time, so its
readings are parameters like the upstreams.
-/

namespace Peryx.Oci
open Storage

def i64Bytes (n : Int) : Bytes :=
  (List.range 8).map fun place => UInt8.ofNat ((n % 2 ^ 64).toNat / 256 ^ (7 - place))

def i64Value (bytes : Bytes) : Int :=
  let value : Int := bytes.foldl (fun (value : Int) byte => value * 256 + byte.toNat) 0
  if value < 2 ^ 63 then value else value - 2 ^ 64

def saturatingSub (a b : Int) : Int := max (-2 ^ 63) (min (2 ^ 63 - 1) (a - b))

def freshnessAt (rows : Rows) (index repo tag : Str) : Option (Int × Str) :=
  match rows[tagFreshnessKey index repo tag]? with
  | some raw =>
    if raw.length < 8 then none
    else (Str.fromUtf8 (raw.drop 8)).map fun digest => (i64Value (raw.take 8), digest)
  | none => none

def tagFreshness (index repo tag : Str) : Prog Stores (Option (Int × Str)) :=
  Prog.read fun stores => freshnessAt stores.rows index repo tag

def setTagFreshness (index repo tag digest : Str) (seconds : Int) : Prog Stores Unit :=
  putDriverValue (tagFreshnessKey index repo tag) (i64Bytes seconds ++ digest)

structure Bounds where
  ttlSecs : Int
  maxStaleSecs : Int

def Bounds.withinStale (bounds : Bounds) (now fetchedAt : Int) : Bool :=
  bounds.maxStaleSecs == 0 ||
    decide (saturatingSub now fetchedAt < bounds.ttlSecs + bounds.maxStaleSecs)

structure Readings where
  fresh : Int
  gated : Int
  recorded : Int
  stale : Int

section Member
variable (sha256 : Bytes → Str) (parse : Bytes → Option Json)
  (upstream : Index → UpstreamClient → Str → Str → Except UpstreamError UpstreamManifest)
  (manifestDigest : Index → UpstreamClient → Str → Str → Except UpstreamError (Option Str))
  (bounds : Bounds) (clock : Index → Readings)
  (member : Index) (repo tag : Str) (head : Bool)

def storedReply (digest : Str) : Prog Stores (Option Reply) := do
  let manifest ← getManifest digest
  return manifest.map fun manifest => .manifest (manifestResponse manifest digest head .stored)

def freshTag (now : Int) : Prog Stores (Option Reply) := do
  match ← tagFreshness member.name repo tag with
  | none => return none
  | some (fetchedAt, digest) =>
    if bounds.ttlSecs ≤ saturatingSub now fetchedAt then return none
    else storedReply head digest

def staleTag : Prog Stores (Option Reply) := do
  match ← tagFreshness member.name repo tag with
  | none => return none
  | some (fetchedAt, digest) =>
    if bounds.withinStale (clock member).stale fetchedAt then storedReply head digest
    else return none

def unchangedTag (client : UpstreamClient) : Prog Stores (Option Reply) := do
  match ← tagFreshness member.name repo tag with
  | none => return none
  | some (_, cached) =>
    match manifestDigest member client repo tag with
    | .ok (some current) =>
      if current ≠ cached then return none
      else match ← getManifest cached with
        | none => return none
        | some manifest => do
          setTagFreshness member.name repo tag cached (clock member).recorded
          return some (.manifest (manifestResponse manifest cached head .stored))
    | _ => return none

def storeTagged (response : UpstreamManifest) : Prog Stores (Except Fault (Manifest × Str)) := do
  match ← storeManifest sha256 parse member.name repo response with
  | .error fault => return .error fault
  | .ok (manifest, canonical) => do
    let _ ← putTag member.name repo tag canonical
    setTagFreshness member.name repo tag canonical (clock member).recorded
    return .ok (manifest, canonical)

def fetchTag (client : UpstreamClient) : Prog Stores (Except Fault (Option Reply)) :=
  match upstream member client repo tag with
  | .ok response => do
    match ← storeTagged sha256 parse clock member repo tag response with
    | .error fault => return .error fault
    | .ok (manifest, canonical) =>
      return .ok (some (.manifest (manifestResponse manifest canonical head .upstream)))
  | .error (.status code text) =>
    -- a 404 is an answer: the tag is gone
    if code = 404 then do
      let _ ← deleteTag member.name repo tag
      return .ok none
    else do
      let stale ← staleTag bounds clock member repo tag head
      if absentUpstream code then return .ok stale
      else return .ok (some (stale.getD (upstreamErrorResponse (.status code text) (str "manifest"))))
  | .error error => do
    let stale ← staleTag bounds clock member repo tag head
    return .ok (some (stale.getD (upstreamErrorResponse error (str "manifest"))))

def revalidateTag (client : UpstreamClient) : Prog Stores (Except Fault (Option Reply)) := do
  match ← unchangedTag manifestDigest clock member repo tag head client with
  | some reply => return .ok (some reply)
  | none => fetchTag sha256 parse upstream bounds clock member repo tag head client

def memberTag : Prog Stores (Except Fault (Option Reply)) :=
  match member.proxyClient with
  | none => do
    match ← getTag member.name repo tag with
    | some digest => return .ok (← storedReply head digest)
    | none => return .ok none
  | some client => do
    match ← freshTag bounds member repo tag head (clock member).fresh with
    | some reply => return .ok (some reply)
    | none =>
      match ← freshTag bounds member repo tag head (clock member).gated with
      | some reply => return .ok (some reply)
      | none =>
        revalidateTag sha256 parse upstream manifestDigest bounds clock member repo tag head client

end Member

section Serving
variable (sha256 : Bytes → Str) (parse : Bytes → Option Json)
  (upstream : Index → UpstreamClient → Str → Str → Except UpstreamError UpstreamManifest)
  (manifestDigest : Index → UpstreamClient → Str → Str → Except UpstreamError (Option Str))
  (bounds : Bounds) (clock : Index → Readings)

/-- The tag branch of `serve_manifest`: the members in order, up to the first that answers. -/
def serveTag (repo tag : Str) (head : Bool) : List Index → Prog Stores (Except Fault (Option Reply))
  | [] => return .ok none
  | member :: members => do
    match ← memberTag sha256 parse upstream manifestDigest bounds clock member repo tag head with
    | .ok none => serveTag repo tag head members
    | answer => return answer

/-- What `HeaderValue::to_str` reads: visible ASCII, blanks and tabs. -/
def headerText (value : Str) : Bool :=
  value.all fun byte => (0x20 ≤ byte && byte ≤ 0x7E) || byte == 0x09

def negotiate (members : List Index) (repo : Str) (accept : Option Str) (reply : Reply)
    (head : Bool) : Prog Stores (Except Fault Reply) :=
  match reply with
  | .manifest served =>
    if (accept.any acceptExcludesListTypes ∧ isListMediaType served.mediaType) ∧
        headerText served.digest = false then return .error .panicked
    else negotiateManifest sha256 parse upstream members repo accept reply head
  | reply => return .ok reply

def serveReference (members : List Index) (repo : Str) (reference : Reference) (head : Bool) :
    Prog Stores (Except Fault (Option Reply)) :=
  match reference with
  | .digest digest => serveDigest sha256 parse upstream members repo digest head
  | .tag tag => serveTag sha256 parse upstream manifestDigest bounds clock repo tag head members

/-- `serve_manifest`. -/
def serveRequest (indexes : Indexes) (name : Str) (reference : Reference) (head : Bool)
    (accept : Option Str) : Prog Stores (Except Fault Reply) :=
  match resolve indexes.toList name with
  | none => return .ok (errorResponse .nameUnknown (str "repository name unknown"))
  | some (index, repo) =>
    if policyBlocks index .serve repo then
      return .ok (errorResponse .manifestUnknown (str "manifest unknown"))
    else do
      let members := servingMembers indexes index
      match ← serveReference sha256 parse upstream manifestDigest bounds clock members repo
          reference head with
      | .error fault => return .error fault
      | .ok served =>
        negotiate sha256 parse upstream members repo accept
          (served.getD (errorResponse .manifestUnknown (str "manifest unknown"))) head

end Serving
end Peryx.Oci
