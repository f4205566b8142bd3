import Peryx.Oci.Store
import Peryx.Oci.Resolve

/-!
# Serving a manifest by digest (peryx-ecosystem-oci/src/registry/manifests/mod.rs)

A read by digest first answers from the store when a serving member records the
digest, then asks the proxy members one by one; a client that takes no image index gets
the `linux/amd64` child of one. Each store access is a transaction of its own. The
single-flight gate only delays a request and is left out. SHA-256, the JSON reader and
the upstreams are parameters.
-/

/-!
## Replies of the OCI registry (peryx-ecosystem-oci/src/error.rs, upstream.rs, registry/mod.rs)

What a handler answers, and what the upstream of a proxy member may answer it. The
transport of either is not part of the model.
-/

namespace Peryx.Oci
open Storage

inductive ErrorCode where
  | blobUnknown
  | blobUploadInvalid
  | blobUploadUnknown
  | digestInvalid
  | manifestBlobUnknown
  | manifestInvalid
  | manifestUnknown
  | nameInvalid
  | nameUnknown
  | sizeInvalid
  | unauthorized
  | denied
  | unsupported
  | tooManyRequests
  deriving Repr, DecidableEq

def ErrorCode.asStr : ErrorCode → Str
  | .blobUnknown => str "BLOB_UNKNOWN"
  | .blobUploadInvalid => str "BLOB_UPLOAD_INVALID"
  | .blobUploadUnknown => str "BLOB_UPLOAD_UNKNOWN"
  | .digestInvalid => str "DIGEST_INVALID"
  | .manifestBlobUnknown => str "MANIFEST_BLOB_UNKNOWN"
  | .manifestInvalid => str "MANIFEST_INVALID"
  | .manifestUnknown => str "MANIFEST_UNKNOWN"
  | .nameInvalid => str "NAME_INVALID"
  | .nameUnknown => str "NAME_UNKNOWN"
  | .sizeInvalid => str "SIZE_INVALID"
  | .unauthorized => str "UNAUTHORIZED"
  | .denied => str "DENIED"
  | .unsupported => str "UNSUPPORTED"
  | .tooManyRequests => str "TOOMANYREQUESTS"

def ErrorCode.status : ErrorCode → Nat
  | .blobUnknown | .blobUploadUnknown | .manifestUnknown | .nameUnknown => 404
  | .blobUploadInvalid | .digestInvalid | .manifestBlobUnknown | .manifestInvalid | .nameInvalid
  | .sizeInvalid => 400
  | .unauthorized => 401
  | .denied => 403
  | .unsupported => 405
  | .tooManyRequests => 429

inductive Origin where
  | stored
  | upstream
  deriving Repr, DecidableEq

structure ManifestReply where
  mediaType : Str
  digest : Str
  length : Nat
  body : Option Bytes
  origin : Origin
  deriving Repr, DecidableEq

structure ErrorReply where
  status : Nat
  code : Str
  message : Str
  retryAfter : Option Str := none
  deriving Repr, DecidableEq

inductive Reply where
  | manifest (reply : ManifestReply)
  | created (location digest : Str) (subject : Option Str)
  | accepted
  | error (reply : ErrorReply)
  deriving Repr, DecidableEq

def errorResponse (code : ErrorCode) (message : Str) : Reply :=
  .error ⟨code.status, code.asStr, message, none⟩

def gatewayError (message : Str) : Reply := .error ⟨502, str "UNKNOWN", message, none⟩

/-- A handler that stops: `ServeError::Transport`, or a panic. -/
inductive Fault where
  | transport (message : Str)
  | panicked
  deriving Repr, DecidableEq

inductive UpstreamError where
  | status (code : Nat) (text : Str)
  | rateLimited (retryAfter : Option Str)
  | transport (message : Str)
  deriving Repr, DecidableEq

def UpstreamError.text : UpstreamError → Str
  | .status _ text => str "upstream returned " ++ text
  | .rateLimited _ => str "upstream rate limit reached"
  | .transport message => message

structure UpstreamManifest where
  contentType : Option Str
  contentDigest : Option Str
  chunks : List (Except Str Bytes)

def absentUpstream (code : Nat) : Bool := code == 404 || code == 403

def upstreamErrorResponse (error : UpstreamError) (what : Str) : Reply :=
  match error with
  | .rateLimited retryAfter =>
    .error ⟨ErrorCode.tooManyRequests.status, ErrorCode.tooManyRequests.asStr,
      str "upstream rate limit reached; retry later", retryAfter⟩
  | .status 401 _ =>
    errorResponse .unauthorized (str "upstream registry refused authentication for this " ++ what)
  | error => gatewayError (str "upstream " ++ what ++ str " fetch failed: " ++ error.text)

def natText (n : Nat) : Str := str (Nat.repr n)

def boundedBody (max : Nat) : Bytes → List (Except Str Bytes) → Except Fault Bytes
  | body, [] => .ok body
  | _, .error message :: _ => .error (.transport message)
  | body, .ok chunk :: rest =>
    if max < body.length + chunk.length then
      .error (.transport (str "upstream body exceeds " ++ natText max ++ str " bytes"))
    else boundedBody max (body ++ chunk) rest

end Peryx.Oci

namespace Peryx.Oci
open Storage

def maxManifestBytes : Nat := 4 * 1024 * 1024

def defaultManifestType : Str := str "application/vnd.oci.image.manifest.v1+json"
def ociIndexType : Str := str "application/vnd.oci.image.index.v1+json"
def dockerManifestListType : Str := str "application/vnd.docker.distribution.manifest.list.v2+json"

def mediaTypeBase (value : Str) : Str := Str.trimAscii (value.takeWhile (· ≠ 0x3B))

def isListMediaType (mediaType : Str) : Bool :=
  mediaTypeBase mediaType == ociIndexType || mediaTypeBase mediaType == dockerManifestListType

def acceptExcludesListTypes (accept : Str) : Bool := !(Str.split 0x2C accept).any isListMediaType

/-- `serving_members`; the layers of a configured index are in range. -/
def servingMembers (indexes : Indexes) (index : Index) : List Index :=
  match index.kind with
  | .virtual layers _ => (shadowOrder indexes.toList layers).filterMap (indexes.toList[·]?)
  | _ => [index]

def policyBlocks (index : Index) (action : PolicyAction) (repo : Str) : Bool :=
  match index.policy.checkProject action repo with
  | .ok () => false
  | .error _ => true

def manifestAuthorized (repo digest : Str) : List Index → Prog Stores Bool
  | [] => return false
  | member :: members => do
    if ← manifestIsMember member.name repo digest then return true
    else manifestAuthorized repo digest members

def manifestResponse (manifest : Manifest) (digest : Str) (head : Bool) (origin : Origin) :
    ManifestReply where
  mediaType := manifest.mediaType
  digest := digest
  length := manifest.bytes.length
  body := if head then none else some manifest.bytes
  origin := origin

section Serving
variable (sha256 : Bytes → Str) (parse : Bytes → Option Json)
  (upstream : Index → UpstreamClient → Str → Str → Except UpstreamError UpstreamManifest)

def canonicalDigest (bytes : Bytes) : Str := str "sha256:" ++ sha256 bytes

def storeManifest (index repo : Str) (response : UpstreamManifest) :
    Prog Stores (Except Fault (Manifest × Str)) :=
  match boundedBody maxManifestBytes [] response.chunks with
  | .error fault => return .error fault
  | .ok bytes =>
    let canonical := canonicalDigest sha256 bytes
    match response.contentDigest.filter fun advertised =>
        Str.startsWith advertised (str "sha256:") && advertised != canonical with
    | some advertised => return .error (.transport (str "upstream digest " ++ advertised ++
        str " does not match manifest content " ++ canonical))
    | none => do
      let manifest : Manifest := ⟨response.contentType.getD defaultManifestType, bytes⟩
      recordManifest parse index repo canonical manifest
      return .ok (manifest, canonical)

def fetchManifestByDigest (member : Index) (client : UpstreamClient) (repo digest : Str)
    (head : Bool) : Prog Stores (Except Fault (Option Reply)) :=
  match upstream member client repo digest with
  | .error (.status code text) =>
    if absentUpstream code then return .ok none
    else return .ok (some (upstreamErrorResponse (.status code text) (str "manifest")))
  | .error error => return .ok (some (upstreamErrorResponse error (str "manifest")))
  | .ok response => do
    match ← storeManifest sha256 parse member.name repo response with
    | .error fault => return .error fault
    | .ok (manifest, canonical) =>
      if Str.startsWith digest (str "sha256:") ∧ canonical ≠ digest then
        return .ok (some (errorResponse .manifestInvalid (str "upstream digest " ++ canonical ++
          str " does not match requested " ++ digest)))
      else return .ok (some (.manifest (manifestResponse manifest digest head .upstream)))

def pullManifestByDigest (member : Index) (client : UpstreamClient) (repo digest : Str)
    (head : Bool) : Prog Stores (Except Fault (Option Reply)) := do
  match ← getManifest digest with
  | some manifest => return .ok (some (.manifest (manifestResponse manifest digest head .stored)))
  | none => fetchManifestByDigest sha256 parse upstream member client repo digest head

def pullFromMembers (repo digest : Str) (head : Bool) :
    List Index → Prog Stores (Except Fault (Option Reply))
  | [] => return .ok none
  | member :: members =>
    match member.proxyClient with
    | none => pullFromMembers repo digest head members
    | some client => do
      match ← pullManifestByDigest sha256 parse upstream member client repo digest head with
      | .ok none => pullFromMembers repo digest head members
      | answer => return answer

def readAuthorized (members : List Index) (repo digest : Str) (head : Bool) :
    Prog Stores (Option Reply) := do
  if ← manifestAuthorized repo digest members then
    let manifest ← getManifest digest
    return manifest.map fun manifest => .manifest (manifestResponse manifest digest head .stored)
  else return none

def serveDigest (members : List Index) (repo digest : Str) (head : Bool) :
    Prog Stores (Except Fault (Option Reply)) := do
  match ← readAuthorized members repo digest head with
  | some reply => return .ok (some reply)
  | none => pullFromMembers sha256 parse upstream repo digest head members

def negotiateManifest (members : List Index) (repo : Str) (accept : Option Str) (reply : Reply)
    (head : Bool) : Prog Stores (Except Fault Reply) :=
  match reply with
  | .manifest served =>
    if accept.any acceptExcludesListTypes ∧ isListMediaType served.mediaType then do
      match ← getManifest served.digest with
      | none => return .error .panicked
      | some list =>
        match linuxAmd64Child parse list.bytes with
        | none => return .ok reply
        | some child =>
          match ← getManifest child with
          | some manifest =>
            return .ok (.manifest (manifestResponse manifest child head .stored))
          | none =>
            match ← pullFromMembers sha256 parse upstream repo child head members with
            | .error fault => return .error fault
            | .ok pulled => return .ok (pulled.getD reply)
    else return .ok reply
  | reply => return .ok reply

end Serving
end Peryx.Oci
