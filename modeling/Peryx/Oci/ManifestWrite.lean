import Peryx.Oci.Auth
import Peryx.Oci.Manifests

/-!
# Pushing and deleting manifests (peryx-ecosystem-oci/src/registry/manifests/write.rs)

A push checks what the document refers to, records the manifest with the memberships it
implies, writes the tag, and last the referrer row; a delete by digest removes the tags of
the repository, and the manifest when nothing refers to it any more. Webhooks, metrics and
store I/O errors are left out.
-/

namespace Peryx.Oci
open Storage Acl

inductive Reference where
  | tag (tag : Str)
  | digest (digest : Str)
  deriving Repr, DecidableEq

def writeTarget (indexes : Indexes) (index : Index) : Option Index :=
  match index.kind with
  | .hosted _ => some index
  | .virtual _ (some position) => (indexes.toList[position]?).filter fun target => target.kind.isHosted
  | _ => none

def resourceChallenge (realm : Bool) (denial : Denial) : Reply :=
  if realm = false ∧ denial = .forbidden then
    errorResponse .denied (str "token does not grant this action")
  else errorResponse .unauthorized (str "authentication required")

section Writing
variable (identify : IndexAcl → PresentedIdentity) (realm : Bool) (indexes : Indexes)

def resolveWritable (name : Str) (action : Action) : Except Reply (Index × Str) :=
  match resolve indexes.toList name with
  | none => .error (errorResponse .nameUnknown (str "repository name unknown"))
  | some (index, repo) =>
    match writeTarget indexes index with
    | none => .error (errorResponse .denied (str "index is read-only"))
    | some target =>
      match (identify target.acl).authorize target.acl repo name action with
      | .ok () => .ok (target, repo)
      | .error .unavailable => .error (errorResponse .denied (str "uploads are disabled"))
      | .error denial => .error (resourceChallenge realm denial)

structure Upload where
  contentType : Option Str
  body : List (Except Str Bytes)

inductive BodyError where
  | tooLong
  | transport (message : Str)
  deriving Repr, DecidableEq

def readBody (max : Nat) : Bytes → List (Except Str Bytes) → Except BodyError Bytes
  | body, [] => .ok body
  | _, .error message :: _ => .error (.transport message)
  | body, .ok chunk :: rest =>
    if max < body.length + chunk.length then .error .tooLong else readBody max (body ++ chunk) rest

def dockerManifestType : Str := str "application/vnd.docker.distribution.manifest.v2+json"

def isSupportedManifestType (mediaType : Str) : Bool :=
  mediaType == defaultManifestType || mediaType == ociIndexType ||
    mediaType == dockerManifestType || mediaType == dockerManifestListType

structure Push where
  index : Str
  repo : Str
  name : Str
  reference : Reference
  canonical : Str
  manifest : Manifest
  deriving Repr, DecidableEq

variable (sha256 : Bytes → Str)

/-- The part of `put_manifest` before its first transaction. -/
def readPush (name : Str) (reference : Reference) (upload : Upload) :
    Except (Except Fault Reply) Push :=
  match resolveWritable identify realm indexes name .write with
  | .error reply => .error (.ok reply)
  | .ok (index, repo) =>
    if policyBlocks index .upload repo then
      .error (.ok (errorResponse .denied (str "image name is blocked by policy")))
    else
      let mediaType := mediaTypeBase (upload.contentType.getD defaultManifestType)
      if isSupportedManifestType mediaType = false then
        .error (.ok (errorResponse .manifestInvalid
          (str "unsupported manifest media type " ++ mediaType)))
      else match readBody maxManifestBytes [] upload.body with
        | .error .tooLong => .error (.ok (.error ⟨413, ErrorCode.sizeInvalid.asStr,
            str "manifest exceeds the " ++ natText maxManifestBytes ++ str "-byte limit", none⟩))
        | .error (.transport message) => .error (.error (.transport message))
        | .ok bytes =>
          let canonical := canonicalDigest sha256 bytes
          let push : Push := ⟨index.name, repo, name, reference, canonical, ⟨mediaType, bytes⟩⟩
          match reference with
          | .digest digest =>
            if digest ≠ canonical then
              .error (.ok (errorResponse .digestInvalid (str "manifest bytes do not match the digest")))
            else .ok push
          | .tag _ => .ok push

def blobDigest (digest : Str) : Option Str :=
  (Str.stripPrefix digest (str "sha256:")).bind digestFromHex

def blobPresent (blob : Str) : Prog Stores Bool :=
  match blobDigest blob with
  | none => return false
  | some storage => do
    let head ← blobHead storage
    return head.isSome

def blobHeld (index repo blob : Str) : Prog Stores Bool := do
  if ← blobPresent blob then blobIsMember index repo blob else return false

def missingBlob (index repo : Str) : List Str → Prog Stores (Option Reply)
  | [] => return none
  | blob :: blobs => do
    if ← blobHeld index repo blob then missingBlob index repo blobs
    else return some (errorResponse .manifestBlobUnknown
      (str "referenced blob " ++ blob ++ str " is not present"))

def missingChild : List Str → Prog Stores (Option Reply)
  | [] => return none
  | child :: children => do
    match ← getManifest child with
    | some _ => missingChild children
    | none => return some (errorResponse .manifestBlobUnknown
        (str "referenced manifest " ++ child ++ str " is not present"))

variable (parse : Bytes → Option Json)

def missingManifestReference (index repo : Str) (bytes : Bytes) : Prog Stores (Option Reply) := do
  let (children, blobs) := manifestDescriptors parse bytes
  match ← missingBlob index repo blobs with
  | some reply => return some reply
  | none => missingChild children

def tagPush (push : Push) : Prog Stores Unit :=
  match push.reference with
  | .digest _ => return ()
  | .tag tag => do
    let _ ← putTag push.index push.repo tag push.canonical
    return ()

variable (render : Json → Bytes)

def referrerDescriptor (document : Json) (push : Push) : Json :=
  let artifactType := (document.field (str "artifactType")).asStr.or
    ((document.field (str "config")).field (str "mediaType")).asStr
  let annotations := (document.get (str "annotations")).filter Json.isObject
  .object ([(str "mediaType", .string push.manifest.mediaType), (str "digest", .string push.canonical),
      (str "size", .number (natText push.manifest.bytes.length))] ++
    (artifactType.map fun artifactType => (str "artifactType", Json.string artifactType)).toList ++
    (annotations.map fun annotations => (str "annotations", annotations)).toList)

def recordReferrer (push : Push) : Prog Stores (Option Str) :=
  match parse push.manifest.bytes with
  | none => return none
  | some document =>
    match ((document.field (str "subject")).field (str "digest")).asStr with
    | none => return none
    | some subject => do
      putReferrer push.index push.repo subject push.canonical
        (render (referrerDescriptor document push))
      return some subject

def manifestCreated (push : Push) (subject : Option Str) : Reply :=
  .created (str "/v2/" ++ push.name ++ str "/manifests/" ++ push.canonical) push.canonical subject

def recordPush (push : Push) : Prog Stores Reply := do
  recordManifest parse push.index push.repo push.canonical push.manifest
  tagPush push
  let subject ← recordReferrer parse render push
  return manifestCreated push subject

def storePush (push : Push) : Prog Stores Reply := do
  match ← missingManifestReference parse push.index push.repo push.manifest.bytes with
  | some reply => return reply
  | none => recordPush parse render push

def putManifestRequest (name : Str) (reference : Reference) (upload : Upload) :
    Prog Stores (Except Fault Reply) :=
  match readPush identify realm indexes sha256 name reference upload with
  | .error answer => return answer
  | .ok push => do
    let reply ← storePush parse render push
    return .ok reply

def unlinkUnless (digest : Str) (found : List Str) : Prog Stores Unit :=
  if digest ∈ found then return ()
  else do
    let _ ← deleteManifest digest
    return ()

def unlinkUnreferenced (present : Bool) (digest : Str) : Prog Stores Unit :=
  if present then do
    let found ← referencedManifestDigests parse
    unlinkUnless digest found
  else return ()

def deleteManifestByDigest (index repo digest : Str) : Prog Stores Bool := do
  let manifest ← getManifest digest
  let (removedTags, removedReferrers) ← deleteRepoTagsTo index repo digest
  unlinkUnreferenced parse manifest.isSome digest
  pruneManifestMembership parse index repo digest
  return manifest.isSome || decide (0 < removedTags) || decide (0 < removedReferrers)

def deleteReply (removed : Bool) : Reply :=
  if removed then .accepted else errorResponse .manifestUnknown (str "manifest unknown")

def deleteManifestRequest (name : Str) (reference : Reference) :
    Prog Stores (Except Fault Reply) :=
  match resolveWritable identify realm indexes name .delete with
  | .error reply => return .ok reply
  | .ok (index, repo) =>
    match reference with
    | .tag tag => do
      let removed ← deleteTag index.name repo tag
      return .ok (deleteReply removed)
    | .digest digest => do
      let removed ← deleteManifestByDigest parse index.name repo digest
      return .ok (deleteReply removed)

end Writing
end Peryx.Oci
