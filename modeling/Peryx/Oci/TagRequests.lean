import Peryx.Library.Serving
import Peryx.Oci.PushMembership

/-!
# Where a manifest request stands

A request on a hosted index is at one of a few points of its program, each before a
transaction.
-/

namespace Peryx.Oci
open Storage Acl

abbrev Answer := Except Fault Reply

structure Target where
  index : Str
  repo : Str
  digest : Str
  deriving Repr, DecidableEq

inductive Request where
  | checking (push : Push) (write : Stores → Stores) (next : Stores → Prog Stores (Option Reply))
  | recording (push : Push)
  | linking (push : Push) (write : Stores → Stores) (next : Stores → Prog Stores Unit)
  | tagging (push : Push) (tag : Str)
  | finding (target : Target)
  | untagging (target : Target) (present : Bool)
  /-- A delete among the reads of `referenced_manifest_digests`. -/
  | scanning (target : Target) (removed : Bool) (write : Stores → Stores)
    (next : Stores → Prog Stores (List Str))
  | unlinking (target : Target) (removed : Bool)
  | closing (write : Stores → Stores) (next : Stores → Prog Stores Answer)
  | removing (index repo tag : Str)
  | finished (answer : Answer)

section Requests
variable (parse : Bytes → Option Json) (render : Json → Bytes)

def referProg (push : Push) : Prog Stores Answer := do
  let subject ← recordReferrer parse render push
  return .ok (manifestCreated push subject)

def tagProg (push : Push) : Prog Stores Answer := do
  tagPush push
  referProg parse render push

def linkManifest (push : Push) : Prog Stores Unit := do
  recordMembership push.index push.repo push.canonical
  let (children, blobs) := manifestDescriptors parse push.manifest.bytes
  children.forM fun child => recordMembership push.index push.repo child
  blobs.forM fun blob => recordBlobMembership push.index push.repo blob

def recordProg (push : Push) : Prog Stores Answer := do
  putManifest push.canonical push.manifest
  linkManifest parse push
  tagProg parse render push

def checkedProg (push : Push) : Option Reply → Prog Stores Answer
  | some reply => return .ok reply
  | none => recordProg parse render push

def pruneProg (target : Target) (removed : Bool) : Prog Stores Answer := do
  pruneManifestMembership parse target.index target.repo target.digest
  return .ok (deleteReply removed)

def scannedProg (target : Target) (removed : Bool) (found : List Str) : Prog Stores Answer := do
  unlinkUnless target.digest found
  pruneProg parse target removed

def untaggedProg (target : Target) (present removed : Bool) : Prog Stores Answer :=
  if present then do
    let found ← referencedManifestDigests parse
    scannedProg parse target removed found
  else pruneProg parse target removed

def removedAny (present : Bool) (removed : Nat × Nat) : Bool :=
  present || decide (0 < removed.1) || decide (0 < removed.2)

def untagProg (target : Target) (present : Bool) : Prog Stores Answer := do
  let removed ← deleteRepoTagsTo target.index target.repo target.digest
  untaggedProg parse target present (removedAny present removed)

def findProg (target : Target) : Prog Stores Answer := do
  let manifest ← getManifest target.digest
  untagProg parse target manifest.isSome

def removeProg (index repo tag : Str) : Prog Stores Answer := do
  let removed ← deleteTag index repo tag
  return .ok (deleteReply removed)

def Request.prog : Request → Prog Stores Answer
  | checking push write next => .step write next >>= checkedProg parse render push
  | recording push => recordProg parse render push
  | linking push write next => .step write next >>= fun _ => tagProg parse render push
  | tagging push tag => do
    let _ ← putTag push.index push.repo tag push.canonical
    referProg parse render push
  | finding target => findProg parse target
  | untagging target present => untagProg parse target present
  | scanning target removed write next => .step write next >>= scannedProg parse target removed
  | unlinking target removed => do
    let _ ← deleteManifest target.digest
    pruneProg parse target removed
  | closing write next => .step write next
  | removing index repo tag => removeProg index repo tag
  | finished answer => return answer

def Request.close : Prog Stores Answer → Request
  | .done answer => finished answer
  | .step write next => closing write next

def Request.tag (push : Push) : Request :=
  match push.reference with
  | .tag tag => tagging push tag
  | .digest _ => close (referProg parse render push)

def Request.link (push : Push) : Prog Stores Unit → Request
  | .done _ => tag parse render push
  | .step write next => linking push write next

def Request.check (push : Push) : Prog Stores (Option Reply) → Request
  | .done (some reply) => finished (.ok reply)
  | .done none => recording push
  | .step write next => checking push write next

def Request.scan (target : Target) (removed : Bool) : Prog Stores (List Str) → Request
  | .done found =>
    if target.digest ∈ found then close (pruneProg parse target removed) else unlinking target removed
  | .step write next => scanning target removed write next

def Request.untagged (target : Target) (present removed : Bool) : Request :=
  if present then scan parse target removed (referencedManifestDigests parse)
  else close (pruneProg parse target removed)

def Request.act : Request → Stores → Option (Stores × Request)
  | checking push write next, s => some (write s, check push (next s))
  | recording push, s =>
    some (s.putRow (manifestKey push.canonical) push.manifest.encode,
      link parse render push (linkManifest parse push))
  | linking push write next, s => some (write s, link parse render push (next s))
  | tagging push name, s =>
    some (((putTag push.index push.repo name push.canonical).run s).2,
      close (referProg parse render push))
  | finding target, s => some (s, untagging target (manifestAt s.rows target.digest).isSome)
  | untagging target present, s =>
    let (removed, t) := (deleteRepoTagsTo target.index target.repo target.digest).run s
    some (t, untagged parse target present (removedAny present removed))
  | scanning target removed write next, s => some (write s, scan parse target removed (next s))
  | unlinking target removed, s =>
    some (s.eraseRow (manifestKey target.digest), close (pruneProg parse target removed))
  | closing write next, s => some (write s, close (next s))
  | removing index repo name, s =>
    let (removed, t) := (deleteTag index repo name).run s
    some (t, finished (.ok (deleteReply removed)))
  | finished _, _ => none

theorem prog_close (p : Prog Stores Answer) : (Request.close p).prog parse render = p := by
  cases p with
  | done answer => rfl
  | step write next => rfl

theorem prog_tag (push : Push) :
    (Request.tag parse render push).prog parse render = tagProg parse render push := by
  unfold Request.tag tagProg tagPush
  cases push.reference with
  | tag tag => rfl
  | digest digest => exact prog_close parse render _

theorem prog_link (push : Push) (p : Prog Stores Unit) :
    (Request.link parse render push p).prog parse render = p >>= fun _ => tagProg parse render push := by
  cases p with
  | done _ => exact prog_tag parse render push
  | step write next => rfl

theorem prog_check (push : Push) (p : Prog Stores (Option Reply)) :
    (Request.check push p).prog parse render = p >>= checkedProg parse render push := by
  cases p with
  | done missing =>
    cases missing with
    | none => rfl
    | some reply => rfl
  | step write next => rfl

theorem prog_scan (target : Target) (removed : Bool) (p : Prog Stores (List Str)) :
    (Request.scan parse target removed p).prog parse render =
      p >>= scannedProg parse target removed := by
  cases p with
  | done found =>
    show (Request.scan parse target removed (.done found)).prog parse render =
      scannedProg parse target removed found
    show (if target.digest ∈ found then Request.close (pruneProg parse target removed)
      else Request.unlinking target removed).prog parse render = _
    unfold scannedProg unlinkUnless
    by_cases hfound : target.digest ∈ found
    · rw [if_pos hfound, if_pos hfound]
      exact prog_close parse render _
    · rw [if_neg hfound, if_neg hfound]
      rfl
  | step write next => rfl

theorem prog_untagged (target : Target) (present removed : Bool) :
    (Request.untagged parse target present removed).prog parse render =
      untaggedProg parse target present removed := by
  unfold Request.untagged untaggedProg
  split
  · exact prog_scan parse render target removed _
  · exact prog_close parse render _

theorem act_prog (r r' : Request) (s t : Stores) (h : r.act parse render s = some (t, r')) :
    ∃ write next, r.prog parse render = .step write next ∧ t = write s ∧
      r'.prog parse render = next s := by
  cases r with
  | checking push write next =>
    cases h
    exact ⟨_, _, rfl, rfl, prog_check parse render push (next s)⟩
  | recording push =>
    cases h
    exact ⟨_, _, rfl, rfl, prog_link parse render push _⟩
  | linking push write next =>
    cases h
    exact ⟨_, _, rfl, rfl, prog_link parse render push (next s)⟩
  | tagging push tag =>
    cases h
    exact ⟨_, _, rfl, rfl, prog_close parse render _⟩
  | finding target =>
    cases h
    exact ⟨_, _, rfl, rfl, rfl⟩
  | untagging target present =>
    cases h
    exact ⟨_, _, rfl, rfl, prog_untagged parse render target present _⟩
  | scanning target removed write next =>
    cases h
    exact ⟨_, _, rfl, rfl, prog_scan parse render target removed (next s)⟩
  | unlinking target removed =>
    cases h
    exact ⟨_, _, rfl, rfl, prog_close parse render _⟩
  | closing write next =>
    cases h
    exact ⟨_, _, rfl, rfl, prog_close parse render (next s)⟩
  | removing index repo tag =>
    cases h
    exact ⟨_, _, rfl, rfl, rfl⟩
  | finished answer => cases h

theorem act_none (r : Request) (s : Stores) (h : r.act parse render s = none) :
    ∃ answer, r.prog parse render = .done answer := by
  cases r with
  | finished answer => exact ⟨answer, rfl⟩
  | _ => cases h

variable (identify : IndexAcl → PresentedIdentity) (realm : Bool) (indexes : Indexes)
  (sha256 : Bytes → Str)

def Request.ofPush (name : Str) (reference : Reference) (upload : Upload) : Request :=
  match readPush identify realm indexes sha256 name reference upload with
  | .error answer => finished answer
  | .ok push =>
    check push (missingManifestReference parse push.index push.repo push.manifest.bytes)

def Request.ofDelete (name : Str) (reference : Reference) : Request :=
  match resolveWritable identify realm indexes name .delete with
  | .error reply => finished (.ok reply)
  | .ok (index, repo) =>
    match reference with
    | .tag tag => removing index.name repo tag
    | .digest digest => finding ⟨index.name, repo, digest⟩

theorem recordProg_eq (push : Push) :
    recordProg parse render push = recordPush parse render push >>= fun reply => pure (.ok reply) := by
  unfold recordPush recordManifest recordProg linkManifest tagProg referProg
  simp only [Prog.bind_assoc', Prog.pure_bind']

theorem findProg_eq (target : Target) :
    findProg parse target = deleteManifestByDigest parse target.index target.repo target.digest >>=
      fun removed => pure (.ok (deleteReply removed)) := by
  unfold deleteManifestByDigest findProg untagProg untaggedProg unlinkUnreferenced scannedProg
    pruneProg
  simp only [Prog.bind_assoc', Prog.pure_bind']
  congr 1
  funext manifest
  congr 1
  funext removed
  cases manifest.isSome with
  | true =>
    simp only [if_true, Prog.bind_assoc']
    rfl
  | false => rfl

theorem ofPush_prog (name : Str) (reference : Reference) (upload : Upload) :
    (Request.ofPush parse identify realm indexes sha256 name reference upload).prog parse render =
      putManifestRequest identify realm indexes sha256 parse render name reference upload := by
  unfold Request.ofPush putManifestRequest
  cases readPush identify realm indexes sha256 name reference upload with
  | error answer => rfl
  | ok push =>
    show (Request.check push _).prog parse render =
      storePush parse render push >>= fun reply => pure (.ok reply)
    unfold storePush
    rw [prog_check, Prog.bind_assoc']
    congr 1
    funext missing
    cases missing with
    | some reply => rfl
    | none => exact recordProg_eq parse render push

theorem ofDelete_prog (name : Str) (reference : Reference) :
    (Request.ofDelete identify realm indexes name reference).prog parse render =
      deleteManifestRequest identify realm indexes parse name reference := by
  unfold Request.ofDelete deleteManifestRequest
  cases resolveWritable identify realm indexes name .delete with
  | error reply => rfl
  | ok found =>
    obtain ⟨index, repo⟩ := found
    cases reference with
    | tag tag => rfl
    | digest digest => exact findProg_eq parse ⟨index.name, repo, digest⟩

end Requests
end Peryx.Oci
