import Peryx.Core.Serde
import Peryx.Core.Json
import Peryx.Replication.Replica

/-!
# Replication envelopes (peryx-replication/src/envelope.rs)

An envelope wraps one change with its schema version, its source, the authority's epoch and
a trace.
-/

namespace Peryx.Replication
open Storage Json Serde

structure Wire where
  toVec : Json → Bytes
  fromSlice : Bytes → Option Json
  encode : Bytes → Str
  decode : Str → Option Bytes

def minSchemaVersion : Nat := 1

def currentSchemaVersion : Nat := 1

inductive OperationKind where
  | upload
  | yank
  | delete
  | cacheFill
  | ociPush
  | ociDelete
  deriving Repr, DecidableEq

def OperationKind.asStr : OperationKind → Str
  | .upload => str "upload"
  | .yank => str "yank"
  | .delete => str "delete"
  | .cacheFill => str "cache-fill"
  | .ociPush => str "oci-push"
  | .ociDelete => str "oci-delete"

structure TraceContext where
  traceparent : Str
  tracestate : Option Str
  deriving Repr, DecidableEq

structure DecodeLimits where
  maxBytes : Nat
  maxDepth : Nat
  deriving Repr, DecidableEq

def defaultDecodeLimits : DecodeLimits := { maxBytes := 2 ^ 20, maxDepth := 32 }

inductive EnvelopeError where
  | tooLarge (limit actual : Nat)
  | tooDeep (limit : Nat)
  | malformed
  | unsupportedVersion (version min max : Nat)
  | emptySource
  | invalidTrace (traceparent : Str)
  deriving Repr, DecidableEq

structure OperationEnvelope where
  schemaVersion : Nat
  source : Str
  epoch : Nat
  kind : OperationKind
  trace : Option TraceContext
  change : Change
  deriving Repr, DecidableEq

section Derived
variable (wire : Wire)

def TraceContext.members (trace : TraceContext) : List (Str × Json) :=
  (str "traceparent", string trace.traceparent) ::
    skipNone (str "tracestate") string trace.tracestate

def TraceContext.toJson (trace : TraceContext) : Json := object trace.members

def mutationToJson : MetadataMutation → Json
  | .put key value => object [(str "operation", string (str "put")), (str "key", string key),
      (str "value", string (wire.encode value))]
  | .delete key => object [(str "operation", string (str "delete")), (str "key", string key)]

def blobToJson (blob : BlobReference) : Json :=
  object [(str "sha256", string blob.sha256), (str "size", number (Str.decimal blob.size))]

def Change.members (change : Change) : List (Str × Json) :=
  (str "serial", number (Str.decimal change.serial)) ::
    (str "event", string (wire.encode change.event)) ::
    (skipEmpty (str "metadata") (mutationToJson wire) change.metadata ++
      skipEmpty (str "blobs") blobToJson change.blobs)

def Change.toJson (change : Change) : Json := object (change.members wire)

def OperationEnvelope.members (envelope : OperationEnvelope) : List (Str × Json) :=
  (str "schema_version", number (Str.decimal envelope.schemaVersion)) ::
    (str "source", string envelope.source) ::
    (str "epoch", number (Str.decimal envelope.epoch)) ::
    (str "kind", string envelope.kind.asStr) ::
    (skipNone (str "trace") TraceContext.toJson envelope.trace ++
      [(str "change", envelope.change.toJson wire)])

def OperationEnvelope.toJson (envelope : OperationEnvelope) : Json := object (envelope.members wire)

def OperationKind.ofJson (json : Json) : Option OperationKind := do
  let name ← unitVariant json
  [upload, yank, delete, cacheFill, ociPush, ociDelete].find? fun kind => kind.asStr = name

def TraceContext.ofJson (json : Json) : Option TraceContext := do
  let field ← structFields [str "traceparent", str "tracestate"] json
  return {
    traceparent := ← (← field (str "traceparent")).asStr
    tracestate := ← optional asStr (field (str "tracestate")) }

def mutationOfJson (json : Json) : Option MetadataMutation := do
  let (operation, fields) ← tagged (str "operation") json
  if operation = str "put" then
    let field ← structFields [str "key", str "value"] fields
    return .put (← (← field (str "key")).asStr) (← wire.decode (← (← field (str "value")).asStr))
  else if operation = str "delete" then
    let field ← structFields [str "key"] fields
    return .delete (← (← field (str "key")).asStr)
  else none

def blobOfJson (json : Json) : Option BlobReference := do
  let field ← structFields [str "sha256", str "size"] json
  return { sha256 := ← (← field (str "sha256")).asStr, size := ← unsigned 64 (← field (str "size")) }

def Change.ofJson (json : Json) : Option Change := do
  let field ← structFields [str "serial", str "event", str "metadata", str "blobs"] json
  return {
    serial := ← unsigned 64 (← field (str "serial"))
    event := ← wire.decode (← (← field (str "event")).asStr)
    metadata := ← defaulted (mutationOfJson wire) (field (str "metadata"))
    blobs := ← defaulted blobOfJson (field (str "blobs")) }

def OperationEnvelope.ofJson (json : Json) : Option OperationEnvelope := do
  let field ← structFields [str "schema_version", str "source", str "epoch", str "kind",
    str "trace", str "change"] json
  return {
    schemaVersion := ← unsigned 16 (← field (str "schema_version"))
    source := ← (← field (str "source")).asStr
    epoch := ← unsigned 64 (← field (str "epoch"))
    kind := ← OperationKind.ofJson (← field (str "kind"))
    trace := ← optional TraceContext.ofJson (field (str "trace"))
    change := ← Change.ofJson wire (← field (str "change")) }

end Derived

structure DepthScan where
  depth : Nat
  inString : Bool
  escaped : Bool
  deriving Repr, DecidableEq

def DepthScan.step (max : Nat) (scan : DepthScan) (byte : UInt8) : Option DepthScan :=
  if scan.inString then
    if scan.escaped then some { scan with escaped := false }
    else if byte = 0x5C then some { scan with escaped := true }
    else if byte = 0x22 then some { scan with inString := false }
    else some scan
  else if byte = 0x22 then some { scan with inString := true }
  else if byte = 0x7B ∨ byte = 0x5B then
    if max < scan.depth + 1 then none else some { scan with depth := scan.depth + 1 }
  else if byte = 0x7D ∨ byte = 0x5D then some { scan with depth := scan.depth - 1 }
  else some scan

def exceedsDepth (bytes : Bytes) (max : Nat) : Bool :=
  (bytes.foldlM (DepthScan.step max) { depth := 0, inString := false, escaped := false }).isNone

def isAsciiHexdigit (byte : UInt8) : Bool :=
  (0x30 ≤ byte && byte ≤ 0x39) || (0x41 ≤ byte && byte ≤ 0x46) || (0x61 ≤ byte && byte ≤ 0x66)

def validTraceparent (value : Str) : Bool :=
  match Str.split 0x2D value with
  | [version, traceId, parentId, flags] =>
    version.length == 2 && traceId.length == 32 && parentId.length == 16 && flags.length == 2 &&
      [version, traceId, parentId, flags].all (fun field => field.all isAsciiHexdigit) &&
      traceId.any (fun byte => byte ≠ 0x30) && parentId.any (fun byte => byte ≠ 0x30)
  | _ => false

namespace OperationEnvelope

def validated (envelope : OperationEnvelope) : Except EnvelopeError OperationEnvelope :=
  if envelope.source.isEmpty then .error .emptySource
  else if ¬ (minSchemaVersion ≤ envelope.schemaVersion ∧
      envelope.schemaVersion ≤ currentSchemaVersion) then
    .error (.unsupportedVersion envelope.schemaVersion minSchemaVersion currentSchemaVersion)
  else
    match envelope.trace with
    | some trace =>
      if validTraceparent trace.traceparent then .ok envelope
      else .error (.invalidTrace trace.traceparent)
    | none => .ok envelope

variable (wire : Wire)

def encode (envelope : OperationEnvelope) : Bytes := wire.toVec (envelope.toJson wire)

/-- `serde_json::from_slice` at the envelope. -/
def parsed (bytes : Bytes) : Option OperationEnvelope := (wire.fromSlice bytes).bind (ofJson wire)

def decode (bytes : Bytes) (limits : DecodeLimits) : Except EnvelopeError OperationEnvelope :=
  if limits.maxBytes < bytes.length then .error (.tooLarge limits.maxBytes bytes.length)
  else if exceedsDepth bytes limits.maxDepth then .error (.tooDeep limits.maxDepth)
  else
    match parsed wire bytes with
    | none => .error .malformed
    | some envelope => envelope.validated

end OperationEnvelope
end Peryx.Replication

/-!
## The depth scan of an envelope

Over a JSON text the scan refuses exactly a nesting past its bound. Every production of the
grammar brings the scan back to the depth it started from, or stops it.
-/

namespace Peryx.Replication
open Json

def outside (depth : Nat) : DepthScan := ⟨depth, false, false⟩

def inside (depth : Nat) : DepthScan := ⟨depth, true, false⟩

def Passes (max depth : Nat) (text : Str) (n : Nat) : Prop :=
  text.foldlM (DepthScan.step max) (outside depth) =
    if depth + n ≤ max then some (outside depth) else none

variable (max depth : Nat)

theorem step_quote : DepthScan.step max (outside depth) 0x22 = some (inside depth) := rfl

theorem step_inside (byte : UInt8) (hquote : byte ≠ 0x22) (hslash : byte ≠ 0x5C) :
    DepthScan.step max (inside depth) byte = some (inside depth) := by
  simp [DepthScan.step, inside, hquote, hslash]

theorem foldlM_escaped (byte : UInt8) (rest : Str) :
    (0x5C :: byte :: rest).foldlM (DepthScan.step max) (inside depth) =
      rest.foldlM (DepthScan.step max) (inside depth) := rfl

theorem foldlM_inside (byte : UInt8) (rest : Str) (hquote : byte ≠ 0x22) (hslash : byte ≠ 0x5C) :
    (byte :: rest).foldlM (DepthScan.step max) (inside depth) =
      rest.foldlM (DepthScan.step max) (inside depth) := by
  rw [List.foldlM_cons, step_inside max depth byte hquote hslash]
  rfl

theorem isHexDigit_inside (byte : UInt8) (h : isHexDigit byte = true) :
    byte ≠ 0x22 ∧ byte ≠ 0x5C := by
  constructor
  · rintro rfl
    cases h
  · rintro rfl
    cases h

theorem foldlM_body (body : Str) (h : StringBody body) :
    body.foldlM (DepthScan.step max) (inside depth) = some (inside depth) := by
  induction h with
  | nil => rfl
  | plain byte rest _ hquote hslash _ ih => rw [foldlM_inside max depth byte rest hquote hslash, ih]
  | escape letter rest _ _ ih => rw [foldlM_escaped, ih]
  | unicode a b c d rest hhex _ ih =>
    have hstep : ∀ byte ∈ [a, b, c, d], ∀ rest, (byte :: rest).foldlM (DepthScan.step max)
        (inside depth) = rest.foldlM (DepthScan.step max) (inside depth) := by
      intro byte hbyte rest
      have hne := isHexDigit_inside byte (hhex byte hbyte)
      exact foldlM_inside max depth byte rest hne.1 hne.2
    simp only [List.forall_mem_cons] at hstep
    obtain ⟨ha, hb, hc, hd, -⟩ := hstep
    rw [foldlM_escaped, ha, hb, hc, hd, ih]

variable {max depth}

theorem Passes.quote (body : Str) (h : StringBody body) (hdepth : depth ≤ max) :
    Passes max depth (quote body) 0 := by
  unfold Passes Json.quote
  rw [List.foldlM_cons, step_quote, Option.bind_eq_bind, Option.bind_some, List.foldlM_append,
    foldlM_body max depth body h, Nat.add_zero, if_pos hdepth]
  rfl

theorem step_plain (byte : UInt8) (h : isPlain byte = true) :
    DepthScan.step max (outside depth) byte = some (outside depth) := by
  simp only [isPlain, Bool.and_eq_true, bne_iff_ne] at h
  obtain ⟨⟨⟨⟨hquote, hbracket⟩, hbracket'⟩, hbrace⟩, hbrace'⟩ := h
  simp [DepthScan.step, outside, hquote, hbracket, hbracket', hbrace, hbrace']

theorem Passes.plain {text : Str} (h : Plain text) (hdepth : depth ≤ max) :
    Passes max depth text 0 := by
  unfold Passes
  rw [Nat.add_zero, if_pos hdepth]
  induction text with
  | nil => rfl
  | cons byte text ih =>
    rw [List.foldlM_cons, step_plain byte (h byte List.mem_cons_self)]
    exact ih fun b hb => h b (List.mem_cons_of_mem _ hb)

theorem Passes.append {a b : Str} {n m : Nat} (ha : Passes max depth a n)
    (hb : Passes max depth b m) : Passes max depth (a ++ b) (Nat.max n m) := by
  unfold Passes at ha hb ⊢
  rw [List.foldlM_append, ha]
  by_cases hn : depth + n ≤ max
  · rw [if_pos hn, Option.bind_eq_bind, Option.bind_some, hb]
    have hiff : depth + m ≤ max ↔ depth + Nat.max n m ≤ max := by
      have hmax : Nat.max n m = n ∨ Nat.max n m = m := by
        exact max_choice n m
      have hle : m ≤ Nat.max n m := Nat.le_max_right n m
      omega
    simp only [hiff]
  · have hle : n ≤ Nat.max n m := Nat.le_max_left n m
    rw [if_neg hn, if_neg (by omega)]
    rfl

theorem step_open (bracket : UInt8) (h : bracket = 0x7B ∨ bracket = 0x5B) (hdepth : depth + 1 ≤ max) :
    DepthScan.step max (outside depth) bracket = some (outside (depth + 1)) := by
  unfold DepthScan.step
  rcases h with rfl | rfl
  · exact if_neg (Nat.not_lt.mpr hdepth)
  · exact if_neg (Nat.not_lt.mpr hdepth)

theorem step_close (bracket : UInt8) (h : bracket = 0x7D ∨ bracket = 0x5D) :
    DepthScan.step max (outside (depth + 1)) bracket = some (outside depth) := by
  rcases h with rfl | rfl
  · rfl
  · rfl

theorem step_refused (bracket : UInt8) (h : bracket = 0x7B ∨ bracket = 0x5B)
    (hdepth : max < depth + 1) : DepthScan.step max (outside depth) bracket = none := by
  unfold DepthScan.step
  rcases h with rfl | rfl
  · exact if_pos hdepth
  · exact if_pos hdepth

theorem Passes.group (opening closing : UInt8) (inner : Str) (n : Nat)
    (hopen : opening = 0x7B ∨ opening = 0x5B) (hclose : closing = 0x7D ∨ closing = 0x5D)
    (h : depth + 1 ≤ max → Passes max (depth + 1) inner n) :
    Passes max depth (opening :: (inner ++ [closing])) (n + 1) := by
  unfold Passes at h ⊢
  rw [List.foldlM_cons]
  by_cases hdepth : depth + 1 ≤ max
  · rw [step_open opening hopen hdepth, Option.bind_eq_bind, Option.bind_some, List.foldlM_append,
      h hdepth]
    by_cases hn : depth + 1 + n ≤ max
    · rw [if_pos hn, if_pos (by omega), Option.bind_eq_bind, Option.bind_some, List.foldlM_cons,
        step_close closing hclose]
      rfl
    · rw [if_neg hn, if_neg (by omega)]
      rfl
  · rw [step_refused opening hopen (by omega), if_neg (by omega)]
    rfl

theorem passes {part : Part} {text : Str} {n : Nat} (h : Text part text n) :
    ∀ depth, depth ≤ max → Passes max depth text n := by
  have hcomma : Plain [0x2C] := Str.forall_of_all (by decide)
  have hcolon : Plain [0x3A] := Str.forall_of_all (by decide)
  have hnames : ∀ name ∈ [str "null", str "true", str "false"], Plain name := by
    simp only [List.forall_mem_cons]
    exact ⟨Str.forall_of_all (by decide), Str.forall_of_all (by decide),
      Str.forall_of_all (by decide), fun _ h => absurd h List.not_mem_nil⟩
  induction h with
  | null => exact fun _ => .plain (hnames _ (by decide))
  | true => exact fun _ => .plain (hnames _ (by decide))
  | false => exact fun _ => .plain (hnames _ (by decide))
  | number text h => exact fun _ => .plain h.plain
  | string body h => exact fun _ => .quote body h
  | emptyArray space h =>
    exact fun _ _ => .group 0x5B 0x5D space 0 (.inr rfl) (.inr rfl) fun hle => .plain h.plain hle
  | array inner n _ ih =>
    exact fun _ _ => .group 0x5B 0x5D inner n (.inr rfl) (.inr rfl) (ih _)
  | emptyObject space h =>
    exact fun _ _ => .group 0x7B 0x7D space 0 (.inl rfl) (.inl rfl) fun hle => .plain h.plain hle
  | object inner n _ ih =>
    exact fun _ _ => .group 0x7B 0x7D inner n (.inl rfl) (.inl rfl) (ih _)
  | element before text after n hbefore hafter _ ih =>
    intro depth hdepth
    have hpass := Passes.append (.plain hbefore.plain hdepth)
      ((ih depth hdepth).append (.plain hafter.plain hdepth))
    simpa using hpass
  | lastElement text n _ ih => exact ih
  | elements text rest n m _ _ ih ihrest =>
    intro depth hdepth
    have hpass := (ih depth hdepth).append
      (Passes.append (.plain hcomma hdepth) (ihrest depth hdepth))
    simpa using hpass
  | member before key mid text n hbefore hkey hmid _ ih =>
    intro depth hdepth
    have hvalue := Passes.append (.plain hcolon hdepth) (ih depth hdepth)
    have hpass := Passes.append (.plain hbefore.plain hdepth)
      (Passes.append (.quote key hkey hdepth) (Passes.append (.plain hmid.plain hdepth) hvalue))
    simpa using hpass
  | lastMember text n _ ih => exact ih
  | members text rest n m _ _ ih ihrest =>
    intro depth hdepth
    have hpass := (ih depth hdepth).append
      (Passes.append (.plain hcomma hdepth) (ihrest depth hdepth))
    simpa using hpass

theorem exceedsDepth_iff {text : Str} {n : Nat} (h : IsText text n) (max : Nat) :
    exceedsDepth text max = true ↔ max < n := by
  have hpass : Passes max 0 text n := passes h 0 (Nat.zero_le max)
  have hscan : text.foldlM (DepthScan.step max) ⟨0, false, false⟩ =
      if 0 + n ≤ max then some (outside 0) else none := hpass
  unfold exceedsDepth
  rw [hscan, Nat.zero_add]
  by_cases hn : n ≤ max
  · rw [if_pos hn]
    exact ⟨fun h => absurd h Bool.false_ne_true, fun h => absurd hn (Nat.not_le.mpr h)⟩
  · rw [if_neg hn]
    exact ⟨fun _ => Nat.not_le.mp hn, fun _ => rfl⟩

end Peryx.Replication
