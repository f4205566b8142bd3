import Peryx.Core.Base64
import Peryx.Core.JsonReader
import Peryx.Replication.Envelope

/-! # The envelope codec -/

namespace Peryx.Replication
open Storage Json Serde

def IsHex (length : Nat) (field : Str) : Prop :=
  field.length = length ∧ ∀ byte ∈ field, isAsciiHexdigit byte = true

def IsTraceparent (value : Str) : Prop :=
  ∃ version traceId parentId flags, value = [0x2D].intercalate [version, traceId, parentId, flags] ∧
    IsHex 2 version ∧ IsHex 32 traceId ∧ IsHex 16 parentId ∧ IsHex 2 flags ∧
    (∃ byte ∈ traceId, byte ≠ 0x30) ∧ ∃ byte ∈ parentId, byte ≠ 0x30

theorem dash_not_mem_hex (length : Nat) (field : Str) (h : IsHex length field) : 0x2D ∉ field := by
  intro hdash
  have hhex := h.2 0x2D hdash
  cases hhex

theorem split_fields (version traceId parentId flags : Str) (hversion : IsHex 2 version)
    (htrace : IsHex 32 traceId) (hparent : IsHex 16 parentId) (hflags : IsHex 2 flags) :
    Str.split 0x2D ([0x2D].intercalate [version, traceId, parentId, flags]) =
      [version, traceId, parentId, flags] := by
  refine List.splitOn_intercalate 0x2D ?_ (List.cons_ne_nil _ _)
  simp only [List.forall_mem_cons]
  exact ⟨dash_not_mem_hex 2 version hversion, dash_not_mem_hex 32 traceId htrace,
    dash_not_mem_hex 16 parentId hparent, dash_not_mem_hex 2 flags hflags,
    fun _ h => absurd h List.not_mem_nil⟩

theorem validTraceparent_iff (value : Str) : validTraceparent value = true ↔ IsTraceparent value := by
  have hfields : ∀ version traceId parentId flags : Str,
      (version.length == 2 && traceId.length == 32 && parentId.length == 16 && flags.length == 2 &&
        [version, traceId, parentId, flags].all (fun field => field.all isAsciiHexdigit) &&
        traceId.any (fun byte => byte ≠ 0x30) && parentId.any (fun byte => byte ≠ 0x30)) = true ↔
      IsHex 2 version ∧ IsHex 32 traceId ∧ IsHex 16 parentId ∧ IsHex 2 flags ∧
        (∃ byte ∈ traceId, byte ≠ 0x30) ∧ ∃ byte ∈ parentId, byte ≠ 0x30 := by
    intro version traceId parentId flags
    simp only [IsHex, Bool.and_eq_true, beq_iff_eq, List.all_cons, List.all_nil, List.all_eq_true,
      List.any_eq_true, decide_eq_true_eq, and_true]
    tauto
  constructor
  · intro h
    unfold validTraceparent at h
    split at h
    · rename_i version traceId parentId flags hsplit
      refine ⟨version, traceId, parentId, flags, ?_, (hfields _ _ _ _).mp h⟩
      rw [← hsplit]
      exact (List.intercalate_splitOn 0x2D).symm
    · cases h
  · rintro ⟨version, traceId, parentId, flags, rfl, hvalid⟩
    unfold validTraceparent
    rw [split_fields version traceId parentId flags hvalid.1 hvalid.2.1 hvalid.2.2.1
      hvalid.2.2.2.1]
    exact (hfields _ _ _ _).mpr hvalid

namespace OperationEnvelope

structure Typed (envelope : OperationEnvelope) : Prop where
  schemaVersion : envelope.schemaVersion < 2 ^ 16
  source : Str.IsUtf8 envelope.source
  epoch : envelope.epoch < 2 ^ 64
  traceparent : ∀ trace ∈ envelope.trace, Str.IsUtf8 trace.traceparent
  tracestate : ∀ trace ∈ envelope.trace, ∀ state ∈ trace.tracestate, Str.IsUtf8 state
  serial : envelope.change.serial < 2 ^ 64
  metadata : ∀ mutation ∈ envelope.change.metadata, Str.IsUtf8 mutation.key
  sha256 : ∀ blob ∈ envelope.change.blobs, Str.IsUtf8 blob.sha256
  size : ∀ blob ∈ envelope.change.blobs, blob.size < 2 ^ 64

structure Valid (envelope : OperationEnvelope) : Prop where
  version : envelope.schemaVersion = currentSchemaVersion
  source : envelope.source ≠ []
  trace : ∀ trace ∈ envelope.trace, IsTraceparent trace.traceparent

theorem validated_ok (envelope decoded : OperationEnvelope) :
    envelope.validated = .ok decoded ↔ envelope.Valid ∧ envelope = decoded := by
  have hversion : minSchemaVersion ≤ envelope.schemaVersion ∧
      envelope.schemaVersion ≤ currentSchemaVersion ↔
        envelope.schemaVersion = currentSchemaVersion := by
    unfold minSchemaVersion currentSchemaVersion
    omega
  have hsource : envelope.source.isEmpty = true ↔ envelope.source = [] := List.isEmpty_iff
  unfold validated
  constructor
  · intro h
    split at h
    · cases h
    rename_i hempty
    split at h
    · cases h
    rename_i hsupported
    have hcurrent := hversion.mp (not_not.mp hsupported)
    have hnamed := fun heq => hempty (hsource.mpr heq)
    split at h
    · rename_i trace htrace
      split at h
      · rename_i hparent
        refine ⟨⟨hcurrent, hnamed, fun t ht => ?_⟩, Except.ok.inj h⟩
        rw [htrace, Option.mem_some_iff] at ht
        rw [← ht]
        exact (validTraceparent_iff _).mp hparent
      · cases h
    · rename_i htrace
      refine ⟨⟨hcurrent, hnamed, fun t ht => ?_⟩, Except.ok.inj h⟩
      rw [htrace] at ht
      cases ht
  · rintro ⟨hvalid, rfl⟩
    rw [if_neg fun hempty => hvalid.source (hsource.mp hempty),
      if_neg (not_not.mpr (hversion.mpr hvalid.version))]
    split
    · rename_i trace htrace
      exact if_pos ((validTraceparent_iff _).mpr (hvalid.trace trace htrace))
    · rfl

end OperationEnvelope

/-- What `serde_json` and base64 do with values of strings and unsigned integers. -/
structure Wire.Documented (wire : Wire) : Prop where
  text : ∀ value, value.Sound → IsText (wire.toVec value) value.nesting
  -- Reading stops at a hundred and twenty-eight brackets.
  read : ∀ value, value.Sound → value.nesting < 128 →
    wire.fromSlice (wire.toVec value) = some value
  decode : ∀ bytes, wire.decode (wire.encode bytes) = some bytes
  ascii : ∀ bytes, ∀ byte ∈ wire.encode bytes, byte < 0x80

theorem OperationKind.ofJson_asStr (kind : OperationKind) :
    OperationKind.ofJson (string kind.asStr) = some kind := by
  cases kind with
  | upload => rfl
  | yank => rfl
  | delete => rfl
  | cacheFill => rfl
  | ociPush => rfl
  | ociDelete => rfl

theorem TraceContext.keys (trace : TraceContext) :
    (trace.members.map (·.1)).Sublist [str "traceparent", str "tracestate"] :=
  (keys_skipNone (str "tracestate") string trace.tracestate).cons_cons _

theorem TraceContext.ofJson_toJson (trace : TraceContext) :
    TraceContext.ofJson trace.toJson = some trace := by
  have hparent : lookup trace.members (str "traceparent") = some (string trace.traceparent) := rfl
  have hstate : lookup trace.members (str "tracestate") = trace.tracestate.map string := by
    have hskip := lookup_skipNone (str "tracestate") (str "tracestate") string trace.tracestate []
    rw [List.append_nil, if_pos rfl, lookup_nil, Option.or_none] at hskip
    unfold members
    rw [lookup_cons, if_neg (by decide), hskip]
  have hread := optional_map asStr string trace.tracestate fun state _ => ⟨Json.noConfusion, rfl⟩
  unfold TraceContext.ofJson TraceContext.toJson
  rw [structFields_object _ _ _ trace.keys (by decide), Option.bind_eq_bind, Option.bind_some,
    hparent, hstate, hread]
  rfl

theorem blobOfJson_toJson (blob : BlobReference) (h : blob.size < 2 ^ 64) :
    blobOfJson (blobToJson blob) = some blob := by
  have hsize := unsigned_decimal 64 blob.size (Nat.le_refl _) h
  unfold blobOfJson blobToJson
  rw [structFields_object _ [str "sha256", str "size"] _ (List.Sublist.refl _) (by decide)]
  simp only [Option.bind_eq_bind, Option.bind_some, lookup_cons, lookup_nil, str_inj,
    String.reduceEq, if_true, if_false, asStr, hsize, Option.pure_def]

theorem Change.keys (wire : Wire) (change : Change) : ((change.members wire).map (·.1)).Sublist
    [str "serial", str "event", str "metadata", str "blobs"] := by
  have hmetadata := keys_skipEmpty (str "metadata") (mutationToJson wire) change.metadata
  have hblobs := keys_skipEmpty (str "blobs") blobToJson change.blobs
  unfold members
  rw [List.map_cons, List.map_cons, List.map_append]
  exact ((hmetadata.append hblobs).cons_cons _).cons_cons _

theorem OperationEnvelope.keys (wire : Wire) (envelope : OperationEnvelope) :
    ((envelope.members wire).map (·.1)).Sublist [str "schema_version", str "source", str "epoch",
      str "kind", str "trace", str "change"] := by
  have htrace := keys_skipNone (str "trace") TraceContext.toJson envelope.trace
  unfold members
  rw [List.map_cons, List.map_cons, List.map_cons, List.map_cons, List.map_append]
  exact (((((htrace.append (List.Sublist.refl _)).cons_cons _).cons_cons _).cons_cons _).cons_cons _)

section Wired
variable {wire : Wire} (hwire : wire.Documented)
include hwire

theorem mutationOfJson_toJson (mutation : MetadataMutation) :
    mutationOfJson wire (mutationToJson wire mutation) = some mutation := by
  cases mutation with
  | put key value =>
    unfold mutationOfJson mutationToJson
    have htag : tagged (str "operation") (object [(str "operation", string (str "put")),
        (str "key", string key), (str "value", string (wire.encode value))]) =
        some (str "put", object [(str "key", string key),
          (str "value", string (wire.encode value))]) := rfl
    rw [htag]
    simp only [Option.bind_eq_bind, Option.bind_some, if_true]
    rw [structFields_object _ [str "key", str "value"] _ (List.Sublist.refl _) (by decide)]
    simp only [Option.bind_some, lookup_cons, lookup_nil, str_inj, String.reduceEq, if_true,
      if_false, asStr, hwire.decode, Option.pure_def]
  | delete key =>
    unfold mutationOfJson mutationToJson
    have htag : tagged (str "operation") (object [(str "operation", string (str "delete")),
        (str "key", string key)]) = some (str "delete", object [(str "key", string key)]) := rfl
    rw [htag]
    simp only [Option.bind_eq_bind, Option.bind_some, str_inj, String.reduceEq, if_true, if_false]
    rw [structFields_object _ [str "key"] _ (List.Sublist.refl _) (by decide)]
    simp only [Option.bind_some, lookup_cons, lookup_nil, if_true, asStr, Option.pure_def]

theorem Change.ofJson_toJson (change : Change) (hserial : change.serial < 2 ^ 64)
    (hsize : ∀ blob ∈ change.blobs, blob.size < 2 ^ 64) :
    Change.ofJson wire (change.toJson wire) = some change := by
  have hfields : ∀ name, lookup (change.members wire) name =
      if str "serial" = name then some (number (Str.decimal change.serial))
      else if str "event" = name then some (string (wire.encode change.event))
      else lookup (skipEmpty (str "metadata") (mutationToJson wire) change.metadata ++
        skipEmpty (str "blobs") blobToJson change.blobs) name := by
    intro name
    unfold members
    rw [lookup_cons, lookup_cons]
  have hmetadata : lookup (change.members wire) (str "metadata") =
      if change.metadata ≠ [] then some (array (change.metadata.map (mutationToJson wire)))
      else none := by
    have hother := lookup_skipEmpty (str "blobs") (str "metadata") blobToJson change.blobs []
    rw [List.append_nil, if_neg (by exact fun h => absurd h.1 (by decide)), lookup_nil] at hother
    rw [hfields, lookup_skipEmpty, hother]
    simp only [str_inj, String.reduceEq, if_false, true_and]
  have hblobs : lookup (change.members wire) (str "blobs") =
      if change.blobs ≠ [] then some (array (change.blobs.map blobToJson)) else none := by
    have hself := lookup_skipEmpty (str "blobs") (str "blobs") blobToJson change.blobs []
    rw [List.append_nil, lookup_nil] at hself
    rw [hfields, lookup_skipEmpty, hself]
    simp only [str_inj, String.reduceEq, if_false, true_and, false_and]
  have hread := unsigned_decimal 64 change.serial (Nat.le_refl _) hserial
  unfold Change.ofJson Change.toJson
  rw [structFields_object _ _ _ (change.keys wire) (by decide)]
  simp only [Option.bind_eq_bind, Option.bind_some, hmetadata, hblobs]
  rw [defaulted_map _ _ _ fun mutation _ => mutationOfJson_toJson hwire mutation,
    defaulted_map _ _ _ fun blob hblob => blobOfJson_toJson blob (hsize blob hblob)]
  simp only [hfields, str_inj, String.reduceEq, if_true, if_false, Option.bind_some, hread, asStr,
    hwire.decode, Option.pure_def]

theorem OperationEnvelope.ofJson_toJson (envelope : OperationEnvelope) (h : envelope.Typed) :
    OperationEnvelope.ofJson wire (envelope.toJson wire) = some envelope := by
  have hfields : ∀ name, lookup (envelope.members wire) name =
      if str "schema_version" = name then some (number (Str.decimal envelope.schemaVersion))
      else if str "source" = name then some (string envelope.source)
      else if str "epoch" = name then some (number (Str.decimal envelope.epoch))
      else if str "kind" = name then some (string envelope.kind.asStr)
      else lookup (skipNone (str "trace") TraceContext.toJson envelope.trace ++
        [(str "change", envelope.change.toJson wire)]) name := by
    intro name
    unfold members
    rw [lookup_cons, lookup_cons, lookup_cons, lookup_cons]
  have htrace : lookup (envelope.members wire) (str "trace") =
      envelope.trace.map TraceContext.toJson := by
    rw [hfields, lookup_skipNone]
    simp only [lookup_cons, lookup_nil, str_inj, String.reduceEq, if_true, if_false, Option.or_none]
  have hchange : lookup (envelope.members wire) (str "change") =
      some (envelope.change.toJson wire) := by
    rw [hfields, lookup_skipNone]
    simp only [lookup_cons, str_inj, String.reduceEq, if_true, if_false]
  have hversion := unsigned_decimal 16 envelope.schemaVersion (by decide) h.schemaVersion
  have hepoch := unsigned_decimal 64 envelope.epoch (Nat.le_refl _) h.epoch
  have hreads := Change.ofJson_toJson hwire envelope.change h.serial h.size
  unfold OperationEnvelope.ofJson OperationEnvelope.toJson
  rw [structFields_object _ _ _ (envelope.keys wire) (by decide)]
  simp only [Option.bind_eq_bind, Option.bind_some, htrace, hchange]
  rw [optional_map TraceContext.ofJson TraceContext.toJson envelope.trace
    fun trace _ => ⟨Json.noConfusion, trace.ofJson_toJson⟩]
  simp only [hfields, str_inj, String.reduceEq, if_true, if_false, Option.bind_some, hversion,
    hepoch, hreads, asStr, OperationKind.ofJson_asStr, Option.pure_def]

theorem sound_encode (bytes : Bytes) : (string (wire.encode bytes)).Sound :=
  .string _ (Str.isUtf8_ascii _ (hwire.ascii bytes))

theorem mutation_object (mutation : MetadataMutation) (h : Str.IsUtf8 mutation.key) :
    (mutationToJson wire mutation).Sound ∧ (mutationToJson wire mutation).nesting ≤ 1 := by
  have hname : ∀ name : String, (string (str name)).Sound := fun name => .string _ (Str.isUtf8_str name)
  cases mutation with
  | put key value =>
    exact Members.object (.cons "operation" _ (hname "put") (Nat.le_refl _)
      (.cons "key" _ (.string key h) (Nat.le_refl _)
        (.cons "value" _ (sound_encode hwire value) (Nat.le_refl _) .nil)))
  | delete key =>
    exact Members.object (.cons "operation" _ (hname "delete") (Nat.le_refl _)
      (.cons "key" _ (.string key h) (Nat.le_refl _) .nil))

theorem OperationEnvelope.object (envelope : OperationEnvelope) (h : envelope.Typed) :
    (envelope.toJson wire).Sound ∧ (envelope.toJson wire).nesting ≤ 4 := by
  have hkind : Str.IsUtf8 envelope.kind.asStr := by
    cases envelope.kind with
    | upload => exact Str.isUtf8_str _
    | yank => exact Str.isUtf8_str _
    | delete => exact Str.isUtf8_str _
    | cacheFill => exact Str.isUtf8_str _
    | ociPush => exact Str.isUtf8_str _
    | ociDelete => exact Str.isUtf8_str _
  have htrace : ∀ trace ∈ envelope.trace, trace.toJson.Sound ∧ trace.toJson.nesting ≤ 1 := by
    intro trace ht
    exact Members.object (.cons "traceparent" _ (.string _ (h.traceparent trace ht)) (Nat.le_refl _)
      (.skipNone "tracestate" _ _ fun state hs =>
        ⟨.string _ (h.tracestate trace ht state hs), Nat.le_refl _⟩))
  have hblob : ∀ blob ∈ envelope.change.blobs,
      (blobToJson blob).Sound ∧ (blobToJson blob).nesting ≤ 1 := by
    intro blob hb
    exact Members.object (.cons "sha256" _ (.string _ (h.sha256 blob hb)) (Nat.le_refl _)
      (.cons "size" _ (.number _ (h.size blob hb)) (Nat.le_refl _) .nil))
  have hmutation := fun mutation hm => mutation_object hwire mutation (h.metadata mutation hm)
  have hchange : (envelope.change.toJson wire).Sound ∧ (envelope.change.toJson wire).nesting ≤ 3 :=
    Members.object (.cons "serial" _ (.number _ h.serial) (Nat.zero_le _)
      (.cons "event" _ (sound_encode hwire _) (Nat.zero_le _)
        (.append (.skipEmpty "metadata" _ _ hmutation) (.skipEmpty "blobs" _ _ hblob))))
  have hversion := h.schemaVersion
  exact Members.object (.cons "schema_version" _ (.number _ (by omega)) (Nat.zero_le _)
    (.cons "source" _ (.string _ h.source) (Nat.zero_le _)
      (.cons "epoch" _ (.number _ h.epoch) (Nat.zero_le _)
        (.cons "kind" _ (.string _ hkind) (Nat.zero_le _)
          (.append
            (.skipNone "trace" _ _ fun trace ht => ⟨(htrace trace ht).1, (htrace trace ht).2.trans (by decide)⟩)
            (.cons "change" _ hchange.1 hchange.2 .nil))))))

end Wired

section Codec
variable (wire : Wire)

theorem decode_ok (bytes : Bytes) (limits : DecodeLimits) (envelope : OperationEnvelope) :
    OperationEnvelope.decode wire bytes limits = .ok envelope ↔
      bytes.length ≤ limits.maxBytes ∧ exceedsDepth bytes limits.maxDepth = false ∧
        OperationEnvelope.parsed wire bytes = some envelope ∧ envelope.Valid := by
  unfold OperationEnvelope.decode
  constructor
  · intro h
    split at h
    · cases h
    rename_i hbytes
    split at h
    · cases h
    rename_i hdepth
    split at h
    · cases h
    · rename_i found hparsed
      obtain ⟨hvalid, rfl⟩ := (OperationEnvelope.validated_ok found envelope).mp h
      exact ⟨Nat.not_lt.mp hbytes, eq_false_of_ne_true hdepth, hparsed, hvalid⟩
  · rintro ⟨hbytes, hdepth, hparsed, hvalid⟩
    rw [if_neg (Nat.not_lt.mpr hbytes), hdepth, if_neg Bool.false_ne_true, hparsed]
    exact (OperationEnvelope.validated_ok envelope envelope).mpr ⟨hvalid, rfl⟩

/-- Decoding undoes encoding within the limits; the depth scan of a JSON text finds the
nesting of its brackets; and no envelope passes that fails a check. -/
theorem envelope_codec (hwire : wire.Documented) :
    (∀ envelope : OperationEnvelope, envelope.Typed → envelope.Valid →
      ∃ n ≤ 4, IsText (envelope.encode wire) n ∧ ∀ limits : DecodeLimits,
        (envelope.encode wire).length ≤ limits.maxBytes → n ≤ limits.maxDepth →
          OperationEnvelope.decode wire (envelope.encode wire) limits = .ok envelope) ∧
    (∀ text n, IsText text n → ∀ max, exceedsDepth text max = true ↔ max < n) ∧
    (∀ bytes envelope, OperationEnvelope.parsed wire bytes = some envelope → ¬ envelope.Valid →
      ∀ limits, ∃ error, OperationEnvelope.decode wire bytes limits = .error error) ∧
    (∀ bytes limits envelope, OperationEnvelope.decode wire bytes limits = .ok envelope →
      envelope.Valid) := by
  refine ⟨fun envelope htyped hvalid => ?_, fun text n htext => exceedsDepth_iff htext,
    fun bytes envelope hparsed hinvalid limits => ?_,
    fun bytes limits envelope h => ((decode_ok wire bytes limits envelope).mp h).2.2.2⟩
  · obtain ⟨hsound, hnesting⟩ := envelope.object hwire htyped
    have htext : IsText (envelope.encode wire) _ := hwire.text _ hsound
    refine ⟨_, hnesting, htext, fun limits hbytes hdepth => ?_⟩
    have hscan : exceedsDepth (envelope.encode wire) limits.maxDepth = false := by
      rw [Bool.eq_false_iff, ne_eq, exceedsDepth_iff htext]
      exact Nat.not_lt.mpr hdepth
    have hparsed : OperationEnvelope.parsed wire (envelope.encode wire) = some envelope := by
      unfold OperationEnvelope.parsed OperationEnvelope.encode
      rw [hwire.read _ hsound (by omega), Option.bind_some, envelope.ofJson_toJson hwire htyped]
    exact (decode_ok wire _ limits envelope).mpr ⟨hbytes, hscan, hparsed, hvalid⟩
  · cases hdecode : OperationEnvelope.decode wire bytes limits with
    | error error => exact ⟨error, rfl⟩
    | ok found =>
      obtain ⟨-, -, hfound, hvalid⟩ := (decode_ok wire bytes limits found).mp hdecode
      rw [hparsed] at hfound
      rw [← Option.some.inj hfound] at hvalid
      exact absurd hvalid hinvalid

def compactWire : Wire where
  toVec := Json.write
  fromSlice := Json.read
  encode := Base64.encode
  decode := Base64.decode

theorem compactWire_documented : compactWire.Documented where
  text value h := (text_write value h).bare
  read value h _ := read_write value h
  decode := Base64.decode_encode
  ascii := Base64.encode_ascii

def yankEnvelope : OperationEnvelope where
  schemaVersion := 1
  source := str "eu-\"1\""
  epoch := 3
  kind := .yank
  trace := some {
    traceparent := str "00-4bf92f3577b34da6a3ce929d0e0e4736-00f067aa0ba902b7-01"
    tracestate := none }
  change := {
    serial := 7
    event := str "\x7b[yank"
    metadata := [.delete (str "row"), .put (str "key[") [0, 255]]
    blobs := [⟨str "ab", 12⟩] }

theorem yankEnvelope_typed : yankEnvelope.Typed where
  schemaVersion := by decide
  source := by decide
  epoch := by decide
  traceparent := by decide
  tracestate := by decide
  serial := by decide
  metadata := by decide
  sha256 := by decide
  size := by decide

theorem yankEnvelope_valid : yankEnvelope.Valid where
  version := rfl
  source := by decide
  trace trace ht := by
    rw [← Option.some.inj ht]
    exact (validTraceparent_iff _).mp (by decide)

theorem yank_decoded : OperationEnvelope.decode compactWire (yankEnvelope.encode compactWire)
    defaultDecodeLimits = .ok yankEnvelope := by
  obtain ⟨n, hn, -, hdecode⟩ := (envelope_codec compactWire compactWire_documented).1 yankEnvelope
    yankEnvelope_typed yankEnvelope_valid
  exact hdecode defaultDecodeLimits (by decide +kernel) (hn.trans (by decide))

end Codec
end Peryx.Replication
