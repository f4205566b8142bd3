import Peryx.Library.Outcome
import Peryx.Oci.ManifestWrite
import Peryx.Storage.LoneCalls

/-! # Blobs the OCI rows refer to (peryx-ecosystem-oci/src/store/descriptors.rs:60-88) -/

namespace Peryx.Oci
open Storage

def referMember (digests : Digests) (key : Str) : Digests :=
  match (rsplitNul key).bind fun (_, digest) => blobDigest digest with
  | some storage => digests.insert storage
  | none => digests

section Json
variable (parse : Bytes → Option Json)

def referManifest (digests : Digests) (raw : Option Bytes) : Digests :=
  match raw.bind Manifest.decode with
  | none => digests
  | some manifest => ((manifestDescriptors parse manifest.bytes).2.filterMap blobDigest).foldl
      (fun digests digest => digests.insert digest) digests

def referencedBlobDigests {ε : Type} : Calls ε Digests := do
  let members ← keysCall blobMembershipPrefixAll
  let digests := members.foldl referMember ∅
  let manifests ← keysCall manifestPrefix
  let raws ← manifests.mapM fun key => getCall key
  return raws.foldl (referManifest parse) digests

inductive Describes (rows : Rows) : Str → Str → Prop
  | blob (digest blob : Str) (manifest : Manifest) (h : manifestAt rows digest = some manifest)
      (hblob : blob ∈ (manifestDescriptors parse manifest.bytes).2) : Describes rows digest blob
  | child (digest child blob : Str) (manifest : Manifest) (h : manifestAt rows digest = some manifest)
      (hchild : child ∈ (manifestDescriptors parse manifest.bytes).1)
      (hblob : Describes rows child blob) : Describes rows digest blob

inductive LeadsTo (rows : Rows) : Str → Prop
  | membership (index repo digest storage : Str) (h : isBlobMember rows index repo digest = true)
      (hdigest : blobDigest digest = some storage) : LeadsTo rows storage
  | manifest (digest blob storage : Str) (h : Describes parse rows digest blob)
      (hdigest : blobDigest blob = some storage) : LeadsTo rows storage

def collected (rows : Rows) : Digests :=
  ((keysUnder rows manifestPrefix).map fun key => rows[key]?).foldl (referManifest parse)
    ((keysUnder rows blobMembershipPrefixAll).foldl referMember ∅)

theorem reads_referencedBlobDigests {ε : Type} (rows : Rows) :
    Reads (referencedBlobDigests parse : Calls ε Digests) rows (.ok (collected parse rows)) := by
  refine (reads_keysCall _ rows).bind (g := fun _ => .ok (collected parse rows)) ?_
  intro members hmembers
  cases hmembers
  refine (reads_keysCall _ rows).bind (g := fun _ => .ok (collected parse rows)) ?_
  intro manifests hmanifests
  cases hmanifests
  exact (reads_mapM _ _ _ rows fun key _ => reads_getCall key rows).map _

theorem blobDigest_nul (digest storage : Str) (h : blobDigest digest = some storage) :
    0 ∉ digest := by
  unfold blobDigest at h
  obtain ⟨hex, hstrip, hhex⟩ := Option.bind_eq_some_iff.mp h
  rw [Str.stripPrefix_eq_some] at hstrip
  unfold digestFromHex at hhex
  split at hhex
  · rename_i hvalid
    rw [hstrip, List.mem_append]
    rintro (hmem | hmem)
    · exact absurd hmem (by decide)
    · exact absurd (List.all_eq_true.mp hvalid.2 0 hmem) (by decide)
  · cases hhex

theorem rsplitNul_append (before after : Str) (h : 0 ∉ after) :
    rsplitNul (before ++ [0] ++ after) = some (before, after) := by
  have hsplit := Str.splitOnce_append 0 after.reverse before.reverse
    fun hmem => h (List.mem_reverse.mp hmem)
  unfold rsplitNul
  rw [List.append_assoc, List.reverse_append, List.reverse_append, List.reverse_singleton,
    List.append_assoc, List.singleton_append, hsplit, Option.map_some]
  simp only [List.reverse_reverse]

theorem mem_referMember (digests : Digests) (key storage : Str) :
    storage ∈ referMember digests key ↔ storage ∈ digests ∨
      ∃ before digest, rsplitNul key = some (before, digest) ∧ blobDigest digest = some storage := by
  unfold referMember
  split
  · rename_i found hfound
    obtain ⟨⟨before, digest⟩, hsplit, hdigest⟩ := Option.bind_eq_some_iff.mp hfound
    dsimp only at hdigest
    rw [Std.ExtTreeSet.mem_insert, Std.LawfulEqCmp.compare_eq_iff_eq]
    simp [hsplit, hdigest, or_comm]
  · rename_i hnone
    refine ⟨.inl, fun h => h.resolve_right ?_⟩
    rintro ⟨before, digest, hsplit, hdigest⟩
    rw [hsplit, Option.bind_some] at hnone
    exact absurd (hnone.symm.trans hdigest) nofun

theorem mem_referManifest (digests : Digests) (raw : Option Bytes) (storage : Str) :
    storage ∈ referManifest parse digests raw ↔ storage ∈ digests ∨
      ∃ manifest blob, raw.bind Manifest.decode = some manifest ∧
        blob ∈ (manifestDescriptors parse manifest.bytes).2 ∧ blobDigest blob = some storage := by
  unfold referManifest
  split
  · rename_i hnone
    simp [hnone]
  · rename_i manifest hmanifest
    rw [mem_foldl_insert, List.mem_filterMap]
    simp [hmanifest]

def RowNames (rows : Rows) (storage : Str) : Prop :=
  (∃ key ∈ keysUnder rows blobMembershipPrefixAll, ∃ before digest,
    rsplitNul key = some (before, digest) ∧ blobDigest digest = some storage) ∨
  ∃ raw ∈ (keysUnder rows manifestPrefix).map fun key => rows[key]?, ∃ manifest blob,
    raw.bind Manifest.decode = some manifest ∧
      blob ∈ (manifestDescriptors parse manifest.bytes).2 ∧ blobDigest blob = some storage

theorem mem_collected_iff (rows : Rows) (storage : Str) :
    storage ∈ collected parse rows ↔ RowNames parse rows storage := by
  have hmembers := @Visits.foldl_holds_iff _ _ referMember (fun digests => storage ∈ digests) _
    (fun digests key => mem_referMember digests key storage)
    (keysUnder rows blobMembershipPrefixAll) ∅
  have hmanifests := @Visits.foldl_holds_iff _ _ (referManifest parse)
    (fun digests => storage ∈ digests) _
    (fun digests raw => mem_referManifest parse digests raw storage)
    ((keysUnder rows manifestPrefix).map fun key => rows[key]?)
    ((keysUnder rows blobMembershipPrefixAll).foldl referMember ∅)
  rw [hmembers] at hmanifests
  refine hmanifests.trans (or_congr_left ?_)
  simp only [Std.ExtTreeSet.not_mem_empty, false_or]

theorem Describes.stored {rows : Rows} {digest blob : Str} (h : Describes parse rows digest blob) :
    ∃ image manifest, manifestAt rows image = some manifest ∧
      blob ∈ (manifestDescriptors parse manifest.bytes).2 := by
  induction h with
  | blob digest blob manifest h hblob => exact ⟨digest, manifest, h, hblob⟩
  | child digest child blob manifest h hchild hblob ih => exact ih

theorem LeadsTo.rowNames {rows : Rows} {storage : Str} (h : LeadsTo parse rows storage) :
    RowNames parse rows storage := by
  cases h with
  | membership index repo digest storage hmember hdigest =>
    refine .inl ⟨blobMembershipKey index repo digest, ?_, blobMembershipPrefixAll ++ index ++ [0] ++ repo,
      digest, ?_, hdigest⟩
    · rw [mem_keysUnder]
      refine ⟨hmember, ?_⟩
      rw [blobMembershipKey_eq]
      exact List.prefix_append _ _
    · exact rsplitNul_append _ _ (blobDigest_nul digest storage hdigest)
  | manifest digest blob storage hdescribes hdigest =>
    obtain ⟨image, manifest, hat, hblob⟩ := hdescribes.stored
    obtain ⟨raw, hraw, hdecode⟩ := Option.bind_eq_some_iff.mp hat
    refine .inr ⟨some raw, ?_, manifest, blob, hdecode, hblob, hdigest⟩
    refine List.mem_map.mpr ⟨manifestKey image, ?_, hraw⟩
    rw [mem_keysUnder, hraw]
    exact ⟨rfl, List.prefix_append _ _⟩

end Json
end Peryx.Oci
