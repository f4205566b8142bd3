import Peryx.Core.Utf8
import Peryx.Storage.DriverTxn

/-! # Where a blob lies (peryx-storage/src/blob/mod.rs, blob/store.rs:120-125,318-350) -/

namespace Peryx.Storage

structure Digest where
  hex : Str
  valid : digestFromHex hex = some hex
  deriving DecidableEq

def Digest.fromHex (hex : Str) : Option Digest :=
  if h : digestFromHex hex = some hex then some ⟨hex, h⟩ else none

theorem fromHex_hex (digest : Digest) : Digest.fromHex digest.hex = some digest :=
  dif_pos digest.valid

theorem fromHex_eq_some (hex : Str) (digest : Digest) (h : Digest.fromHex hex = some digest) :
    digest.hex = hex := by
  unfold Digest.fromHex at h
  split at h
  · cases h
    rfl
  · cases h

/-- The hash function of the `sha2` library. -/
structure Sha256 where
  hash : Bytes → Bytes
  length : ∀ bytes, (hash bytes).length = 32

def hexTable : Str := str "0123456789abcdef"

def hexOf (nibble : UInt8) : UInt8 := hexTable.getD nibble.toNat 0

def toHex (bytes : Bytes) : Str :=
  bytes.flatMap fun byte : UInt8 => [hexOf (byte >>> 4), hexOf (byte &&& 0x0F)]

def isHexByte (byte : UInt8) : Bool :=
  (0x30 ≤ byte && byte ≤ 0x39) || (0x61 ≤ byte && byte ≤ 0x66)

theorem hexOf_isHex (byte : UInt8) :
    isHexByte (hexOf (byte >>> 4)) = true ∧ isHexByte (hexOf (byte &&& 0x0F)) = true := by
  have hall : ∀ n : Fin 256, isHexByte (hexOf (UInt8.ofNat n >>> 4)) = true ∧
      isHexByte (hexOf (UInt8.ofNat n &&& 0x0F)) = true := by decide +kernel
  have hbyte := hall ⟨byte.toNat, byte.toNat_lt⟩
  rw [UInt8.ofNat_toNat] at hbyte
  exact hbyte

theorem toHex_valid (bytes : Bytes) (h : bytes.length = 32) :
    digestFromHex (toHex bytes) = some (toHex bytes) := by
  have hlength : ∀ list : Bytes, (toHex list).length = 2 * list.length := by
    intro list
    induction list with
    | nil => rfl
    | cons byte list ih =>
      have hcons : toHex (byte :: list) =
          [hexOf (byte >>> 4), hexOf (byte &&& 0x0F)] ++ toHex list := List.flatMap_cons
      rw [hcons, List.length_append, ih, List.length_cons]
      simp only [List.length_cons, List.length_nil]
      omega
  have hdigits : ∀ digit ∈ toHex bytes, isHexByte digit = true := by
    intro digit hdigit
    obtain ⟨byte, -, hmem⟩ := List.mem_flatMap.mp hdigit
    simp only [List.mem_cons, List.not_mem_nil, or_false] at hmem
    rcases hmem with rfl | rfl
    · exact (hexOf_isHex byte).1
    · exact (hexOf_isHex byte).2
  unfold digestFromHex
  refine if_pos ⟨by rw [hlength, h], List.all_eq_true.mpr hdigits⟩

def Digest.of (sha : Sha256) (bytes : Bytes) : Digest :=
  ⟨toHex (sha.hash bytes), toHex_valid _ (sha.length bytes)⟩

theorem Digest.length (digest : Digest) : digest.hex.length = 64 := by
  have h := digest.valid
  unfold digestFromHex at h
  split at h
  · rename_i hcond
    exact hcond.1
  · cases h

theorem Digest.isHex (digest : Digest) : ∀ byte ∈ digest.hex, isHexByte byte = true := by
  have h := digest.valid
  unfold digestFromHex at h
  split at h
  · rename_i hcond
    exact List.all_eq_true.mp hcond.2
  · cases h

/-- `std::path::Component`. -/
inductive PathComponent where
  | rootDir
  | curDir
  | parentDir
  | normal (name : Bytes)
  deriving Repr, DecidableEq

abbrev BlobPath := List PathComponent

variable (root : BlobPath)

def pathFor (digest : Digest) : BlobPath :=
  root ++ [.normal (str "sha256"), .normal (digest.hex.take 2), .normal ((digest.hex.drop 2).take 2),
    .normal digest.hex]

def digestFromPath (path : BlobPath) : Option Digest :=
  match root.isPrefixOf? path with
  | some [.normal algorithm, .normal first, .normal second, .normal filename] =>
    if algorithm ≠ str "sha256" ∨ first.length ≠ 2 ∨ second.length ≠ 2 ∨ filename.length < 4 ∨
        filename.take 2 ≠ first ∨ (filename.drop 2).take 2 ≠ second then none
    else (Str.fromUtf8 filename).bind Digest.fromHex
  | _ => none

theorem isPrefixOf?_append (rest : BlobPath) : root.isPrefixOf? (root ++ rest) = some rest :=
  List.isPrefixOf?_eq_some_iff_append_eq.mpr rfl

theorem digest_fromUtf8 (digest : Digest) : Str.fromUtf8 digest.hex = some digest.hex := by
  refine Str.isUtf8_ascii digest.hex fun byte hbyte => ?_
  have hhex := digest.isHex byte hbyte
  simp only [isHexByte, Bool.or_eq_true, Bool.and_eq_true, decide_eq_true_eq] at hhex
  simp only [UInt8.le_iff_toNat_le, UInt8.lt_iff_toNat_lt] at *
  rcases hhex with ⟨-, hhigh⟩ | ⟨-, hhigh⟩ <;> exact lt_of_le_of_lt hhigh (by decide)

theorem digestFromPath_pathFor (digest : Digest) :
    digestFromPath root (pathFor root digest) = some digest := by
  have hlength := digest.length
  unfold digestFromPath pathFor
  rw [isPrefixOf?_append]
  dsimp only
  rw [if_neg, digest_fromUtf8]
  · exact fromHex_hex digest
  · simp [hlength]

theorem digestFromPath_eq_some (path : BlobPath) (digest : Digest) :
    digestFromPath root path = some digest ↔ path = pathFor root digest := by
  constructor
  · intro h
    unfold digestFromPath at h
    split at h
    · rename_i algorithm first second filename hprefix
      split at h
      · cases h
      · rename_i hchecks
        simp only [ne_eq, not_or, not_not] at hchecks
        obtain ⟨rfl, -, -, -, rfl, rfl⟩ := hchecks
        obtain ⟨name, hname, hdigest⟩ := Option.bind_eq_some_iff.mp h
        have hfile : name = filename := by
          unfold Str.fromUtf8 at hname
          split at hname
          · exact (Option.some.inj hname).symm
          · cases hname
        have hpath := List.isPrefixOf?_eq_some_iff_append_eq.mp hprefix
        rw [← hpath, ← hfile, ← fromHex_eq_some name digest hdigest]
        rfl
    · cases h
  · rintro rfl
    exact digestFromPath_pathFor root digest

end Peryx.Storage
