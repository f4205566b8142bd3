import Peryx.Core.Lossy
import Peryx.Library.Framed
import Peryx.Oci.TagServing

/-! # The driver's own records (peryx-ecosystem-oci/src/store.rs:23-51,265-356) -/

namespace Peryx.Oci
open Storage

theorem i64Bytes_eq (n : Int) : i64Bytes n = BigEndian.toBytes 8 (n % 2 ^ 64).toNat := rfl

theorem foldl_value (bytes : Bytes) (start : Nat) :
    bytes.foldl (fun (value : Int) byte => value * 256 + byte.toNat) (start : Int) =
      ((bytes.foldl (fun value byte => value * 256 + byte.toNat) start : Nat) : Int) := by
  induction bytes generalizing start with
  | nil => rfl
  | cons byte bytes ih =>
    rw [List.foldl_cons, List.foldl_cons, ← ih]
    norm_cast

theorem i64Value_eq (bytes : Bytes) : i64Value bytes =
    if (BigEndian.ofBytes bytes : Int) < 2 ^ 63 then (BigEndian.ofBytes bytes : Int)
    else BigEndian.ofBytes bytes - 2 ^ 64 := by
  have hfold := foldl_value bytes 0
  rw [Nat.cast_zero] at hfold
  unfold i64Value
  rw [hfold]
  rfl

theorem i64Value_bytes (n : Int64) : i64Value (i64Bytes n.toInt) = n.toInt := by
  have hlow := n.le_toInt
  have hhigh := n.toInt_lt
  have hvalue : BigEndian.ofBytes (i64Bytes n.toInt) = (n.toInt % 2 ^ 64).toNat := by
    rw [i64Bytes_eq]
    exact BigEndian.ofBytes_toBytes_of_lt 8 _ (by omega)
  rw [i64Value_eq, hvalue]
  split
  · omega
  · omega

theorem i64Bytes_value (bytes : Bytes) (h : bytes.length = 8) : i64Bytes (i64Value bytes) = bytes := by
  have hlt := BigEndian.ofBytes_lt bytes
  have hback := BigEndian.toBytes_ofBytes bytes
  rw [h] at hlt hback
  have hmod : (i64Value bytes % 2 ^ 64).toNat = BigEndian.ofBytes bytes := by
    rw [i64Value_eq]
    split
    · omega
    · omega
  rw [i64Bytes_eq, hmod, hback]

theorem fromUtf8_isSome (text : Str) : (Str.fromUtf8 text).isSome = true ↔ Str.IsUtf8 text := by
  unfold Str.IsUtf8 Str.fromUtf8
  split <;> simp

theorem Manifest.encode_framed (manifest : Manifest) :
    manifest.encode = Framed.encode 2 [] manifest.mediaType manifest.bytes := by
  have hbytes : ∀ n : Nat, n ≤ 65535 →
      BigEndian.toBytes 2 n = [UInt8.ofNat (n / 256), UInt8.ofNat (n % 256)] := by
    intro n _
    have hlow : UInt8.ofNat n = UInt8.ofNat (n % 256) := by
      apply UInt8.toNat_inj.mp
      rw [UInt8.toNat_ofNat', UInt8.toNat_ofNat']
      omega
    rw [BigEndian.toBytes_succ, BigEndian.toBytes_succ, hlow]
    rfl
  unfold Manifest.encode Framed.encode
  have hlimit : Framed.limit 2 = 65535 := rfl
  rw [hlimit, hbytes _ (Nat.min_le_right _ _)]
  rfl

theorem Manifest.decode_framed (raw : Bytes) : Manifest.decode raw =
    (Framed.decode 0 2 raw).bind fun (_, mediaType, bytes) =>
      (Str.fromUtf8 mediaType).map fun mediaType => ⟨mediaType, bytes⟩ := by
  cases raw with
  | nil => rfl
  | cons high raw =>
    cases raw with
    | nil => rfl
    | cons low rest =>
      have hlength : BigEndian.ofBytes [high, low] = high.toNat * 256 + low.toNat := by
        simp [BigEndian.ofBytes]
      unfold Manifest.decode Framed.decode
      rw [if_neg (by simp)]
      simp only [Nat.zero_add, List.drop_zero, List.take_succ_cons, List.take_zero, hlength,
        List.drop_succ_cons]
      split
      · rfl
      · rfl

theorem Manifest.decode_eq_some (raw : Bytes) (manifest : Manifest) :
    Manifest.decode raw = some manifest ↔ manifest.Storable ∧ manifest.encode = raw := by
  rw [Manifest.decode_framed, Manifest.encode_framed]
  constructor
  · intro h
    obtain ⟨⟨lead, field, rest⟩, hframe, h⟩ := Option.bind_eq_some_iff.mp h
    obtain ⟨hlead, hfield, hraw⟩ := (Framed.decode_eq_some 0 2 raw lead field rest).mp hframe
    obtain ⟨mediaType, htext, rfl⟩ := Option.map_eq_some_iff.mp h
    obtain rfl := List.length_eq_zero_iff.mp hlead
    obtain ⟨_, rfl⟩ := (Str.fromUtf8_eq_some field mediaType).mp htext
    exact ⟨⟨hfield, htext⟩, hraw.symm⟩
  · rintro ⟨⟨hlength, htext⟩, rfl⟩
    have hframe := Framed.decode_encode 2 [] manifest.mediaType manifest.bytes hlength
    rw [List.length_nil] at hframe
    rw [hframe, Option.bind_some]
    dsimp only
    rw [htext]
    rfl

theorem Manifest.decode_cut (manifest : Manifest) (cut : Nat) :
    Manifest.decode (manifest.encode.take cut) = none ↔
      cut < 2 + min manifest.mediaType.length 65535 ∨
        ¬ Str.IsUtf8 (manifest.mediaType.take 65535) := by
  rw [Manifest.decode_framed, Manifest.encode_framed]
  have hlimit : Framed.limit 2 = 65535 := rfl
  by_cases hcut : cut < 2 + min manifest.mediaType.length 65535
  · have hmissed := (Framed.decode_cut 2 cut [] manifest.mediaType manifest.bytes).mpr (by
      rw [List.length_nil, hlimit]
      omega)
    rw [List.length_nil] at hmissed
    rw [hmissed]
    exact ⟨fun _ => Or.inl hcut, fun _ => rfl⟩
  · obtain ⟨later, hread⟩ := Framed.decode_cut_some 2 cut [] manifest.mediaType manifest.bytes (by
      rw [List.length_nil, hlimit]
      omega)
    rw [List.length_nil, hlimit] at hread
    rw [hread, Option.bind_some]
    dsimp only
    rw [Option.map_eq_none_iff, ← fromUtf8_isSome, Bool.not_eq_true, Option.isSome_eq_false_iff,
      Option.isNone_iff_eq_none]
    exact ⟨fun h => Or.inr h, fun h => h.resolve_left hcut⟩

theorem Manifest.decode_encode_long (manifest : Manifest)
    (h : Str.IsUtf8 (manifest.mediaType.take 65535)) : Manifest.decode manifest.encode =
      some ⟨manifest.mediaType.take 65535, manifest.mediaType.drop 65535 ++ manifest.bytes⟩ := by
  have hlimit : Framed.limit 2 = 65535 := rfl
  have hread := Framed.decode_encode_limit 2 [] manifest.mediaType manifest.bytes
  rw [List.length_nil, hlimit] at hread
  rw [Manifest.decode_framed, Manifest.encode_framed, hread, Option.bind_some]
  dsimp only
  rw [h]
  rfl

def tagPagePrefixAll : Str := str "oci\x00tp\x00"

def tagPageKey (index repo query : Str) : Str := scopedPrefix tagPagePrefixAll index repo ++ query

/-- `TagPage`: when it was fetched, the `Link` to the next page, the body. -/
structure TagPage where
  fetchedAt : Int
  link : Option Str
  body : Bytes
  deriving DecidableEq

/-- The value of `set_tag_page`. -/
def TagPage.encode (page : TagPage) : Bytes :=
  let link := page.link.getD []
  let length := min link.length (2 ^ 32 - 1)
  i64Bytes page.fetchedAt ++ BigEndian.toBytes 4 length ++ link ++ page.body

/-- The reading of `tag_page`. -/
def TagPage.decode (raw : Bytes) : Option TagPage :=
  if raw.length < 8 then none
  else
    let rest := raw.drop 8
    if rest.length < 4 then none
    else
      let length := BigEndian.ofBytes (rest.take 4)
      let rest := rest.drop 4
      if rest.length < length then none
      else
        let link := rest.take length
        some {
          fetchedAt := i64Value (raw.take 8)
          link := if link = [] then none else some (Query.fromUtf8Lossy link)
          body := rest.drop length }

def setTagPage (index repo query : Str) (page : TagPage) : Prog Stores Unit :=
  putDriverValue (tagPageKey index repo query) page.encode

def tagPageAt (rows : Rows) (index repo query : Str) : Option TagPage :=
  rows[tagPageKey index repo query]?.bind TagPage.decode

def TagPage.ofParts (lead link body : Bytes) : TagPage where
  fetchedAt := i64Value lead
  link := if link = [] then none else some (Query.fromUtf8Lossy link)
  body := body

theorem TagPage.encode_framed (page : TagPage) : page.encode =
    Framed.encode 4 (i64Bytes page.fetchedAt) (page.link.getD []) page.body := rfl

theorem TagPage.decode_framed (raw : Bytes) : TagPage.decode raw =
    (Framed.decode 8 4 raw).map fun (lead, link, body) => TagPage.ofParts lead link body := by
  unfold TagPage.decode Framed.decode
  split
  · rename_i hshort
    rw [if_pos (by omega)]
    rfl
  · dsimp only
    rw [List.length_drop]
    split
    · rename_i hshort
      rw [if_pos (by omega)]
      rfl
    · rename_i hlong
      have henough : ¬ raw.length < 8 + 4 := by omega
      rw [if_neg henough, List.drop_drop]
      split
      · rfl
      · rfl

theorem i64Bytes_lead (n : Int) : (i64Bytes n).length = 8 := by
  rw [i64Bytes_eq]
  exact BigEndian.length_toBytes 8 _

theorem TagPage.decode_encode_iff (page : TagPage) (fetchedAt : Int64)
    (hat : page.fetchedAt = fetchedAt.toInt) (hlink : Str.IsUtf8 (page.link.getD [])) :
    TagPage.decode page.encode = some page ↔
      page.link ≠ some [] ∧ (page.link.getD []).length ≤ 2 ^ 32 - 1 := by
  have hlimit : Framed.limit 4 = 2 ^ 32 - 1 := rfl
  have hread := Framed.decode_encode_limit 4 (i64Bytes page.fetchedAt) (page.link.getD []) page.body
  rw [i64Bytes_lead, hlimit] at hread
  rw [TagPage.decode_framed, TagPage.encode_framed, hread, Option.map_some, Option.some.injEq]
  obtain ⟨at', link, body⟩ := page
  dsimp only at hat hlink ⊢
  subst hat
  constructor
  · intro h
    simp only [TagPage.ofParts, TagPage.mk.injEq] at h
    obtain ⟨-, hlinks, hbody⟩ := h
    have hshort : (link.getD []).length ≤ 2 ^ 32 - 1 := by
      have hlength := congrArg List.length hbody
      rw [List.length_append, List.length_drop] at hlength
      omega
    refine ⟨fun hempty => ?_, hshort⟩
    rw [hempty, Option.getD_some, List.take_nil, if_pos rfl] at hlinks
    cases hlinks
  · rintro ⟨hne, hshort⟩
    rw [List.take_of_length_le hshort, List.drop_eq_nil_of_le hshort, List.nil_append]
    unfold TagPage.ofParts
    rw [i64Value_bytes, Query.fromUtf8Lossy_utf8 _ hlink]
    cases link with
    | none => rfl
    | some text =>
      have htext : text ≠ [] := fun h => hne (by rw [h])
      rw [Option.getD_some, if_neg htext]

theorem TagPage.decode_cut (page : TagPage) (cut : Nat) :
    TagPage.decode (page.encode.take cut) = none ↔
      cut < 12 + min (page.link.getD []).length (2 ^ 32 - 1) := by
  have hcut := Framed.decode_cut 4 cut (i64Bytes page.fetchedAt) (page.link.getD []) page.body
  have hlimit : Framed.limit 4 = 2 ^ 32 - 1 := rfl
  rw [i64Bytes_lead, hlimit] at hcut
  rw [TagPage.decode_framed, TagPage.encode_framed, Option.map_eq_none_iff, hcut]

/-- The bytes a record has for its `Link`. -/
def linkBytes (raw : Bytes) : Bytes :=
  (raw.drop 12).take (BigEndian.ofBytes ((raw.drop 8).take 4))

theorem TagPage.decode_record (raw : Bytes) (page : TagPage) (h : TagPage.decode raw = some page) :
    page.encode = raw ↔ Str.IsUtf8 (linkBytes raw) := by
  rw [TagPage.decode_framed] at h
  obtain ⟨⟨lead, link, body⟩, hframe, rfl⟩ := Option.map_eq_some_iff.mp h
  have hlink : linkBytes raw = link := by
    unfold Framed.decode at hframe
    split at hframe
    · cases hframe
    · dsimp only at hframe
      split at hframe
      · cases hframe
      · simp only [Option.some.injEq, Prod.mk.injEq] at hframe
        exact hframe.2.1
  obtain ⟨hlead, _, hraw⟩ := (Framed.decode_eq_some 8 4 raw lead link body).mp hframe
  have hlossy : (TagPage.ofParts lead link body).link.getD [] = Query.fromUtf8Lossy link := by
    unfold TagPage.ofParts
    dsimp only
    split
    · rename_i hnil
      rw [hnil]
      rfl
    · rfl
  have hat : i64Bytes (TagPage.ofParts lead link body).fetchedAt = lead := i64Bytes_value lead hlead
  have hbody : (TagPage.ofParts lead link body).body = body := rfl
  rw [hlink, TagPage.encode_framed, hlossy, hat, hbody, hraw, Framed.encode_field_inj,
    Query.fromUtf8Lossy_eq_iff]

/-- The value of `set_tag_freshness`. -/
def encodeFreshness (fetchedAt : Int) (digest : Str) : Bytes := i64Bytes fetchedAt ++ digest

/-- The reading of `tag_freshness`. -/
def decodeFreshness (raw : Bytes) : Option (Int × Str) :=
  if raw.length < 8 then none
  else (Str.fromUtf8 (raw.drop 8)).map fun digest => (i64Value (raw.take 8), digest)

theorem decodeFreshness_encode (fetchedAt : Int64) (digest : Str) (h : Str.IsUtf8 digest) :
    decodeFreshness (encodeFreshness fetchedAt.toInt digest) = some (fetchedAt.toInt, digest) := by
  have hlead := i64Bytes_lead fetchedAt.toInt
  unfold decodeFreshness encodeFreshness
  rw [if_neg (by rw [List.length_append]; omega), List.drop_left' hlead, List.take_left' hlead, h,
    i64Value_bytes]
  rfl

theorem decodeFreshness_cut (fetchedAt : Int) (digest : Str) (cut : Nat) :
    decodeFreshness ((encodeFreshness fetchedAt digest).take cut) = none ↔
      cut < 8 ∨ ¬ Str.IsUtf8 (digest.take (cut - 8)) := by
  have hlead := i64Bytes_lead fetchedAt
  unfold decodeFreshness encodeFreshness
  rw [List.length_take, List.length_append, hlead]
  split
  · rename_i hshort
    exact ⟨fun _ => Or.inl (by omega), fun _ => rfl⟩
  · rename_i hlong
    have htail : ((i64Bytes fetchedAt ++ digest).take cut).drop 8 = digest.take (cut - 8) := by
      rw [List.drop_take, List.drop_left' hlead]
    rw [htail, Option.map_eq_none_iff, ← fromUtf8_isSome, Bool.not_eq_true,
      Option.isSome_eq_false_iff, Option.isNone_iff_eq_none]
    exact ⟨fun h => Or.inr h, fun h => h.resolve_left (by omega)⟩

theorem decodeFreshness_record (raw : Bytes) (fetchedAt : Int) (digest : Str)
    (h : decodeFreshness raw = some (fetchedAt, digest)) :
    encodeFreshness fetchedAt digest = raw := by
  unfold decodeFreshness at h
  split at h
  · cases h
  · rename_i hlong
    obtain ⟨text, htext, heq⟩ := Option.map_eq_some_iff.mp h
    obtain ⟨_, rfl⟩ := (Str.fromUtf8_eq_some _ _).mp htext
    simp only [Prod.mk.injEq] at heq
    obtain ⟨rfl, rfl⟩ := heq
    unfold encodeFreshness
    rw [i64Bytes_value _ (by rw [List.length_take]; omega), List.take_append_drop]

theorem stored_records (mediaType digest : String) (link : Option String) (fetchedAt : Int64)
    (bytes raw : Bytes) (cut : Nat) :
    -- manifests
    (Manifest.decode (Manifest.encode ⟨str mediaType, bytes⟩) = some ⟨str mediaType, bytes⟩ ↔
      (str mediaType).length ≤ 65535) ∧
    (Manifest.decode ((Manifest.encode ⟨str mediaType, bytes⟩).take cut) = none ↔
      cut < 2 + min (str mediaType).length 65535 ∨ ¬ Str.IsUtf8 ((str mediaType).take 65535)) ∧
    (∀ manifest, Manifest.decode raw = some manifest → manifest.encode = raw) ∧
    -- pages of upstream tags
    (TagPage.decode (TagPage.encode ⟨fetchedAt.toInt, link.map str, bytes⟩) =
      some ⟨fetchedAt.toInt, link.map str, bytes⟩ ↔
      link.map str ≠ some [] ∧ ((link.map str).getD []).length ≤ 2 ^ 32 - 1) ∧
    (TagPage.decode ((TagPage.encode ⟨fetchedAt.toInt, link.map str, bytes⟩).take cut) = none ↔
      cut < 12 + min ((link.map str).getD []).length (2 ^ 32 - 1)) ∧
    (∀ page, TagPage.decode raw = some page → (page.encode = raw ↔ Str.IsUtf8 (linkBytes raw))) ∧
    -- dates of tags
    (decodeFreshness (encodeFreshness fetchedAt.toInt (str digest)) =
      some (fetchedAt.toInt, str digest)) ∧
    (decodeFreshness ((encodeFreshness fetchedAt.toInt (str digest)).take cut) = none ↔
      cut < 8 ∨ ¬ Str.IsUtf8 ((str digest).take (cut - 8))) ∧
    (∀ time name, decodeFreshness raw = some (time, name) → encodeFreshness time name = raw) := by
  refine ⟨?_, Manifest.decode_cut _ cut,
    fun manifest h => ((Manifest.decode_eq_some raw manifest).mp h).2,
    TagPage.decode_encode_iff _ fetchedAt rfl ?_, TagPage.decode_cut _ cut, TagPage.decode_record raw,
    decodeFreshness_encode fetchedAt _ (Str.isUtf8_str digest), decodeFreshness_cut _ _ cut,
    decodeFreshness_record raw⟩
  · rw [Manifest.decode_eq_some]
    exact ⟨fun h => h.1.1, fun h => ⟨⟨h, Str.isUtf8_str mediaType⟩, rfl⟩⟩
  · cases link with
    | none => exact Str.isUtf8_ascii [] nofun
    | some text => exact Str.isUtf8_str text

/-- A media type of 65,536 bytes loses its last byte to the body. -/
theorem long_media_type :
    let manifest : Manifest := ⟨List.replicate 65536 0x61, str "\x7b\x7d"⟩
    Manifest.decode manifest.encode =
      some ⟨List.replicate 65535 0x61, str "a\x7b\x7d"⟩ ∧
    Manifest.decode manifest.encode ≠ some manifest := by
  have htake : (List.replicate 65536 (0x61 : UInt8)).take 65535 = List.replicate 65535 0x61 := by
    rw [List.take_replicate]
    rfl
  have hdrop : (List.replicate 65536 (0x61 : UInt8)).drop 65535 = [0x61] := by
    rw [List.drop_replicate]
    rfl
  have htext : Str.IsUtf8 ((List.replicate 65536 (0x61 : UInt8)).take 65535) := by
    rw [htake]
    exact Str.isUtf8_ascii _ fun byte hbyte => by
      rw [List.eq_of_mem_replicate hbyte]
      decide
  have hread := Manifest.decode_encode_long
    ⟨List.replicate 65536 0x61, str "\x7b\x7d"⟩ htext
  dsimp only at hread ⊢
  rw [htake, hdrop] at hread
  refine ⟨hread, ?_⟩
  rw [Ne, Manifest.decode_eq_some]
  intro h
  have hlong := h.1.1
  dsimp only at hlong
  rw [List.length_replicate] at hlong
  omega

end Peryx.Oci
