import Peryx.Library.Framed

/-!
# ZIP archives without the 64-bit records

The content of a member stands in the archive behind a local header, at the offset that the
member's header in the central directory gives.
-/

/-! ## Unsigned integers as little-endian bytes -/

namespace Peryx.LittleEndian

def toBytes (width n : ℕ) : List UInt8 := (BigEndian.toBytes width n).reverse

def ofBytes (bytes : List UInt8) : ℕ := BigEndian.ofBytes bytes.reverse

def field (bytes : List UInt8) (offset width : ℕ) : ℕ := ofBytes ((bytes.drop offset).take width)

@[simp] theorem length_toBytes (width n : ℕ) : (toBytes width n).length = width := by
  simp [toBytes]

theorem ofBytes_toBytes (width n : ℕ) (h : n < 256 ^ width) : ofBytes (toBytes width n) = n := by
  unfold ofBytes toBytes
  rw [List.reverse_reverse, BigEndian.ofBytes_toBytes_of_lt width n h]

theorem field_lt (bytes : List UInt8) (offset width : ℕ) : field bytes offset width < 256 ^ width := by
  have hlt := BigEndian.ofBytes_lt ((bytes.drop offset).take width).reverse
  have hlength : ((bytes.drop offset).take width).reverse.length ≤ width := by
    rw [List.length_reverse]
    exact List.length_take_le width _
  exact Nat.lt_of_lt_of_le hlt (Nat.pow_le_pow_right (by omega) hlength)

theorem field_drop (bytes : List UInt8) (start offset width : ℕ) :
    field (bytes.drop start) offset width = field bytes (start + offset) width := by
  unfold field
  rw [List.drop_drop]

theorem field_take (bytes : List UInt8) (count offset width : ℕ) (h : offset + width ≤ count) :
    field (bytes.take count) offset width = field bytes offset width := by
  have hmin : min width (count - offset) = width := by omega
  unfold field
  rw [List.drop_take, List.take_take, hmin]

theorem field_flatten (parts : List (List UInt8)) (rest : List UInt8) (i width n : ℕ)
    (hpart : parts[i]? = some (toBytes width n)) (hn : n < 256 ^ width) :
    field (parts.flatten ++ rest) (parts.take i).flatten.length width = n := by
  obtain ⟨hi, hget⟩ := List.getElem?_eq_some_iff.mp hpart
  have hparts : parts = parts.take i ++ toBytes width n :: parts.drop (i + 1) := by
    rw [← hget, ← List.drop_eq_getElem_cons hi, List.take_append_drop]
  have hflat : parts.flatten ++ rest =
      (parts.take i).flatten ++ (toBytes width n ++ ((parts.drop (i + 1)).flatten ++ rest)) := by
    conv_lhs => rw [hparts]
    simp only [List.flatten_append, List.flatten_cons, List.append_assoc]
  unfold field
  rw [hflat, List.drop_left, List.take_left' (length_toBytes width n), ofBytes_toBytes width n hn]

end Peryx.LittleEndian

namespace Peryx.ZipFormat
open LittleEndian

def centralSignature : List UInt8 := [0x50, 0x4B, 0x01, 0x02]
def localSignature : List UInt8 := [0x50, 0x4B, 0x03, 0x04]
def endSignature : List UInt8 := [0x50, 0x4B, 0x05, 0x06]

/-- What a 32-bit field holds where the value is in a 64-bit record. -/
def limit32 : ℕ := 2 ^ 32 - 1

/-- What a 16-bit field holds where the value is in a 64-bit record. -/
def limit16 : ℕ := 2 ^ 16 - 1

/-- A member with all that its two headers hold. `stored` are its bytes in the archive. -/
structure Member where
  name : List UInt8
  content : List UInt8
  stored : List UInt8
  versions : List UInt8
  flags : ℕ
  method : ℕ
  stamp : List UInt8
  attributes : List UInt8
  offset : ℕ
  extra : List UInt8
  comment : List UInt8
  localLead : List UInt8
  localExtra : List UInt8
  versions_length : versions.length = 4
  stamp_length : stamp.length = 8
  attributes_length : attributes.length = 8
  localLead_length : localLead.length = 22
  flags_lt : flags < 2 ^ 16
  method_lt : method < 2 ^ 16
  name_lt : name.length < 2 ^ 16
  extra_lt : extra.length < 2 ^ 16
  comment_lt : comment.length < 2 ^ 16
  localExtra_lt : localExtra.length < 2 ^ 16
  content_lt : content.length < limit32
  stored_lt : stored.length < limit32
  offset_lt : offset < limit32

namespace Member

def encrypted (member : Member) : Bool := member.flags % 2 == 1

def centralParts (member : Member) : List (List UInt8) :=
  [centralSignature, member.versions, toBytes 2 member.flags, toBytes 2 member.method,
    member.stamp, toBytes 4 member.stored.length, toBytes 4 member.content.length,
    toBytes 2 member.name.length, toBytes 2 member.extra.length, toBytes 2 member.comment.length,
    member.attributes, toBytes 4 member.offset, member.name, member.extra, member.comment]

def central (member : Member) : List UInt8 := member.centralParts.flatten

def localParts (member : Member) : List (List UInt8) :=
  [localSignature, member.localLead, toBytes 2 member.name.length,
    toBytes 2 member.localExtra.length, member.name, member.localExtra, member.stored]

def record (member : Member) : List UInt8 := member.localParts.flatten

def Holds (inflate : List UInt8 → Option (List UInt8)) (member : Member) : Prop :=
  (member.method = 0 ∧ member.stored = member.content) ∨
    (member.method = 8 ∧ inflate member.stored = some member.content)

end Member

/-- An archive that is written by the rules, its members in any order and anywhere before
the central directory. -/
structure Archive (inflate : List UInt8 → Option (List UInt8)) where
  body : List UInt8
  members : List Member
  comment : List UInt8
  stands : ∀ member ∈ members, member.record <+: body.drop member.offset
  holds : ∀ member ∈ members, member.encrypted = false → member.Holds inflate
  body_lt : body.length < limit32
  directory_lt : (members.flatMap Member.central).length < limit32
  members_lt : members.length < limit16
  comment_lt : comment.length < 2 ^ 16

namespace Archive
variable {inflate : List UInt8 → Option (List UInt8)}

def directory (archive : Archive inflate) : List UInt8 := archive.members.flatMap Member.central

def endParts (archive : Archive inflate) : List (List UInt8) :=
  [endSignature, toBytes 2 0, toBytes 2 0, toBytes 2 archive.members.length,
    toBytes 2 archive.members.length, toBytes 4 archive.directory.length,
    toBytes 4 archive.body.length, toBytes 2 archive.comment.length, archive.comment]

def bytes (archive : Archive inflate) : List UInt8 :=
  archive.body ++ archive.directory ++ archive.endParts.flatten

def endOffset (archive : Archive inflate) : ℕ := archive.body.length + archive.directory.length

end Archive

/-- An end record stands there, and its comment ends with the file. -/
def EndsAt (file : List UInt8) (position : ℕ) : Prop :=
  endSignature <+: file.drop position ∧ position + 22 + field file (position + 20) 2 = file.length

/-- No end record behind the archive's own has a comment that ends with the file. -/
def Archive.OneEnd {inflate : List UInt8 → Option (List UInt8)} (archive : Archive inflate) : Prop :=
  ∀ position, EndsAt archive.bytes position → position ≤ archive.endOffset

theorem endsAt_drop (file : List UInt8) (start position : ℕ) :
    EndsAt (file.drop start) position ↔ EndsAt file (start + position) := by
  have hplace : start + (position + 20) = start + position + 20 := by omega
  unfold EndsAt
  rw [List.drop_drop, field_drop, List.length_drop, hplace]
  exact and_congr_right fun _ => by omega

namespace Member
variable (member : Member) (rest : List UInt8)

theorem length_central :
    member.central.length =
      46 + member.name.length + member.extra.length + member.comment.length := by
  simp [central, centralParts, centralSignature, member.versions_length, member.stamp_length,
    member.attributes_length]
  omega

theorem central_field (i offset width n : ℕ) (hpart : member.centralParts[i]? = some (toBytes width n))
    (hn : n < 256 ^ width) (hoffset : (member.centralParts.take i).flatten.length = offset) :
    field (member.central ++ rest) offset width = n := by
  rw [← hoffset]
  exact field_flatten _ rest i width n hpart hn

theorem central_signature : centralSignature <+: member.central ++ rest := by
  unfold central centralParts
  rw [List.flatten_cons, List.append_assoc]
  exact List.prefix_append _ _

theorem central_flags : field (member.central ++ rest) 8 2 = member.flags := by
  apply central_field member rest 2 8 2 member.flags rfl member.flags_lt
  simp [centralParts, centralSignature, member.versions_length]

theorem central_method : field (member.central ++ rest) 10 2 = member.method := by
  apply central_field member rest 3 10 2 member.method rfl member.method_lt
  simp [centralParts, centralSignature, member.versions_length]

theorem central_stored : field (member.central ++ rest) 20 4 = member.stored.length := by
  have hlt := member.stored_lt
  unfold limit32 at hlt
  apply central_field member rest 5 20 4 member.stored.length rfl (by omega)
  simp [centralParts, centralSignature, member.versions_length, member.stamp_length]

theorem central_content : field (member.central ++ rest) 24 4 = member.content.length := by
  have hlt := member.content_lt
  unfold limit32 at hlt
  apply central_field member rest 6 24 4 member.content.length rfl (by omega)
  simp [centralParts, centralSignature, member.versions_length, member.stamp_length]

theorem central_nameLength : field (member.central ++ rest) 28 2 = member.name.length := by
  apply central_field member rest 7 28 2 member.name.length rfl member.name_lt
  simp [centralParts, centralSignature, member.versions_length, member.stamp_length]

theorem central_extraLength : field (member.central ++ rest) 30 2 = member.extra.length := by
  apply central_field member rest 8 30 2 member.extra.length rfl member.extra_lt
  simp [centralParts, centralSignature, member.versions_length, member.stamp_length]

theorem central_commentLength : field (member.central ++ rest) 32 2 = member.comment.length := by
  apply central_field member rest 9 32 2 member.comment.length rfl member.comment_lt
  simp [centralParts, centralSignature, member.versions_length, member.stamp_length]

theorem central_offset : field (member.central ++ rest) 42 4 = member.offset := by
  have hlt := member.offset_lt
  unfold limit32 at hlt
  apply central_field member rest 11 42 4 member.offset rfl (by omega)
  simp [centralParts, centralSignature, member.versions_length, member.stamp_length,
    member.attributes_length]

theorem central_name :
    ((member.central ++ rest).drop 46).take member.name.length = member.name := by
  have hsplit : member.central ++ rest = (member.centralParts.take 12).flatten ++
      (member.name ++ (member.extra ++ (member.comment ++ rest))) := by
    simp [central, centralParts]
  have hlead : (member.centralParts.take 12).flatten.length = 46 := by
    simp [centralParts, centralSignature, member.versions_length, member.stamp_length,
      member.attributes_length]
  rw [hsplit, List.drop_left' hlead, List.take_left]

theorem length_record :
    member.record.length =
      30 + member.name.length + member.localExtra.length + member.stored.length := by
  simp [record, localParts, localSignature, member.localLead_length]
  omega

theorem record_signature : localSignature <+: member.record ++ rest := by
  unfold record localParts
  rw [List.flatten_cons, List.append_assoc]
  exact List.prefix_append _ _

theorem record_nameLength : field (member.record ++ rest) 26 2 = member.name.length := by
  have hfield := field_flatten member.localParts rest 2 2 member.name.length rfl member.name_lt
  have hoffset : (member.localParts.take 2).flatten.length = 26 := by
    simp [localParts, localSignature, member.localLead_length]
  rwa [hoffset] at hfield

theorem record_extraLength : field (member.record ++ rest) 28 2 = member.localExtra.length := by
  have hfield :=
    field_flatten member.localParts rest 3 2 member.localExtra.length rfl member.localExtra_lt
  have hoffset : (member.localParts.take 3).flatten.length = 28 := by
    simp [localParts, localSignature, member.localLead_length]
  rwa [hoffset] at hfield

theorem record_stored :
    ((member.record ++ rest).drop (30 + member.name.length + member.localExtra.length)).take
      member.stored.length = member.stored := by
  have hsplit : member.record ++ rest =
      (member.localParts.take 6).flatten ++ (member.stored ++ rest) := by
    simp [record, localParts]
  have hlead : (member.localParts.take 6).flatten.length =
      30 + member.name.length + member.localExtra.length := by
    simp [localParts, localSignature, member.localLead_length]
    omega
  rw [hsplit, List.drop_left' hlead, List.take_left]

end Member

namespace Archive
variable {inflate : List UInt8 → Option (List UInt8)} (archive : Archive inflate)

theorem length_end : archive.endParts.flatten.length = 22 + archive.comment.length := by
  simp [endParts, endSignature]
  omega

theorem length_bytes : archive.bytes.length = archive.endOffset + (22 + archive.comment.length) := by
  unfold bytes endOffset
  rw [List.length_append, List.length_append, length_end]

theorem drop_endOffset : archive.bytes.drop archive.endOffset = archive.endParts.flatten := by
  unfold bytes endOffset
  rw [← List.length_append, List.drop_left]

theorem end_field (i offset width n : ℕ) (hpart : archive.endParts[i]? = some (toBytes width n))
    (hn : n < 256 ^ width) (hoffset : (archive.endParts.take i).flatten.length = offset) :
    field archive.bytes (archive.endOffset + offset) width = n := by
  have hfield := field_flatten archive.endParts [] i width n hpart hn
  rwa [List.append_nil, ← drop_endOffset, field_drop, hoffset] at hfield

theorem end_directoryLength :
    field archive.bytes (archive.endOffset + 12) 4 = archive.directory.length := by
  have hlt := archive.directory_lt
  unfold limit32 at hlt
  exact end_field archive 5 12 4 archive.directory.length rfl (by unfold directory; omega)
    (by simp [endParts, endSignature])

theorem end_directoryOffset :
    field archive.bytes (archive.endOffset + 16) 4 = archive.body.length := by
  have hlt := archive.body_lt
  unfold limit32 at hlt
  exact end_field archive 6 16 4 archive.body.length rfl (by omega) (by simp [endParts, endSignature])

theorem end_commentLength :
    field archive.bytes (archive.endOffset + 20) 2 = archive.comment.length :=
  end_field archive 7 20 2 archive.comment.length rfl archive.comment_lt
    (by simp [endParts, endSignature])

theorem endsAt : EndsAt archive.bytes archive.endOffset := by
  unfold EndsAt
  rw [drop_endOffset, end_commentLength, length_bytes]
  refine ⟨?_, by omega⟩
  unfold endParts
  rw [List.flatten_cons]
  exact List.prefix_append _ _

theorem directory_stands :
    (archive.bytes.drop archive.body.length).take archive.directory.length = archive.directory := by
  unfold bytes
  rw [List.append_assoc, List.drop_left, List.take_left]

theorem record_stands (member : Member) (h : member ∈ archive.members) :
    ∃ rest, archive.bytes.drop member.offset = member.record ++ rest := by
  obtain ⟨rest, hrest⟩ := archive.stands member h
  have hlength : member.record.length ≤ (archive.body.drop member.offset).length := by
    rw [← hrest, List.length_append]
    omega
  rw [Member.length_record, List.length_drop] at hlength
  refine ⟨rest ++ (archive.directory ++ archive.endParts.flatten), ?_⟩
  unfold bytes
  rw [List.append_assoc, List.drop_append_of_le_length (by omega), ← hrest, List.append_assoc]

end Archive
end Peryx.ZipFormat
