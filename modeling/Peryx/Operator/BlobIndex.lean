import Peryx.Operator.Restored

/-! # The blob index reads back -/

namespace Peryx.Operator

open Storage (Bytes Rows digestFromHex)

theorem flatMap_newline (lines : List Str) :
    lines.flatMap (· ++ [0x0A]) = [0x0A].intercalate (lines ++ [[]]) := by
  induction lines with
  | nil => rfl
  | cons line lines ih =>
    rw [List.flatMap_cons, ih]
    cases lines with
    | nil => simp [List.intercalate_cons_cons]
    | cons next lines =>
      show _ = [0x0A].intercalate (line :: next :: (lines ++ [[]]))
      rw [List.intercalate_cons_cons]
      rfl

theorem bufLines_written (lines : List Str) (hnewline : ∀ line ∈ lines, 0x0A ∉ line)
    (hreturn : ∀ line ∈ lines, Str.stripSuffix line [0x0D] = none) :
    bufLines (lines.flatMap (· ++ [0x0A])) = lines := by
  unfold bufLines
  have hparts : (lines.flatMap (· ++ [0x0A])).splitOn 0x0A = lines ++ [[]] := by
    rw [flatMap_newline]
    refine List.splitOn_intercalate 0x0A (fun line hline => ?_) (by simp)
    rw [List.mem_append, List.mem_singleton] at hline
    obtain hline | rfl := hline
    · exact hnewline line hline
    · exact List.not_mem_nil
  rw [hparts]
  simp only [List.dropLast_concat, List.getLast?_concat, Option.getD_some, if_true, List.append_nil]
  refine (List.map_congr_left fun line hline => ?_).trans (List.map_id _)
  rw [hreturn line hline]
  rfl

def rowText (row : Str × UInt64) : Str :=
  [0x09].intercalate [row.1, u64 row.2, backupBlobRelpath row.1]

theorem relpath_bytes (digest : Str) (h : digestFromHex digest = some digest) :
    ∀ byte ∈ backupBlobRelpath digest, 0x20 ≤ byte ∧ byte < 0x80 := by
  have hhex := (digest_hex digest h).2
  have hrange : ∀ byte ∈ digest, 0x20 ≤ byte ∧ byte < 0x80 := by
    intro byte hbyte
    obtain ⟨hlow, hhigh⟩ | ⟨hlow, hhigh⟩ := hhex byte hbyte <;>
      simp only [UInt8.le_iff_toNat_le, UInt8.lt_iff_toNat_lt] at * <;>
      exact ⟨le_trans (by decide) hlow, lt_of_le_of_lt hhigh (by decide)⟩
  have hnames : ∀ byte ∈ str "blobs" ++ str "sha256", 0x20 ≤ byte ∧ byte < 0x80 :=
    Str.forall_of_all (by decide)
  intro byte hbyte
  obtain rfl | ⟨component, hcomponent, hin⟩ := Str.mem_intercalate 0x2F byte _ hbyte
  · decide
  · simp only [blobComponents, List.mem_cons, List.not_mem_nil, or_false] at hcomponent
    obtain heq | heq | heq | heq | heq := hcomponent <;> rw [heq] at hin
    · exact hnames byte (List.mem_append_left _ hin)
    · exact hnames byte (List.mem_append_right _ hin)
    · exact hrange byte (List.mem_of_mem_take hin)
    · exact hrange byte (List.mem_of_mem_drop (List.mem_of_mem_take hin))
    · exact hrange byte hin

theorem u64_bytes (size : UInt64) : ∀ byte ∈ u64 size, 0x20 ≤ byte ∧ byte < 0x80 := by
  intro byte hbyte
  obtain ⟨hlow, hhigh⟩ := (Str.decimal_digits size.toNat).2 byte hbyte
  simp only [UInt8.le_iff_toNat_le, UInt8.lt_iff_toNat_lt] at *
  exact ⟨le_trans (by decide) hlow, lt_of_le_of_lt hhigh (by decide)⟩

def RowOk (row : Str × UInt64) : Prop := digestFromHex row.1 = some row.1

theorem row_components (row : Str × UInt64) (h : RowOk row) :
    ∀ part ∈ [row.1, u64 row.2, backupBlobRelpath row.1], ∀ byte ∈ part, 0x20 ≤ byte ∧ byte < 0x80 := by
  simp only [List.forall_mem_cons]
  refine ⟨fun byte hbyte => ?_, u64_bytes row.2, relpath_bytes row.1 h, List.forall_mem_nil _⟩
  refine relpath_bytes row.1 h byte ?_
  simp [backupBlobRelpath, blobComponents, List.intercalate_cons_cons, hbyte]

theorem rowText_bytes (row : Str × UInt64) (h : RowOk row) :
    ∀ byte ∈ rowText row, byte = 0x09 ∨ 0x20 ≤ byte ∧ byte < 0x80 := by
  intro byte hbyte
  obtain heq | ⟨part, hpart, hin⟩ := Str.mem_intercalate 0x09 byte _ hbyte
  · exact Or.inl heq
  · exact Or.inr (row_components row h part hpart byte hin)

theorem rowText_getLast (row : Str × UInt64) (h : RowOk row) :
    Str.stripSuffix (rowText row) [0x0D] = none := by
  cases hstrip : Str.stripSuffix (rowText row) [0x0D] with
  | none => rfl
  | some base =>
    have heq := Str.stripSuffix_eq_some _ _ _ hstrip
    have hmem : (0x0D : UInt8) ∈ rowText row := by
      rw [heq]
      exact List.mem_append_right _ List.mem_cons_self
    have hbytes := rowText_bytes row h 0x0D hmem
    exact absurd hbytes (by decide)

theorem indexRow_written (state : IndexState) (number : Nat) (row : Str × UInt64) (h : RowOk row)
    (hnew : state.entries[row.1]? = none) : indexRow state number (rowText row) =
      ⟨state.entries.insert row.1 ⟨row.2, backupBlobRelpath row.1⟩, state.report⟩ := by
  have hparts : (rowText row).splitOn 0x09 = [row.1, u64 row.2, backupBlobRelpath row.1] := by
    refine List.splitOn_intercalate 0x09 (fun part hpart hmem => ?_) (List.cons_ne_nil _ _)
    exact absurd (row_components row h part hpart 0x09 hmem).1 (by decide)
  have hne : rowText row ≠ [] := by
    intro hnil
    rw [hnil] at hparts
    exact absurd (congrArg List.length hparts) (by simp)
  have hsize : Str.parseU64 (u64 row.2) = some row.2.toNat :=
    Str.parseU64_decimal row.2.toNat (UInt64.toNat_lt row.2)
  unfold indexRow
  dsimp only
  rw [if_neg hne, hparts]
  dsimp only
  rw [show digestFromHex row.1 = some row.1 from h, hsize]
  dsimp only
  rw [hnew, UInt64.ofNat_toNat]
  simp

def rowTable (entries : Table Str BlobIndexEntry) (rows : List (Str × UInt64)) : Table Str BlobIndexEntry :=
  rows.foldl (fun entries row => entries.insert row.1 ⟨row.2, backupBlobRelpath row.1⟩) entries

theorem indexLines_written (path : FilePath) (rows : List (Str × UInt64)) (state : IndexState)
    (start : Nat) (hstart : start ≠ 0) (hok : ∀ row ∈ rows, RowOk row)
    (hnodup : (rows.map Prod.fst).Nodup) (hnew : ∀ row ∈ rows, state.entries[row.1]? = none) :
    ((rows.map rowText).zipIdx start).foldlM (indexStep path) state =
      .ok ⟨rowTable state.entries rows, state.report⟩ := by
  induction rows generalizing state start with
  | nil => rfl
  | cons row rows ih =>
    obtain ⟨hrow, hrows⟩ := List.forall_mem_cons.mp hok
    obtain ⟨hfirst, hrest⟩ := List.forall_mem_cons.mp hnew
    obtain ⟨hout, hnodup'⟩ := List.nodup_cons.mp hnodup
    have hutf8 : (Str.fromUtf8 (rowText row)).isSome = true := by
      have htext : Str.IsUtf8 (rowText row) := Str.isUtf8_ascii _ fun byte hbyte => by
        obtain rfl | ⟨_, hlt⟩ := rowText_bytes row hrow byte hbyte
        · decide
        · exact hlt
      rw [show Str.fromUtf8 (rowText row) = some (rowText row) from htext]
      rfl
    have hstep : indexStep path state (rowText row, start) =
        .ok ⟨state.entries.insert row.1 ⟨row.2, backupBlobRelpath row.1⟩, state.report⟩ := by
      unfold indexStep
      dsimp only
      rw [hutf8, show ensure true _ = Except.ok () from rfl, ok_bind, if_neg hstart,
        indexRow_written state _ row hrow hfirst]
      rfl
    rw [List.map_cons, List.zipIdx_cons, List.foldlM_cons, hstep, ok_bind]
    refine ih _ (start + 1) (Nat.succ_ne_zero start) hrows hnodup' fun later hlater => ?_
    have hne : row.1 ≠ later.1 := fun heq => hout (heq ▸ List.mem_map_of_mem hlater)
    exact (Table.getElem?_set_of_ne state.entries row.1 later.1 (some _) hne).trans (hrest later hlater)

theorem indexed_written (path : FilePath) (rows : List (Str × UInt64)) (hok : ∀ row ∈ rows, RowOk row)
    (hnodup : (rows.map Prod.fst).Nodup) :
    Indexed path (blobIndexHeader ++ [0x0A] ++ rows.flatMap fun row => indexLine row.1 row.2)
      (rowTable ∅ rows) := by
  have hlines : blobIndexHeader ++ [0x0A] ++ rows.flatMap (fun row => indexLine row.1 row.2) =
      (blobIndexHeader :: rows.map rowText).flatMap (· ++ [0x0A]) := by
    rw [List.flatMap_cons, List.flatMap_map]
    rfl
  have hbuf : bufLines ((blobIndexHeader :: rows.map rowText).flatMap (· ++ [0x0A])) =
      blobIndexHeader :: rows.map rowText := by
    refine bufLines_written _ ?_ ?_
    · rw [List.forall_mem_cons]
      refine ⟨by decide, fun line hline hmem => ?_⟩
      obtain ⟨row, hrow, rfl⟩ := List.mem_map.mp hline
      exact absurd (rowText_bytes row (hok row hrow) 0x0A hmem) (by decide)
    · rw [List.forall_mem_cons]
      refine ⟨by decide, fun line hline => ?_⟩
      obtain ⟨row, hrow, rfl⟩ := List.mem_map.mp hline
      exact rowText_getLast row (hok row hrow)
  unfold Indexed readBlobIndex
  rw [hlines, hbuf, List.zipIdx_cons, List.foldlM_cons]
  have hheader : indexStep path ⟨∅, ⟨0, []⟩⟩ (blobIndexHeader, 0) = .ok ⟨∅, ⟨0, []⟩⟩ := by
    have hutf8 : (Str.fromUtf8 blobIndexHeader).isSome = true := by decide +kernel
    unfold indexStep
    dsimp only
    rw [hutf8, show ensure true _ = Except.ok () from rfl, ok_bind]
    simp
    rfl
  rw [hheader, ok_bind]
  exact indexLines_written path rows ⟨∅, ⟨0, []⟩⟩ 1 (by decide) hok hnodup fun row _ => by simp

end Peryx.Operator
