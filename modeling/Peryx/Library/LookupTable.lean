import Peryx.Library.Table

/-!
# Tables that find items by a key of theirs

Beside a table of items a store keeps a second one, from a key that an item may have to the
item.
-/

namespace Peryx

namespace Table
variable {κ ι : Type} [Ord κ] [Std.TransOrd κ] [Std.LawfulEqOrd κ]

def Finds (table : Table κ ι) (keyOf : ι → Option κ) : Prop :=
  ∀ key item, table[key]? = some item ↔ keyOf item = some key

def clear (table : Table κ ι) : Option κ → Table κ ι
  | some key => table.erase key
  | none => table

/-- Clear one row and put another, if there is one to clear and one to put. -/
def move (table : Table κ ι) (old new : Option κ) (item : ι) : Table κ ι :=
  match new with
  | some key => (table.clear old).insert key item
  | none => table.clear old

variable {table : Table κ ι} {keyOf : ι → Option κ}

omit [Std.LawfulEqOrd κ] in
theorem Finds.inj (h : table.Finds keyOf) {key : κ} {a b : ι} (ha : keyOf a = some key)
    (hb : keyOf b = some key) : a = b := by
  have hrow := (h key a).mpr ha
  rw [(h key b).mpr hb] at hrow
  exact (Option.some.inj hrow).symm

omit [Std.LawfulEqOrd κ] in
theorem finds_empty (h : ∀ item, keyOf item = none) : (∅ : Table κ ι).Finds keyOf := by
  intro key item
  rw [h item, Std.ExtTreeMap.getElem?_empty]
  simp

omit [Std.LawfulEqOrd κ] in
theorem Finds.congr (h : table.Finds keyOf) {keyOf' : ι → Option κ}
    (heq : ∀ item, keyOf' item = keyOf item) : table.Finds keyOf' := by
  intro key item
  rw [heq item]
  exact h key item

theorem getElem?_clear [DecidableEq κ] (table : Table κ ι) (old : Option κ) (key : κ) :
    (table.clear old)[key]? = if old = some key then none else table[key]? := by
  cases old with
  | none => simp [clear]
  | some cleared =>
    have hrow := getElem?_set table cleared key none
    simp only [Option.some.injEq]
    exact hrow

theorem getElem?_move [DecidableEq κ] (table : Table κ ι) (old new : Option κ) (item : ι)
    (key : κ) : (table.move old new item)[key]? =
      if new = some key then some item else if old = some key then none else table[key]? := by
  rw [← getElem?_clear table old key]
  cases new with
  | none => simp [move]
  | some put =>
    have hrow := getElem?_set (table.clear old) put key (some item)
    simp only [Option.some.injEq]
    exact hrow

theorem Finds.move [DecidableEq κ] [DecidableEq ι] (h : table.Finds keyOf) (old new : Option κ)
    (item : ι) (hown : ∀ key, keyOf item = some key → old = some key)
    (hold : ∀ key other, old = some key → keyOf other = some key → other = item)
    (hnew : ∀ key other, new = some key → keyOf other = some key → other = item) :
    (table.move old new item).Finds fun other => if other = item then new else keyOf other := by
  intro key other
  dsimp only
  rw [getElem?_move]
  by_cases hput : new = some key
  · rw [if_pos hput, Option.some.injEq]
    by_cases hother : other = item
    · simp [hother, hput]
    · rw [if_neg hother]
      constructor
      · exact fun heq => absurd heq.symm hother
      · exact fun hkey => absurd (hnew key other hput hkey) hother
  · rw [if_neg hput]
    by_cases hother : other = item
    · rw [if_pos hother, hother]
      constructor
      · intro hrow
        split at hrow
        · cases hrow
        · rename_i hcleared
          exact absurd (hown key ((h key item).mp hrow)) hcleared
      · exact fun hkey => absurd hkey hput
    · rw [if_neg hother]
      split
      · rename_i hcleared
        constructor
        · exact nofun
        · exact fun hkey => absurd (hold key other hcleared hkey) hother
      · exact h key other

theorem eq_of_keys_sorted {V : Type} {a b : List (κ × V)}
    (ha : a.Pairwise fun row next => compare row.1 next.1 = .lt)
    (hb : b.Pairwise fun row next => compare row.1 next.1 = .lt)
    (h : ∀ row, row ∈ a ↔ row ∈ b) : a = b := by
  have hirrefl : ∀ row : κ × V, compare row.1 row.1 ≠ .lt := by
    intro row hlt
    have hself : compare row.1 row.1 = .eq := Std.ReflCmp.compare_self
    rw [hself] at hlt
    cases hlt
  have hnodup : ∀ rows : List (κ × V),
      rows.Pairwise (fun row next => compare row.1 next.1 = .lt) → rows.Nodup := by
    intro rows hrows
    refine hrows.imp ?_
    rintro row next hlt rfl
    exact hirrefl row hlt
  have hanti : ∀ row next, row ∈ a → next ∈ b → compare row.1 next.1 = .lt →
      compare next.1 row.1 = .lt → row = next :=
    fun row next _ _ hlt hgt => absurd (Std.TransCmp.lt_trans hlt hgt) (hirrefl row)
  exact List.Perm.eq_of_pairwise hanti ha hb
    ((List.perm_ext_iff_of_nodup (hnodup a ha) (hnodup b hb)).mpr h)

end Table
end Peryx
