import Mathlib.Data.Finset.Card
import Mathlib.Data.Finset.Dedup
import Mathlib.Data.List.Perm.Basic
import Peryx.Library.Table

/-!
# Rows merged under their keys

Items are merged into a table one after the other.
-/

namespace Peryx.Table
variable {κ V : Type} [Ord κ] [Std.TransOrd κ] [Std.LawfulEqOrd κ] [DecidableEq κ]
  (join : V → V → V)

def merge : Table κ V → List (κ × V) → Nat × Table κ V
  | table, [] => (0, table)
  | table, (key, value) :: items =>
    match table[key]? with
    | none =>
      let (fresh, table) := merge (table.insert key value) items
      (fresh + 1, table)
    | some current => merge (table.insert key (join current value)) items

def keepFirst (current _ : V) : V := current

def valuesOf (items : List (κ × V)) (key : κ) : List V :=
  items.filterMap fun item => if item.1 = key then some item.2 else none

def joined (row : Option V) (values : List V) : Option V :=
  values.foldl (fun row value => some (row.elim value fun current => join current value)) row

def freshKeys (table : Table κ V) (items : List (κ × V)) : Finset κ :=
  (items.map Prod.fst).toFinset.filter fun key => table[key]? = none

variable {join}

theorem getElem?_put (table : Table κ V) (key other : κ) (value : V) :
    (table.insert key value)[other]? = if key = other then some value else table[other]? :=
  getElem?_set table key other (some value)

omit [Ord κ] [Std.TransOrd κ] [Std.LawfulEqOrd κ] in
theorem mem_valuesOf (items : List (κ × V)) (key : κ) (value : V) :
    value ∈ valuesOf items key ↔ (key, value) ∈ items := by
  unfold valuesOf
  rw [List.mem_filterMap]
  constructor
  · rintro ⟨⟨found, other⟩, hitem, hvalue⟩
    split at hvalue
    · rename_i heq
      cases heq
      cases hvalue
      exact hitem
    · cases hvalue
  · exact fun h => ⟨(key, value), h, if_pos rfl⟩

omit [Ord κ] [Std.TransOrd κ] [Std.LawfulEqOrd κ] in
theorem valuesOf_cons (item : κ × V) (items : List (κ × V)) (key : κ) :
    valuesOf (item :: items) key =
      if item.1 = key then item.2 :: valuesOf items key else valuesOf items key := by
  unfold valuesOf
  rw [List.filterMap_cons]
  split
  · rename_i hnone
    rw [if_neg fun heq => by rw [if_pos heq] at hnone; cases hnone]
  · rename_i value hsome
    split at hsome
    · rename_i heq
      cases hsome
      rw [if_pos heq]
    · cases hsome

theorem merge_row (table : Table κ V) (items : List (κ × V)) (key : κ) :
    (merge join table items).2[key]? = joined join table[key]? (valuesOf items key) := by
  induction items generalizing table with
  | nil => rfl
  | cons item items ih =>
    obtain ⟨written, value⟩ := item
    rw [valuesOf_cons]
    unfold merge
    cases hrow : table[written]? with
    | none =>
      rw [ih, getElem?_put]
      dsimp only
      split
      · rename_i heq
        rw [← heq, hrow]
        rfl
      · rfl
    | some current =>
      rw [ih, getElem?_put]
      dsimp only
      split
      · rename_i heq
        rw [← heq, hrow]
        rfl
      · rfl

theorem freshKeys_insert (table : Table κ V) (items : List (κ × V)) (key : κ) (value : V) :
    freshKeys (table.insert key value) items = (freshKeys table items).erase key := by
  unfold freshKeys
  ext other
  rw [Finset.mem_filter, Finset.mem_erase, Finset.mem_filter, getElem?_put]
  constructor
  · rintro ⟨hmem, hrow⟩
    split at hrow
    · cases hrow
    · rename_i hne
      exact ⟨Ne.symm hne, hmem, hrow⟩
  · rintro ⟨hne, hmem, hrow⟩
    rw [if_neg (Ne.symm hne)]
    exact ⟨hmem, hrow⟩

theorem merge_count (table : Table κ V) (items : List (κ × V)) :
    (merge join table items).1 = (freshKeys table items).card := by
  induction items generalizing table with
  | nil => rfl
  | cons item items ih =>
    obtain ⟨key, value⟩ := item
    have hcons : ∀ table : Table κ V, freshKeys table ((key, value) :: items) =
        if table[key]? = none then insert key (freshKeys table items) else freshKeys table items := by
      intro table
      unfold freshKeys
      rw [List.map_cons, List.toFinset_cons, Finset.filter_insert]
    rw [hcons]
    unfold merge
    cases hrow : table[key]? with
    | none =>
      show (merge join (table.insert key value) items).1 + 1 = _
      rw [ih, freshKeys_insert, if_pos rfl, ← Finset.erase_insert_eq_erase,
        Finset.card_erase_add_one (Finset.mem_insert_self key _)]
    | some current =>
      rw [if_neg (by simp)]
      show (merge join (table.insert key (join current value)) items).1 = _
      rw [ih, freshKeys_insert, Finset.erase_eq_of_notMem]
      intro hmem
      have hnone := (Finset.mem_filter.mp hmem).2
      rw [hrow] at hnone
      cases hnone

omit [Std.LawfulEqOrd κ] [DecidableEq κ] in
theorem merge_append (table : Table κ V) (items more : List (κ × V)) :
    merge join table (items ++ more) =
      ((merge join table items).1 + (merge join (merge join table items).2 more).1,
        (merge join (merge join table items).2 more).2) := by
  induction items generalizing table with
  | nil =>
    show _ = (0 + _, _)
    rw [Nat.zero_add]
    rfl
  | cons item items ih =>
    obtain ⟨key, value⟩ := item
    rw [List.cons_append, merge, merge]
    cases table[key]? with
    | none =>
      dsimp only
      rw [ih, Nat.add_right_comm]
    | some current => exact ih _

omit [Ord κ] [Std.TransOrd κ] [Std.LawfulEqOrd κ] in
theorem valuesOf_perm {items items' : List (κ × V)} (h : items.Perm items') (key : κ) :
    (valuesOf items key).Perm (valuesOf items' key) :=
  h.filterMap _

theorem merge_count_perm (table : Table κ V) {items items' : List (κ × V)} (h : items.Perm items') :
    (merge join table items).1 = (merge join table items').1 := by
  rw [merge_count, merge_count]
  unfold freshKeys
  rw [List.toFinset_eq_of_perm _ _ (h.map Prod.fst)]

theorem merge_perm (hcomm : ∀ a b, join a b = join b a)
    (hassoc : ∀ a b c, join (join a b) c = join a (join b c)) (table : Table κ V)
    {items items' : List (κ × V)} (h : items.Perm items') :
    merge join table items = merge join table items' := by
  refine Prod.ext (merge_count_perm table h) (Std.ExtTreeMap.ext_getElem? fun key => ?_)
  rw [merge_row, merge_row]
  have hright : RightCommutative fun (row : Option V) value =>
      some (row.elim value fun current => join current value) := by
    constructor
    intro row a b
    cases row with
    | none => exact congrArg some (hcomm a b)
    | some current =>
      show some (join (join current a) b) = some (join (join current b) a)
      rw [hassoc, hassoc, hcomm a b]
  exact (valuesOf_perm h key).foldl_eq _

theorem merge_first_perm_iff {I : Type} (f : I → κ × V) (table : Table κ V) (items : List I) :
    (∀ items' : List I, items'.Perm items →
      ∀ key : κ, (merge keepFirst table (items'.map f)).2[key]? =
        (merge keepFirst table (items.map f)).2[key]?) ↔
    ∀ a ∈ items, ∀ b ∈ items, (f a).1 = (f b).1 → table[(f a).1]? = none → (f a).2 = (f b).2 := by
  have hjoined : ∀ (row : Option V) (values : List V),
      joined keepFirst row values = row.or values.head? := by
    intro row values
    induction values generalizing row with
    | nil => exact Option.or_none.symm
    | cons value values ih =>
      rw [joined, List.foldl_cons]
      refine (ih _).trans ?_
      cases row with
      | none => rfl
      | some current => rfl
  have hrow : ∀ (items : List I) (key : κ), (merge keepFirst table (items.map f)).2[key]? =
      table[key]?.or (valuesOf (items.map f) key).head? :=
    fun items key => (merge_row table _ key).trans (hjoined _ _)
  constructor
  · intro hsame a ha b hb hkey hfresh
    have hhead : ∀ item ∈ items, (f item).1 = (f a).1 →
        (merge keepFirst table (items.map f)).2[(f a).1]? = some (f item).2 := by
      intro item hitem heq
      obtain ⟨front, rest, hsplit⟩ := List.append_of_mem hitem
      have hperm : (item :: (front ++ rest)).Perm items := hsplit ▸ List.perm_middle.symm
      rw [← hsame _ hperm, hrow, hfresh, List.map_cons, valuesOf_cons, if_pos heq]
      rfl
    exact Option.some.inj ((hhead a ha rfl).symm.trans (hhead b hb hkey.symm))
  · intro hequal items' hperm key
    rw [hrow, hrow]
    cases hfresh : table[key]? with
    | some current => rfl
    | none =>
      rw [Option.none_or, Option.none_or]
      have hmem := fun value => (valuesOf_perm (hperm.map f) key).mem_iff (a := value)
      have hsingle : ∀ value ∈ valuesOf (items.map f) key,
          ∀ other ∈ valuesOf (items.map f) key, value = other := by
        intro value hvalue other hother
        obtain ⟨a, ha, hfa⟩ := List.mem_map.mp ((mem_valuesOf _ _ _).mp hvalue)
        obtain ⟨b, hb, hfb⟩ := List.mem_map.mp ((mem_valuesOf _ _ _).mp hother)
        have heq := hequal a ha b hb
        rw [hfa, hfb] at heq
        exact heq rfl hfresh
      cases hvalues : valuesOf (items'.map f) key with
      | nil =>
        rw [hvalues] at hmem
        rw [List.eq_nil_iff_forall_not_mem.mpr fun value hvalue =>
          List.not_mem_nil ((hmem value).mpr hvalue)]
      | cons value values =>
        have hvalue := (hmem value).mp (by rw [hvalues]; exact List.mem_cons_self)
        cases hother : valuesOf (items.map f) key with
        | nil =>
          rw [hother] at hvalue
          cases hvalue
        | cons other others =>
          rw [hsingle value hvalue other (by rw [hother]; exact List.mem_cons_self)]
          rfl

end Peryx.Table
