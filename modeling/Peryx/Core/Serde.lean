import Peryx.Core.Json

/-! # What derived `Deserialize` reads of a JSON value -/

namespace Peryx.Serde
open Json

def lookup (members : List (Str × Json)) (name : Str) : Option Json :=
  (members.find? fun member => member.1 = name).map (·.2)

def structFields (names : List Str) : Json → Option (Str → Option Json)
  | object members =>
    if ∀ name ∈ names, (members.map (·.1)).count name ≤ 1 then some (lookup members) else none
  | array items =>
    if items.length ≤ names.length then some fun name => items[names.idxOf name]? else none
  | _ => none

def unsigned (bits : Nat) : Json → Option Nat
  | number text => (Str.parseU64 text).filter fun value => value < 2 ^ bits
  | _ => none

def optional {α : Type} (read : Json → Option α) : Option Json → Option (Option α)
  | none | some null => some none
  | some value => (read value).map some

def defaulted {α : Type} (read : Json → Option α) : Option Json → Option (List α)
  | none => some []
  | some value => value.asArray.bind fun items => items.mapM read

def unitVariant : Json → Option Str
  | string name => some name
  | object [(name, null)] => some name
  | _ => none

def tagged (tag : Str) : Json → Option (Str × Json)
  | object members =>
    match members.filter fun member => member.1 = tag with
    | [(_, string name)] => some (name, object (members.filter fun member => member.1 ≠ tag))
    | _ => none
  | array (string name :: items) => some (name, array items)
  | _ => none

def skipNone {α : Type} (name : Str) (write : α → Json) : Option α → List (Str × Json)
  | none => []
  | some value => [(name, write value)]

def skipEmpty {α : Type} (name : Str) (write : α → Json) : List α → List (Str × Json)
  | [] => []
  | values => [(name, array (values.map write))]

theorem unsigned_decimal (bits n : Nat) (hbits : bits ≤ 64) (h : n < 2 ^ bits) :
    unsigned bits (number (Str.decimal n)) = some n := by
  have hwide : 2 ^ bits ≤ 2 ^ 64 := Nat.pow_le_pow_right (by decide) hbits
  show (Str.parseU64 (Str.decimal n)).filter (fun value => value < 2 ^ bits) = some n
  rw [Str.parseU64_decimal n (by omega), Option.filter_some]
  exact if_pos (decide_eq_true h)

theorem mapM_written {α β : Type} (read : Json → Option β) (write : α → Json) (form : α → β)
    (values : List α) (h : ∀ value ∈ values, read (write value) = some (form value)) :
    (values.map write).mapM read = some (values.map form) := by
  induction values with
  | nil => rfl
  | cons value values ih =>
    rw [List.map_cons, List.mapM_cons, h value List.mem_cons_self,
      ih fun v hv => h v (List.mem_cons_of_mem _ hv)]
    rfl

theorem mapM_map {α : Type} (read : Json → Option α) (write : α → Json) (values : List α)
    (h : ∀ value ∈ values, read (write value) = some value) :
    (values.map write).mapM read = some values :=
  (mapM_written read write id values h).trans (congrArg some (List.map_id values))

theorem structFields_object (names keys : List Str) (members : List (Str × Json))
    (hkeys : (members.map (·.1)).Sublist keys) (h : keys.Nodup) :
    structFields names (object members) = some (lookup members) :=
  if_pos fun name _ => List.nodup_iff_count_le_one.mp (hkeys.nodup h) name

theorem str_inj (a b : String) : str a = str b ↔ a = b := by
  unfold str
  constructor
  · intro h
    exact String.toByteArray_inj.mp (ByteArray.ext (Array.toList_inj.mp h))
  · intro h
    rw [h]

theorem lookup_nil (name : Str) : lookup [] name = none := rfl

theorem lookup_cons (key name : Str) (value : Json) (rest : List (Str × Json)) :
    lookup ((key, value) :: rest) name = if key = name then some value else lookup rest name := by
  unfold lookup
  rw [List.find?_cons]
  by_cases h : key = name
  · rw [if_pos h, decide_eq_true h]
    rfl
  · rw [if_neg h, decide_eq_false h]

theorem lookup_skipNone {α : Type} (key name : Str) (write : α → Json) (value : Option α)
    (rest : List (Str × Json)) : lookup (skipNone key write value ++ rest) name =
      if key = name then (value.map write).or (lookup rest name) else lookup rest name := by
  cases value with
  | none =>
    unfold skipNone
    rw [Option.map_none, Option.none_or, ite_self, List.nil_append]
  | some value =>
    unfold skipNone
    rw [List.cons_append, List.nil_append, lookup_cons]
    rfl

theorem lookup_skipEmpty {α : Type} (key name : Str) (write : α → Json) (values : List α)
    (rest : List (Str × Json)) : lookup (skipEmpty key write values ++ rest) name =
      if key = name ∧ values ≠ [] then some (array (values.map write)) else lookup rest name := by
  cases values with
  | nil =>
    unfold skipEmpty
    rw [if_neg fun h => h.2 rfl, List.nil_append]
  | cons value values =>
    unfold skipEmpty
    rw [List.cons_append, List.nil_append, lookup_cons]
    simp only [ne_eq, List.cons_ne_nil, not_false_eq_true, and_true]

theorem keys_skipNone {α : Type} (key : Str) (write : α → Json) (value : Option α) :
    ((skipNone key write value).map (·.1)).Sublist [key] := by
  cases value with
  | none => exact List.nil_sublist _
  | some value => exact List.Sublist.refl _

theorem keys_skipEmpty {α : Type} (key : Str) (write : α → Json) (values : List α) :
    ((skipEmpty key write values).map (·.1)).Sublist [key] := by
  cases values with
  | nil => exact List.nil_sublist _
  | cons value values => exact List.Sublist.refl _

theorem optional_map {α : Type} (read : Json → Option α) (write : α → Json) (value : Option α)
    (h : ∀ v ∈ value, write v ≠ null ∧ read (write v) = some v) :
    optional read (value.map write) = some value := by
  cases value with
  | none => rfl
  | some v =>
    obtain ⟨hne, hread⟩ := h v rfl
    rw [Option.map_some]
    unfold optional
    split
    · rename_i heq
      cases heq
    · rename_i heq
      exact absurd (Option.some.inj heq) hne
    · rename_i heq
      rw [← Option.some.inj heq, hread]
      rfl

theorem defaulted_map {α : Type} (read : Json → Option α) (write : α → Json) (values : List α)
    (h : ∀ value ∈ values, read (write value) = some value) :
    defaulted read (if values ≠ [] then some (array (values.map write)) else none) =
      some values := by
  cases values with
  | nil => rfl
  | cons value values =>
    rw [if_pos (List.cons_ne_nil _ _)]
    exact mapM_map read write _ h

def Members (depth : Nat) (members : List (Str × Json)) : Prop :=
  (∀ member ∈ members, Str.IsUtf8 member.1 ∧ member.2.Sound) ∧ nestingMembers members ≤ depth

variable {depth : Nat}

theorem Members.nil : Members depth [] :=
  ⟨fun _ h => absurd h List.not_mem_nil, by unfold nestingMembers; omega⟩

theorem Members.cons {members : List (Str × Json)} (key : String) (value : Json)
    (hsound : value.Sound) (hnesting : value.nesting ≤ depth) (h : Members depth members) :
    Members depth ((str key, value) :: members) := by
  constructor
  · rw [List.forall_mem_cons]
    exact ⟨⟨Str.isUtf8_str key, hsound⟩, h.1⟩
  · unfold nestingMembers
    exact Nat.max_le.mpr ⟨hnesting, h.2⟩

theorem Members.append {front back : List (Str × Json)} (hfront : Members depth front)
    (hback : Members depth back) : Members depth (front ++ back) := by
  induction front with
  | nil => exact hback
  | cons member front ih =>
    obtain ⟨hall, hdepth⟩ := hfront
    rw [List.forall_mem_cons] at hall
    unfold nestingMembers at hdepth
    rw [Nat.max_le] at hdepth
    obtain ⟨hrest, hnesting⟩ := ih ⟨hall.2, hdepth.2⟩
    constructor
    · rw [List.cons_append, List.forall_mem_cons]
      exact ⟨hall.1, hrest⟩
    · rw [List.cons_append]
      unfold nestingMembers
      exact Nat.max_le.mpr ⟨hdepth.1, hnesting⟩

theorem Members.skipNone {α : Type} (key : String) (write : α → Json) (value : Option α)
    (h : ∀ v ∈ value, (write v).Sound ∧ (write v).nesting ≤ depth) :
    Members depth (skipNone (str key) write value) := by
  cases value with
  | none => exact .nil
  | some v => exact .cons key _ (h v rfl).1 (h v rfl).2 .nil

theorem nestingItems_le (items : List Json) (h : ∀ item ∈ items, item.nesting ≤ depth) :
    nestingItems items ≤ depth := by
  induction items with
  | nil =>
    unfold nestingItems
    omega
  | cons item items ih =>
    rw [List.forall_mem_cons] at h
    unfold nestingItems
    exact Nat.max_le.mpr ⟨h.1, ih h.2⟩

theorem Members.skipEmpty {α : Type} (key : String) (write : α → Json) (values : List α)
    (h : ∀ value ∈ values, (write value).Sound ∧ (write value).nesting ≤ depth) :
    Members (depth + 1) (skipEmpty (str key) write values) := by
  cases values with
  | nil => exact .nil
  | cons value values =>
    refine .cons key _ (.array _ ?_) ?_ .nil
    · intro item hitem
      obtain ⟨v, hv, rfl⟩ := List.mem_map.mp hitem
      exact (h v hv).1
    · unfold nesting
      refine Nat.succ_le_succ (nestingItems_le _ fun item hitem => ?_)
      obtain ⟨v, hv, rfl⟩ := List.mem_map.mp hitem
      exact (h v hv).2

theorem Members.object {members : List (Str × Json)} (h : Members depth members) :
    (object members).Sound ∧ (object members).nesting ≤ depth + 1 := by
  constructor
  · exact .object members (fun member hmember => (h.1 member hmember).1)
      fun member hmember => (h.1 member hmember).2
  · unfold nesting
    exact Nat.succ_le_succ h.2

end Peryx.Serde
