import Peryx.Core.Text

/-!
# The tags of a page of HTML

A scanner of the plain part of HTML: texts, tags whose attributes have double-quoted values
and names of their own, and declarations. A page outside of it has no tags here.
-/

namespace Peryx.Html

inductive Tag where
  | start (name : Str) (attributes : List (Str × Str)) (selfClosing : Bool)
  | stop (name : Str)
  | declaration (body : Str)
  deriving Repr, DecidableEq

inductive State where
  | text
  | opened
  | declared (body : Str)
  | stopping (name : Str)
  | naming (name : Str)
  | between (name : Str) (attributes : List (Str × Str))
  | keyed (name : Str) (attributes : List (Str × Str)) (key : Str)
  | equals (name : Str) (attributes : List (Str × Str)) (key : Str)
  | valued (name : Str) (attributes : List (Str × Str)) (key value : Str)
  | quoted (name : Str) (attributes : List (Str × Str))
  | slashed (name : Str) (attributes : List (Str × Str))
  deriving Repr, DecidableEq

def isAlphanumeric (byte : UInt8) : Bool :=
  (0x30 ≤ byte && byte ≤ 0x39) || (0x41 ≤ byte && byte ≤ 0x5A) || (0x61 ≤ byte && byte ≤ 0x7A)

def isName (byte : UInt8) : Bool := isAlphanumeric byte || byte == 0x2D

def step : State → UInt8 → Option (State × List Tag)
  | .text, byte => some (if byte = 0x3C then .opened else .text, [])
  | .opened, byte =>
    if byte = 0x21 then some (.declared [], [])
    else if byte = 0x2F then some (.stopping [], [])
    else if isName byte then some (.naming [byte], []) else none
  | .declared body, byte =>
    if byte = 0x3E then some (.text, [.declaration body])
    else if isAlphanumeric byte ∨ byte = 0x20 then some (.declared (body ++ [byte]), []) else none
  | .stopping name, byte =>
    if byte = 0x3E then some (.text, [.stop name])
    else if isName byte then some (.stopping (name ++ [byte]), []) else none
  | .naming name, byte =>
    if byte = 0x3E then some (.text, [.start name [] false])
    else if byte = 0x20 then some (.between name [], [])
    else if isName byte then some (.naming (name ++ [byte]), []) else none
  | .between name attributes, byte =>
    if byte = 0x2F then some (.slashed name attributes, [])
    else if isName byte then some (.keyed name attributes [byte], []) else none
  | .keyed name attributes key, byte =>
    if byte = 0x3D then
      if key ∈ attributes.map (·.1) then none else some (.equals name attributes key, [])
    else if isName byte then some (.keyed name attributes (key ++ [byte]), []) else none
  | .equals name attributes key, byte =>
    if byte = 0x22 then some (.valued name attributes key [], []) else none
  | .valued name attributes key value, byte =>
    if byte = 0x22 then some (.quoted name (attributes ++ [(key, value)]), [])
    else some (.valued name attributes key (value ++ [byte]), [])
  | .quoted name attributes, byte =>
    if byte = 0x3E then some (.text, [.start name attributes false])
    else if byte = 0x20 then some (.between name attributes, []) else none
  | .slashed name attributes, byte =>
    if byte = 0x3E then some (.text, [.start name attributes true]) else none

def run : State → Str → Option (State × List Tag)
  | state, [] => some (state, [])
  | state, byte :: rest =>
    (step state byte).bind fun stepped =>
      (run stepped.1 rest).map fun ended => (ended.1, stepped.2 ++ ended.2)

def tags (page : Str) : Option (List Tag) :=
  (run .text page).bind fun ended => if ended.1 = .text then some ended.2 else none

def Tag.shape : Tag → Tag
  | .start name attributes selfClosing =>
    .start name (attributes.map fun pair => (pair.1, [])) selfClosing
  | .stop name => .stop name
  | .declaration body => .declaration body

def outline (page : Str) : Option (List Tag) := (tags page).map fun tags => tags.map Tag.shape

def starts (tags : List Tag) : List (Str × List (Str × Str)) :=
  tags.filterMap fun
    | .start name attributes _ => some (name, attributes)
    | _ => none

theorem run_append {state middle last : State} {front back : Str} {found more : List Tag}
    (hfront : run state front = some (middle, found)) (hback : run middle back = some (last, more)) :
    run state (front ++ back) = some (last, found ++ more) := by
  induction front generalizing state found with
  | nil =>
    obtain ⟨rfl, rfl⟩ := Prod.mk.inj (Option.some.inj hfront)
    exact hback
  | cons byte front ih =>
    rw [run, Option.bind_eq_some_iff] at hfront
    obtain ⟨stepped, hstep, hrest⟩ := hfront
    rw [Option.map_eq_some_iff] at hrest
    obtain ⟨ended, hrun, heq⟩ := hrest
    obtain ⟨rfl, rfl⟩ := Prod.mk.inj heq
    rw [List.cons_append, run, hstep, Option.bind_some, ih hrun, Option.map_some, List.append_assoc]

theorem run_collect (collect : Str → State) (accepts : UInt8 → Prop)
    (hstep : ∀ read byte, accepts byte → step (collect read) byte = some (collect (read ++ [byte]), []))
    (read more : Str) (h : ∀ byte ∈ more, accepts byte) :
    run (collect read) more = some (collect (read ++ more), []) := by
  induction more generalizing read with
  | nil => rw [run, List.append_nil]
  | cons byte more ih =>
    have hmore := ih (read ++ [byte]) fun other hother => h other (List.mem_cons_of_mem _ hother)
    rw [run, hstep read byte (h byte List.mem_cons_self), Option.bind_some, hmore,
      Option.map_some, List.append_assoc]
    rfl

theorem run_byte {state next : State} {found : List Tag} {byte : UInt8}
    (h : step state byte = some (next, found)) : run state [byte] = some (next, found) := by
  rw [run, h, Option.bind_some]
  simp only [run, Option.map_some, List.append_nil]

def IsName (name : Str) : Prop := name ≠ [] ∧ ∀ byte ∈ name, isName byte = true

instance : DecidablePred IsName := fun name =>
  decidable_of_iff (name ≠ [] ∧ name.all isName = true) (and_congr_right fun _ => List.all_eq_true)

def writeAttribute (pair : Str × Str) : Str :=
  0x20 :: pair.1 ++ [0x3D, 0x22] ++ pair.2 ++ [0x22]

def startTag (name : Str) (attributes : List (Str × Str)) : Str :=
  0x3C :: name ++ attributes.flatMap writeAttribute ++ [0x3E]

def emptyTag (name : Str) : Str := 0x3C :: name ++ [0x20, 0x2F, 0x3E]

def stopTag (name : Str) : Str := 0x3C :: 0x2F :: name ++ [0x3E]

theorem isName_ne {byte : UInt8} (h : isName byte = true) :
    byte ≠ 0x20 ∧ byte ≠ 0x21 ∧ byte ≠ 0x2F ∧ byte ≠ 0x3D ∧ byte ≠ 0x3E := by
  refine ⟨?_, ?_, ?_, ?_, ?_⟩ <;> rintro rfl <;> exact absurd h (by decide)

theorem run_naming (name : Str) (h : IsName name) :
    run .text (0x3C :: name) = some (.naming name, []) := by
  obtain ⟨hne, hall⟩ := h
  obtain ⟨byte, rest, rfl⟩ := List.exists_cons_of_ne_nil hne
  rw [List.forall_mem_cons] at hall
  have hbyte := isName_ne hall.1
  have hfirst : run .opened [byte] = some (.naming [byte], []) := by
    refine run_byte ?_
    rw [step, if_neg hbyte.2.1, if_neg hbyte.2.2.1, if_pos hall.1]
  have hrest : run (.naming [byte]) rest = some (.naming (byte :: rest), []) := by
    refine run_collect .naming (fun byte => isName byte = true)
      (fun read next hnext => ?_) [byte] rest hall.2
    have hne := isName_ne hnext
    rw [step, if_neg hne.2.2.2.2, if_neg hne.1, if_pos hnext]
  have hopen : run .text [0x3C] = some (.opened, []) := rfl
  exact run_append hopen (run_append hfirst hrest)

theorem run_stopping (name : Str) (h : ∀ byte ∈ name, isName byte = true) :
    run .text (0x3C :: 0x2F :: name) = some (.stopping name, []) := by
  have hname : run (.stopping []) name = some (.stopping name, []) := by
    refine run_collect .stopping (fun byte => isName byte = true) (fun read next hnext => ?_) [] name h
    rw [step, if_neg (isName_ne hnext).2.2.2.2, if_pos hnext]
  have hopen : run .text [0x3C, 0x2F] = some (.stopping [], []) := rfl
  exact run_append hopen hname

theorem run_attribute (name : Str) (attributes : List (Str × Str)) (key value : Str)
    (hkey : IsName key) (hnew : key ∉ attributes.map (·.1)) (hvalue : 0x22 ∉ value) :
    run (.between name attributes) (key ++ [0x3D, 0x22] ++ value ++ [0x22]) =
      some (.quoted name (attributes ++ [(key, value)]), []) := by
  obtain ⟨hne, hall⟩ := hkey
  obtain ⟨byte, rest, rfl⟩ := List.exists_cons_of_ne_nil hne
  rw [List.forall_mem_cons] at hall
  have hfirst : run (.between name attributes) [byte] = some (.keyed name attributes [byte], []) := by
    refine run_byte ?_
    rw [step, if_neg (isName_ne hall.1).2.2.1, if_pos hall.1]
  have hrest : run (.keyed name attributes [byte]) rest =
      some (.keyed name attributes (byte :: rest), []) := by
    refine run_collect (.keyed name attributes) (fun byte => isName byte = true)
      (fun read next hnext => ?_) [byte] rest hall.2
    rw [step, if_neg (isName_ne hnext).2.2.2.1, if_pos hnext]
  have hopen : run (.keyed name attributes (byte :: rest)) [0x3D, 0x22] =
      some (.valued name attributes (byte :: rest) [], []) := by
    have hequals : run (.keyed name attributes (byte :: rest)) [0x3D] =
        some (.equals name attributes (byte :: rest), []) := by
      refine run_byte ?_
      rw [step, if_pos rfl, if_neg hnew]
    have hquote : run (.equals name attributes (byte :: rest)) [0x22] =
        some (.valued name attributes (byte :: rest) [], []) := rfl
    exact run_append hequals hquote
  have hread : run (.valued name attributes (byte :: rest) []) value =
      some (.valued name attributes (byte :: rest) value, []) := by
    refine run_collect (.valued name attributes (byte :: rest)) (fun byte => byte ≠ 0x22)
      (fun read next hnext => ?_) [] value fun next hnext => ?_
    · rw [step, if_neg hnext]
    · rintro rfl
      exact hvalue hnext
  have hkeyed := run_append (run_append hfirst hrest) hopen
  have hclose : run (.valued name attributes (byte :: rest) value) [0x22] =
      some (.quoted name (attributes ++ [(byte :: rest, value)]), []) := rfl
  exact run_append (run_append hkeyed hread) hclose

/-- Attributes have names of their own, and values without a quote. -/
structure Attributes (attributes : List (Str × Str)) : Prop where
  names : ∀ pair ∈ attributes, IsName pair.1
  distinct : (attributes.map (·.1)).Nodup
  values : ∀ pair ∈ attributes, 0x22 ∉ pair.2

/-- Where a tag may end after its name, or after its last attribute. -/
def pending (name : Str) : List (Str × Str) → State
  | [] => .naming name
  | attributes => .quoted name attributes

theorem step_pending (name : Str) (attributes : List (Str × Str)) :
    step (pending name attributes) 0x20 = some (.between name attributes, []) ∧
      step (pending name attributes) 0x3E = some (.text, [.start name attributes false]) := by
  cases attributes with
  | nil => exact ⟨rfl, rfl⟩
  | cons first rest => exact ⟨rfl, rfl⟩

theorem pending_append (name : Str) (attributes : List (Str × Str)) (pair : Str × Str) :
    pending name (attributes ++ [pair]) = .quoted name (attributes ++ [pair]) := by
  cases attributes with
  | nil => rfl
  | cons first rest => rfl

theorem run_attributes (name : Str) (read more : List (Str × Str)) (h : Attributes (read ++ more)) :
    run (pending name read) (more.flatMap writeAttribute) = some (pending name (read ++ more), []) := by
  induction more generalizing read with
  | nil => rw [List.flatMap_nil, run, List.append_nil]
  | cons pair more ih =>
    have hmem : pair ∈ read ++ pair :: more := List.mem_append_right _ List.mem_cons_self
    have hnew : pair.1 ∉ read.map (·.1) := by
      have hdistinct := h.distinct
      rw [List.map_append, List.map_cons, List.nodup_append] at hdistinct
      exact fun hold => hdistinct.2.2 _ hold _ List.mem_cons_self rfl
    have hone := run_attribute name read pair.1 pair.2 (h.names pair hmem) hnew (h.values pair hmem)
    rw [← pending_append] at hone
    have hall : read ++ pair :: more = read ++ [pair] ++ more := by rw [List.append_assoc]; rfl
    rw [hall] at h ⊢
    rw [List.flatMap_cons]
    exact run_append (run_append (run_byte (step_pending name read).1) hone) (ih _ h)

/-- What has these tags between texts, wherever it stands in a page. -/
def Reads (page : Str) (found : List Tag) : Prop := run .text page = some (.text, found)

theorem Reads.tags {page : Str} {found : List Tag} (h : Reads page found) :
    tags page = some found := by
  unfold Reads at h
  unfold Html.tags
  rw [h, Option.bind_some, if_pos rfl]

theorem Reads.outline {page : Str} {found : List Tag} (h : Reads page found) :
    outline page = some (found.map Tag.shape) := by
  unfold Html.outline
  rw [h.tags, Option.map_some]

theorem Reads.append {front back : Str} {found more : List Tag} (hfront : Reads front found)
    (hback : Reads back more) : Reads (front ++ back) (found ++ more) :=
  run_append hfront hback

theorem Reads.flatMap {α : Type} (write : α → Str) (read : α → List Tag) (items : List α)
    (h : ∀ item ∈ items, Reads (write item) (read item)) :
    Reads (items.flatMap write) (items.flatMap read) := by
  induction items with
  | nil => rfl
  | cons item items ih =>
    rw [List.forall_mem_cons] at h
    rw [List.flatMap_cons, List.flatMap_cons]
    exact h.1.append (ih h.2)

theorem reads_text (text : Str) (h : 0x3C ∉ text) : Reads text [] := by
  refine run_collect (fun _ => .text) (fun byte => byte ≠ 0x3C)
    (fun read byte hbyte => ?_) [] text fun byte hbyte => ?_
  · rw [step, if_neg hbyte]
  · rintro rfl
    exact h hbyte

theorem reads_start (name : Str) (attributes : List (Str × Str)) (hname : IsName name)
    (h : Attributes attributes) :
    Reads (startTag name attributes) [.start name attributes false] :=
  run_append (run_append (run_naming name hname) (run_attributes name [] attributes h))
    (run_byte (step_pending name attributes).2)

theorem reads_empty (name : Str) (hname : IsName name) :
    Reads (emptyTag name) [.start name [] true] := by
  have hend : run (.naming name) [0x20, 0x2F, 0x3E] = some (.text, [.start name [] true]) := rfl
  exact run_append (run_naming name hname) hend

theorem reads_stop (name : Str) (hname : IsName name) : Reads (stopTag name) [.stop name] := by
  have hend : run (.stopping name) [0x3E] = some (.text, [.stop name]) := rfl
  exact run_append (run_stopping name hname.2) hend

end Peryx.Html
