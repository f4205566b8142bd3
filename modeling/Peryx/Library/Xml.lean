import Mathlib.Data.List.Infix

/-!
# Well-formed XML

The grammar of XML 1.0 documents, as far as elements without attributes, character data and
the predefined references go.
-/

namespace Peryx.Xml

def text (literal : String) : List Char := literal.toList

/-- `Char`. -/
def IsChar (char : Char) : Prop :=
  char.val = 0x9 ∨ char.val = 0xA ∨ char.val = 0xD ∨ (0x20 ≤ char.val ∧ char.val ≤ 0xD7FF) ∨
    (0xE000 ≤ char.val ∧ char.val ≤ 0xFFFD) ∨ (0x10000 ≤ char.val ∧ char.val ≤ 0x10FFFF)

instance : DecidablePred IsChar := fun _ => inferInstanceAs (Decidable (_ ∨ _))

/-- The letters, digits and signs of ASCII that names are written with. -/
def IsNameStart (char : Char) : Bool := char.isAlpha || char == ':' || char == '_'

def IsNameChar (char : Char) : Bool :=
  IsNameStart char || char.isDigit || char == '-' || char == '.'

def IsName (name : List Char) : Bool := name.head?.any IsNameStart && name.all IsNameChar

structure CharData (data : List Char) : Prop where
  chars : ∀ char ∈ data, IsChar char ∧ char ≠ '<' ∧ char ≠ '&'
  open_ : ¬ text "]]>" <:+: data

def predefined : List (List Char) :=
  [text "amp", text "lt", text "gt", text "quot", text "apos"]

def openTag (name : List Char) : List Char := '<' :: name ++ ['>']

def closeTag (name : List Char) : List Char := '<' :: '/' :: name ++ ['>']

def emptyTag (name : List Char) : List Char := '<' :: name ++ ['/', '>']

mutual

inductive Content : List Char → Prop
  | data (data : List Char) (h : CharData data) : Content data
  | item (data item rest : List Char) (hdata : CharData data) (hitem : Item item)
      (hrest : Content rest) : Content (data ++ item ++ rest)

inductive Item : List Char → Prop
  | element (element : List Char) (h : Element element) : Item element
  | reference (name : List Char) (h : name ∈ predefined) : Item ('&' :: name ++ [';'])

inductive Element : List Char → Prop
  | empty (name : List Char) (h : IsName name = true) : Element (emptyTag name)
  | node (name content : List Char) (h : IsName name = true) (hcontent : Content content) :
    Element (openTag name ++ content ++ closeTag name)

end

inductive Document : List Char → Prop
  | mk (root : List Char) (h : Element root) :
    Document (text "<?xml version=\"1.0\"?>" ++ root)

def Plain (char : Char) : Prop := IsChar char ∧ char ≠ '<' ∧ char ≠ '&' ∧ char ≠ '>'

theorem charData_plain (data : List Char) (h : ∀ char ∈ data, Plain char) : CharData data where
  chars char hchar := ⟨(h char hchar).1, (h char hchar).2.1, (h char hchar).2.2.1⟩
  open_ hcut := (h '>' (hcut.subset (by decide))).2.2.2 rfl

theorem content_nil : Content [] := .data [] (charData_plain [] nofun)

theorem content_element {element : List Char} (h : Element element) : Content element := by
  have hitem := Content.item [] element [] (charData_plain [] nofun) (.element _ h) content_nil
  rwa [List.nil_append, List.append_nil] at hitem

theorem content_cons {element rest : List Char} (h : Element element) (hrest : Content rest) :
    Content (element ++ rest) :=
  .item [] element rest (charData_plain [] nofun) (.element _ h) hrest

theorem content_elements (elements : List (List Char)) (h : ∀ element ∈ elements, Element element) :
    Content elements.flatten := by
  induction elements with
  | nil => exact content_nil
  | cons element rest ih =>
    rw [List.flatten_cons]
    exact content_cons (h element List.mem_cons_self)
      (ih fun other hother => h other (List.mem_cons_of_mem _ hother))

inductive Escaped (char : Char) : List Char → Prop
  | dropped : Escaped char []
  | plain (h : Plain char) : Escaped char [char]
  | reference (name : List Char) (h : name ∈ predefined) : Escaped char ('&' :: name ++ [';'])

theorem content_escaped (escape : Char → List Char) (h : ∀ char, Escaped char (escape char))
    (chars front : List Char) (hfront : ∀ char ∈ front, Plain char) :
    Content (front ++ chars.flatMap escape) := by
  induction chars generalizing front with
  | nil =>
    rw [List.flatMap_nil, List.append_nil]
    exact .data front (charData_plain front hfront)
  | cons char rest ih =>
    rw [List.flatMap_cons]
    have hchar := h char
    generalize escape char = written at hchar ⊢
    cases hchar with
    | dropped => exact ih front hfront
    | plain hplain =>
      rw [← List.append_assoc]
      refine ih (front ++ [char]) fun other hother => ?_
      rcases List.mem_append.mp hother with hother | hother
      · exact hfront other hother
      · rw [List.mem_singleton.mp hother]
        exact hplain
    | reference name hname =>
      rw [← List.append_assoc]
      exact .item front _ _ (charData_plain front hfront) (.reference name hname) (ih [] nofun)

end Peryx.Xml
