import Peryx.Core.Json

/-!
# Reading a JSON text byte by byte

A reader of single bytes follows how many brackets are open and whether it is in a string.
Over a text it closes what it opens and nothing else, so a reader whose state depends on
the place alone is known at the end of every value.
-/

namespace Peryx.Json

/-- Where a byte stands: how many brackets are open, and whether it is in a string. -/
structure Place where
  depth : Nat
  inString : Bool := false
  escaped : Bool := false
  deriving DecidableEq

/-- The place behind a byte; nothing closes below the start. -/
def Place.next (place : Place) (byte : UInt8) : Option Place :=
  if place.inString then
    if place.escaped then some { place with escaped := false }
    else if byte = 0x5C then some { place with escaped := true }
    else if byte = 0x22 then some { place with inString := false }
    else some place
  else if byte = 0x22 then some { place with inString := true }
  else if byte = 0x7B ∨ byte = 0x5B then some { place with depth := place.depth + 1 }
  else if byte = 0x7D ∨ byte = 0x5D then
    if place.depth = 0 then none else some { place with depth := place.depth - 1 }
  else some place

inductive Place.Next : Place → UInt8 → Place → Prop
  | escaped (depth : Nat) (byte : UInt8) : Next ⟨depth, true, true⟩ byte ⟨depth, true, false⟩
  | slash (depth : Nat) : Next ⟨depth, true, false⟩ 0x5C ⟨depth, true, true⟩
  | unquote (depth : Nat) : Next ⟨depth, true, false⟩ 0x22 ⟨depth, false, false⟩
  | inside (depth : Nat) (byte : UInt8) (hquote : byte ≠ 0x22) (hslash : byte ≠ 0x5C) :
    Next ⟨depth, true, false⟩ byte ⟨depth, true, false⟩
  | quote (depth : Nat) (escaped : Bool) : Next ⟨depth, false, escaped⟩ 0x22 ⟨depth, true, escaped⟩
  | opening (depth : Nat) (escaped : Bool) (byte : UInt8) (h : byte = 0x7B ∨ byte = 0x5B) :
    Next ⟨depth, false, escaped⟩ byte ⟨depth + 1, false, escaped⟩
  | closing (depth : Nat) (escaped : Bool) (byte : UInt8) (h : byte = 0x7D ∨ byte = 0x5D) :
    Next ⟨depth + 1, false, escaped⟩ byte ⟨depth, false, escaped⟩
  | plain (depth : Nat) (escaped : Bool) (byte : UInt8)
    (h : byte ≠ 0x22 ∧ byte ≠ 0x7B ∧ byte ≠ 0x5B ∧ byte ≠ 0x7D ∧ byte ≠ 0x5D) :
    Next ⟨depth, false, escaped⟩ byte ⟨depth, false, escaped⟩

theorem Place.next_kind {place next : Place} {byte : UInt8} (h : place.next byte = some next) :
    Place.Next place byte next := by
  obtain ⟨depth, inString, escaped⟩ := place
  unfold Place.next at h
  dsimp only at h
  split at h
  · rename_i hstring
    subst hstring
    split at h
    · rename_i hescaped
      subst hescaped
      cases h
      exact .escaped depth byte
    · rename_i hescaped
      rw [Bool.not_eq_true] at hescaped
      subst hescaped
      split at h
      · rename_i hslash
        subst hslash
        cases h
        exact .slash depth
      · rename_i hslash
        split at h
        · rename_i hquote
          subst hquote
          cases h
          exact .unquote depth
        · rename_i hquote
          cases h
          exact .inside depth byte hquote hslash
  · rename_i hstring
    rw [Bool.not_eq_true] at hstring
    subst hstring
    split at h
    · rename_i hquote
      subst hquote
      cases h
      exact .quote depth escaped
    · rename_i hquote
      split at h
      · rename_i hopening
        cases h
        exact .opening depth escaped byte hopening
      · rename_i hopening
        split at h
        · rename_i hclosing
          cases depth with
          | zero => cases h
          | succ depth =>
            cases h
            exact .closing depth escaped byte hclosing
        · rename_i hclosing
          cases h
          rw [not_or] at hopening hclosing
          exact .plain depth escaped byte ⟨hquote, hopening.1, hopening.2, hclosing.1, hclosing.2⟩

def Place.walk (place : Place) (text : Str) : Option Place := text.foldlM Place.next place

theorem Place.walk_append (place : Place) (first second : Str) :
    place.walk (first ++ second) = (place.walk first).bind fun place => place.walk second :=
  List.foldlM_append

theorem Place.walk_cons (place : Place) (byte : UInt8) (rest : Str) :
    place.walk (byte :: rest) = (place.next byte).bind fun place => place.walk rest :=
  List.foldlM_cons

theorem walk_plain (depth : Nat) (text : Str) (h : Plain text) :
    Place.walk { depth } text = some { depth } := by
  induction text with
  | nil => rfl
  | cons byte rest ih =>
    have hbyte := h byte List.mem_cons_self
    simp only [isPlain, Bool.and_eq_true, bne_iff_ne, ne_eq] at hbyte
    rw [Place.walk_cons]
    simp only [Place.next, hbyte, Bool.false_eq_true, if_false, or_self]
    exact ih fun later hlater => h later (List.mem_cons_of_mem _ hlater)

/-- A reader that knows an escape from other bytes has read the body of a string. -/
theorem foldlM_body {m : Type → Type} [Monad m] [LawfulMonad m] {σ : Type} (read : σ → UInt8 → m σ)
    (at_ : Bool → Str → σ)
    (hplain : ∀ seen byte, byte ≠ 0x22 → byte ≠ 0x5C →
      read (at_ false seen) byte = pure (at_ false (seen ++ [byte])))
    (hslash : ∀ seen, read (at_ false seen) 0x5C = pure (at_ true (seen ++ [0x5C])))
    (hescaped : ∀ seen byte, read (at_ true seen) byte = pure (at_ false (seen ++ [byte])))
    (body : Str) (h : StringBody body) (seen : Str) :
    body.foldlM read (at_ false seen) = pure (at_ false (seen ++ body)) := by
  induction h generalizing seen with
  | nil => simp
  | plain byte rest hcontrol hquote hslash' h ih => simp [hplain seen byte hquote hslash', ih]
  | escape letter rest hletter h ih => simp [hslash, hescaped, ih]
  | unicode a b c d rest hhex h ih =>
    -- No hexadecimal digit is a quote or a backslash.
    have hdigit : ∀ byte, isHexDigit byte = true → ∀ seen,
        read (at_ false seen) byte = pure (at_ false (seen ++ [byte])) := by
      intro byte hbyte seen
      apply hplain
      · intro heq
        rw [heq] at hbyte
        cases hbyte
      · intro heq
        rw [heq] at hbyte
        cases hbyte
    simp only [List.forall_mem_cons] at hhex
    obtain ⟨ha, hb, hc, hd, -⟩ := hhex
    simp [hslash, hescaped, hdigit a ha, hdigit b hb, hdigit c hc, hdigit d hd, ih]

theorem walk_body (depth : Nat) (body : Str) (h : StringBody body) :
    Place.walk { depth, inString := true } body = some { depth, inString := true } := by
  refine foldlM_body Place.next (fun escaped _ => { depth, inString := true, escaped }) ?_ ?_ ?_ body h []
  · intro seen byte hquote hslash
    simp [Place.next, hquote, hslash]
  · exact fun _ => rfl
  · exact fun _ _ => rfl

theorem walk_quote (depth : Nat) (body : Str) (h : StringBody body) :
    Place.walk { depth } (quote body) = some { depth } := by
  unfold quote
  rw [Place.walk_cons, show Place.next { depth } 0x22 = some { depth, inString := true } from rfl,
    Option.bind_some, Place.walk_append, walk_body depth body h]
  rfl

/-- A text ends where it began, and closes nothing that it did not open. -/
theorem Text.walk {part : Part} {text : Str} {n : Nat} (h : Text part text n) (depth : Nat) :
    Place.walk { depth } text = some { depth } := by
  have bracket : ∀ (opening closing : UInt8) (inner : Str) (depth : Nat),
      (opening = 0x7B ∨ opening = 0x5B) → (closing = 0x7D ∨ closing = 0x5D) →
      Place.walk { depth := depth + 1 } inner = some { depth := depth + 1 } →
      Place.walk { depth } (opening :: (inner ++ [closing])) = some { depth } := by
    intro opening closing inner depth hopening hclosing hinner
    have hopen : Place.next { depth } opening = some { depth := depth + 1 } := by
      rcases hopening with rfl | rfl <;> rfl
    have hclose : Place.next { depth := depth + 1 } closing = some { depth } := by
      rcases hclosing with rfl | rfl <;> rfl
    rw [Place.walk_cons, hopen, Option.bind_some, Place.walk_append, hinner, Option.bind_some,
      Place.walk_cons, hclose]
    rfl
  have comma : ∀ depth, Place.next { depth } 0x2C = some { depth } := fun _ => rfl
  induction h generalizing depth with
  | null => exact walk_plain depth _ (Str.forall_of_all (by decide))
  | true => exact walk_plain depth _ (Str.forall_of_all (by decide))
  | false => exact walk_plain depth _ (Str.forall_of_all (by decide))
  | number text h => exact walk_plain depth text h.plain
  | string body h => exact walk_quote depth body h
  | emptyArray space h => exact bracket _ _ space depth (.inr rfl) (.inr rfl) (walk_plain _ _ h.plain)
  | array inner n h ih => exact bracket _ _ inner depth (.inr rfl) (.inr rfl) (ih _)
  | emptyObject space h => exact bracket _ _ space depth (.inl rfl) (.inl rfl) (walk_plain _ _ h.plain)
  | object inner n h ih => exact bracket _ _ inner depth (.inl rfl) (.inl rfl) (ih _)
  | element before text after n hbefore hafter h ih =>
    rw [Place.walk_append, walk_plain depth before hbefore.plain, Option.bind_some,
      Place.walk_append, ih depth, Option.bind_some]
    exact walk_plain depth after hafter.plain
  | lastElement text n h ih => exact ih depth
  | elements text rest n m h hrest ih ihrest =>
    rw [Place.walk_append, ih depth, Option.bind_some, Place.walk_cons, comma, Option.bind_some]
    exact ihrest depth
  | member before key mid text n hbefore hkey hmid h ih =>
    rw [Place.walk_append, walk_plain depth before hbefore.plain, Option.bind_some,
      Place.walk_append, walk_quote depth key hkey, Option.bind_some, Place.walk_append,
      walk_plain depth mid hmid.plain, Option.bind_some, Place.walk_cons]
    exact ih depth
  | lastMember text n h ih => exact ih depth
  | members text rest n m h hrest ih ihrest =>
    rw [Place.walk_append, ih depth, Option.bind_some, Place.walk_cons, comma, Option.bind_some]
    exact ihrest depth

/-- A reader that follows the places of a text byte by byte has read the text. -/
theorem foldlM_walk {σ ε : Type} (read : σ → UInt8 → Except ε σ) (at_ : Place → Str → σ)
    (hread : ∀ place next seen byte, Place.Next place byte next →
      read (at_ place seen) byte = .ok (at_ next (seen ++ [byte])))
    (text : Str) (place last : Place) (seen : Str) (h : place.walk text = some last) :
    text.foldlM read (at_ place seen) = .ok (at_ last (seen ++ text)) := by
  induction text generalizing place seen with
  | nil =>
    cases h
    rw [List.append_nil]
    rfl
  | cons byte rest ih =>
    rw [Place.walk_cons, Option.bind_eq_some_iff] at h
    obtain ⟨next, hnext, hrest⟩ := h
    rw [List.foldlM_cons, hread place next seen byte (Place.next_kind hnext)]
    rw [show seen ++ byte :: rest = (seen ++ [byte]) ++ rest by rw [List.append_assoc]; rfl]
    exact ih next _ hrest

def isLiteral (byte : UInt8) : Bool :=
  isDigit byte || (0x61 ≤ byte && byte ≤ 0x7A) || byte == 0x45 || byte == 0x2B || byte == 0x2D ||
    byte == 0x2E

def Literal (text : Str) : Prop := text ≠ [] ∧ ∀ byte ∈ text, isLiteral byte = true

theorem isLiteral_digit (byte : UInt8) (h : isDigit byte = true) : isLiteral byte = true := by
  simp [isLiteral, h]

theorem Number.literal {text : Str} (h : Number text) : Literal text := by
  obtain ⟨sign, hsign, integer, fraction, exponent, hinteger, hfraction, hexponent, rfl⟩ := h
  have hdigits : ∀ digits : Str, Digits digits → ∀ byte ∈ digits, isLiteral byte = true :=
    fun digits h byte hbyte => isLiteral_digit byte (h.2 byte hbyte)
  have hnamed : ∀ texts : List Str, (texts.all fun text => text.all isLiteral) = true →
      ∀ text ∈ texts, ∀ byte ∈ text, isLiteral byte = true := by
    intro texts hall text htext
    exact List.all_eq_true.mp (List.all_eq_true.mp hall text htext)
  have hsign := hnamed _ (by decide) sign hsign
  constructor
  · have hne : integer ≠ [] := by
      rcases hinteger with rfl | h
      · exact List.cons_ne_nil _ _
      · exact h.1.1
    simp [hne]
  · intro byte hbyte
    simp only [List.mem_append] at hbyte
    rcases hbyte with ((hbyte | hbyte) | hbyte) | hbyte
    · exact hsign byte hbyte
    · rcases hinteger with rfl | h
      · exact hnamed [[0x30]] (by decide) _ List.mem_cons_self byte hbyte
      · exact hdigits integer h.1 byte hbyte
    · rcases hfraction with rfl | ⟨digits, h, rfl⟩
      · cases hbyte
      · rcases List.mem_cons.mp hbyte with rfl | hbyte
        · rfl
        · exact hdigits digits h byte hbyte
    · rcases hexponent with rfl | ⟨letter, hletter, sign, hsign, digits, h, rfl⟩
      · cases hbyte
      · have hsign := hnamed _ (by decide) sign hsign
        have hletter := hnamed [str "eE"] (by decide) _ List.mem_cons_self letter hletter
        rcases List.mem_cons.mp hbyte with rfl | hbyte
        · exact hletter
        · rcases List.mem_append.mp hbyte with hbyte | hbyte
          · exact hsign byte hbyte
          · exact hdigits digits h byte hbyte

/-- A value is a string, a literal, or stands in brackets. -/
theorem Text.shape {text : Str} {n : Nat} (h : Text .value text n) :
    (∃ body, StringBody body ∧ text = quote body) ∨ Literal text ∨
      ∃ opening closing inner, (opening = 0x7B ∧ closing = 0x7D ∨ opening = 0x5B ∧ closing = 0x5D) ∧
        text = opening :: (inner ++ [closing]) ∧ Place.walk { depth := 0 } inner = some { depth := 0 } := by
  have hname : ∀ name : Str, name ≠ [] ∧ name.all isLiteral = Bool.true → Literal name :=
    fun name h => ⟨h.1, List.all_eq_true.mp h.2⟩
  cases h with
  | null => exact .inr (.inl (hname _ (by decide)))
  | true => exact .inr (.inl (hname _ (by decide)))
  | false => exact .inr (.inl (hname _ (by decide)))
  | number text h => exact .inr (.inl h.literal)
  | string body h => exact .inl ⟨body, h, rfl⟩
  | emptyArray space h => exact .inr (.inr ⟨_, _, space, .inr ⟨rfl, rfl⟩, rfl, walk_plain 0 _ h.plain⟩)
  | array inner n h => exact .inr (.inr ⟨_, _, inner, .inr ⟨rfl, rfl⟩, rfl, h.walk 0⟩)
  | emptyObject space h => exact .inr (.inr ⟨_, _, space, .inl ⟨rfl, rfl⟩, rfl, walk_plain 0 _ h.plain⟩)
  | object inner n h => exact .inr (.inr ⟨_, _, inner, .inl ⟨rfl, rfl⟩, rfl, h.walk 0⟩)

end Peryx.Json
