import Peryx.Core.Utf8

/-!
# Records as texts

A codec writes values and reads them back, whatever text follows that its `Follows`
allows. The texts of records are put together from codecs member by member, so that a
record's codec carries the proof that what it writes is read back.
-/

namespace Peryx

structure Codec (α : Type) where
  write : α → Str
  read : Str → Option (α × Str)
  Follows : Str → Prop
  round : ∀ a rest, Follows rest → read (write a ++ rest) = some (a, rest)

namespace Codec
variable {α β : Type}

/-- The whole text is one value. -/
def readAll (codec : Codec α) (text : Str) : Option α :=
  match codec.read text with
  | some (a, []) => some a
  | some (_, _ :: _) | none => none

theorem readAll_write (codec : Codec α) (a : α) (h : codec.Follows []) :
    codec.readAll (codec.write a) = some a := by
  have hround := codec.round a [] h
  rw [List.append_nil] at hround
  unfold readAll
  rw [hround]

/-! ### Putting codecs together -/

theorem strip_append (token rest : Str) : Str.stripPrefix (token ++ rest) token = some rest :=
  (Str.stripPrefix_eq_some _ _ _).mpr rfl

/-- A fixed text that ends the record. -/
def close (token : Str) : Codec Unit where
  write _ := token
  read text := (Str.stripPrefix text token).map fun rest => ((), rest)
  Follows _ := True
  round _ rest _ := by
    rw [strip_append]
    rfl

/-- A value and the rest of its record. -/
def readPair (codec : Codec α) (tail : Codec β) (text : Str) : Option ((α × β) × Str) :=
  (codec.read text).bind fun (a, text) =>
    (tail.read text).map fun (b, text) => ((a, b), text)

theorem readPair_write (codec : Codec α) (tail : Codec β) (a : α) (b : β) (rest : Str)
    (h : codec.Follows (tail.write b ++ rest)) (hrest : tail.Follows rest) :
    readPair codec tail (codec.write a ++ tail.write b ++ rest) = some ((a, b), rest) := by
  unfold readPair
  rw [List.append_assoc, codec.round a _ h, Option.bind_some]
  dsimp only
  rw [tail.round b rest hrest]
  rfl

/-- A member and the rest of its record. -/
def field (token : Str) (codec : Codec α) (tail : Codec β)
    (h : ∀ b rest, codec.Follows (tail.write b ++ rest)) : Codec (α × β) where
  write pair := token ++ (codec.write pair.1 ++ tail.write pair.2)
  read text := (Str.stripPrefix text token).bind (readPair codec tail)
  Follows := tail.Follows
  round pair rest hrest := by
    rw [List.append_assoc, strip_append, Option.bind_some]
    exact readPair_write codec tail pair.1 pair.2 rest (h pair.2 rest) hrest

/-- A member that may be missing: then the text goes on with another token. -/
def optional (token : Str) (codec : Codec α) (tail : Codec β)
    (h : ∀ b rest, codec.Follows (tail.write b ++ rest))
    (hskip : ∀ b rest, Str.stripPrefix (tail.write b ++ rest) token = none) :
    Codec (Option α × β) where
  write pair := match pair.1 with
    | some a => token ++ (codec.write a ++ tail.write pair.2)
    | none => tail.write pair.2
  read text := match Str.stripPrefix text token with
    | some text => (readPair codec tail text).map fun (pair, rest) => ((some pair.1, pair.2), rest)
    | none => (tail.read text).map fun (b, rest) => ((none, b), rest)
  Follows := tail.Follows
  round pair rest hrest := by
    obtain ⟨a | a, b⟩ := pair
    · simp only [hskip b rest, tail.round b rest hrest]
      rfl
    · dsimp only
      rw [List.append_assoc, strip_append]
      dsimp only
      rw [readPair_write codec tail a b rest (h b rest) hrest]
      rfl

/-- A value written as one of two kinds that start differently. -/
def sum (left : Codec α) (right : Codec β) (hfollows : ∀ rest, right.Follows rest → left.Follows rest)
    (h : ∀ b rest, left.read (right.write b ++ rest) = none) : Codec (α ⊕ β) where
  write value := value.elim left.write right.write
  read text := ((left.read text).map fun (a, rest) => (.inl a, rest)).or
    ((right.read text).map fun (b, rest) => (.inr b, rest))
  Follows := right.Follows
  round value rest hrest := by
    cases value with
    | inl a =>
      rw [Sum.elim_inl, left.round a rest (hfollows rest hrest)]
      rfl
    | inr b =>
      rw [Sum.elim_inr, h b rest, right.round b rest hrest]
      rfl

/-- The values of one type as those of another. -/
def map (codec : Codec α) (into : β → α) (back : α → β) (h : ∀ b, back (into b) = b) : Codec β where
  write b := codec.write (into b)
  read text := (codec.read text).map fun (a, rest) => (back a, rest)
  Follows := codec.Follows
  round b rest hrest := by
    rw [codec.round (into b) rest hrest]
    exact congrArg (fun b => some (b, rest)) (h b)

/-! ### Strings -/

def hexDigit (value : UInt8) : UInt8 := if value < 10 then 0x30 + value else 0x57 + value

def hexValue (digit : UInt8) : UInt8 := if digit < 0x40 then digit - 0x30 else digit - 0x57

/-- The control bytes with an escape of one letter. -/
def shortEscapes : List (UInt8 × UInt8) :=
  [(0x22, 0x22), (0x5C, 0x5C), (0x08, 0x62), (0x09, 0x74), (0x0A, 0x6E), (0x0C, 0x66), (0x0D, 0x72)]

def escapeByte (byte : UInt8) : Str :=
  match shortEscapes.find? fun escape => escape.1 == byte with
  | some escape => [0x5C, escape.2]
  | none =>
    if byte < 0x20 then str "\\u00" ++ [hexDigit (byte / 16), hexDigit (byte % 16)] else [byte]

/-- The byte that stands first, as it is or escaped. -/
def readByte : Str → Option (UInt8 × Str)
  | 0x5C :: 0x75 :: _ :: _ :: high :: low :: rest => some (hexValue high * 16 + hexValue low, rest)
  | 0x5C :: letter :: rest =>
    (shortEscapes.find? fun escape => escape.2 == letter).map fun escape => (escape.1, rest)
  | byte :: rest => some (byte, rest)
  | [] => none

theorem hex_small (byte : UInt8) (h : byte < 0x20) :
    hexValue (hexDigit (byte / 16)) * 16 + hexValue (hexDigit (byte % 16)) = byte := by
  have hall : ∀ n < 32, hexValue (hexDigit (UInt8.ofNat n / 16)) * 16 +
      hexValue (hexDigit (UInt8.ofNat n % 16)) = UInt8.ofNat n := by decide
  have hn : byte.toNat < 32 := h
  have hbyte := hall byte.toNat hn
  rwa [UInt8.ofNat_toNat] at hbyte

theorem readByte_plain (byte : UInt8) (rest : Str) (h : byte ≠ 0x5C) :
    readByte (byte :: rest) = some (byte, rest) := by
  unfold readByte
  split
  · rename_i heq
    exact absurd (List.cons.inj heq).1 h
  · rename_i heq
    exact absurd (List.cons.inj heq).1 h
  · rename_i heq
    obtain ⟨rfl, rfl⟩ := List.cons.inj heq
    rfl
  · rename_i heq
    cases heq

theorem readByte_escape (byte : UInt8) (rest : Str) :
    readByte (escapeByte byte ++ rest) = some (byte, rest) := by
  unfold escapeByte
  cases hshort : shortEscapes.find? fun escape => escape.1 == byte with
  | some escape =>
    have hmem := List.mem_of_find?_eq_some hshort
    have hbyte : escape.1 = byte := by simpa using List.find?_some hshort
    subst hbyte
    simp only [shortEscapes, List.mem_cons, List.not_mem_nil, or_false] at hmem
    rcases hmem with rfl | rfl | rfl | rfl | rfl | rfl | rfl <;> rfl
  | none =>
    dsimp only
    split
    · rename_i hsmall
      show some (hexValue (hexDigit (byte / 16)) * 16 + hexValue (hexDigit (byte % 16)), rest) = _
      rw [hex_small byte hsmall]
    · have hslash : byte ≠ 0x5C := by
        rintro rfl
        cases hshort
      exact readByte_plain byte rest hslash

def escape (text : Str) : Str := text.flatMap escapeByte

/-- The bytes up to the closing quote. -/
def readQuoted : Nat → Str → Option (Str × Str)
  | 0, _ => none
  | _ + 1, 0x22 :: rest => some ([], rest)
  | fuel + 1, text =>
    (readByte text).bind fun (byte, text) =>
      (readQuoted fuel text).map fun (bytes, text) => (byte :: bytes, text)

theorem escapeByte_head (byte : UInt8) (rest : Str) : ∃ head tail,
    escapeByte byte ++ rest = head :: tail ∧ head ≠ 0x22 := by
  unfold escapeByte
  cases hshort : shortEscapes.find? fun escape => escape.1 == byte with
  | some escape => exact ⟨0x5C, escape.2 :: rest, rfl, by decide⟩
  | none =>
    dsimp only
    split
    · exact ⟨0x5C, _, rfl, by decide⟩
    · refine ⟨byte, rest, rfl, ?_⟩
      rintro rfl
      cases hshort

theorem readQuoted_escape (text rest : Str) (fuel : Nat) (h : text.length < fuel) :
    readQuoted fuel (escape text ++ 0x22 :: rest) = some (text, rest) := by
  induction text generalizing fuel with
  | nil =>
    cases fuel with
    | zero => cases h
    | succ fuel => rfl
  | cons byte text ih =>
    cases fuel with
    | zero => cases h
    | succ fuel =>
      have hescape : escape (byte :: text) ++ 0x22 :: rest =
          escapeByte byte ++ (escape text ++ 0x22 :: rest) := by
        rw [escape, List.flatMap_cons, List.append_assoc]
        rfl
      obtain ⟨head, tail, hhead, hne⟩ := escapeByte_head byte (escape text ++ 0x22 :: rest)
      have hread : readQuoted (fuel + 1) (head :: tail) = (readByte (head :: tail)).bind
          fun (byte, text) => (readQuoted fuel text).map fun (bytes, text) => (byte :: bytes, text) := by
        rw [readQuoted]
        exact fun _ heq => hne (List.cons.inj heq).1
      rw [hescape, hhead, hread, ← hhead, readByte_escape, Option.bind_some]
      dsimp only
      rw [ih fuel (by simpa using h)]
      rfl

def string : Codec Str where
  write text := 0x22 :: (escape text ++ [0x22])
  read
    | 0x22 :: text => readQuoted (text.length + 1) text
    | _ => none
  Follows _ := True
  round text rest _ := by
    show readQuoted ((escape text ++ [0x22] ++ rest).length + 1) (escape text ++ [0x22] ++ rest) = _
    rw [List.append_assoc]
    refine readQuoted_escape text rest _ ?_
    have hlength : text.length ≤ (escape text).length := by
      unfold escape
      induction text with
      | nil => exact Nat.le_refl 0
      | cons byte text ih =>
        obtain ⟨head, tail, hhead, _⟩ := escapeByte_head byte []
        have hone : 0 < (escapeByte byte).length := by
          rw [← List.append_nil (escapeByte byte), hhead]
          exact Nat.succ_pos _
        rw [List.flatMap_cons, List.length_append, List.length_cons]
        omega
    simp only [List.length_append]
    omega

/-! ### Numbers -/

def isDigitByte (byte : UInt8) : Bool := 0x30 ≤ byte && byte ≤ 0x39

def nat : Codec Nat where
  write := Str.decimal
  read text := match text.takeWhile isDigitByte with
    | [] => none
    | digit :: digits => some (Nat.ofDigits 10 ((digit :: digits).reverse.map fun byte =>
        byte.toNat - 0x30), text.dropWhile isDigitByte)
  Follows rest := rest.head?.any isDigitByte = false
  round n rest hrest := by
    obtain ⟨hne, hdigits⟩ := Str.decimal_digits n
    have hall : ∀ byte ∈ Str.decimal n, isDigitByte byte = true := fun byte hbyte => by
      simpa [isDigitByte] using hdigits byte hbyte
    have hrest' : rest.takeWhile isDigitByte = [] ∧ rest.dropWhile isDigitByte = rest := by
      cases rest with
      | nil => exact ⟨rfl, rfl⟩
      | cons byte rest =>
        have hbyte : isDigitByte byte = false := hrest
        exact ⟨by rw [List.takeWhile_cons, hbyte]; rfl, by rw [List.dropWhile_cons, hbyte]; rfl⟩
    rw [List.takeWhile_append_of_pos hall, List.dropWhile_append_of_pos hall, hrest'.1, hrest'.2,
      List.append_nil]
    cases hwrite : Str.decimal n with
    | nil => exact absurd hwrite hne
    | cons digit digits =>
      dsimp only
      rw [← hwrite, Str.ofDigits_decimal]

/-- A signed number. -/
def int : Codec Int where
  write
    | .ofNat n => nat.write n
    | .negSucc n => 0x2D :: nat.write (n + 1)
  read
    | [] => none
    | byte :: text =>
      if byte = 0x2D then (nat.read text).map fun (n, text) => (-(n : Int), text)
      else (nat.read (byte :: text)).map fun (n, text) => ((n : Int), text)
  Follows := nat.Follows
  round value rest hrest := by
    cases value with
    | ofNat n =>
      obtain ⟨hne, hdigits⟩ := Str.decimal_digits n
      have hround := nat.round n rest hrest
      have hwrite : nat.write n = Str.decimal n := rfl
      dsimp only
      cases hdecimal : Str.decimal n with
      | nil => exact absurd hdecimal hne
      | cons digit digits =>
        have hdigit := hdigits digit (hdecimal ▸ List.mem_cons_self)
        have hminus : digit ≠ 0x2D := by
          rintro rfl
          exact absurd hdigit.1 (by decide)
        rw [hwrite, hdecimal, List.cons_append] at hround ⊢
        dsimp only
        rw [if_neg hminus, hround]
        rfl
    | negSucc n =>
      dsimp only
      rw [List.cons_append]
      dsimp only
      rw [if_pos rfl, nat.round (n + 1) rest hrest]
      rfl

/-! ### Lists -/

/-- Items, each behind a separator, up to the closing token. -/
def readItems (codec : Codec α) (separator closing : Str) : Nat → Str → Option (List α × Str)
  | 0, _ => none
  | fuel + 1, text => match Str.stripPrefix text closing with
    | some rest => some ([], rest)
    | none => (Str.stripPrefix text separator).bind fun text => (codec.read text).bind
        fun (a, text) => (readItems codec separator closing fuel text).map fun (items, text) =>
          (a :: items, text)

def writeItems (codec : Codec α) (separator closing : Str) (items : List α) : Str :=
  items.flatMap (fun a => separator ++ codec.write a) ++ closing

theorem readItems_write (codec : Codec α) (separator closing : Str) (hfollows : ∀ rest,
      codec.Follows rest) (hskip : ∀ rest, Str.stripPrefix (separator ++ rest) closing = none)
    (hlong : 0 < separator.length)
    (items : List α) (rest : Str) (fuel : Nat)
    (h : (writeItems codec separator closing items).length < fuel) :
    readItems codec separator closing fuel (writeItems codec separator closing items ++ rest) =
      some (items, rest) := by
  induction items generalizing fuel with
  | nil =>
    cases fuel with
    | zero => cases h
    | succ fuel =>
      rw [writeItems, List.flatMap_nil, List.nil_append, readItems, strip_append]
  | cons a items ih =>
    cases fuel with
    | zero => cases h
    | succ fuel =>
      have hcons : writeItems codec separator closing (a :: items) =
          separator ++ (codec.write a ++ writeItems codec separator closing items) := by
        simp only [writeItems, List.flatMap_cons, List.append_assoc]
      rw [hcons] at h ⊢
      rw [List.append_assoc, readItems, hskip, strip_append, List.append_assoc]
      dsimp only
      rw [Option.bind_some, codec.round a _ (hfollows _), Option.bind_some]
      dsimp only
      rw [ih fuel (by simp only [List.length_append] at h; omega)]
      rfl

/-- Items between brackets, with a separator between each two. -/
def items (codec : Codec α) (opening separator closing : Str)
    (hfollows : ∀ rest, codec.Follows rest)
    (hskip : ∀ rest, Str.stripPrefix (separator ++ rest) closing = none)
    (hlong : 0 < separator.length)
    (hfirst : ∀ a rest, Str.stripPrefix (codec.write a ++ rest) closing = none) :
    Codec (List α) where
  write
    | [] => opening ++ closing
    | a :: rest => opening ++ (codec.write a ++ writeItems codec separator closing rest)
  read text := (Str.stripPrefix text opening).bind fun text =>
    match Str.stripPrefix text closing with
    | some rest => some ([], rest)
    | none => (codec.read text).bind fun (a, text) =>
        (readItems codec separator closing (text.length + 1) text).map fun (items, text) =>
          (a :: items, text)
  Follows _ := True
  round list rest _ := by
    cases list with
    | nil =>
      dsimp only
      rw [List.append_assoc, strip_append, Option.bind_some, strip_append]
    | cons a list =>
      dsimp only
      rw [List.append_assoc, strip_append, Option.bind_some, List.append_assoc, hfirst]
      dsimp only
      rw [codec.round a _ (hfollows _), Option.bind_some]
      dsimp only
      rw [readItems_write codec separator closing hfollows hskip hlong list rest _
        (by simp only [List.length_append]; omega)]
      rfl

/-! ### Records of one line -/

/-- What is written has no line break. -/
def OneLine (codec : Codec α) : Prop := ∀ a, 0x0A ∉ codec.write a

theorem oneLine_close (token : Str) (h : 0x0A ∉ token) : (close token).OneLine := fun _ => h

theorem OneLine.field {codec : Codec α} {tail : Codec β} (token : Str)
    (hfollows : ∀ b rest, codec.Follows (tail.write b ++ rest)) (htoken : 0x0A ∉ token)
    (hcodec : codec.OneLine) (htail : tail.OneLine) : (field token codec tail hfollows).OneLine := by
  intro pair hmem
  rcases List.mem_append.mp hmem with hmem | hmem
  · exact htoken hmem
  · exact (List.mem_append.mp hmem).elim (hcodec pair.1) (htail pair.2)

theorem OneLine.map {codec : Codec α} (into : β → α) (back : α → β) (h : ∀ b, back (into b) = b)
    (hcodec : codec.OneLine) : (map codec into back h).OneLine := fun b => hcodec (into b)

theorem oneLine_escapeByte (byte : UInt8) : 0x0A ∉ escapeByte byte := by
  unfold escapeByte
  cases hshort : shortEscapes.find? fun escape => escape.1 == byte with
  | some escape =>
    have hall : ∀ escape ∈ shortEscapes, (0x0A : UInt8) ∉ [0x5C, escape.2] :=
      Str.forall_of_all (by decide)
    exact hall escape (List.mem_of_find?_eq_some hshort)
  | none =>
    dsimp only
    split
    · rename_i hsmall
      have hall : ∀ n < 32, (0x0A : UInt8) ∉
          str "\\u00" ++ [hexDigit (UInt8.ofNat n / 16), hexDigit (UInt8.ofNat n % 16)] := by decide
      have hbyte := hall byte.toNat hsmall
      rwa [UInt8.ofNat_toNat] at hbyte
    · rw [List.mem_singleton]
      rintro rfl
      cases hshort

theorem oneLine_string : string.OneLine := by
  intro text hmem
  rcases List.mem_cons.mp hmem with hmem | hmem
  · exact absurd hmem (by decide)
  · rcases List.mem_append.mp hmem with hmem | hmem
    · obtain ⟨byte, -, hbyte⟩ := List.mem_flatMap.mp hmem
      exact oneLine_escapeByte byte hbyte
    · exact absurd hmem (by decide)

theorem oneLine_nat : nat.OneLine := by
  intro n hmem
  exact absurd ((Str.decimal_digits n).2 _ hmem).1 (by decide)

theorem oneLine_int : int.OneLine := by
  intro value hmem
  cases value with
  | ofNat n => exact oneLine_nat n hmem
  | negSucc n =>
    rcases List.mem_cons.mp hmem with hmem | hmem
    · exact absurd hmem (by decide)
    · exact oneLine_nat (n + 1) hmem

end Codec
end Peryx
