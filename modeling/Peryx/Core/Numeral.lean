import Peryx.Core.Utf8

/-! # Numerals of a fixed width -/

namespace Peryx

namespace Numeral

def digitsOf (base n : Nat) : List Nat := if n = 0 then [0] else (Nat.digits base n).reverse

def paddedDigits (base width n : Nat) : List Nat :=
  List.replicate (width - (digitsOf base n).length) 0 ++ digitsOf base n

def digitByte (digit : Nat) : UInt8 := UInt8.ofNat (if digit < 10 then 0x30 + digit else 0x57 + digit)

def padded (base width n : Nat) : Str := (paddedDigits base width n).map digitByte

section Lists
variable {α : Type} [Ord α]

theorem compare_append (a b x y : List α) (h : a.length = b.length) :
    compare (a ++ x) (b ++ y) = (compare a b).then (compare x y) := by
  induction a generalizing b with
  | nil =>
    have hb : b = [] := List.length_eq_zero_iff.mp h.symm
    rw [hb]
    rfl
  | cons first a ih =>
    cases b with
    | nil => cases h
    | cons second b =>
      have htail := ih b (Nat.succ.inj h)
      rw [List.cons_append, List.cons_append, List.compare_cons_cons, List.compare_cons_cons, htail,
        Ordering.then_assoc]

theorem compare_map {β : Type} [Ord β] (f : α → β) (a b : List α)
    (h : ∀ x ∈ a, ∀ y ∈ b, compare (f x) (f y) = compare x y) :
    compare (a.map f) (b.map f) = compare a b := by
  induction a generalizing b with
  | nil => cases b <;> rfl
  | cons x a ih =>
    cases b with
    | nil => rfl
    | cons y b =>
      rw [List.map_cons, List.map_cons, List.compare_cons_cons, List.compare_cons_cons,
        h x List.mem_cons_self y List.mem_cons_self,
        ih b fun x hx y hy => h x (List.mem_cons_of_mem _ hx) y (List.mem_cons_of_mem _ hy)]

end Lists

variable {base : Nat}

theorem digitsOf_lt (hbase : 1 < base) (n digit : Nat) (h : digit ∈ digitsOf base n) :
    digit < base := by
  unfold digitsOf at h
  split at h
  · rw [List.mem_singleton.mp h]
    omega
  · exact Nat.digits_lt_base hbase (List.mem_reverse.mp h)

theorem paddedDigits_lt (hbase : 1 < base) (width n digit : Nat)
    (h : digit ∈ paddedDigits base width n) : digit < base := by
  rcases List.mem_append.mp h with h | h
  · rw [List.eq_of_mem_replicate h]
    omega
  · exact digitsOf_lt hbase n digit h

theorem ofDigits_paddedDigits (width n : Nat) :
    Nat.ofDigits base (paddedDigits base width n).reverse = n := by
  have hdigits : Nat.ofDigits base (digitsOf base n).reverse = n := by
    unfold digitsOf
    split
    · rename_i hn
      rw [hn]
      simp
    · rw [List.reverse_reverse, Nat.ofDigits_digits]
  unfold paddedDigits
  rw [List.reverse_append, List.reverse_replicate, Nat.ofDigits_append_replicate_zero, hdigits]

theorem length_paddedDigits (hbase : 1 < base) (width n : Nat) (hwidth : 0 < width)
    (h : n < base ^ width) : (paddedDigits base width n).length = width := by
  have hlength : (digitsOf base n).length ≤ width := by
    unfold digitsOf
    split
    · exact hwidth
    · rw [List.length_reverse]
      exact (Nat.digits_length_le_iff hbase n).mpr h
  unfold paddedDigits
  rw [List.length_append, List.length_replicate]
  omega

theorem compare_scaled (scale low low' x y : Nat) (h : low < scale) (h' : low' < scale) :
    compare (low + scale * x) (low' + scale * y) = (compare x y).then (compare low low') := by
  rcases Nat.lt_trichotomy x y with hxy | hxy | hxy
  · have hstep : scale * x + scale ≤ scale * y := by
      rw [← Nat.mul_succ]
      exact Nat.mul_le_mul_left _ hxy
    have hlt : low + scale * x < low' + scale * y := by omega
    rw [Nat.compare_eq_lt.mpr hxy, Nat.compare_eq_lt.mpr hlt]
    rfl
  · subst hxy
    have heq : compare x x = .eq := Nat.compare_eq_eq.mpr rfl
    rw [heq, Ordering.eq_then]
    rcases Nat.lt_trichotomy low low' with hlow | hlow | hlow
    · have hlt : low + scale * x < low' + scale * x := by omega
      rw [Nat.compare_eq_lt.mpr hlow, Nat.compare_eq_lt.mpr hlt]
    · subst hlow
      rw [Nat.compare_eq_eq.mpr rfl, Nat.compare_eq_eq.mpr rfl]
    · have hlt : low' + scale * x < low + scale * x := by omega
      rw [Nat.compare_eq_gt.mpr hlow, Nat.compare_eq_gt.mpr hlt]
  · have hstep : scale * y + scale ≤ scale * x := by
      rw [← Nat.mul_succ]
      exact Nat.mul_le_mul_left _ hxy
    have hlt : low' + scale * y < low + scale * x := by omega
    rw [Nat.compare_eq_gt.mpr hxy, Nat.compare_eq_gt.mpr hlt]
    rfl

theorem compare_digits (hbase : 1 < base) (a b : List Nat) (h : a.length = b.length)
    (ha : ∀ digit ∈ a, digit < base) (hb : ∀ digit ∈ b, digit < base) :
    compare a b = compare (Nat.ofDigits base a.reverse) (Nat.ofDigits base b.reverse) := by
  induction a generalizing b with
  | nil =>
    have hb : b = [] := List.length_eq_zero_iff.mp h.symm
    rw [hb]
    rfl
  | cons x a ih =>
    cases b with
    | nil => cases h
    | cons y b =>
      have hlength : a.length = b.length := Nat.succ.inj h
      have htail := ih b hlength (fun digit hdigit => ha digit (List.mem_cons_of_mem x hdigit))
        fun digit hdigit => hb digit (List.mem_cons_of_mem y hdigit)
      have hlow : Nat.ofDigits base a.reverse < base ^ a.length := by
        rw [← List.length_reverse]
        refine Nat.ofDigits_lt_base_pow_length hbase fun digit hdigit => ?_
        exact ha digit (List.mem_cons_of_mem x (List.mem_reverse.mp hdigit))
      have hlow' : Nat.ofDigits base b.reverse < base ^ a.length := by
        rw [hlength, ← List.length_reverse]
        refine Nat.ofDigits_lt_base_pow_length hbase fun digit hdigit => ?_
        exact hb digit (List.mem_cons_of_mem y (List.mem_reverse.mp hdigit))
      rw [List.compare_cons_cons, htail, List.reverse_cons, List.reverse_cons, Nat.ofDigits_append,
        Nat.ofDigits_append, Nat.ofDigits_singleton, Nat.ofDigits_singleton, List.length_reverse,
        List.length_reverse, ← hlength]
      exact (compare_scaled _ _ _ x y hlow hlow').symm

theorem compare_digitByte (x y : Nat) (hx : x < 16) (hy : y < 16) :
    compare (digitByte x) (digitByte y) = compare x y := by
  have hall : ∀ x < 16, ∀ y < 16, compare (digitByte x) (digitByte y) = compare x y := by decide
  exact hall x hx y hy

theorem length_padded (hbase : 1 < base) (width n : Nat) (hwidth : 0 < width)
    (h : n < base ^ width) : (padded base width n).length = width := by
  unfold padded
  rw [List.length_map, length_paddedDigits hbase width n hwidth h]

theorem compare_padded (hbase : 1 < base) (hsixteen : base ≤ 16) (width a b : Nat)
    (hwidth : 0 < width) (ha : a < base ^ width) (hb : b < base ^ width) :
    compare (padded base width a) (padded base width b) = compare a b := by
  have hdigits : ∀ n digit, digit ∈ paddedDigits base width n → digit < base :=
    paddedDigits_lt hbase width
  have hlength : (paddedDigits base width a).length = (paddedDigits base width b).length := by
    rw [length_paddedDigits hbase width a hwidth ha, length_paddedDigits hbase width b hwidth hb]
  unfold padded
  rw [compare_map digitByte _ _ fun x hx y hy => compare_digitByte x y
      (by have := hdigits a x hx; omega) (by have := hdigits b y hy; omega),
    compare_digits hbase _ _ hlength (hdigits a) (hdigits b), ofDigits_paddedDigits,
    ofDigits_paddedDigits]

def byteDigit (byte : UInt8) : Nat :=
  if byte < 0x3A then byte.toNat - 0x30 else byte.toNat - 0x57

theorem byteDigit_digitByte (digit : Nat) (h : digit < 16) : byteDigit (digitByte digit) = digit := by
  have hall : ∀ digit < 16, byteDigit (digitByte digit) = digit := by decide
  exact hall digit h

theorem padded_inj (hbase : 1 < base) (hsixteen : base ≤ 16) (width a b : Nat)
    (h : padded base width a = padded base width b) : a = b := by
  have hback : ∀ n, (padded base width n).map byteDigit = paddedDigits base width n := by
    intro n
    unfold padded
    rw [List.map_map]
    refine (List.map_congr_left fun digit hdigit => ?_).trans (List.map_id _)
    have hlt := paddedDigits_lt hbase width n digit hdigit
    exact byteDigit_digitByte digit (by omega)
  have hself : Nat.ofDigits base (paddedDigits base width a).reverse = a := ofDigits_paddedDigits width a
  rw [← hself, ← hback, h, hback, ofDigits_paddedDigits]

theorem isDigit_of_mem_padded (width n : Nat) (byte : UInt8) (h : byte ∈ padded 10 width n) :
    0x30 ≤ byte ∧ byte ≤ 0x39 := by
  obtain ⟨digit, hdigit, rfl⟩ := List.mem_map.mp h
  have hall : ∀ digit < 10, 0x30 ≤ digitByte digit ∧ digitByte digit ≤ 0x39 := by decide
  exact hall digit (paddedDigits_lt (by omega) width n digit hdigit)

theorem parseU64_padded (width n : Nat) (h : n < 2 ^ 64) :
    Str.parseU64 (padded 10 width n) = some n := by
  have hdigits := isDigit_of_mem_padded width n
  have hne : padded 10 width n ≠ [] := by
    unfold padded paddedDigits digitsOf
    split
    · simp
    · rename_i hn
      simpa [Nat.digits_eq_nil_iff_eq_zero] using fun _ => hn
  have hplus : Str.stripPrefix (padded 10 width n) [0x2B] = none := by
    cases hs : Str.stripPrefix (padded 10 width n) [0x2B] with
    | none => rfl
    | some rest =>
      have heq := (Str.stripPrefix_eq_some _ [0x2B] rest).mp hs
      have hmem := hdigits 0x2B (by rw [heq]; exact List.mem_cons_self)
      exact absurd hmem.1 (by decide)
  have hall : (padded 10 width n).all (fun byte => 0x30 ≤ byte && byte ≤ 0x39) = true := by
    rw [List.all_eq_true]
    intro byte hbyte
    rw [Bool.and_eq_true, decide_eq_true_eq, decide_eq_true_eq]
    exact hdigits byte hbyte
  have hvalue : Nat.ofDigits 10 ((padded 10 width n).reverse.map fun byte => byte.toNat - 0x30) = n := by
    have hback : (padded 10 width n).map (fun byte => byte.toNat - 0x30) = paddedDigits 10 width n := by
      unfold padded
      rw [List.map_map]
      refine (List.map_congr_left fun digit hdigit => ?_).trans (List.map_id _)
      have hten : ∀ digit < 10, (digitByte digit).toNat - 0x30 = digit := by decide
      exact hten digit (paddedDigits_lt (by omega) width n digit hdigit)
    rw [List.map_reverse, hback, ofDigits_paddedDigits]
  unfold Str.parseU64
  simp only [hplus, Option.getD_none, hvalue]
  exact if_pos ⟨hne, hall, h⟩

end Numeral
end Peryx
