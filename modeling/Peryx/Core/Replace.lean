import Peryx.Core.Text

/-! # Replacing in a text (str::replace) -/

namespace Peryx.Str

def replaceFrom (needle new : Str) : Nat → Str → Str
  | _, [] => []
  | skip + 1, _ :: rest => replaceFrom needle new skip rest
  | 0, byte :: rest =>
    if startsWith (byte :: rest) needle then new ++ replaceFrom needle new (needle.length - 1) rest
    else byte :: replaceFrom needle new 0 rest

def replace (subject needle new : Str) : Str := replaceFrom needle new 0 subject

def IsReference (text : Str) : Prop := ∃ body, text = 0x26 :: body ++ [0x3B] ∧ 0x26 ∉ body ∧ 0x3B ∉ body

def IsPiece (text : Str) : Prop := (∃ byte, byte ≠ 0x26 ∧ text = [byte]) ∨ IsReference text

variable {needle : Str} (new : Str)

theorem replaceFrom_skip (front rest : Str) :
    replaceFrom needle new front.length (front ++ rest) = replaceFrom needle new 0 rest := by
  induction front with
  | nil => rfl
  | cons byte front ih =>
    rw [List.length_cons, List.cons_append, replaceFrom]
    exact ih

theorem replaceFrom_plain (h : IsReference needle) (front rest : Str) (hfront : 0x26 ∉ front) :
    replaceFrom needle new 0 (front ++ rest) = front ++ replaceFrom needle new 0 rest := by
  obtain ⟨body, rfl, hbody⟩ := h
  induction front with
  | nil => rfl
  | cons byte front ih =>
    rw [List.mem_cons, not_or] at hfront
    have hno : ¬ startsWith (byte :: (front ++ rest)) (0x26 :: body ++ [0x3B]) = true := by
      rw [startsWith_iff, List.cons_append, List.cons_prefix_cons]
      exact fun hboth => hfront.1 hboth.1
    change replaceFrom _ new 0 (byte :: (front ++ rest)) = byte :: front ++ _
    rw [replaceFrom, if_neg hno, ih hfront.2]
    rfl

theorem reference_first (h : IsReference needle) {piece : Str} (hpiece : IsReference piece)
    (rest : Str) (hstart : needle <+: piece ++ rest) : piece = needle := by
  obtain ⟨body, rfl, -, hbody⟩ := h
  obtain ⟨own, rfl, -, hown⟩ := hpiece
  obtain ⟨tail, htail⟩ := hstart
  simp only [List.cons_append, List.append_assoc, List.nil_append, List.cons.injEq,
    true_and] at htail
  have hfirst := splitOnce_append 0x3B body tail hbody
  rw [htail, splitOnce_append 0x3B own rest hown, Option.some.injEq, Prod.mk.injEq] at hfirst
  rw [hfirst.1]

theorem replaceFrom_piece (h : IsReference needle) (piece rest : Str) (hpiece : IsPiece piece) :
    replaceFrom needle new 0 (piece ++ rest) =
      (if piece = needle then new else piece) ++ replaceFrom needle new 0 rest := by
  rcases hpiece with ⟨byte, hbyte, rfl⟩ | hreference
  · have hne : [byte] ≠ needle := by
      obtain ⟨body, rfl, -⟩ := h
      intro heq
      exact hbyte (List.cons.inj heq).1
    rw [if_neg hne]
    exact replaceFrom_plain new h [byte] rest fun hmem => hbyte (List.mem_singleton.mp hmem).symm
  · by_cases heq : piece = needle
    · rw [if_pos heq, heq]
      have hstart : startsWith (needle ++ rest) needle = true :=
        (startsWith_iff _ _).mpr (List.prefix_append needle rest)
      obtain ⟨body, rfl, -⟩ := h
      rw [List.cons_append, List.cons_append] at hstart ⊢
      rw [replaceFrom, if_pos hstart]
      exact congrArg (new ++ ·) (replaceFrom_skip new (body ++ [0x3B]) rest)
    · rw [if_neg heq]
      have hno : ¬ startsWith (piece ++ rest) needle = true := by
        rw [startsWith_iff]
        exact fun hstart => heq (reference_first h hreference rest hstart)
      obtain ⟨own, rfl, hampersand, -⟩ := hreference
      have htail : (0x26 : UInt8) ∉ own ++ [0x3B] := by
        rw [List.mem_append, not_or]
        exact ⟨hampersand, by decide⟩
      rw [List.cons_append, List.cons_append] at hno ⊢
      rw [replaceFrom, if_neg hno, replaceFrom_plain new h _ rest htail]
      rfl

theorem replace_pieces (h : IsReference needle) (pieces : List Str)
    (hpieces : ∀ piece ∈ pieces, IsPiece piece) :
    replace pieces.flatten needle new =
      (pieces.map fun piece => if piece = needle then new else piece).flatten := by
  unfold replace
  induction pieces with
  | nil => rfl
  | cons piece pieces ih =>
    rw [List.flatten_cons, replaceFrom_piece new h piece _ (hpieces piece List.mem_cons_self),
      ih fun other hother => hpieces other (List.mem_cons_of_mem _ hother)]
    rfl

theorem replace_flatMap (h : IsReference needle) (write rewritten : UInt8 → Str)
    (hpieces : ∀ byte, IsPiece (write byte))
    (hrewritten : ∀ byte, (if write byte = needle then new else write byte) = rewritten byte)
    (text : Str) : replace (text.flatMap write) needle new = text.flatMap rewritten := by
  have hreplaced := replace_pieces new h (text.map write) fun piece hpiece => by
    obtain ⟨byte, -, rfl⟩ := List.mem_map.mp hpiece
    exact hpieces byte
  rw [List.map_map] at hreplaced
  rw [List.flatMap_def, List.flatMap_def, hreplaced]
  exact congrArg List.flatten (List.map_congr_left fun byte _ => hrewritten byte)

theorem replace_plain (h : IsReference needle) (subject : Str) (hsubject : 0x26 ∉ subject) :
    replace subject needle new = subject := by
  have hreplaced := replaceFrom_plain new h subject [] hsubject
  rw [List.append_nil] at hreplaced
  exact hreplaced.trans (List.append_nil subject)

end Peryx.Str
