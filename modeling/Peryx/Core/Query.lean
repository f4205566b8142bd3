import Peryx.Core.Path
import Peryx.Core.Utf8

/-!
# Query strings of a URL

`url::form_urlencoded::parse` as the sources use it: pairs between ampersands, a plus is a
space, escapes are decoded where they are well formed, and what is not UTF-8 is replaced.
-/

namespace Peryx.Query
open Core

def replacement : Str := [0xEF, 0xBF, 0xBD]

def followers (lead : UInt8) : Nat :=
  if 0xC2 ≤ lead ∧ lead ≤ 0xDF then 1
  else if 0xE0 ≤ lead ∧ lead ≤ 0xEF then 2
  else if 0xF0 ≤ lead ∧ lead ≤ 0xF4 then 3
  else 0

def continues (pending : Str) (byte : UInt8) : Bool :=
  if pending = [0xE0] then 0xA0 ≤ byte && byte ≤ 0xBF
  else if pending = [0xED] then 0x80 ≤ byte && byte ≤ 0x9F
  else if pending = [0xF0] then 0x90 ≤ byte && byte ≤ 0xBF
  else if pending = [0xF4] then 0x80 ≤ byte && byte ≤ 0x8F
  else Str.isContinuation byte

def lossyFrom (pending : Str) (missing : Nat) : Str → Str
  | [] => if pending = [] then [] else replacement
  | byte :: rest =>
    if pending ≠ [] ∧ continues pending byte = true then
      if missing = 1 then pending ++ byte :: lossyFrom [] 0 rest
      else lossyFrom (pending ++ [byte]) (missing - 1) rest
    else
      (if pending = [] then [] else replacement) ++
        if byte < 0x80 then byte :: lossyFrom [] 0 rest
        else if followers byte = 0 then replacement ++ lossyFrom [] 0 rest
        else lossyFrom [byte] (followers byte) rest

def fromUtf8Lossy (bytes : Str) : Str := lossyFrom [] 0 bytes

theorem fromUtf8Lossy_ascii (bytes : Str) (h : ∀ byte ∈ bytes, byte < 0x80) :
    fromUtf8Lossy bytes = bytes := by
  unfold fromUtf8Lossy
  induction bytes with
  | nil => rfl
  | cons byte rest ih =>
    rw [lossyFrom, if_neg (fun h => h.1 rfl), if_pos rfl, if_pos (h byte List.mem_cons_self),
      ih fun b hb => h b (List.mem_cons_of_mem _ hb)]
    rfl

def percentDecode : Str → Str
  | byte :: high :: low :: rest =>
    if byte = 0x25 then
      match hexByte high low with
      | some decoded => decoded :: percentDecode rest
      | none => byte :: percentDecode (high :: low :: rest)
    else byte :: percentDecode (high :: low :: rest)
  | short => short

theorem percentDecode_plain (text : Str) (h : 0x25 ∉ text) : percentDecode text = text := by
  induction text with
  | nil => rfl
  | cons byte rest ih =>
    rw [List.mem_cons, not_or] at h
    have htail := ih h.2
    match rest, htail with
    | [], _ => rfl
    | [_], _ => rfl
    | high :: low :: rest, htail => rw [percentDecode, if_neg (Ne.symm h.1), htail]

def decodeForm (text : Str) : Str :=
  fromUtf8Lossy (percentDecode (text.map fun byte => if byte = 0x2B then 0x20 else byte))

theorem decodeForm_plain (text : Str) (h : ∀ byte ∈ text, byte < 0x80 ∧ byte ≠ 0x25 ∧ byte ≠ 0x2B) :
    decodeForm text = text := by
  have hplus : text.map (fun byte => if byte = 0x2B then 0x20 else byte) = text := by
    refine (List.map_congr_left fun byte hbyte => ?_).trans (List.map_id text)
    exact if_neg (h byte hbyte).2.2
  unfold decodeForm
  rw [hplus, percentDecode_plain text fun hmem => (h _ hmem).2.1 rfl]
  exact fromUtf8Lossy_ascii text fun byte hbyte => (h byte hbyte).1

def formPair (piece : Str) : Str × Str :=
  match Str.splitOnce 0x3D piece with
  | some (key, value) => (decodeForm key, decodeForm value)
  | none => (decodeForm piece, [])

def formPairs (query : Str) : List (Str × Str) :=
  ((Str.split 0x26 query).filter fun piece => !piece.isEmpty).map formPair

def queryParam (query key : Str) : Option Str :=
  ((formPairs query).reverse.find? fun pair => pair.1 == key).map Prod.snd

def PlainForm (text : Str) : Prop :=
  ∀ byte ∈ text, byte < 0x80 ∧ byte ≠ 0x25 ∧ byte ≠ 0x2B ∧ byte ≠ 0x26 ∧ byte ≠ 0x3D

theorem PlainForm.decode {text : Str} (h : PlainForm text) : decodeForm text = text :=
  decodeForm_plain text fun byte hbyte => ⟨(h byte hbyte).1, (h byte hbyte).2.1, (h byte hbyte).2.2.1⟩

theorem formPair_plain (key value : Str) (hkey : PlainForm key) (hvalue : PlainForm value) :
    formPair (key ++ 0x3D :: value) = (key, value) := by
  have hequals : 0x3D ∉ key := fun hmem => (hkey _ hmem).2.2.2.2 rfl
  unfold formPair
  rw [Str.splitOnce_append 0x3D key value hequals]
  simp only [hkey.decode, hvalue.decode]

theorem pair_ampersand (key value : Str) (hkey : PlainForm key) (hvalue : PlainForm value) :
    0x26 ∉ key ++ 0x3D :: value := by
  rw [List.mem_append, List.mem_cons, not_or, not_or]
  exact ⟨fun hmem => (hkey _ hmem).2.2.2.1 rfl, by decide, fun hmem => (hvalue _ hmem).2.2.2.1 rfl⟩

theorem formPairs_one (key value : Str) (hkey : PlainForm key) (hvalue : PlainForm value) :
    formPairs (key ++ 0x3D :: value) = [(key, value)] := by
  unfold formPairs Str.split
  rw [List.splitOn_eq_singleton (pair_ampersand key value hkey hvalue)]
  simp [formPair_plain key value hkey hvalue]

theorem formPairs_two (key value key' value' : Str) (hkey : PlainForm key)
    (hvalue : PlainForm value) (hkey' : PlainForm key') (hvalue' : PlainForm value') :
    formPairs (key ++ 0x3D :: value ++ 0x26 :: (key' ++ 0x3D :: value')) =
      [(key, value), (key', value')] := by
  unfold formPairs Str.split
  rw [List.splitOn_append_cons_self_of_not_mem (pair_ampersand key value hkey hvalue),
    List.splitOn_eq_singleton (pair_ampersand key' value' hkey' hvalue')]
  simp [formPair_plain key value hkey hvalue, formPair_plain key' value' hkey' hvalue']

def keptInQuery (byte : UInt8) : Bool :=
  0x21 ≤ byte && byte ≤ 0x7E && byte != 0x22 && byte != 0x23 && byte != 0x27 && byte != 0x3C &&
    byte != 0x3E

def escapeQuery (query : Str) : Str :=
  query.flatMap fun byte => if keptInQuery byte then [byte] else percentByte byte

theorem escapeQuery_kept (query : Str) (h : ∀ byte ∈ query, keptInQuery byte = true) :
    escapeQuery query = query := by
  induction query with
  | nil => rfl
  | cons byte rest ih =>
    have htail := ih fun b hb => h b (List.mem_cons_of_mem _ hb)
    unfold escapeQuery at htail ⊢
    rw [List.flatMap_cons, if_pos (h byte List.mem_cons_self), htail]
    rfl

end Peryx.Query
