import Mathlib.Data.List.Sort
import Mathlib.Order.Basic

/-!
# Reading a sorted list by pages

A reader keeps the key of the last item it saw.
-/

namespace Peryx.Cursor
variable {α κ : Type} [LinearOrder κ] (key : α → κ)

def after (cursor : κ) (items : List α) : List α := items.filter fun item => cursor < key item

theorem mem_after (cursor : κ) (items : List α) (item : α) :
    item ∈ after key cursor items ↔ item ∈ items ∧ cursor < key item := by
  unfold after
  rw [List.mem_filter, decide_eq_true_iff]

theorem after_append (cursor : κ) (items more : List α) :
    after key cursor (items ++ more) = after key cursor items ++ after key cursor more :=
  List.filter_append ..

theorem after_after (cursor later : κ) (items : List α) (h : cursor ≤ later) :
    after key later (after key cursor items) = after key later items := by
  unfold after
  rw [List.filter_filter]
  congr 1
  funext item
  by_cases hlater : later < key item
  · simp [hlater, lt_of_le_of_lt h hlater]
  · simp [hlater]

theorem after_eq_nil (cursor : κ) (items : List α) (h : ∀ item ∈ items, key item ≤ cursor) :
    after key cursor items = [] := by
  unfold after
  rw [List.filter_eq_nil_iff]
  intro item hitem hlt
  exact absurd (of_decide_eq_true hlt) (not_lt.mpr (h item hitem))

theorem after_eq_self (cursor : κ) (items : List α) (h : ∀ item ∈ items, cursor < key item) :
    after key cursor items = items := by
  unfold after
  rw [List.filter_eq_self]
  exact fun item hitem => decide_eq_true (h item hitem)

theorem after_congr (cursor other : κ) (items : List α)
    (h : ∀ item ∈ items, cursor < key item ↔ other < key item) :
    after key cursor items = after key other items :=
  List.filter_congr fun item hitem => decide_eq_decide.mpr (h item hitem)

theorem sorted_after (cursor : κ) (items : List α)
    (h : items.Pairwise fun a b => key a < key b) :
    (after key cursor items).Pairwise fun a b => key a < key b :=
  h.sublist List.filter_sublist

theorem after_last (cursor : κ) (items : List α) (size : Nat) (last : α)
    (hsorted : items.Pairwise fun a b => key a < key b)
    (hlast : ((after key cursor items).take size).getLast? = some last) :
    after key (key last) items = (after key cursor items).drop size := by
  have hpage : last ∈ (after key cursor items).take size := List.mem_of_getLast? hlast
  have hcursor := ((mem_after key cursor items last).mp (List.mem_of_mem_take hpage)).2
  have hsplit := sorted_after key cursor items hsorted
  rw [← List.take_append_drop size (after key cursor items), List.pairwise_append] at hsplit
  obtain ⟨htake, -, hcross⟩ := hsplit
  have hfront : after key (key last) ((after key cursor items).take size) = [] := by
    refine after_eq_nil key (key last) _ fun item hitem => ?_
    obtain ⟨front, hfront⟩ := List.getLast?_eq_some_iff.mp hlast
    rw [hfront, List.pairwise_append] at htake
    rw [hfront] at hitem
    rcases List.mem_append.mp hitem with hitem | hitem
    · exact le_of_lt (htake.2.2 item hitem last (List.mem_singleton_self last))
    · rw [List.mem_singleton.mp hitem]
  have hback : after key (key last) ((after key cursor items).drop size) =
      (after key cursor items).drop size :=
    after_eq_self key (key last) _ fun item hitem => hcross last hpage item hitem
  rw [← after_after key cursor (key last) items (le_of_lt hcursor),
    ← List.take_append_drop size (after key cursor items), after_append, hfront, hback]
  simp

end Peryx.Cursor

/-!
## Following a chain of pages

A page is read at an offset and tells the next offset, if there is one. The chain may end
with a page that has no next, or with an error; if the next offsets do not grow it never
ends.
-/

namespace Peryx.Paging
variable {χ ε : Type} (read : Nat → Except ε χ) (next : χ → Option Nat)

/-- The pages from an offset on, each with the offset it was asked for, and the error that
ended them, if one did. -/
inductive Paged : Nat → List (Nat × χ) → Option ε → Prop
  | last (offset : Nat) (page : χ) (hread : read offset = .ok page) (hnext : next page = none) :
      Paged offset [(offset, page)] none
  | failed (offset : Nat) (err : ε) (hread : read offset = .error err) : Paged offset [] (some err)
  | more (offset after : Nat) (page : χ) (pages : List (Nat × χ)) (err : Option ε)
      (hread : read offset = .ok page) (hnext : next page = some after)
      (hrest : Paged after pages err) : Paged offset ((offset, page) :: pages) err

variable {read next}

theorem Paged.stuck {offset : Nat} {pages : List (Nat × χ)} {err : Option ε}
    (h : Paged read next offset pages err) (Inv : Nat → Prop) (Fault : ε → Prop) (hinv : Inv offset)
    (hlast : ∀ offset page, Inv offset → read offset = .ok page →
      ∃ after, next page = some after ∧ Inv after)
    (hfault : ∀ offset err, Inv offset → read offset = .error err → Fault err) :
    ∃ fault, err = some fault ∧ Fault fault := by
  induction h with
  | last offset page hread hnext =>
    obtain ⟨after, hafter, _⟩ := hlast offset page hinv hread
    rw [hnext] at hafter
    cases hafter
  | failed offset err hread => exact ⟨err, rfl, hfault offset err hinv hread⟩
  | more offset after page pages err hread hnext hrest ih =>
    obtain ⟨after', hafter, hinv'⟩ := hlast offset page hinv hread
    rw [hnext] at hafter
    cases hafter
    exact ih hinv'

section Content
variable {α : Type} (content : List α) (bytes : χ → List α) (placed : χ → Nat)

/-- What is read at the offsets of `Inv`: an error that may stand there, or some items of the
content, with the place behind them as the next offset unless they are the last. -/
structure Cuts (read : Nat → Except ε χ) (next : χ → Option Nat) (Inv : Nat → Prop)
    (Good : χ → Prop) (Fault : Nat → ε → Prop) : Prop where
  within : ∀ offset, Inv offset → offset ≤ content.length
  reads : ∀ offset, Inv offset → (∃ err, read offset = .error err ∧ Fault offset err) ∨
    ∃ page count, read offset = .ok page ∧ Good page ∧ placed page = offset ∧
      offset + count ≤ content.length ∧ bytes page = (content.drop offset).take count ∧
      ((next page = none ∧ offset + count = content.length) ∨
        (next page = some (offset + count) ∧ 0 < count ∧ Inv (offset + count)))

/-- A chain that has ended, from `offset` to `stop`. -/
structure Ended (Good : χ → Prop) (Fault : Nat → ε → Prop) (offset stop : Nat)
    (pages : List (Nat × χ)) (err : Option ε) : Prop where
  le : offset ≤ stop
  within : stop ≤ content.length
  joined : pages.flatMap (fun page => bytes page.2) = (content.take stop).drop offset
  good : ∀ page ∈ pages, Good page.2 ∧ placed page.2 = page.1
  above : ∀ page ∈ pages, offset ≤ page.1
  increasing : pages.Pairwise fun a b => a.1 < b.1
  finish : match err with
    | none => stop = content.length
    | some err => Fault stop err

variable {content bytes placed}

theorem drop_split (offset count stop : Nat) (h : offset + count ≤ stop) :
    (content.drop offset).take count ++ (content.take stop).drop (offset + count) =
      (content.take stop).drop offset := by
  have hfront : (content.drop offset).take count = ((content.take stop).drop offset).take count := by
    rw [List.drop_take, List.take_take, Nat.min_eq_left (by omega)]
  rw [hfront, ← List.drop_drop, List.take_append_drop]

/-- Every page moves on, so the chain ends. -/
theorem Cuts.ends {Inv : Nat → Prop} {Good : χ → Prop} {Fault : Nat → ε → Prop}
    (h : Cuts content bytes placed read next Inv Good Fault) (offset : Nat) (hinv : Inv offset) :
    ∃ stop pages err, Paged read next offset pages err ∧
      Ended content bytes placed Good Fault offset stop pages err := by
  have hwithin := h.within offset hinv
  rcases h.reads offset hinv with ⟨err, hread, hfault⟩ |
    ⟨page, count, hread, hgood, hplaced, hcount, hbytes, hstep⟩
  · refine ⟨offset, [], some err, .failed offset err hread, Nat.le_refl _, hwithin, ?_,
      List.forall_mem_nil _, List.forall_mem_nil _, List.Pairwise.nil, hfault⟩
    rw [List.flatMap_nil, List.drop_eq_nil_of_le]
    exact List.length_take_le ..
  · rcases hstep with ⟨hnext, hend⟩ | ⟨hnext, hpos, hafter⟩
    · refine ⟨offset + count, [(offset, page)], none, .last offset page hread hnext,
        Nat.le_add_right _ _, hcount, ?_, by simpa using ⟨hgood, hplaced⟩, by simp, by simp, hend⟩
      rw [List.flatMap_singleton, hbytes, ← drop_split offset count (offset + count) (Nat.le_refl _),
        List.drop_eq_nil_of_le (List.length_take_le ..), List.append_nil]
    · obtain ⟨stop, pages, err, hpaged, hended⟩ := ends h (offset + count) hafter
      refine ⟨stop, (offset, page) :: pages, err, .more offset _ page pages err hread hnext hpaged,
        by have := hended.le; omega, hended.within, ?_, ?_, ?_, ?_, hended.finish⟩
      · rw [List.flatMap_cons, hended.joined, hbytes, drop_split _ _ _ hended.le]
      · exact List.forall_mem_cons.mpr ⟨⟨hgood, hplaced⟩, hended.good⟩
      · refine List.forall_mem_cons.mpr ⟨Nat.le_refl _, fun p hp => ?_⟩
        have := hended.above p hp
        omega
      · refine List.Pairwise.cons (fun p hp => ?_) hended.increasing
        have := hended.above p hp
        dsimp only
        omega
termination_by content.length - offset

end Content

end Peryx.Paging
