import Peryx.Core.Numeral
import Peryx.Library.Table
import Peryx.Library.Transition
import Peryx.Library.LookupTable

/-! # Webhook deliveries (peryx-storage/src/meta/webhook.rs) -/

namespace Peryx.Webhook
open Numeral

inductive WebhookDeliveryStatus where
  | pending
  | delivered
  | failed
  deriving Repr, DecidableEq

structure WebhookDeliveryRecord where
  id : Str
  index : Str
  target : Str
  event : Str
  payload : Str
  status : WebhookDeliveryStatus
  attempts : UInt16
  createdAtUnix : Int64
  updatedAtUnix : Int64
  nextAttemptAtUnix : Option Int64
  responseStatus : Option UInt16
  lastError : Option Str
  deriving DecidableEq

structure NewWebhookDelivery where
  index : Str
  target : Str
  event : Str
  payload : Str
  createdAtUnix : Int64

structure WebhookDeliveryAttempt where
  status : WebhookDeliveryStatus
  updatedAtUnix : Int64
  nextAttemptAtUnix : Option Int64
  responseStatus : Option UInt16
  lastError : Option Str

structure WebhookTables where
  serial : Nat := 0
  delivery : Table Str WebhookDeliveryRecord := ∅
  due : Table Str Str := ∅

def signBit : UInt64 := (1 : UInt64) <<< 63

def sortable (timestamp : Int64) : UInt64 := timestamp.toUInt64 ^^^ signBit

def dueKey (timestamp : Int64) (id : Str) : Str :=
  padded 10 20 (sortable timestamp).toNat ++ 0x2F :: id

def dueKeyTime (key : Str) : Option Int64 := do
  let (raw, _) ← Str.splitOnce 0x2F key
  let raw ← Str.parseU64 raw
  return (UInt64.ofNat raw ^^^ signBit).toInt64

def deliveryId (next : Nat) : Str := str "wd_" ++ padded 16 16 next

def enqueueWebhookDelivery (tables : WebhookTables) (delivery : NewWebhookDelivery) :
    Str × WebhookTables :=
  let next := tables.serial + 1
  let id := deliveryId next
  let record : WebhookDeliveryRecord := {
    id
    index := delivery.index
    target := delivery.target
    event := delivery.event
    payload := delivery.payload
    status := .pending
    attempts := 0
    createdAtUnix := delivery.createdAtUnix
    updatedAtUnix := delivery.createdAtUnix
    nextAttemptAtUnix := some delivery.createdAtUnix
    responseStatus := none
    lastError := none }
  (id, {
    serial := next
    delivery := tables.delivery.insert id record
    due := tables.due.insert (dueKey delivery.createdAtUnix id) id })

def WebhookDeliveryRecord.attempted (record : WebhookDeliveryRecord)
    (attempt : WebhookDeliveryAttempt) : WebhookDeliveryRecord :=
  { record with
    status := attempt.status
    attempts := record.attempts + 1
    updatedAtUnix := attempt.updatedAtUnix
    nextAttemptAtUnix := attempt.nextAttemptAtUnix
    responseStatus := attempt.responseStatus
    lastError := attempt.lastError }

def WebhookDeliveryRecord.scheduled (record : WebhookDeliveryRecord) : Option Int64 :=
  if record.status = .pending then record.nextAttemptAtUnix else none

def updateWebhookDelivery (tables : WebhookTables) (id : Str) (attempt : WebhookDeliveryAttempt) :
    Option WebhookDeliveryRecord × WebhookTables :=
  match tables.delivery[id]? with
  | none => (none, tables)
  | some record =>
    let due := match record.nextAttemptAtUnix with
      | some next => tables.due.erase (dueKey next record.id)
      | none => tables.due
    let record := record.attempted attempt
    let due := match record.scheduled with
      | some next => due.insert (dueKey next id) id
      | none => due
    (some record, { tables with delivery := tables.delivery.insert id record, due := due })

def collectDue (deliveries : Table Str WebhookDeliveryRecord) (nowUnix : Int64) (limit : Nat) :
    List (Str × Str) → List WebhookDeliveryRecord → List WebhookDeliveryRecord
  | [], records => records
  | (key, id) :: entries, records =>
    match dueKeyTime key with
    | none => collectDue deliveries nowUnix limit entries records
    | some dueAt =>
      if nowUnix < dueAt then records
      else match deliveries[id]? with
        | none => collectDue deliveries nowUnix limit entries records
        | some record =>
          if (records ++ [record]).length = limit then records ++ [record]
          else collectDue deliveries nowUnix limit entries (records ++ [record])

def listDueWebhookDeliveries (tables : WebhookTables) (nowUnix : Int64) (limit : Nat) :
    List WebhookDeliveryRecord :=
  if limit = 0 then [] else collectDue tables.delivery nowUnix limit tables.due.toList []

def nextWebhookDeliveryAt (tables : WebhookTables) : Option Int64 :=
  tables.due.toList.head?.bind fun (key, _) => dueKeyTime key

inductive WebhookStep (tables : WebhookTables) : WebhookTables → Prop
  | enqueue (delivery : NewWebhookDelivery) :
    WebhookStep tables (enqueueWebhookDelivery tables delivery).2
  | update (id : Str) (attempt : WebhookDeliveryAttempt) :
    WebhookStep tables (updateWebhookDelivery tables id attempt).2
  | failed : WebhookStep tables tables

def webhookSystem : System WebhookTables where
  start tables := tables = {}
  step := WebhookStep

theorem xor_top (k n : Nat) (h : n < 2 ^ k) : n ^^^ 2 ^ k = n + 2 ^ k := by
  have hor := Nat.two_pow_add_eq_or_of_lt h 1
  rw [Nat.mul_one] at hor
  rw [Nat.add_comm, hor]
  apply Nat.eq_of_testBit_eq
  intro i
  rw [Nat.testBit_xor, Nat.testBit_or, Nat.testBit_two_pow]
  by_cases hi : k = i
  · subst hi
    rw [Nat.testBit_lt_two_pow h, Bool.false_xor, Bool.or_false]
  · simp [hi]

theorem sortable_toNat (timestamp : Int64) :
    ((sortable timestamp).toNat : Int) = timestamp.toInt + 2 ^ 63 := by
  have hint := BitVec.toInt_eq_toNat_cond timestamp.toBitVec
  have hraw : timestamp.toBitVec.toNat = timestamp.toUInt64.toNat := rfl
  have hself : timestamp.toInt = timestamp.toBitVec.toInt := rfl
  have hlt := timestamp.toUInt64.toNat_lt
  have htop : signBit.toNat = 2 ^ 63 := by decide
  have hxor : (sortable timestamp).toNat = timestamp.toUInt64.toNat ^^^ 2 ^ 63 := by
    rw [sortable, UInt64.toNat_xor, htop]
  rw [hxor, hself, hint, hraw]
  by_cases hsmall : timestamp.toUInt64.toNat < 2 ^ 63
  · rw [xor_top 63 _ hsmall, if_pos (by omega)]
    omega
  · obtain ⟨low, hlow⟩ : ∃ low, timestamp.toUInt64.toNat = low + 2 ^ 63 :=
      ⟨timestamp.toUInt64.toNat - 2 ^ 63, by omega⟩
    rw [if_neg (by omega), hlow]
    have hflip : (low + 2 ^ 63) ^^^ 2 ^ 63 = low := by
      rw [← xor_top 63 low (by omega), Nat.xor_assoc, Nat.xor_self, Nat.xor_zero]
    rw [hflip]
    omega

theorem compare_sortable (a b : Int64) :
    compare (sortable a).toNat (sortable b).toNat = compare a.toInt b.toInt := by
  have ha := sortable_toNat a
  have hb := sortable_toNat b
  rcases Int.lt_trichotomy a.toInt b.toInt with h | h | h
  · rw [compare_lt_iff_lt.mpr h, compare_lt_iff_lt.mpr (by omega)]
  · rw [compare_eq_iff_eq.mpr h, compare_eq_iff_eq.mpr (by omega)]
  · rw [compare_gt_iff_gt.mpr h, compare_gt_iff_gt.mpr (by omega)]

theorem compare_dueKey (a b : Int64) (id other : Str) :
    compare (dueKey a id) (dueKey b other) = (compare a.toInt b.toInt).then (compare id other) := by
  have hlt : ∀ timestamp : Int64, (sortable timestamp).toNat < 10 ^ 20 := by
    intro timestamp
    have := (sortable timestamp).toNat_lt
    omega
  have hlength : ∀ timestamp : Int64, (padded 10 20 (sortable timestamp).toNat).length = 20 :=
    fun timestamp => length_padded (by omega) 20 _ (by omega) (hlt timestamp)
  unfold dueKey
  rw [compare_append _ _ _ _ ((hlength a).trans (hlength b).symm),
    compare_padded (by omega) (by omega) 20 _ _ (by omega) (hlt a) (hlt b), compare_sortable,
    List.compare_cons_cons]
  have hself : compare (0x2F : UInt8) 0x2F = .eq := by decide
  rw [hself, Ordering.eq_then]

theorem dueKeyTime_dueKey (timestamp : Int64) (id : Str) :
    dueKeyTime (dueKey timestamp id) = some timestamp := by
  have hslash : 0x2F ∉ padded 10 20 (sortable timestamp).toNat := by
    intro hmem
    have hdigit := isDigit_of_mem_padded 20 _ _ hmem
    exact absurd hdigit.1 (by decide)
  have hsplit : Str.splitOnce 0x2F (dueKey timestamp id) =
      some (padded 10 20 (sortable timestamp).toNat, id) :=
    Str.splitOnce_append 0x2F _ id hslash
  have hparse := parseU64_padded 20 (sortable timestamp).toNat (sortable timestamp).toNat_lt
  have hback : (UInt64.ofNat (sortable timestamp).toNat ^^^ signBit).toInt64 = timestamp := by
    rw [UInt64.ofNat_toNat, sortable, UInt64.xor_assoc, UInt64.xor_self, UInt64.xor_zero,
      Int64.toInt64_toUInt64]
  unfold dueKeyTime
  rw [hsplit]
  dsimp only [Option.bind_eq_bind, Option.bind_some]
  rw [hparse]
  exact congrArg some hback

end Peryx.Webhook

/-!
## The webhook queue along every run

The due table holds one row for each pending delivery with a next attempt, and no other. Its
keys sort by time and id, so that a scan from the start meets the earliest deliveries first.
-/

namespace Peryx.Webhook
open Numeral

theorem dueKey_inj {a b : Int64} {id other : Str} (h : dueKey a id = dueKey b other) :
    a = b ∧ id = other := by
  have hself : compare (dueKey a id) (dueKey b other) = .eq := by
    rw [h]
    exact Std.ReflCmp.compare_self
  rw [compare_dueKey, Ordering.then_eq_eq] at hself
  exact ⟨Int64.toInt_inj.mp (Std.LawfulEqCmp.eq_of_compare hself.1),
    Std.LawfulEqCmp.eq_of_compare hself.2⟩

theorem deliveryId_inj {number other : Nat} (h : deliveryId number = deliveryId other) :
    number = other :=
  padded_inj (by omega) (by omega) 16 number other (List.append_cancel_left h)

def WebhookTables.dueKeyOf (tables : WebhookTables) (id : Str) : Option Str :=
  tables.delivery[id]?.bind fun record => record.scheduled.map fun time => dueKey time id

structure WebhookTables.Aligned (tables : WebhookTables) : Prop where
  named : ∀ id record, tables.delivery[id]? = some record →
    record.id = id ∧ ∃ number ≤ tables.serial, id = deliveryId number
  due : tables.due.Finds tables.dueKeyOf

variable {tables : WebhookTables}

theorem dueKeyOf_eq_some (id key : Str) : tables.dueKeyOf id = some key ↔
    ∃ record time, tables.delivery[id]? = some record ∧ record.scheduled = some time ∧
      key = dueKey time id := by
  unfold WebhookTables.dueKeyOf
  constructor
  · intro h
    obtain ⟨record, hrow, hkey⟩ := Option.bind_eq_some_iff.mp h
    obtain ⟨time, htime, rfl⟩ := Option.map_eq_some_iff.mp hkey
    exact ⟨record, time, hrow, htime, rfl⟩
  · rintro ⟨record, time, hrow, htime, rfl⟩
    rw [hrow, Option.bind_some, htime]
    rfl

theorem dueKeyOf_own (time : Int64) (id other : Str)
    (h : tables.dueKeyOf other = some (dueKey time id)) : other = id := by
  obtain ⟨record, found, -, -, hkey⟩ := (dueKeyOf_eq_some other _).mp h
  exact (dueKey_inj hkey).2.symm

theorem dueKeyOf_insert (tables : WebhookTables) (id : Str) (record : WebhookDeliveryRecord)
    (after : WebhookTables) (h : after.delivery = tables.delivery.insert id record) (other : Str) :
    after.dueKeyOf other = if other = id then record.scheduled.map fun time => dueKey time id
      else tables.dueKeyOf other := by
  have hrow : after.delivery[other]? = if id = other then some record else tables.delivery[other]? := by
    rw [h]
    exact Table.getElem?_set tables.delivery id other (some record)
  unfold WebhookTables.dueKeyOf
  rw [hrow]
  by_cases hid : id = other
  · subst hid
    simp
  · rw [if_neg hid, if_neg fun heq => hid heq.symm]

theorem named_insert (h : tables.Aligned) (id : Str) (record : WebhookDeliveryRecord)
    (after : WebhookTables) (hdelivery : after.delivery = tables.delivery.insert id record)
    (hserial : tables.serial ≤ after.serial)
    (hname : record.id = id ∧ ∃ number ≤ after.serial, id = deliveryId number) (other : Str)
    (found : WebhookDeliveryRecord) (hfound : after.delivery[other]? = some found) :
    found.id = other ∧ ∃ number ≤ after.serial, other = deliveryId number := by
  have hrow : after.delivery[other]? = if id = other then some record else tables.delivery[other]? := by
    rw [hdelivery]
    exact Table.getElem?_set tables.delivery id other (some record)
  rw [hrow] at hfound
  split at hfound
  · rename_i hid
    cases hfound
    rw [← hid]
    exact hname
  · obtain ⟨hid, number, hnumber, hother⟩ := h.named other found hfound
    exact ⟨hid, number, by omega, hother⟩

theorem enqueue_aligned (h : tables.Aligned) (delivery : NewWebhookDelivery) :
    (enqueueWebhookDelivery tables delivery).2.Aligned := by
  let id := deliveryId (tables.serial + 1)
  have hfresh : tables.delivery[id]? = none := by
    cases hrow : tables.delivery[id]? with
    | none => rfl
    | some record =>
      obtain ⟨-, number, hnumber, hid⟩ := h.named _ record hrow
      have heq := deliveryId_inj hid
      omega
  have hmoved := h.due.move none (some (dueKey delivery.createdAtUnix id)) id
    (fun key hkey => by
      obtain ⟨record, time, hrow, -⟩ := (dueKeyOf_eq_some id key).mp hkey
      rw [hfresh] at hrow
      cases hrow)
    (fun key other hold => nomatch hold)
    (fun key other hnew hkey => by
      cases hnew
      exact dueKeyOf_own _ id other hkey)
  refine ⟨?_, ?_⟩
  · exact named_insert h id _ _ rfl (Nat.le_succ _) ⟨rfl, _, Nat.le_refl _, rfl⟩
  · refine hmoved.congr fun other => ?_
    rw [dueKeyOf_insert tables id _ _ rfl other]
    rfl

theorem update_aligned (h : tables.Aligned) (id : Str) (attempt : WebhookDeliveryAttempt) :
    (updateWebhookDelivery tables id attempt).2.Aligned := by
  unfold updateWebhookDelivery
  cases hrow : tables.delivery[id]? with
  | none => exact h
  | some record =>
    obtain ⟨hname, hnumber⟩ := h.named id record hrow
    have hmoved := h.due.move (record.nextAttemptAtUnix.map fun time => dueKey time id)
      ((record.attempted attempt).scheduled.map fun time => dueKey time id) id
      (fun key hkey => by
        obtain ⟨found, time, hfound, htime, rfl⟩ := (dueKeyOf_eq_some id key).mp hkey
        rw [hrow] at hfound
        cases hfound
        unfold WebhookDeliveryRecord.scheduled at htime
        split at htime
        · rw [htime]
          rfl
        · cases htime)
      (fun key other hold hkey => by
        obtain ⟨time, -, rfl⟩ := Option.map_eq_some_iff.mp hold
        exact dueKeyOf_own _ id other hkey)
      (fun key other hnew hkey => by
        obtain ⟨time, -, rfl⟩ := Option.map_eq_some_iff.mp hnew
        exact dueKeyOf_own _ id other hkey)
    dsimp only
    refine ⟨?_, ?_⟩
    · exact named_insert h id (record.attempted attempt) _ rfl (Nat.le_refl _) ⟨hname, hnumber⟩
    · have hkeys := hmoved.congr fun other =>
        dueKeyOf_insert tables id (record.attempted attempt)
          { tables with delivery := tables.delivery.insert id (record.attempted attempt) } rfl other
      rw [hname]
      cases hnew : (record.attempted attempt).scheduled <;>
        cases hold : record.nextAttemptAtUnix <;> rw [hnew, hold] at hkeys <;> exact hkeys

theorem webhooks_aligned (tables : WebhookTables) (h : webhookSystem.Reachable tables) :
    tables.Aligned := by
  refine webhookSystem.invariant WebhookTables.Aligned ?_ ?_ tables h
  · rintro tables rfl
    refine ⟨fun id record hrow => ?_, Table.finds_empty fun id => ?_⟩
    · rw [Std.ExtTreeMap.getElem?_empty] at hrow
      cases hrow
    · unfold WebhookTables.dueKeyOf
      rw [Std.ExtTreeMap.getElem?_empty]
      rfl
  · intro tables next _ haligned hstep
    cases hstep with
    | enqueue delivery => exact enqueue_aligned haligned delivery
    | update id attempt => exact update_aligned haligned id attempt
    | failed => exact haligned

def WebhookTables.queued (tables : WebhookTables) : List (Int64 × WebhookDeliveryRecord) :=
  tables.delivery.toList.filterMap fun row => row.2.scheduled.map fun time => (time, row.2)

def earlier (a b : Int64 × WebhookDeliveryRecord) : Bool :=
  ((compare a.1.toInt b.1.toInt).then (compare a.2.id b.2.id)).isLE

theorem earlier_eq (a b : Int64 × WebhookDeliveryRecord) :
    earlier a b = (compare (dueKey a.1 a.2.id) (dueKey b.1 b.2.id)).isLE := by
  rw [compare_dueKey]
  rfl

theorem earlier_mergeSort (entries : List (Int64 × WebhookDeliveryRecord)) :
    (entries.mergeSort earlier).Pairwise fun a b => earlier a b = true := by
  refine List.pairwise_mergeSort (fun a b c hab hbc => ?_) (fun a b => ?_) entries
  · rw [earlier_eq] at hab hbc ⊢
    exact Std.TransCmp.isLE_trans hab hbc
  · have hswap : compare (dueKey b.1 b.2.id) (dueKey a.1 a.2.id) =
        (compare (dueKey a.1 a.2.id) (dueKey b.1 b.2.id)).swap := Std.OrientedCmp.eq_swap
    rw [earlier_eq, earlier_eq, hswap]
    cases compare (dueKey a.1 a.2.id) (dueKey b.1 b.2.id) <;> rfl

theorem mem_queued (time : Int64) (record : WebhookDeliveryRecord) :
    (time, record) ∈ tables.queued ↔
      ∃ id : Str, tables.delivery[id]? = some record ∧ record.scheduled = some time := by
  unfold WebhookTables.queued
  rw [List.mem_filterMap]
  constructor
  · rintro ⟨⟨id, found⟩, hrow, hfound⟩
    obtain ⟨found', htime, heq⟩ := Option.map_eq_some_iff.mp hfound
    cases heq
    exact ⟨id, Std.ExtTreeMap.mem_toList_iff_getElem?_eq_some.mp hrow, htime⟩
  · rintro ⟨id, hrow, htime⟩
    refine ⟨(id, record), Std.ExtTreeMap.mem_toList_iff_getElem?_eq_some.mpr hrow, ?_⟩
    rw [htime]
    rfl

def WebhookTables.resolve (tables : WebhookTables) (row : Str × Str) :
    Option (Int64 × WebhookDeliveryRecord) :=
  tables.delivery[row.2]?.bind fun record => record.scheduled.map fun time => (time, record)

theorem resolve_of_due (h : tables.Aligned) {key id : Str} (hdue : tables.due[key]? = some id) :
    ∃ time record, tables.resolve (key, id) = some (time, record) ∧
      tables.delivery[id]? = some record ∧ record.scheduled = some time ∧ record.id = id ∧
      key = dueKey time id := by
  obtain ⟨record, time, hrow, htime, hkey⟩ := (dueKeyOf_eq_some id key).mp ((h.due key id).mp hdue)
  refine ⟨time, record, ?_, hrow, htime, (h.named id record hrow).1, hkey⟩
  unfold WebhookTables.resolve
  rw [hrow, Option.bind_some, htime]
  rfl

theorem mem_due_toList {key id : Str} (h : (key, id) ∈ tables.due.toList) :
    tables.due[key]? = some id :=
  Std.ExtTreeMap.mem_toList_iff_getElem?_eq_some.mp h

theorem due_resolved (h : tables.Aligned) :
    tables.due.toList.filterMap tables.resolve = tables.queued.mergeSort earlier := by
  have hsorted : (tables.due.toList.filterMap tables.resolve).Pairwise fun a b =>
      compare (dueKey a.1 a.2.id) (dueKey b.1 b.2.id) = .lt := by
    rw [List.pairwise_filterMap]
    refine Std.ExtTreeMap.ordered_keys_toList.imp_of_mem ?_
    rintro ⟨key, id⟩ ⟨key', id'⟩ hmem hmem' hlt found hfound found' hfound'
    obtain ⟨time, record, hresolve, -, -, hid, hkey⟩ := resolve_of_due h (mem_due_toList hmem)
    obtain ⟨time', record', hresolve', -, -, hid', hkey'⟩ := resolve_of_due h (mem_due_toList hmem')
    rw [hresolve] at hfound
    rw [hresolve'] at hfound'
    cases hfound
    cases hfound'
    dsimp only
    rw [hid, hid', ← hkey, ← hkey']
    exact hlt
  have hnodup : (tables.due.toList.filterMap tables.resolve).Nodup := by
    refine hsorted.imp fun {a b} hlt heq => ?_
    have hself : compare (dueKey b.1 b.2.id) (dueKey b.1 b.2.id) = .eq := Std.ReflCmp.compare_self
    rw [heq, hself] at hlt
    cases hlt
  have hqueued : tables.queued.Nodup := by
    unfold WebhookTables.queued List.Nodup
    rw [List.pairwise_filterMap]
    refine Std.ExtTreeMap.distinct_keys_toList.imp_of_mem ?_
    rintro ⟨id, record⟩ ⟨id', record'⟩ hmem hmem' hne found hfound found' hfound'
    obtain ⟨time, -, heq⟩ := Option.map_eq_some_iff.mp hfound
    obtain ⟨time', -, heq'⟩ := Option.map_eq_some_iff.mp hfound'
    have hid := (h.named id record (Std.ExtTreeMap.mem_toList_iff_getElem?_eq_some.mp hmem)).1
    have hid' := (h.named id' record' (Std.ExtTreeMap.mem_toList_iff_getElem?_eq_some.mp hmem')).1
    rintro rfl
    rw [← heq'] at heq
    have hrecord := congrArg (fun entry => entry.2.id) heq
    dsimp only at hrecord hne
    rw [← hid, ← hid', hrecord] at hne
    exact hne Std.ReflCmp.compare_self
  have hperm : (tables.due.toList.filterMap tables.resolve).Perm tables.queued := by
    refine (List.perm_ext_iff_of_nodup hnodup hqueued).mpr ?_
    rintro ⟨time, record⟩
    rw [mem_queued, List.mem_filterMap]
    constructor
    · rintro ⟨⟨key, id⟩, hmem, hresolve⟩
      obtain ⟨time', record', hfound, hrow, htime, -⟩ := resolve_of_due h (mem_due_toList hmem)
      rw [hfound] at hresolve
      cases hresolve
      exact ⟨id, hrow, htime⟩
    · rintro ⟨id, hrow, htime⟩
      have hdue := (h.due (dueKey time id) id).mpr
        ((dueKeyOf_eq_some id _).mpr ⟨record, time, hrow, htime, rfl⟩)
      refine ⟨(dueKey time id, id), Std.ExtTreeMap.mem_toList_iff_getElem?_eq_some.mpr hdue, ?_⟩
      unfold WebhookTables.resolve
      rw [hrow, Option.bind_some, htime]
      rfl
  have hle : ∀ a b, earlier a b = true ↔
      (compare (dueKey a.1 a.2.id) (dueKey b.1 b.2.id)).isLE = true := by
    intro a b
    rw [earlier_eq]
  have hanti : ∀ a b, a ∈ tables.due.toList.filterMap tables.resolve →
      b ∈ tables.queued.mergeSort earlier → earlier a b = true → earlier b a = true → a = b := by
    rintro ⟨time, record⟩ ⟨time', record'⟩ hmem hmem' hab hba
    rw [hle] at hab hba
    have heq : compare (dueKey time record.id) (dueKey time' record'.id) = .eq :=
      Std.OrientedCmp.isLE_antisymm hab hba
    obtain ⟨rfl, hid⟩ := dueKey_inj (Std.LawfulEqCmp.eq_of_compare heq)
    obtain ⟨id, hrow, -⟩ := (mem_queued time record).mp (hperm.mem_iff.mp hmem)
    obtain ⟨id', hrow', -⟩ :=
      (mem_queued time record').mp ((List.mergeSort_perm _ _).mem_iff.mp hmem')
    rw [← (h.named id record hrow).1, hid, (h.named id' record' hrow').1, hrow'] at hrow
    cases hrow
    rfl
  have hresolved : (tables.due.toList.filterMap tables.resolve).Pairwise fun a b =>
      earlier a b = true := by
    refine hsorted.imp fun {a b} hlt => ?_
    rw [hle, hlt]
    rfl
  exact List.Perm.eq_of_pairwise hanti hresolved (earlier_mergeSort _)
    (hperm.trans (List.mergeSort_perm _ _).symm)

theorem earlier_time {a b : Int64 × WebhookDeliveryRecord} (h : earlier a b = true) : a.1 ≤ b.1 := by
  rw [Int64.le_iff_toInt_le]
  unfold earlier at h
  by_contra hlt
  have hgt : compare a.1.toInt b.1.toInt = .gt := compare_gt_iff_gt.mpr (by omega)
  rw [hgt] at h
  cases h

theorem collectDue_eq (h : tables.Aligned) (nowUnix : Int64) (limit : Nat)
    (rows : List (Str × Str)) (records : List WebhookDeliveryRecord)
    (hrows : ∀ row ∈ rows, tables.due[row.1]? = some row.2) (hroom : records.length < limit) :
    collectDue tables.delivery nowUnix limit rows records = records ++
      (((rows.filterMap tables.resolve).takeWhile fun entry => !(nowUnix < entry.1)).map
        Prod.snd).take (limit - records.length) := by
  induction rows generalizing records with
  | nil => simp [collectDue]
  | cons row rows ih =>
    obtain ⟨key, id⟩ := row
    have hdue : tables.due[key]? = some id := hrows (key, id) List.mem_cons_self
    obtain ⟨time, record, hresolve, hrow, -, -, hkey⟩ := resolve_of_due h hdue
    have htime : dueKeyTime key = some time := by
      rw [hkey]
      exact dueKeyTime_dueKey time id
    rw [List.filterMap_cons, hresolve]
    unfold collectDue
    rw [htime]
    dsimp only
    by_cases hlate : nowUnix < time
    · rw [if_pos hlate, List.takeWhile_cons]
      simp [hlate]
    · rw [if_neg hlate, hrow, List.takeWhile_cons]
      dsimp only
      have hroom' : (records ++ [record]).length = records.length + 1 := by simp
      have hleft : limit - records.length = limit - (records.length + 1) + 1 := by omega
      simp only [hlate, decide_false, Bool.not_false, if_true]
      rw [List.map_cons, hleft, List.take_succ_cons, hroom']
      split
      · rename_i hfull
        rw [hfull, Nat.sub_self]
        simp
      · rename_i hmore
        rw [ih (records ++ [record]) (fun row hrow => hrows row (List.mem_cons_of_mem _ hrow))
          (by omega), hroom', List.append_assoc]
        rfl

theorem due_rows (tables : WebhookTables) :
    ∀ row ∈ tables.due.toList, tables.due[row.1]? = some row.2 :=
  fun _ hrow => mem_due_toList hrow

theorem takeWhile_earlier (nowUnix : Int64) (entries : List (Int64 × WebhookDeliveryRecord))
    (h : entries.Pairwise fun a b => earlier a b = true) :
    (entries.takeWhile fun entry => !(nowUnix < entry.1)) =
      entries.filter fun entry => entry.1 ≤ nowUnix := by
  induction entries with
  | nil => rfl
  | cons entry entries ih =>
    obtain ⟨hfirst, hrest⟩ := List.pairwise_cons.mp h
    by_cases hlate : nowUnix < entry.1
    · have hall : (entries.filter fun entry => entry.1 ≤ nowUnix) = [] := by
        rw [List.filter_eq_nil_iff]
        intro later hlater hle
        have htime := earlier_time (hfirst later hlater)
        rw [decide_eq_true_eq, Int64.le_iff_toInt_le] at hle
        rw [Int64.le_iff_toInt_le] at htime
        rw [Int64.lt_iff_toInt_lt] at hlate
        omega
      rw [List.takeWhile_cons, List.filter_cons, hall]
      have hnot : ¬ entry.1 ≤ nowUnix := Int64.not_le.mpr hlate
      simp [hlate, hnot]
    · rw [List.takeWhile_cons, List.filter_cons, ih hrest]
      have hle : entry.1 ≤ nowUnix := Int64.not_lt.mp hlate
      simp [hlate, hle]

theorem listDue_eq (h : tables.Aligned) (nowUnix : Int64) (limit : Nat) :
    listDueWebhookDeliveries tables nowUnix limit =
      (((tables.queued.mergeSort earlier).filter fun entry => entry.1 ≤ nowUnix).map
        Prod.snd).take limit := by
  unfold listDueWebhookDeliveries
  split
  · rename_i hzero
    rw [hzero, List.take_zero]
  · rename_i hlimit
    rw [collectDue_eq h nowUnix limit _ [] (due_rows tables) (Nat.pos_of_ne_zero hlimit),
      due_resolved h, takeWhile_earlier nowUnix _ (earlier_mergeSort _)]
    rfl

theorem nextDelivery_eq (h : tables.Aligned) :
    nextWebhookDeliveryAt tables = (tables.queued.mergeSort earlier).head?.map Prod.fst := by
  unfold nextWebhookDeliveryAt
  rw [← due_resolved h]
  cases hrows : tables.due.toList with
  | nil => rfl
  | cons row rows =>
    have hrow := due_rows tables row (by rw [hrows]; exact List.mem_cons_self)
    obtain ⟨time, record, hresolve, -, -, -, hkey⟩ := resolve_of_due h hrow
    rw [List.filterMap_cons, hresolve]
    show dueKeyTime row.1 = some time
    rw [hkey]
    exact dueKeyTime_dueKey time row.2

/-- What the two tables say of each other, and what the readers return. -/
structure WebhookTables.Exact (tables : WebhookTables) : Prop where
  due : ∀ key id, tables.due[key]? = some id ↔ ∃ record time, tables.delivery[id]? = some record ∧
    record.status = .pending ∧ record.nextAttemptAtUnix = some time ∧ key = dueKey time id
  listDue : ∀ nowUnix limit, listDueWebhookDeliveries tables nowUnix limit =
    (((tables.queued.mergeSort earlier).filter fun entry => entry.1 ≤ nowUnix).map
      Prod.snd).take limit
  none_next : nextWebhookDeliveryAt tables = none ↔ tables.queued = []
  next : ∀ time, nextWebhookDeliveryAt tables = some time →
    (∃ record, (time, record) ∈ tables.queued) ∧ ∀ entry ∈ tables.queued, time ≤ entry.1

theorem scheduled_eq_some (record : WebhookDeliveryRecord) (time : Int64) :
    record.scheduled = some time ↔ record.status = .pending ∧ record.nextAttemptAtUnix = some time := by
  unfold WebhookDeliveryRecord.scheduled
  by_cases hpending : record.status = .pending <;> simp [hpending]

theorem WebhookTables.Aligned.exact (h : tables.Aligned) : tables.Exact where
  due key id := by
    rw [h.due key id, dueKeyOf_eq_some]
    simp only [scheduled_eq_some, and_assoc]
  listDue := listDue_eq h
  none_next := by
    rw [nextDelivery_eq h, Option.map_eq_none_iff, List.head?_eq_none_iff]
    constructor
    · intro hnil
      exact (hnil ▸ List.mergeSort_perm tables.queued earlier).symm.eq_nil
    · intro hnil
      rw [hnil, List.mergeSort_nil]
  next time htime := by
    rw [nextDelivery_eq h] at htime
    obtain ⟨first, hfirst, rfl⟩ := Option.map_eq_some_iff.mp htime
    have hsorted := earlier_mergeSort tables.queued
    have hmem : ∀ entry, entry ∈ tables.queued.mergeSort earlier ↔ entry ∈ tables.queued :=
      fun entry => (List.mergeSort_perm _ _).mem_iff
    cases hlist : tables.queued.mergeSort earlier with
    | nil =>
      rw [hlist] at hfirst
      cases hfirst
    | cons head rest =>
      rw [hlist] at hfirst hsorted hmem
      cases hfirst
      refine ⟨⟨first.2, (hmem first).mp List.mem_cons_self⟩, fun entry hentry => ?_⟩
      rcases List.mem_cons.mp ((hmem entry).mpr hentry) with rfl | hrest
      · exact Int64.le_refl _
      · exact earlier_time ((List.pairwise_cons.mp hsorted).1 entry hrest)

/-- Due keys sort by time and id, and in every run the queue is exact. -/
theorem webhook_queue_exact :
    (∀ a b id other, compare (dueKey a id) (dueKey b other) =
      (compare a.toInt b.toInt).then (compare id other)) ∧
    ∀ tables, webhookSystem.Reachable tables → tables.Exact :=
  ⟨compare_dueKey, fun tables h => (webhooks_aligned tables h).exact⟩

/-- A delivery that was due before 1970 and is tried again after a minute. -/
def retried : WebhookTables :=
  (updateWebhookDelivery
    (enqueueWebhookDelivery {} ⟨str "hosted", str "ci", str "upload", str "\x7b\x7d", -30⟩).2
    (deliveryId 1) ⟨.pending, 0, some 30, some 500, some (str "http status 500")⟩).2

theorem retried_exact : nextWebhookDeliveryAt retried = some 30 ∧
    listDueWebhookDeliveries retried 29 10 = [] ∧ retried.Exact := by
  refine ⟨by decide +kernel, by decide +kernel, webhook_queue_exact.2 retried ?_⟩
  exact .step _ _ (.step _ _ (.start _ rfl) (.enqueue _)) (.update _ _)

end Peryx.Webhook
