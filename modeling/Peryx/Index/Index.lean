import Mathlib.Data.List.Sort
import Peryx.Core.Path
import Peryx.Identity.Acl
import Peryx.Policy.Policy

/-! # Configured indexes (peryx-index/src/index.rs, resolve.rs; peryx/src/server.rs) -/

namespace Peryx

inductive Ecosystem where
  | pypi
  | oci
  deriving Repr, DecidableEq

structure UpstreamClient where
  base : Str
  deriving Repr, DecidableEq

inductive IndexKind where
  | cached (client : UpstreamClient) (offline : Bool)
  | hosted (isVolatile : Bool)
  | virtual (layers : List Nat) (upload : Option Nat)
  deriving Repr, DecidableEq

def IndexKind.isCached : IndexKind → Bool
  | .cached _ _ => true
  | _ => false

def IndexKind.isHosted : IndexKind → Bool
  | .hosted _ => true
  | _ => false

structure Index where
  name : Str
  route : Str
  ecosystem : Ecosystem
  kind : IndexKind
  policy : Policy
  acl : Acl.IndexAcl

def Index.proxyClient (index : Index) : Option UpstreamClient :=
  match index.kind with
  | .cached client false => some client
  | _ => none

/-- The indexes a configuration mounts (`server.rs:284-322`). -/
structure Indexes where
  toList : List Index
  names_nodup : (toList.map Index.name).Nodup
  routes_nodup : (toList.map Index.route).Nodup
  routes_valid : ∀ index ∈ toList, Core.validateRoute index.route = .ok ()

theorem Indexes.eq_of_name (indexes : Indexes) (a b : Index) (ha : a ∈ indexes.toList)
    (hb : b ∈ indexes.toList) (h : a.name = b.name) : a = b :=
  List.inj_on_of_nodup_map indexes.names_nodup ha hb h

theorem Indexes.route_ne_nil (indexes : Indexes) (index : Index) (h : index ∈ indexes.toList) :
    index.route ≠ [] :=
  (Core.validateRoute_ok index.route (indexes.routes_valid index h)).1

theorem Indexes.star_not_mem_route (indexes : Indexes) (index : Index)
    (h : index ∈ indexes.toList) : Acl.star ∉ index.route := by
  intro hstar
  have hbyte := (Core.validateRoute_ok index.route (indexes.routes_valid index h)).2 _ hstar
  exact absurd hbyte (by decide)

/-- The sort key of a layer; `layers` of a configured index are in range. -/
def cachedAt (indexes : List Index) (position : Nat) : Bool :=
  (indexes[position]?).any fun index => index.kind.isCached

/-- `shadow_order` (`resolve.rs:62-66`): a stable sort by `cachedAt`. -/
def shadowOrder (indexes : List Index) (layers : List Nat) : List Nat :=
  layers.insertionSort fun a b => cachedAt indexes a ≤ cachedAt indexes b

theorem insertionSort_flag {α : Type} (flag : α → Bool) (l : List α) :
    l.insertionSort (fun a b => flag a ≤ flag b) =
      l.filter (fun a => !flag a) ++ l.filter flag := by
  induction l with
  | nil => rfl
  | cons a l ih =>
    rw [List.insertionSort_cons, ih]
    cases ha : flag a with
    | false =>
      simp only [List.filter_cons, ha, Bool.not_false, if_true, Bool.false_eq_true, if_false,
        List.cons_append]
      cases hrest : List.filter (fun b => !flag b) l ++ List.filter flag l with
      | nil => rfl
      | cons b rest => exact List.orderedInsert_cons_of_le _ _ (by simp [ha])
    | true =>
      simp only [List.filter_cons, ha, Bool.not_true, Bool.false_eq_true, if_false, if_true]
      have hskip : ∀ front : List α, (∀ b ∈ front, flag b = false) →
          (front ++ List.filter flag l).orderedInsert (fun a b => flag a ≤ flag b) a =
            front ++ a :: List.filter flag l := by
        intro front hfront
        induction front with
        | nil =>
          cases hc : List.filter flag l with
          | nil => rfl
          | cons b rest =>
            have hb : flag b = true := by
              have : b ∈ List.filter flag l := by simp [hc]
              exact (List.mem_filter.mp this).2
            exact List.orderedInsert_cons_of_le _ _ (by simp [hb])
        | cons b front ihf =>
          have hb := hfront b List.mem_cons_self
          rw [List.cons_append, List.orderedInsert_of_not_le _ _ (by simp [ha, hb]),
            ihf fun c hc => hfront c (List.mem_cons_of_mem _ hc), List.cons_append]
      exact hskip _ fun b hb => by simpa using (List.mem_filter.mp hb).2

theorem shadowOrder_eq (indexes : List Index) (layers : List Nat) :
    shadowOrder indexes layers = layers.filter (fun position => !cachedAt indexes position) ++
      layers.filter (cachedAt indexes) :=
  insertionSort_flag (cachedAt indexes) layers

def pathCuts : Str → List (Str × Str)
  | [] => []
  | byte :: rest =>
    let later := (pathCuts rest).map fun (front, back) => (byte :: front, back)
    if byte = 0x2F then ([], rest) :: later else later

/-- `RouteResolver::resolve`: the loop tries the whole path, then every cut from the
last slash to the first. -/
def resolveRoute (indexes : List Index) (path : Str) : Option (Index × Str) :=
  ((path, []) :: (pathCuts path).reverse).findSome? fun (front, rest) =>
    (indexes.find? fun index => index.route == front).map fun index => (index, rest)

def uploadTarget (indexes : List Index) (index : Index) : Option Index :=
  match index.kind with
  | .hosted _ => some index
  | .virtual _ (some position) => indexes[position]?
  | .cached _ _ | .virtual _ none => none

end Peryx
