import Peryx.Index.Index

/-! # The precomputed route table (peryx-index/src/resolve.rs:12-37) -/

namespace Peryx

def Str.rfind (byte : UInt8) : Str → Option Nat
  | [] => none
  | first :: rest =>
    match Str.rfind byte rest with
    | some place => some (place + 1)
    | none => if first = byte then some 0 else none

theorem Str.rfind_none (byte : UInt8) (subject : Str) (h : Str.rfind byte subject = none)
    (place : Nat) : subject[place]? ≠ some byte := by
  induction subject generalizing place with
  | nil => simp
  | cons first rest ih =>
    rw [Str.rfind] at h
    cases hrest : Str.rfind byte rest with
    | some later =>
      rw [hrest] at h
      cases h
    | none =>
      simp only [hrest] at h
      split at h
      · cases h
      · rename_i hne
        cases place with
        | zero => simpa using hne
        | succ place => simpa using ih hrest place

theorem Str.rfind_some (byte : UInt8) (subject : Str) (last : Nat)
    (h : Str.rfind byte subject = some last) :
    subject[last]? = some byte ∧ ∀ place, subject[place]? = some byte → place ≤ last := by
  induction subject generalizing last with
  | nil => cases h
  | cons first rest ih =>
    rw [Str.rfind] at h
    cases hrest : Str.rfind byte rest with
    | some later =>
      simp only [hrest, Option.some.injEq] at h
      obtain ⟨hat, hlast⟩ := ih later hrest
      rw [← h]
      refine ⟨by simpa using hat, fun place hplace => ?_⟩
      cases place with
      | zero => omega
      | succ place =>
        have := hlast place (by simpa using hplace)
        omega
    | none =>
      simp only [hrest] at h
      split at h
      · rename_i heq
        cases h
        refine ⟨by simp [heq], fun place hplace => ?_⟩
        cases place with
        | zero => omega
        | succ place =>
          rw [List.getElem?_cons_succ] at hplace
          exact absurd hplace (Str.rfind_none byte rest hrest place)
      · cases h

theorem Str.rfind_lt (byte : UInt8) (subject : Str) (last : Nat)
    (h : Str.rfind byte subject = some last) : last < subject.length :=
  (List.getElem?_eq_some_iff.mp (Str.rfind_some byte subject last h).1).1

/-- `RouteResolver`: the position of every route. -/
structure RouteResolver where
  positions : Std.ExtTreeMap Str Nat

def routeEntries (indexes : List Index) : List (Str × Nat) :=
  indexes.zipIdx.map fun (index, position) => (index.route, position)

/-- `RouteResolver::new`: a later index of one route would replace an earlier one. -/
def RouteResolver.new (indexes : List Index) : RouteResolver where
  positions := Std.ExtTreeMap.ofList (routeEntries indexes)

def RouteResolver.resolveAt (resolver : RouteResolver) (path : Str) (stop : Nat) :
    Option (Nat × Str) :=
  match resolver.positions[path.take stop]? with
  | some position => some (position, if stop = path.length then [] else path.drop (stop + 1))
  | none =>
    match _found : Str.rfind 0x2F (path.take stop) with
    | none => none
    | some earlier => resolver.resolveAt path earlier
termination_by stop
decreasing_by
  have hlt := Str.rfind_lt 0x2F (path.take stop) earlier _found
  rw [List.length_take] at hlt
  omega

theorem RouteResolver.resolveAt_hit (resolver : RouteResolver) (path : Str) (stop position : Nat)
    (h : resolver.positions[path.take stop]? = some position) : resolver.resolveAt path stop =
      some (position, if stop = path.length then [] else path.drop (stop + 1)) := by
  unfold RouteResolver.resolveAt
  rw [h]

theorem RouteResolver.resolveAt_end (resolver : RouteResolver) (path : Str) (stop : Nat)
    (h : resolver.positions[path.take stop]? = none)
    (hslash : Str.rfind 0x2F (path.take stop) = none) : resolver.resolveAt path stop = none := by
  unfold RouteResolver.resolveAt
  rw [h]
  dsimp only
  split
  · rfl
  · rename_i earlier hearlier
    rw [hslash] at hearlier
    cases hearlier

theorem RouteResolver.resolveAt_earlier (resolver : RouteResolver) (path : Str)
    (stop earlier : Nat) (h : resolver.positions[path.take stop]? = none)
    (hslash : Str.rfind 0x2F (path.take stop) = some earlier) :
    resolver.resolveAt path stop = resolver.resolveAt path earlier := by
  conv => lhs; unfold RouteResolver.resolveAt
  rw [h]
  dsimp only
  split
  · rename_i hnone
    rw [hslash] at hnone
    cases hnone
  · rename_i later hlater
    rw [hslash, Option.some.injEq] at hlater
    rw [hlater]

def RouteResolver.resolve (resolver : RouteResolver) (path : Str) : Option (Nat × Str) :=
  resolver.resolveAt path path.length

def RoutedBy (route path rest : Str) : Prop :=
  (path = route ∧ rest = []) ∨ path = route ++ 0x2F :: rest

theorem RoutedBy.take {route path rest : Str} (h : RoutedBy route path rest) :
    path.take route.length = route := by
  rcases h with ⟨rfl, _⟩ | rfl
  · exact List.take_length
  · exact List.take_left

theorem RoutedBy.length_le {route path rest : Str} (h : RoutedBy route path rest) :
    route.length ≤ path.length := by
  rcases h with ⟨rfl, _⟩ | rfl
  · exact Nat.le_refl _
  · simp

theorem RoutedBy.boundary {route path rest : Str} (h : RoutedBy route path rest)
    (hlt : route.length < path.length) : path[route.length]? = some 0x2F := by
  rcases h with ⟨rfl, _⟩ | rfl
  · omega
  · simp

theorem RoutedBy.unique {route route' path rest rest' : Str} (h : RoutedBy route path rest)
    (h' : RoutedBy route' path rest') (hlength : route.length = route'.length) :
    route = route' ∧ rest = rest' := by
  have hroute : route = route' := by rw [← h.take, ← h'.take, hlength]
  refine ⟨hroute, ?_⟩
  subst hroute
  rcases h with ⟨hpath, hrest⟩ | hpath
  · rcases h' with ⟨_, hrest'⟩ | hpath'
    · rw [hrest, hrest']
    · have := congrArg List.length (hpath.symm.trans hpath')
      simp at this
  · rcases h' with ⟨hpath', _⟩ | hpath'
    · have := congrArg List.length (hpath'.symm.trans hpath)
      simp at this
    · simpa using hpath.symm.trans hpath'

theorem routedBy_take (path : Str) (stop : Nat)
    (h : stop = path.length ∨ path[stop]? = some 0x2F) :
    RoutedBy (path.take stop) path (if stop = path.length then [] else path.drop (stop + 1)) := by
  split
  · rename_i hstop
    exact Or.inl ⟨by rw [hstop, List.take_length], rfl⟩
  · rename_i hstop
    have hslash := h.resolve_left hstop
    obtain ⟨hlt, hbyte⟩ := List.getElem?_eq_some_iff.mp hslash
    refine Or.inr ?_
    rw [← hbyte, ← List.drop_eq_getElem_cons hlt, List.take_append_drop]

section Configured
variable (indexes : Indexes)

theorem mem_routeEntries (indexes : List Index) (route : Str) (position : Nat) :
    (route, position) ∈ routeEntries indexes ↔
      ∃ index, indexes[position]? = some index ∧ index.route = route := by
  simp only [routeEntries, List.mem_map, Prod.exists, Prod.mk.injEq, List.mem_zipIdx_iff_getElem?]
  constructor
  · rintro ⟨index, _, hget, hroute, rfl⟩
    exact ⟨index, hget, hroute⟩
  · rintro ⟨index, hget, hroute⟩
    exact ⟨index, position, hget, hroute, rfl⟩

theorem routeEntries_distinct :
    (routeEntries indexes.toList).Pairwise fun a b => ¬ compare a.1 b.1 = .eq := by
  have hfst : (routeEntries indexes.toList).map Prod.fst = indexes.toList.map Index.route := by
    unfold routeEntries
    rw [List.map_map]
    conv => rhs; rw [← List.zipIdx_map_fst 0 indexes.toList, List.map_map]
    rfl
  have hroutes : ((routeEntries indexes.toList).map Prod.fst).Nodup := by
    rw [hfst]
    exact indexes.routes_nodup
  exact (List.pairwise_map.mp hroutes).imp fun hne heq => hne (Std.LawfulEqCmp.eq_of_compare heq)

theorem positions_iff (route : Str) (position : Nat) :
    (RouteResolver.new indexes.toList).positions[route]? = some position ↔
      ∃ index, indexes.toList[position]? = some index ∧ index.route = route := by
  have hget : ∀ position, (route, position) ∈ routeEntries indexes.toList →
      (RouteResolver.new indexes.toList).positions[route]? = some position := fun position hmem =>
    Std.ExtTreeMap.getElem?_ofList_of_mem (k := route) Std.ReflCmp.compare_self
      (routeEntries_distinct indexes) hmem
  rw [← mem_routeEntries]
  refine ⟨fun h => ?_, hget position⟩
  have hkey : route ∈ (RouteResolver.new indexes.toList).positions :=
    Std.ExtTreeMap.mem_iff_isSome_getElem?.mpr (Option.isSome_of_eq_some h)
  have hlisted := Std.ExtTreeMap.mem_ofList.mp hkey
  rw [List.contains_iff_mem, List.mem_map] at hlisted
  obtain ⟨⟨_, position'⟩, hmem, rfl⟩ := hlisted
  rw [hget position' hmem, Option.some.injEq] at h
  exact h ▸ hmem

def Resolves (path : Str) (stop : Nat) : Option (Nat × Str) → Prop
  | some (position, rest) => ∃ index, indexes.toList[position]? = some index ∧
      RoutedBy index.route path rest ∧ ∀ other ∈ indexes.toList, ∀ left,
        RoutedBy other.route path left → other.route.length ≤ stop →
          other.route.length ≤ index.route.length
  | none => ∀ other ∈ indexes.toList, ∀ left, RoutedBy other.route path left →
      stop < other.route.length

theorem slash_of_miss (path : Str) (stop : Nat) (hle : stop ≤ path.length)
    (hmiss : (RouteResolver.new indexes.toList).positions[path.take stop]? = none)
    (other : Index) (hmem : other ∈ indexes.toList) (left : Str)
    (hother : RoutedBy other.route path left) (hshort : other.route.length ≤ stop) :
    (path.take stop)[other.route.length]? = some 0x2F := by
  have hne : other.route.length ≠ stop := by
    intro heq
    obtain ⟨position, hposition⟩ := List.getElem?_of_mem hmem
    have hroute : other.route = path.take stop := by
      rw [← heq]
      exact hother.take.symm
    have hhit := (positions_iff indexes _ position).mpr ⟨other, hposition, hroute⟩
    rw [hmiss] at hhit
    cases hhit
  rw [List.getElem?_take_of_lt (by omega)]
  exact hother.boundary (by omega)

theorem Resolves.earlier (path : Str) (stop earlier : Nat) (hle : stop ≤ path.length)
    (hmiss : (RouteResolver.new indexes.toList).positions[path.take stop]? = none)
    (hearlier : Str.rfind 0x2F (path.take stop) = some earlier) (answer : Option (Nat × Str))
    (h : Resolves indexes path earlier answer) : Resolves indexes path stop answer := by
  have hlast := (Str.rfind_some _ _ _ hearlier).2
  have hbefore := fun other hmem left hother hshort =>
    hlast _ (slash_of_miss indexes path stop hle hmiss other hmem left hother hshort)
  cases answer with
  | none =>
    intro other hmem left hother
    by_contra hshort
    have := hbefore other hmem left hother (by omega)
    have := h other hmem left hother
    omega
  | some found =>
    obtain ⟨index, hindex, hrouted, hlongest⟩ := h
    exact ⟨index, hindex, hrouted, fun other hmem left hother hshort =>
      hlongest other hmem left hother (hbefore other hmem left hother hshort)⟩

theorem resolveAt_resolves (path : Str) (stop : Nat)
    (hstop : stop = path.length ∨ path[stop]? = some 0x2F) :
    Resolves indexes path stop ((RouteResolver.new indexes.toList).resolveAt path stop) := by
  induction stop using Nat.strongRecOn with
  | ind stop ih =>
    have hle : stop ≤ path.length := by
      rcases hstop with rfl | hslash
      · exact Nat.le_refl _
      · exact Nat.le_of_lt (List.getElem?_eq_some_iff.mp hslash).1
    have hlength : (path.take stop).length = stop := by
      rw [List.length_take]
      omega
    cases hhit : (RouteResolver.new indexes.toList).positions[path.take stop]? with
    | some position =>
      rw [RouteResolver.resolveAt_hit _ path stop position hhit]
      obtain ⟨index, hindex, hroute⟩ := (positions_iff indexes _ position).mp hhit
      have hrouted := routedBy_take path stop hstop
      rw [← hroute] at hrouted
      refine ⟨index, hindex, hrouted, fun other _ left _ hother => ?_⟩
      rw [hroute, hlength]
      exact hother
    | none =>
      cases hslash : Str.rfind 0x2F (path.take stop) with
      | none =>
        rw [RouteResolver.resolveAt_end _ path stop hhit hslash]
        intro other hmem left hother
        by_contra hshort
        exact Str.rfind_none _ _ hslash _
          (slash_of_miss indexes path stop hle hhit other hmem left hother (by omega))
      | some earlier =>
        rw [RouteResolver.resolveAt_earlier _ path stop earlier hhit hslash]
        have hlt := Str.rfind_lt _ _ _ hslash
        rw [hlength] at hlt
        have hat := (Str.rfind_some _ _ _ hslash).1
        rw [List.getElem?_take_of_lt hlt] at hat
        exact Resolves.earlier indexes path stop earlier hle hhit hslash _
          (ih earlier hlt (Or.inr hat))

theorem resolve_some_spec (path rest : Str) (position : Nat)
    (h : (RouteResolver.new indexes.toList).resolve path = some (position, rest)) :
    ∃ index, indexes.toList[position]? = some index ∧ RoutedBy index.route path rest ∧
      ∀ other ∈ indexes.toList, ∀ left, RoutedBy other.route path left →
        other.route.length ≤ index.route.length := by
  have hspec := resolveAt_resolves indexes path path.length (Or.inl rfl)
  unfold RouteResolver.resolve at h
  rw [h] at hspec
  obtain ⟨index, hindex, hrouted, hlongest⟩ := hspec
  exact ⟨index, hindex, hrouted, fun other hmem left hother =>
    hlongest other hmem left hother hother.length_le⟩

theorem resolve_none_spec (path : Str)
    (h : (RouteResolver.new indexes.toList).resolve path = none) :
    ∀ index ∈ indexes.toList, ∀ rest, ¬ RoutedBy index.route path rest := by
  have hspec := resolveAt_resolves indexes path path.length (Or.inl rfl)
  unfold RouteResolver.resolve at h
  rw [h] at hspec
  intro index hmem rest hrouted
  have := hspec index hmem rest hrouted
  have := hrouted.length_le
  omega

theorem mem_pathCuts (path front back : Str) :
    (front, back) ∈ pathCuts path ↔ path = front ++ 0x2F :: back := by
  induction path generalizing front with
  | nil => simp [pathCuts]
  | cons byte rest ih =>
    have hlater : (front, back) ∈ (pathCuts rest).map (fun cut => (byte :: cut.1, cut.2)) ↔
        ∃ front', front = byte :: front' ∧ rest = front' ++ 0x2F :: back := by
      simp only [List.mem_map, Prod.mk.injEq, Prod.exists]
      constructor
      · rintro ⟨front', back', hmem, rfl, rfl⟩
        exact ⟨front', rfl, (ih front').mp hmem⟩
      · rintro ⟨front', rfl, hrest⟩
        exact ⟨front', back, (ih front').mpr hrest, rfl, rfl⟩
    rw [pathCuts]
    split
    · rename_i hslash
      rw [List.mem_cons, hlater, Prod.mk.injEq]
      cases front with
      | nil =>
        simp only [List.nil_append, List.cons.injEq]
        constructor
        · rintro (⟨_, rfl⟩ | ⟨_, hfront, _⟩)
          · exact ⟨hslash, rfl⟩
          · cases hfront
        · rintro ⟨_, rfl⟩
          exact Or.inl ⟨trivial, rfl⟩
      | cons first front =>
        simp only [List.cons_append, List.cons.injEq]
        constructor
        · rintro (⟨hfront, _⟩ | ⟨front', ⟨rfl, rfl⟩, hrest⟩)
          · cases hfront
          · exact ⟨rfl, hrest⟩
        · rintro ⟨rfl, hrest⟩
          exact Or.inr ⟨front, ⟨rfl, rfl⟩, hrest⟩
    · rename_i hslash
      rw [hlater]
      cases front with
      | nil =>
        simp only [List.nil_append, List.cons.injEq, hslash, false_and, iff_false]
        rintro ⟨_, hfront, _⟩
        cases hfront
      | cons first front =>
        simp only [List.cons_append, List.cons.injEq]
        constructor
        · rintro ⟨front', ⟨rfl, rfl⟩, hrest⟩
          exact ⟨rfl, hrest⟩
        · rintro ⟨rfl, hrest⟩
          exact ⟨front, ⟨rfl, rfl⟩, hrest⟩

theorem pathCuts_sorted (path : Str) :
    (pathCuts path).Pairwise fun a b => a.1.length < b.1.length := by
  induction path with
  | nil => exact List.Pairwise.nil
  | cons byte rest ih =>
    have hlater : ((pathCuts rest).map fun cut => (byte :: cut.1, cut.2)).Pairwise
        fun a b => a.1.length < b.1.length :=
      List.pairwise_map.mpr (ih.imp fun h => by simpa using h)
    rw [pathCuts]
    split
    · refine List.pairwise_cons.mpr ⟨fun cut hcut => ?_, hlater⟩
      obtain ⟨inside, _, rfl⟩ := List.mem_map.mp hcut
      simp
    · exact hlater

def routeCuts (path : Str) : List (Str × Str) := (path, []) :: (pathCuts path).reverse

theorem mem_routeCuts (path front rest : Str) :
    (front, rest) ∈ routeCuts path ↔ RoutedBy front path rest := by
  rw [routeCuts, List.mem_cons, List.mem_reverse, mem_pathCuts, Prod.mk.injEq, RoutedBy,
    eq_comm (a := front)]

theorem routeCuts_sorted (path : Str) :
    (routeCuts path).Pairwise fun a b => b.1.length < a.1.length := by
  refine List.pairwise_cons.mpr ⟨fun cut hcut => ?_, List.pairwise_reverse.mpr (pathCuts_sorted path)⟩
  have hsplit := (mem_pathCuts path cut.1 cut.2).mp (List.mem_reverse.mp hcut)
  rw [hsplit]
  simp

theorem resolveRoute_resolver (path : Str) : resolveRoute indexes.toList path =
    ((RouteResolver.new indexes.toList).resolve path).bind fun (position, rest) =>
      indexes.toList[position]?.map fun index => (index, rest) := by
  unfold resolveRoute
  cases hresolve : (RouteResolver.new indexes.toList).resolve path with
  | none =>
    rw [Option.bind_none, List.findSome?_eq_none_iff]
    intro cut hcut
    rw [Option.map_eq_none_iff, List.find?_eq_none]
    intro index hmem hroute
    have hrouted := (mem_routeCuts path cut.1 cut.2).mp hcut
    rw [← eq_of_beq hroute] at hrouted
    exact resolve_none_spec indexes path hresolve index hmem cut.2 hrouted
  | some found =>
    obtain ⟨position, rest⟩ := found
    obtain ⟨index, hindex, hrouted, hlongest⟩ :=
      resolve_some_spec indexes path rest position hresolve
    have hmem := List.mem_of_getElem? hindex
    rw [Option.bind_some]
    dsimp only
    rw [hindex, Option.map_some]
    obtain ⟨longer, shorter, hcuts⟩ :=
      List.append_of_mem ((mem_routeCuts path index.route rest).mpr hrouted)
    have hsorted := routeCuts_sorted path
    rw [hcuts] at hsorted
    refine List.findSome?_eq_some_iff.mpr ⟨longer, (index.route, rest), shorter, hcuts, ?_, ?_⟩
    · cases hfind : indexes.toList.find? fun other => other.route == index.route with
      | none =>
        have hnever := List.find?_eq_none.mp hfind index hmem
        exact absurd (beq_self_eq_true index.route) hnever
      | some other =>
        have hother := List.mem_of_find?_eq_some hfind
        have hroute : other.route = index.route := by simpa using List.find?_some hfind
        have hsame := List.inj_on_of_nodup_map indexes.routes_nodup hother hmem hroute
        rw [hsame]
        rfl
    · intro cut hcut
      rw [Option.map_eq_none_iff, List.find?_eq_none]
      intro other hother hroute
      have hcut' : cut ∈ routeCuts path := by
        rw [hcuts]
        exact List.mem_append_left _ hcut
      have hrouted' := (mem_routeCuts path cut.1 cut.2).mp hcut'
      have hlong := (List.pairwise_append.mp hsorted).2.2 cut hcut _ List.mem_cons_self
      rw [← eq_of_beq hroute] at hrouted' hlong
      have hshort := hlongest other hother cut.2 hrouted'
      dsimp only at hlong
      omega

end Configured

end Peryx
