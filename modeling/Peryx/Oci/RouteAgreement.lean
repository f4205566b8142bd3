import Peryx.Index.RouteResolver
import Peryx.Oci.Resolve

/-!
# The registry's own resolver and the route table (peryx-ecosystem-oci/src/registry/mod.rs:668-689)
-/

namespace Peryx.Oci

theorem betterMatch_length (name : Str) (best : Option (Index × Str)) (index : Index) :
    (∀ current ∈ best, ∃ next, betterMatch name best index = some next ∧
      current.1.route.length ≤ next.1.route.length) ∧
    (∀ repo, repositoryUnder index name = some repo → ∃ next,
      betterMatch name best index = some next ∧ index.route.length ≤ next.1.route.length) := by
  unfold betterMatch
  cases hunder : repositoryUnder index name with
  | none =>
    refine ⟨fun current hcurrent => ⟨current, hcurrent, Nat.le_refl _⟩, fun repo hrepo => ?_⟩
    cases hrepo
  | some repo =>
    cases best with
    | none => exact ⟨nofun, fun _ _ => ⟨_, rfl, Nat.le_refl _⟩⟩
    | some current =>
      dsimp only
      split
      · rename_i hlonger
        refine ⟨fun current' hcurrent => ?_, fun _ _ => ⟨_, rfl, Nat.le_refl _⟩⟩
        rw [Option.mem_some_iff] at hcurrent
        rw [← hcurrent]
        exact ⟨_, rfl, Nat.le_of_lt hlonger⟩
      · rename_i hshorter
        exact ⟨fun current' hcurrent => ⟨current', hcurrent, Nat.le_refl _⟩,
          fun _ _ => ⟨_, rfl, Nat.not_lt.mp hshorter⟩⟩

theorem foldl_betterMatch_length (name : Str) (indexes : List Index) (best : Option (Index × Str)) :
    (∀ current ∈ best, ∃ last, indexes.foldl (betterMatch name) best = some last ∧
      current.1.route.length ≤ last.1.route.length) ∧
    (∀ index ∈ indexes, ∀ repo, repositoryUnder index name = some repo → ∃ last,
      indexes.foldl (betterMatch name) best = some last ∧
        index.route.length ≤ last.1.route.length) := by
  induction indexes generalizing best with
  | nil => exact ⟨fun current hcurrent => ⟨current, hcurrent, Nat.le_refl _⟩, nofun⟩
  | cons first indexes ih =>
    obtain ⟨hkept, hlater⟩ := ih (betterMatch name best first)
    obtain ⟨hbest, hfirst⟩ := betterMatch_length name best first
    rw [List.foldl_cons]
    have hthrough : ∀ (length : Nat) (next : Index × Str),
        betterMatch name best first = some next → length ≤ next.1.route.length →
        ∃ last, indexes.foldl (betterMatch name) (betterMatch name best first) = some last ∧
          length ≤ last.1.route.length := by
      intro length next hnext hle
      obtain ⟨last, hlast, hlonger⟩ := hkept next hnext
      exact ⟨last, hlast, Nat.le_trans hle hlonger⟩
    constructor
    · intro current hcurrent
      obtain ⟨next, hnext, hle⟩ := hbest current hcurrent
      exact hthrough _ next hnext hle
    · intro index hmem repo hrepo
      rcases List.mem_cons.mp hmem with rfl | hmem
      · obtain ⟨next, hnext, hle⟩ := hfirst repo hrepo
        exact hthrough _ next hnext hle
      · exact hlater index hmem repo hrepo

theorem resolve_longest (indexes : List Index) (name repo : Str) (index : Index)
    (hmem : index ∈ indexes) (hrepo : repositoryUnder index name = some repo) :
    ∃ last, resolve indexes name = some last ∧ index.route.length ≤ last.1.route.length :=
  (foldl_betterMatch_length name indexes none).2 index hmem repo hrepo

theorem repositoryUnder_routed (index : Index) (name rest : Str) (heco : index.ecosystem = .oci)
    (hroute : index.route ≠ []) (hrest : rest ≠ []) (h : RoutedBy index.route name rest) :
    repositoryUnder index name = some rest := by
  have hname : name = index.route ++ 0x2F :: rest := by
    rcases h with ⟨_, hnil⟩ | hname
    · exact absurd hnil hrest
    · exact hname
  have hslash : Str.stripPrefix (0x2F :: rest) (str "/") = some rest :=
    (Str.stripPrefix_eq_some _ _ _).mpr rfl
  have hstrip := (Str.stripPrefix_eq_some name index.route (0x2F :: rest)).mpr hname
  unfold repositoryUnder
  rw [if_pos heco, if_neg hroute, hstrip, Option.bind_some, hslash]
  exact if_neg hrest

theorem resolve_of_winner (indexes : Indexes) (path rest : Str) (position : Nat) (index : Index)
    (hresolve : (RouteResolver.new indexes.toList).resolve path = some (position, rest))
    (hindex : indexes.toList[position]? = some index) (heco : index.ecosystem = .oci)
    (hrest : rest ≠ []) : resolve indexes.toList path = some (index, rest) := by
  obtain ⟨winner, hwinner, hrouted, hlongest⟩ :=
    resolve_some_spec indexes path rest position hresolve
  obtain rfl : index = winner := Option.some.inj (hindex.symm.trans hwinner)
  have hmem := List.mem_of_getElem? hindex
  have hrepo := repositoryUnder_routed index path rest heco (indexes.route_ne_nil index hmem)
    hrest hrouted
  obtain ⟨last, hlast, hlonger⟩ := resolve_longest indexes.toList path rest index hmem hrepo
  obtain ⟨taken, repo⟩ := last
  have htaken := (resolve_some indexes.toList path taken repo hlast).1
  have hsplit : RoutedBy taken.route path repo :=
    Or.inr (resolve_eq indexes path taken repo hlast)
  have hlength := Nat.le_antisymm hlonger (hlongest taken htaken repo hsplit)
  obtain ⟨hroute, hsame⟩ := hrouted.unique hsplit hlength
  rw [hlast, hsame, List.inj_on_of_nodup_map indexes.routes_nodup hmem htaken hroute]

theorem route_resolution (indexes : Indexes) (path : Str) :
    (∀ position rest, (RouteResolver.new indexes.toList).resolve path = some (position, rest) ↔
      ∃ index, indexes.toList[position]? = some index ∧ RoutedBy index.route path rest ∧
        ∀ other ∈ indexes.toList, ∀ left, RoutedBy other.route path left →
          other.route.length ≤ index.route.length) ∧
    ((RouteResolver.new indexes.toList).resolve path = none ↔
      ∀ index ∈ indexes.toList, ∀ rest, ¬ RoutedBy index.route path rest) ∧
    (∀ position rest index,
      (RouteResolver.new indexes.toList).resolve path = some (position, rest) →
      indexes.toList[position]? = some index → index.ecosystem = .oci → rest ≠ [] →
      resolve indexes.toList path = some (index, rest)) := by
  refine ⟨fun position rest => ⟨resolve_some_spec indexes path rest position, ?_⟩,
    ⟨resolve_none_spec indexes path, ?_⟩, fun position rest index hresolve hindex heco hrest =>
      resolve_of_winner indexes path rest position index hresolve hindex heco hrest⟩
  · rintro ⟨index, hindex, hrouted, hlongest⟩
    have hmem := List.mem_of_getElem? hindex
    cases hresolve : (RouteResolver.new indexes.toList).resolve path with
    | none => exact absurd hrouted (resolve_none_spec indexes path hresolve index hmem rest)
    | some found =>
      obtain ⟨position', rest'⟩ := found
      obtain ⟨winner, hwinner, hrouted', hlongest'⟩ :=
        resolve_some_spec indexes path rest' position' hresolve
      have hmem' := List.mem_of_getElem? hwinner
      have hlength := Nat.le_antisymm (hlongest' index hmem rest hrouted)
        (hlongest winner hmem' rest' hrouted')
      obtain ⟨hroute, hsame⟩ := hrouted.unique hrouted' hlength
      obtain rfl := List.inj_on_of_nodup_map indexes.routes_nodup hmem hmem' hroute
      have hnodup : indexes.toList.Nodup := List.Nodup.of_map _ indexes.routes_nodup
      have hlt := (List.getElem?_eq_some_iff.mp hindex).1
      have hposition := (List.getElem?_inj hlt hnodup).mp (hindex.trans hwinner.symm)
      rw [hposition, hsame]
  · intro hnone
    cases hresolve : (RouteResolver.new indexes.toList).resolve path with
    | none => rfl
    | some found =>
      obtain ⟨position, rest⟩ := found
      obtain ⟨index, hindex, hrouted, _⟩ := resolve_some_spec indexes path rest position hresolve
      exact absurd hrouted (hnone index (List.mem_of_getElem? hindex) rest)

end Peryx.Oci
