import Peryx.Index.Index

/-! # Repository resolution (peryx-ecosystem-oci/src/registry/mod.rs:670-689) -/

namespace Peryx.Oci

def repositoryUnder (index : Index) (name : Str) : Option Str :=
  if index.ecosystem = .oci then
    if index.route = [] then some name
    else match (Str.stripPrefix name index.route).bind fun rest => Str.stripPrefix rest (str "/") with
      | some rest => if rest = [] then none else some rest
      | none => none
  else none

def betterMatch (name : Str) (best : Option (Index × Str)) (index : Index) : Option (Index × Str) :=
  match repositoryUnder index name with
  | none => best
  | some repo => match best with
    | none => some (index, repo)
    | some (current, _) => if current.route.length < index.route.length then some (index, repo) else best

def resolve (indexes : List Index) (name : Str) : Option (Index × Str) :=
  indexes.foldl (betterMatch name) none

theorem repositoryUnder_route (index : Index) (name repo : Str) (hroute : index.route ≠ [])
    (h : repositoryUnder index name = some repo) :
    name = index.route ++ 0x2F :: repo := by
  simp only [repositoryUnder, hroute, if_false] at h
  split at h
  · cases hrest : (Str.stripPrefix name index.route).bind fun rest => Str.stripPrefix rest (str "/") with
    | none =>
      rw [hrest] at h
      cases h
    | some rest =>
      obtain ⟨tail, htail, hslash⟩ := Option.bind_eq_some_iff.mp hrest
      rw [Str.stripPrefix_eq_some] at htail hslash
      simp only [hrest] at h
      split at h
      · cases h
      · cases h
        rw [htail, hslash]
        rfl
  · cases h

theorem betterMatch_cases (name : Str) (best : Option (Index × Str)) (index : Index) :
    betterMatch name best index = best ∨
      ∃ repo, repositoryUnder index name = some repo ∧
        betterMatch name best index = some (index, repo) := by
  unfold betterMatch
  cases hu : repositoryUnder index name with
  | none => exact Or.inl rfl
  | some repo =>
    cases best with
    | none => exact Or.inr ⟨repo, rfl, rfl⟩
    | some current =>
      dsimp only
      split
      · exact Or.inr ⟨repo, rfl, rfl⟩
      · exact Or.inl rfl

theorem foldl_betterMatch (name : Str) (indexes : List Index) (best : Option (Index × Str))
    (index : Index) (repo : Str) (h : indexes.foldl (betterMatch name) best = some (index, repo)) :
    best = some (index, repo) ∨ index ∈ indexes ∧ repositoryUnder index name = some repo := by
  induction indexes generalizing best with
  | nil => exact Or.inl h
  | cons first indexes ih =>
    rw [List.foldl_cons] at h
    rcases ih _ h with hbest | ⟨hmem, hu⟩
    · rcases betterMatch_cases name best first with hkeep | ⟨repo', hu, htake⟩
      · exact Or.inl (hkeep ▸ hbest)
      · rw [htake] at hbest
        cases hbest
        exact Or.inr ⟨List.mem_cons_self, hu⟩
    · exact Or.inr ⟨List.mem_cons_of_mem first hmem, hu⟩

theorem resolve_some (indexes : List Index) (name : Str) (index : Index) (repo : Str)
    (h : resolve indexes name = some (index, repo)) :
    index ∈ indexes ∧ repositoryUnder index name = some repo := by
  rcases foldl_betterMatch name indexes none index repo h with hnone | hsome
  · cases hnone
  · exact hsome

theorem resolve_eq (indexes : Indexes) (name : Str) (index : Index) (repo : Str)
    (h : resolve indexes.toList name = some (index, repo)) :
    name = index.route ++ 0x2F :: repo := by
  obtain ⟨hmem, hu⟩ := resolve_some indexes.toList name index repo h
  exact repositoryUnder_route index name repo (indexes.route_ne_nil index hmem) hu

theorem resolve_instance (indexes : Indexes) (name resource : Str) (index : Index) (repo repo' : Str)
    (hname : resolve indexes.toList name = some (index, repo))
    (hresource : resolve indexes.toList resource = some (index, repo'))
    (hd : Wildcard.Denotes Acl.star name resource) : Wildcard.Denotes Acl.star repo repo' := by
  have hmem := (resolve_some indexes.toList name index repo hname).1
  have hsplit := resolve_eq indexes name index repo hname
  have hsplit' := resolve_eq indexes resource index repo' hresource
  have hfront : Acl.star ∉ index.route ++ [0x2F] := by
    rw [List.mem_append, not_or]
    exact ⟨indexes.star_not_mem_route index hmem, by decide⟩
  rw [hsplit, List.append_cons] at hd
  obtain ⟨t, ht, hdt⟩ := (Wildcard.denotes_literal_append Acl.star _ repo resource hfront).mp hd
  rw [hsplit', List.append_cons, List.append_cancel_left_eq] at ht
  exact ht ▸ hdt

end Peryx.Oci
