import Peryx.Library.Outcome
import Peryx.Pypi.Mutations

/-! # The checked project and the mutated project -/

namespace Peryx.Pypi
open Core

def firstSegment (path : Str) : Str := (Str.trimStart 0x2F path).takeWhile (· != 0x2F)

theorem split_head (path : Str) :
    ∃ tail, Str.split 0x2F path = path.takeWhile (· != 0x2F) :: tail := by
  induction path with
  | nil => exact ⟨[], rfl⟩
  | cons byte rest ih =>
    obtain ⟨tail, htail⟩ := ih
    unfold Str.split List.splitOn at htail ⊢
    rw [List.splitOnP_cons_eq_if_modifyHead]
    by_cases hb : byte = 0x2F
    · exact ⟨_, by simp [hb]; rfl⟩
    · refine ⟨tail, ?_⟩
      rw [htail]
      simp [hb]

theorem mutationProject_eq (table : CaseMap) (spec : Str) :
    mutationProject table spec =
      if firstSegment spec = [] then none else some (normalizeName table (firstSegment spec)) := by
  have hfind : ((Str.split 0x2F spec).find? fun segment => !segment.isEmpty) =
      if firstSegment spec = [] then none else some (firstSegment spec) := by
    induction spec with
    | nil => rfl
    | cons byte rest ih =>
      by_cases hb : byte = 0x2F
      · have hsplit : Str.split 0x2F (byte :: rest) = [] :: Str.split 0x2F rest := by
          unfold Str.split List.splitOn
          rw [List.splitOnP_cons_eq_if_modifyHead]
          simp [hb]
        have hfirst : firstSegment (byte :: rest) = firstSegment rest := by
          simp [firstSegment, Str.trimStart, hb]
        rw [hsplit, hfirst, ← ih, List.find?_cons_of_neg]
        simp
      · obtain ⟨tail, htail⟩ := split_head (byte :: rest)
        have hfirst : firstSegment (byte :: rest) = (byte :: rest).takeWhile (· != 0x2F) := by
          simp [firstSegment, Str.trimStart, hb]
        rw [htail, hfirst, List.find?_cons_of_pos]
        · simp [hb]
        · simp [hb]
  rw [mutationProject, hfind]
  split <;> rfl

theorem splitProject_fst (trimmed : Str) :
    (splitProject trimmed).1 = trimmed.takeWhile (· != 0x2F) := by
  have hfront : ∀ s : Str, (Str.splitOnce 0x2F s = none → s.takeWhile (· != 0x2F) = s) ∧
      ∀ front back, Str.splitOnce 0x2F s = some (front, back) → s.takeWhile (· != 0x2F) = front := by
    intro s
    induction s with
    | nil => exact ⟨fun _ => rfl, nofun⟩
    | cons byte rest ih =>
      by_cases hb : byte = 0x2F
      · refine ⟨by simp [Str.splitOnce, hb], fun front back h => ?_⟩
        simp only [Str.splitOnce, hb, if_true, Option.some.injEq, Prod.mk.injEq] at h
        simp [hb, ← h.1]
      · constructor
        · intro h
          simp only [Str.splitOnce, hb, if_false, Option.map_eq_none_iff] at h
          simp [hb, ih.1 h]
        · intro front back h
          simp only [Str.splitOnce, hb, if_false, Option.map_eq_some_iff] at h
          obtain ⟨⟨before, after⟩, hs, heq⟩ := h
          cases heq
          simp [hb, ih.2 before after hs]
  unfold splitProject
  cases hs : Str.splitOnce 0x2F trimmed with
  | none => exact ((hfront trimmed).1 hs).symm
  | some parts => exact ((hfront trimmed).2 parts.1 parts.2 hs).symm

theorem takeWhile_append_slashes (front rest : Str) (h : ∀ byte ∈ rest, byte = 0x2F) :
    (front ++ rest).takeWhile (· != 0x2F) = front.takeWhile (· != 0x2F) := by
  induction front with
  | nil =>
    cases rest with
    | nil => rfl
    | cons byte rest => simp [h byte List.mem_cons_self]
  | cons byte front ih =>
    by_cases hb : byte = 0x2F
    · simp [hb]
    · simp [hb, ih]

theorem takeWhile_trimMatches (path : Str) :
    (Str.trimMatches 0x2F path).takeWhile (· != 0x2F) = firstSegment path := by
  obtain ⟨rest, hrest, hslashes⟩ := Str.trimEnd_append 0x2F (Str.trimStart 0x2F path)
  unfold Str.trimMatches firstSegment
  conv => rhs; rw [hrest]
  exact (takeWhile_append_slashes _ rest hslashes).symm

theorem takeWhile_append_of_slash (front rest : Str) (h : 0x2F ∈ front) :
    (front ++ rest).takeWhile (· != 0x2F) = front.takeWhile (· != 0x2F) := by
  induction front with
  | nil => cases h
  | cons byte front ih =>
    by_cases hb : byte = 0x2F
    · simp [hb]
    · have hmem := (List.mem_cons.mp h).resolve_left (Ne.symm hb)
      simp [hb, ih hmem]

theorem firstSegment_append (front rest : Str) (hslash : Str.endsWith front (str "/") = true)
    (hne : firstSegment front ≠ []) : firstSegment (front ++ rest) = firstSegment front := by
  have htrimmed : Str.trimStart 0x2F front ≠ [] := by
    intro hnil
    apply hne
    rw [firstSegment, hnil]
    rfl
  have hdrop : Str.trimStart 0x2F (front ++ rest) = Str.trimStart 0x2F front ++ rest := by
    unfold Str.trimStart at htrimmed ⊢
    rw [List.dropWhile_append, if_neg]
    rwa [List.isEmpty_iff]
  -- the slash at the end of the path is still at the end of what trimming leaves
  have hmem : 0x2F ∈ Str.trimStart 0x2F front := by
    obtain ⟨base, hbase⟩ := List.isSuffixOf_iff_suffix.mp hslash
    obtain ⟨cut, hcut⟩ : Str.trimStart 0x2F front <:+ front := List.dropWhile_suffix _
    have hlast : front.getLast? = some 0x2F := by
      rw [← hbase]
      exact List.getLast?_concat
    rw [← hcut, List.getLast?_append_of_ne_nil _ htrimmed] at hlast
    exact List.mem_of_getLast? hlast
  rw [firstSegment, hdrop, takeWhile_append_of_slash _ _ hmem]
  rfl

theorem stripActionSegment_first (spec action base : Str)
    (h : stripActionSegment spec action = some base) (hne : firstSegment base ≠ []) :
    firstSegment spec = firstSegment base := by
  unfold stripActionSegment at h
  obtain ⟨hstrip, hends⟩ := Option.filter_eq_some_iff.mp h
  obtain ⟨slashes, hspec, _⟩ := Str.trimEnd_append 0x2F spec
  rw [Str.stripSuffix_eq_some _ _ _ hstrip, List.append_assoc] at hspec
  rw [hspec]
  exact firstSegment_append base _ hends hne

theorem parseProjectVersion_ok (table : CaseMap) (spec project : Str) (version : Option Str)
    (h : parseProjectVersion table spec = .ok (project, version)) :
    ∃ decoded, decodePathSegment (firstSegment spec) = .ok decoded ∧ decoded ≠ [] ∧
      project = normalizeName table decoded := by
  unfold parseProjectVersion at h
  rw [← takeWhile_trimMatches, ← splitProject_fst]
  generalize splitProject (Str.trimMatches 0x2F spec) = parts at h ⊢
  obtain ⟨segment, tail⟩ := parts
  obtain ⟨decoded, hdecoded, h⟩ := (bind_eq_ok _ _ _).mp h
  obtain ⟨_, hsafe, h⟩ := (bind_eq_ok _ _ _).mp h
  obtain ⟨_, _, h⟩ := (bind_eq_ok _ _ _).mp h
  cases h
  have hne : decoded ≠ [] := by
    unfold validatePathSegment at hsafe
    split at hsafe
    · rename_i hsegment
      exact isSafeSegment_ne_nil decoded hsegment
    · cases hsafe
  exact ⟨decoded, hdecoded, hne, rfl⟩

theorem firstSegment_ne_nil (spec decoded : Str)
    (h : decodePathSegment (firstSegment spec) = .ok decoded) (hne : decoded ≠ []) :
    firstSegment spec ≠ [] := by
  intro hnil
  rw [hnil] at h
  cases h
  exact hne rfl

theorem hexNibble_cases (byte : UInt8) : (hexNibble byte).all (· < 16) = true ∧
    (hexNibble byte = some 2 → byte = 0x32) ∧ (hexNibble byte = some 5 → byte = 0x35) := by
  have hall : ∀ n : Fin 256, (hexNibble (UInt8.ofNat n)).all (· < 16) = true ∧
      (hexNibble (UInt8.ofNat n) = some 2 → UInt8.ofNat n = 0x32) ∧
      (hexNibble (UInt8.ofNat n) = some 5 → UInt8.ofNat n = 0x35) := by
    decide +kernel
  have hbyte := hall ⟨byte.toNat, byte.toNat_lt⟩
  rwa [UInt8.ofNat_toNat] at hbyte

theorem hexByte_percent (high low : UInt8) (h : hexByte high low = some 0x25) :
    high = 0x32 ∧ low = 0x35 := by
  have hnibbles : ∀ a b : Fin 16, UInt8.ofNat a <<< 4 ||| UInt8.ofNat b = 0x25 →
      UInt8.ofNat a = 2 ∧ UInt8.ofNat b = 5 := by
    decide +kernel
  obtain ⟨a, ha, hrest⟩ := Option.bind_eq_some_iff.mp h
  obtain ⟨b, hb, heq⟩ := Option.bind_eq_some_iff.mp hrest
  have hlt : ∀ byte v, hexNibble byte = some v → v.toNat < 16 := by
    intro byte v hv
    have hbyte := (hexNibble_cases byte).1
    rw [hv, Option.all_some, decide_eq_true_eq, UInt8.lt_iff_toNat_lt] at hbyte
    exact hbyte
  have hpair := hnibbles ⟨a.toNat, hlt high a ha⟩ ⟨b.toNat, hlt low b hb⟩
  simp only [UInt8.ofNat_toNat] at hpair
  obtain ⟨ha2, hb5⟩ := hpair (Option.some.inj heq)
  exact ⟨(hexNibble_cases high).2.1 (ha2 ▸ ha), (hexNibble_cases low).2.2 (hb5 ▸ hb)⟩

theorem decodeBytes_symbols (bytes decoded : Str) (h : decodeBytes bytes = some decoded) :
    decoded.count 0x25 < bytes.count 0x25 ∨
      decoded.count 0x25 = bytes.count 0x25 ∧
        (bytes.filter isNameSymbol).length =
          (decoded.filter isNameSymbol).length + 2 * bytes.count 0x25 := by
  induction bytes using decodeBytes.induct generalizing decoded with
  | case1 =>
    cases h
    exact Or.inr ⟨rfl, rfl⟩
  | case2 high low rest ih =>
    simp only [decodeBytes, if_true] at h
    obtain ⟨byte, hbyte, h⟩ := Option.bind_eq_some_iff.mp h
    obtain ⟨tail, htail, h⟩ := Option.bind_eq_some_iff.mp h
    cases h
    have hrest := ih tail htail
    by_cases hpercent : byte = 0x25
    · obtain ⟨rfl, rfl⟩ := hexByte_percent high low (hpercent ▸ hbyte)
      have hfilter : ((0x25 :: 0x32 :: 0x35 :: rest : Str).filter isNameSymbol).length =
          (rest.filter isNameSymbol).length + 3 := rfl
      have hfilter' : ((0x25 :: tail : Str).filter isNameSymbol).length =
          (tail.filter isNameSymbol).length + 1 := rfl
      have hcount : (0x25 :: 0x32 :: 0x35 :: rest : Str).count 0x25 = rest.count 0x25 + 1 := by
        simp
      have hcount' : (0x25 :: tail : Str).count 0x25 = tail.count 0x25 + 1 := by simp
      rw [hpercent, hfilter, hfilter', hcount, hcount']
      omega
    · have hcount : rest.count 0x25 + 1 ≤ (0x25 :: high :: low :: rest : Str).count 0x25 := by
        simp only [List.count_cons, beq_self_eq_true, if_true]
        omega
      have hcount' : (byte :: tail).count 0x25 = tail.count 0x25 := by simp [hpercent]
      rw [hcount']
      omega
  | case3 rest hshort =>
    simp [decodeBytes] at h
  | case4 byte rest hb ih =>
    unfold decodeBytes at h
    rw [if_neg hb] at h
    obtain ⟨tail, htail, h⟩ := Option.map_eq_some_iff.mp h
    cases h
    have hrest := ih tail htail
    simp only [List.count_cons, List.filter_cons, beq_iff_eq, hb, if_false, Nat.add_zero]
    split
    · simp only [List.length_cons]
      omega
    · omega

theorem normalizeName_decoded_ne (table : CaseMap) (segment decoded : Str) (h : 0x25 ∈ segment)
    (hd : decodePathSegment segment = .ok decoded) :
    normalizeName table segment ≠ normalizeName table decoded := by
  intro heq
  have hsymbols : segment.filter isNameSymbol = decoded.filter isNameSymbol := by
    rw [← normalizeName_symbols table segment, heq, normalizeName_symbols]
  have hpositive : 0 < segment.count 0x25 := List.count_pos_iff.mpr h
  have hpercent : segment.count 0x25 = decoded.count 0x25 := by
    have hkept : ∀ l : Str, l.count 0x25 = (l.filter isNameSymbol).count 0x25 := by
      intro l
      rw [List.count_filter (by decide)]
    rw [hkept segment, hsymbols, ← hkept]
  rcases decodeBytes_symbols segment decoded (decodePercent_escaped segment decoded h hd) with
    hlost | ⟨_, hlength⟩
  · omega
  · rw [hsymbols] at hlength
    omega

def ReadFrom (table : CaseMap) (rest : Str) (mutation : Mutation) : Prop :=
  mutation.checked = mutationProject table rest ∧
    ∃ decoded, decodePathSegment (firstSegment rest) = .ok decoded ∧ decoded ≠ [] ∧
      mutation.project = normalizeName table decoded

theorem ReadFrom.checked_eq_iff (table : CaseMap) (rest : Str) (mutation : Mutation)
    (h : ReadFrom table rest mutation) :
    mutation.checked = some mutation.project ↔ 0x25 ∉ firstSegment rest := by
  obtain ⟨hchecked, decoded, hdecoded, hne, hproject⟩ := h
  have hsegment := firstSegment_ne_nil rest decoded hdecoded hne
  rw [hchecked, mutationProject_eq, if_neg hsegment, hproject, Option.some.injEq]
  constructor
  · intro heq hpercent
    exact normalizeName_decoded_ne table _ decoded hpercent hdecoded heq
  · intro hplain
    rw [decodePathSegment, decodePercent_plain _ hplain, Except.ok.injEq] at hdecoded
    rw [hdecoded]

section Handlers
variable (table : CaseMap) (base64Decode : Str → Option (List UInt8))
  (verifyTrusted : Option (Str → Option VerifiedToken)) (queryPairs : Str → List (Str × Str))
  (projectStatus : Index → Str → Except Unit ProjectStatus) (indexes : List Index)

theorem parsedProject_ok (spec rest project : Str) (version : Option Str)
    (h : parsedProject table spec = .ok (project, version))
    (hsame : firstSegment spec ≠ [] → firstSegment rest = firstSegment spec) :
    ∃ decoded, decodePathSegment (firstSegment rest) = .ok decoded ∧ decoded ≠ [] ∧
      project = normalizeName table decoded := by
  unfold parsedProject at h
  split at h
  · rename_i parsed hparsed
    cases h
    obtain ⟨decoded, hdecoded, hne, hproject⟩ := parseProjectVersion_ok table spec project version hparsed
    rw [hsame (firstSegment_ne_nil spec decoded hdecoded hne)]
    exact ⟨decoded, hdecoded, hne, hproject⟩
  · cases h

theorem fileRequest_readFrom (kind : MutationKind) (index hosted : Index) (rest spec : Str)
    (mutation : Mutation) (h : fileRequest table kind index hosted rest spec = .ok mutation)
    (hsame : firstSegment spec ≠ [] → firstSegment rest = firstSegment spec) :
    ReadFrom table rest mutation := by
  obtain ⟨⟨project, version⟩, hparsed, h⟩ := (bind_eq_ok _ _ _).mp h
  cases h
  exact ⟨rfl, parsedProject_ok table spec rest project version hparsed hsame⟩

theorem promoteRequest_readFrom (index hosted : Index) (rest spec : Str) (query : Option Str)
    (mutation : Mutation)
    (h : promoteRequest table queryPairs projectStatus indexes index hosted rest spec query
      = .ok mutation)
    (hsame : firstSegment spec ≠ [] → firstSegment rest = firstSegment spec) :
    ReadFrom table rest mutation := by
  obtain ⟨route, _, h⟩ := (bind_eq_ok _ _ _).mp h
  obtain ⟨source, _, h⟩ := (bind_eq_ok _ _ _).mp h
  cases hlocal : uploadTarget indexes source with
  | none =>
    rw [hlocal] at h
    cases h
  | some sourceLocal =>
    rw [hlocal] at h
    obtain ⟨⟨project, version⟩, hparsed, h⟩ := (bind_eq_ok _ _ _).mp h
    cases version with
    | none => cases h
    | some version =>
      dsimp only at h
      split at h
      · cases h
      · split at h
        · cases h
          exact ⟨rfl, parsedProject_ok table spec rest project (some version) hparsed hsame⟩
        · cases h

/-- A performed PUT or DELETE and the rest of its path behind the index route. -/
def PerformedAt (rest : Str) (mutation : Mutation) (request : MutationRequest) : Prop :=
  (∃ index, resolveRoute indexes (Str.trimStart 0x2F request.path) = some (index, rest)) ∧
    (dispatchPut table base64Decode verifyTrusted queryPairs projectStatus indexes request
        = .ok mutation ∨
      dispatchDelete table base64Decode verifyTrusted queryPairs indexes request = .ok mutation)

theorem removalTarget_rest (request : MutationRequest) (action : Acl.Action) (index hosted : Index)
    (rest : Str)
    (h : removalTarget table base64Decode verifyTrusted indexes request action
      = .ok (index, hosted, rest)) :
    resolveRoute indexes (Str.trimStart 0x2F request.path) = some (index, rest) := by
  unfold removalTarget at h
  split at h
  · cases h
  · rename_i found behind hroute
    split at h
    · cases h
    · split at h
      · cases h
      · cases h
        exact hroute

theorem dispatchPut_readFrom (request : MutationRequest) (mutation : Mutation)
    (h : dispatchPut table base64Decode verifyTrusted queryPairs projectStatus indexes request
      = .ok mutation) :
    ∃ index rest, resolveRoute indexes (Str.trimStart 0x2F request.path) = some (index, rest) ∧
      ReadFrom table rest mutation := by
  obtain ⟨⟨index, hosted, rest⟩, htarget, h⟩ := (bind_eq_ok _ _ _).mp h
  refine ⟨index, rest, removalTarget_rest table base64Decode verifyTrusted indexes request .write
    index hosted rest htarget, ?_⟩
  dsimp only at h
  split at h
  · rename_i spec hspec
    exact promoteRequest_readFrom table queryPairs projectStatus indexes index hosted rest spec _
      mutation h (stripActionSegment_first rest _ spec hspec)
  · split at h
    · rename_i spec hspec
      exact fileRequest_readFrom table _ index hosted rest spec mutation h
        (stripActionSegment_first rest _ spec hspec)
    · split at h
      · rename_i spec hspec
        exact fileRequest_readFrom table _ index hosted rest spec mutation h
          (stripActionSegment_first rest _ spec hspec)
      · cases h

theorem dispatchDelete_readFrom (request : MutationRequest) (mutation : Mutation)
    (h : dispatchDelete table base64Decode verifyTrusted queryPairs indexes request
      = .ok mutation) :
    ∃ index rest, resolveRoute indexes (Str.trimStart 0x2F request.path) = some (index, rest) ∧
      ReadFrom table rest mutation := by
  obtain ⟨⟨index, hosted, rest⟩, htarget, h⟩ := (bind_eq_ok _ _ _).mp h
  refine ⟨index, rest, removalTarget_rest table base64Decode verifyTrusted indexes request .delete
    index hosted rest htarget, ?_⟩
  dsimp only at h
  split at h
  · rename_i spec hspec
    exact fileRequest_readFrom table _ index hosted rest spec mutation h
      (stripActionSegment_first rest _ spec hspec)
  · exact fileRequest_readFrom table _ index hosted rest rest mutation h fun _ => rfl

/-- The access check and the mutation are about one project exactly when the segment
that names it has no escape. -/
theorem checked_project_mutated_iff (request : MutationRequest) (rest : Str) (mutation : Mutation)
    (h : PerformedAt table base64Decode verifyTrusted queryPairs projectStatus indexes rest mutation
      request) :
    mutation.checked = some mutation.project ↔ 0x25 ∉ firstSegment rest := by
  obtain ⟨⟨index, hroute⟩, hperformed⟩ := h
  have hread : ReadFrom table rest mutation := by
    rcases hperformed with hput | hdelete
    · obtain ⟨_, _, hroute', hread⟩ := dispatchPut_readFrom table base64Decode verifyTrusted
        queryPairs projectStatus indexes request mutation hput
      rw [hroute] at hroute'
      cases hroute'
      exact hread
    · obtain ⟨_, _, hroute', hread⟩ := dispatchDelete_readFrom table base64Decode verifyTrusted
        queryPairs indexes request mutation hdelete
      rw [hroute] at hroute'
      cases hroute'
      exact hread
  exact hread.checked_eq_iff

end Handlers

def uploadIndex : Index :=
  ⟨str "hosted", str "hosted", .pypi, .hosted true, {}, ⟨true, [.upload (str "s3cret")]⟩⟩

def tokenCredentials : Str → Option (List UInt8) := fun _ => some (str "ci:s3cret")

def yankRequest (path : Str) : MutationRequest := ⟨path, none, some (str "Basic Y2k6czNjcmV0"), 0⟩

/-- Access is checked on `%66lask`, and `flask` is yanked. -/
theorem escaped_project_unchecked :
    ∃ mutation, PerformedAt .caseless tokenCredentials none (fun _ => []) (fun _ _ => .ok .active)
        [uploadIndex] (str "%66lask/yank") mutation (yankRequest (str "/hosted/%66lask/yank")) ∧
      mutation.project = str "flask" ∧ mutation.checked ≠ some mutation.project :=
  ⟨⟨.yank .yes, uploadIndex, uploadIndex, some (str "%66lask"), str "flask", none⟩,
    ⟨⟨uploadIndex, rfl⟩, Or.inl rfl⟩, rfl, by decide⟩

/-- Spelled plainly, the same request is checked on the project it yanks. -/
theorem plain_project_checked :
    ∃ mutation, PerformedAt .caseless tokenCredentials none (fun _ => []) (fun _ _ => .ok .active)
        [uploadIndex] (str "flask//yank/") mutation (yankRequest (str "//hosted/flask//yank/")) ∧
      mutation.checked = some mutation.project := by
  refine ⟨⟨.yank .yes, uploadIndex, uploadIndex, some (str "flask"), str "flask", none⟩,
    ⟨⟨uploadIndex, rfl⟩, Or.inl rfl⟩, ?_⟩
  exact (checked_project_mutated_iff .caseless tokenCredentials none (fun _ => [])
    (fun _ _ => .ok .active) [uploadIndex] (yankRequest (str "//hosted/flask//yank/"))
    (str "flask//yank/") _ ⟨⟨uploadIndex, rfl⟩, Or.inl rfl⟩).mpr (by decide)

end Peryx.Pypi
