import Peryx.Oci.ManifestWrite

/-! # Names and references of the distribution API (peryx-ecosystem-oci/src/name.rs:103-178) -/

namespace Peryx.Oci

def isNameByte (byte : UInt8) : Bool :=
  (0x61 ≤ byte && byte ≤ 0x7A) || (0x30 ≤ byte && byte ≤ 0x39)

def isUpper (byte : UInt8) : Bool := 0x41 ≤ byte && byte ≤ 0x5A

def isAlphanumeric (byte : UInt8) : Bool := isNameByte byte || isUpper byte

def allowedSeparator (separator : Str) : Bool :=
  separator == str "." || separator == str "_" || separator == str "__" ||
    separator.all (· == 0x2D)

def separatorsAllowed (pending : Str) : Str → Bool
  | [] => pending.isEmpty || allowedSeparator pending
  | byte :: rest =>
    if isNameByte byte then
      (pending.isEmpty || allowedSeparator pending) && separatorsAllowed [] rest
    else separatorsAllowed (pending ++ [byte]) rest

def validNameComponent (component : Str) : Bool :=
  component.head?.any isNameByte && component.getLast?.any isNameByte &&
    separatorsAllowed [] component

def joinName (components : List Str) : Option Str :=
  if components.isEmpty || !components.all validNameComponent then none
  else
    let name := [0x2F].intercalate components
    if name.length ≤ 255 then some name else none

def isTagByte (byte : UInt8) : Bool :=
  isAlphanumeric byte || byte == 0x2E || byte == 0x5F || byte == 0x2D

def validTag : Str → Bool
  | [] => false
  | first :: rest =>
    (first :: rest).length ≤ 128 && (isAlphanumeric first || first == 0x5F) && rest.all isTagByte

def isAlgorithmByte (byte : UInt8) : Bool :=
  isNameByte byte || byte == 0x2B || byte == 0x2E || byte == 0x5F || byte == 0x2D

def isEncodedByte (byte : UInt8) : Bool :=
  isNameByte byte || byte == 0x3D || byte == 0x5F || byte == 0x2D

def parseDigest (digest : Str) : Option Str :=
  (Str.splitOnce 0x3A digest).bind fun (algorithm, encoded) =>
    let algorithmOk := !algorithm.isEmpty && algorithm.all isAlgorithmByte
    let encodedOk := !encoded.isEmpty && encoded.all isEncodedByte
    if algorithmOk && encodedOk then some digest else none

def parseReference (reference : Str) : Option Reference :=
  if 0x3A ∈ reference then (parseDigest reference).map .digest
  else if validTag reference then some (.tag reference)
  else none

def IsRun (run : Str) : Prop := run ≠ [] ∧ ∀ byte ∈ run, isNameByte byte = true

inductive Separator : Str → Prop
  | dot : Separator [0x2E]
  | underscore : Separator [0x5F]
  | underscores : Separator [0x5F, 0x5F]
  | dashes (n : Nat) : Separator (List.replicate (n + 1) 0x2D)

/-- `[a-z0-9]+((\.|_|__|-+)[a-z0-9]+)*`. -/
inductive PathComponent : Str → Prop
  | run (run : Str) (h : IsRun run) : PathComponent run
  | join (run separator rest : Str) (hrun : IsRun run) (hseparator : Separator separator)
      (hrest : PathComponent rest) : PathComponent (run ++ separator ++ rest)

def RepositoryName (name : Str) : Prop :=
  ∃ components, components ≠ [] ∧ (∀ component ∈ components, PathComponent component) ∧
    name = [0x2F].intercalate components ∧ name.length ≤ 255

def IsTag (tag : Str) : Prop :=
  ∃ first rest, tag = first :: rest ∧ (isAlphanumeric first = true ∨ first = 0x5F) ∧
    rest.length ≤ 127 ∧ ∀ byte ∈ rest, isTagByte byte = true

inductive Algorithm : Str → Prop
  | run (run : Str) (h : IsRun run) : Algorithm run
  | join (run : Str) (separator : UInt8) (rest : Str) (hrun : IsRun run)
      (hseparator : separator ∈ str "+._-") (hrest : Algorithm rest) :
      Algorithm (run ++ separator :: rest)

/-- `algorithm ":" [a-zA-Z0-9=_-]+`. -/
def IsDigest (digest : Str) : Prop :=
  ∃ algorithm encoded, digest = algorithm ++ 0x3A :: encoded ∧ Algorithm algorithm ∧
    encoded ≠ [] ∧ ∀ byte ∈ encoded, isEncodedByte byte = true ∨ isUpper byte = true

def LowerCase (digest : Str) : Prop := ∀ byte ∈ digest, isUpper byte = false

def DigestShape (digest : Str) : Prop :=
  ∃ algorithm encoded, digest = algorithm ++ 0x3A :: encoded ∧
    algorithm ≠ [] ∧ (∀ byte ∈ algorithm, isAlgorithmByte byte = true) ∧
    encoded ≠ [] ∧ ∀ byte ∈ encoded, isEncodedByte byte = true

theorem allowedSeparator_iff (separator : Str) (h : separator ≠ []) :
    allowedSeparator separator = true ↔ Separator separator := by
  unfold allowedSeparator
  simp only [Bool.or_eq_true, beq_iff_eq, List.all_eq_true]
  constructor
  · intro hallowed
    rcases hallowed with ((hdot | hone) | htwo) | hdashes
    · exact hdot ▸ Separator.dot
    · exact hone ▸ Separator.underscore
    · exact htwo ▸ Separator.underscores
    · have hlength : separator.length = (separator.length - 1) + 1 := by
        have := List.length_pos_iff.mpr h
        omega
      have hreplicate : separator = List.replicate ((separator.length - 1) + 1) 0x2D :=
        List.eq_replicate_iff.mpr ⟨hlength, hdashes⟩
      exact hreplicate ▸ Separator.dashes _
  · intro hseparator
    cases hseparator with
    | dot => exact .inl (.inl (.inl rfl))
    | underscore => exact .inl (.inl (.inr rfl))
    | underscores => exact .inl (.inr rfl)
    | dashes n => exact .inr fun byte hbyte => List.eq_of_mem_replicate hbyte

theorem Separator.ne_nil {separator : Str} (h : Separator separator) : separator ≠ [] := by
  cases h <;> exact List.cons_ne_nil _ _

theorem Separator.not_nameByte {separator : Str} (h : Separator separator) :
    ∀ byte ∈ separator, isNameByte byte = false := by
  cases h with
  | dot => exact Str.forall_of_all (by decide)
  | underscore => exact Str.forall_of_all (by decide)
  | underscores => exact Str.forall_of_all (by decide)
  | dashes n =>
    intro byte hbyte
    rw [List.eq_of_mem_replicate hbyte]
    decide

theorem separatorsAllowed_run (run rest : Str) (h : ∀ byte ∈ run, isNameByte byte = true) :
    separatorsAllowed [] (run ++ rest) = separatorsAllowed [] rest := by
  induction run with
  | nil => rfl
  | cons byte run ih =>
    rw [List.cons_append, separatorsAllowed, if_pos (h byte List.mem_cons_self),
      ih fun b hb => h b (List.mem_cons_of_mem _ hb)]
    rfl

theorem separatorsAllowed_separator (pending separator rest : Str)
    (h : ∀ byte ∈ separator, isNameByte byte = false) :
    separatorsAllowed pending (separator ++ rest) = separatorsAllowed (pending ++ separator) rest := by
  induction separator generalizing pending with
  | nil => rw [List.nil_append, List.append_nil]
  | cons byte separator ih =>
    have hbyte : ¬ isNameByte byte = true := by
      rw [h byte List.mem_cons_self]
      decide
    rw [List.cons_append, separatorsAllowed, if_neg hbyte,
      ih _ fun b hb => h b (List.mem_cons_of_mem _ hb), List.append_assoc]
    rfl

theorem separatorsAllowed_start (pending rest : Str) (hpending : pending ≠ [])
    (h : rest.head?.any isNameByte = true) :
    separatorsAllowed pending rest = (allowedSeparator pending && separatorsAllowed [] rest) := by
  cases rest with
  | nil => cases h
  | cons byte rest =>
    have hbyte : isNameByte byte = true := h
    have hempty : pending.isEmpty = false := by
      rw [List.isEmpty_eq_false_iff]
      exact hpending
    rw [separatorsAllowed, if_pos hbyte, separatorsAllowed, if_pos hbyte, hempty]
    rfl

theorem validNameComponent_of_run (run : Str) (h : IsRun run) : validNameComponent run = true := by
  obtain ⟨hne, hbytes⟩ := h
  have hscan := separatorsAllowed_run run [] hbytes
  rw [List.append_nil] at hscan
  have hhead : run.head?.any isNameByte = true := by
    rw [List.head?_eq_some_head hne]
    exact hbytes _ (List.head_mem hne)
  have hlast : run.getLast?.any isNameByte = true := by
    rw [List.getLast?_eq_some_getLast hne]
    exact hbytes _ (List.getLast_mem hne)
  unfold validNameComponent
  rw [hhead, hlast, hscan]
  rfl

theorem ne_nil_of_start (bytes : Str) (h : bytes.head?.any isNameByte = true) : bytes ≠ [] := by
  intro hnil
  rw [hnil] at h
  cases h

theorem validNameComponent_join (run separator rest : Str) (hrun : IsRun run)
    (hseparator : Separator separator) (hrest : validNameComponent rest = true) :
    validNameComponent (run ++ separator ++ rest) = true := by
  unfold validNameComponent at hrest ⊢
  simp only [Bool.and_eq_true] at hrest ⊢
  obtain ⟨⟨hhead, hlast⟩, hscan⟩ := hrest
  obtain ⟨hne, hbytes⟩ := hrun
  have hrest := ne_nil_of_start rest hhead
  refine ⟨⟨?_, ?_⟩, ?_⟩
  · rw [List.append_assoc, List.head?_append_of_ne_nil _ hne, List.head?_eq_some_head hne]
    exact hbytes _ (List.head_mem hne)
  · rw [List.getLast?_append_of_ne_nil _ hrest]
    exact hlast
  · rw [List.append_assoc, separatorsAllowed_run run _ hbytes,
      separatorsAllowed_separator [] separator rest hseparator.not_nameByte, List.nil_append,
      separatorsAllowed_start separator rest hseparator.ne_nil hhead, hscan, Bool.and_true]
    exact (allowedSeparator_iff separator hseparator.ne_nil).mpr hseparator

theorem exists_front (p : UInt8 → Bool) (bytes : Str) :
    ∃ front rest, bytes = front ++ rest ∧ (∀ byte ∈ front, p byte = true) ∧
      ∀ byte ∈ rest.head?, p byte = false := by
  induction bytes with
  | nil => exact ⟨[], [], rfl, nofun, nofun⟩
  | cons byte bytes ih =>
    cases hbyte : p byte with
    | false =>
      refine ⟨[], byte :: bytes, rfl, nofun, fun b hb => ?_⟩
      cases hb
      exact hbyte
    | true =>
      obtain ⟨front, rest, rfl, hfront, hrest⟩ := ih
      exact ⟨byte :: front, rest, rfl, List.forall_mem_cons.mpr ⟨hbyte, hfront⟩, hrest⟩

theorem pathComponent_of_valid (n : Nat) (component : Str) (hn : component.length ≤ n)
    (h : validNameComponent component = true) : PathComponent component := by
  induction n generalizing component with
  | zero =>
    have hnil := List.length_eq_zero_iff.mp (Nat.le_zero.mp hn)
    rw [hnil] at h
    exact absurd h (by decide)
  | succ n ih =>
    unfold validNameComponent at h
    simp only [Bool.and_eq_true] at h
    obtain ⟨⟨hhead, hlast⟩, hscan⟩ := h
    obtain ⟨run, tail, rfl, hbytes, htail⟩ := exists_front isNameByte component
    have hrun : IsRun run := by
      refine ⟨fun hnil => ?_, hbytes⟩
      rw [hnil, List.nil_append] at hhead
      cases hfirst : tail.head? with
      | none => simp [hfirst] at hhead
      | some byte => simp [hfirst, htail byte hfirst] at hhead
    by_cases hend : tail = []
    · rw [hend, List.append_nil]
      exact PathComponent.run run hrun
    · obtain ⟨separator, rest, rfl, hseparator, hrest⟩ :=
        exists_front (fun byte => !isNameByte byte) tail
      have hnone : ∀ byte ∈ separator, isNameByte byte = false := fun byte hbyte => by
        simpa using hseparator byte hbyte
      have hne : separator ≠ [] := by
        intro hnil
        rw [hnil, List.nil_append] at hend htail
        have hfirst := List.head?_eq_some_head hend
        have hnot := htail _ hfirst
        have hyes := hrest _ hfirst
        simp [hnot] at hyes
      have hrestne : rest ≠ [] := by
        intro hnil
        rw [hnil, List.append_nil, List.getLast?_append_of_ne_nil _ hne,
          List.getLast?_eq_some_getLast hne] at hlast
        have hbyte : isNameByte (separator.getLast hne) = true := hlast
        rw [hnone _ (List.getLast_mem hne)] at hbyte
        cases hbyte
      have hstart : rest.head?.any isNameByte = true := by
        have hfirst := List.head?_eq_some_head hrestne
        have hyes := hrest _ hfirst
        rw [hfirst]
        simpa using hyes
      rw [separatorsAllowed_run run _ hbytes,
        separatorsAllowed_separator [] separator rest hnone, List.nil_append,
        separatorsAllowed_start separator rest hne hstart, Bool.and_eq_true] at hscan
      have hshorter : rest.length ≤ n := by
        have hpositive := List.length_pos_iff.mpr hrun.1
        rw [List.length_append, List.length_append] at hn
        omega
      have hvalid : validNameComponent rest = true := by
        rw [← List.append_assoc, List.getLast?_append_of_ne_nil _ hrestne] at hlast
        unfold validNameComponent
        rw [hstart, hlast, hscan.2]
        rfl
      rw [← List.append_assoc]
      exact PathComponent.join run separator rest hrun
        ((allowedSeparator_iff separator hne).mp hscan.1) (ih rest hshorter hvalid)

theorem validNameComponent_iff (component : Str) :
    validNameComponent component = true ↔ PathComponent component := by
  constructor
  · exact pathComponent_of_valid component.length component le_rfl
  · intro h
    induction h with
    | run run h => exact validNameComponent_of_run run h
    | join run separator rest hrun hseparator hrest ih =>
      exact validNameComponent_join run separator rest hrun hseparator ih

theorem PathComponent.ne_nil {component : Str} (h : PathComponent component) : component ≠ [] := by
  cases h with
  | run run h => exact h.1
  | join run separator rest hrun hseparator hrest =>
    rw [List.append_assoc]
    exact List.append_ne_nil_of_left_ne_nil hrun.1 _

theorem PathComponent.slash {component : Str} (h : PathComponent component) :
    0x2F ∉ component := by
  induction h with
  | run run hrun => exact fun hmem => absurd (hrun.2 _ hmem) (by decide)
  | join run separator rest hrun hseparator hrest ih =>
    have hrun' : 0x2F ∉ run := fun hmem => absurd (hrun.2 _ hmem) (by decide)
    have hseparator' : 0x2F ∉ separator := by
      cases hseparator with
      | dot => decide
      | underscore => decide
      | underscores => decide
      | dashes n => exact fun hmem => absurd (List.eq_of_mem_replicate hmem) (by decide)
    simp only [List.mem_append, not_or]
    exact ⟨⟨hrun', hseparator'⟩, ih⟩

theorem joinName_eq_some (components : List Str) (name : Str) :
    joinName components = some name ↔ components ≠ [] ∧
      (∀ component ∈ components, PathComponent component) ∧
      name = [0x2F].intercalate components ∧ name.length ≤ 255 := by
  unfold joinName
  split
  · rename_i hbad
    rw [Bool.or_eq_true, List.isEmpty_iff, Bool.not_eq_true', List.all_eq_false] at hbad
    constructor
    · exact nofun
    · intro h
      rcases hbad with hnil | ⟨component, hmem, hinvalid⟩
      · exact absurd hnil h.1
      · exact absurd ((validNameComponent_iff component).mpr (h.2.1 component hmem)) hinvalid
  · rename_i hgood
    rw [Bool.or_eq_true, List.isEmpty_iff, not_or, Bool.not_eq_true', Bool.not_eq_false,
      List.all_eq_true] at hgood
    have hcomponents : ∀ component ∈ components, PathComponent component := fun component hmem =>
      (validNameComponent_iff component).mp (hgood.2 component hmem)
    dsimp only
    split
    · rename_i hlength
      rw [Option.some.injEq]
      constructor
      · intro h
        exact ⟨hgood.1, hcomponents, h.symm, h ▸ hlength⟩
      · exact fun h => h.2.2.1.symm
    · rename_i hlength
      constructor
      · exact nofun
      · exact fun h => absurd (h.2.2.1 ▸ h.2.2.2) hlength

theorem joinName_repositoryName (components : List Str) (name : Str)
    (h : joinName components = some name) : RepositoryName name :=
  ⟨components, (joinName_eq_some components name).mp h⟩

theorem validTag_iff (tag : Str) : validTag tag = true ↔ IsTag tag := by
  cases tag with
  | nil =>
    constructor
    · exact nofun
    · intro h
      obtain ⟨first, rest, heq, _⟩ := h
      cases heq
  | cons first rest =>
    unfold validTag IsTag
    simp only [Bool.and_eq_true, Bool.or_eq_true, decide_eq_true_eq, beq_iff_eq, List.all_eq_true,
      List.length_cons]
    constructor
    · intro h
      obtain ⟨⟨hlength, hfirst⟩, hrest⟩ := h
      exact ⟨first, rest, rfl, hfirst, by omega, hrest⟩
    · intro h
      obtain ⟨first', rest', heq, hfirst, hlength, hrest⟩ := h
      cases heq
      exact ⟨⟨by omega, hfirst⟩, hrest⟩

theorem tagByte_of_first (byte : UInt8) (h : isAlphanumeric byte = true ∨ byte = 0x5F) :
    isTagByte byte = true := by
  unfold isTagByte
  rcases h with h | h
  · simp [h]
  · simp [h]

theorem PathComponent.bytes {component : Str} (h : PathComponent component) :
    ∀ byte ∈ component, isTagByte byte = true := by
  have hrun : ∀ run : Str, IsRun run → ∀ byte ∈ run, isTagByte byte = true := by
    intro run hrun byte hbyte
    exact tagByte_of_first byte (.inl (by rw [isAlphanumeric, hrun.2 byte hbyte]; rfl))
  induction h with
  | run run h => exact hrun run h
  | join run separator rest h hseparator hrest ih =>
    have hmiddle : ∀ byte ∈ separator, isTagByte byte = true := by
      cases hseparator with
      | dot => exact Str.forall_of_all (by decide)
      | underscore => exact Str.forall_of_all (by decide)
      | underscores => exact Str.forall_of_all (by decide)
      | dashes n =>
        intro byte hbyte
        rw [List.eq_of_mem_replicate hbyte]
        decide
    intro byte hbyte
    rcases List.mem_append.mp hbyte with hbyte | hbyte
    · rcases List.mem_append.mp hbyte with hbyte | hbyte
      · exact hrun run h byte hbyte
      · exact hmiddle byte hbyte
    · exact ih byte hbyte

theorem RepositoryName.bytes {name : Str} (h : RepositoryName name) :
    ∀ byte ∈ name, isTagByte byte = true ∨ byte = 0x2F := by
  obtain ⟨components, _, hcomponents, rfl, _⟩ := h
  intro byte hbyte
  rcases Str.mem_intercalate 0x2F byte components hbyte with hslash | ⟨component, hmem, hin⟩
  · exact .inr hslash
  · exact .inl ((hcomponents component hmem).bytes byte hin)

theorem IsTag.bytes {tag : Str} (h : IsTag tag) : ∀ byte ∈ tag, isTagByte byte = true := by
  obtain ⟨first, rest, rfl, hfirst, _, hrest⟩ := h
  exact List.forall_mem_cons.mpr ⟨tagByte_of_first first hfirst, hrest⟩

theorem Algorithm.bytes {algorithm : Str} (h : Algorithm algorithm) :
    algorithm ≠ [] ∧ ∀ byte ∈ algorithm, isAlgorithmByte byte = true := by
  have hrun : ∀ run : Str, IsRun run → ∀ byte ∈ run, isAlgorithmByte byte = true := by
    intro run hrun byte hbyte
    unfold isAlgorithmByte
    rw [hrun.2 byte hbyte]
    rfl
  induction h with
  | run run h => exact ⟨h.1, hrun run h⟩
  | join run separator rest h hseparator hrest ih =>
    have hall : ∀ byte ∈ str "+._-", isAlgorithmByte byte = true :=
      Str.forall_of_all (by decide)
    refine ⟨List.append_ne_nil_of_left_ne_nil h.1 _, fun byte hbyte => ?_⟩
    rcases List.mem_append.mp hbyte with hbyte | hbyte
    · exact hrun run h byte hbyte
    · rcases List.mem_cons.mp hbyte with heq | hbyte
      · exact heq ▸ hall separator hseparator
      · exact ih.2 byte hbyte

theorem parseDigest_eq_some (digest parsed : Str) :
    parseDigest digest = some parsed ↔ parsed = digest ∧ DigestShape digest := by
  unfold parseDigest
  constructor
  · intro h
    obtain ⟨⟨algorithm, encoded⟩, hsplit, hchecks⟩ := Option.bind_eq_some_iff.mp h
    simp only [Option.ite_none_right_eq_some, Option.some.injEq, Bool.and_eq_true,
      Bool.not_eq_true', List.isEmpty_eq_false_iff, List.all_eq_true] at hchecks
    obtain ⟨⟨halgorithm, hencoded⟩, heq⟩ := hchecks
    exact ⟨heq.symm, algorithm, encoded, Str.splitOnce_eq_some 0x3A _ _ _ hsplit, halgorithm.1,
      halgorithm.2, hencoded.1, hencoded.2⟩
  · intro h
    obtain ⟨rfl, algorithm, encoded, rfl, hne, halgorithm, hne', hencoded⟩ := h
    have hcolon : 0x3A ∉ algorithm := fun hmem => absurd (halgorithm _ hmem) (by decide)
    rw [Str.splitOnce_append 0x3A algorithm encoded hcolon, Option.bind_some]
    simp only [Option.ite_none_right_eq_some, Bool.and_eq_true, Bool.not_eq_true',
      List.isEmpty_eq_false_iff, List.all_eq_true]
    exact ⟨⟨⟨hne, halgorithm⟩, hne', hencoded⟩, trivial⟩

theorem IsDigest.shape {digest : Str} (h : IsDigest digest) (hlower : LowerCase digest) :
    DigestShape digest := by
  obtain ⟨algorithm, encoded, rfl, halgorithm, hne, hencoded⟩ := h
  obtain ⟨hne', hbytes⟩ := halgorithm.bytes
  refine ⟨algorithm, encoded, rfl, hne', hbytes, hne, fun byte hbyte => ?_⟩
  refine (hencoded byte hbyte).resolve_right fun hupper => ?_
  rw [hlower byte (List.mem_append_right _ (List.mem_cons_of_mem _ hbyte))] at hupper
  cases hupper

theorem DigestShape.bytes {digest : Str} (h : DigestShape digest) :
    0x3A ∈ digest ∧ 0x2F ∉ digest := by
  obtain ⟨algorithm, encoded, rfl, _, halgorithm, _, hencoded⟩ := h
  refine ⟨List.mem_append_right _ List.mem_cons_self, fun hmem => ?_⟩
  rcases List.mem_append.mp hmem with hmem | hmem
  · exact absurd (halgorithm _ hmem) (by decide)
  · rcases List.mem_cons.mp hmem with hmem | hmem
    · exact absurd hmem (by decide)
    · exact absurd (hencoded _ hmem) (by decide)

def Reference.Accepted : Reference → Prop
  | .tag name => IsTag name
  | .digest text => DigestShape text

theorem parseReference_digest (digest : Str) (h : DigestShape digest) :
    parseReference digest = some (.digest digest) := by
  unfold parseReference
  rw [if_pos h.bytes.1, (parseDigest_eq_some digest digest).mpr ⟨rfl, h⟩]
  rfl

theorem parseReference_tag (tag : Str) (h : IsTag tag) :
    parseReference tag = some (.tag tag) := by
  have hcolon : 0x3A ∉ tag := fun hmem => absurd (h.bytes _ hmem) (by decide)
  unfold parseReference
  rw [if_neg hcolon, if_pos ((validTag_iff tag).mpr h)]

theorem parseReference_accepted (text : Str) (reference : Reference)
    (h : parseReference text = some reference) : reference.Accepted := by
  unfold parseReference at h
  split at h
  · obtain ⟨digest, hdigest, rfl⟩ := Option.map_eq_some_iff.mp h
    obtain ⟨rfl, hshape⟩ := (parseDigest_eq_some text digest).mp hdigest
    exact hshape
  · split at h
    · rename_i hvalid
      cases h
      exact (validTag_iff text).mp hvalid
    · cases h

end Peryx.Oci
