import Peryx.Pypi.KeyIsolation
import Peryx.Pypi.SyncPublication

/-! # The keys of generations (store/mod.rs:63-116, store/projects.rs:37-47) -/

namespace Peryx.Pypi
open Storage

section Padding

def decimalValue (digits : Str) : Nat :=
  digits.foldl (fun value byte => 10 * value + (byte.toNat - 0x30)) 0

theorem decimalValue_digits (digits : List Char) (h : ∀ c ∈ digits, c.isDigit) (value : Nat) :
    (digits.map fun c => UInt8.ofNat c.toNat).foldl
      (fun value byte => 10 * value + (byte.toNat - 0x30)) value =
      Nat.ofDigitChars 10 digits value := by
  induction digits generalizing value with
  | nil => rfl
  | cons c digits ih =>
    rw [List.map_cons, List.foldl_cons, Nat.ofDigitChars_cons,
      (Str.utf8EncodeChar_digit c (h c List.mem_cons_self)).2.1]
    exact ih (fun d hd => h d (List.mem_cons_of_mem _ hd)) _

theorem decimalValue_padded (n : Nat) : decimalValue (paddedGeneration n) = n := by
  have hzeros : ∀ count : Nat, (List.replicate count (0x30 : UInt8)).foldl
      (fun value byte => 10 * value + (byte.toNat - 0x30)) 0 = 0 := by
    intro count
    induction count with
    | zero => rfl
    | succ count ih => exact ih
  unfold decimalValue paddedGeneration
  rw [List.foldl_append, hzeros, Str.str_toString, Str.flatMap_digits _ (Str.toDigits_isDigit n),
    decimalValue_digits _ (Str.toDigits_isDigit n)]
  exact Nat.ofDigitChars_toDigits (by decide) (by decide)

theorem slash_not_mem_padded (n : Nat) : 0x2F ∉ paddedGeneration n := by
  unfold paddedGeneration
  rw [Str.str_toString, Str.flatMap_digits _ (Str.toDigits_isDigit n)]
  intro hmem
  rcases List.mem_append.mp hmem with hmem | hmem
  · exact absurd (List.eq_of_mem_replicate hmem) (by decide)
  · obtain ⟨c, hc, heq⟩ := List.mem_map.mp hmem
    exact (Str.utf8EncodeChar_digit c (Str.toDigits_isDigit n c hc)).2.2 heq

theorem segment_inj (a b : Str) (ha : 0x2F ∉ a) (hb : 0x2F ∉ b) (key : Str)
    (h : a ++ str "/" <+: key) (h' : b ++ str "/" <+: key) : a = b := by
  have hslash : str "/" = [0x2F] := rfl
  rw [hslash] at h h'
  obtain ⟨rest, hrest⟩ := h
  obtain ⟨rest', hrest'⟩ := h'
  have hsplit : ∀ (segment rest : Str), 0x2F ∉ segment →
      (segment ++ [0x2F] ++ rest).takeWhile (· != 0x2F) = segment := by
    intro segment rest hsegment
    rw [List.append_assoc, List.takeWhile_append_of_pos]
    · simp
    · intro byte hbyte
      rw [bne_iff_ne]
      rintro rfl
      exact hsegment hbyte
  rw [← hsplit a rest ha, ← hsplit b rest' hb, hrest, hrest']

theorem padded_apart (start : Str) (generation other : Nat) (key : Str)
    (h : start ++ paddedGeneration generation ++ str "/" <+: key)
    (h' : start ++ paddedGeneration other ++ str "/" <+: key) : generation = other := by
  rw [List.append_assoc] at h h'
  obtain ⟨rest, rfl⟩ := (List.prefix_append start _).trans h
  have heq := segment_inj _ _ (slash_not_mem_padded generation) (slash_not_mem_padded other) rest
    ((List.prefix_append_right_inj start).mp h) ((List.prefix_append_right_inj start).mp h')
  rw [← decimalValue_padded generation, heq, decimalValue_padded]

end Padding

section Catalog
variable (table : CaseMap) {json : GenerationJson} (index : Str)

theorem catalogGenerationPrefix_eq (generation : Nat) : catalogGenerationPrefix index generation =
    catalogRowsPrefix ++ (index ++ str "/") ++ paddedGeneration generation ++ str "/" := by
  simp only [catalogGenerationPrefix, List.append_assoc]

theorem prefix_length_ne (a b rest key : Str) (hlength : a.length = b.length) (hne : a ≠ b) :
    ¬ a ++ rest <+: b ++ key := by
  intro h
  obtain ⟨tail, htail⟩ := (List.prefix_append a rest).trans h
  exact hne (List.append_inj_left htail hlength)

theorem catalogSpace_lawful (hjson : json.Faithful) : (catalogSpace json index).Lawful where
  decode_encode := hjson.catalogState
  apart generation other key h h' := by
    refine padded_apart (catalogRowsPrefix ++ (index ++ str "/")) generation other key ?_ ?_
    · rw [← catalogGenerationPrefix_eq]
      exact h
    · rw [← catalogGenerationPrefix_eq]
      exact h'
  state_apart generation := prefix_length_ne _ _ _ _ rfl (by decide)

theorem insertProjects_append (generation : Nat) (rows : Rows) (projects more : List (Str × Str)) :
    (insertProjects index generation rows (projects ++ more)).2 =
      (insertProjects index generation (insertProjects index generation rows projects).2 more).2 := by
  induction projects generalizing rows with
  | nil => rfl
  | cons project projects ih =>
    obtain ⟨normalized, display⟩ := project
    simp only [List.cons_append, insertProjects]
    cases rows[catalogProjectKey index generation normalized]? with
    | none => exact ih _
    | some current =>
      dsimp only
      split
      · exact ih _
      · exact ih _

theorem insertProjects_frame (generation : Nat) (rows : Rows) (projects : List (Str × Str))
    (key : Str) (h : ¬ catalogGenerationPrefix index generation <+: key) :
    (insertProjects index generation rows projects).2[key]? = rows[key]? := by
  induction projects generalizing rows with
  | nil => rfl
  | cons project projects ih =>
    obtain ⟨normalized, display⟩ := project
    have hset : (rows.insert (catalogProjectKey index generation normalized) display)[key]? =
        rows[key]? := by
      refine Table.getElem?_set_of_ne rows _ key (some display) ?_
      rintro rfl
      exact h (List.prefix_append _ _)
    simp only [insertProjects]
    cases rows[catalogProjectKey index generation normalized]? with
    | none => exact (ih _).trans hset
    | some current =>
      dsimp only
      split
      · exact (ih _).trans hset
      · exact ih _

theorem insertProjects_local (generation : Nat) (rows other : Rows) (projects : List (Str × Str))
    (h : Table.AgreeOn (fun key => catalogGenerationPrefix index generation <+: key) rows other) :
    Table.AgreeOn (fun key => catalogGenerationPrefix index generation <+: key)
      (insertProjects index generation rows projects).2
      (insertProjects index generation other projects).2 := by
  induction projects generalizing rows other with
  | nil => exact h
  | cons project projects ih =>
    obtain ⟨normalized, display⟩ := project
    have hset := h.set (catalogProjectKey index generation normalized) (some display)
    simp only [insertProjects]
    rw [← h (catalogProjectKey index generation normalized) (List.prefix_append _ _)]
    cases rows[catalogProjectKey index generation normalized]? with
    | none => exact ih _ _ hset
    | some current =>
      dsimp only
      split
      · exact ih _ _ hset
      · exact ih _ _ h

theorem catalogKind_lawful (hjson : json.Faithful) : (catalogKind table json index).Lawful where
  space := catalogSpace_lawful index hjson
  number_build _ _ _ := rfl
  number_revalidated _ _ _ _ := rfl
  insert_nil _ _ _ := rfl
  insert_append _ generation rows items more :=
    insertProjects_append index generation rows items more
  insert_frame _ generation rows items key _ hkey :=
    insertProjects_frame index generation rows items key hkey
  insert_local _ generation rows other items h :=
    insertProjects_local index generation rows other items h

end Catalog

section Project
variable (table : CaseMap) (pep : Pep440) (parseUploadTime : Str → Option Int)
  {json : GenerationJson} (index normalized : Str)

theorem projectGenerationPrefix_eq (generation : Nat) :
    projectGenerationPrefix index normalized generation =
      projectFilePrefix ++ (projectSuffix index normalized ++ str "/") ++
        paddedGeneration generation ++ str "/" := by
  simp only [projectGenerationPrefix, List.append_assoc]

theorem projectSpace_lawful (hjson : json.Faithful) : (projectSpace json index normalized).Lawful where
  decode_encode state := by
    show (json.readProjectState (json.projectState state.projectMetaState)).map _ = _
    rw [hjson.projectState]
    rfl
  apart generation other key h h' := by
    refine padded_apart (projectFilePrefix ++ (projectSuffix index normalized ++ str "/"))
      generation other key ?_ ?_
    · rw [← projectGenerationPrefix_eq]
      exact h
    · rw [← projectGenerationPrefix_eq]
      exact h'
  state_apart generation := prefix_length_ne _ _ _ _ rfl (by decide)

theorem registerFileRows_frame (rows : Rows) (source : Str) (upstream : Option Str) (file : File)
    (key : Str) (howns : (projectSpace json index normalized).Owns key) :
    (registerFileRows rows source upstream file)[key]? = rows[key]? := by
  have hapart : ∀ start digest : Str, start ∈ [filePrefix, metadataPrefix] →
      start ++ digest ≠ key := by
    rintro start digest hstart rfl
    have hfacts : ∀ start ∈ [filePrefix, metadataPrefix], start.length = 7 ∧
        projectMetaPrefix ≠ start ∧ projectFilePrefix ≠ start := by decide
    obtain ⟨hlength, hmeta, hfiles⟩ := hfacts start hstart
    rcases howns with heq | ⟨generation, hunder⟩
    · have hinj : start = projectMetaPrefix := by
        refine List.append_inj_left heq ?_
        rw [hlength]
        rfl
      exact hmeta hinj.symm
    · exact prefix_length_ne projectFilePrefix start _ digest (by rw [hlength]; rfl) hfiles hunder
  unfold registerFileRows
  cases file.sha256 with
  | none => rfl
  | some sha256 =>
    dsimp only
    have hfile : ∀ value, (rows.insert (fileKey sha256) value)[key]? = rows[key]? := fun value =>
      Table.getElem?_set_of_ne rows (fileKey sha256) key (some value)
        (hapart filePrefix sha256 (by decide))
    cases claimedMetadata file with
    | none => exact hfile _
    | some digest =>
      refine (Table.getElem?_set_of_ne _ (metadataKey sha256) key (some _) ?_).trans (hfile _)
      exact hapart metadataPrefix sha256 (by decide)

theorem insertFiles_append (generation : Nat) (source : Str) (upstream : Option Str) (rows : Rows)
    (files more : List File) :
    (insertFiles json.toRowJson index normalized generation source upstream rows (files ++ more)).2 =
      (insertFiles json.toRowJson index normalized generation source upstream
        (insertFiles json.toRowJson index normalized generation source upstream rows files).2 more).2 := by
  induction files generalizing rows with
  | nil => rfl
  | cons file files ih =>
    simp only [List.cons_append, insertFiles]
    cases rows[projectFileKey index normalized generation file.filename]? with
    | none => exact ih _
    | some current => exact ih _

theorem insertFiles_frame (generation : Nat) (source : Str) (upstream : Option Str) (rows : Rows)
    (files : List File) (key : Str) (howns : (projectSpace json index normalized).Owns key)
    (h : ¬ projectGenerationPrefix index normalized generation <+: key) :
    (insertFiles json.toRowJson index normalized generation source upstream rows files).2[key]? =
      rows[key]? := by
  induction files generalizing rows with
  | nil => rfl
  | cons file files ih =>
    simp only [insertFiles]
    cases rows[projectFileKey index normalized generation file.filename]? with
    | none =>
      refine (ih _).trans ((registerFileRows_frame index normalized _ source upstream file key
        howns).trans ?_)
      refine Table.getElem?_set_of_ne rows _ key (some _) ?_
      rintro rfl
      exact h (List.prefix_append _ _)
    | some current => exact ih _

theorem insertFiles_local (generation : Nat) (source : Str) (upstream : Option Str)
    (rows other : Rows) (files : List File)
    (h : Table.AgreeOn (fun key => projectGenerationPrefix index normalized generation <+: key)
      rows other) :
    Table.AgreeOn (fun key => projectGenerationPrefix index normalized generation <+: key)
      (insertFiles json.toRowJson index normalized generation source upstream rows files).2
      (insertFiles json.toRowJson index normalized generation source upstream other files).2 := by
  induction files generalizing rows other with
  | nil => exact h
  | cons file files ih =>
    simp only [insertFiles]
    rw [← h (projectFileKey index normalized generation file.filename) (List.prefix_append _ _)]
    cases rows[projectFileKey index normalized generation file.filename]? with
    | none =>
      refine ih _ _ fun key hkey => ?_
      have howns : (projectSpace json index normalized).Owns key := .inr ⟨generation, hkey⟩
      rw [registerFileRows_frame index normalized _ source upstream file key howns,
        registerFileRows_frame index normalized _ source upstream file key howns]
      exact h.set (projectFileKey index normalized generation file.filename) (some (json.file file))
        key hkey
    | some current => exact ih _ _ h

theorem projectKind_lawful (hjson : json.Faithful) (policy : Policy) :
    (projectKind table json pep parseUploadTime index normalized policy).Lawful where
  space := projectSpace_lawful index normalized hjson
  number_build _ _ _ := rfl
  number_revalidated _ _ _ _ := rfl
  insert_nil _ _ _ := rfl
  insert_append head generation rows items more :=
    insertFiles_append index normalized generation head.source none rows items more
  insert_frame head generation rows items key howns hkey :=
    insertFiles_frame index normalized generation head.source none rows items key howns hkey
  insert_local head generation rows other items h :=
    insertFiles_local index normalized generation head.source none rows other items h

end Project

section Others
variable {ε α : Type} {foot kept : Str → Prop}

theorem within_others {p : Calls ε α} (h : Within foot p) (hapart : ∀ key, foot key → ¬ kept key) :
    p.run.Always fun write => ∀ disk, Disk.Others kept disk (write disk) := by
  have hprog : ∀ {β : Type} (q : Prog Disk β), q.Confined (Disk.Same foot) (Disk.Kept foot) →
      q.Always fun write => ∀ disk, Disk.Others kept disk (write disk) := by
    intro β q hq
    induction q with
    | done b => trivial
    | step write next ih =>
      obtain ⟨hkept, -, hnext⟩ := hq
      exact ⟨fun disk key hkey => hkept disk key fun hfoot => hapart key hfoot hkey,
        fun disk => ih disk (hnext disk)⟩
  exact hprog p.run h

variable (json : PageJson) (uploads : UploadJson) (recordVersion : Bytes → Option Str)

theorem projectCall_catalog (place : Place) (index : Str) (call : Calls ε α)
    (hcall : ProjectCall json uploads recordVersion place call) : call.run.Always fun write =>
      ∀ disk, Disk.Others (catalogSpace json.toGenerationJson index).Owns disk (write disk) := by
  refine within_others (projectCall_within json place uploads recordVersion call hcall) ?_
  rintro key ⟨start, rest, rfl, hstart⟩ howns
  have hfacts : ∀ start ∈ rowPrefixes ++ scanPrefixes ++ digestPrefixes, start.length = 7 ∧
      catalogPrefix ≠ start ∧ catalogRowsPrefix ≠ start := by decide
  obtain ⟨hlength, hstate, hrows⟩ := hfacts start (by
    rcases hstart with ⟨h, -⟩ | ⟨h, -⟩ | h <;> simp only [List.mem_append, h, true_or, or_true])
  rcases howns with heq | ⟨generation, hunder⟩
  · have hinj : start = catalogPrefix := by
      refine List.append_inj_left heq ?_
      rw [hlength]
      rfl
    exact hstate hinj.symm
  · exact prefix_length_ne catalogRowsPrefix start _ rest (by rw [hlength]; rfl) hrows hunder

end Others
end Peryx.Pypi
