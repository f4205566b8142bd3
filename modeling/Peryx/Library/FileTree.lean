import Peryx.Core.Text
import Peryx.Library.Table

/-!
# A tree of files

Files and directories by their path from the root.
-/

namespace Peryx

inductive FileNode
  | file (bytes : List UInt8)
  | directory
deriving DecidableEq

def FileNode.bytes? : FileNode → Option (List UInt8)
  | .file bytes => some bytes
  | .directory => none

abbrev FilePath := List (List UInt8)

structure FileTree where
  entries : Table FilePath FileNode
  parents : ∀ (path : FilePath) (node : FileNode), entries[path]? = some node →
    ∀ start : FilePath, start <+: path → start ≠ path → entries[start]? = some .directory

namespace FileTree

theorem getElem?_insert (entries : Table FilePath FileNode) (path other : FilePath) (node : FileNode) :
    (entries.insert path node)[other]? = if path = other then some node else entries[other]? :=
  Table.getElem?_set entries path other (some node)

def empty : FileTree := ⟨∅, fun path node h => by simp at h⟩

variable (tree : FileTree) (path : FilePath)

def readFile : Option (List UInt8) := tree.entries[path]?.bind FileNode.bytes?

def exist : Bool := tree.entries[path]?.isSome

def isDir : Bool := tree.entries[path]? == some .directory

def below (path other : FilePath) : Bool := path.isPrefixOf other && path != other

def isEmptyDir : Bool := tree.entries.keys.all fun other => !below path other

theorem isDir_iff : tree.isDir path = true ↔ tree.entries[path]? = some .directory := by
  unfold isDir
  exact beq_iff_eq

theorem exist_of_isDir (h : tree.isDir path = true) : tree.exist path = true := by
  unfold exist
  rw [(tree.isDir_iff path).mp h]
  rfl

theorem below_iff (other : FilePath) : below path other = true ↔ path <+: other ∧ path ≠ other := by
  unfold below
  rw [Bool.and_eq_true, List.isPrefixOf_iff_prefix, bne_iff_ne]

def put (node : FileNode) (hparents : ∀ start, start <+: path → start ≠ path → tree.isDir start = true)
    (hover : tree.isDir path = false) : FileTree where
  entries := tree.entries.insert path node
  parents := by
    intro other found hfound start hstart hne
    rw [getElem?_insert] at hfound ⊢
    have hnot : path ≠ start := by
      intro heq
      subst heq
      rw [if_neg hne] at hfound
      have hdir := (tree.isDir_iff path).mpr (tree.parents other found hfound path hstart hne)
      rw [hover] at hdir
      exact absurd hdir (by decide)
    rw [if_neg hnot]
    split at hfound
    · rename_i heq
      subst heq
      exact (tree.isDir_iff start).mp (hparents start hstart hne)
    · exact tree.parents other found hfound start hstart hne

theorem parents_of_dropLast (h : path = [] ∨ tree.isDir path.dropLast = true) :
    ∀ start, start <+: path → start ≠ path → tree.isDir start = true := by
  intro start hstart hne
  obtain rfl | hdir := h
  · exact absurd (List.prefix_nil.mp hstart) hne
  · have hdirect : start <+: path.dropLast := by
      obtain ⟨rest, rfl⟩ := hstart
      have hrest : rest ≠ [] := fun heq => hne (by rw [heq, List.append_nil])
      rw [List.dropLast_append_of_ne_nil hrest]
      exact List.prefix_append start _
    by_cases heq : start = path.dropLast
    · rw [heq]
      exact hdir
    · rw [isDir_iff] at hdir ⊢
      exact tree.parents _ _ hdir start hdirect heq

/-- `mkdir`, and nothing where the directory is there. -/
def ensureDir (tree : FileTree) (path : FilePath) : Option FileTree :=
  if hdir : tree.isDir path = true then some tree
  else if h : tree.exist path = false ∧ (path = [] ∨ tree.isDir path.dropLast = true) then
    some (tree.put path .directory (tree.parents_of_dropLast path h.2) (Bool.eq_false_of_not_eq_true hdir))
  else none

def createDirAll : Option FileTree := path.inits.foldlM ensureDir tree

/-- `File::create`, and the bytes written to it. -/
def createFile (bytes : List UInt8) : Option FileTree :=
  if h : tree.isDir path = false ∧ path ≠ [] ∧ tree.isDir path.dropLast = true then
    some (tree.put path (.file bytes) (tree.parents_of_dropLast path (Or.inr h.2.2)) h.1)
  else none

def removeAll : FileTree where
  entries := tree.entries.filter fun other _ => !path.isPrefixOf other
  parents := by
    intro other node hnode start hstart hne
    rw [Std.ExtTreeMap.getElem?_filter', Option.filter_eq_some_iff] at hnode ⊢
    refine ⟨tree.parents other node hnode.1 start hstart hne, ?_⟩
    have hout := hnode.2
    rw [Bool.not_eq_true', Bool.eq_false_iff, ne_eq, List.isPrefixOf_iff_prefix] at hout ⊢
    exact fun hunder => hout (hunder.trans hstart)

def enter (path : FilePath) (component : List UInt8) : FilePath :=
  if component = [] ∨ component = [0x2E] then path
  else if component = [0x2E, 0x2E] then path.dropLast
  else path ++ [component]

def follow (tree : FileTree) (path : FilePath) (components : List (List UInt8)) : Option FilePath :=
  components.foldlM (fun path component =>
    if tree.isDir path then some (enter path component) else none) path

/-- `Path::join` with a path text, as the system resolves it. -/
def resolve (root : FilePath) (text : List UInt8) : Option FilePath :=
  if 0x00 ∈ text then none
  else tree.follow (if [0x2F].isPrefixOf text then [] else root) (text.splitOn 0x2F)

def readAt (root : FilePath) (text : List UInt8) : Option (List UInt8) :=
  (tree.resolve root text).bind tree.readFile

variable {tree path}

theorem readFile_eq_some (bytes : List UInt8) :
    tree.readFile path = some bytes ↔ tree.entries[path]? = some (.file bytes) := by
  unfold readFile
  cases tree.entries[path]? with
  | none => simp
  | some node => cases node <;> simp [FileNode.bytes?]

theorem readFile_below (other : FilePath) (hdir : tree.isDir path = false)
    (hbelow : below path other = true) : tree.readFile other = none := by
  obtain ⟨hunder, hne⟩ := (below_iff path other).mp hbelow
  cases hread : tree.readFile other with
  | none => rfl
  | some bytes =>
    have hparent := tree.parents other _ ((readFile_eq_some bytes).mp hread) path hunder hne
    rw [← isDir_iff, hdir] at hparent
    exact absurd hparent (by decide)

theorem readFile_isEmptyDir (other : FilePath) (hempty : tree.isEmptyDir path = true)
    (hbelow : below path other = true) : tree.readFile other = none := by
  cases hread : tree.readFile other with
  | none => rfl
  | some bytes =>
    have hkey : other ∈ tree.entries.keys := by
      rw [Std.ExtTreeMap.mem_keys, Std.ExtTreeMap.mem_iff_isSome_getElem?,
        (readFile_eq_some bytes).mp hread]
      rfl
    have hnot := List.all_eq_true.mp hempty other hkey
    rw [hbelow] at hnot
    exact absurd hnot (by decide)

/-- Two trees with the same files, the second with the directories of the first and more. -/
structure Grows (tree tree' : FileTree) : Prop where
  files : ∀ path, tree'.readFile path = tree.readFile path
  dirs : ∀ path, tree.isDir path = true → tree'.isDir path = true

theorem Grows.refl (tree : FileTree) : Grows tree tree := ⟨fun _ => rfl, fun _ h => h⟩

theorem Grows.trans {a b c : FileTree} (hab : Grows a b) (hbc : Grows b c) : Grows a c :=
  ⟨fun path => (hbc.files path).trans (hab.files path), fun path h => hbc.dirs path (hab.dirs path h)⟩

theorem ensureDir_grows (tree' : FileTree) (h : tree.ensureDir path = some tree') :
    Grows tree tree' ∧ tree'.isDir path = true := by
  unfold ensureDir at h
  split at h
  · rename_i hdir
    obtain rfl := Option.some.inj h
    exact ⟨Grows.refl tree, hdir⟩
  · split at h
    · rename_i hnew
      obtain rfl := Option.some.inj h
      have hnone : tree.entries[path]? = none := by
        have hnot := hnew.1
        unfold exist at hnot
        rwa [Option.isSome_eq_false_iff, Option.isNone_iff_eq_none] at hnot
      refine ⟨⟨fun other => ?_, fun other hother => ?_⟩, ?_⟩
      · by_cases heq : path = other
        · subst heq
          simp [readFile, put, hnone, FileNode.bytes?]
        · simp only [readFile, put, getElem?_insert, if_neg heq]
      · rw [isDir_iff] at hother ⊢
        simp only [put, getElem?_insert]
        split
        · rfl
        · exact hother
      · rw [isDir_iff]
        simp only [put, getElem?_insert, if_pos]
    · exact absurd h (Option.some_ne_none _ ∘ Eq.symm)

theorem foldlM_ensureDir_grows (paths : List FilePath) (tree tree' : FileTree)
    (h : paths.foldlM ensureDir tree = some tree') :
    Grows tree tree' ∧ ∀ path ∈ paths, tree'.isDir path = true := by
  induction paths generalizing tree with
  | nil =>
    obtain rfl := Option.some.inj h
    exact ⟨Grows.refl tree, by simp⟩
  | cons first paths ih =>
    rw [List.foldlM_cons] at h
    obtain ⟨mid, hfirst, hrest⟩ := Option.bind_eq_some_iff.mp h
    obtain ⟨hgrows, hdir⟩ := ensureDir_grows mid hfirst
    obtain ⟨hgrows', hdirs⟩ := ih mid hrest
    refine ⟨hgrows.trans hgrows', ?_⟩
    rw [List.forall_mem_cons]
    exact ⟨hgrows'.dirs first hdir, hdirs⟩

theorem createDirAll_grows (tree' : FileTree) (h : tree.createDirAll path = some tree') :
    Grows tree tree' ∧ ∀ start, start <+: path → tree'.isDir start = true := by
  obtain ⟨hgrows, hdirs⟩ := foldlM_ensureDir_grows path.inits tree tree' h
  exact ⟨hgrows, fun start hstart => hdirs start ((List.mem_inits start path).mpr hstart)⟩

/-- Two trees with the same files up to one path, the second with the directories of the first. -/
structure Writes (tree tree' : FileTree) (path : FilePath) (bytes : List UInt8) : Prop where
  written : tree'.readFile path = some bytes
  others : ∀ other, other ≠ path → tree'.readFile other = tree.readFile other
  dirs : ∀ other, tree.isDir other = true → tree'.isDir other = true

theorem createFile_writes (bytes : List UInt8) (tree' : FileTree)
    (h : tree.createFile path bytes = some tree') : Writes tree tree' path bytes := by
  unfold createFile at h
  split at h
  · rename_i hok
    obtain rfl := Option.some.inj h
    refine ⟨?_, fun other hne => ?_, fun other hdir => ?_⟩
    · simp [readFile, put, FileNode.bytes?]
    · simp only [readFile, put, getElem?_insert, if_neg (Ne.symm hne)]
    · have hne : path ≠ other := by
        intro heq
        rw [heq, hdir] at hok
        exact absurd hok.1 (by decide)
      rw [isDir_iff] at hdir ⊢
      simp only [put, getElem?_insert, if_neg hne]
      exact hdir
  · exact absurd h (Option.some_ne_none _ ∘ Eq.symm)

theorem createFile_over (bytes bytes' : List UInt8) (hread : tree.readFile path = some bytes)
    (hne : path ≠ []) : ∃ tree', tree.createFile path bytes' = some tree' := by
  have hentry := (readFile_eq_some bytes).mp hread
  have hfile : tree.isDir path = false := by
    unfold isDir
    rw [hentry]
    rfl
  have hparent : tree.isDir path.dropLast = true := by
    refine (tree.isDir_iff _).mpr (tree.parents path _ hentry _ (List.dropLast_prefix path) fun heq => ?_)
    have hlength := congrArg List.length heq
    rw [List.length_dropLast] at hlength
    have hpos := List.length_pos_iff.mpr hne
    omega
  unfold createFile
  rw [dif_pos ⟨hfile, hne, hparent⟩]
  exact ⟨_, rfl⟩

theorem isDir_createFile (bytes : List UInt8) (tree' : FileTree)
    (h : tree.createFile path bytes = some tree') (other : FilePath) :
    tree'.isDir other = tree.isDir other := by
  unfold createFile at h
  split at h
  · rename_i hok
    obtain rfl := Option.some.inj h
    by_cases heq : path = other
    · subst heq
      rw [hok.1]
      simp [isDir, put]
    · simp only [isDir, put, getElem?_insert, if_neg heq]
  · exact absurd h (Option.some_ne_none _ ∘ Eq.symm)

theorem resolve_congr {tree' : FileTree} (h : ∀ path, tree'.isDir path = tree.isDir path)
    (root : FilePath) (text : List UInt8) : tree'.resolve root text = tree.resolve root text := by
  unfold resolve follow
  simp only [h]

theorem follow_some (components : List (List UInt8)) (start target : FilePath)
    (h : tree.follow start components = some target) : target = components.foldl enter start := by
  induction components generalizing start with
  | nil => exact (Option.some.inj h).symm
  | cons component components ih =>
    unfold follow at h
    rw [List.foldlM_cons] at h
    obtain ⟨next, hnext, hrest⟩ := Option.bind_eq_some_iff.mp h
    split at hnext
    · obtain rfl := Option.some.inj hnext
      exact ih _ hrest
    · cases hnext

theorem resolve_unique {tree' : FileTree} (root target target' : FilePath) (text : List UInt8)
    (h : tree.resolve root text = some target) (h' : tree'.resolve root text = some target') :
    target = target' := by
  unfold resolve at h h'
  split at h
  · cases h
  · rename_i hzero
    rw [if_neg hzero] at h'
    rw [follow_some _ _ _ h, follow_some _ _ _ h']

theorem Grows.writes {a b c : FileTree} {bytes : List UInt8} (hab : Grows a b)
    (hbc : Writes b c path bytes) : Writes a c path bytes :=
  ⟨hbc.written, fun other hne => (hbc.others other hne).trans (hab.files other),
    fun other hdir => hbc.dirs other (hab.dirs other hdir)⟩

theorem Writes.again {a b c : FileTree} {bytes bytes' : List UInt8} (hab : Writes a b path bytes)
    (hbc : Writes b c path bytes') : Writes a c path bytes' :=
  ⟨hbc.written, fun other hne => (hbc.others other hne).trans (hab.others other hne),
    fun other hdir => hbc.dirs other (hab.dirs other hdir)⟩

theorem readFile_removeAll (other : FilePath) : (tree.removeAll path).readFile other =
    if path <+: other then none else tree.readFile other := by
  unfold readFile removeAll
  simp only [Std.ExtTreeMap.getElem?_filter']
  by_cases hunder : path <+: other
  · have hout : path.isPrefixOf other = true := List.isPrefixOf_iff_prefix.mpr hunder
    rw [if_pos hunder, hout]
    cases tree.entries[other]? <;> rfl
  · have hkeep : path.isPrefixOf other = false := by
      rw [Bool.eq_false_iff, ne_eq, List.isPrefixOf_iff_prefix]
      exact hunder
    rw [if_neg hunder, hkeep]
    cases tree.entries[other]? <;> rfl

def Plain (component : List UInt8) : Prop :=
  component ≠ [] ∧ component ≠ [0x2E] ∧ component ≠ [0x2E, 0x2E]

instance (component : List UInt8) : Decidable (Plain component) :=
  inferInstanceAs (Decidable (_ ∧ _))

theorem enter_plain (component : List UInt8) (h : Plain component) :
    enter path component = path ++ [component] := by
  obtain ⟨hne, hdot, hdots⟩ := h
  simp [enter, hne, hdot, hdots]

theorem follow_eq_some (components : List (List UInt8)) (target : FilePath)
    (hplain : ∀ component ∈ components, Plain component)
    (h : tree.follow path components = some target) : target = path ++ components := by
  rw [follow_some components path target h]
  clear h
  induction components generalizing path with
  | nil => exact (List.append_nil path).symm
  | cons component components ih =>
    obtain ⟨hfirst, hrest⟩ := List.forall_mem_cons.mp hplain
    rw [List.foldl_cons, enter_plain component hfirst, ih hrest, List.append_assoc, List.singleton_append]

theorem follow_plain (components : List (List UInt8))
    (hplain : ∀ component ∈ components, Plain component)
    (hdirs : ∀ start, start <+: components → start ≠ components → tree.isDir (path ++ start) = true) :
    tree.follow path components = some (path ++ components) := by
  induction components generalizing path with
  | nil => rw [List.append_nil]; rfl
  | cons component components ih =>
    obtain ⟨hfirst, hrest⟩ := List.forall_mem_cons.mp hplain
    have hhere : tree.isDir path = true := by
      have hdir := hdirs [] List.nil_prefix (by simp)
      rwa [List.append_nil] at hdir
    have hnext := @ih (path ++ [component]) hrest
    rw [List.append_assoc, List.singleton_append] at hnext
    unfold follow at hnext ⊢
    rw [List.foldlM_cons, if_pos hhere, enter_plain component hfirst]
    refine hnext fun start hstart hne => ?_
    rw [List.append_assoc, List.singleton_append]
    refine hdirs (component :: start) (List.cons_prefix_cons.mpr ⟨rfl, hstart⟩) ?_
    exact fun heq => hne (List.cons.inj heq).2

/-- A path text of plain components, none of them with a slash or a zero byte in it. -/
structure PlainText (components : List (List UInt8)) : Prop where
  ne_nil : components ≠ []
  plain : ∀ component ∈ components, Plain component
  no_slash : ∀ component ∈ components, 0x2F ∉ component
  no_zero : ∀ component ∈ components, 0x00 ∉ component

theorem PlainText.not_absolute (components : List (List UInt8)) (h : PlainText components) :
    [0x2F].isPrefixOf ([0x2F].intercalate components) = false := by
  obtain ⟨first, rest, rfl⟩ := List.exists_cons_of_ne_nil h.ne_nil
  have hplain := h.plain first List.mem_cons_self
  have hslash := h.no_slash first List.mem_cons_self
  obtain ⟨byte, bytes, rfl⟩ := List.exists_cons_of_ne_nil hplain.1
  have hbyte : (0x2F == byte) = false := by
    simp only [List.mem_cons, not_or] at hslash
    simpa using hslash.1
  cases rest with
  | nil => rw [List.intercalate_singleton, List.isPrefixOf, hbyte, Bool.false_and]
  | cons second rest =>
    rw [List.intercalate_cons_cons, List.append_assoc, List.cons_append, List.isPrefixOf, hbyte,
      Bool.false_and]

theorem PlainText.not_mem_zero (components : List (List UInt8)) (h : PlainText components) :
    0x00 ∉ [0x2F].intercalate components := by
  intro hmem
  obtain hslash | ⟨component, hcomponent, hzero⟩ := Str.mem_intercalate 0x2F 0x00 components hmem
  · exact absurd hslash (by decide)
  · exact h.no_zero component hcomponent hzero

theorem resolve_eq_some (root target : FilePath) (components : List (List UInt8))
    (hplain : PlainText components)
    (h : tree.resolve root ([0x2F].intercalate components) = some target) :
    target = root ++ components := by
  unfold resolve at h
  rw [if_neg (hplain.not_mem_zero components), hplain.not_absolute components,
    List.splitOn_intercalate 0x2F hplain.no_slash hplain.ne_nil] at h
  exact follow_eq_some components target hplain.plain h

theorem resolve_plain (root : FilePath) (components : List (List UInt8)) (hplain : PlainText components)
    (hdirs : ∀ start, start <+: components → start ≠ components → tree.isDir (root ++ start) = true) :
    tree.resolve root ([0x2F].intercalate components) = some (root ++ components) := by
  unfold resolve
  rw [if_neg (hplain.not_mem_zero components), hplain.not_absolute components,
    List.splitOn_intercalate 0x2F hplain.no_slash hplain.ne_nil]
  exact follow_plain components hplain.plain hdirs

theorem readAt_plain (root : FilePath) (components : List (List UInt8)) (hplain : PlainText components)
    (hdirs : ∀ start, start <+: components → start ≠ components → tree.isDir (root ++ start) = true) :
    tree.readAt root ([0x2F].intercalate components) = tree.readFile (root ++ components) := by
  unfold readAt
  rw [resolve_plain root components hplain hdirs, Option.bind_some]

end FileTree
end Peryx
