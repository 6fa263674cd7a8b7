import Mathlib.Data.List.Basic
import Mathlib.Data.List.Dedup
import Mathlib.Data.List.Induction
import Mathlib.Data.List.Nodup

/-!
# File systems as finite maps from component paths

A file system maps paths, written as lists of components, to directories and
files. Only finitely many paths are present, and every present path of more than
one component lies in a directory. The empty path names nothing, and paths of
one component are taken relative to a directory that always exists.

The calls that create, write, remove and move follow the error behaviour of
the usual library calls: they answer `none` where an error is raised.
-/

namespace Notebook

/-- A path, written as its list of components. -/
abbrev Path := List String

namespace Path

/-- Last component, or the empty text for the empty path. -/
def filename (p : Path) : String :=
  p.getLast?.getD ""

@[simp] theorem filename_append_singleton (p : Path) (c : String) :
    filename (p ++ [c]) = c := by
  simp [filename]

theorem dropLast_append_filename {p : Path} (nonempty : p ≠ []) :
    p.dropLast ++ [p.filename] = p := by
  rcases List.eq_nil_or_concat' p with rfl | ⟨q, c, rfl⟩
  · exact absurd rfl nonempty
  · simp

/-- Characters that separate components. -/
def isSeparator (c : Char) : Bool :=
  c = '\\' || c = '/'

/-- Go down by one component, where the empty component and a dot stay and two
dots go up. -/
def descend (p : Path) (component : String) : Path :=
  if component = "" ∨ component = "." then p
  else if component = ".." then p.dropLast
  else p ++ [component]

/-- The path written by a path, a separator and a further text. -/
def join (p : Path) (text : String) : Path :=
  ((text.toList.splitOnP isSeparator).map String.ofList).foldl descend p

/-- The path as text. -/
def toText (p : Path) : String :=
  "\\".intercalate p

end Path

/-- A text that names one component below a directory. -/
structure IsComponent (c : String) : Prop where
  /-- No character separates components. -/
  no_separator : ∀ x ∈ c.toList, Path.isSeparator x = false
  /-- The text is not empty. -/
  ne_empty : c ≠ ""
  /-- The text does not name the directory itself. -/
  ne_dot : c ≠ "."
  /-- The text does not name the parent directory. -/
  ne_dots : c ≠ ".."

instance (c : String) : Decidable (IsComponent c) :=
  decidable_of_iff
    (c.toList.all (fun x => !Path.isSeparator x) = true ∧ c ≠ "" ∧ c ≠ "." ∧ c ≠ "..")
    ⟨fun h => ⟨by simpa using h.1, h.2.1, h.2.2.1, h.2.2.2⟩,
      fun h => ⟨by simpa using h.no_separator, h.ne_empty, h.ne_dot, h.ne_dots⟩⟩

/-- Joining a single component appends it. -/
theorem IsComponent.join {c : String} (component : IsComponent c) (p : Path) :
    p.join c = p ++ [c] := by
  rw [Path.join, List.splitOnP_eq_singleton component.no_separator]
  simp [Path.descend, component.ne_empty, component.ne_dot, component.ne_dots]

/-- A text that names a directory or an entry of it. -/
structure StaysBelow (name : String) : Prop where
  /-- No character separates components. -/
  no_separator : ∀ x ∈ name.toList, Path.isSeparator x = false
  /-- The text does not name the parent directory. -/
  ne_dots : name ≠ ".."

instance (name : String) : Decidable (StaysBelow name) :=
  decidable_of_iff
    (name.toList.all (fun x => !Path.isSeparator x) = true ∧ name ≠ "..")
    ⟨fun h => ⟨by simpa using h.1, h.2⟩, fun h => ⟨by simpa using h.no_separator, h.ne_dots⟩⟩

/-- Joining such a text does not leave the directory. -/
theorem StaysBelow.prefix_join {name : String} (stays : StaysBelow name) (p : Path) :
    p <+: p.join name := by
  rw [Path.join, List.splitOnP_eq_singleton stays.no_separator, List.map_singleton,
    List.foldl_cons, List.foldl_nil, String.ofList_toList, Path.descend, if_neg stays.ne_dots]
  split
  · exact List.prefix_rfl
  · exact List.prefix_append _ _

/-- Two dots lead to the parent directory. -/
theorem Path.join_dots (p : Path) : p.join ".." = p.dropLast := by
  have unsplit : ∀ x ∈ "..".toList, isSeparator x = false := by
    simp [isSeparator]
  rw [join, List.splitOnP_eq_singleton unsplit]
  simp [descend]

/-- A text without separators at the end stays in the last piece of a split. -/
private theorem exists_last_piece
    {p : α → Bool}
    (xs : List α)
    {ys : List α}
    (unsplit : ∀ y ∈ ys, p y = false) :
    ∃ pieces front, (xs ++ ys).splitOnP p = pieces ++ [front ++ ys] := by
  induction xs with
  | nil => exact ⟨[], [], by simpa using List.splitOnP_eq_singleton unsplit⟩
  | cons x xs inductionHypothesis =>
      obtain ⟨pieces, front, split⟩ := inductionHypothesis
      rw [List.cons_append, List.splitOnP_cons_eq_if_modifyHead, split]
      cases p x with
      | true => exact ⟨[] :: pieces, front, by simp⟩
      | false =>
          cases pieces with
          | nil => exact ⟨[], x :: front, by simp⟩
          | cons piece pieces => exact ⟨(x :: piece) :: pieces, front, by simp⟩

/-- Joining a text that ends in a long enough extension is never empty. -/
theorem Path.join_append_ne_nil
    (p : Path)
    (name : String)
    {extension : String}
    (unsplit : ∀ x ∈ extension.toList, Path.isSeparator x = false)
    (long : 2 < extension.toList.length) :
    p.join (name ++ extension) ≠ [] := by
  obtain ⟨pieces, front, split⟩ :=
    exists_last_piece name.toList unsplit
  have lengths : ∀ c : String, c.toList.length ≤ 2 →
      String.ofList (front ++ extension.toList) ≠ c := by
    intro c short equal
    have := congrArg (fun text : String => text.toList.length) equal
    simp only [String.toList_ofList, List.length_append] at this
    omega
  rw [Path.join, String.toList_append, split, List.map_append,
    List.map_singleton, List.foldl_append, List.foldl_cons, List.foldl_nil,
    Path.descend,
    if_neg (not_or.mpr ⟨lengths "" (by decide), lengths "." (by decide)⟩),
    if_neg (lengths ".." (by decide))]
  simp

/-- What a present path names. -/
inductive Node (β : Type u)
  | directory
  | file (contents : β)
  deriving DecidableEq, Repr

/-- A finite, tree-shaped map from paths to directories and files. -/
structure FileSystem (β : Type u) where
  /-- What a path names, if it is present. -/
  node : Path → Option (Node β)
  /-- Paths among which all present ones occur. -/
  support : List Path
  /-- Every present path occurs in the support. -/
  mem_support : ∀ p, node p ≠ none → p ∈ support
  /-- The empty path is absent. -/
  node_nil : node [] = none
  /-- A present path lies in a directory. -/
  parent_directory : ∀ p c, p ≠ [] → node (p ++ [c]) ≠ none →
    node p = some .directory

namespace FileSystem

/-- The file system without any path. -/
def empty : FileSystem β where
  node _ := none
  support := []
  mem_support _ present := absurd rfl present
  node_nil := rfl
  parent_directory _ _ _ present := absurd rfl present

instance : Inhabited (FileSystem β) := ⟨empty⟩

variable (fs : FileSystem β)

/-- Whether a path is present. -/
def isPresent (p : Path) : Bool :=
  (fs.node p).isSome

/-- Whether a path names a directory. -/
def isDirectory (p : Path) : Bool :=
  match fs.node p with
  | some .directory => true
  | _ => false

/-- Whether a path names a file. -/
def isFile (p : Path) : Bool :=
  match fs.node p with
  | some (.file _) => true
  | _ => false

/-- Contents of the file at a path, if there is one. -/
def contentsAt (p : Path) : Option β :=
  match fs.node p with
  | some (.file contents) => some contents
  | _ => none

variable {fs}

theorem contentsAt_congr {fs fs' : FileSystem β} {p : Path}
    (same : fs'.node p = fs.node p) : fs'.contentsAt p = fs.contentsAt p := by
  unfold contentsAt
  rw [same]

theorem contentsAt_of_node {p : Path} {contents : β}
    (file : fs.node p = some (.file contents)) : fs.contentsAt p = some contents := by
  rw [contentsAt, file]

theorem contentsAt_of_absent {p : Path} (absent : fs.node p = none) :
    fs.contentsAt p = none := by
  rw [contentsAt, absent]

theorem isPresent_iff {p : Path} : fs.isPresent p = true ↔ fs.node p ≠ none := by
  rw [isPresent, Option.isSome_iff_ne_none]

theorem isPresent_eq_false_iff {p : Path} :
    fs.isPresent p = false ↔ fs.node p = none := by
  simp [isPresent]

theorem isDirectory_iff {p : Path} :
    fs.isDirectory p = true ↔ fs.node p = some .directory := by
  unfold isDirectory
  split <;> simp_all

theorem isFile_iff {p : Path} :
    fs.isFile p = true ↔ ∃ contents, fs.node p = some (.file contents) := by
  unfold isFile
  split <;> simp_all

/-- A prefix of a present path is a directory. -/
theorem directory_above
    {p q : Path}
    (present : fs.node q ≠ none)
    (isPrefix : p <+: q)
    (different : p ≠ q)
    (nonempty : p ≠ []) :
    fs.node p = some .directory := by
  obtain ⟨rest, rfl⟩ := isPrefix
  induction rest using List.reverseRecOn with
  | nil => simp at different
  | append_singleton rest c inductionHypothesis =>
      rw [← List.append_assoc] at present
      have parent := fs.parent_directory (p ++ rest) c (by simp [nonempty]) present
      by_cases done : rest = []
      · simpa [done] using parent
      · exact inductionHypothesis (by rw [parent]; simp) (by simpa using done)

/-- A path at or above a directory is one. -/
theorem isDirectory_above
    {p q : Path}
    (nonempty : p ≠ [])
    (isPrefix : p <+: q)
    (directory : fs.isDirectory q = true) :
    fs.isDirectory p = true := by
  rw [isDirectory_iff] at directory ⊢
  by_cases same : p = q
  · rw [same]
    exact directory
  · exact directory_above (by rw [directory]; simp) isPrefix same nonempty

/-- Nothing is present below an absent path. -/
theorem node_eq_none_below
    {p q : Path}
    (absent : fs.node p = none)
    (nonempty : p ≠ [])
    (isPrefix : p <+: q) :
    fs.node q = none := by
  by_contra present
  by_cases same : p = q
  · exact present (same ▸ absent)
  · rw [directory_above present isPrefix same nonempty] at absent
    cases absent

/-! ## Placing a node -/

/-- A new entry can be made at a path: its parent is a directory. -/
def HasParent (fs : FileSystem β) (p : Path) : Prop :=
  p ≠ [] ∧ (p.dropLast = [] ∨ fs.isDirectory p.dropLast = true)

instance (fs : FileSystem β) (p : Path) : Decidable (fs.HasParent p) :=
  inferInstanceAs (Decidable (_ ∧ _))

theorem hasParent_append_singleton {p : Path} {c : String}
    (directory : fs.node p = some .directory) :
    fs.HasParent (p ++ [c]) := by
  refine ⟨by simp, Or.inr ?_⟩
  rw [List.dropLast_concat, isDirectory_iff]
  exact directory

/-- Every present path has a parent. -/
theorem hasParent_of_present {p : Path} (present : fs.node p ≠ none) :
    fs.HasParent p := by
  rcases List.eq_nil_or_concat' p with rfl | ⟨q, c, rfl⟩
  · exact absurd fs.node_nil present
  · refine ⟨by simp, ?_⟩
    by_cases top : q = []
    · simp [top]
    · right
      rw [List.dropLast_concat, isDirectory_iff]
      exact fs.parent_directory q c top present

/-- Whether an entry can be made depends on the directories only. -/
theorem hasParent_congr {fs fs' : FileSystem β}
    (sameDirectories : ∀ q, fs'.node q = some .directory ↔ fs.node q = some .directory)
    (p : Path) :
    fs'.HasParent p ↔ fs.HasParent p := by
  unfold HasParent
  rw [isDirectory_iff, isDirectory_iff, sameDirectories]

/-- Put a node at a path that is not a directory and whose parent is one. -/
def place (fs : FileSystem β) (p : Path) (n : Node β)
    (allowed : fs.HasParent p ∧ fs.node p ≠ some .directory) : FileSystem β where
  node q := if q = p then some n else fs.node q
  support := p :: fs.support
  mem_support q present := by
    by_cases same : q = p
    · simp [same]
    · rw [if_neg same] at present
      exact List.mem_cons_of_mem p (fs.mem_support q present)
  node_nil := by rw [if_neg allowed.1.1.symm, fs.node_nil]
  parent_directory q c nonempty present := by
    by_cases here : q ++ [c] = p
    · obtain ⟨⟨_, parent⟩, _⟩ := allowed
      rw [← here, List.dropLast_concat, isDirectory_iff] at parent
      rw [if_neg (by rw [← here]; simp)]
      exact parent.resolve_left nonempty
    · rw [if_neg here] at present
      have directory := fs.parent_directory q c nonempty present
      have other : q ≠ p := fun same => allowed.2 (same ▸ directory)
      rw [if_neg other]
      exact directory

@[simp] theorem node_place (p q : Path) (n : Node β)
    (allowed : fs.HasParent p ∧ fs.node p ≠ some .directory) :
    (fs.place p n allowed).node q = if q = p then some n else fs.node q := rfl

/-- Create one directory, or raise an error when the path is present or has no
parent. -/
def mkdir (fs : FileSystem β) (p : Path) : Option (FileSystem β) :=
  if allowed : fs.HasParent p ∧ fs.node p = none then
    some (fs.place p .directory ⟨allowed.1, by rw [allowed.2]; simp⟩)
  else none

/-- Put a node at a path if it can be made there. -/
def put (fs : FileSystem β) (p : Path) (n : Node β) : FileSystem β :=
  if allowed : fs.HasParent p ∧ fs.isDirectory p = false then
    fs.place p n ⟨allowed.1, fun directory => by
      rw [isDirectory_iff.mpr directory] at allowed
      simp at allowed⟩
  else fs

/-- The file system with the given nodes, put in turn. -/
def ofNodes (nodes : List (Path × Node β)) : FileSystem β :=
  nodes.foldl (fun fs entry => fs.put entry.1 entry.2) empty

/-- Open a file for writing and replace its contents. Nothing happens when the
file cannot be opened. -/
def writeFile (fs : FileSystem β) (p : Path) (contents : β) : FileSystem β :=
  fs.put p (.file contents)

/-- A created directory is the only change. -/
theorem mkdir_eq_some {p : Path}
    (parent : fs.HasParent p)
    (absent : fs.node p = none) :
    ∃ fs', fs.mkdir p = some fs' ∧
      ∀ q, fs'.node q = if q = p then some .directory else fs.node q := by
  rw [mkdir, dif_pos ⟨parent, absent⟩]
  exact ⟨_, rfl, fun q => rfl⟩

theorem node_of_mkdir {p : Path} {fs' : FileSystem β}
    (made : fs.mkdir p = some fs') (q : Path) :
    fs'.node q = if q = p then some .directory else fs.node q := by
  unfold mkdir at made
  split at made
  · cases made
    rfl
  · cases made

theorem hasParent_of_mkdir {p : Path} {fs' : FileSystem β}
    (made : fs.mkdir p = some fs') :
    fs.HasParent p ∧ fs.node p = none := by
  unfold mkdir at made
  split at made
  · assumption
  · cases made

theorem node_writeFile {p : Path} (contents : β)
    (parent : fs.HasParent p)
    (notDirectory : fs.node p ≠ some .directory)
    (q : Path) :
    (fs.writeFile p contents).node q =
      if q = p then some (.file contents) else fs.node q := by
  have allowed : fs.isDirectory p = false := by
    rw [← Bool.not_eq_true, isDirectory_iff]
    exact notDirectory
  rw [writeFile, put, dif_pos ⟨parent, allowed⟩, node_place]

/-- Writing where there is no parent directory changes nothing. -/
theorem writeFile_of_not_hasParent {p : Path} (contents : β)
    (orphan : ¬ fs.HasParent p) :
    fs.writeFile p contents = fs := by
  rw [writeFile, put, dif_neg fun allowed => orphan allowed.1]

/-- Writing changes no other path. -/
theorem node_writeFile_of_ne {p q : Path} (contents : β) (different : q ≠ p) :
    (fs.writeFile p contents).node q = fs.node q := by
  unfold writeFile put
  split
  · simp [different]
  · rfl

/-! ## Removing -/

/-- Remove a path and everything below it. -/
def removeTree (fs : FileSystem β) (p : Path) : FileSystem β where
  node q := if p <+: q then none else fs.node q
  support := fs.support
  mem_support q present := by
    apply fs.mem_support
    split at present
    · exact absurd rfl present
    · exact present
  node_nil := by
    split
    · rfl
    · exact fs.node_nil
  parent_directory q c nonempty present := by
    by_cases gone : p <+: q ++ [c]
    · rw [if_pos gone] at present
      exact absurd rfl present
    · rw [if_neg gone] at present
      rw [if_neg fun above => gone (above.trans (List.prefix_append q [c]))]
      exact fs.parent_directory q c nonempty present

@[simp] theorem node_removeTree (p q : Path) :
    (fs.removeTree p).node q = if p <+: q then none else fs.node q := rfl

/-- Nothing is present below a path. -/
def HasNoEntries (fs : FileSystem β) (p : Path) : Prop :=
  ∀ q ∈ fs.support, p <+: q → p ≠ q → fs.isPresent q = false

instance (fs : FileSystem β) (p : Path) : Decidable (fs.HasNoEntries p) :=
  inferInstanceAs (Decidable (∀ q ∈ fs.support, p <+: q → p ≠ q → fs.isPresent q = false))

theorem hasNoEntries_iff {p : Path} :
    fs.HasNoEntries p ↔ ∀ q, p <+: q → p ≠ q → fs.node q = none := by
  constructor
  · intro noEntries q isPrefix different
    by_contra present
    have absent := noEntries q (fs.mem_support q present) isPrefix different
    exact present (isPresent_eq_false_iff.mp absent)
  · intro absent q _ isPrefix different
    exact isPresent_eq_false_iff.mpr (absent q isPrefix different)

/-- A path that is not a directory has nothing below it. -/
theorem hasNoEntries_of_not_directory {p : Path}
    (nonempty : p ≠ [])
    (notDirectory : fs.node p ≠ some .directory) :
    fs.HasNoEntries p := by
  rw [hasNoEntries_iff]
  intro q isPrefix different
  by_contra present
  exact notDirectory (directory_above present isPrefix different nonempty)

/-- Remove a file or an empty directory. Removing an absent path is no error,
removing a directory with entries is one. -/
def remove (fs : FileSystem β) (p : Path) : Option (FileSystem β) :=
  if p = [] then some fs
  else if fs.HasNoEntries p then some (fs.removeTree p)
  else none

/-- Removing what is not a directory only makes that path absent. -/
theorem remove_of_not_directory {p : Path}
    (nonempty : p ≠ [])
    (notDirectory : fs.node p ≠ some .directory) :
    ∃ fs', fs.remove p = some fs' ∧
      ∀ q, fs'.node q = if q = p then none else fs.node q := by
  have noEntries := hasNoEntries_of_not_directory nonempty notDirectory
  refine ⟨fs.removeTree p, by rw [remove, if_neg nonempty, if_pos noEntries], ?_⟩
  intro q
  rw [node_removeTree]
  by_cases same : q = p
  · rw [if_pos same, if_pos (same ▸ List.prefix_refl _)]
  · rw [if_neg same]
    split
    · rename_i below
      exact (hasNoEntries_iff.mp noEntries q below (Ne.symm same)).symm
    · rfl

/-! ## Moving -/

/-- Where moving `src` to `dst` is allowed: the source is present, the target is
free and has a parent outside the source. -/
def CanMove (fs : FileSystem β) (src dst : Path) : Prop :=
  fs.node src ≠ none ∧ fs.node dst = none ∧ fs.HasParent dst ∧ ¬ src <+: dst

instance (fs : FileSystem β) (src dst : Path) : Decidable (fs.CanMove src dst) :=
  decidable_of_iff
    (fs.isPresent src = true ∧ fs.isPresent dst = false ∧ fs.HasParent dst ∧
      ¬ src <+: dst)
    (by rw [isPresent_iff, isPresent_eq_false_iff]; rfl)

private theorem ne_nil_of_present {p : Path} (present : fs.node p ≠ none) :
    p ≠ [] := by
  rintro rfl
  exact present fs.node_nil

/-- The file system after an allowed move. -/
def moved (fs : FileSystem β) (src dst : Path) (allowed : fs.CanMove src dst) :
    FileSystem β where
  node q :=
    if dst <+: q then fs.node (src ++ q.drop dst.length)
    else if src <+: q then none
    else fs.node q
  support := fs.support ++ fs.support.map fun q => dst ++ q.drop src.length
  mem_support q present := by
    rw [List.mem_append, List.mem_map]
    split at present
    · rename_i below
      obtain ⟨rest, rfl⟩ := below
      right
      refine ⟨src ++ rest, ?_, by simp⟩
      simpa using fs.mem_support _ present
    · split at present
      · exact absurd rfl present
      · exact Or.inl (fs.mem_support q present)
  node_nil := by
    have dstNonempty := allowed.2.2.1.1
    rw [if_neg (by simpa [List.prefix_nil] using dstNonempty)]
    split
    · rfl
    · exact fs.node_nil
  parent_directory q c nonempty present := by
    have srcNonempty := ne_nil_of_present allowed.1
    by_cases inside : dst <+: q
    · obtain ⟨rest, rfl⟩ := inside
      rw [if_pos (by rw [List.append_assoc]; exact List.prefix_append _ _)] at present
      rw [if_pos (List.prefix_append _ _)]
      simp only [List.append_assoc, List.drop_left] at present ⊢
      rw [← List.append_assoc] at present
      exact fs.parent_directory (src ++ rest) c (by simp [srcNonempty]) present
    · rw [if_neg inside]
      by_cases last : dst <+: q ++ [c]
      · have isLast : dst = q ++ [c] := by
          rcases List.prefix_concat_iff.mp last with same | below
          · exact same
          · exact absurd below inside
        have parent := allowed.2.2.1.2
        rw [isLast, List.dropLast_concat, isDirectory_iff] at parent
        rw [if_neg fun below => allowed.2.2.2
          (below.trans (isLast ▸ List.prefix_append q [c]))]
        exact parent.resolve_left nonempty
      · rw [if_neg last] at present
        split at present
        · exact absurd rfl present
        · rename_i outside
          rw [if_neg fun below => outside (below.trans (List.prefix_append q [c]))]
          exact fs.parent_directory q c nonempty present

@[simp] theorem node_moved {src dst : Path} (allowed : fs.CanMove src dst) (q : Path) :
    (fs.moved src dst allowed).node q =
      if dst <+: q then fs.node (src ++ q.drop dst.length)
      else if src <+: q then none
      else fs.node q := rfl

/-- Rename a path. Renaming a present path to itself does nothing; otherwise the
target must be free. -/
def rename (fs : FileSystem β) (src dst : Path) : Option (FileSystem β) :=
  if src = dst ∧ fs.isPresent src = true then some fs
  else if allowed : fs.CanMove src dst then some (fs.moved src dst allowed)
  else none

/-- A successful rename either kept the path or moved it to a free one. -/
theorem rename_cases {src dst : Path} {fs' : FileSystem β}
    (renamed : fs.rename src dst = some fs') :
    (src = dst ∧ fs.node src ≠ none ∧ fs' = fs) ∨
      ∃ allowed : fs.CanMove src dst, fs' = fs.moved src dst allowed := by
  unfold rename at renamed
  split at renamed
  · rename_i same
    left
    exact ⟨same.1, isPresent_iff.mp same.2, by cases renamed; rfl⟩
  · split at renamed
    · rename_i allowed
      right
      exact ⟨allowed, by cases renamed; rfl⟩
    · cases renamed

/-! ## Changes below a path -/

/-- Two file systems that differ at and below a path only. -/
def AgreeOutside (top : Path) (fs fs' : FileSystem β) : Prop :=
  ∀ q, ¬ top <+: q → fs'.node q = fs.node q

namespace AgreeOutside

variable {top : Path} {fs fs' fs'' : FileSystem β}

theorem refl (top : Path) (fs : FileSystem β) : AgreeOutside top fs fs :=
  fun _ _ => rfl

theorem trans (first : AgreeOutside top fs fs') (second : AgreeOutside top fs' fs'') :
    AgreeOutside top fs fs'' :=
  fun q outside => (second q outside).trans (first q outside)

/-- A change at one path below it. -/
theorem of_ne {p : Path} (below : top <+: p)
    (others : ∀ q, p ≠ q → fs'.node q = fs.node q) :
    AgreeOutside top fs fs' := by
  intro q outside
  apply others
  rintro rfl
  exact outside below

theorem of_mkdir {p : Path} (below : top <+: p) (made : fs.mkdir p = some fs') :
    AgreeOutside top fs fs' := by
  apply of_ne below
  intro q different
  rw [node_of_mkdir made, if_neg different.symm]

theorem of_rename {src dst : Path} (srcBelow : top <+: src) (dstBelow : top <+: dst)
    (renamed : fs.rename src dst = some fs') :
    AgreeOutside top fs fs' := by
  rcases rename_cases renamed with ⟨_, _, rfl⟩ | ⟨allowed, rfl⟩
  · exact refl top _
  · intro q outside
    rw [node_moved, if_neg fun inside => outside (dstBelow.trans inside),
      if_neg fun inside => outside (srcBelow.trans inside)]

end AgreeOutside

/-! ## Listings -/

/-- A recursive listing of the entries below a directory, each directory before
its contents and siblings in any order. -/
structure IsListing (fs : FileSystem β) (root : Path) (entries : List Path) : Prop where
  /-- No entry is listed twice. -/
  nodup : entries.Nodup
  /-- The entries are the present paths strictly below the root. -/
  mem_iff : ∀ p, p ∈ entries ↔ root <+: p ∧ root ≠ p ∧ fs.node p ≠ none
  /-- No entry is listed after one that lies below it. -/
  parents_first : entries.Pairwise fun earlier later => ¬ later <+: earlier

/-- A listing can be checked against the support of the file system. -/
theorem isListing_iff {fs : FileSystem β} {root : Path} {entries : List Path} :
    fs.IsListing root entries ↔
      entries.Nodup ∧
        (∀ p ∈ fs.support, root <+: p → root ≠ p → fs.isPresent p = true → p ∈ entries) ∧
        (∀ p ∈ entries, root <+: p ∧ root ≠ p ∧ fs.isPresent p = true) ∧
        entries.Pairwise fun earlier later => ¬ later <+: earlier := by
  constructor
  · intro listed
    refine ⟨listed.nodup, ?_, ?_, listed.parents_first⟩
    · intro p _ below different present
      exact (listed.mem_iff p).mpr ⟨below, different, isPresent_iff.mp present⟩
    · intro p member
      obtain ⟨below, different, present⟩ := (listed.mem_iff p).mp member
      exact ⟨below, different, isPresent_iff.mpr present⟩
  · rintro ⟨nodup, complete, sound, parentsFirst⟩
    refine ⟨nodup, fun p => ⟨?_, ?_⟩, parentsFirst⟩
    · intro member
      obtain ⟨below, different, present⟩ := sound p member
      exact ⟨below, different, isPresent_iff.mp present⟩
    · rintro ⟨below, different, present⟩
      exact complete p (fs.mem_support p present) below different
        (isPresent_iff.mpr present)

/-- The entries below a directory, shorter paths first, are a listing. -/
theorem exists_listing (fs : FileSystem β) (root : Path) :
    ∃ entries, fs.IsListing root entries := by
  have perm := List.mergeSort_perm
    (fs.support.dedup.filter fun p => root <+: p ∧ root ≠ p ∧ fs.isPresent p = true)
    (fun p q => decide (p.length ≤ q.length))
  have sorted := @List.pairwise_mergeSort Path (fun p q => decide (p.length ≤ q.length))
    (by
      intro p q r shorter shorter'
      rw [decide_eq_true_eq] at *
      exact Nat.le_trans shorter shorter')
    (by
      intro p q
      rw [Bool.or_eq_true, decide_eq_true_eq, decide_eq_true_eq]
      exact Nat.le_total _ _)
    (fs.support.dedup.filter fun p => root <+: p ∧ root ≠ p ∧ fs.isPresent p = true)
  have nodup := perm.nodup_iff.mpr ((List.nodup_dedup fs.support).filter _)
  refine ⟨_, nodup, fun p => ?_, (sorted.and nodup).imp ?_⟩
  · rw [perm.mem_iff, List.mem_filter, List.mem_dedup, decide_eq_true_eq, isPresent_iff]
    exact ⟨fun h => h.2, fun h => ⟨fs.mem_support p h.2.2, h⟩⟩
  · rintro p q ⟨shorter, different⟩ above
    rw [decide_eq_true_eq] at shorter
    exact different (above.eq_of_length_le shorter).symm

instance (fs : FileSystem β) (root : Path) (entries : List Path) :
    Decidable (fs.IsListing root entries) :=
  decidable_of_iff _ isListing_iff.symm

end FileSystem

/-! ## Refused calls -/

/-- The calls the operating system refuses although the file system would allow
them. -/
structure Refusals where
  /-- Creating a directory answers that none was created. -/
  declinesCreate : Path → Bool
  /-- Creating a directory raises an error. -/
  failsCreate : Path → Bool
  /-- Removing a tree raises an error before anything is removed. -/
  failsRemoveAll : Path → Bool
  /-- Renaming raises an error. -/
  failsRename : Path → Path → Bool

/-- No call is refused. -/
def Refusals.never : Refusals where
  declinesCreate _ := false
  failsCreate _ := false
  failsRemoveAll _ := false
  failsRename _ _ := false

/-- How a call that creates a directory ends. -/
inductive CreateResult (β : Type u)
  | created (fs : FileSystem β)
  | notCreated
  | error

namespace Refusals

variable (refusals : Refusals)

/-- Create one directory unless the call is refused. -/
def createDirectory (fs : FileSystem β) (p : Path) : CreateResult β :=
  if refusals.failsCreate p then .error
  else if refusals.declinesCreate p then .notCreated
  else
    match fs.mkdir p with
    | some fs' => .created fs'
    | none => if fs.isDirectory p then .notCreated else .error

/-- A directory that was created was not there before. -/
theorem mkdir_of_created {refusals : Refusals} {fs fs' : FileSystem β} {p : Path}
    (created : refusals.createDirectory fs p = .created fs') :
    fs.mkdir p = some fs' := by
  unfold createDirectory at created
  split at created
  · cases created
  · split at created
    · cases created
    · split at created
      · rename_i made
        cases created
        exact made
      · split at created <;> cases created

/-- Remove a tree unless the call is refused. -/
def removeAll (fs : FileSystem β) (p : Path) : Option (FileSystem β) :=
  if refusals.failsRemoveAll p then none else some (fs.removeTree p)

/-- Rename a path unless the call is refused. -/
def rename (fs : FileSystem β) (src dst : Path) : Option (FileSystem β) :=
  if refusals.failsRename src dst then none else fs.rename src dst

theorem rename_of_allowed {refusals : Refusals} {fs fs' : FileSystem β} {src dst : Path}
    (renamed : refusals.rename fs src dst = some fs') :
    fs.rename src dst = some fs' := by
  unfold rename at renamed
  split at renamed
  · cases renamed
  · exact renamed

end Refusals

end Notebook
