import Notebook.Init.Bank
import Notebook.Library.PathTree

/-!
# The tree that `init` builds

Every entry of the listing is placed by the bare name of the directory it lies in.
When every directory that holds an entry comes first among the directories of its
name, the tree mirrors the directories: one group for each, under the group of its
parent directory, with a store for each file it contains.
-/

namespace Notebook

open RoseTree CQuestionAnswerImpl

/-- The groups of a tree, each with the identity of the group above it. -/
def parentRows (qgp : CQuestionGroupParam) :
    List (Option (String × String × Path) × GroupMembers) :=
  qgp.inherited (fun _ grp => some grp.identity) none

theorem map_snd_parentRows (qgp : CQuestionGroupParam) :
    (parentRows qgp).map Prod.snd = qgp.preorder :=
  map_snd_inherited _ _ _

/-- A row is that of the root or that of a child of some group. -/
theorem parentRows_cases {qgp : CQuestionGroupParam}
    {row : Option (String × String × Path) × GroupMembers}
    (present : row ∈ parentRows qgp) :
    row = (none, qgp.label) ∨ ∃ c parent before child after,
      qgp = plug c (.node parent (before ++ child :: after)) ∧
        row = (some parent.identity, child.label) :=
  exists_plug_of_mem_inherited present

/-- The row of a child of a group. -/
theorem child_mem_parentRows (c : Context GroupMembers) (parent : GroupMembers)
    (before after : List CQuestionGroupParam) (child : CQuestionGroupParam) :
    (some parent.identity, child.label) ∈
      parentRows (plug c (.node parent (before ++ child :: after))) := by
  rw [parentRows, inherited_plug, inherited_node, ← node_label_children child]
  refine List.mem_append_left _ (List.mem_append_right _ (List.mem_cons_of_mem _ ?_))
  refine List.mem_flatMap.mpr ⟨.node child.label child.children, by simp, ?_⟩
  rw [inherited_node]
  exact List.mem_cons_self

/-- Every group below the root has a row with a group of the tree. -/
theorem exists_parentRow {qgp : CQuestionGroupParam} {grp : GroupMembers}
    (present : grp ∈ qgp.descendants) :
    ∃ parent ∈ qgp.preorder, (some parent.identity, grp) ∈ parentRows qgp := by
  cases qgp with
  | node top groups =>
      obtain ⟨child, member, inChild⟩ := List.mem_flatMap.mp present
      rw [← map_snd_inherited (fun _ grp => some grp.identity) (some top.identity) child]
        at inChild
      obtain ⟨row, isRow, rfl⟩ := List.mem_map.mp inChild
      have inTree : row ∈ parentRows (.node top groups) := by
        rw [parentRows, inherited_node]
        exact List.mem_cons_of_mem _ (List.mem_flatMap.mpr ⟨child, member, isRow⟩)
      rcases exists_plug_of_mem_inherited isRow with rfl |
        ⟨c, parent, before, other, after, rfl, rfl⟩
      · exact ⟨top, by simp, inTree⟩
      · refine ⟨parent, ?_, inTree⟩
        rw [preorder_node]
        refine List.mem_cons_of_mem _ (List.mem_flatMap.mpr ⟨_, member, ?_⟩)
        rw [preorder_plug, preorder_node]
        simp

/-- The paths of a tree extend those of the parents when the rows say so. -/
theorem extendsPaths_of_parentRows {qgp : CQuestionGroupParam}
    (rows : ∀ row ∈ parentRows qgp, ∀ above ∈ row.1,
      ∃ name, row.2.strPath = above.2.2 ++ [name]) :
    ExtendsPaths GroupMembers.strPath none qgp := by
  have attributes : (parentRows qgp).map (fun row => (row.1.map fun id => id.2.2, row.2)) =
      qgp.inherited (fun _ grp => some grp.strPath) none :=
    map_inherited
      (f := fun above : Option (String × String × Path) => above.map fun id => id.2.2)
      (fun _ _ => rfl) none qgp
  intro row present parent above
  rw [← attributes] at present
  obtain ⟨full, member, rfl⟩ := List.mem_map.mp present
  obtain ⟨identity, isAbove, rfl⟩ := Option.map_eq_some_iff.mp above
  exact rows full member identity isAbove

namespace CQuestionBankImpl

/-- The stores of the files that a listing has in a directory. -/
def storesIn (rt : Runtime) (disk : Disk) (entries : List Path) (dir : Path) :
    List CQuestionAnswerImpl :=
  (entries.filter fun entry => isStoreEntry disk entry && entry.dropLast = dir).map
    (storeOf rt disk)

/-- The group of a directory. -/
def mirrorOf (rt : Runtime) (disk : Disk) (mapIds : IdMap) (root : Path)
    (entries : List Path) (dir : Path) : GroupMembers :=
  { strName := dir.filename
    strId := if dir = root then "" else mapIds.idOfName rt dir.filename
    strPath := dir
    vecQuestions := storesIn rt disk entries dir }

/-- The group of a directory with the identity of the group of its parent
directory. -/
def mirrorRow (rt : Runtime) (disk : Disk) (mapIds : IdMap) (root : Path)
    (entries : List Path) (dir : Path) :
    Option (String × String × Path) × GroupMembers :=
  (if dir = root then none
    else some (mirrorOf rt disk mapIds root entries dir.dropLast).identity,
    mirrorOf rt disk mapIds root entries dir)

/-- The root directory and the directories of a listing. -/
def directories (disk : Disk) (root : Path) (entries : List Path) : List Path :=
  root :: entries.filter disk.isDirectory

/-- The groups that mirror the directories of a listing. -/
def mirrorRows (rt : Runtime) (disk : Disk) (mapIds : IdMap) (root : Path)
    (entries : List Path) : List (Option (String × String × Path) × GroupMembers) :=
  (directories disk root entries).map (mirrorRow rt disk mapIds root entries)

/-- Every directory that holds a sub-directory or a file to be opened is above all
directories of its name. -/
def NamesFound (disk : Disk) (root : Path) (entries : List Path) : Prop :=
  ∀ entry ∈ entries, disk.isDirectory entry = true ∨ isStoreEntry disk entry = true →
    ∀ dir ∈ directories disk root entries, dir.filename = Path.filename entry.dropLast →
      entry.dropLast <+: dir

instance (disk : Disk) (root : Path) (entries : List Path) :
    Decidable (NamesFound disk root entries) :=
  inferInstanceAs (Decidable (∀ entry ∈ entries, _ → _))

section Mirror

variable {rt : Runtime} {disk : Disk} {mapIds : IdMap} {root : Path}

@[simp] theorem mirrorOf_strPath (entries : List Path) (dir : Path) :
    (mirrorOf rt disk mapIds root entries dir).strPath = dir := rfl

@[simp] theorem mirrorOf_strName (entries : List Path) (dir : Path) :
    (mirrorOf rt disk mapIds root entries dir).strName = dir.filename := rfl

/-- Entries that are not opened in a directory do not show in its group. -/
theorem mirrorOf_append_singleton {entries : List Path} {entry dir : Path}
    (elsewhere : isStoreEntry disk entry = true → entry.dropLast ≠ dir) :
    mirrorOf rt disk mapIds root (entries ++ [entry]) dir =
      mirrorOf rt disk mapIds root entries dir := by
  have notHere : (isStoreEntry disk entry && decide (entry.dropLast = dir)) = false := by
    cases isStore : isStoreEntry disk entry with
    | false => rfl
    | true => simpa using elsewhere isStore
  simp [mirrorOf, storesIn, notHere]

/-- A file adds its store to the group of its directory. -/
theorem mirrorOf_append_file {entries : List Path} {entry : Path}
    (isStore : isStoreEntry disk entry = true) :
    mirrorOf rt disk mapIds root (entries ++ [entry]) entry.dropLast =
      { mirrorOf rt disk mapIds root entries entry.dropLast with
        vecQuestions :=
          (mirrorOf rt disk mapIds root entries entry.dropLast).vecQuestions ++
            [storeOf rt disk entry] } := by
  simp [mirrorOf, storesIn, isStore]

/-- What the loop of `init` has built after part of the listing. -/
structure Mirrors (rt : Runtime) (disk : Disk) (mapIds : IdMap) (root : Path)
    (entries : List Path) (qgp : CQuestionGroupParam) : Prop where
  rows : (parentRows qgp).Perm (mirrorRows rt disk mapIds root entries)
  nodup : (directories disk root entries).Nodup
  below : ∀ dir ∈ directories disk root entries, root <+: dir

namespace Mirrors

variable {entries : List Path} {qgp : CQuestionGroupParam}

theorem paths (mirrors : Mirrors rt disk mapIds root entries qgp) :
    (qgp.preorder.map GroupMembers.strPath).Perm (directories disk root entries) := by
  have perm := mirrors.rows.map fun row => row.2.strPath
  have left : (parentRows qgp).map (fun row => row.2.strPath) =
      qgp.preorder.map GroupMembers.strPath := by
    rw [← map_snd_parentRows, List.map_map]
    rfl
  have right : (mirrorRows rt disk mapIds root entries).map (fun row => row.2.strPath) =
      directories disk root entries := by
    rw [mirrorRows, List.map_map]
    exact List.map_id' _
  rwa [left, right] at perm

theorem row_of_mem (mirrors : Mirrors rt disk mapIds root entries qgp)
    {row : Option (String × String × Path) × GroupMembers}
    (present : row ∈ parentRows qgp) :
    row.2.strPath ∈ directories disk root entries ∧
      row = mirrorRow rt disk mapIds root entries row.2.strPath := by
  obtain ⟨dir, member, rfl⟩ := List.mem_map.mp (mirrors.rows.mem_iff.mp present)
  exact ⟨member, rfl⟩

/-- The paths in the tree extend those of the parents. -/
theorem extends_paths (mirrors : Mirrors rt disk mapIds root entries qgp) :
    ExtendsPaths GroupMembers.strPath none qgp := by
  apply extendsPaths_of_parentRows
  intro row member above isAbove
  obtain ⟨inside, equal⟩ := mirrors.row_of_mem member
  have isBelow := mirrors.below _ inside
  rw [equal, mirrorRow] at isAbove
  simp only at isAbove
  split at isAbove
  · cases isAbove
  · rename_i notRoot
    have nonempty : row.2.strPath ≠ [] := by
      intro empty
      rw [empty, List.prefix_nil] at isBelow
      exact notRoot (empty.trans isBelow.symm)
    refine ⟨Path.filename row.2.strPath, ?_⟩
    obtain rfl := Option.mem_some_iff.mp isAbove
    exact (Path.dropLast_append_filename nonempty).symm

/-- The group of a directory that is above all directories of its name is the first
one with its name. -/
theorem exists_first (mirrors : Mirrors rt disk mapIds root entries qgp)
    {dir : Path}
    (member : dir ∈ directories disk root entries)
    (first : ∀ other ∈ directories disk root entries,
      other.filename = dir.filename → dir <+: other) :
    ∃ c groups,
      qgp = plug c (.node (mirrorOf rt disk mapIds root entries dir) groups) ∧
      (∀ grp ∈ visited c, grp.strName ≠ dir.filename) ∧
      holeAttribute (fun _ grp => some grp.identity) none c =
        (mirrorRow rt disk mapIds root entries dir).1 := by
  have isRow : mirrorRow rt disk mapIds root entries dir ∈ parentRows qgp :=
    mirrors.rows.mem_iff.mpr (List.mem_map_of_mem member)
  obtain ⟨c, groups, rfl⟩ :=
    exists_plug_of_mem_preorder (snd_mem_preorder_of_mem_inherited isRow)
  refine ⟨c, groups, rfl, ?_, ?_⟩
  · have distinct := mirrors.paths.nodup_iff.mpr mirrors.nodup
    have notBefore := not_prefix_of_mem_visited mirrors.extends_paths distinct
    intro grp visitedBefore sameName
    have present : grp ∈ (plug c (.node
        (mirrorRow rt disk mapIds root entries dir).2 groups)).preorder := by
      rw [preorder_plug]
      exact List.mem_append_left _ (List.mem_append_left _ visitedBefore)
    rw [← map_snd_parentRows] at present
    obtain ⟨row, member', rfl⟩ := List.mem_map.mp present
    obtain ⟨inside, equal⟩ := mirrors.row_of_mem member'
    have name : row.2.strName = Path.filename row.2.strPath := by
      rw [equal]
      rfl
    exact notBefore row.2 visitedBefore (first _ inside (name ▸ sameName))
  · have atHole : (holeAttribute (fun _ grp => some grp.identity) none c,
        mirrorOf rt disk mapIds root entries dir) ∈
        parentRows (plug c (.node (mirrorOf rt disk mapIds root entries dir) groups)) := by
      rw [parentRows, inherited_plug, inherited_node]
      simp
    have equal := (mirrors.row_of_mem atHole).2
    exact congrArg Prod.fst equal

/-- What a directory that is placed under its parent does to the mirror. -/
theorem addDirectory (mirrors : Mirrors rt disk mapIds root entries qgp)
    {entry : Path}
    (isDirectory : disk.isDirectory entry = true)
    (isNew : entry ∉ directories disk root entries)
    (inside : root <+: entry)
    (noContents : ∀ other ∈ entries, ¬ entry <+: other)
    {c : Context GroupMembers}
    {groups : List CQuestionGroupParam}
    (found : qgp = plug c
      (.node (mirrorOf rt disk mapIds root entries entry.dropLast) groups)) :
    Mirrors rt disk mapIds root (entries ++ [entry])
      (plug c (.node (mirrorOf rt disk mapIds root entries entry.dropLast)
        (groups ++ [.node
          { strName := entry.filename, strPath := entry,
            strId := mapIds.idOfName rt entry.filename } []]))) := by
  have dirs : directories disk root (entries ++ [entry]) =
      directories disk root entries ++ [entry] := by
    simp [directories, isDirectory]
  have notStore : isStoreEntry disk entry = false := by
    obtain node := FileSystem.isDirectory_iff.mp isDirectory
    simp [isStoreEntry, FileSystem.isFile, node]
  have sameRows : ∀ dir, mirrorRow rt disk mapIds root (entries ++ [entry]) dir =
      mirrorRow rt disk mapIds root entries dir := by
    intro dir
    simp [mirrorRow, mirrorOf_append_singleton, notStore]
  have notRoot : entry ≠ root := fun same => isNew (same ▸ List.mem_cons_self)
  have empty : storesIn rt disk entries entry = [] := by
    rw [storesIn, List.map_eq_nil_iff, List.filter_eq_nil_iff]
    intro other member inEntry
    simp only [Bool.and_eq_true, decide_eq_true_eq] at inEntry
    refine noContents other member ?_
    rw [← inEntry.2]
    exact List.dropLast_prefix other
  refine ⟨?_, ?_, ?_⟩
  · have newRow : mirrorRow rt disk mapIds root entries entry =
        (some (mirrorOf rt disk mapIds root entries entry.dropLast).identity,
          { strName := entry.filename, strPath := entry,
            strId := mapIds.idOfName rt entry.filename }) := by
      simp [mirrorRow, mirrorOf, notRoot, empty]
    have leaf := inherited_plug_addLeaf (fun _ grp => some grp.identity) none c
      (mirrorOf rt disk mapIds root entries entry.dropLast) groups
      { strName := entry.filename, strPath := entry,
        strId := mapIds.idOfName rt entry.filename }
    refine leaf.trans ?_
    rw [← found, mirrorRows, dirs, List.map_append, List.map_singleton, sameRows, newRow,
      List.map_congr_left fun dir _ => sameRows dir]
    exact mirrors.rows.append_right _
  · rw [dirs, List.nodup_append]
    refine ⟨mirrors.nodup, by simp, ?_⟩
    rintro dir member other isLast rfl
    rw [List.mem_singleton] at isLast
    exact isNew (isLast ▸ member)
  · intro dir member
    rw [dirs, List.mem_append, List.mem_singleton] at member
    rcases member with old | rfl
    · exact mirrors.below dir old
    · exact inside

/-- What a file that is opened in the group of its directory does to the mirror. -/
theorem addFile (mirrors : Mirrors rt disk mapIds root entries qgp)
    {entry : Path}
    (isStore : isStoreEntry disk entry = true)
    (member : entry.dropLast ∈ directories disk root entries)
    {c : Context GroupMembers}
    {groups : List CQuestionGroupParam}
    (found : qgp = plug c
      (.node (mirrorOf rt disk mapIds root entries entry.dropLast) groups)) :
    Mirrors rt disk mapIds root (entries ++ [entry])
      (plug c (.node (mirrorOf rt disk mapIds root (entries ++ [entry]) entry.dropLast)
        groups)) := by
  have notDirectory : disk.isDirectory entry = false := by
    obtain ⟨contents, node⟩ :=
      FileSystem.isFile_iff.mp (Bool.and_eq_true_iff.mp isStore).1
    simp [FileSystem.isDirectory, node]
  have dirs : directories disk root (entries ++ [entry]) =
      directories disk root entries := by
    simp [directories, notDirectory]
  refine ⟨?_, dirs ▸ mirrors.nodup, dirs ▸ mirrors.below⟩
  obtain ⟨before, after, oldRows, newRows⟩ :=
    @inherited_plug_relabel _ _ (fun _ grp => some grp.identity) none c
      (mirrorOf rt disk mapIds root entries entry.dropLast)
      (mirrorOf rt disk mapIds root (entries ++ [entry]) entry.dropLast) rfl groups
  have rows := mirrors.rows
  rw [parentRows, found, oldRows] at rows
  have hole : (holeAttribute (fun _ grp => some grp.identity) none c,
      mirrorOf rt disk mapIds root entries entry.dropLast) =
        mirrorRow rt disk mapIds root entries entry.dropLast := by
    refine (mirrors.row_of_mem ?_).2
    rw [parentRows, found, oldRows]
    simp
  have newRow : mirrorRow rt disk mapIds root (entries ++ [entry]) entry.dropLast =
      (holeAttribute (fun _ grp => some grp.identity) none c,
        mirrorOf rt disk mapIds root (entries ++ [entry]) entry.dropLast) :=
    Prod.ext (congrArg Prod.fst hole).symm rfl
  have others : ∀ dir, dir ≠ entry.dropLast →
      mirrorRow rt disk mapIds root (entries ++ [entry]) dir =
        mirrorRow rt disk mapIds root entries dir := by
    intro dir different
    rw [mirrorRow, mirrorRow, mirrorOf_append_singleton fun _ => different.symm]
    rfl
  obtain ⟨left, right, split⟩ := List.append_of_mem member
  have nodup := mirrors.nodup
  rw [split] at nodup
  have apart : ∀ dir ∈ left ++ right, dir ≠ entry.dropLast := by
    rintro dir inside rfl
    have moved := List.perm_middle.nodup_iff.mp nodup
    exact (List.nodup_cons.mp moved).1 inside
  rw [mirrorRows, split, List.map_append, List.map_cons, ← hole] at rows
  have rest : (before ++ after).Perm
      (left.map (mirrorRow rt disk mapIds root entries) ++
        right.map (mirrorRow rt disk mapIds root entries)) :=
    ((List.perm_middle.symm.trans rows).trans List.perm_middle).cons_inv
  rw [parentRows, newRows, mirrorRows, dirs, split, List.map_append, List.map_cons, newRow,
    List.map_congr_left fun dir inside =>
      others dir (apart dir (List.mem_append_left _ inside)),
    List.map_congr_left fun dir inside =>
      others dir (apart dir (List.mem_append_right _ inside))]
  exact List.perm_middle.trans ((rest.cons _).trans List.perm_middle.symm)

/-- An entry that is neither a directory nor opened does not change the mirror. -/
theorem skip (mirrors : Mirrors rt disk mapIds root entries qgp)
    {entry : Path}
    (notDirectory : disk.isDirectory entry = false)
    (notStore : isStoreEntry disk entry = false) :
    Mirrors rt disk mapIds root (entries ++ [entry]) qgp := by
  have dirs : directories disk root (entries ++ [entry]) =
      directories disk root entries := by
    simp [directories, notDirectory]
  refine ⟨?_, dirs ▸ mirrors.nodup, dirs ▸ mirrors.below⟩
  have sameRows : ∀ dir, mirrorRow rt disk mapIds root (entries ++ [entry]) dir =
      mirrorRow rt disk mapIds root entries dir := by
    intro dir
    simp [mirrorRow, mirrorOf_append_singleton, notStore]
  rw [mirrorRows, dirs, List.map_congr_left fun dir _ => sameRows dir]
  exact mirrors.rows

/-- One more entry of the listing. -/
theorem initEntry_mirrors (mirrors : Mirrors rt disk mapIds root entries qgp)
    {entry : Path}
    (inside : root <+: entry)
    (parent : entry.dropLast ∈ directories disk root entries)
    (isNew : entry ∉ directories disk root entries)
    (noContents : ∀ other ∈ entries, ¬ entry <+: other)
    (first : disk.isDirectory entry = true ∨ isStoreEntry disk entry = true →
      ∀ dir ∈ directories disk root entries,
        dir.filename = Path.filename entry.dropLast → entry.dropLast <+: dir)
    (readable : isStoreEntry disk entry = true →
      (openFile rt disk entry true {}).1 = true) :
    ∃ qgp', initEntry rt disk mapIds root.filename entry qgp = (true, qgp') ∧
      Mirrors rt disk mapIds root (entries ++ [entry]) qgp' := by
  dsimp only [initEntry]
  by_cases file : disk.isFile entry = true
  · have notDirectory : disk.isDirectory entry = false := by
      obtain ⟨contents, node⟩ := FileSystem.isFile_iff.mp file
      simp [FileSystem.isDirectory, node]
    rw [if_pos file]
    by_cases isIds : entry.filename = "ids.dat"
    · rw [if_pos isIds]
      exact ⟨qgp, rfl, mirrors.skip notDirectory (by simp [isStoreEntry, isIds])⟩
    · have isStore : isStoreEntry disk entry = true := by
        simp [isStoreEntry, file, isIds]
      obtain ⟨c, groups, found, notBefore, _⟩ :=
        mirrors.exists_first parent (first (Or.inr isStore))
      have opened : openFile rt disk entry true {} = (true, storeOf rt disk entry) :=
        Prod.ext (readable isStore) rfl
      have placed : placeHere rt disk mapIds entry entry.filename true
          (.node (mirrorOf rt disk mapIds root entries entry.dropLast) groups) =
            (true, .node (mirrorOf rt disk mapIds root (entries ++ [entry])
              entry.dropLast) groups) := by
        rw [mirrorOf_append_file isStore]
        simp [placeHere, opened]
      rw [if_neg isIds, found,
        initQuestionBank_of_first (by rfl) notBefore (by rw [placed]), placed]
      exact ⟨_, rfl, mirrors.addFile isStore parent found⟩
  · rw [if_neg file]
    have notStore : isStoreEntry disk entry = false := by
      simp [isStoreEntry, file]
    by_cases directory : disk.isDirectory entry = true
    · rw [if_pos directory]
      obtain ⟨c, groups, found, notBefore, hole⟩ :=
        mirrors.exists_first parent (first (Or.inl directory))
      by_cases atRoot : Path.filename entry.dropLast = root.filename
      · -- only the root has its own name among the directories that hold entries
        have parentIsRoot : entry.dropLast = root := by
          have above := first (Or.inl directory) root List.mem_cons_self atRoot.symm
          exact above.eq_of_length_le (mirrors.below _ parent).length_le
        have noFrames : c = [] := by
          rcases List.eq_nil_or_concat' c with empty | ⟨frames, frame, rfl⟩
          · exact empty
          · rw [mirrorRow, if_pos parentIsRoot, holeAttribute, List.foldl_concat] at hole
            cases hole
        subst noFrames
        rw [if_pos atRoot, found]
        exact ⟨_, rfl, mirrors.addDirectory directory isNew inside noContents found⟩
      · rw [if_neg atRoot, found,
          initQuestionBank_of_first (by rfl) notBefore rfl]
        exact ⟨_, rfl, mirrors.addDirectory directory isNew inside noContents found⟩
    · rw [if_neg directory]
      exact ⟨qgp, rfl, mirrors.skip (by simpa using directory) notStore⟩

/-- The mirror of the root directory alone. -/
theorem start :
    Mirrors rt disk mapIds root [] (withRoot root (.node {} [])) := by
  refine ⟨?_, by simp [directories], by simp [directories]⟩
  have isRoot : mirrorRow rt disk mapIds root [] root =
      (none, { strName := root.filename, strPath := root }) := by
    simp [mirrorRow, mirrorOf, storesIn]
  simp [parentRows, withRoot, mirrorRows, directories, isRoot]

end Mirrors

/-- The whole listing, in an order that puts every directory before its contents. -/
theorem initEntries_mirrors {entries : List Path}
    (listed : disk.IsListing root entries)
    (rootDirectory : disk.node root = some .directory)
    (names : NamesFound disk root entries)
    (readable : ∀ entry ∈ entries, isStoreEntry disk entry = true →
      (openFile rt disk entry true {}).1 = true)
    {done rest : List Path}
    (split : entries = done ++ rest)
    {qgp : CQuestionGroupParam}
    (mirrors : Mirrors rt disk mapIds root done qgp) :
    ∃ qgp', initEntries rt disk mapIds root.filename rest qgp = (true, qgp') ∧
      Mirrors rt disk mapIds root entries qgp' := by
  induction rest generalizing done qgp with
  | nil =>
      rw [List.append_nil] at split
      exact ⟨qgp, rfl, split ▸ mirrors⟩
  | cons entry rest inductionHypothesis =>
      have member : entry ∈ entries := by simp [split]
      obtain ⟨inside, notRoot, present⟩ := (listed.mem_iff entry).mp member
      have order := listed.parents_first
      rw [split, List.pairwise_append, List.pairwise_cons] at order
      obtain ⟨_, ⟨notLater, _⟩, notEarlier⟩ := order
      have nodup := listed.nodup
      rw [split, List.nodup_append] at nodup
      have parent : entry.dropLast ∈ directories disk root done := by
        by_cases top : entry.dropLast = root
        · exact top ▸ List.mem_cons_self
        · apply List.mem_cons_of_mem
          rw [List.mem_filter]
          have nonempty : entry ≠ [] := by
            rintro rfl
            exact present disk.node_nil
          have whole := Path.dropLast_append_filename nonempty
          have above : root <+: entry.dropLast := by
            rw [← whole, List.prefix_concat_iff, whole] at inside
            exact inside.resolve_left notRoot
          have parentDirectory : disk.node entry.dropLast = some .directory := by
            apply FileSystem.directory_above present (List.dropLast_prefix entry)
            · intro same
              have shorter := congrArg List.length same
              rw [List.length_dropLast] at shorter
              have := List.length_pos_iff.mpr nonempty
              omega
            · intro empty
              rw [empty, List.prefix_nil] at above
              exact top (empty.trans above.symm)
          refine ⟨?_, FileSystem.isDirectory_iff.mpr parentDirectory⟩
          have isEntry : entry.dropLast ∈ entries :=
            (listed.mem_iff _).mpr ⟨above, Ne.symm top, by simp [parentDirectory]⟩
          rw [split, List.mem_append, List.mem_cons] at isEntry
          rcases isEntry with earlier | same | later
          · exact earlier
          · have shorter := congrArg List.length same
            rw [List.length_dropLast] at shorter
            have := List.length_pos_iff.mpr nonempty
            omega
          · exact absurd (List.dropLast_prefix entry) (notLater _ later)
      have isNew : entry ∉ directories disk root done := by
        intro old
        rcases List.mem_cons.mp old with same | listedBefore
        · exact notRoot same.symm
        · exact nodup.2.2 entry (List.mem_of_mem_filter listedBefore) entry
            List.mem_cons_self rfl
      have sublist : ∀ dir ∈ directories disk root done,
          dir ∈ directories disk root entries := by
        intro dir old
        rw [split, directories, List.filter_append]
        rcases List.mem_cons.mp old with rfl | listedBefore
        · exact List.mem_cons_self
        · exact List.mem_cons_of_mem _ (List.mem_append_left _ listedBefore)
      obtain ⟨next, placed, mirrors'⟩ := mirrors.initEntry_mirrors inside parent isNew
        (fun other earlier => notEarlier other earlier entry List.mem_cons_self)
        (fun holds dir old sameName => names entry member holds dir (sublist dir old) sameName)
        (readable entry member)
      rw [initEntries, placed]
      exact inductionHypothesis (by rw [split, List.append_assoc]; rfl) mirrors'

end Mirror

/-- The bank that `init` makes of a directory tree whose registry and files can be read,
and in which every directory that holds an entry is above all directories of its name. -/
theorem init_of_readable (rt : Runtime) {disk : Disk} {refusals : Refusals} {root : Path}
    {listing : Listing}
    (rootDirectory : disk.node root = some .directory)
    (registryFile : disk.node (idsPath root) ≠ some .directory)
    {items : List QuestionAnswerGroup}
    (registry : decodedAt rt.parseGroups disk (idsPath root) = some items)
    (readable : ∀ entry ∈ listing.entries, isStoreEntry disk entry = true →
      (decodedAt rt.parseQuestions disk entry).isSome = true)
    (listed : disk.IsListing root listing.entries)
    (complete : listing.failed = false)
    (names : NamesFound disk root listing.entries) :
    ∃ tree, (fresh disk refusals).init rt root listing =
        (.value true,
          { clsQuestionBank := tree
            strIdPath := idsPath root
            regs :=
              { disk := disk
                refusals := refusals
                mapIds := registryOf items []
                ptrIds := some { strPath := idsPath root, lstGroups := items } } }) ∧
      (parentRows tree).Perm
        (mirrorRows rt disk (registryOf items []) root listing.entries) := by
  have opens : ∀ entry ∈ listing.entries, isStoreEntry disk entry = true →
      (openFile rt disk entry true {}).1 = true := by
    intro entry member isStore
    obtain ⟨questions, decoded⟩ := Option.isSome_iff_exists.mp (readable entry member isStore)
    have file := (isFile_of_isStoreEntry isStore).1
    obtain ⟨contents, node⟩ := FileSystem.isFile_iff.mp file
    rw [openFile_questions_iff.mpr
      ⟨(hasParent_of_isFile file).1, by simp [node], questions, decoded, rfl⟩]
  have start : Mirrors rt disk (registryOf items []) root [] (withRoot root (.node {} [])) :=
    Mirrors.start
  obtain ⟨tree, placed, mirrors⟩ := initEntries_mirrors listed rootDirectory names opens
    (List.nil_append _).symm start
  have registryOpens := openFile_groups_iff.mpr
    ⟨idsPath_ne_nil root, registryFile, items, registry, rfl⟩
  have initialised := init_of_placed (b := fresh disk refusals) rootDirectory registryOpens
    placed complete
  exact ⟨tree, initialised, mirrors.rows⟩

/-- On every directory tree whose registry and files can be read, and in which every
directory that holds an entry is above all directories of its name, `init` returns
true and builds the mirror of the directories. -/
theorem init_mirrors (rt : Runtime) {disk : Disk} {refusals : Refusals} {root : Path}
    {listing : Listing}
    (rootDirectory : disk.node root = some .directory)
    (registryFile : disk.node (idsPath root) ≠ some .directory)
    {items : List QuestionAnswerGroup}
    (registry : decodedAt rt.parseGroups disk (idsPath root) = some items)
    (readable : ∀ entry ∈ listing.entries, isStoreEntry disk entry = true →
      (decodedAt rt.parseQuestions disk entry).isSome = true)
    (listed : disk.IsListing root listing.entries)
    (complete : listing.failed = false)
    (names : NamesFound disk root listing.entries) :
    ∃ b, (fresh disk refusals).init rt root listing = (.value true, b) ∧
      b.regs.disk = disk ∧
      b.regs.mapIds = registryOf items [] ∧
      (parentRows b.clsQuestionBank).Perm
        (mirrorRows rt disk b.regs.mapIds root listing.entries) := by
  obtain ⟨tree, initialised, rows⟩ := @init_of_readable rt disk refusals root listing
    rootDirectory registryFile items registry readable listed complete names
  exact ⟨_, initialised, rfl, rfl, rows⟩

/-- A bank directory in which one sub-directory bears the name of its parent. -/
def nestedDisk : Disk :=
  FileSystem.ofNodes
    [(["root"], .directory),
     (["root", "Words"], .directory),
     (["root", "Words", "Words"], .directory),
     (["root", "Words", "w.dat"], .file []),
     (["root", "ids.dat"],
       .file (Runtime.wire.serializeGroups [{ id := "w", group := "Words" }]))]

theorem init_mirrors_nestedDisk :
    ∃ b, (fresh nestedDisk Refusals.never).init .wire ["root"]
        { entries :=
            [["root", "Words"], ["root", "Words", "Words"], ["root", "Words", "w.dat"],
             ["root", "ids.dat"]] } = (.value true, b) ∧
      b.regs.disk = nestedDisk ∧
      b.regs.mapIds = registryOf [{ id := "w", group := "Words" }] [] ∧
      (parentRows b.clsQuestionBank).Perm
        (mirrorRows .wire nestedDisk b.regs.mapIds ["root"]
          [["root", "Words"], ["root", "Words", "Words"], ["root", "Words", "w.dat"],
           ["root", "ids.dat"]]) :=
  init_mirrors .wire (by decide +kernel) (by decide +kernel) (by decide +kernel)
    (by decide +kernel) (by decide +kernel) rfl (by decide +kernel)

/-- Two directories of one name in different places. -/
def twinDisk : Disk :=
  FileSystem.ofNodes
    [(["root"], .directory),
     (["root", "A"], .directory),
     (["root", "A", "X"], .directory),
     (["root", "B"], .directory),
     (["root", "B", "X"], .directory),
     (["root", "B", "X", "x.dat"], .file [])]

/-- A listing of the two directories of one name. -/
def twinListing : Listing :=
  { entries :=
      [["root", "A"], ["root", "A", "X"], ["root", "B"], ["root", "B", "X"],
       ["root", "B", "X", "x.dat"]] }

/-- The file of the second of two directories of one name is opened as a store of the
group of the first. -/
theorem init_misplaces_twin :
    twinDisk.IsListing ["root"] twinListing.entries ∧
      (∀ entry ∈ twinListing.entries, isStoreEntry twinDisk entry = true →
        (decodedAt Runtime.wire.parseQuestions twinDisk entry).isSome = true) ∧
      ((fresh twinDisk Refusals.never).init .wire ["root"] twinListing).1 = .value true ∧
      ∃ grp ∈ ((fresh twinDisk Refusals.never).init .wire ["root"]
          twinListing).2.clsQuestionBank.preorder,
        ∃ ctx ∈ grp.vecQuestions, ctx.strPath.dropLast ≠ grp.strPath := by
  decide +kernel

end CQuestionBankImpl

end Notebook
