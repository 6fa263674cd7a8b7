import Notebook.Groups.Agreement
import Notebook.Init.Mirror

/-!
# Banks that agree with their directory

A bank agrees with the directory of its path when the three copies of the registry
agree, every group has its directory below that of its parent, and the directory holds
nothing but `ids.dat`, the directories of the groups and the files of their stores.
-/

namespace Notebook

open RoseTree CQuestionAnswerImpl CQuestionBankImpl

/-! ## Names and ids -/

/-- A name that a group can get below a root directory. -/
structure IsGroupName (root : Path) (name : String) : Prop where
  component : IsComponent name
  not_root : name ≠ root.filename
  not_dat : ¬ ".dat".toList <:+ name.toList

instance (root : Path) (name : String) : Decidable (IsGroupName root name) :=
  decidable_of_iff
    (IsComponent name ∧ name ≠ root.filename ∧ ¬ ".dat".toList <:+ name.toList)
    ⟨fun h => ⟨h.1, h.2.1, h.2.2⟩, fun h => ⟨h.component, h.not_root, h.not_dat⟩⟩

/-- Hexadecimal digits and the hyphen. -/
def isUuidChar (c : Char) : Bool :=
  ('0' ≤ c && c ≤ '9') || ('a' ≤ c && c ≤ 'f') || ('A' ≤ c && c ≤ 'F') || c = '-'

/-- A text of the characters that texts of UUIDs have. -/
structure IsUuidText (id : String) : Prop where
  ne_empty : id ≠ ""
  chars : id.toList.all isUuidChar = true

instance (id : String) : Decidable (IsUuidText id) :=
  decidable_of_iff (id ≠ "" ∧ id.toList.all isUuidChar = true)
    ⟨fun h => ⟨h.1, h.2⟩, fun h => ⟨h.ne_empty, h.chars⟩⟩

/-- A text that ends in the extension is no name of a group. -/
theorem IsGroupName.ne_append_dat {root : Path} {name : String}
    (isName : IsGroupName root name) (text : String) : name ≠ text ++ ".dat" := by
  rintro rfl
  apply isName.not_dat
  rw [String.toList_append]
  exact List.suffix_append _ _

theorem IsGroupName.ne_ids {root : Path} {name : String}
    (isName : IsGroupName root name) : name ≠ "ids.dat" :=
  isName.ne_append_dat "ids"

namespace IsUuidText

variable {id : String}

theorem char_of_mem (isId : IsUuidText id) {c : Char} (member : c ∈ id.toList) :
    isUuidChar c = true :=
  List.all_eq_true.mp isId.chars c member

/-- The file of a group lies in its directory. -/
theorem component (isId : IsUuidText id) : IsComponent (id ++ ".dat") := by
  have long : ∀ text : String, text.toList.length < 4 → id ++ ".dat" ≠ text := by
    rintro text short rfl
    rw [String.toList_append, List.length_append] at short
    have extension : ".dat".toList.length = 4 := by decide
    omega
  refine ⟨?_, long "" (by decide), long "." (by decide), long ".." (by decide)⟩
  intro c member
  rw [String.toList_append, List.mem_append] at member
  rcases member with inId | inExtension
  · rw [← Bool.not_eq_true]
    intro separates
    have allowed := isId.char_of_mem inId
    simp only [Path.isSeparator, Bool.or_eq_true, decide_eq_true_eq] at separates
    rcases separates with rfl | rfl
    · exact absurd allowed (by decide)
    · exact absurd allowed (by decide)
  · have extension : ".dat".toList.all (fun c => Path.isSeparator c = false) = true := by
      decide
    exact of_decide_eq_true (List.all_eq_true.mp extension c inExtension)

/-- The file of a group is not the registry. -/
theorem ne_ids (isId : IsUuidText id) : id ++ ".dat" ≠ "ids.dat" := by
  intro same
  have texts := congrArg String.toList same
  have parts : "ids.dat".toList = "ids".toList ++ ".dat".toList := by decide
  rw [String.toList_append, parts] at texts
  have isIds := List.append_cancel_right texts
  have notAllowed : isUuidChar 's' = false := by decide
  rw [isId.char_of_mem (c := 's') (by rw [isIds]; decide)] at notAllowed
  cases notAllowed

end IsUuidText

/-! ## The invariant -/

/-- A group below the root that the disk keeps: its directory stands, and it has one
store at most, on the file of its id. Without a store there is no such file. -/
structure GroupMembers.Kept (root : Path) (disk : Disk) (grp : GroupMembers) : Prop where
  name : IsGroupName root grp.strName
  id : IsUuidText grp.strId
  single : grp.vecQuestions.length ≤ 1
  stores : ∀ ctx ∈ grp.vecQuestions, ctx.strPath = grp.datPath ∧ ctx.lstGroups = [] ∧
    KeyedList.DistinctKeys QuestionAnswer.id ctx.lstQuestions
  directory : disk.node grp.strPath = some .directory
  not_directory : disk.node grp.datPath ≠ some .directory
  unopened : grp.vecQuestions = [] → disk.node grp.datPath = none

/-- The tree, the registry and the directories of a bank on a path agree. -/
structure Sound (root : Path) (b : CQuestionBankImpl) : Prop where
  agrees : Agrees b
  ids : ∀ ids ∈ b.regs.ptrIds, ids.strPath = idsPath root ∧ ids.lstQuestions = []
  root_group : b.clsQuestionBank.label = { strName := root.filename, strPath := root }
  rows : ∀ row ∈ parentRows b.clsQuestionBank, ∀ above ∈ row.1,
    row.2.strPath = above.2.2 ++ [row.2.strName]
  groups : ∀ grp ∈ b.groups, grp.Kept root b.regs.disk
  root_directory : b.regs.disk.node root = some .directory
  ids_file : b.regs.disk.node (idsPath root) ≠ some .directory
  entries : ∀ p, root <+: p → root ≠ p → b.regs.disk.node p ≠ none →
    p = idsPath root ∨ ∃ grp ∈ b.groups, p = grp.strPath ∨ p = grp.datPath
  refusals : b.regs.refusals = Refusals.never

namespace GroupMembers.Kept

variable {root : Path} {disk : Disk} {grp : GroupMembers}

theorem datPath_eq (kept : grp.Kept root disk) :
    grp.datPath = grp.strPath ++ [grp.strId ++ ".dat"] :=
  kept.id.component.join grp.strPath

theorem datPath_ne_ids (kept : grp.Kept root disk) : grp.datPath ≠ idsPath root := by
  rw [kept.datPath_eq, idsPath]
  intro same
  exact kept.id.ne_ids (List.singleton_inj.mp (List.append_inj' same rfl).2)

theorem strPath_ne_nil (kept : grp.Kept root disk) : grp.strPath ≠ [] := by
  intro empty
  have directory := kept.directory
  rw [empty, disk.node_nil] at directory
  cases directory

theorem usable (kept : grp.Kept root disk) : grp.Usable disk where
  single := kept.single
  opened ctx member := by
    rw [(kept.stores ctx member).1]
    exact grp.datPath_ne_nil
  distinct ctx member := (kept.stores ctx member).2.2
  unopened empty := FileSystem.isPresent_eq_false_iff.mpr (kept.unopened empty)

/-- The store that a question operation acts on is on the file of the id. -/
theorem context (kept : grp.Kept root disk) :
    grp.context.strPath = grp.datPath ∧ grp.context.lstGroups = [] := by
  unfold GroupMembers.context
  split
  · exact ⟨rfl, rfl⟩
  · rename_i ctx rest stores
    obtain ⟨path, groups, _⟩ := kept.stores ctx (by simp [stores])
    exact ⟨path, groups⟩

end GroupMembers.Kept

namespace Sound

variable {root : Path} {b : CQuestionBankImpl}

theorem mem_preorder (sound : Sound root b) {grp : GroupMembers} :
    grp ∈ b.clsQuestionBank.preorder ↔
      grp = { strName := root.filename, strPath := root } ∨ grp ∈ b.groups := by
  rw [preorder_eq_label_cons, List.mem_cons, sound.root_group]
  rfl

/-- The group above another one. -/
theorem exists_parent (sound : Sound root b) {grp : GroupMembers} (present : grp ∈ b.groups) :
    ∃ parent ∈ b.clsQuestionBank.preorder,
      (some parent.identity, grp) ∈ parentRows b.clsQuestionBank ∧
        grp.strPath = parent.strPath ++ [grp.strName] := by
  obtain ⟨parent, member, isRow⟩ := exists_parentRow present
  exact ⟨parent, member, isRow, sound.rows _ isRow _ rfl⟩

theorem filename (sound : Sound root b) {grp : GroupMembers}
    (present : grp ∈ b.clsQuestionBank.preorder) :
    grp.strPath.filename = grp.strName := by
  rcases sound.mem_preorder.mp present with rfl | below
  · rfl
  · obtain ⟨parent, _, _, path⟩ := sound.exists_parent below
    rw [path, Path.filename_append_singleton]

theorem distinct_names (sound : Sound root b) :
    (b.clsQuestionBank.preorder.map GroupMembers.strName).Nodup := by
  have below := sound.agrees.distinctNames
  rw [groupPairs, List.map_map] at below
  rw [preorder_eq_label_cons, List.map_cons, List.nodup_cons]
  refine ⟨?_, below⟩
  intro member
  obtain ⟨grp, present, same⟩ := List.mem_map.mp member
  rw [sound.root_group] at same
  exact (sound.groups grp present).name.not_root same

/-- The name tells a group. -/
theorem eq_of_strName (sound : Sound root b) {grp grp' : GroupMembers}
    (present : grp ∈ b.clsQuestionBank.preorder)
    (present' : grp' ∈ b.clsQuestionBank.preorder)
    (same : grp.strName = grp'.strName) : grp = grp' :=
  List.inj_on_of_nodup_map sound.distinct_names present present' same

/-- The path tells a group. -/
theorem eq_of_strPath (sound : Sound root b) {grp grp' : GroupMembers}
    (present : grp ∈ b.clsQuestionBank.preorder)
    (present' : grp' ∈ b.clsQuestionBank.preorder)
    (same : grp.strPath = grp'.strPath) : grp = grp' := by
  apply sound.eq_of_strName present present'
  rw [← sound.filename present, ← sound.filename present', same]

/-- The file tells a group. -/
theorem eq_of_datPath (sound : Sound root b) {grp grp' : GroupMembers}
    (present : grp ∈ b.groups) (present' : grp' ∈ b.groups)
    (same : grp.datPath = grp'.datPath) : grp = grp' := by
  rw [(sound.groups grp present).datPath_eq, (sound.groups grp' present').datPath_eq] at same
  exact sound.eq_of_strPath (mem_preorder_of_mem_descendants present)
    (mem_preorder_of_mem_descendants present') (List.append_inj' same rfl).1

/-- Every group lies at or below the root directory. -/
theorem root_prefix (sound : Sound root b) {grp : GroupMembers}
    (present : grp ∈ b.clsQuestionBank.preorder) : root <+: grp.strPath := by
  have extend : ExtendsPaths GroupMembers.strPath none b.clsQuestionBank :=
    extendsPaths_of_parentRows fun row member above isAbove =>
      ⟨row.2.strName, sound.rows row member above isAbove⟩
  have below := extend.prefix_label grp present
  rw [sound.root_group] at below
  exact below

theorem ne_root (sound : Sound root b) {grp : GroupMembers} (present : grp ∈ b.groups) :
    root ≠ grp.strPath := by
  intro same
  obtain ⟨parent, isGroup, _, path⟩ := sound.exists_parent present
  have above := (sound.root_prefix isGroup).length_le
  rw [same, path, List.length_append, List.length_singleton] at above
  omega

theorem ready (sound : Sound root b) : b.QuestionsReady where
  root_id := sound.agrees.root
  empty_id := by
    rw [IdMap.contains_eq_false_iff, (sound.agrees.mapIds.map Prod.fst).mem_iff, groupPairs,
      List.map_map]
    intro member
    obtain ⟨grp, present, same⟩ := List.mem_map.mp member
    exact (sound.groups grp present).id.ne_empty same
  id_ne_empty grp present := (sound.groups grp present).id.ne_empty
  distinct_ids := sound.agrees.nodup_ids
  registered grp present := by
    rw [IdMap.contains_iff, (sound.agrees.mapIds.map Prod.fst).mem_iff, groupPairs,
      List.map_map]
    exact List.mem_map_of_mem (f := Prod.fst ∘ GroupMembers.pair) present
  usable grp present := (sound.groups grp present).usable

end Sound

end Notebook
