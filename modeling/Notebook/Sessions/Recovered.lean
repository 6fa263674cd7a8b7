import Notebook.Sessions.Interrupted

/-!
# The session after one that was not closed

The directories that an interrupted session leaves are those of its groups, and their
files those of the groups that were there when it began. `init` reads them like a closed
bank, with the ids of the registry that the interrupted session had read.
-/

namespace Notebook

open RoseTree KeyedList CQuestionAnswerImpl CQuestionBankImpl

/-! ## What the disk holds of a bank -/

/-- The records in the file of a group. -/
def recordsOnDisk (rt : Runtime) (disk : Disk) (grp : GroupMembers) : List QuestionAnswer :=
  (decodedAt rt.parseQuestions disk grp.datPath).getD []

/-- A group with the store that its file makes. -/
def GroupMembers.onDisk (rt : Runtime) (disk : Disk) (grp : GroupMembers) : GroupMembers :=
  { grp with
    vecQuestions :=
      if recordsOnDisk rt disk grp = [] then []
      else [{ strPath := grp.datPath, lstQuestions := recordsOnDisk rt disk grp }] }

@[simp] theorem GroupMembers.onDisk_records (rt : Runtime) (disk : Disk) (grp : GroupMembers) :
    (grp.onDisk rt disk).records = recordsOnDisk rt disk grp := by
  unfold onDisk
  by_cases empty : recordsOnDisk rt disk grp = []
  · rw [if_pos empty, empty]
    rfl
  · rw [if_neg empty]
    exact List.append_nil _

/-- The bank with the stores that its disk makes. -/
def CQuestionBankImpl.onDisk (rt : Runtime) (b : CQuestionBankImpl) : CQuestionBankImpl :=
  { b with clsQuestionBank := b.clsQuestionBank.map (GroupMembers.onDisk rt b.regs.disk) }

theorem CQuestionBankImpl.sameOutline_onDisk (rt : Runtime) (b : CQuestionBankImpl) :
    SameOutline b (b.onDisk rt) := by
  refine ⟨?_, rfl, rfl, rfl, rfl, rfl⟩
  rw [onDisk, RoseTree.map_map]
  exact RoseTree.map_congr fun _ _ => rfl

theorem CQuestionBankImpl.groups_onDisk (rt : Runtime) (b : CQuestionBankImpl) :
    (b.onDisk rt).groups = b.groups.map (GroupMembers.onDisk rt b.regs.disk) :=
  descendants_map _ _

/-- The id that a walk finds for a name that no entry has. -/
theorem IdMap.idOfName_of_absent (rt : Runtime) {map : IdMap} {name : String}
    (absent : ∀ kv ∈ map, kv.2 ≠ name) : map.idOfName rt name = "" := by
  by_contra found
  exact absent _ (IdMap.idOfName_mem rt found) rfl

section Recovery

variable {rt : Runtime} {root : Path} {deleted : String → Prop}
  {opened b : CQuestionBankImpl} {items : List QuestionAnswerGroup}

/-- The file of a group is absent, or that of a group that was there at the start. -/
theorem ReadBack.file_cases (read : ReadBack rt root opened items)
    (since : SinceOpened root deleted opened b) {grp : GroupMembers}
    (present : grp ∈ b.groups) :
    (b.regs.disk.node grp.datPath = none ∧
        decodedAt rt.parseQuestions b.regs.disk grp.datPath = some []) ∨
      ∃ old ∈ opened.groups, old.datPath = grp.datPath ∧ old.records ≠ [] ∧
        b.regs.disk.node grp.datPath ≠ none ∧
        decodedAt rt.parseQuestions b.regs.disk grp.datPath = some old.records := by
  have kept := since.sound.groups grp present
  rcases node : b.regs.disk.node grp.datPath with _ | _ | contents
  · left
    exact ⟨rfl, by rw [decodedAt, FileSystem.contentsAt_of_absent node]⟩
  · exact absurd node kept.not_directory
  · right
    have wasFile := since.files _ contents node
    have below : root <+: grp.datPath := by
      rw [kept.datPath_eq]
      exact (since.sound.root_prefix (mem_preorder_of_mem_descendants present)).trans
        (List.prefix_append _ _)
    have notRoot : root ≠ grp.datPath := by
      intro same
      have directory := read.sound.root_directory
      rw [same, wasFile] at directory
      cases directory
    rcases read.sound.entries _ below notRoot (by rw [wasFile]; simp) with
      isIds | ⟨old, isGroup, isDirectory | isFile⟩
    · exact absurd isIds kept.datPath_ne_ids
    · have directory := (read.sound.groups old isGroup).directory
      rw [← isDirectory, wasFile] at directory
      cases directory
    · have nonempty : old.records ≠ [] := by
        intro empty
        have absent := (read.left.absent old isGroup).mpr empty
        rw [← isFile, wasFile] at absent
        cases absent
      refine ⟨old, isGroup, isFile.symm, nonempty, by simp, ?_⟩
      rw [← read.left.records old isGroup, ← isFile]
      exact decodedAt_congr _ (FileSystem.contentsAt_congr (node.trans wasFile.symm))

/-- The records of the group are none, or those that it had at the start. -/
theorem ReadBack.recordsOnDisk_cases (read : ReadBack rt root opened items)
    (since : SinceOpened root deleted opened b) {grp : GroupMembers}
    (present : grp ∈ b.groups) :
    decodedAt rt.parseQuestions b.regs.disk grp.datPath =
        some (recordsOnDisk rt b.regs.disk grp) ∧
      (b.regs.disk.node grp.datPath = none ↔ recordsOnDisk rt b.regs.disk grp = []) ∧
      (recordsOnDisk rt b.regs.disk grp = [] ∨ ∃ old ∈ opened.groups,
        old.datPath = grp.datPath ∧ recordsOnDisk rt b.regs.disk grp = old.records) := by
  rw [recordsOnDisk]
  rcases read.file_cases since present with
    ⟨absent, decoded⟩ | ⟨old, isGroup, samePath, nonempty, isFile, decoded⟩
  · rw [decoded]
    exact ⟨rfl, iff_of_true absent rfl, Or.inl rfl⟩
  · rw [decoded]
    exact ⟨rfl, iff_of_false isFile nonempty, Or.inr ⟨old, isGroup, samePath, rfl⟩⟩

/-- The root has no file of its own. -/
theorem Sound.recordsOnDisk_root (rt : Runtime) (sound : Sound root b) :
    recordsOnDisk rt b.regs.disk b.clsQuestionBank.label = [] := by
  have file : GroupMembers.datPath { strName := root.filename, strPath := root } =
      root ++ [".dat"] := IsComponent.join (show IsComponent ".dat" by decide) root
  have absent : b.regs.disk.node (root ++ [".dat"]) = none := by
    by_contra present
    rcases sound.entries _ (List.prefix_append _ _) (by simp) present with
      isIds | ⟨grp, isGroup, isPath | isFile⟩
    · exact absurd (List.singleton_inj.mp (List.append_inj' isIds rfl).2) (by decide)
    · have kept := sound.groups grp isGroup
      apply kept.name.ne_append_dat ""
      rw [← sound.filename (mem_preorder_of_mem_descendants isGroup), ← isPath,
        Path.filename_append_singleton]
      decide
    · have kept := sound.groups grp isGroup
      rw [kept.datPath_eq] at isFile
      have sameFile := List.singleton_inj.mp (List.append_inj' isFile rfl).2
      have texts := congrArg String.toList sameFile
      rw [String.toList_append] at texts
      apply kept.id.ne_empty
      rw [← String.toList_eq_nil_iff]
      exact List.append_left_eq_self.mp texts.symm
  rw [recordsOnDisk, sound.root_group, file, decodedAt, FileSystem.contentsAt_of_absent absent]
  rfl

/-- The disk keeps a group with the store that its file makes. -/
theorem ReadBack.kept_onDisk (read : ReadBack rt root opened items)
    (since : SinceOpened root deleted opened b) {grp : GroupMembers}
    (present : grp ∈ b.groups) : (grp.onDisk rt b.regs.disk).Kept root b.regs.disk := by
  have kept := since.sound.groups grp present
  refine ⟨kept.name, kept.id, ?_, ?_, kept.directory, kept.not_directory, ?_⟩
  · unfold GroupMembers.onDisk
    split <;> simp
  · intro ctx isStore
    unfold GroupMembers.onDisk at isStore
    split at isStore
    · cases isStore
    · rename_i nonempty
      rw [List.mem_singleton.mp isStore]
      refine ⟨rfl, rfl, ?_⟩
      obtain ⟨old, isGroup, _, same⟩ :=
        (read.recordsOnDisk_cases since present).2.2.resolve_left nonempty
      have usable := (read.sound.groups old isGroup).usable
      rw [same, usable.records_eq]
      exact usable.context_distinct
  · intro noStore
    unfold GroupMembers.onDisk at noStore
    split at noStore
    · rename_i empty
      exact (read.recordsOnDisk_cases since present).2.1.mpr empty
    · cases noStore

/-- What the disk holds of the bank can be read and agrees with the directory. -/
theorem ReadBack.sound_onDisk (read : ReadBack rt root opened items)
    (since : SinceOpened root deleted opened b) : Sound root (b.onDisk rt) := by
  apply since.sound.of_sameOutline (b.sameOutline_onDisk rt)
  · rw [CQuestionBankImpl.onDisk, label_map, GroupMembers.onDisk,
      if_pos (since.sound.recordsOnDisk_root rt), since.sound.root_group]
  · intro grp' member
    rw [b.groups_onDisk] at member
    obtain ⟨grp, present, rfl⟩ := List.mem_map.mp member
    exact read.kept_onDisk since present

theorem ReadBack.left_onDisk (read : ReadBack rt root opened items)
    (since : SinceOpened root deleted opened b) :
    LeftOnDisk rt root (b.onDisk rt) items b.regs.disk := by
  refine ⟨fun _ => Iff.rfl, ?_, ?_, ?_, (read.sound_onDisk since).entries⟩
  · rw [← read.left.registry]
    exact decodedAt_congr _ (FileSystem.contentsAt_congr since.registry)
  · intro grp' member
    rw [b.groups_onDisk] at member
    obtain ⟨grp, present, rfl⟩ := List.mem_map.mp member
    rw [GroupMembers.onDisk_records]
    exact (read.recordsOnDisk_cases since present).1
  · intro grp' member
    rw [b.groups_onDisk] at member
    obtain ⟨grp, present, rfl⟩ := List.mem_map.mp member
    rw [GroupMembers.onDisk_records]
    exact (read.recordsOnDisk_cases since present).2.1

/-! ## What the next `init` makes of it -/

/-- The row that `init` makes of a row of the interrupted bank: the ids are those that the
registry has for the names. -/
def recoveredRow (rt : Runtime) (mapIds : IdMap) (disk : Disk)
    (row : Option (String × String × Path) × GroupMembers) :
    Option (String × String × Path) × GroupMembers :=
  (row.1.map fun above => (mapIds.idOfName rt above.2.1, above.2),
    { row.2.onDisk rt disk with strId := mapIds.idOfName rt row.2.strName })

/-- No registered group has the name of the root directory. -/
theorem ReadBack.idOfName_root (read : ReadBack rt root opened items) :
    (registryOf items []).idOfName rt root.filename = "" := by
  apply IdMap.idOfName_of_absent rt
  rintro kv member
  rw [← read.mapIds, read.sound.agrees.mapIds.mem_iff] at member
  obtain ⟨grp, present, rfl⟩ := List.mem_map.mp member
  exact (read.sound.groups grp present).name.not_root

/-- The group that `init` makes of the directory of a group. -/
theorem ReadBack.mirrorOf_eq (read : ReadBack rt root opened items)
    (since : SinceOpened root deleted opened b) {entries : List Path}
    (listed : b.regs.disk.IsListing root entries) {grp : GroupMembers}
    (present : grp ∈ b.clsQuestionBank.preorder) :
    mirrorOf rt b.regs.disk (registryOf items []) root entries grp.strPath =
      { grp.onDisk rt b.regs.disk with
        strId := (registryOf items []).idOfName rt grp.strName } := by
  have inDisk : grp.onDisk rt b.regs.disk ∈ (b.onDisk rt).clsQuestionBank.preorder := by
    rw [CQuestionBankImpl.onDisk, preorder_map]
    exact List.mem_map_of_mem present
  have stores := (read.left_onDisk since).storesIn_eq (read.sound_onDisk since) listed inDisk
  have unchanged : (grp.onDisk rt b.regs.disk).reopened.vecQuestions =
      (grp.onDisk rt b.regs.disk).vecQuestions := by
    rw [GroupMembers.reopened, GroupMembers.onDisk_records]
    rfl
  have path : (grp.onDisk rt b.regs.disk).strPath = grp.strPath := rfl
  rw [unchanged, path] at stores
  have id : (if grp.strPath = root then ""
      else (registryOf items []).idOfName rt grp.strPath.filename) =
        (registryOf items []).idOfName rt grp.strName := by
    rcases since.sound.mem_preorder.mp present with rfl | below
    · rw [if_pos rfl, read.idOfName_root]
    · rw [if_neg (since.sound.ne_root below).symm, since.sound.filename present]
  rw [mirrorOf, stores, id, since.sound.filename present]
  rfl

theorem ReadBack.mirrorRow_eq (read : ReadBack rt root opened items)
    (since : SinceOpened root deleted opened b) {entries : List Path}
    (listed : b.regs.disk.IsListing root entries)
    {row : Option (String × String × Path) × GroupMembers}
    (member : row ∈ parentRows b.clsQuestionBank) :
    mirrorRow rt b.regs.disk (registryOf items []) root entries row.2.strPath =
      recoveredRow rt (registryOf items []) b.regs.disk row := by
  have present : row.2 ∈ b.clsQuestionBank.preorder := snd_mem_preorder_of_mem_inherited member
  rw [mirrorRow, read.mirrorOf_eq since listed present, recoveredRow]
  congr 1
  rcases parentRows_cases member with rfl | ⟨c, parent, before, child, after, tree, rfl⟩
  · rw [since.sound.root_group]
    exact if_pos rfl
  · have below : child.label ∈ b.groups := by
      rw [CQuestionBankImpl.groups, tree]
      exact mem_descendants_plug c parent before after child.label_mem_preorder
    have isParent : parent ∈ b.clsQuestionBank.preorder := by
      rw [tree, preorder_plug]
      simp
    have path := since.sound.rows _ member parent.identity rfl
    have directory : child.label.strPath.dropLast = parent.strPath := by
      rw [path, List.dropLast_concat]
      rfl
    simp only
    rw [if_neg (since.sound.ne_root below).symm, directory, read.mirrorOf_eq since listed isParent]
    rfl

theorem ReadBack.mirrorRows_perm (read : ReadBack rt root opened items)
    (since : SinceOpened root deleted opened b) {entries : List Path}
    (listed : b.regs.disk.IsListing root entries) :
    (mirrorRows rt b.regs.disk (registryOf items []) root entries).Perm
      ((parentRows b.clsQuestionBank).map
        (recoveredRow rt (registryOf items []) b.regs.disk)) := by
  have perm := (read.left_onDisk since).directories_perm (read.sound_onDisk since) listed
  have paths : (b.onDisk rt).clsQuestionBank.preorder.map GroupMembers.strPath =
      (parentRows b.clsQuestionBank).map fun row => row.2.strPath := by
    rw [CQuestionBankImpl.onDisk, preorder_map, List.map_map, ← map_snd_parentRows, List.map_map]
    rfl
  rw [paths] at perm
  have mapped := perm.map (mirrorRow rt b.regs.disk (registryOf items []) root entries)
  rw [List.map_map] at mapped
  rw [mirrorRows]
  exact mapped.trans (List.Perm.of_eq
    (List.map_congr_left fun row member => read.mirrorRow_eq since listed member))

/-- The bank that the next session opens. -/
theorem ReadBack.next (read : ReadBack rt root opened items)
    (since : SinceOpened root deleted opened b) {entries : List Path}
    (listed : b.regs.disk.IsListing root entries) :
    ∃ next, (fresh b.regs.disk Refusals.never).init rt root { entries := entries } =
        (.value true, next) ∧
      next.regs.mapIds = opened.regs.mapIds ∧
      (parentRows next.clsQuestionBank).Perm
        ((parentRows b.clsQuestionBank).map
          (recoveredRow rt opened.regs.mapIds b.regs.disk)) := by
  have left := read.left_onDisk since
  have sound := read.sound_onDisk since
  obtain ⟨next, initialised, _, isMap, rows⟩ := @init_mirrors rt b.regs.disk Refusals.never root
    { entries := entries } since.sound.root_directory since.sound.ids_file items left.registry
    (by
      intro entry member isStore
      obtain ⟨grp, isGroup, rfl⟩ := (left.isStoreEntry_iff sound listed member).mp isStore
      rw [left.records grp isGroup]
      rfl)
    listed rfl (left.namesFound sound listed)
  rw [isMap] at rows
  rw [read.mapIds]
  exact ⟨next, initialised, isMap, rows.trans (read.mirrorRows_perm since listed)⟩

/-- What a session finds after one that opened a bank, deleted some groups and had another
bank when the program stopped. -/
structure Recovered (rt : Runtime) (deleted : String → Prop) (opened b next : CQuestionBankImpl) :
    Prop where
  registry : next.regs.mapIds = opened.regs.mapIds
  directories : (next.groups.map fun grp => (grp.strName, grp.strPath)).Perm
    (b.groups.map fun grp => (grp.strName, grp.strPath))
  ids : ∀ grp ∈ next.groups, grp.strId = opened.regs.mapIds.idOfName rt grp.strName
  kept : ∀ row ∈ parentRows opened.clsQuestionBank, row.1 ≠ none → ¬ deleted row.2.strId →
    ∃ row' ∈ parentRows next.clsQuestionBank, row'.1 = row.1 ∧
      row'.2.identity = row.2.identity ∧ row'.2.records = row.2.records
  nothingNew : ∀ grp ∈ next.groups, grp.records = [] ∨
    ∃ old ∈ opened.groups, old.identity = grp.identity ∧ old.records = grp.records

/-- The groups below the root are those of the rows that have a parent. -/
theorem descendants_eq_filterMap (qgp : CQuestionGroupParam) :
    qgp.descendants = (parentRows qgp).filterMap fun row => row.1.map fun _ => row.2 := by
  have below : ∀ (above : String × String × Path) (child : CQuestionGroupParam),
      (child.inherited (fun _ grp => some grp.identity) (some above)).filterMap
        (fun row : Option (String × String × Path) × GroupMembers => row.1.map fun _ => row.2) =
          child.preorder := by
    intro above child
    rw [← map_snd_inherited (fun _ grp => some grp.identity) (some above) child,
      ← List.filterMap_eq_map]
    apply List.filterMap_congr
    intro row member
    rcases exists_plug_of_mem_inherited member with rfl |
      ⟨c, parent, before, other, after, rfl, rfl⟩
    · rfl
    · rfl
  cases qgp with
  | node grp groups =>
      rw [parentRows, inherited_node, List.filterMap_cons_none (by rfl), List.filterMap_flatMap]
      simp only [below]
      rfl

/-- The groups of a tree with recovered rows. -/
theorem descendants_of_recovered {qgp qgp' : CQuestionGroupParam} {mapIds : IdMap} {disk : Disk}
    (rows : (parentRows qgp').Perm ((parentRows qgp).map (recoveredRow rt mapIds disk))) :
    qgp'.descendants.Perm (qgp.descendants.map fun grp =>
      { grp.onDisk rt disk with strId := mapIds.idOfName rt grp.strName }) := by
  have mapped := rows.filterMap fun row => row.1.map fun _ => row.2
  rw [← descendants_eq_filterMap, List.filterMap_map] at mapped
  refine mapped.trans (List.Perm.of_eq ?_)
  rw [descendants_eq_filterMap qgp, List.map_filterMap]
  apply List.filterMap_congr
  rintro ⟨_ | above, grp⟩ _
  · rfl
  · rfl

/-- The id of a group of the opened bank is the one of its name. -/
theorem ReadBack.idOfName_eq (read : ReadBack rt root opened items) {grp : GroupMembers}
    (present : grp ∈ opened.groups) :
    opened.regs.mapIds.idOfName rt grp.strName = grp.strId := by
  apply IdMap.idOfName_eq rt
  · exact (read.sound.agrees.mapIds.map Prod.snd).nodup_iff.mpr read.sound.agrees.distinctNames
  · exact read.sound.agrees.mapIds.mem_iff.mpr
      (List.mem_map_of_mem (f := GroupMembers.pair) present)

/-- The same for the parent of a row. -/
theorem ReadBack.idOfName_above (read : ReadBack rt root opened items)
    {row : Option (String × String × Path) × GroupMembers}
    (present : row ∈ parentRows opened.clsQuestionBank) {above : String × String × Path}
    (isAbove : row.1 = some above) :
    (opened.regs.mapIds.idOfName rt above.2.1, above.2) = above := by
  rcases parentRows_cases present with rfl | ⟨c, parent, before, child, after, tree, rfl⟩
  · cases isAbove
  · cases isAbove
    have inTree : parent ∈ opened.clsQuestionBank.preorder := by
      rw [tree, preorder_plug]
      simp
    simp only [GroupMembers.identity]
    rcases read.sound.mem_preorder.mp inTree with rfl | isGroup
    · rw [read.mapIds, read.idOfName_root]
    · rw [read.idOfName_eq isGroup]

theorem ReadBack.recovered (read : ReadBack rt root opened items)
    (since : SinceOpened root deleted opened b) {next : CQuestionBankImpl}
    (registry : next.regs.mapIds = opened.regs.mapIds)
    (rows : (parentRows next.clsQuestionBank).Perm ((parentRows b.clsQuestionBank).map
      (recoveredRow rt opened.regs.mapIds b.regs.disk))) :
    Recovered rt deleted opened b next := by
  have groups := descendants_of_recovered rows
  have ofGroup : ∀ grp' ∈ next.groups, ∃ grp ∈ b.groups,
      grp' = { grp.onDisk rt b.regs.disk with
        strId := opened.regs.mapIds.idOfName rt grp.strName } := by
    intro grp' member
    obtain ⟨grp, present, equal⟩ := List.mem_map.mp (groups.mem_iff.mp member)
    exact ⟨grp, present, equal.symm⟩
  refine ⟨registry, ?_, ?_, ?_, ?_⟩
  · have mapped := groups.map fun grp : GroupMembers => (grp.strName, grp.strPath)
    rw [List.map_map] at mapped
    exact mapped
  · intro grp' member
    obtain ⟨grp, _, rfl⟩ := ofGroup grp' member
    rfl
  · intro row isOld below remains
    obtain ⟨file, row', isRow, sameAbove, sameIdentity⟩ := since.kept row isOld below remains
    have isGroup := SinceOpened.mem_groups_of_row isOld below
    obtain ⟨sameId, sameName, samePath⟩ : row'.2.strId = row.2.strId ∧
        row'.2.strName = row.2.strName ∧ row'.2.strPath = row.2.strPath := by
      simpa [GroupMembers.identity] using sameIdentity
    have sameFile : row'.2.datPath = row.2.datPath := by
      rw [GroupMembers.datPath, GroupMembers.datPath, sameId, samePath]
    refine ⟨recoveredRow rt opened.regs.mapIds b.regs.disk row',
      rows.mem_iff.mpr (List.mem_map_of_mem isRow), ?_, ?_, ?_⟩
    · rw [recoveredRow, sameAbove]
      cases isAbove : row.1 with
      | none => exact absurd isAbove below
      | some above =>
          rw [Option.map_some, read.idOfName_above isOld isAbove]
    · simp only [recoveredRow, GroupMembers.identity, GroupMembers.onDisk]
      rw [sameName, samePath, read.idOfName_eq isGroup]
    · have records : (recoveredRow rt opened.regs.mapIds b.regs.disk row').2.records =
          recordsOnDisk rt b.regs.disk row'.2 := row'.2.onDisk_records rt b.regs.disk
      have decoded := read.left.records row.2 isGroup
      rw [← decodedAt_congr rt.parseQuestions (FileSystem.contentsAt_congr file)] at decoded
      rw [records, recordsOnDisk, sameFile, decoded]
      rfl
  · intro grp' member
    obtain ⟨grp, present, rfl⟩ := ofGroup grp' member
    rcases (read.recordsOnDisk_cases since present).2.2 with
      empty | ⟨old, isGroup, samePath, same⟩
    · left
      exact (grp.onDisk_records rt b.regs.disk).trans empty
    · right
      refine ⟨old, isGroup, ?_, same.symm.trans (grp.onDisk_records rt b.regs.disk).symm⟩
      rw [(read.sound.groups old isGroup).datPath_eq, (since.sound.groups grp present).datPath_eq]
        at samePath
      have directory : old.strPath = grp.strPath := (List.append_inj' samePath rfl).1
      have sameName : old.strName = grp.strName := by
        rw [← read.sound.filename (mem_preorder_of_mem_descendants isGroup), directory,
          since.sound.filename (mem_preorder_of_mem_descendants present)]
      have sameId := read.idOfName_eq isGroup
      simp only [GroupMembers.identity, GroupMembers.onDisk]
      rw [← sameId, sameName, directory]

end Recovery

namespace Session

/-- A session starts on what the sessions before it have left. -/
theorem run_readsBack (rt : Runtime) {root : Path} {disk : Disk}
    (nothingYet : NothingYet root disk) {sessions : List Session}
    (proper : Machine.Allowed (perform rt root) (Proper rt root) sessions disk) :
    ReadsBack rt root (Machine.run (perform rt root) sessions disk).2 := by
  refine Machine.run_preserves ?_ (nothingYet.readsBack rt) proper
  intro session disk reads proper
  obtain ⟨opened, items, initialised, read⟩ := reads session.entries proper.1
  have isOpened : session.opened rt root disk = (.value true, opened) := initialised
  have calls := proper.2
  rw [isOpened] at calls
  have sound := read.sound.run rt calls
  rw [perform, used, isOpened]
  exact sound.readsBack rt

/-- After any number of sessions, of which the last is not closed, the next `init` returns
true. It finds the directories that the last session has left, the registry and the questions
with which it began, and every group that it did not delete. -/
theorem run_recovered (rt : Runtime) {root : Path} {disk : Disk}
    (nothingYet : NothingYet root disk) {sessions : List Session} {last : Session}
    (proper : Machine.Allowed (perform rt root) (Proper rt root) (sessions ++ [last]) disk) :
    let before := (Machine.run (perform rt root) sessions disk).2
    let opened := (last.opened rt root before).2
    let b := last.used rt root before
    ∀ entries, b.regs.disk.IsListing root entries →
      let next := (fresh b.regs.disk Refusals.never).init rt root { entries := entries }
      next.1 = .value true ∧ Recovered rt (Deletes last.calls) opened b next.2 := by
  intro before opened b entries listed
  rw [Machine.allowed_append] at proper
  obtain ⟨opened', items, initialised, read⟩ :=
    run_readsBack rt nothingYet proper.1 last.entries proper.2.1.1
  have isOpened : last.opened rt root before = (.value true, opened') := initialised
  have calls := proper.2.1.2
  rw [isOpened] at calls
  have since := SinceOpened.run rt read.sound calls
  have isUsed : b = (Machine.run (BankCall.perform rt) last.calls opened').2 := by
    change last.used rt root before = _
    rw [used, isOpened]
  have sameOpened : opened = opened' := congrArg Prod.snd isOpened
  rw [← isUsed] at since
  obtain ⟨next, starts, registry, rows⟩ := read.next since listed
  rw [sameOpened]
  simp only [starts]
  exact ⟨trivial, read.recovered since registry rows⟩

/-- A session that deletes a group and makes another of the same name. -/
def interruptedSession : Session where
  entries := secondSession.entries
  calls :=
    [.question (.delete "1a" "p"), .group (.delete "" "3c"), .group (.add "1a" "Nouns" "5e"),
      .question (.add "5e" "r" "casa" "house")]

theorem run_recovered_interruptedSession :
    let before := (Machine.run (perform .wire ["root"]) [firstSession] FileSystem.empty).2
    let opened := (interruptedSession.opened .wire ["root"] before).2
    let b := interruptedSession.used .wire ["root"] before
    let next := (fresh b.regs.disk Refusals.never).init .wire ["root"]
      { entries :=
          [["root", "Words"], ["root", "Words", "1a.dat"], ["root", "Words", "Nouns"],
            ["root", "Words", "Verbs"], ["root", "ids.dat"],
            ["root", "Words", "Verbs", "2b.dat"]] }
    next.1 = .value true ∧ Recovered .wire (Deletes interruptedSession.calls) opened b next.2 :=
  @run_recovered .wire ["root"] FileSystem.empty (.absent rfl (by decide)) [firstSession]
    interruptedSession (by decide +kernel) _ (by decide +kernel)

end Session

end Notebook
