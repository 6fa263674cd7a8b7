import Notebook.Groups.Complete
import Notebook.Sessions.Sound

/-!
# Calls that keep a bank in agreement with its directory

Question calls change one store. Adding a group makes a directory that was not there, and
deleting a group without sub-groups takes away its directory and nothing else.
-/

namespace Notebook

open RoseTree CQuestionAnswerImpl CQuestionBankImpl

/-- The rows of a tree of identities. -/
theorem map_parentRows (qgp : CQuestionGroupParam) :
    (parentRows qgp).map (fun row => (row.1, row.2.identity)) =
      (qgp.map GroupMembers.identity).inherited (fun _ identity => some identity) none :=
  (inherited_map (fun _ _ => rfl) none qgp).symm

/-- A store that a call leaves on the file of the id keeps the group. -/
theorem GroupMembers.Kept.withStore {root : Path} {disk : Disk} {grp : GroupMembers}
    (kept : grp.Kept root disk)
    {ctx : CQuestionAnswerImpl}
    (path : ctx.strPath = grp.datPath)
    (noGroups : ctx.lstGroups = [])
    (distinct : KeyedList.DistinctKeys QuestionAnswer.id ctx.lstQuestions) :
    (grp.withStore ctx).Kept root disk := by
  have noMore : grp.vecQuestions.tail = [] := by
    rw [← List.length_eq_zero_iff, List.length_tail]
    have single := kept.single
    omega
  have stores : (grp.withStore ctx).vecQuestions = [ctx] := by
    rw [GroupMembers.withStore, noMore]
  refine ⟨kept.name, kept.id, ?_, ?_, kept.directory, kept.not_directory, ?_⟩
  · simp [stores]
  · rw [stores]
    intro other member
    rw [List.mem_singleton.mp member]
    exact ⟨path, noGroups, distinct⟩
  · rw [stores]
    simp

/-- What is at the directory of a group and at its file decides whether it is kept. -/
theorem GroupMembers.Kept.congr {root : Path} {disk disk' : Disk} {grp : GroupMembers}
    (kept : grp.Kept root disk)
    (sameDirectory : disk'.node grp.strPath = disk.node grp.strPath)
    (sameFile : disk'.node grp.datPath = disk.node grp.datPath) :
    grp.Kept root disk' where
  name := kept.name
  id := kept.id
  single := kept.single
  stores := kept.stores
  directory := sameDirectory.trans kept.directory
  not_directory := by
    rw [sameFile]
    exact kept.not_directory
  unopened empty := sameFile.trans (kept.unopened empty)

/-- The stores of a group can be closed, inside the directory of the group. -/
theorem GroupMembers.Kept.closes (rt : Runtime) {root : Path} {disk : Disk}
    {grp : GroupMembers} (kept : grp.Kept root disk) :
    ∃ disk', closeAll rt grp.vecQuestions disk = (true, [], disk') ∧
      disk'.isDirectory grp.strPath = true ∧
      ∀ q, ¬ grp.strPath <+: q → disk'.node q = disk.node q := by
  have distinct : (grp.vecQuestions.map CQuestionAnswerImpl.strPath).Nodup := by
    have single := kept.single
    rcases stores : grp.vecQuestions with _ | ⟨ctx, rest⟩
    · simp
    · rw [stores, List.length_cons] at single
      have noMore : rest = [] := List.eq_nil_of_length_eq_zero (by omega)
      simp [noMore]
  obtain ⟨disk', closed, all⟩ := closeAll_spec rt distinct fun ctx member => by
    have path := (kept.stores ctx member).1
    exact ⟨path ▸ grp.datPath_ne_nil, path ▸ kept.not_directory⟩
  refine ⟨disk', closed, ?_, ?_⟩
  · rw [FileSystem.isDirectory_iff, all.untouched, kept.directory]
    intro ctx member
    rw [(kept.stores ctx member).1, kept.datPath_eq]
    simp
  · intro q outside
    apply all.untouched
    intro ctx member same
    rw [(kept.stores ctx member).1, kept.datPath_eq] at same
    exact outside (same ▸ List.prefix_append _ _)

/-- What deleting a group without sub-groups does when nothing is in the way. -/
theorem Registers.deleteGroup_of_leaf (rt : Runtime) {id : String}
    {qgp : CQuestionGroupParam} {before after : List CQuestionGroupParam}
    {grp : GroupMembers} {r : Registers} {ids : CQuestionAnswerImpl} {disk : Disk}
    (opened : r.ptrIds = some ids)
    (split : firstChild id qgp = some (before, .node grp [], after))
    (never : r.refusals = Refusals.never)
    (closed : closeAll rt grp.vecQuestions r.disk = (true, [], disk))
    (directory : disk.isDirectory grp.strPath = true) :
    r.deleteGroup rt id qgp =
      (.value true, .node qgp.label (before ++ after),
        { unregister id ids r with disk := disk.removeTree grp.strPath }) := by
  obtain ⟨depth, height⟩ : ∃ depth, qgp.height = depth + 1 := by
    cases qgp with
    | node top groups => exact ⟨heightAll groups, height_node top groups⟩
  have present := isPresent_of_isDirectory directory
  have removes : r.refusals.removeAll disk grp.strPath =
      some (disk.removeTree grp.strPath) := by
    rw [never]
    rfl
  rw [firstChild] at split
  rw [deleteGroup, height, deleteGroupWithin]
  simp only [opened, split, label_node, children_node, closed, List.length_nil, deleteEach,
    present, directory, and_self, if_true, removes]
  rfl

/-- The ids by which the window asks to delete a group: that of its parent, and its own,
which is the parent of no group. -/
structure IsLeafOf (pid id : String) (qgp : CQuestionGroupParam) : Prop where
  parent : ∀ row ∈ parentRows qgp, row.2.strId = id → row.1.map Prod.fst = some pid
  leaf : ∀ row ∈ parentRows qgp, row.1.map Prod.fst ≠ some id

instance (pid id : String) (qgp : CQuestionGroupParam) : Decidable (IsLeafOf pid id qgp) :=
  decidable_of_iff
    ((∀ row ∈ parentRows qgp, row.2.strId = id → row.1.map Prod.fst = some pid) ∧
      ∀ row ∈ parentRows qgp, row.1.map Prod.fst ≠ some id)
    ⟨fun h => ⟨h.1, h.2⟩, fun h => ⟨h.parent, h.leaf⟩⟩

/-- A group that is to be deleted is a leaf under a group with the id of the parent. -/
theorem IsLeafOf.split {pid id : String} {qgp : CQuestionGroupParam}
    (isLeaf : IsLeafOf pid id qgp) {grp : GroupMembers} (present : grp ∈ qgp.descendants)
    (isId : grp.strId = id) :
    ∃ c parent before after, qgp = plug c (.node parent (before ++ .node grp [] :: after)) ∧
      parent.strId = pid := by
  obtain ⟨above, _, isRow⟩ := exists_parentRow present
  have samePid := isLeaf.parent _ isRow isId
  rcases parentRows_cases isRow with equal | ⟨c, parent, before, child, after, rfl, equal⟩
  · cases equal
  · obtain ⟨sameIdentity, sameLabel⟩ := Prod.mk.inj equal
    cases child with
    | node label groups =>
        rw [label_node] at sameLabel
        subst sameLabel
        refine ⟨c, parent, before, after, ?_, ?_⟩
        · cases groups with
          | nil => rfl
          | cons first groups =>
              exfalso
              have isChild := child_mem_parentRows (c ++ [⟨parent, before, after⟩]) grp []
                groups first
              rw [plug_append] at isChild
              exact isLeaf.leaf _ isChild (by rw [← isId]; rfl)
        · rw [sameIdentity] at samePid
          exact Option.some.inj samePid

namespace Sound

variable {root : Path} {b b' : CQuestionBankImpl}

theorem withMessage (sound : Sound root b) (message : Bytes) :
    Sound root (b.withMessage message) where
  agrees := sound.agrees.withMessage message
  ids := sound.ids
  root_group := sound.root_group
  rows := sound.rows
  groups := sound.groups
  root_directory := sound.root_directory
  ids_file := sound.ids_file
  entries := sound.entries
  refusals := sound.refusals

/-! ## Questions -/

/-- Only the stores of the groups may differ. -/
theorem of_sameOutline (sound : Sound root b) (same : SameOutline b b')
    (label : b'.clsQuestionBank.label = b.clsQuestionBank.label)
    (groups : ∀ grp ∈ b'.groups, grp.Kept root b'.regs.disk) :
    Sound root b' := by
  have outline := congrArg RoseTree.descendants same.tree
  rw [descendants_map, descendants_map] at outline
  have pairs : groupPairs b'.clsQuestionBank = groupPairs b.clsQuestionBank := by
    have mapped := congrArg (List.map fun identity : String × String × Path =>
      (identity.1, identity.2.1)) outline
    rwa [List.map_map, List.map_map] at mapped
  refine ⟨⟨?_, ?_, ?_, ?_, ?_⟩, ?_, label.trans sound.root_group, ?_, groups, ?_, ?_, ?_,
    same.refusals.trans sound.refusals⟩
  · rw [label]
    exact sound.agrees.root
  · rw [same.ptrIds, pairs]
    exact sound.agrees.ids
  · rw [same.mapIds, pairs]
    exact sound.agrees.mapIds
  · rw [pairs]
    exact sound.agrees.distinctIds
  · rw [pairs]
    exact sound.agrees.distinctNames
  · rw [same.ptrIds]
    exact sound.ids
  · intro row present above isAbove
    have inOutline : (row.1, row.2.identity) ∈
        (parentRows b'.clsQuestionBank).map (fun row => (row.1, row.2.identity)) :=
      List.mem_map_of_mem (f := fun row => (row.1, row.2.identity)) present
    rw [map_parentRows, same.tree, ← map_parentRows] at inOutline
    obtain ⟨old, isRow, equal⟩ := List.mem_map.mp inOutline
    obtain ⟨sameAbove, sameIdentity⟩ := Prod.mk.inj equal
    have path := sound.rows old isRow above (sameAbove ▸ isAbove)
    obtain ⟨_, sameName, samePath⟩ : old.2.strId = row.2.strId ∧
        old.2.strName = row.2.strName ∧ old.2.strPath = row.2.strPath := by
      simpa [GroupMembers.identity] using sameIdentity
    rw [← sameName, ← samePath]
    exact path
  · rw [same.disk]
    exact sound.root_directory
  · rw [same.disk]
    exact sound.ids_file
  · intro p below different present
    rw [same.disk] at present
    rcases sound.entries p below different present with isIds | ⟨grp, member, isPath⟩
    · exact Or.inl isIds
    · right
      have inOutline : grp.identity ∈ b'.clsQuestionBank.descendants.map
          GroupMembers.identity := by
        rw [outline]
        exact List.mem_map_of_mem member
      obtain ⟨grp', member', equal⟩ := List.mem_map.mp inOutline
      obtain ⟨sameId, _, samePath⟩ : grp'.strId = grp.strId ∧
          grp'.strName = grp.strName ∧ grp'.strPath = grp.strPath := by
        simpa [GroupMembers.identity] using equal
      refine ⟨grp', member', ?_⟩
      rw [GroupMembers.datPath, samePath, sameId]
      exact isPath

/-- A question call keeps the agreement. -/
theorem question (rt : Runtime) (sound : Sound root b) (call : QuestionCall) :
    Sound root (call.perform rt b).2 := by
  rcases call.perform_cases rt sound.ready with ⟨_, message, failed⟩ | ⟨grp, present, isId, done⟩
  · rw [failed]
    exact sound.withMessage _
  · rw [done]
    have kept := sound.groups grp present
    obtain ⟨path, noGroups⟩ := kept.context
    obtain ⟨_, _, distinct, file⟩ := call.useStore_refines kept.usable.context_opened
      kept.usable.context_distinct
    apply sound.of_sameOutline (sameOutline_putStore b _ _)
    · have notRoot : ¬ b.clsQuestionBank.label.strId = call.gid := by
        rw [sound.agrees.root, ← isId]
        exact kept.id.ne_empty.symm
      rw [putStore, label_map, replaceStore, if_neg notRoot]
    · intro other member
      rw [CQuestionBankImpl.groups, putStore, descendants_map] at member
      obtain ⟨old, isOld, rfl⟩ := List.mem_map.mp member
      have oldKept := sound.groups old isOld
      unfold replaceStore
      split
      · rename_i same
        have isGrp : old = grp := List.inj_on_of_nodup_map sound.agrees.nodup_ids isOld present
          (same.trans isId.symm)
        subst isGrp
        exact oldKept.withStore (file.path.trans path) (file.groups.trans noGroups) distinct
      · exact oldKept

/-! ## Groups -/

/-- A new name below a group is not taken on the disk. -/
theorem absent_of_new (sound : Sound root b) {parent : GroupMembers}
    (present : parent ∈ b.clsQuestionBank.preorder) {name : String}
    (isName : IsGroupName root name) (isNew : b.regs.mapIds.hasName name = false) :
    b.regs.disk.node (parent.strPath ++ [name]) = none := by
  by_contra taken
  have below : root <+: parent.strPath ++ [name] :=
    (sound.root_prefix present).trans (List.prefix_append _ _)
  have notRoot : root ≠ parent.strPath ++ [name] := by
    intro same
    exact isName.not_root (by rw [same, Path.filename_append_singleton])
  rcases sound.entries _ below notRoot taken with isIds | ⟨grp, member, isPath | isFile⟩
  · exact isName.ne_ids (List.singleton_inj.mp (List.append_inj' isIds rfl).2)
  · have sameName : name = grp.strName := by
      have inTree := mem_preorder_of_mem_descendants member
      rw [← sound.filename inTree, ← isPath, Path.filename_append_singleton]
    rw [IdMap.hasName_eq_false_iff, (sound.agrees.mapIds.map Prod.snd).mem_iff, groupPairs,
      List.map_map] at isNew
    apply isNew
    rw [sameName]
    exact List.mem_map_of_mem (f := Prod.snd ∘ GroupMembers.pair) member
  · rw [(sound.groups grp member).datPath_eq] at isFile
    exact isName.ne_append_dat _ (List.singleton_inj.mp (List.append_inj' isFile rfl).2)

/-- Adding a group with a proper name and id keeps the agreement. -/
theorem add (rt : Runtime) (sound : Sound root b) {pid name id : String}
    (isName : IsGroupName root name) (isId : IsUuidText id) :
    Sound root (b.addGroup rt pid name id).2 := by
  obtain ⟨ids, opened, _⟩ := sound.agrees.ids
  have way := b.addGroup_result rt sound.agrees.uniqueIds opened pid name id
  have agrees := sound.agrees.add way
  generalize b.addGroup rt pid name id = result at way agrees ⊢
  cases way with
  | refused message why => exact sound.withMessage message
  | @added c parent groups ids' answer disk message tree selects opened' newId newName made =>
      have inTree : parent ∈ b.clsQuestionBank.preorder := by
        rw [tree, preorder_plug]
        simp
      have absent := sound.absent_of_new inTree isName newName
      rw [isName.component.join] at made
      have parentDirectory : b.regs.disk.node parent.strPath = some .directory := by
        rcases sound.mem_preorder.mp inTree with rfl | below
        · exact sound.root_directory
        · exact (sound.groups parent below).directory
      have nodes : ∀ q, disk.node q =
          if q = parent.strPath ++ [name] then some .directory else b.regs.disk.node q := by
        cases made with
        | present isPresent => exact absurd absent (FileSystem.isPresent_iff.mp isPresent)
        | created creates => exact FileSystem.node_of_mkdir (Refusals.mkdir_of_created creates)
        | failed notTrue _ notCreated =>
            exfalso
            obtain ⟨fs', makes, _⟩ := FileSystem.mkdir_eq_some
              (FileSystem.hasParent_append_singleton (c := name) parentDirectory) absent
            apply notCreated fs'
            rw [sound.refusals, Refusals.createDirectory, makes]
            rfl
      have newPath : (Registers.newGroup parent id name).strPath = parent.strPath ++ [name] :=
        isName.component.join parent.strPath
      have newKept : (Registers.newGroup parent id name).Kept root disk := by
        have newFile : (Registers.newGroup parent id name).datPath =
            parent.strPath ++ [name] ++ [id ++ ".dat"] := by
          rw [GroupMembers.datPath, newPath]
          exact isId.component.join _
        have noFile : disk.node (Registers.newGroup parent id name).datPath = none := by
          rw [newFile, nodes, if_neg (by simp)]
          exact FileSystem.node_eq_none_below absent (by simp) (List.prefix_append _ _)
        refine ⟨isName, isId, Nat.zero_le 1, (fun _ member => absurd member List.not_mem_nil),
          ?_, ?_, fun _ => noFile⟩
        · rw [newPath, nodes, if_pos rfl]
        · rw [noFile]
          simp
      have members : (plug c (.node parent
          (groups ++ [.node (Registers.newGroup parent id name) []]))).descendants.Perm
            (b.groups ++ [Registers.newGroup parent id name]) := by
        have leaf := map_descendants_plug_addLeaf (f := fun grp : GroupMembers => grp) c parent
          groups (Registers.newGroup parent id name)
        rw [← tree, List.map_id', List.map_id'] at leaf
        exact leaf
      have rows := inherited_plug_addLeaf (fun _ grp => some grp.identity) none c parent groups
        (Registers.newGroup parent id name)
      rw [← tree] at rows
      have notHere : ∀ q, b.regs.disk.node q ≠ none → disk.node q = b.regs.disk.node q := by
        intro q present
        rw [nodes, if_neg]
        rintro rfl
        exact present absent
      have notIds : idsPath root ≠ parent.strPath ++ [name] := fun same =>
        isName.ne_ids (List.singleton_inj.mp (List.append_inj' same rfl).2).symm
      refine ⟨agrees, ?_, ?_, ?_, ?_, ?_, ?_, ?_, sound.refusals⟩
      · intro ids'' isIds
        obtain rfl := Option.some.inj isIds
        obtain ⟨path, questions⟩ := sound.ids ids' opened'
        rcases addGroup_cases (path ▸ idsPath_ne_nil root) id name with ⟨_, same⟩ | ⟨_, done⟩
        · exact ⟨same.path.trans path, same.questions.trans questions⟩
        · rw [done]
          exact ⟨path, questions⟩
      · refine Eq.trans ?_ sound.root_group
        rw [tree]
        exact label_plug_congr (f := fun grp : GroupMembers => grp) c rfl
      · intro row present above isAbove
        rcases List.mem_append.mp (rows.mem_iff.mp present) with old | isNew
        · exact sound.rows row old above isAbove
        · rw [List.mem_singleton.mp isNew] at isAbove ⊢
          obtain rfl := Option.mem_some_iff.mp isAbove
          exact newPath
      · intro grp present
        rcases List.mem_append.mp (members.mem_iff.mp present) with old | isNew
        · have kept := sound.groups grp old
          apply kept.congr (notHere _ (by rw [kept.directory]; simp))
          rw [nodes, if_neg]
          rw [kept.datPath_eq]
          intro same
          exact isName.ne_append_dat _
            (List.singleton_inj.mp (List.append_inj' same rfl).2).symm
        · rw [List.mem_singleton.mp isNew]
          exact newKept
      · rw [notHere root (by rw [sound.root_directory]; simp)]
        exact sound.root_directory
      · rw [nodes, if_neg notIds]
        exact sound.ids_file
      · intro p below different present
        rw [nodes] at present
        by_cases isNew : p = parent.strPath ++ [name]
        · right
          exact ⟨Registers.newGroup parent id name,
            members.mem_iff.mpr (List.mem_append_right _ List.mem_cons_self),
            Or.inl (isNew.trans newPath.symm)⟩
        · rw [if_neg isNew] at present
          rcases sound.entries p below different present with isIds | ⟨grp, member, isPath⟩
          · exact Or.inl isIds
          · exact Or.inr ⟨grp, members.mem_iff.mpr (List.mem_append_left _ member), isPath⟩

/-- Taking an id out of the registry that is not there changes no record. -/
theorem unregister_absent (sound : Sound root b) {id : String} {ids : CQuestionAnswerImpl}
    (opened : b.regs.ptrIds = some ids) (absent : ∀ grp ∈ b.groups, grp.strId ≠ id)
    (message : Bytes) :
    Sound root { b with
      regs := { b.regs.unregister id ids with strErrorMsg := message } } := by
  obtain ⟨ids', opened', path, records⟩ := sound.agrees.ids
  obtain rfl := Option.some.inj (opened.symm.trans opened')
  have noPair : ∀ kv ∈ groupPairs b.clsQuestionBank, kv.1 ≠ id := by
    intro kv member
    obtain ⟨grp, present, rfl⟩ := List.mem_map.mp member
    exact absent grp present
  have sameMap : b.regs.mapIds.erase id = b.regs.mapIds := by
    rw [IdMap.erase, List.filter_eq_self]
    intro kv member
    simpa using noPair kv (sound.agrees.mapIds.mem_iff.mp member)
  have sameIds : SameRecords ids (ids.deleteGroup id).2 := by
    rcases CQuestionAnswerImpl.deleteGroup_cases path id with
      ⟨_, same⟩ | ⟨before, x, after, split, isId, _⟩
    · exact same
    · exfalso
      apply noPair (groupPair x) _ isId
      rw [← records.mem_iff, split]
      exact List.mem_map_of_mem (List.mem_append_right _ List.mem_cons_self)
  refine ⟨⟨sound.agrees.root, ⟨_, rfl, ?_⟩, ?_, sound.agrees.distinctIds,
    sound.agrees.distinctNames⟩, ?_, sound.root_group, sound.rows, sound.groups,
    sound.root_directory, sound.ids_file, sound.entries, sound.refusals⟩
  · rw [sameIds.path, sameIds.groups]
    exact ⟨path, records⟩
  · simp only [Registers.unregister, sameMap]
    exact sound.agrees.mapIds
  · intro left isLeft
    obtain rfl := Option.some.inj isLeft
    obtain ⟨isPath, questions⟩ := sound.ids ids opened
    exact ⟨sameIds.path.trans isPath, sameIds.questions.trans questions⟩

/-- Below the directory of a group without sub-groups there is no other group. -/
theorem eq_of_prefix_leaf (sound : Sound root b) {found : GroupMembers}
    (isGroup : found ∈ b.groups)
    (leaf : ∀ row ∈ parentRows b.clsQuestionBank, row.1.map Prod.fst ≠ some found.strId)
    {grp : GroupMembers} (present : grp ∈ b.clsQuestionBank.preorder)
    (below : found.strPath <+: grp.strPath) : grp = found := by
  generalize length : grp.strPath.length = n
  induction n generalizing grp with
  | zero =>
      rw [List.length_eq_zero_iff] at length
      rw [length, List.prefix_nil] at below
      exact absurd below (sound.groups found isGroup).strPath_ne_nil
  | succ n inductionHypothesis =>
      rcases sound.mem_preorder.mp present with rfl | isBelow
      · have above := sound.root_prefix (mem_preorder_of_mem_descendants isGroup)
        have same := above.eq_of_length_le below.length_le
        exact absurd same (sound.ne_root isGroup)
      · obtain ⟨parent, inTree, isRow, path⟩ := sound.exists_parent isBelow
        rw [path, List.prefix_concat_iff, ← path] at below
        rcases below with same | above
        · exact sound.eq_of_strPath present (mem_preorder_of_mem_descendants isGroup) same.symm
        · exfalso
          rw [path, List.length_append, List.length_singleton] at length
          have isFound := inductionHypothesis inTree above (by omega)
          exact leaf _ isRow (by rw [isFound]; rfl)

/-- The directory of a group without sub-groups holds nothing of the rest of the bank. -/
theorem outside_leaf (sound : Sound root b) {found : GroupMembers}
    (isGroup : found ∈ b.groups)
    (leaf : ∀ row ∈ parentRows b.clsQuestionBank, row.1.map Prod.fst ≠ some found.strId) :
    ¬ found.strPath <+: root ∧ ¬ found.strPath <+: idsPath root ∧
      ∀ grp ∈ b.groups, grp ≠ found →
        ¬ found.strPath <+: grp.strPath ∧ ¬ found.strPath <+: grp.datPath := by
  have inTree := mem_preorder_of_mem_descendants isGroup
  have foundKept := sound.groups found isGroup
  have notRoot : ¬ found.strPath <+: root := by
    intro above
    exact sound.ne_root isGroup
      ((sound.root_prefix inTree).eq_of_length_le above.length_le)
  have notFile : ∀ (dir : Path) (file : String), found.strName ≠ file →
      ¬ found.strPath <+: dir → ¬ found.strPath <+: dir ++ [file] := by
    intro dir file otherName notAbove below
    rcases List.prefix_concat_iff.mp below with same | above
    · apply otherName
      rw [← sound.filename inTree, same, Path.filename_append_singleton]
    · exact notAbove above
  refine ⟨notRoot, notFile root _ foundKept.name.ne_ids notRoot, ?_⟩
  intro grp present different
  have elsewhere : ¬ found.strPath <+: grp.strPath := fun below =>
    different (sound.eq_of_prefix_leaf isGroup leaf (mem_preorder_of_mem_descendants present)
      below)
  refine ⟨elsewhere, ?_⟩
  rw [(sound.groups grp present).datPath_eq]
  exact notFile _ _ (foundKept.name.ne_append_dat _) elsewhere

theorem distinctIds (sound : Sound root b) : DistinctIds b where
  root := sound.agrees.root
  groups := sound.ready.distinct_all
  records := by
    obtain ⟨ids, opened, path, records⟩ := sound.agrees.ids
    exact ⟨ids, opened, path, sound.agrees.record_ids records⟩

/-- Deleting a group without sub-groups takes out the group, its registry entries and its
directory. -/
theorem deleteGroup_of_leaf (rt : Runtime) (sound : Sound root b) {pid : String}
    {grp : GroupMembers} (isLeaf : IsLeafOf pid grp.strId b.clsQuestionBank)
    (present : grp ∈ b.groups) :
    ∃ c parent before after ids disk,
      b.clsQuestionBank = plug c (.node parent (before ++ .node grp [] :: after)) ∧
        b.regs.ptrIds = some ids ∧
        (∀ q, disk.node q = if grp.strPath <+: q then none else b.regs.disk.node q) ∧
        b.deleteGroup rt pid grp.strId =
          (.value true,
            { b with
              clsQuestionBank := plug c (.node parent (before ++ after))
              regs := { b.regs.unregister grp.strId ids with disk := disk } }) := by
  obtain ⟨ids, opened, _⟩ := sound.agrees.ids
  obtain ⟨c, parent, before, after, tree, rfl⟩ := isLeaf.split present rfl
  have siblings : ((RoseTree.node parent (before ++ .node grp [] :: after)).children.map
      fun grp => grp.label.strId).Nodup := by
    have ids := sound.ready.distinct_all
    rw [tree, preorder_plug, preorder_node, List.map_append, List.map_append, List.map_cons]
      at ids
    have here := (List.nodup_cons.mp (List.nodup_append.mp (List.nodup_append.mp ids).1).2.1).2
    exact Registers.nodup_strId_children here
  have split : Registers.firstChild grp.strId
      (.node parent (before ++ .node grp [] :: after)) = some (before, .node grp [], after) :=
    @Registers.firstChild_of_distinct _ (.node grp []) _ _ rfl siblings
  obtain ⟨disk, closed, directory, kept⟩ := (sound.groups grp present).closes rt
  have done := Registers.deleteGroup_of_leaf rt opened split sound.refusals closed directory
  have acted := Registers.ctrlGroup_of_selects rt (sound.distinctIds.selects tree)
    (before ++ .node grp [] :: after) grp.strId "" .delete b.regs
  rw [Registers.ctrlHere, done] at acted
  refine ⟨c, parent, before, after, ids, disk.removeTree grp.strPath, tree, opened, ?_, ?_⟩
  · intro q
    rw [FileSystem.node_removeTree]
    split
    · rfl
    · rename_i outside
      exact kept q outside
  · rw [CQuestionBankImpl.deleteGroup, ctrlRoot, tree, acted]
    rfl

/-- Deleting a group without sub-groups keeps the agreement. -/
theorem delete (rt : Runtime) (sound : Sound root b) {pid id : String}
    (isLeaf : IsLeafOf pid id b.clsQuestionBank) :
    Sound root (b.deleteGroup rt pid id).2 := by
  obtain ⟨ids, opened, _⟩ := sound.agrees.ids
  have way := b.deleteGroup_result rt sound.agrees.uniqueIds opened pid id
  by_cases isGroup : ∃ grp ∈ b.groups, grp.strId = id
  · obtain ⟨grp, present, rfl⟩ := isGroup
    obtain ⟨c, parent, before, after, ids', disk, tree, opened', nodes, done⟩ :=
      sound.deleteGroup_of_leaf rt isLeaf present
    have agrees := sound.agrees.delete way (by rw [done])
    rw [done] at agrees ⊢
    obtain ⟨notRoot, notIds, others⟩ := sound.outside_leaf present isLeaf.leaf
    have members : b.groups.Perm ((plug c (.node parent (before ++ after))).descendants ++
        [grp]) := by
      have lift := map_descendants_plug_insert (f := fun grp : GroupMembers => grp) c parent
        before (.node grp []) after
      rw [← tree, List.map_id', List.map_id', List.map_id'] at lift
      exact lift
    have distinct := members.nodup_iff.mp sound.agrees.nodup_ids.of_map
    rw [List.nodup_append] at distinct
    have left : ∀ other ∈ (plug c (.node parent (before ++ after))).descendants,
        other ∈ b.groups ∧ other ≠ grp := fun other member =>
      ⟨members.mem_iff.mpr (List.mem_append_left _ member),
        distinct.2.2 other member grp List.mem_cons_self⟩
    have rows : ∀ row ∈ parentRows (plug c (.node parent (before ++ after))),
        row ∈ parentRows b.clsQuestionBank := by
      intro row member
      rw [parentRows, inherited_plug, inherited_node, List.flatMap_append] at member
      rw [tree, parentRows, inherited_plug, inherited_node, List.flatMap_append,
        List.flatMap_cons]
      simp only [List.mem_append, List.mem_cons] at member ⊢
      tauto
    refine ⟨agrees, ?_, ?_, fun row member => sound.rows row (rows row member), ?_, ?_, ?_, ?_,
      sound.refusals⟩
    · intro ids'' isIds
      obtain rfl := Option.some.inj isIds
      obtain ⟨path, questions⟩ := sound.ids ids' opened'
      rcases CQuestionAnswerImpl.deleteGroup_cases (path ▸ idsPath_ne_nil root) grp.strId with
        ⟨_, same⟩ | ⟨front, x, back, _, _, deleted⟩
      · exact ⟨same.path.trans path, same.questions.trans questions⟩
      · rw [deleted]
        exact ⟨path, questions⟩
    · refine Eq.trans ?_ sound.root_group
      rw [tree]
      exact label_plug_congr (f := fun grp : GroupMembers => grp) c rfl
    · intro other member
      obtain ⟨old, different⟩ := left other member
      obtain ⟨noDirectory, noFile⟩ := others other old different
      apply (sound.groups other old).congr
      · rw [nodes, if_neg noDirectory]
      · rw [nodes, if_neg noFile]
    · rw [nodes, if_neg notRoot]
      exact sound.root_directory
    · rw [nodes, if_neg notIds]
      exact sound.ids_file
    · intro p below different stillThere
      rw [nodes] at stillThere
      split at stillThere
      · exact absurd rfl stillThere
      · rename_i outside
        rcases sound.entries p below different stillThere with isIds | ⟨other, member, isPath⟩
        · exact Or.inl isIds
        · right
          rcases List.mem_append.mp (members.mem_iff.mp member) with remains | isGrp
          · exact ⟨other, remains, isPath⟩
          · exfalso
            rw [List.mem_singleton.mp isGrp] at isPath
            apply outside
            rcases isPath with rfl | rfl
            · exact List.prefix_rfl
            · rw [(sound.groups grp present).datPath_eq]
              exact List.prefix_append _ _
  · have absent : ∀ grp ∈ b.groups, grp.strId ≠ id := fun grp member same =>
      isGroup ⟨grp, member, same⟩
    generalize b.deleteGroup rt pid id = result at way ⊢
    cases way with
    | noTarget why => exact sound
    | missing message opened' => exact sound.unregister_absent opened' absent message
    | @reached c parent before after found rest answer r tree selects split call frame =>
        exfalso
        have isFound := (firstChild_eq_some split).2
        apply absent found.label _ isFound
        rw [CQuestionBankImpl.groups, tree]
        exact mem_descendants_plug c parent before after found.label_mem_preorder

end Sound

/-! ## Calls of a session -/

/-- What a session calls: any question operation, adding groups with proper names and
ids, and deleting groups without sub-groups. -/
def BankCall.InSession (root : Path) (call : BankCall) (b : CQuestionBankImpl)
    (_ : Outcome Bool) : Prop :=
  match call with
  | .question _ => True
  | .group (.add _ name id) => IsGroupName root name ∧ IsUuidText id
  | .group (.delete pid id) => IsLeafOf pid id b.clsQuestionBank
  | .group (.update _ _ _) => False

instance (root : Path) (call : BankCall) (b : CQuestionBankImpl) (answer : Outcome Bool) :
    Decidable (call.InSession root b answer) :=
  match call with
  | .question _ => inferInstanceAs (Decidable True)
  | .group (.add _ name id) => inferInstanceAs (Decidable (IsGroupName root name ∧ IsUuidText id))
  | .group (.delete pid id) => inferInstanceAs (Decidable (IsLeafOf pid id b.clsQuestionBank))
  | .group (.update _ _ _) => inferInstanceAs (Decidable False)

/-- A call of a session keeps the agreement. -/
theorem Sound.perform (rt : Runtime) {root : Path} {b : CQuestionBankImpl}
    (sound : Sound root b) (call : BankCall)
    (inSession : call.InSession root b (call.perform rt b).1) :
    Sound root (call.perform rt b).2 := by
  cases call with
  | question call => exact sound.question rt call
  | group call =>
      cases call with
      | add pid name id => exact sound.add rt inSession.1 inSession.2
      | delete pid id => exact sound.delete rt inSession
      | update pid id name => exact inSession.elim

/-- The calls of a session keep the agreement. -/
theorem Sound.run (rt : Runtime) {root : Path} {b : CQuestionBankImpl} (sound : Sound root b)
    {calls : List BankCall}
    (inSession : Machine.Allowed (BankCall.perform rt) (BankCall.InSession root) calls b) :
    Sound root (Machine.run (BankCall.perform rt) calls b).2 :=
  Machine.run_preserves (fun call _ sound inSession => sound.perform rt call inSession) sound
    inSession

end Notebook
