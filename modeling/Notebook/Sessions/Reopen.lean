import Notebook.Init.RoundTrip
import Notebook.Sessions.Sound

/-!
# Closing a bank and opening it again

`uninit` leaves on the disk the registry and the records of every group. The next
`init` on the same path finds each directory by its name, so the tree it builds has the
same groups under the same parents, each with the records it had.
-/

namespace Notebook

open RoseTree CQuestionAnswerImpl CQuestionBankImpl

/-! ## What is left on the disk -/

/-- The disk after a bank on a path was closed. -/
structure LeftOnDisk (rt : Runtime) (root : Path) (b : CQuestionBankImpl)
    (items : List QuestionAnswerGroup) (disk : Disk) : Prop where
  directories : ∀ q, disk.node q = some .directory ↔ b.regs.disk.node q = some .directory
  registry : decodedAt rt.parseGroups disk (idsPath root) = some items
  records : ∀ grp ∈ b.groups, decodedAt rt.parseQuestions disk grp.datPath = some grp.records
  absent : ∀ grp ∈ b.groups, disk.node grp.datPath = none ↔ grp.records = []
  entries : ∀ p, root <+: p → root ≠ p → disk.node p ≠ none →
    p = idsPath root ∨ ∃ grp ∈ b.groups, p = grp.strPath ∨ p = grp.datPath

/-- The disk after the registry and some stores of a bank on a path were closed. -/
structure PartlyClosed (rt : Runtime) (root : Path) (b : CQuestionBankImpl)
    (closed : List CQuestionAnswerImpl) (items : List QuestionAnswerGroup) (disk : Disk) :
    Prop where
  directories : ∀ q, disk.node q = some .directory ↔ b.regs.disk.node q = some .directory
  registry : decodedAt rt.parseGroups disk (idsPath root) = some items
  saved : ∀ grp ∈ b.groups, grp.vecQuestions ⊆ closed →
    decodedAt rt.parseQuestions disk grp.datPath = some grp.records ∧
      (disk.node grp.datPath = none ↔ grp.records = [])
  untouched : ∀ grp ∈ b.groups, ¬ grp.vecQuestions ⊆ closed →
    disk.node grp.datPath = b.regs.disk.node grp.datPath
  entries : ∀ p, root <+: p → root ≠ p → disk.node p ≠ none →
    p = idsPath root ∨ ∃ grp ∈ b.groups, p = grp.strPath ∨ p = grp.datPath

/-- A group has no store or one. -/
theorem GroupMembers.Kept.stores_cases {root : Path} {disk : Disk} {grp : GroupMembers}
    (kept : grp.Kept root disk) :
    grp.vecQuestions = [] ∨ ∃ ctx, grp.vecQuestions = [ctx] ∧ ctx.strPath = grp.datPath ∧
      ctx.lstGroups = [] := by
  have single := kept.single
  rcases stores : grp.vecQuestions with _ | ⟨ctx, rest⟩
  · exact Or.inl rfl
  · right
    rw [stores, List.length_cons] at single
    have noMore : rest = [] := List.eq_nil_of_length_eq_zero (by omega)
    obtain ⟨path, groups, _⟩ := kept.stores ctx (by simp [stores])
    exact ⟨ctx, by rw [noMore], path, groups⟩

namespace Sound

variable {root : Path} {b : CQuestionBankImpl}

/-- A store of the tree is the store of a group below the root. -/
theorem mem_stores (sound : Sound root b) {ctx : CQuestionAnswerImpl}
    (present : ctx ∈ stores b.clsQuestionBank) :
    ∃ grp ∈ b.groups, ctx ∈ grp.vecQuestions := by
  obtain ⟨grp, inTree, isStore⟩ := List.mem_flatMap.mp present
  rcases sound.mem_preorder.mp inTree with rfl | below
  · cases isStore
  · exact ⟨grp, below, isStore⟩

/-- All stores are on different files. -/
theorem distinct_stores (sound : Sound root b) :
    ((stores b.clsQuestionBank).map CQuestionAnswerImpl.strPath).Nodup := by
  have below : stores b.clsQuestionBank = b.groups.flatMap GroupMembers.vecQuestions := by
    rw [stores, preorder_eq_label_cons, List.flatMap_cons, sound.root_group]
    rfl
  rw [below, List.map_flatMap, List.nodup_flatMap]
  constructor
  · intro grp present
    rcases (sound.groups grp present).stores_cases with none | ⟨ctx, only, _⟩
    · simp [none]
    · simp [only]
  · have distinct : b.groups.Nodup := sound.agrees.nodup_ids.of_map
    refine distinct.imp_of_mem ?_
    intro grp other present present' different path inGrp inOther
    obtain ⟨ctx, member, rfl⟩ := List.mem_map.mp inGrp
    obtain ⟨ctx', member', same⟩ := List.mem_map.mp inOther
    rw [((sound.groups grp present).stores ctx member).1,
      ((sound.groups other present').stores ctx' member').1] at same
    exact different (sound.eq_of_datPath present' present same).symm

/-- A store of the tree is on the file of a group below the root. -/
theorem file_of_store (sound : Sound root b) {ctx : CQuestionAnswerImpl}
    (present : ctx ∈ stores b.clsQuestionBank) :
    ∃ grp ∈ b.groups, ctx.strPath = grp.datPath := by
  obtain ⟨grp, member, isStore⟩ := sound.mem_stores present
  exact ⟨grp, member, ((sound.groups grp member).stores ctx isStore).1⟩

/-- The registry and all stores of the tree can be closed. -/
theorem closable (sound : Sound root b) {ids : CQuestionAnswerImpl}
    (opened : b.regs.ptrIds = some ids) :
    ∀ ctx ∈ ids :: stores b.clsQuestionBank, ctx.Closable b.regs.disk := by
  obtain ⟨isIds, _⟩ := sound.ids ids opened
  intro ctx present
  rcases List.mem_cons.mp present with rfl | inTree
  · exact ⟨isIds ▸ idsPath_ne_nil root, isIds ▸ sound.ids_file⟩
  · obtain ⟨grp, member, path⟩ := sound.file_of_store inTree
    exact ⟨path ▸ grp.datPath_ne_nil, path ▸ (sound.groups grp member).not_directory⟩

/-- The registry and all stores are on different files. -/
theorem distinct_files (sound : Sound root b) {ids : CQuestionAnswerImpl}
    (opened : b.regs.ptrIds = some ids) :
    ((ids :: stores b.clsQuestionBank).map CQuestionAnswerImpl.strPath).Nodup := by
  rw [List.map_cons, List.nodup_cons]
  refine ⟨?_, sound.distinct_stores⟩
  intro present
  obtain ⟨ctx, inTree, same⟩ := List.mem_map.mp present
  obtain ⟨grp, member, path⟩ := sound.file_of_store inTree
  apply (sound.groups grp member).datPath_ne_ids
  rw [← path, same, (sound.ids ids opened).1]

/-- Closing the registry and some of the stores leaves these records on the disk. The other
files are as before. -/
theorem partlyClosed (rt : Runtime) (sound : Sound root b) {ids : CQuestionAnswerImpl}
    (opened : b.regs.ptrIds = some ids) {closed : List CQuestionAnswerImpl} {disk : Disk}
    (within : closed ⊆ stores b.clsQuestionBank)
    (all : ClosedAll rt (ids :: closed) b.regs.disk disk) :
    PartlyClosed rt root b closed ids.lstGroups disk := by
  obtain ⟨isIds, noQuestions⟩ := sound.ids ids opened
  have directories := all.directory_iff fun ctx present =>
    sound.closable opened ctx (List.cons_subset_cons ids within present)
  have parents : ∀ {p : Path} {file : String}, b.regs.disk.node p = some .directory →
      b.regs.disk.HasParent (p ++ [file]) :=
    fun directory => FileSystem.hasParent_append_singleton directory
  -- a file that no closed store is on
  have elsewhere : ∀ grp ∈ b.groups, (∀ ctx ∈ closed, ctx ∉ grp.vecQuestions) →
      disk.node grp.datPath = b.regs.disk.node grp.datPath := by
    intro grp present notStored
    apply all.untouched
    intro ctx member same
    rcases List.mem_cons.mp member with rfl | isClosed
    · exact (sound.groups grp present).datPath_ne_ids (same.symm.trans isIds)
    · obtain ⟨other, isGroup, isStore⟩ := sound.mem_stores (within isClosed)
      rw [((sound.groups other isGroup).stores ctx isStore).1] at same
      obtain rfl := sound.eq_of_datPath isGroup present same
      exact notStored ctx isClosed isStore
  refine ⟨directories, ?_, ?_, ?_, ?_⟩
  · have written := all.written ids List.mem_cons_self
    rw [written_of_groups rt noQuestions (isIds ▸ parents sound.root_directory), isIds]
      at written
    exact decodedAt_of_recordsNode rt.parse_serializeGroups written
  · intro grp present isClosed
    have kept := sound.groups grp present
    rcases kept.stores_cases with empty | ⟨ctx, only, path, noGroups⟩
    · have gone : disk.node grp.datPath = none := by
        rw [elsewhere grp present (by simp [empty]), kept.unopened empty]
      have noRecords : grp.records = [] := by simp [GroupMembers.records, empty]
      rw [noRecords]
      exact ⟨by rw [decodedAt, FileSystem.contentsAt_of_absent gone], iff_of_true gone rfl⟩
    · have written := all.written ctx
        (List.mem_cons_of_mem _ (isClosed (by simp [only])))
      have parent : b.regs.disk.HasParent ctx.strPath := by
        rw [path, kept.datPath_eq]
        exact parents kept.directory
      rw [written_of_questions rt noGroups parent, path] at written
      have records : grp.records = ctx.lstQuestions := by simp [GroupMembers.records, only]
      rw [records]
      refine ⟨decodedAt_of_recordsNode rt.parse_serializeQuestions written, ?_⟩
      rw [written, recordsNode]
      simp
  · intro grp present notClosed
    apply elsewhere grp present
    rcases (sound.groups grp present).stores_cases with empty | ⟨ctx, only, _, _⟩
    · exact absurd (by simp [empty]) notClosed
    · rw [only] at notClosed ⊢
      intro other isClosed member
      obtain rfl := List.mem_singleton.mp member
      exact notClosed (by simpa using isClosed)
  · intro p below different present
    by_cases isPath : ∃ ctx ∈ ids :: closed, ctx.strPath = p
    · obtain ⟨ctx, member, rfl⟩ := isPath
      rcases List.mem_cons.mp member with rfl | isClosed
      · exact Or.inl isIds
      · obtain ⟨grp, isGroup, path⟩ := sound.file_of_store (within isClosed)
        exact Or.inr ⟨grp, isGroup, Or.inr path⟩
    · rw [all.untouched p fun ctx member same => isPath ⟨ctx, member, same⟩] at present
      exact sound.entries p below different present

/-- Closing a bank that agrees with its directory raises no error and leaves all of its
records on the disk. -/
theorem uninit (rt : Runtime) (sound : Sound root b) :
    ∃ items disk, (items.map groupPair).Perm (groupPairs b.clsQuestionBank) ∧
      (b.uninit rt).1 = .value () ∧ (b.uninit rt).2.regs.disk = disk ∧
      LeftOnDisk rt root b items disk := by
  obtain ⟨ids, opened, _, pairs⟩ := sound.agrees.ids
  obtain ⟨disk, closes, all⟩ := uninit_spec rt opened (sound.distinct_files opened)
    (sound.closable opened)
  have closed := sound.partlyClosed rt opened (List.Subset.refl _) all
  have isClosed : ∀ grp ∈ b.groups, grp.vecQuestions ⊆ stores b.clsQuestionBank :=
    fun grp present ctx isStore => List.mem_flatMap.mpr
      ⟨grp, mem_preorder_of_mem_descendants present, isStore⟩
  exact ⟨ids.lstGroups, disk, pairs, by rw [closes], by rw [closes], closed.directories,
    closed.registry, fun grp present => (closed.saved grp present (isClosed grp present)).1,
    fun grp present => (closed.saved grp present (isClosed grp present)).2, closed.entries⟩

theorem distinct_paths (sound : Sound root b) :
    (b.clsQuestionBank.preorder.map GroupMembers.strPath).Nodup := by
  have names : b.clsQuestionBank.preorder.map (Path.filename ∘ GroupMembers.strPath) =
      b.clsQuestionBank.preorder.map GroupMembers.strName :=
    List.map_congr_left fun grp present => sound.filename present
  apply List.Nodup.of_map Path.filename
  rw [List.map_map, names]
  exact sound.distinct_names

end Sound

/-! ## What the next `init` reads -/

/-- A group after its records were written and read again. -/
def GroupMembers.reopened (grp : GroupMembers) : GroupMembers :=
  { grp with
    vecQuestions :=
      if grp.records = [] then []
      else [{ strPath := grp.datPath, lstQuestions := grp.records }] }

@[simp] theorem GroupMembers.reopened_identity (grp : GroupMembers) :
    grp.reopened.identity = grp.identity := rfl

@[simp] theorem GroupMembers.reopened_records (grp : GroupMembers) :
    grp.reopened.records = grp.records := by
  unfold reopened
  by_cases empty : grp.records = []
  · rw [if_pos empty, empty]
    rfl
  · rw [if_neg empty]
    exact List.append_nil _

/-- Records with distinct ids make a registry of the same pairs. -/
theorem registryOf_eq {items : List QuestionAnswerGroup}
    (distinct : (items.map QuestionAnswerGroup.id).Nodup) :
    registryOf items [] = items.map groupPair := by
  have appended : ∀ map : IdMap, (map.map Prod.fst ++ items.map QuestionAnswerGroup.id).Nodup →
      registryOf items map = map ++ items.map groupPair := by
    clear distinct
    induction items with
    | nil =>
        intro map _
        simp [registryOf]
    | cons item items inductionHypothesis =>
        intro map distinct
        have isNew : map.contains item.id = false := by
          rw [IdMap.contains_eq_false_iff]
          intro known
          exact (List.nodup_append.mp distinct).2.2 _ known _ List.mem_cons_self rfl
        have rest := inductionHypothesis (map ++ [(item.id, item.group)]) (by
          rw [List.map_append, List.append_assoc]
          exact distinct)
        rw [registryOf, List.foldl_cons, IdMap.emplace_of_absent isNew]
        rw [registryOf, List.append_assoc] at rest
        exact rest
  exact appended [] distinct

namespace LeftOnDisk

variable {rt : Runtime} {root : Path} {b : CQuestionBankImpl}
  {items : List QuestionAnswerGroup} {disk : Disk} {entries : List Path}

/-- The files that `init` opens are those of the groups. -/
theorem isStoreEntry_iff (left : LeftOnDisk rt root b items disk) (sound : Sound root b)
    (listed : disk.IsListing root entries) {entry : Path} (member : entry ∈ entries) :
    isStoreEntry disk entry = true ↔ ∃ grp ∈ b.groups, entry = grp.datPath := by
  obtain ⟨below, different, present⟩ := (listed.mem_iff entry).mp member
  constructor
  · intro isStore
    obtain ⟨isFile, notIds⟩ := isFile_of_isStoreEntry isStore
    rcases left.entries entry below different present with rfl | ⟨grp, isGroup, rfl | rfl⟩
    · exact absurd (Path.filename_append_singleton root _) notIds
    · have directory := (left.directories _).mpr (sound.groups grp isGroup).directory
      obtain ⟨contents, node⟩ := FileSystem.isFile_iff.mp isFile
      rw [directory] at node
      cases node
    · exact ⟨grp, isGroup, rfl⟩
  · rintro ⟨grp, isGroup, rfl⟩
    have kept := sound.groups grp isGroup
    have notDirectory : disk.node grp.datPath ≠ some .directory := fun directory =>
      kept.not_directory ((left.directories _).mp directory)
    have isFile : disk.isFile grp.datPath = true := by
      rw [FileSystem.isFile_iff]
      rcases node : disk.node grp.datPath with _ | ⟨_⟩ | ⟨contents⟩
      · exact absurd node present
      · exact absurd node notDirectory
      · exact ⟨contents, rfl⟩
    have notIds : grp.datPath.filename ≠ "ids.dat" := by
      rw [kept.datPath_eq, Path.filename_append_singleton]
      exact kept.id.ne_ids
    simp [isStoreEntry, isFile, notIds]

/-- The directories below the root are those of the groups. -/
theorem directories_perm (left : LeftOnDisk rt root b items disk) (sound : Sound root b)
    (listed : disk.IsListing root entries) :
    (CQuestionBankImpl.directories disk root entries).Perm
      (b.clsQuestionBank.preorder.map GroupMembers.strPath) := by
  have rootPath : b.clsQuestionBank.label.strPath = root := by rw [sound.root_group]
  have distinct := sound.distinct_paths
  rw [preorder_eq_label_cons, List.map_cons, rootPath] at distinct ⊢
  refine List.Perm.cons root ((List.perm_ext_iff_of_nodup (listed.nodup.filter _)
    (List.nodup_cons.mp distinct).2).mpr ?_)
  intro p
  rw [List.mem_filter, FileSystem.isDirectory_iff]
  constructor
  · rintro ⟨member, directory⟩
    obtain ⟨below, different, present⟩ := (listed.mem_iff p).mp member
    have wasDirectory := (left.directories p).mp directory
    rcases left.entries p below different present with rfl | ⟨grp, isGroup, rfl | rfl⟩
    · exact absurd wasDirectory sound.ids_file
    · exact List.mem_map_of_mem isGroup
    · exact absurd wasDirectory (sound.groups grp isGroup).not_directory
  · intro isPath
    obtain ⟨grp, isGroup, rfl⟩ := List.mem_map.mp isPath
    have directory := (left.directories _).mpr (sound.groups grp isGroup).directory
    refine ⟨(listed.mem_iff _).mpr ⟨sound.root_prefix (mem_preorder_of_mem_descendants isGroup),
      sound.ne_root isGroup, ?_⟩, directory⟩
    rw [directory]
    simp

/-- The stores that `init` opens in a directory are those of its group. -/
theorem storesIn_eq (left : LeftOnDisk rt root b items disk) (sound : Sound root b)
    (listed : disk.IsListing root entries) {grp : GroupMembers}
    (present : grp ∈ b.clsQuestionBank.preorder) :
    storesIn rt disk entries grp.strPath = grp.reopened.vecQuestions := by
  -- the file of a group tells the directory it is in
  have inDirectory : ∀ other ∈ b.groups, other.datPath.dropLast = grp.strPath → other = grp := by
    intro other isGroup same
    rw [(sound.groups other isGroup).datPath_eq, List.dropLast_concat] at same
    exact sound.eq_of_strPath (mem_preorder_of_mem_descendants isGroup) present same
  have files : (entries.filter fun entry =>
      isStoreEntry disk entry && entry.dropLast = grp.strPath).Perm
        (if grp.records = [] then [] else [grp.datPath]) := by
    refine (List.perm_ext_iff_of_nodup (listed.nodup.filter _) (by split <;> simp)).mpr ?_
    intro p
    rw [List.mem_filter, Bool.and_eq_true, decide_eq_true_eq]
    constructor
    · rintro ⟨member, isStore, inside⟩
      obtain ⟨other, isGroup, rfl⟩ := (left.isStoreEntry_iff sound listed member).mp isStore
      obtain rfl := inDirectory other isGroup inside
      have isPresent := ((listed.mem_iff _).mp member).2.2
      rw [Ne, left.absent other isGroup] at isPresent
      rw [if_neg isPresent]
      exact List.mem_cons_self
    · intro isFile
      by_cases empty : grp.records = []
      · rw [if_pos empty] at isFile
        cases isFile
      · rw [if_neg empty, List.mem_singleton] at isFile
        subst isFile
        have isGroup : grp ∈ b.groups := by
          rcases sound.mem_preorder.mp present with rfl | below
          · exact absurd rfl empty
          · exact below
        have kept := sound.groups grp isGroup
        have isPresent := fun absent => empty ((left.absent grp isGroup).mp absent)
        have inside : grp.datPath.dropLast = grp.strPath := by
          rw [kept.datPath_eq, List.dropLast_concat]
        have member : grp.datPath ∈ entries := by
          rw [listed.mem_iff, kept.datPath_eq]
          refine ⟨(sound.root_prefix present).trans (List.prefix_append _ _), ?_,
            kept.datPath_eq ▸ isPresent⟩
          intro same
          have lengths := (sound.root_prefix present).length_le
          rw [same, List.length_append, List.length_singleton] at lengths
          omega
        exact ⟨member, (left.isStoreEntry_iff sound listed member).mpr ⟨grp, isGroup, rfl⟩,
          inside⟩
  by_cases empty : grp.records = []
  · rw [if_pos empty] at files
    rw [storesIn, files.eq_nil, GroupMembers.reopened, if_pos empty]
    rfl
  · rw [if_neg empty] at files
    have isGroup : grp ∈ b.groups := by
      rcases sound.mem_preorder.mp present with rfl | below
      · exact absurd rfl empty
      · exact below
    have kept := sound.groups grp isGroup
    have opens := openFile_questions_iff.mpr ⟨grp.datPath_ne_nil,
      fun directory => kept.not_directory ((left.directories _).mp directory), _,
      left.records grp isGroup, rfl⟩
    rw [storesIn, files.eq_singleton, GroupMembers.reopened, if_neg empty, List.map_singleton,
      storeOf, opens]

/-- The group that `init` makes of a directory is that of the closed bank. -/
theorem mirrorOf_eq (left : LeftOnDisk rt root b items disk) (sound : Sound root b)
    (listed : disk.IsListing root entries)
    (pairs : (items.map groupPair).Perm (groupPairs b.clsQuestionBank))
    {grp : GroupMembers} (present : grp ∈ b.clsQuestionBank.preorder) :
    mirrorOf rt disk (registryOf items []) root entries grp.strPath = grp.reopened := by
  have stores := left.storesIn_eq sound listed present
  have id : (if grp.strPath = root then ""
      else (registryOf items []).idOfName rt grp.strPath.filename) = grp.strId := by
    rcases sound.mem_preorder.mp present with rfl | below
    · exact if_pos rfl
    · rw [if_neg (sound.ne_root below).symm, sound.filename present]
      have distinctIds : (items.map QuestionAnswerGroup.id).Nodup := by
        have keys := (pairs.map Prod.fst).nodup_iff.mpr sound.agrees.distinctIds
        rwa [List.map_map] at keys
      rw [registryOf_eq distinctIds]
      apply IdMap.idOfName_eq rt
      · exact (pairs.map Prod.snd).nodup_iff.mpr sound.agrees.distinctNames
      · exact pairs.mem_iff.mpr (List.mem_map_of_mem (f := GroupMembers.pair) below)
  rw [mirrorOf, stores, id, sound.filename present]
  rfl

/-- Every entry that `init` places lies in the first directory of its name. -/
theorem namesFound (left : LeftOnDisk rt root b items disk) (sound : Sound root b)
    (listed : disk.IsListing root entries) : NamesFound disk root entries := by
  intro entry member placed dir isDirectory sameName
  have parent : ∃ grp ∈ b.clsQuestionBank.preorder, entry.dropLast = grp.strPath := by
    rcases placed with directory | isStore
    · have inTree : entry ∈ CQuestionBankImpl.directories disk root entries :=
        List.mem_cons_of_mem _ (List.mem_filter.mpr ⟨member, directory⟩)
      rw [(left.directories_perm sound listed).mem_iff] at inTree
      obtain ⟨grp, present, rfl⟩ := List.mem_map.mp inTree
      have notRoot := ((listed.mem_iff _).mp member).2.1
      rcases sound.mem_preorder.mp present with rfl | below
      · exact absurd rfl notRoot
      · obtain ⟨above, inTree, _, path⟩ := sound.exists_parent below
        exact ⟨above, inTree, by rw [path, List.dropLast_concat]⟩
    · obtain ⟨grp, isGroup, rfl⟩ := (left.isStoreEntry_iff sound listed member).mp isStore
      refine ⟨grp, mem_preorder_of_mem_descendants isGroup, ?_⟩
      rw [(sound.groups grp isGroup).datPath_eq, List.dropLast_concat]
  obtain ⟨grp, present, isParent⟩ := parent
  rw [(left.directories_perm sound listed).mem_iff] at isDirectory
  obtain ⟨other, inTree, rfl⟩ := List.mem_map.mp isDirectory
  rw [isParent] at sameName ⊢
  rw [sound.filename inTree, sound.filename present] at sameName
  obtain rfl := sound.eq_of_strName inTree present sameName
  exact List.prefix_rfl

/-- The rows of the tree that `init` builds. -/
theorem mirrorRows_perm (left : LeftOnDisk rt root b items disk) (sound : Sound root b)
    (listed : disk.IsListing root entries)
    (pairs : (items.map groupPair).Perm (groupPairs b.clsQuestionBank)) :
    (mirrorRows rt disk (registryOf items []) root entries).Perm
      ((parentRows b.clsQuestionBank).map fun row => (row.1, row.2.reopened)) := by
  have rowOf : ∀ row ∈ parentRows b.clsQuestionBank,
      mirrorRow rt disk (registryOf items []) root entries row.2.strPath =
        (row.1, row.2.reopened) := by
    intro row member
    have present : row.2 ∈ b.clsQuestionBank.preorder := snd_mem_preorder_of_mem_inherited member
    rw [mirrorRow, left.mirrorOf_eq sound listed pairs present]
    congr 1
    rcases parentRows_cases member with rfl | ⟨c, parent, before, child, after, tree, rfl⟩
    · rw [sound.root_group]
      exact if_pos rfl
    · have below : child.label ∈ b.groups := by
        rw [CQuestionBankImpl.groups, tree]
        exact mem_descendants_plug c parent before after child.label_mem_preorder
      have isParent : parent ∈ b.clsQuestionBank.preorder := by
        rw [tree, preorder_plug]
        simp
      have path := sound.rows _ member parent.identity rfl
      simp only at path ⊢
      have directory : child.label.strPath.dropLast = parent.strPath := by
        rw [path, List.dropLast_concat]
        rfl
      rw [if_neg (sound.ne_root below).symm, directory,
        left.mirrorOf_eq sound listed pairs isParent, GroupMembers.reopened_identity]
  have perm := (left.directories_perm sound listed).map
    (mirrorRow rt disk (registryOf items []) root entries)
  rw [List.map_map, ← map_snd_parentRows, List.map_map] at perm
  rw [mirrorRows, ← List.map_congr_left rowOf]
  exact perm

end LeftOnDisk

/-- A bank with the groups of one that agreed with the directory, read again, agrees with
the directory too. -/
theorem Sound.reopened {rt : Runtime} {root : Path} {b : CQuestionBankImpl}
    {items : List QuestionAnswerGroup} {disk : Disk}
    (sound : Sound root b)
    (left : LeftOnDisk rt root b items disk)
    (pairs : (items.map groupPair).Perm (groupPairs b.clsQuestionBank))
    {tree : CQuestionGroupParam}
    (rows : (parentRows tree).Perm
      ((parentRows b.clsQuestionBank).map fun row => (row.1, row.2.reopened))) :
    Sound root
      { clsQuestionBank := tree
        strIdPath := idsPath root
        regs :=
          { disk := disk
            refusals := Refusals.never
            mapIds := registryOf items []
            ptrIds := some { strPath := idsPath root, lstGroups := items } } } := by
  have label : tree.label = b.clsQuestionBank.label := by
    have isRow : (none, tree.label) ∈ parentRows tree := by
      rw [← node_label_children tree, parentRows, inherited_node]
      exact List.mem_cons_self
    obtain ⟨row, member, equal⟩ := List.mem_map.mp (rows.mem_iff.mp isRow)
    obtain ⟨isRoot, sameLabel⟩ := Prod.mk.inj equal
    rcases parentRows_cases member with rfl | ⟨_, _, _, _, _, _, rfl⟩
    · rw [← sameLabel, sound.root_group]
      rfl
    · cases isRoot
  have groups : tree.descendants.Perm (b.groups.map GroupMembers.reopened) := by
    have whole := rows.map Prod.snd
    rw [map_snd_parentRows, List.map_map] at whole
    have mapped : (parentRows b.clsQuestionBank).map
        (Prod.snd ∘ fun row => (row.1, row.2.reopened)) =
          b.clsQuestionBank.preorder.map GroupMembers.reopened := by
      rw [← map_snd_parentRows, List.map_map]
      rfl
    have rootSame : b.clsQuestionBank.label.reopened = tree.label := by
      rw [label, sound.root_group]
      rfl
    rw [mapped, preorder_eq_label_cons, preorder_eq_label_cons, List.map_cons, rootSame] at whole
    exact whole.cons_inv
  have samePairs : (groupPairs tree).Perm (groupPairs b.clsQuestionBank) := by
    have mapped := groups.map GroupMembers.pair
    rw [List.map_map] at mapped
    exact mapped
  have distinctIds : (items.map QuestionAnswerGroup.id).Nodup := by
    have keys := (pairs.map Prod.fst).nodup_iff.mpr sound.agrees.distinctIds
    rwa [List.map_map] at keys
  refine ⟨⟨?_, ⟨_, rfl, idsPath_ne_nil root, pairs.trans samePairs.symm⟩, ?_, ?_, ?_⟩, ?_,
    label.trans sound.root_group, ?_, ?_, ?_, ?_, ?_, rfl⟩
  · rw [label]
    exact sound.agrees.root
  · rw [registryOf_eq distinctIds]
    exact pairs.trans samePairs.symm
  · exact (samePairs.map Prod.fst).nodup_iff.mpr sound.agrees.distinctIds
  · exact (samePairs.map Prod.snd).nodup_iff.mpr sound.agrees.distinctNames
  · intro ids isIds
    obtain rfl := Option.some.inj isIds
    exact ⟨rfl, rfl⟩
  · intro row member above isAbove
    obtain ⟨old, isRow, rfl⟩ := List.mem_map.mp (rows.mem_iff.mp member)
    exact sound.rows old isRow above isAbove
  · intro grp member
    obtain ⟨old, isGroup, rfl⟩ := List.mem_map.mp (groups.mem_iff.mp member)
    have kept := sound.groups old isGroup
    refine ⟨kept.name, kept.id, ?_, ?_, (left.directories _).mpr kept.directory,
      fun directory => kept.not_directory ((left.directories _).mp directory), ?_⟩
    · unfold GroupMembers.reopened
      split <;> simp
    · intro ctx isStore
      unfold GroupMembers.reopened at isStore
      split at isStore
      · cases isStore
      · rw [List.mem_singleton.mp isStore]
        refine ⟨rfl, rfl, ?_⟩
        rw [kept.usable.records_eq]
        exact kept.usable.context_distinct
    · intro none
      unfold GroupMembers.reopened at none
      split at none
      · rename_i empty
        exact (left.absent old isGroup).mpr empty
      · cases none
  · exact (left.directories root).mpr sound.root_directory
  · exact fun directory => sound.ids_file ((left.directories _).mp directory)
  · intro p below different present
    rcases left.entries p below different present with isIds | ⟨old, isGroup, isPath⟩
    · exact Or.inl isIds
    · right
      refine ⟨old.reopened, groups.mem_iff.mpr (List.mem_map_of_mem isGroup), ?_⟩
      exact isPath

end Notebook
