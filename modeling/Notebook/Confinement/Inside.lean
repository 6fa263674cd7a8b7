import Notebook.Groups.Calls
import Notebook.Init.Started

/-!
# Banks that stay in their directory

A bank reaches the disk through the paths that its tree and its store of ids keep. All of
them stay at or below the root as long as ids are plain and the names that a caller gives
stay below the directory they are joined to, whatever the calls answer.
-/

namespace Notebook

open RoseTree CQuestionAnswerImpl CQuestionBankImpl

/-! ## Plain ids -/

/-- An id whose file lies in the directory of its group and is not the registry. -/
structure IsPlainId (id : String) : Prop where
  no_separator : ∀ x ∈ id.toList, Path.isSeparator x = false
  ne_ids : id ≠ "ids"

instance (id : String) : Decidable (IsPlainId id) :=
  decidable_of_iff
    (id.toList.all (fun x => !Path.isSeparator x) = true ∧ id ≠ "ids")
    ⟨fun h => ⟨by simpa using h.1, h.2⟩, fun h => ⟨by simpa using h.no_separator, h.ne_ids⟩⟩

theorem isPlainId_empty : IsPlainId "" := by decide

theorem IsPlainId.component {id : String} (plain : IsPlainId id) :
    IsComponent (id ++ ".dat") := by
  have long : ∀ text : String, text.toList.length < 4 → id ++ ".dat" ≠ text := by
    rintro text short rfl
    rw [String.toList_append, List.length_append] at short
    have extension : ".dat".toList.length = 4 := by decide
    omega
  refine ⟨?_, long "" (by decide), long "." (by decide), long ".." (by decide)⟩
  intro c member
  rw [String.toList_append, List.mem_append] at member
  have extension : ".dat".toList.all (fun c => !Path.isSeparator c) = true := by decide
  rcases member with inId | inExtension
  · exact plain.no_separator c inId
  · simpa using List.all_eq_true.mp extension c inExtension

theorem IsPlainId.ne_ids_dat {id : String} (plain : IsPlainId id) : id ++ ".dat" ≠ "ids.dat" := by
  intro same
  have parts : "ids.dat".toList = "ids".toList ++ ".dat".toList := by decide
  have texts := congrArg String.toList same
  rw [String.toList_append, parts] at texts
  exact plain.ne_ids (String.toList_inj.mp (List.append_cancel_right texts))

/-- The records of the registry on the disk have plain ids. -/
def PlainRegistry (rt : Runtime) (root : Path) (disk : Disk) : Prop :=
  ∀ items, decodedAt rt.parseGroups disk (idsPath root) = some items →
    ∀ item ∈ items, IsPlainId item.id

theorem PlainRegistry.congr {rt : Runtime} {root : Path} {disk disk' : Disk}
    (plain : PlainRegistry rt root disk)
    (same : decodedAt rt.parseGroups disk' (idsPath root) =
      decodedAt rt.parseGroups disk (idsPath root)) :
    PlainRegistry rt root disk' := by
  rw [PlainRegistry, same]
  exact plain

/-! ## The invariant -/

/-- A group whose directory and files lie below the root, apart from the registry. -/
structure GroupMembers.Inside (root : Path) (grp : GroupMembers) : Prop where
  path : root <+: grp.strPath
  id : IsPlainId grp.strId
  stores : ∀ ctx ∈ grp.vecQuestions, root <+: ctx.strPath ∧ ctx.strPath ≠ idsPath root

/-- The store of ids is on the registry, and its ids are plain. -/
structure CQuestionAnswerImpl.IsRegistry (root : Path) (ids : CQuestionAnswerImpl) : Prop where
  path : ids.strPath = idsPath root
  questions : ids.lstQuestions = []
  plain : ∀ item ∈ ids.lstGroups, IsPlainId item.id

/-- The members next to the tree, on a disk that differs from `start` below the root only.
Without a store of ids the registry on the disk has plain ids. -/
structure Registers.Inside (rt : Runtime) (root : Path) (start : Disk) (r : Registers) :
    Prop where
  mapIds : ∀ kv ∈ r.mapIds, IsPlainId kv.1
  ptrIds : ∀ ids ∈ r.ptrIds, ids.IsRegistry root
  registry : r.ptrIds = none → PlainRegistry rt root r.disk
  outside : start.AgreeOutside root r.disk

/-- A bank that stays in its directory. -/
structure Confined (rt : Runtime) (root : Path) (start : Disk) (b : CQuestionBankImpl) :
    Prop where
  groups : ∀ grp ∈ b.clsQuestionBank.preorder, grp.Inside root
  regs : b.regs.Inside rt root start

theorem GroupMembers.Covers.inside {root : Path} {grp grp' : GroupMembers}
    (covers : grp.Covers grp') (inside : grp.Inside root) : grp'.Inside root where
  path := covers.strPath ▸ inside.path
  id := covers.strId ▸ inside.id
  stores ctx member := inside.stores ctx (covers.stores ctx member)

theorem GroupMembers.Inside.not_touches {root : Path} {grp : GroupMembers}
    (inside : grp.Inside root) {q : Path} (outside : ¬ root <+: q) : ¬ grp.Touches q := by
  rintro (below | ⟨ctx, member, rfl⟩)
  · exact outside (inside.path.trans below)
  · exact outside (inside.stores ctx member).1

/-- Closing a store below the root. -/
theorem agreeOutside_of_close {rt : Runtime} {root : Path} {disk disk' : Disk}
    {ctx : CQuestionAnswerImpl} (below : root <+: ctx.strPath)
    (closed : ctx.close rt disk = some disk') :
    disk.AgreeOutside root disk' :=
  .of_ne below fun _ elsewhere => node_of_close closed elsewhere

/-! ## The store of ids -/

namespace CQuestionAnswerImpl.IsRegistry

variable {root : Path} {ids : CQuestionAnswerImpl}

theorem opened (isRegistry : ids.IsRegistry root) : ids.strPath ≠ [] := by
  rw [isRegistry.path]
  exact idsPath_ne_nil root

theorem of_sameRecords {ids' : CQuestionAnswerImpl} (isRegistry : ids.IsRegistry root)
    (same : SameRecords ids ids') : ids'.IsRegistry root where
  path := same.path.trans isRegistry.path
  questions := same.questions.trans isRegistry.questions
  plain := by
    rw [same.groups]
    exact isRegistry.plain

theorem addGroup (isRegistry : ids.IsRegistry root) {id : String} (plain : IsPlainId id)
    (name : String) : (ids.addGroup id name).2.IsRegistry root := by
  rcases addGroup_cases isRegistry.opened id name with ⟨_, same⟩ | ⟨_, done⟩
  · exact isRegistry.of_sameRecords same
  · rw [done]
    refine ⟨isRegistry.path, isRegistry.questions, List.forall_mem_append.mpr ⟨?_, ?_⟩⟩
    · exact isRegistry.plain
    · simpa using plain

theorem deleteGroup (isRegistry : ids.IsRegistry root) (id : String) :
    (ids.deleteGroup id).2.IsRegistry root := by
  rcases deleteGroup_cases isRegistry.opened id with ⟨_, same⟩ | ⟨before, x, after, split, _, done⟩
  · exact isRegistry.of_sameRecords same
  · rw [done]
    refine ⟨isRegistry.path, isRegistry.questions, fun item member => isRegistry.plain item ?_⟩
    have moved := swapRemove_perm before x after
    rw [swapRemove_append_cons] at moved
    rw [split]
    rcases List.mem_append.mp (moved.mem_iff.mp member) with inBefore | inAfter
    · exact List.mem_append_left _ inBefore
    · exact List.mem_append_right _ (List.mem_cons_of_mem x inAfter)

theorem foldl_deleteGroup (isRegistry : ids.IsRegistry root) (erased : List String) :
    (erased.foldl (fun ids id => (ids.deleteGroup id).2) ids).IsRegistry root := by
  induction erased generalizing ids with
  | nil => exact isRegistry
  | cons id erased inductionHypothesis => exact inductionHypothesis (isRegistry.deleteGroup id)

theorem updateGroup (isRegistry : ids.IsRegistry root) (id name : String) :
    (ids.updateGroup id name).2.IsRegistry root := by
  rcases updateGroup_cases isRegistry.opened id name with
    ⟨_, same⟩ | ⟨before, x, after, split, _, _, done⟩
  · exact isRegistry.of_sameRecords same
  · have plain := isRegistry.plain
    rw [split, List.forall_mem_append, List.forall_mem_cons] at plain
    rw [done]
    refine ⟨isRegistry.path, isRegistry.questions, ?_⟩
    rw [List.forall_mem_append, List.forall_mem_cons]
    exact plain

/-- Closing the store leaves plain ids on the disk. -/
theorem close (isRegistry : ids.IsRegistry root) {rt : Runtime} {disk disk' : Disk}
    (closed : ids.close rt disk = some disk') : PlainRegistry rt root disk' := by
  intro items decoded
  rw [decodedAt, FileSystem.contentsAt] at decoded
  rcases node : disk'.node (idsPath root) with _ | _ | held
  · simp [(show items = [] by simpa [node] using decoded.symm)]
  · simp [(show items = [] by simpa [node] using decoded.symm)]
  · simp only [node] at decoded
    rw [← isRegistry.path] at node
    obtain ⟨written, rfl⟩ := file_of_close isRegistry.opened closed node
    have hasGroups : ids.lstGroups ≠ [] :=
      written.resolve_right fun hasQuestions => hasQuestions isRegistry.questions
    rw [contents, if_neg hasGroups, if_pos isRegistry.questions, List.append_nil,
      rt.parse_serializeGroups] at decoded
    cases decoded
    exact isRegistry.plain

/-- A store that cannot be closed has a directory at its path. -/
theorem not_closed (isRegistry : ids.IsRegistry root) {rt : Runtime} {disk : Disk}
    (fails : ids.close rt disk = none) : PlainRegistry rt root disk := by
  have directory : disk.node (idsPath root) = some .directory := by
    by_contra notDirectory
    rw [← isRegistry.path] at notDirectory
    obtain ⟨_, closes, _⟩ := close_spec rt ⟨isRegistry.opened, notDirectory⟩
    rw [closes] at fails
    cases fails
  intro items decoded
  rw [decodedAt, FileSystem.contentsAt, directory] at decoded
  cases decoded
  simp

end CQuestionAnswerImpl.IsRegistry

/-! ## Group operations -/

theorem IdMap.mem_emplace {map : IdMap} {id name : String} {kv : String × String}
    (member : kv ∈ map.emplace id name) : kv ∈ map ∨ kv = (id, name) := by
  unfold emplace at member
  split at member
  · exact Or.inl member
  · simpa using member

theorem GroupMembers.Inside.newGroup {root : Path} {parent : GroupMembers}
    (inside : parent.Inside root) {id name : String} (plain : IsPlainId id)
    (stays : StaysBelow name) : (Registers.newGroup parent id name).Inside root where
  path := inside.path.trans (stays.prefix_join parent.strPath)
  id := plain
  stores := by simp [Registers.newGroup]

namespace Registers.Inside

variable {rt : Runtime} {root : Path} {start : Disk} {r : Registers}

theorem emplace (inside : r.Inside rt root start) {id : String} (plain : IsPlainId id)
    (name : String) : ∀ kv ∈ r.mapIds.emplace id name, IsPlainId kv.1 := by
  intro kv member
  rcases IdMap.mem_emplace member with known | rfl
  · exact inside.mapIds kv known
  · exact plain

theorem addGroup (inside : r.Inside rt root start) {id name : String} (plain : IsPlainId id)
    (stays : StaysBelow name) {qgp : CQuestionGroupParam}
    (groups : ∀ grp ∈ qgp.preorder, grp.Inside root) :
    (∀ grp ∈ (r.addGroup id name qgp).2.1.preorder, grp.Inside root) ∧
      (r.addGroup id name qgp).2.2.Inside rt root start := by
  obtain ⟨parent, children⟩ := qgp
  rw [preorder_node, List.forall_mem_cons] at groups
  cases opened : r.ptrIds with
  | none =>
      simp only [Registers.addGroup, opened]
      rw [preorder_node, List.forall_mem_cons]
      exact ⟨groups, inside.emplace plain name, by simp, fun _ => inside.registry opened,
        inside.outside⟩
  | some ids =>
      obtain ⟨answer, disk, message, done, ways⟩ :=
        Registers.addGroup_spec opened id name parent children
      have below := groups.1.path.trans (stays.prefix_join parent.strPath)
      rw [done]
      constructor
      · rw [preorder_node, List.forall_mem_cons, List.flatMap_append, List.forall_mem_append]
        refine ⟨groups.1, groups.2, ?_⟩
        simpa using groups.1.newGroup plain stays
      · refine ⟨inside.emplace plain name, ?_, by simp, ?_⟩
        · intro ids' isIds
          cases isIds
          exact (inside.ptrIds ids opened).addGroup plain name
        · rcases ways with ⟨_, _, rfl⟩ | ⟨_, creates⟩ | ⟨_, rfl, _⟩
          · exact inside.outside
          · exact inside.outside.trans (.of_mkdir below (Refusals.mkdir_of_created creates))
          · exact inside.outside

theorem updateGroup (inside : r.Inside rt root start) (id : String) {name : String}
    (stays : StaysBelow name) {qgp : CQuestionGroupParam}
    (groups : ∀ grp ∈ qgp.preorder, grp.Inside root) :
    (∀ grp ∈ (r.updateGroup rt id name qgp).2.1.preorder, grp.Inside root) ∧
      (r.updateGroup rt id name qgp).2.2.Inside rt root start := by
  obtain ⟨parent, children⟩ := qgp
  cases split : firstChild id (.node parent children) with
  | none =>
      obtain ⟨message, done⟩ := Registers.updateGroup_of_missing rt r name
        (fun other member => by simpa using splitFirst_eq_none_iff.mp split other member)
      rw [done]
      exact ⟨groups, inside.mapIds, inside.ptrIds, inside.registry, inside.outside⟩
  | some parts =>
      obtain ⟨before, found, after⟩ := parts
      obtain ⟨isChildren, isFound, first⟩ := splitFirst_eq_some_iff.mp split
      rw [children_node] at isChildren
      cases opened : r.ptrIds with
      | none =>
          rw [firstChild] at split
          simp only [Registers.updateGroup, split, opened]
          exact ⟨groups, inside⟩
      | some ids =>
          obtain ⟨answer, disk, message, done, moved⟩ :=
            @Registers.updateGroup_spec rt r ids opened id name parent before after found
              (by simpa using isFound) (fun other member => by simpa using first other member)
          rw [isChildren] at groups ⊢
          rw [done]
          rw [preorder_node, List.forall_mem_cons, List.flatMap_append, List.flatMap_cons,
            List.forall_mem_append, List.forall_mem_append, preorder_eq_label_cons found,
            List.forall_mem_cons] at groups
          obtain ⟨isParent, inBefore, ⟨isFound, inFound⟩, inAfter⟩ := groups
          constructor
          · rw [preorder_node, List.forall_mem_cons, List.flatMap_append, List.flatMap_cons,
              List.forall_mem_append, List.forall_mem_append, preorder_node,
              List.forall_mem_cons]
            exact ⟨isParent, inBefore, ⟨⟨isFound.path, isFound.id, isFound.stores⟩, inFound⟩,
              inAfter⟩
          · refine ⟨inside.mapIds, ?_, by simp, ?_⟩
            · intro ids' isIds
              cases isIds
              exact (inside.ptrIds ids opened).updateGroup id name
            · rcases moved with ⟨_, renames⟩ | ⟨_, rfl, _⟩
              · exact inside.outside.trans (.of_rename isFound.path
                  (isParent.path.trans (stays.prefix_join parent.strPath))
                  (Refusals.rename_of_allowed renames))
              · exact inside.outside

theorem deleteGroup (inside : r.Inside rt root start) (id : String)
    {qgp : CQuestionGroupParam} (groups : ∀ grp ∈ qgp.preorder, grp.Inside root) :
    (∀ grp ∈ (r.deleteGroup rt id qgp).2.1.preorder, grp.Inside root) ∧
      (r.deleteGroup rt id qgp).2.2.Inside rt root start := by
  have erases : ∀ kv ∈ r.mapIds.erase id, IsPlainId kv.1 := fun kv member =>
    inside.mapIds kv (List.mem_of_mem_filter member)
  cases opened : r.ptrIds with
  | none =>
      obtain ⟨depth, height⟩ := exists_height qgp
      simp only [Registers.deleteGroup, height, deleteGroupWithin, opened]
      exact ⟨groups, erases, by simp, fun _ => inside.registry opened, inside.outside⟩
  | some ids =>
      cases split : firstChild id qgp with
      | none =>
          obtain ⟨message, done⟩ := Registers.deleteGroup_of_missing rt opened split
          rw [done]
          refine ⟨groups, erases, ?_, by simp [unregister], inside.outside⟩
          intro ids' isIds
          cases isIds
          exact (inside.ptrIds ids opened).deleteGroup id
      | some parts =>
          obtain ⟨before, found, after⟩ := parts
          obtain ⟨rest, left, frame⟩ := Registers.deleteGroup_frame rt opened split
          have children := (firstChild_eq_some split).1
          rw [preorder_eq_label_cons, List.forall_mem_cons, descendants, children,
            List.flatMap_append, List.flatMap_cons, List.forall_mem_append,
            List.forall_mem_append] at groups
          obtain ⟨isParent, inBefore, inFound, inAfter⟩ := groups
          constructor
          · rw [left, preorder_node, List.forall_mem_cons, List.flatMap_append,
              List.flatMap_append, List.forall_mem_append, List.forall_mem_append]
            refine ⟨isParent, ⟨inBefore, ?_⟩, inAfter⟩
            intro grp' member
            obtain ⟨found', isRest, below⟩ := List.mem_flatMap.mp member
            rw [Option.mem_toList] at isRest
            rw [preorder_eq_label_cons, List.mem_cons] at below
            rcases below with rfl | below
            · exact (frame.label found' isRest).inside (inFound _ found.label_mem_preorder)
            · obtain ⟨grp, present, covers⟩ := frame.remains found' isRest grp' below
              exact covers.inside (inFound grp (mem_preorder_of_mem_descendants present))
          · obtain ⟨erased, erases, _⟩ := frame.erased
            refine ⟨?_, ?_, ?_, ?_⟩
            · intro kv member
              rw [erases.mapIds, IdMap.foldl_erase] at member
              exact inside.mapIds kv (List.mem_of_mem_filter member)
            · intro ids' isIds
              rw [erases.ptrIds, opened] at isIds
              cases isIds
              exact (inside.ptrIds ids opened).foldl_deleteGroup (id :: erased)
            · intro none
              rw [erases.ptrIds, opened] at none
              cases none
            · refine inside.outside.trans fun q outside => frame.disk q fun grp member => ?_
              exact (inFound grp member).not_touches outside

/-- Whatever `ctrlGroup` does, at any number of groups. -/
theorem ctrlGroup (inside : r.Inside rt root start) (pid : String) {gid name : String}
    {type : GroupCtrlType}
    (plain : type = .add → IsPlainId gid)
    (stays : type = .add ∨ type = .update → StaysBelow name)
    {qgp : CQuestionGroupParam} (groups : ∀ grp ∈ qgp.preorder, grp.Inside root) :
    (∀ grp ∈ (Registers.ctrlGroup rt pid gid name type qgp r).2.1.preorder,
        grp.Inside root) ∧
      (Registers.ctrlGroup rt pid gid name type qgp r).2.2.Inside rt root start := by
  unfold Registers.ctrlGroup
  refine search_maintains ?_ groups inside
  intro qgp r groups inside
  cases type with
  | none => exact ⟨groups, inside⟩
  | max => exact ⟨groups, inside⟩
  | add => exact inside.addGroup (plain rfl) (stays (Or.inl rfl)) groups
  | delete => exact inside.deleteGroup gid groups
  | update => exact inside.updateGroup gid (stays (Or.inr rfl)) groups

end Registers.Inside

/-! ## Questions -/

namespace Confined

variable {rt : Runtime} {root : Path} {start : Disk} {b : CQuestionBankImpl}

theorem contextHere {disk : Disk} {use : CQuestionAnswerImpl → β × CQuestionAnswerImpl}
    (keeps : ∀ ctx, (use ctx).2.strPath = ctx.strPath)
    {qgp : CQuestionGroupParam} (groups : ∀ grp ∈ qgp.preorder, grp.Inside root) :
    ∀ grp ∈ (contextHere rt disk use qgp).2.preorder, grp.Inside root := by
  obtain ⟨grp, children⟩ := qgp
  rw [preorder_node, List.forall_mem_cons] at groups
  obtain ⟨⟨path, id, stores⟩, below⟩ := groups
  unfold CQuestionBankImpl.contextHere
  simp only [label_node, children_node]
  rcases known : grp.vecQuestions with _ | ⟨ctx, rest⟩
  · simp only
    split
    · rw [preorder_node, List.forall_mem_cons]
      exact ⟨⟨path, id, stores⟩, below⟩
    · rename_i impl opened
      obtain ⟨_, _, items, _, rfl⟩ := openFile_questions_iff.mp opened
      rw [preorder_node, List.forall_mem_cons]
      refine ⟨⟨path, id, ?_⟩, below⟩
      intro other member
      rw [List.mem_singleton.mp member, keeps, id.component.join]
      refine ⟨path.trans (List.prefix_append _ _), ?_⟩
      intro same
      exact id.ne_ids_dat (List.singleton_inj.mp (List.append_inj' same rfl).2)
  · rw [known] at stores
    simp only [preorder_node, List.forall_mem_cons]
    refine ⟨⟨path, id, ?_⟩, below⟩
    rw [List.forall_mem_cons] at stores ⊢
    rw [keeps]
    exact stores

theorem withContext (confined : Confined rt root start b) (gid : String)
    {use : CQuestionAnswerImpl → β × CQuestionAnswerImpl}
    (keeps : ∀ ctx, (use ctx).2.strPath = ctx.strPath) :
    Confined rt root start (b.withContext rt gid use).2 := by
  obtain ⟨groups, mapIds, ptrIds, registry, outside⟩ := confined
  have found : ∀ grp ∈ (findQustionAnswerContext rt b.regs.disk gid use
      b.clsQuestionBank).2.preorder, grp.Inside root := by
    unfold findQustionAnswerContext
    refine search_labels ?_ groups ()
    intro qgp _ groups
    exact contextHere keeps groups
  unfold CQuestionBankImpl.withContext
  split
  · exact ⟨groups, mapIds, ptrIds, registry, outside⟩
  · rcases search : findQustionAnswerContext rt b.regs.disk gid use b.clsQuestionBank
      with ⟨answer, tree⟩
    rw [search] at found
    cases answer with
    | none => exact ⟨found, mapIds, ptrIds, registry, outside⟩
    | some answer => exact ⟨found, mapIds, ptrIds, registry, outside⟩

/-- A question call, whatever it answers. -/
theorem question (confined : Confined rt root start b) (call : QuestionCall) :
    Confined rt root start (call.perform rt b).2 := by
  cases call with
  | add gid qid question answer =>
      refine confined.withContext gid fun ctx => ?_
      unfold CQuestionAnswerImpl.addQuestion
      split
      · rfl
      · split <;> rfl
  | delete gid qid =>
      refine confined.withContext gid fun ctx => ?_
      unfold CQuestionAnswerImpl.deleteQuestion
      split
      · rfl
      · split <;> rfl
  | query gid qid =>
      exact confined.withContext gid fun ctx => (queryQuestion_sameRecords ctx qid).path
  | update gid qid question answer =>
      refine confined.withContext gid fun ctx => ?_
      unfold CQuestionAnswerImpl.updateQuestion
      split
      · rfl
      · split
        · rfl
        · split <;> rfl

theorem setError (confined : Confined rt root start b) (message : Bytes) :
    Confined rt root start (b.setError message) :=
  ⟨confined.groups, confined.regs.mapIds, confined.regs.ptrIds, confined.regs.registry,
    confined.regs.outside⟩

/-- A group operation on the root, whatever it answers. -/
theorem ctrlRoot (confined : Confined rt root start b) (pid : String) {gid name : String}
    {type : GroupCtrlType}
    (plain : type = .add → IsPlainId gid)
    (stays : type = .add ∨ type = .update → StaysBelow name) :
    Confined rt root start (b.ctrlRoot rt pid gid name type).2 := by
  have controlled := confined.regs.ctrlGroup pid plain stays confined.groups
  exact ⟨controlled.1, controlled.2⟩

end Confined

/-- A call with a plain id for a new group and names that stay below their directory. -/
def BankCall.KeepsInside : BankCall → Prop
  | .group (.add _ name id) => StaysBelow name ∧ IsPlainId id
  | .group (.update _ _ name) => StaysBelow name
  | .group (.delete _ _) => True
  | .question _ => True

instance (call : BankCall) : Decidable call.KeepsInside := by
  unfold BankCall.KeepsInside
  split <;> infer_instance

/-- A call of a bank, whatever it answers. -/
theorem Confined.call {rt : Runtime} {root : Path} {start : Disk} {b : CQuestionBankImpl}
    (confined : Confined rt root start b) {call : BankCall} (stays : call.KeepsInside) :
    Confined rt root start (call.perform rt b).2 := by
  rcases call with call | ⟨pid, name, id⟩ | ⟨pid, id⟩ | ⟨pid, id, name⟩
  · exact confined.question call
  · rw [BankCall.perform, GroupCall.perform, CQuestionBankImpl.addGroup]
    split
    · exact confined.setError _
    · split
      · exact confined.setError _
      · exact confined.ctrlRoot pid (fun _ => stays.2) fun _ => stays.1
  · exact confined.ctrlRoot pid (by simp) (by simp)
  · exact confined.ctrlRoot pid (by simp) fun _ => stays

end Notebook
