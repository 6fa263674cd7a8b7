import Notebook.Model.NotebookImpl
import Notebook.Store.Records

/-!
# The store that a question operation acts on

A question operation searches the tree for a group id, opens the store of the
group if it has none, and acts on the first store. When group ids are distinct
this rewrites the members of that one group.
-/

namespace Notebook

namespace GroupMembers

/-- File of the store that is opened for a group without one. -/
def datPath (grp : GroupMembers) : Path :=
  grp.strPath.join (grp.strId ++ ".dat")

/-- The records of a group, store after store. -/
def records (grp : GroupMembers) : List QuestionAnswer :=
  grp.vecQuestions.flatMap (·.lstQuestions)

/-- The store a question operation acts on: the first one, or a new one on the
file of the group. -/
def context (grp : GroupMembers) : CQuestionAnswerImpl :=
  match grp.vecQuestions with
  | [] => { strPath := grp.datPath }
  | ctx :: _ => ctx

/-- The group after an operation has left a store in the place of the one it acted
on. -/
def withStore (grp : GroupMembers) (ctx : CQuestionAnswerImpl) : GroupMembers :=
  { grp with vecQuestions := ctx :: grp.vecQuestions.tail }

@[simp] theorem withStore_strId (grp : GroupMembers) (ctx : CQuestionAnswerImpl) :
    (grp.withStore ctx).strId = grp.strId := rfl

@[simp] theorem withStore_strName (grp : GroupMembers) (ctx : CQuestionAnswerImpl) :
    (grp.withStore ctx).strName = grp.strName := rfl

@[simp] theorem withStore_strPath (grp : GroupMembers) (ctx : CQuestionAnswerImpl) :
    (grp.withStore ctx).strPath = grp.strPath := rfl

@[simp] theorem withStore_identity (grp : GroupMembers) (ctx : CQuestionAnswerImpl) :
    (grp.withStore ctx).identity = grp.identity := rfl

@[simp] theorem withStore_datPath (grp : GroupMembers) (ctx : CQuestionAnswerImpl) :
    (grp.withStore ctx).datPath = grp.datPath := rfl

theorem datPath_ne_nil (grp : GroupMembers) : grp.datPath ≠ [] :=
  Path.join_append_ne_nil _ _ (by simp [Path.isSeparator]) (by decide)

end GroupMembers

namespace CQuestionAnswerImpl

/-- Opening an absent file succeeds with empty lists. -/
theorem openFile_of_absent (rt : Runtime) {disk : Disk} {path : Path}
    (nonempty : path ≠ [])
    (absent : disk.isPresent path = false)
    (flag : Bool) :
    openFile rt disk path flag {} = (true, { strPath := path }) := by
  rw [openFile, if_neg nonempty, if_pos absent]

end CQuestionAnswerImpl

namespace CQuestionBankImpl

/-- The rewriting of one group by its id. -/
def replaceStore (gid : String) (ctx : CQuestionAnswerImpl) (grp : GroupMembers) :
    GroupMembers :=
  if grp.strId = gid then grp.withStore ctx else grp

/-- A group whose store can be used is rewritten in place. -/
theorem contextHere_eq (rt : Runtime) {disk : Disk} {grp : GroupMembers}
    (usable : grp.vecQuestions = [] → disk.isPresent grp.datPath = false)
    (use : CQuestionAnswerImpl → β × CQuestionAnswerImpl)
    (groups : List CQuestionGroupParam) :
    contextHere rt disk use (.node grp groups) =
      (some (use grp.context).1, .node (grp.withStore (use grp.context).2) groups) := by
  unfold contextHere
  cases stores : grp.vecQuestions with
  | nil =>
      have file := CQuestionAnswerImpl.openFile_of_absent rt grp.datPath_ne_nil
        (usable stores) true
      rw [GroupMembers.datPath] at file
      simp [stores, file, GroupMembers.context, GroupMembers.withStore,
        GroupMembers.datPath]
  | cons ctx rest =>
      simp [stores, GroupMembers.context, GroupMembers.withStore]

/-- Whether or not a store is opened, the group keeps its id, name and path. -/
theorem identity_contextHere (rt : Runtime) (disk : Disk)
    (use : CQuestionAnswerImpl → β × CQuestionAnswerImpl)
    (qgp : CQuestionGroupParam) :
    (contextHere rt disk use qgp).2.label.identity = qgp.label.identity := by
  unfold contextHere
  split
  · dsimp only
    split <;> rfl
  · rfl

/-- The search for an id that one group only has acts on the store of that group and
rewrites that group only. -/
theorem findQustionAnswerContext_of_unique (rt : Runtime) {disk : Disk}
    {tree : CQuestionGroupParam}
    {grp : GroupMembers}
    (unique : tree.preorder.filter (fun other => other.strId = grp.strId) = [grp])
    (usable : grp.vecQuestions = [] → disk.isPresent grp.datPath = false)
    (use : CQuestionAnswerImpl → β × CQuestionAnswerImpl) :
    findQustionAnswerContext rt disk grp.strId use tree =
      (some (use grp.context).1,
        tree.map (replaceStore grp.strId (use grp.context).2)) := by
  unfold findQustionAnswerContext
  rw [RoseTree.search_eq_map_of_unique ?goes unique
    (f := fun other => other.withStore (use grp.context).2) ?acts ?missed]
  case goes => rfl
  case acts =>
    intro groups
    rw [contextHere_eq rt usable]
  case missed => simp
  rfl

/-- With distinct ids the search acts on the store of the group and rewrites that
group only. -/
theorem findQustionAnswerContext_eq (rt : Runtime) {disk : Disk}
    {tree : CQuestionGroupParam}
    (distinct : (tree.preorder.map GroupMembers.strId).Nodup)
    {grp : GroupMembers}
    (present : grp ∈ tree.preorder)
    (usable : grp.vecQuestions = [] → disk.isPresent grp.datPath = false)
    (use : CQuestionAnswerImpl → β × CQuestionAnswerImpl) :
    findQustionAnswerContext rt disk grp.strId use tree =
      (some (use grp.context).1,
        tree.map (replaceStore grp.strId (use grp.context).2)) :=
  findQustionAnswerContext_of_unique rt
    (KeyedList.DistinctKeys.filter_eq distinct present) usable use

/-- The search acts on the first store of the first group with the id, and leaves
that group the first one with the id. -/
theorem findQustionAnswerContext_of_first (rt : Runtime) (disk : Disk)
    {tree : CQuestionGroupParam}
    {gid : String}
    {grp : GroupMembers}
    (first : tree.preorder.find? (fun other => other.strId = gid) = some grp)
    {ctx : CQuestionAnswerImpl}
    {rest : List CQuestionAnswerImpl}
    (stores : grp.vecQuestions = ctx :: rest)
    (use : CQuestionAnswerImpl → β × CQuestionAnswerImpl) :
    ∃ tree', findQustionAnswerContext rt disk gid use tree = (some (use ctx).1, tree') ∧
      tree'.preorder.find? (fun other => other.strId = gid) =
        some (grp.withStore (use ctx).2) := by
  have isGroup : grp.strId = gid := by simpa using List.find?_some first
  obtain ⟨c, groups, rfl, noneBefore⟩ := RoseTree.exists_plug_of_find? first
  have context : grp.context = ctx := by simp [GroupMembers.context, stores]
  have usable : grp.vecQuestions = [] → disk.isPresent grp.datPath = false := by
    simp [stores]
  have here := contextHere_eq rt usable use groups
  rw [context] at here
  refine ⟨RoseTree.plug c (.node (grp.withStore (use ctx).2) groups), ?_,
    RoseTree.find?_preorder_plug noneBefore (by simp [isGroup]) groups⟩
  unfold findQustionAnswerContext
  rw [RoseTree.search_plug_of_stop rfl (by simp [isGroup]) noneBefore (by simp [here])]
  simp [here]

/-- An id that no group has is not found, and the tree stays as it is. -/
theorem findQustionAnswerContext_of_absent (rt : Runtime) {disk : Disk}
    {gid : String}
    {tree : CQuestionGroupParam}
    (absent : ∀ grp ∈ tree.preorder, grp.strId ≠ gid)
    (use : CQuestionAnswerImpl → β × CQuestionAnswerImpl) :
    findQustionAnswerContext rt disk gid use tree = (none, tree) := by
  unfold findQustionAnswerContext
  rw [RoseTree.search_of_no_hit rfl fun grp present => by
    simpa using absent grp present]

end CQuestionBankImpl

end Notebook
