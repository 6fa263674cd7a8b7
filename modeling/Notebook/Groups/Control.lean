import Notebook.Model.NotebookImpl
import Notebook.Store.Records

/-!
# Which group an operation acts on

`ctrlGroup` looks for the group with a given id, where the empty id stands for the
root. When one group only is hit, the operation acts on that group, whatever it
answers.
-/

namespace Notebook

open RoseTree

/-- Whether `ctrlGroup` acts on a group. -/
def isTarget (pid : String) (grp : GroupMembers) : Bool :=
  pid = "" ∨ pid = grp.strId

/-- A context whose hole is the only place where `ctrlGroup` acts. -/
structure Selects (pid : String) (c : Context GroupMembers) (grp : GroupMembers) : Prop where
  here : isTarget pid grp = true
  notBefore : ∀ other ∈ visited c, isTarget pid other = false
  notAfter : ∀ other ∈ unvisited c, isTarget pid other = false

/-- The empty id selects the root. -/
theorem selects_root (grp : GroupMembers) : Selects "" [] grp :=
  ⟨by simp [isTarget], by simp, by simp⟩

/-- An id that is not empty and that one group only has selects this group. -/
theorem selects_of_unique {c : Context GroupMembers} {grp : GroupMembers}
    {groups : List CQuestionGroupParam}
    (nonempty : grp.strId ≠ "")
    (unique : ((plug c (.node grp groups)).preorder.filter
      fun other => other.strId = grp.strId) = [grp]) :
    Selects grp.strId c grp := by
  obtain ⟨_, noneBefore, _, noneAfter⟩ := apart_of_filter_eq_singleton unique
  refine ⟨by simp [isTarget], ?_, ?_⟩
  · intro other member
    have different := noneBefore other member
    simp only [decide_eq_false_iff_not] at different
    simp [isTarget, nonempty, Ne.symm different]
  · intro other member
    have different := noneAfter other member
    simp only [decide_eq_false_iff_not] at different
    simp [isTarget, nonempty, Ne.symm different]

/-- Every id that is not empty belongs to one group at most. -/
def UniqueIds (qgp : CQuestionGroupParam) : Prop :=
  ∀ grp ∈ qgp.preorder, grp.strId ≠ "" →
    qgp.preorder.filter (fun other => other.strId = grp.strId) = [grp]

/-- Distinct ids below a root without one are unique. -/
theorem uniqueIds_of_nodup {qgp : CQuestionGroupParam}
    (root : qgp.label.strId = "")
    (distinct : (qgp.descendants.map GroupMembers.strId).Nodup) :
    UniqueIds qgp := by
  intro grp present hasId
  rw [preorder_eq_label_cons] at present ⊢
  have notRoot : ¬ qgp.label.strId = grp.strId := fun same => hasId (same ▸ root)
  rw [List.filter_cons_of_neg (by simpa using notRoot)]
  apply KeyedList.DistinctKeys.filter_eq distinct
  rcases List.mem_cons.mp present with rfl | below
  · exact absurd root hasId
  · exact below

/-- An id selects the root, one group, or none. -/
theorem UniqueIds.selects_or_none {qgp : CQuestionGroupParam} (unique : UniqueIds qgp)
    (pid : String) :
    (∃ c grp groups, qgp = plug c (.node grp groups) ∧ Selects pid c grp ∧
        ((pid = "" ∧ c = []) ∨ (pid ≠ "" ∧ grp.strId = pid))) ∨
      ∀ grp ∈ qgp.preorder, isTarget pid grp = false := by
  by_cases isRoot : pid = ""
  · left
    refine ⟨[], qgp.label, qgp.children, (node_label_children qgp).symm, ?_,
      Or.inl ⟨isRoot, rfl⟩⟩
    rw [isRoot]
    exact selects_root qgp.label
  · by_cases found : ∃ grp ∈ qgp.preorder, grp.strId = pid
    · obtain ⟨grp, present, rfl⟩ := found
      obtain ⟨c, groups, rfl⟩ := exists_plug_of_mem_preorder present
      left
      exact ⟨c, grp, groups, rfl, selects_of_unique isRoot (unique grp present isRoot),
        Or.inr ⟨isRoot, rfl⟩⟩
    · right
      intro grp present
      have different : ¬ pid = grp.strId := fun same => found ⟨grp, present, same.symm⟩
      simp [isTarget, isRoot, different]

namespace Registers

/-- When one group only is hit, `ctrlGroup` is the operation on that group. -/
theorem ctrlGroup_of_selects (rt : Runtime) {pid : String} {c : Context GroupMembers}
    {grp : GroupMembers}
    (selects : Selects pid c grp)
    (groups : List CQuestionGroupParam)
    (gid name : String) (type : GroupCtrlType) (r : Registers) :
    ctrlGroup rt pid gid name type (plug c (.node grp groups)) r =
      ((ctrlHere rt gid name type (.node grp groups) r).1,
        plug c (ctrlHere rt gid name type (.node grp groups) r).2.1,
        (ctrlHere rt gid name type (.node grp groups) r).2.2) :=
  search_plug_of_unique rfl selects.here selects.notBefore selects.notAfter
    (by simp)

/-- When no group is hit, `ctrlGroup` answers false and changes nothing. -/
theorem ctrlGroup_of_no_target (rt : Runtime) {pid : String} {qgp : CQuestionGroupParam}
    (noTarget : ∀ grp ∈ qgp.preorder, isTarget pid grp = false)
    (gid name : String) (type : GroupCtrlType) (r : Registers) :
    ctrlGroup rt pid gid name type qgp r = (.value false, qgp, r) :=
  search_of_no_hit rfl noTarget r

/-- The group that `addGroup` appends. -/
def newGroup (parent : GroupMembers) (id name : String) : GroupMembers :=
  { strId := id, strName := name, strPath := parent.strPath.join name }

/-- What adding a group does: the registry and the tree get the group in any case,
the disk a directory unless one is there or the call fails. -/
theorem addGroup_spec {r : Registers} {ids : CQuestionAnswerImpl}
    (opened : r.ptrIds = some ids)
    (id name : String)
    (grp : GroupMembers)
    (groups : List CQuestionGroupParam) :
    ∃ answer disk message,
      r.addGroup id name (.node grp groups) =
        (answer, .node grp (groups ++ [.node (newGroup grp id name) []]),
          { r with
            mapIds := r.mapIds.emplace id name
            ptrIds := some (ids.addGroup id name).2
            disk := disk
            strErrorMsg := message }) ∧
      ((answer = .value true ∧ r.disk.isPresent (grp.strPath.join name) = true ∧
          disk = r.disk) ∨
        (answer = .value true ∧
          r.refusals.createDirectory r.disk (grp.strPath.join name) = .created disk) ∨
        (answer ≠ .value true ∧ disk = r.disk ∧
          r.disk.isPresent (grp.strPath.join name) = false ∧
          ∀ made, r.refusals.createDirectory r.disk (grp.strPath.join name) ≠
            .created made)) := by
  cases present : r.disk.isPresent (grp.strPath.join name) with
  | true =>
      refine ⟨.value true, r.disk, r.strErrorMsg, ?_, Or.inl ⟨rfl, rfl, rfl⟩⟩
      simp only [addGroup, opened, label_node, children_node, present, if_true]
      rfl
  | false =>
      cases made : r.refusals.createDirectory r.disk (grp.strPath.join name) with
      | created disk =>
          refine ⟨.value true, disk, r.strErrorMsg, ?_, Or.inr (Or.inl ⟨rfl, rfl⟩)⟩
          simp only [addGroup, opened, label_node, children_node, present, made,
            Bool.false_eq_true, if_false]
          rfl
      | notCreated =>
          refine ⟨.value false, r.disk, formatted (utf8 "Create directory '" ++
            cString grp.strPath.toText ++ utf8 "' failed"), ?_,
            Or.inr (Or.inr ⟨by simp, rfl, rfl, by simp⟩)⟩
          simp only [addGroup, opened, label_node, children_node, present, made,
            Bool.false_eq_true, if_false]
          rfl
      | error =>
          refine ⟨.threw, r.disk, r.strErrorMsg, ?_,
            Or.inr (Or.inr ⟨by simp, rfl, rfl, by simp⟩)⟩
          simp only [addGroup, opened, label_node, children_node, present, made,
            Bool.false_eq_true, if_false]
          rfl

/-- What updating a group does when the group is there: the record and the tree get
the name in any case, the directory is moved if it can be. -/
theorem updateGroup_spec (rt : Runtime) {r : Registers} {ids : CQuestionAnswerImpl}
    (opened : r.ptrIds = some ids)
    {id : String}
    (name : String)
    {grp : GroupMembers}
    {before after : List CQuestionGroupParam}
    {found : CQuestionGroupParam}
    (isChild : found.label.strId = id)
    (first : ∀ other ∈ before, other.label.strId ≠ id) :
    ∃ answer disk message,
      r.updateGroup rt id name (.node grp (before ++ found :: after)) =
        (answer,
          .node grp (before ++
            .node { found.label with strName := name } found.children :: after),
          { r with
            ptrIds := some (ids.updateGroup id name).2
            disk := disk
            strErrorMsg := message }) ∧
      ((answer = .value true ∧
          r.refusals.rename r.disk found.label.strPath (grp.strPath.join name) =
            some disk) ∨
        (answer = .value false ∧ disk = r.disk ∧
          r.refusals.rename r.disk found.label.strPath (grp.strPath.join name) =
            none)) := by
  have split : splitFirst (fun other : CQuestionGroupParam => other.label.strId = id)
      (before ++ found :: after) = some (before, found, after) :=
    splitFirst_append_cons (by simpa using isChild) (by simpa using first) after
  unfold updateGroup
  simp only [children_node, label_node, split, opened]
  cases renamed : r.refusals.rename r.disk found.label.strPath (grp.strPath.join name) with
  | none => exact ⟨_, _, _, rfl, Or.inr ⟨rfl, rfl, rfl⟩⟩
  | some disk => exact ⟨_, _, _, rfl, Or.inl ⟨rfl, rfl⟩⟩

/-- Updating a group that is not there changes nothing but the error text. -/
theorem updateGroup_of_missing (rt : Runtime) (r : Registers)
    {id : String}
    (name : String)
    {qgp : CQuestionGroupParam}
    (missing : ∀ other ∈ qgp.children, other.label.strId ≠ id) :
    ∃ message, r.updateGroup rt id name qgp =
      (.value false, qgp, { r with strErrorMsg := message }) := by
  have split : splitFirst (fun other : CQuestionGroupParam => other.label.strId = id)
      qgp.children = none :=
    splitFirst_eq_none_iff.mpr (by simpa using missing)
  unfold updateGroup
  rw [split]
  exact ⟨_, rfl⟩

end Registers

end Notebook
