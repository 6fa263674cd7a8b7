import Notebook.Groups.Control

/-!
# Routing to one parent

`ctrlGroup` is a search whose predicate runs the operation, and an operation that fails
looks to it like a group that is not there. With distinct ids there is no second group to
go on to: the operation runs exactly once, and only the group it ran on and what is below
it can change.
-/

namespace Notebook

open RoseTree

namespace Registers

/-- `ctrlGroup` with a record of the groups its operation ran on. -/
def ctrlGroupRecorded (rt : Runtime) (pid gid name : String) (type : GroupCtrlType)
    (qgp : CQuestionGroupParam) (r : Registers) :
    Outcome Bool × CQuestionGroupParam × Registers × List CQuestionGroupParam :=
  search (isTarget pid) (recorded fun grp r => ctrlHere rt gid name type grp r)
    (fun answer => answer = .value false) (.value false) qgp (r, [])

/-- Leaving out the record gives `ctrlGroup`. -/
theorem ctrlGroup_eq_recorded (rt : Runtime) (pid gid name : String) (type : GroupCtrlType)
    (qgp : CQuestionGroupParam) (r : Registers) :
    ctrlGroup rt pid gid name type qgp r =
      ((ctrlGroupRecorded rt pid gid name type qgp r).1,
        (ctrlGroupRecorded rt pid gid name type qgp r).2.1,
        (ctrlGroupRecorded rt pid gid name type qgp r).2.2.1) :=
  search_recorded qgp (r, [])

/-- What an operation on a group makes of the tree around it. -/
def around (c : Context GroupMembers) (outcome : Outcome Bool × CQuestionGroupParam × Registers) :
    Outcome Bool × CQuestionGroupParam × Registers :=
  (outcome.1, plug c outcome.2.1, outcome.2.2)

/-- What the private operation makes of the parent group it receives. The last three
fields name the operation of each kind. -/
structure RunsOnceAt (rt : Runtime) (pid gid name : String) (type : GroupCtrlType)
    (root : CQuestionGroupParam) (r : Registers) (c : Context GroupMembers)
    (parent : CQuestionGroupParam) : Prop where
  place : root = plug c parent
  runs : (ctrlGroupRecorded rt pid gid name type root r).2.2.2 = [parent]
  result : ctrlGroup rt pid gid name type root r =
    ((ctrlHere rt gid name type parent r).1,
      plug c (ctrlHere rt gid name type parent r).2.1,
      (ctrlHere rt gid name type parent r).2.2)
  add : type = .add →
    ctrlGroup rt pid gid name type root r = around c (r.addGroup gid name parent)
  delete : type = .delete →
    ctrlGroup rt pid gid name type root r = around c (r.deleteGroup rt gid parent)
  update : type = .update →
    ctrlGroup rt pid gid name type root r = around c (r.updateGroup rt gid name parent)

/-- The operation runs once on the only group that is hit. -/
theorem runsOnceAt_of_selects (rt : Runtime) {pid : String} {c : Context GroupMembers}
    {grp : GroupMembers} (selects : Selects pid c grp) (groups : List CQuestionGroupParam)
    (gid name : String) (type : GroupCtrlType) (r : Registers) :
    RunsOnceAt rt pid gid name type (plug c (.node grp groups)) r c (.node grp groups) where
  place := rfl
  runs := by
    have found : ctrlGroupRecorded rt pid gid name type (plug c (.node grp groups)) r =
        ((recorded (ctrlHere rt gid name type) (.node grp groups) (r, [])).1,
          plug c (recorded (ctrlHere rt gid name type) (.node grp groups) (r, [])).2.1,
          (recorded (ctrlHere rt gid name type) (.node grp groups) (r, [])).2.2) :=
      search_plug_of_unique rfl selects.here selects.notBefore selects.notAfter (by simp)
    rw [found]
    rfl
  result := ctrlGroup_of_selects rt selects groups gid name type r
  add := by
    rintro rfl
    exact ctrlGroup_of_selects rt selects groups gid name .add r
  delete := by
    rintro rfl
    exact ctrlGroup_of_selects rt selects groups gid name .delete r
  update := by
    rintro rfl
    exact ctrlGroup_of_selects rt selects groups gid name .update r

/-- When the ids below the root are distinct and not empty, `ctrlGroup` runs the
operation once, on the root for the empty id and else on the one group with the id, and
gives back what the operation answers. When there is no such group it runs it nowhere,
answers false and changes nothing. -/
theorem ctrlGroup_routes (rt : Runtime) {root : CQuestionGroupParam}
    (rootId : root.label.strId = "")
    (hasId : ∀ grp ∈ root.descendants, grp.strId ≠ "")
    (distinct : (root.descendants.map GroupMembers.strId).Nodup)
    (pid gid name : String) (type : GroupCtrlType) (r : Registers) :
    (pid = "" → RunsOnceAt rt pid gid name type root r [] root) ∧
      (∀ grp ∈ root.descendants, grp.strId = pid →
        ∃ c groups, c ≠ [] ∧ RunsOnceAt rt pid gid name type root r c (.node grp groups)) ∧
      (pid ≠ "" → (∀ grp ∈ root.descendants, grp.strId ≠ pid) →
        ctrlGroupRecorded rt pid gid name type root r = (.value false, root, r, []) ∧
          ctrlGroup rt pid gid name type root r = (.value false, root, r)) := by
  refine ⟨?_, ?_, ?_⟩
  · rintro rfl
    have atRoot := runsOnceAt_of_selects rt (selects_root root.label) root.children gid name
      type r
    rw [plug_nil, node_label_children] at atRoot
    exact atRoot
  · rintro grp below rfl
    have unique := uniqueIds_of_nodup rootId distinct
    have present := mem_preorder_of_mem_descendants below
    obtain ⟨c, groups, rfl⟩ := exists_plug_of_mem_preorder present
    have selects := selects_of_unique (hasId grp below) (unique grp present (hasId grp below))
    refine ⟨c, groups, ?_, runsOnceAt_of_selects rt selects groups gid name type r⟩
    rintro rfl
    exact hasId grp below rootId
  · intro notRoot noGroup
    have noTarget : ∀ grp ∈ root.preorder, isTarget pid grp = false := by
      intro grp present
      have different : ¬ pid = grp.strId := by
        rw [preorder_eq_label_cons] at present
        rcases List.mem_cons.mp present with rfl | below
        · rw [rootId]
          exact notRoot
        · exact Ne.symm (noGroup grp below)
      simp [isTarget, notRoot, different]
    exact ⟨search_of_no_hit rfl noTarget (r, []),
      ctrlGroup_of_no_target rt noTarget gid name type r⟩

/-- Groups at two depths. -/
def nestedGroups : CQuestionGroupParam :=
  .node { strName := "root" }
    [.node { strId := "w", strName := "Words" } [.node { strId := "v", strName := "Verbs" } []],
      .node { strId := "u", strName := "Units" } []]

theorem ctrlGroup_routes_nestedGroups :
    ∃ c groups, c ≠ [] ∧
      RunsOnceAt .wire "v" "n" "" .delete nestedGroups {} c
        (.node { strId := "v", strName := "Verbs" } groups) :=
  (ctrlGroup_routes .wire rfl (by decide +kernel) (by decide +kernel) "v" "n" "" .delete
    {}).2.1 { strId := "v", strName := "Verbs" } (by decide +kernel) rfl

end Registers

end Notebook
