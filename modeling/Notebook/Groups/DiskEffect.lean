import Mathlib.Logic.Relation
import Notebook.Groups.Deletion

/-!
# What deleting a group does to the disk

A call of `deleteGroup` closes stores and removes directories of the groups of one
subtree, and does nothing else to the disk. When the cached paths of the subtree and of
its stores lie below the path of its root, a call that returns true takes away what is
below this path and nothing else.
-/

namespace Notebook

open RoseTree

/-! ## Steps on the disk -/

/-- One change that deleting a group makes to the disk. -/
inductive DiskStep (rt : Runtime) (grp : GroupMembers) : Disk → Disk → Prop
  | closes {ctx : CQuestionAnswerImpl} {disk disk' : Disk}
      (member : ctx ∈ grp.vecQuestions)
      (closed : ctx.close rt disk = some disk') :
      DiskStep rt grp disk disk'
  | removes {disk : Disk}
      (directory : disk.isDirectory grp.strPath = true) :
      DiskStep rt grp disk (disk.removeTree grp.strPath)

/-- Changes that deleting some groups makes to the disk, in any order. -/
abbrev DiskSteps (rt : Runtime) (groups : List GroupMembers) : Disk → Disk → Prop :=
  Relation.ReflTransGen fun disk disk' => ∃ grp ∈ groups, DiskStep rt grp disk disk'

theorem DiskStep.of_covers {rt : Runtime} {grp grp' : GroupMembers} {disk disk' : Disk}
    (covers : grp.Covers grp')
    (step : DiskStep rt grp' disk disk') :
    DiskStep rt grp disk disk' := by
  cases step with
  | closes member closed => exact .closes (covers.stores _ member) closed
  | removes directory =>
      rw [covers.strPath] at directory ⊢
      exact .removes directory

theorem DiskSteps.of_covers {rt : Runtime} {groups groups' : List GroupMembers}
    {disk disk' : Disk}
    (covers : ∀ grp' ∈ groups', ∃ grp ∈ groups, grp.Covers grp')
    (steps : DiskSteps rt groups' disk disk') :
    DiskSteps rt groups disk disk' := by
  refine Relation.ReflTransGen.mono ?_ _ _ steps
  rintro disk disk' ⟨grp', member, step⟩
  obtain ⟨grp, present, covers⟩ := covers grp' member
  exact ⟨grp, present, step.of_covers covers⟩

theorem DiskSteps.of_subset {rt : Runtime} {groups groups' : List GroupMembers}
    {disk disk' : Disk}
    (subset : ∀ grp ∈ groups', grp ∈ groups)
    (steps : DiskSteps rt groups' disk disk') :
    DiskSteps rt groups disk disk' :=
  steps.of_covers fun grp member => ⟨grp, subset grp member, .refl grp⟩

/-- Closing stores of a group is a sequence of such changes, whether or not an error is
raised. -/
theorem closeAll_steps {rt : Runtime} {grp : GroupMembers}
    {stores rest : List CQuestionAnswerImpl} {disk disk' : Disk} {ok : Bool}
    (members : ∀ ctx ∈ stores, ctx ∈ grp.vecQuestions)
    (closed : closeAll rt stores disk = (ok, rest, disk')) :
    DiskSteps rt [grp] disk disk' := by
  induction stores generalizing disk with
  | nil =>
      cases closed
      exact .refl
  | cons ctx stores inductionHypothesis =>
      rw [closeAll] at closed
      cases first : ctx.close rt disk with
      | none =>
          rw [first] at closed
          cases closed
          exact .refl
      | some next =>
          rw [first] at closed
          have here : DiskStep rt grp disk next :=
            .closes (members ctx List.mem_cons_self) first
          apply Relation.ReflTransGen.head ⟨grp, List.mem_singleton_self grp, here⟩
          apply inductionHypothesis _ closed
          intro other member
          exact members other (List.mem_cons_of_mem ctx member)

namespace Registers

/-- A loop makes the changes that its calls make. -/
theorem deleteEach_steps {rt : Runtime} {depth : Nat}
    (each : ∀ id qgp found before after r ids, r.ptrIds = some ids →
      firstChild id qgp = some (before, found, after) →
      DiskSteps rt found.preorder r.disk (deleteGroupWithin rt depth id qgp r).2.2.disk)
    (count i : Nat) (start : CQuestionGroupParam) {r : Registers}
    {ids : CQuestionAnswerImpl} (opened : r.ptrIds = some ids) :
    DiskSteps rt start.descendants r.disk
      (deleteEach (deleteGroupWithin rt depth) count i start r).2.2.disk := by
  induction count generalizing i start r ids with
  | zero => exact .refl
  | succ count inductionHypothesis =>
      rw [deleteEach]
      cases read : start.children[i]? with
      | none => exact .refl
      | some grp =>
          have frame := deleteEach_frame rt depth 1 i start opened
          rw [deleteEach, read] at frame
          cases split : firstChild grp.label.strId start with
          | none =>
              have other := splitFirst_eq_none_iff.mp split grp (List.mem_of_getElem? read)
              simp at other
          | some parts =>
              obtain ⟨before, found, after⟩ := parts
              have children := (firstChild_eq_some split).1
              have first := each _ _ _ _ _ _ _ opened split
              have inside : DiskSteps rt start.descendants r.disk
                  (deleteGroupWithin rt depth grp.label.strId start r).2.2.disk := by
                apply first.of_subset
                intro other member
                rw [descendants, children, List.flatMap_append, List.flatMap_cons]
                exact List.mem_append_right _ (List.mem_append_left _ member)
              rcases call : deleteGroupWithin rt depth grp.label.strId start r
                with ⟨answer, next, r'⟩
              rw [call] at inside
              simp only [call] at frame ⊢
              cases answer with
              | threw => exact inside
              | undefined => exact inside
              | value =>
                  obtain ⟨erased, erases, _⟩ := frame.erased
                  obtain ⟨ids', opened'⟩ := erases.opened opened
                  have later := inductionHypothesis (i + 1) next opened'
                  exact inside.trans (later.of_covers frame.remains)

/-- A call makes changes at the groups of its subtree only. -/
theorem deleteGroupWithin_steps (rt : Runtime) (depth : Nat) (id : String)
    (qgp found : CQuestionGroupParam) (before after : List CQuestionGroupParam)
    (r : Registers) (ids : CQuestionAnswerImpl)
    (opened : r.ptrIds = some ids)
    (split : firstChild id qgp = some (before, found, after)) :
    DiskSteps rt found.preorder r.disk (deleteGroupWithin rt depth id qgp r).2.2.disk := by
  induction depth generalizing id qgp found before after r ids with
  | zero => exact .refl
  | succ depth inductionHypothesis =>
      have closing : ∀ {ok : Bool} {rest : List CQuestionAnswerImpl} {disk : Disk},
          closeAll rt found.label.vecQuestions r.disk = (ok, rest, disk) →
          DiskSteps rt found.preorder r.disk disk := by
        intro ok rest disk closed
        apply DiskSteps.of_subset _ (closeAll_steps (fun _ member => member) closed)
        intro grp member
        rw [List.mem_singleton.mp member]
        exact found.label_mem_preorder
      -- the stores of the group, then its loop
      have looping : ∀ {stores : List CQuestionAnswerImpl} {disk : Disk}
          {inner : Outcome Unit} {found' : CQuestionGroupParam} {r' : Registers},
          closeAll rt found.label.vecQuestions r.disk = (true, stores, disk) →
          deleteEach (deleteGroupWithin rt depth) found.children.length 0
            (withoutStores found) { unregister id ids r with disk := disk } =
              (inner, found', r') →
          DiskSteps rt found.preorder r.disk r'.disk ∧
            found'.label.strPath = found.label.strPath := by
        intro stores disk inner found' r' closed loop
        have opened' : ({ unregister id ids r with disk := disk } : Registers).ptrIds =
            some (ids.deleteGroup id).2 := rfl
        have steps := deleteEach_steps inductionHypothesis found.children.length 0
          (withoutStores found) opened'
        have frame := deleteEach_frame rt depth found.children.length 0
          (withoutStores found) opened'
        rw [loop] at steps frame
        refine ⟨(closing closed).trans (steps.of_subset ?_), ?_⟩
        · intro grp member
          exact mem_preorder_of_mem_descendants member
        · rw [frame.label]
          rfl
      have way := deleteGroupWithin_result rt depth id qgp opened
      generalize deleteGroupWithin rt (depth + 1) id qgp r = result at way ⊢
      cases way with
      | missing message absent => exact .refl
      | closeFails split' fails =>
          rw [split] at split'
          cases split'
          exact closing fails
      | stopsInside split' closed loop stops =>
          rw [split] at split'
          cases split'
          exact (looping closed loop).1
      | refused message split' closed loop directory fails =>
          rw [split] at split'
          cases split'
          exact (looping closed loop).1
      | removed split' closed loop directory allowed =>
          rw [split] at split'
          cases split'
          obtain ⟨steps, samePath⟩ := looping closed loop
          rw [samePath] at directory
          simp only [samePath]
          exact steps.tail ⟨found.label, found.label_mem_preorder, .removes directory⟩
      | noDirectory split' closed loop notDirectory =>
          rw [split] at split'
          cases split'
          exact (looping closed loop).1

/-- A call of `deleteGroup` makes changes at the groups of its subtree only. -/
theorem deleteGroup_steps (rt : Runtime) {id : String} {qgp found : CQuestionGroupParam}
    {before after : List CQuestionGroupParam} {r : Registers} {ids : CQuestionAnswerImpl}
    (opened : r.ptrIds = some ids)
    (split : firstChild id qgp = some (before, found, after)) :
    DiskSteps rt found.preorder r.disk (r.deleteGroup rt id qgp).2.2.disk :=
  deleteGroupWithin_steps rt _ id qgp found before after r ids opened split

/-- After a call that returns true there is no directory at the cached path. -/
theorem directory_gone (rt : Runtime) {id : String} {qgp found : CQuestionGroupParam}
    {before after : List CQuestionGroupParam} {r : Registers} {ids : CQuestionAnswerImpl}
    (opened : r.ptrIds = some ids)
    (split : firstChild id qgp = some (before, found, after))
    (returns : (r.deleteGroup rt id qgp).1 = .value true) :
    (r.deleteGroup rt id qgp).2.2.disk.isDirectory found.label.strPath = false := by
  obtain ⟨depth, height⟩ := exists_height qgp
  rw [deleteGroup, height] at returns ⊢
  have way := deleteGroupWithin_result rt depth id qgp opened
  -- the loop keeps the path of the group
  have samePath : ∀ {disk : Disk} {found' : CQuestionGroupParam} {r' : Registers},
      deleteEach (deleteGroupWithin rt depth) found.children.length 0
        (withoutStores found) { unregister id ids r with disk := disk } =
          (.value (), found', r') →
      found'.label.strPath = found.label.strPath := by
    intro disk found' r' loop
    have opened' : ({ unregister id ids r with disk := disk } : Registers).ptrIds =
        some (ids.deleteGroup id).2 := rfl
    have frame := deleteEach_frame rt depth found.children.length 0 (withoutStores found)
      opened'
    rw [loop] at frame
    rw [frame.label]
    rfl
  generalize deleteGroupWithin rt (depth + 1) id qgp r = result at way returns ⊢
  cases way with
  | missing message absent => cases returns
  | closeFails split' fails => cases returns
  | @stopsInside _ _ _ _ _ _ _ inner split' closed loop stops =>
      cases inner <;> cases returns
  | refused message split' closed loop directory fails => cases returns
  | removed split' closed loop directory allowed =>
      rw [split] at split'
      cases split'
      rw [samePath loop, ← Bool.not_eq_true, FileSystem.isDirectory_iff,
        FileSystem.node_removeTree, if_pos (List.prefix_refl _)]
      simp
  | noDirectory split' closed loop notDirectory =>
      rw [split] at split'
      cases split'
      rw [← samePath loop]
      exact notDirectory

end Registers

/-! ## Subtrees below one path -/

/-- The cached paths go down the tree: no group has a path outside that of the group
above it, and the files of its stores lie strictly below its path. -/
inductive Nested : CQuestionGroupParam → Prop
  | node {grp : GroupMembers} {groups : List CQuestionGroupParam}
      (nonempty : grp.strPath ≠ [])
      (stores : ∀ ctx ∈ grp.vecQuestions,
        grp.strPath <+: ctx.strPath ∧ grp.strPath ≠ ctx.strPath)
      (above : ∀ qgp ∈ groups, grp.strPath <+: qgp.label.strPath)
      (inside : ∀ qgp ∈ groups, Nested qgp) :
      Nested (.node grp groups)

/-- A group whose path and whose files lie at and below a given path. -/
structure GroupMembers.LiesBelow (top : Path) (grp : GroupMembers) : Prop where
  path : top <+: grp.strPath
  stores : ∀ ctx ∈ grp.vecQuestions, top <+: ctx.strPath ∧ top ≠ ctx.strPath

namespace Nested

theorem ne_nil {qgp : CQuestionGroupParam} (nested : Nested qgp) :
    qgp.label.strPath ≠ [] := by
  cases nested
  assumption

/-- Everything in a subtree lies below the path of its root. -/
theorem liesBelow {qgp : CQuestionGroupParam} (nested : Nested qgp) {top : Path}
    (reaches : top <+: qgp.label.strPath) :
    ∀ grp ∈ qgp.preorder, grp.LiesBelow top := by
  induction qgp using RoseTree.induction with
  | node grp groups inductionHypothesis =>
      cases nested with
      | node nonempty stores above inside =>
          intro other present
          rw [preorder_node, List.mem_cons, List.mem_flatMap] at present
          rcases present with rfl | ⟨qgp, member, below⟩
          · refine ⟨reaches, fun ctx isStore => ?_⟩
            obtain ⟨isPrefix, different⟩ := stores ctx isStore
            refine ⟨reaches.trans isPrefix, fun same => different ?_⟩
            rw [label_node] at reaches
            exact isPrefix.eq_of_length_le (same ▸ reaches.length_le)
          · exact inductionHypothesis qgp member (inside qgp member)
              (reaches.trans (above qgp member)) other below

/-- The subtree in a hole. -/
theorem of_plug {c : Context GroupMembers} {qgp : CQuestionGroupParam}
    (nested : Nested (plug c qgp)) :
    Nested qgp := by
  induction c with
  | nil => exact nested
  | cons frame c inductionHypothesis =>
      cases nested with
      | node nonempty stores above inside =>
          exact inductionHypothesis (inside _ (by simp))

theorem child {grp : GroupMembers} {groups : List CQuestionGroupParam}
    (nested : Nested (.node grp groups))
    {qgp : CQuestionGroupParam}
    (member : qgp ∈ groups) :
    Nested qgp := by
  cases nested with
  | node nonempty stores above inside => exact inside qgp member

end Nested

/-- Below a path that is not a directory nothing is present. -/
theorem node_eq_none_of_not_directory {disk : Disk} {top q : Path}
    (nonempty : top ≠ [])
    (notDirectory : disk.node top ≠ some .directory)
    (below : top <+: q)
    (different : top ≠ q) :
    disk.node q = none := by
  by_contra present
  exact notDirectory (disk.directory_above present below different nonempty)

namespace DiskStep

variable {rt : Runtime} {grp : GroupMembers} {disk disk' : Disk} {top : Path}

/-- A change below a path keeps what lies elsewhere. -/
theorem keeps_outside (step : DiskStep rt grp disk disk')
    (below : grp.LiesBelow top)
    {q : Path}
    (outside : ¬ top <+: q) :
    disk'.node q = disk.node q := by
  cases step with
  | @closes ctx _ _ member closed =>
      apply CQuestionAnswerImpl.node_of_close closed
      rintro rfl
      exact outside (below.stores ctx member).1
  | removes directory =>
      rw [FileSystem.node_removeTree, if_neg fun inside => outside (below.path.trans inside)]

/-- Below a path that is not a directory nothing changes. -/
theorem keeps_of_not_directory (step : DiskStep rt grp disk disk')
    (below : grp.LiesBelow top)
    (nonempty : top ≠ [])
    (notDirectory : disk.node top ≠ some .directory)
    (q : Path) :
    disk'.node q = disk.node q := by
  cases step with
  | @closes ctx _ _ member closed =>
      obtain ⟨isPrefix, different⟩ := below.stores ctx member
      by_cases elsewhere : ctx.strPath = q
      · have notDirectory' : disk'.node top ≠ some .directory := by
          rw [CQuestionAnswerImpl.node_of_close closed different.symm]
          exact notDirectory
        rw [← elsewhere, node_eq_none_of_not_directory nonempty notDirectory isPrefix different,
          node_eq_none_of_not_directory nonempty notDirectory' isPrefix different]
      · exact CQuestionAnswerImpl.node_of_close closed elsewhere
  | removes directory =>
      exfalso
      rw [FileSystem.isDirectory_iff] at directory
      by_cases same : top = grp.strPath
      · exact notDirectory (same ▸ directory)
      · rw [node_eq_none_of_not_directory nonempty notDirectory below.path same] at directory
        cases directory

end DiskStep

namespace DiskSteps

variable {rt : Runtime} {groups : List GroupMembers} {disk disk' : Disk} {top : Path}

theorem keeps_outside (steps : DiskSteps rt groups disk disk')
    (below : ∀ grp ∈ groups, grp.LiesBelow top)
    {q : Path}
    (outside : ¬ top <+: q) :
    disk'.node q = disk.node q := by
  induction steps with
  | refl => rfl
  | tail _ last inductionHypothesis =>
      obtain ⟨grp, member, step⟩ := last
      exact (step.keeps_outside (below grp member) outside).trans inductionHypothesis

theorem keeps_of_not_directory (steps : DiskSteps rt groups disk disk')
    (below : ∀ grp ∈ groups, grp.LiesBelow top)
    (nonempty : top ≠ [])
    (notDirectory : disk.node top ≠ some .directory)
    (q : Path) :
    disk'.node q = disk.node q := by
  induction steps generalizing q with
  | refl => rfl
  | tail _ last inductionHypothesis =>
      obtain ⟨grp, member, step⟩ := last
      have notDirectory' := notDirectory
      rw [← inductionHypothesis top] at notDirectory'
      exact (step.keeps_of_not_directory (below grp member) nonempty notDirectory' q).trans
        (inductionHypothesis q)

end DiskSteps

end Notebook
