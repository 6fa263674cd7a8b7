import Notebook.Screen.Displayed

/-!
# The screen of a new window

The tree that is built from a bank shows the map of the bank.
-/

namespace Notebook

open RoseTree KeyedList CQuestionBankImpl

/-- What is shown of a group under a parent. -/
def groupRowOf : Option (String × String × Path) × GroupMembers → Option GroupRow :=
  fun row => row.1.map fun above => (row.2.strId, above.1, row.2.strName)

/-- What is shown of the questions of a group. -/
def GroupMembers.questionRows (grp : GroupMembers) : List QuestionRow :=
  grp.records.map fun qa => ((grp.strId, qa.id), qa.question, qa.answer)

/-- The groups of a bank as they are shown. -/
def CQuestionBankImpl.groupRows (b : CQuestionBankImpl) : List GroupRow :=
  (parentRows b.clsQuestionBank).filterMap groupRowOf

/-- The questions of a bank as they are shown. -/
def CQuestionBankImpl.questionRows (b : CQuestionBankImpl) : List QuestionRow :=
  b.groups.flatMap GroupMembers.questionRows

/-! ## The items of a group -/

namespace Window

/-- The item of a sub-group with everything below it. -/
def groupItem (grp : CQuestionGroupParam) : RoseTree Item :=
  .node (.ofGroup grp.label.strName grp.label.strId) (initQuestionTree grp)

theorem initGroups_eq_map (groups : List CQuestionGroupParam) :
    initGroups groups = groups.map groupItem := by
  induction groups with
  | nil => rfl
  | cons grp groups inductionHypothesis =>
      obtain ⟨members, below⟩ := grp
      rw [initGroups, inductionHypothesis]
      rfl

/-- The items of the questions of a group. -/
def questionItems (grp : GroupMembers) : List (RoseTree Item) :=
  grp.vecQuestions.flatMap fun qa =>
    (qa.getQuestions.getD []).map fun qap => .node (.ofParam qap) []

theorem initQuestionTree_node (grp : GroupMembers) (groups : List CQuestionGroupParam) :
    initQuestionTree (.node grp groups) = groups.map groupItem ++ questionItems grp := by
  rw [initQuestionTree, initGroups_eq_map]
  rfl

/-- The rows of the items below the item of a group. -/
def rowsOf (qgp : CQuestionGroupParam) : List (Option (Bool × String) × Item) :=
  (initQuestionTree qgp).flatMap (inherited Item.handDown (some (true, qgp.label.strId)))

theorem rowsOf_node (grp : GroupMembers) (groups : List CQuestionGroupParam) :
    rowsOf (.node grp groups) =
      (groups.flatMap fun child => (some (true, grp.strId),
        Item.ofGroup child.label.strName child.label.strId) :: rowsOf child) ++
      (questionItems grp).flatMap (inherited Item.handDown (some (true, grp.strId))) := by
  rw [rowsOf, initQuestionTree_node, List.flatMap_append, List.flatMap_map]
  congr 1
  refine List.flatMap_congr fun child _ => ?_
  rw [groupItem, inherited_node]
  rfl

/-- The rows of the items of questions. -/
theorem rows_questionItems {grp : GroupMembers}
    (opened : ∀ ctx ∈ grp.vecQuestions, ctx.strPath ≠ []) :
    (questionItems grp).flatMap (inherited Item.handDown (some (true, grp.strId))) =
      grp.records.map fun qa => (some (true, grp.strId), Item.ofParam
        { strId := qa.id, strGroup := qa.group, strQuestion := qa.question,
          strAnswer := qa.answer }) := by
  rw [questionItems, GroupMembers.records, List.flatMap_assoc, List.map_flatMap]
  refine List.flatMap_congr fun ctx member => ?_
  rw [CQuestionAnswerImpl.getQuestions, if_neg (opened ctx member), Option.getD_some,
    List.map_map, List.flatMap_map, List.map_eq_flatMap]
  refine List.flatMap_congr fun qa _ => ?_
  rw [Function.comp, inherited_node, List.flatMap_nil]

/-- The groups on screen below a group are those of the bank, in the same order. -/
theorem groupRows_rowsOf (qgp : CQuestionGroupParam)
    (opened : ∀ grp ∈ qgp.preorder, ∀ ctx ∈ grp.vecQuestions, ctx.strPath ≠ []) :
    (rowsOf qgp).filterMap Item.groupRow =
      (qgp.children.flatMap (inherited (fun _ grp => some grp.identity)
        (some qgp.label.identity))).filterMap groupRowOf := by
  induction qgp using RoseTree.induction with
  | node grp groups inductionHypothesis =>
      have noQuestion : ((questionItems grp).flatMap
          (inherited Item.handDown (some (true, grp.strId)))).filterMap Item.groupRow = [] := by
        rw [rows_questionItems (opened grp (label_mem_preorder (.node grp groups))),
          List.filterMap_eq_nil_iff]
        intro row member
        obtain ⟨qa, _, rfl⟩ := List.mem_map.mp member
        rfl
      rw [rowsOf_node, List.filterMap_append, noQuestion, List.append_nil, children_node,
        List.filterMap_flatMap, List.filterMap_flatMap]
      refine List.flatMap_congr fun child member => ?_
      have below := inductionHypothesis child member fun other inChild =>
        opened other (by
          rw [preorder_node]
          exact List.mem_cons_of_mem _ (List.mem_flatMap.mpr ⟨child, member, inChild⟩))
      obtain ⟨members, kids⟩ := child
      rw [inherited_node, List.filterMap_cons_some (by rfl), List.filterMap_cons_some (by rfl),
        below]
      rfl

/-- The questions on screen below a group are those of the bank. -/
theorem questionRows_rowsOf (qgp : CQuestionGroupParam)
    (opened : ∀ grp ∈ qgp.preorder, ∀ ctx ∈ grp.vecQuestions, ctx.strPath ≠ []) :
    ((rowsOf qgp).filterMap Item.questionRow).Perm
      (qgp.preorder.flatMap GroupMembers.questionRows) := by
  induction qgp using RoseTree.induction with
  | node grp groups inductionHypothesis =>
      have own : ((questionItems grp).flatMap
          (inherited Item.handDown (some (true, grp.strId)))).filterMap Item.questionRow =
          grp.questionRows := by
        rw [rows_questionItems (opened grp (label_mem_preorder (.node grp groups))),
          List.filterMap_map, GroupMembers.questionRows, ← List.filterMap_eq_map]
        rfl
      rw [rowsOf_node, List.filterMap_append, own, preorder_node, List.flatMap_cons,
        List.flatMap_assoc, List.filterMap_flatMap]
      refine List.perm_append_comm.trans (List.Perm.append_left _ ?_)
      refine List.Perm.flatMap_left _ fun child member => ?_
      rw [List.filterMap_cons_none (by rfl)]
      exact inductionHypothesis child member fun other inChild =>
        opened other (by
          rw [preorder_node]
          exact List.mem_cons_of_mem _ (List.mem_flatMap.mpr ⟨child, member, inChild⟩))

/-- Below a group, items lie below groups only, and questions without an answer are red. -/
theorem wellFormed_rowsOf (qgp : CQuestionGroupParam)
    (opened : ∀ grp ∈ qgp.preorder, ∀ ctx ∈ grp.vecQuestions, ctx.strPath ≠ []) :
    ∀ row ∈ rowsOf qgp, (∀ above ∈ row.1, above.1 = true) ∧ row.2.WellColoured := by
  induction qgp using RoseTree.induction with
  | node grp groups inductionHypothesis =>
      intro row member
      rw [rowsOf_node, rows_questionItems (opened grp (label_mem_preorder (.node grp groups))),
        List.mem_append] at member
      rcases member with inGroup | inQuestions
      · obtain ⟨child, isChild, isRow⟩ := List.mem_flatMap.mp inGroup
        rcases List.mem_cons.mp isRow with rfl | below
        · refine ⟨fun above isAbove => ?_, fun isQuestion => by cases isQuestion⟩
          obtain rfl := Option.some.inj isAbove
          rfl
        · exact inductionHypothesis child isChild (fun other inChild => opened other (by
            rw [preorder_node]
            exact List.mem_cons_of_mem _ (List.mem_flatMap.mpr ⟨child, isChild, inChild⟩)))
            row below
      · obtain ⟨qa, _, rfl⟩ := List.mem_map.mp inQuestions
        refine ⟨fun above isAbove => ?_, fun _ => ?_⟩
        · obtain rfl := Option.some.inj isAbove
          rfl
        · change (if qa.answer = "" then some Foreground.red else none) = some .red ↔ qa.answer = ""
          split <;> simp_all

end Window

/-! ## The map of the bank -/

namespace CQuestionBankImpl.Shows

variable {b : CQuestionBankImpl} {bank : QuestionBank}

theorem lists_groupRows (shown : b.Shows bank) :
    Lists Prod.fst b.groupRows bank.groupRow := by
  have rows : b.groupRows = b.entries.map GroupEntry.row := by
    rw [CQuestionBankImpl.groupRows, CQuestionBankImpl.entries, List.map_filterMap]
    refine List.filterMap_congr fun row _ => ?_
    rw [groupRowOf, Option.map_map]
    rfl
  rw [rows]
  exact Lists.map shown fun _ => rfl

theorem lists_questionRows (shown : b.Shows bank) (ready : b.QuestionsReady) :
    Lists Prod.fst b.questionRows bank.questionRow := by
  have distinct : DistinctKeys GroupMembers.strId b.groups := by
    have all := ready.distinct_all
    rw [preorder_eq_label_cons, List.map_cons, List.nodup_cons] at all
    exact all.2
  have each : ∀ grp ∈ b.groups, Lists QuestionAnswer.id grp.records
      fun qid => find QuestionAnswer.id qid grp.records := by
    intro grp present
    have usable := ready.usable grp present
    apply lists_find
    rw [usable.records_eq]
    exact usable.context_distinct
  have nested : Lists Prod.fst b.questionRows fun k : String × String =>
      (find GroupMembers.strId k.1 b.groups).bind fun grp =>
        (find QuestionAnswer.id k.2 grp.records).map fun qa =>
          ((grp.strId, qa.id), qa.question, qa.answer) :=
    (lists_find distinct).nested each fun _ _ => rfl
  have same : bank.questionRow = fun k : String × String =>
      (find GroupMembers.strId k.1 b.groups).bind fun grp =>
        (find QuestionAnswer.id k.2 grp.records).map fun qa =>
          ((grp.strId, qa.id), qa.question, qa.answer) := by
    funext ⟨gid, qid⟩
    cases found : find GroupMembers.strId gid b.groups with
    | none =>
        have absent := find_eq_none_iff.mp found
        rw [QuestionBank.questionRow, shown.eq_none_iff.mpr absent]
        rfl
    | some grp =>
        obtain ⟨present, rfl⟩ := (find_eq_some_iff distinct).mp found
        obtain ⟨pid, member⟩ := entry_of_mem_groups present
        have value : bank grp.strId = some (grp.entry pid) :=
          (shown.mem_iff _ _).mpr ⟨member, rfl⟩
        simp only [QuestionBank.questionRow, value, Option.bind_some]
        rfl
  rw [same]
  exact nested

end CQuestionBankImpl.Shows

/-- A tree of items that shows the map of a bank shows its groups and questions. -/
theorem Displays.rows_of_bank {tree : RoseTree Item} {b : CQuestionBankImpl}
    {bank : QuestionBank} (displays : Displays tree bank) (shown : b.Shows bank)
    (ready : b.QuestionsReady) :
    (groupRows tree).Perm b.groupRows ∧ (questionRows tree).Perm b.questionRows :=
  ⟨displays.groups.perm shown.lists_groupRows,
    displays.questions.perm (shown.lists_questionRows ready)⟩

/-- The tree that a new window builds from a bank shows the map of the bank. -/
theorem Sound.displays {root : Path} {b : CQuestionBankImpl} (sound : Sound root b)
    {bank : QuestionBank} (shown : b.Shows bank) :
    Displays (.node Window.bankItem (Window.initQuestionTree b.clsQuestionBank)) bank := by
  have opened : ∀ grp ∈ b.clsQuestionBank.preorder, ∀ ctx ∈ grp.vecQuestions,
      ctx.strPath ≠ [] := by
    intro grp inTree ctx member
    rcases sound.mem_preorder.mp inTree with rfl | present
    · cases member
    · exact (sound.groups grp present).usable.opened ctx member
  have rootId : b.clsQuestionBank.label.strId = "" := sound.agrees.root
  have rows : itemRows (.node Window.bankItem (Window.initQuestionTree b.clsQuestionBank)) =
      (none, Window.bankItem) :: Window.rowsOf b.clsQuestionBank := by
    rw [itemRows, inherited_node, Window.rowsOf, rootId]
    rfl
  have wellFormed := Window.wellFormed_rowsOf b.clsQuestionBank opened
  refine ⟨rfl, ?_, ?_, ?_, ?_⟩
  · rw [rows]
    intro row member
    rcases List.mem_cons.mp member with rfl | below
    · intro above isAbove
      cases isAbove
    · exact (wellFormed row below).1
  · rw [rows]
    intro row member
    rcases List.mem_cons.mp member with rfl | below
    · intro isQuestion
      cases isQuestion
    · exact (wellFormed row below).2
  · rw [groupRows, rows, List.filterMap_cons_none (by rfl), Window.groupRows_rowsOf _ opened]
    have same := shown.lists_groupRows
    rw [CQuestionBankImpl.groupRows, parentRows, ← node_label_children b.clsQuestionBank,
      inherited_node, List.filterMap_cons_none (by rfl)] at same
    exact same
  · rw [questionRows, rows, List.filterMap_cons_none (by rfl)]
    refine (shown.lists_questionRows sound.ready).of_perm ?_
    refine List.Perm.trans ?_ (Window.questionRows_rowsOf _ opened).symm
    rw [preorder_eq_label_cons, List.flatMap_cons, sound.root_group]
    exact List.Perm.refl _

end Notebook
