import Notebook.Model.NotebookUi
import Notebook.Sessions.Contents

/-!
# The map on screen

The tree of items shows the groups with their names and the questions with their texts.
Each edit that a handler makes after a successful call shows the map that the call leaves.
-/

namespace Notebook

open RoseTree KeyedList

/-! ## Rows -/

/-- What an item hands down to the items below it: whether it is a group, and its id. -/
def Item.handDown (_ : Option (Bool × String)) (item : Item) : Option (Bool × String) :=
  some (item.isGroup, item.idText)

/-- The items, with what the item above hands down. -/
def itemRows (tree : RoseTree Item) : List (Option (Bool × String) × Item) :=
  tree.inherited Item.handDown none

/-- What is shown of a group: its id, and the id above with its name. -/
abbrev GroupRow := String × String × String

/-- What is shown of a question: the ids of its group and its own, and its texts. -/
abbrev QuestionRow := (String × String) × String × String

/-- The row of an item that stands for a group. -/
def Item.groupRow : Option (Bool × String) × Item → Option GroupRow
  | (some above, item) =>
      if item.isGroup then some (item.idText, above.2, item.text) else none
  | (none, _) => none

/-- The row of an item that stands for a question. -/
def Item.questionRow : Option (Bool × String) × Item → Option QuestionRow
  | (some above, item) =>
      if item.isGroup then none
      else some ((above.2, item.idText), item.text, item.answerText)
  | (none, _) => none

/-- The groups on screen. -/
def groupRows (tree : RoseTree Item) : List GroupRow :=
  (itemRows tree).filterMap Item.groupRow

/-- The questions on screen. -/
def questionRows (tree : RoseTree Item) : List QuestionRow :=
  (itemRows tree).filterMap Item.questionRow

/-- What is shown of an entry. -/
def GroupEntry.row (entry : GroupEntry) : GroupRow :=
  (entry.id, entry.parent, entry.name)

/-- What is shown of a question of an entry. -/
def GroupEntry.questionRow (entry : GroupEntry) (qa : QuestionAnswer) : QuestionRow :=
  ((entry.id, qa.id), qa.question, qa.answer)

namespace QuestionBank

/-- What a map shows of a group. -/
def groupRow (bank : QuestionBank) (id : String) : Option GroupRow :=
  (bank id).map GroupEntry.row

/-- What a map shows of a question. -/
def questionRow (bank : QuestionBank) (key : String × String) : Option QuestionRow :=
  (bank key.1).bind fun entry => (entry.questions key.2).map entry.questionRow

theorem groupRow_update (bank : QuestionBank) (id : String) (change : Option GroupEntry) :
    QuestionBank.groupRow (Function.update bank id change) =
      Function.update bank.groupRow id (change.map GroupEntry.row) := by
  funext other
  by_cases same : other = id
  · subst same
    simp [groupRow]
  · simp [groupRow, same]

/-- A change of the questions of a group changes no row of a group. -/
theorem groupRow_update_questions {bank : QuestionBank} {id : String} {entry : GroupEntry}
    (value : bank id = some entry) (questions : String → Option QuestionAnswer) :
    QuestionBank.groupRow
        (Function.update bank id (some { entry with questions := questions })) =
      bank.groupRow := by
  rw [groupRow_update, Function.update_eq_self_iff, groupRow, value]
  rfl

/-- A change of one question changes the row of this question. -/
theorem questionRow_update {bank : QuestionBank} {gid : String} {entry : GroupEntry}
    (value : bank gid = some entry) (qid : String) (change : Option QuestionAnswer) :
    QuestionBank.questionRow (Function.update bank gid
        (some { entry with questions := Function.update entry.questions qid change })) =
      Function.update bank.questionRow (gid, qid) (change.map entry.questionRow) := by
  funext ⟨gid', qid'⟩
  by_cases sameGroup : gid' = gid
  · subst sameGroup
    by_cases sameQuestion : qid' = qid
    · subst sameQuestion
      simp only [questionRow, Function.update_self, Option.bind_some]
      rfl
    · simp only [questionRow, Function.update_self, Option.bind_some,
        Function.update_of_ne sameQuestion]
      rw [Function.update_of_ne (by simp [sameQuestion])]
      simp only [questionRow, value, Option.bind_some]
      rfl
  · rw [Function.update_of_ne (by simp [sameGroup])]
    simp only [questionRow, Function.update_of_ne sameGroup]

/-- Without a group there are no rows of its questions. -/
theorem questionRow_update_none (bank : QuestionBank) (id : String) :
    QuestionBank.questionRow (Function.update bank id none) =
      fun key => if key.1 = id then none else bank.questionRow key := by
  funext ⟨gid, qid⟩
  by_cases here : gid = id
  · simp [questionRow, here]
  · simp [questionRow, here]

end QuestionBank

/-- A question is red exactly when it has no answer. -/
def Item.WellColoured (item : Item) : Prop :=
  item.isGroup = false → (item.foreground = some .red ↔ item.answerText = "")

theorem Item.colour_eq_red_iff (answer : String) :
    Item.colour answer = some .red ↔ answer = "" := by
  unfold Item.colour
  split <;> simp_all

/-- A tree of items shows a map. Questions have no items below them, and those without an
answer are red. -/
structure Displays (tree : RoseTree Item) (bank : QuestionBank) : Prop where
  root : (tree.label.isGroup, tree.label.idText) = (true, "")
  above : ∀ row ∈ itemRows tree, ∀ above ∈ row.1, above.1 = true
  coloured : ∀ row ∈ itemRows tree, row.2.WellColoured
  groups : Lists Prod.fst (groupRows tree) bank.groupRow
  questions : Lists Prod.fst (questionRows tree) bank.questionRow

/-- Two trees that show one map show the same rows. -/
theorem Displays.rows_perm {tree tree' : RoseTree Item} {bank : QuestionBank}
    (displays : Displays tree bank) (displays' : Displays tree' bank) :
    (groupRows tree).Perm (groupRows tree') ∧ (questionRows tree).Perm (questionRows tree') :=
  ⟨displays.groups.perm displays'.groups, displays.questions.perm displays'.questions⟩

/-! ## Edits of the tree -/

section Edits

variable {c : Context Item} {item : Item} {items before after : List (RoseTree Item)}
  {child : RoseTree Item}

/-- A new item below another one adds its row. -/
theorem itemRows_add (c : Context Item) (item : Item) (items : List (RoseTree Item))
    (new : Item) :
    (itemRows (plug c (.node item (items ++ [.node new []])))).Perm
      (itemRows (plug c (.node item items)) ++
        [(some (item.isGroup, item.idText), new)]) :=
  inherited_plug_addLeaf Item.handDown none c item items new

/-- The rows of an item and of what is below it. -/
def rowsBelow (item : Item) (child : RoseTree Item) : List (Option (Bool × String) × Item) :=
  child.inherited Item.handDown (some (item.isGroup, item.idText))

theorem itemRows_insert (c : Context Item) (item : Item) (before after : List (RoseTree Item))
    (child : RoseTree Item) :
    (itemRows (plug c (.node item (before ++ child :: after)))).Perm
      (itemRows (plug c (.node item (before ++ after))) ++ rowsBelow item child) :=
  inherited_plug_insert Item.handDown none c item before child after

/-- Rows that are added to the tree are added to what is shown. -/
theorem shownRows_append {tree tree' : RoseTree Item}
    {more : List (Option (Bool × String) × Item)}
    (rows : (itemRows tree').Perm (itemRows tree ++ more)) :
    (groupRows tree').Perm (groupRows tree ++ more.filterMap Item.groupRow) ∧
      (questionRows tree').Perm (questionRows tree ++ more.filterMap Item.questionRow) := by
  have groups := rows.filterMap Item.groupRow
  have questions := rows.filterMap Item.questionRow
  rw [List.filterMap_append] at groups questions
  exact ⟨groups, questions⟩

/-- A question below an item adds its row. -/
theorem shownRows_question (c : Context Item) (item : Item)
    (before after : List (RoseTree Item)) {label : Item} (isQuestion : label.isGroup = false) :
    (groupRows (plug c (.node item (before ++ .node label [] :: after)))).Perm
        (groupRows (plug c (.node item (before ++ after)))) ∧
      (questionRows (plug c (.node item (before ++ .node label [] :: after)))).Perm
        (questionRows (plug c (.node item (before ++ after))) ++
          [((item.idText, label.idText), label.text, label.answerText)]) := by
  obtain ⟨groups, questions⟩ :=
    shownRows_append (itemRows_insert c item before after (.node label []))
  have row : rowsBelow item (.node label []) = [(some (item.isGroup, item.idText), label)] := by
    rw [rowsBelow, inherited_node, List.flatMap_nil]
  have notGroup : ¬ label.isGroup = true := by simp [isQuestion]
  rw [row, List.filterMap_cons_none (by rw [Item.groupRow, if_neg notGroup]), List.filterMap_nil,
    List.append_nil] at groups
  rw [row, List.filterMap_cons_some (by rw [Item.questionRow, if_neg notGroup]),
    List.filterMap_nil] at questions
  exact ⟨groups, questions⟩

/-- The row of a child is among the rows. -/
theorem child_mem_itemRows (c : Context Item) (item : Item)
    (before after : List (RoseTree Item)) (child : RoseTree Item) :
    (some (item.isGroup, item.idText), child.label) ∈
      itemRows (plug c (.node item (before ++ child :: after))) := by
  rw [(itemRows_insert c item before after child).mem_iff, List.mem_append, rowsBelow,
    ← node_label_children child, inherited_node]
  exact Or.inr List.mem_cons_self

/-- An item that is not the root gets something from above. -/
theorem exists_holeAttribute {c : Context Item} (below : c ≠ []) :
    ∃ above, holeAttribute Item.handDown none c = some above := by
  rcases List.eq_nil_or_concat' c with rfl | ⟨front, frame, rfl⟩
  · exact absurd rfl below
  · refine ⟨(frame.label.isGroup, frame.label.idText), ?_⟩
    rw [holeAttribute, List.foldl_append]
    rfl

/-- What a row has from above comes from the root or from an item with a row. -/
theorem parent_of_row {tree : RoseTree Item} {above : Bool × String} {item : Item}
    (isRow : (some above, item) ∈ itemRows tree) :
    above = (tree.label.isGroup, tree.label.idText) ∨
      ∃ parent, above = (parent.isGroup, parent.idText) ∧
        ∃ above', (some above', parent) ∈ itemRows tree := by
  rcases exists_plug_of_mem_inherited isRow with equal | ⟨c, parent, front, kid, back, rfl, equal⟩
  · cases equal
  · obtain rfl : above = (parent.isGroup, parent.idText) :=
      Option.some.inj (Prod.mk.inj equal).1
    by_cases isRoot : c = []
    · subst isRoot
      exact Or.inl rfl
    · obtain ⟨above', isAbove⟩ := exists_holeAttribute isRoot
      refine Or.inr ⟨parent, rfl, above', ?_⟩
      rw [itemRows, inherited_plug, inherited_node, isAbove]
      simp

end Edits

namespace Displays

variable {bank : QuestionBank} {c : Context Item} {item : Item}
  {items before after : List (RoseTree Item)} {child : RoseTree Item}

/-- The entry of a group has the id of the group. -/
theorem entry_id {tree : RoseTree Item} (displays : Displays tree bank) {id : String}
    {entry : GroupEntry} (value : bank id = some entry) : entry.id = id := by
  have shown : bank.groupRow id = some entry.row := by
    rw [QuestionBank.groupRow, value, Option.map_some]
  exact ((displays.groups.mem_iff id entry.row).mp shown).2

/-- An edit below the root keeps the root. -/
theorem root_plug {t u : RoseTree Item} (displays : Displays (plug c t) bank)
    (same : (u.label.isGroup, u.label.idText) = (t.label.isGroup, t.label.idText)) :
    ((plug c u).label.isGroup, (plug c u).label.idText) = (true, "") :=
  (label_plug_congr (f := fun item : Item => (item.isGroup, item.idText)) c same).trans
    displays.root

/-- An item with an item below it is a group. -/
theorem isGroup_of_child
    (displays : Displays (plug c (.node item (before ++ child :: after))) bank) :
    item.isGroup = true :=
  displays.above _ (child_mem_itemRows c item before after child) _ rfl

/-- A question has no items below it. -/
theorem children_of_question
    (displays : Displays (plug c (.node item items)) bank)
    (isQuestion : item.isGroup = false) : items = [] := by
  cases items with
  | nil => rfl
  | cons child rest =>
      have isGroup := @isGroup_of_child bank c item [] rest child displays
      rw [isQuestion] at isGroup
      cases isGroup

theorem children_of_child {label : Item} {kids : List (RoseTree Item)}
    (displays : Displays (plug c (.node item (before ++ .node label kids :: after))) bank)
    (isQuestion : label.isGroup = false) : kids = [] := by
  have within : plug c (.node item (before ++ .node label kids :: after)) =
      plug (c ++ [⟨item, before, after⟩]) (.node label kids) := by
    rw [plug_append]
    rfl
  rw [within] at displays
  exact displays.children_of_question isQuestion

/-- A new group below a group or below the root. -/
theorem addGroup (displays : Displays (plug c (.node item items)) bank)
    (isGroup : item.isGroup = true) {id : String} (name : String) (absent : bank id = none) :
    Displays (plug c (.node item (items ++ [.node (.ofGroup name id) []])))
      (Function.update bank id
        (some { id := id, parent := item.idText, name := name, questions := fun _ => none })) := by
  have rows := itemRows_add c item items (.ofGroup name id)
  obtain ⟨groups, questions⟩ := shownRows_append rows
  refine ⟨displays.root_plug rfl, ?_, ?_, ?_, ?_⟩
  · intro row member above isAbove
    rcases List.mem_append.mp (rows.mem_iff.mp member) with old | new
    · exact displays.above row old above isAbove
    · obtain rfl := List.mem_singleton.mp new
      obtain rfl := Option.some.inj isAbove
      exact isGroup
  · intro row member
    rcases List.mem_append.mp (rows.mem_iff.mp member) with old | new
    · exact displays.coloured row old
    · obtain rfl := List.mem_singleton.mp new
      intro isQuestion
      cases isQuestion
  · rw [QuestionBank.groupRow_update]
    have isNew : bank.groupRow (Prod.fst (id, item.idText, name)) = none := by
      rw [QuestionBank.groupRow, absent, Option.map_none]
    exact (displays.groups.append_new isNew).of_perm groups.symm
  · have same : QuestionBank.questionRow (Function.update bank id (some
        { id := id, parent := item.idText, name := name, questions := fun _ => none })) =
        bank.questionRow := by
      funext ⟨gid, qid⟩
      by_cases here : gid = id
      · subst here
        simp [QuestionBank.questionRow, absent]
      · simp only [QuestionBank.questionRow, Function.update_of_ne here]
    rw [same]
    rw [List.filterMap_cons_none (by rfl), List.filterMap_nil, List.append_nil] at questions
    exact displays.questions.of_perm questions.symm

/-- A new question below a group. -/
theorem addQuestion (displays : Displays (plug c (.node item items)) bank)
    (isGroup : item.isGroup = true) {entry : GroupEntry}
    (value : bank item.idText = some entry) {id : String} (absent : entry.questions id = none)
    (question answer : String) :
    Displays (plug c (.node item (items ++ [.node (.ofQuestion id question answer) []])))
      (Function.update bank item.idText
        (some { entry with
          questions := Function.update entry.questions id (some
            { id := id, group := item.idText, question := question, answer := answer }) })) := by
  have rows := itemRows_add c item items (.ofQuestion id question answer)
  obtain ⟨groups, questions⟩ := shownRows_append rows
  refine ⟨displays.root_plug rfl, ?_, ?_, ?_, ?_⟩
  · intro row member above isAbove
    rcases List.mem_append.mp (rows.mem_iff.mp member) with old | new
    · exact displays.above row old above isAbove
    · obtain rfl := List.mem_singleton.mp new
      obtain rfl := Option.some.inj isAbove
      exact isGroup
  · intro row member
    rcases List.mem_append.mp (rows.mem_iff.mp member) with old | new
    · exact displays.coloured row old
    · obtain rfl := List.mem_singleton.mp new
      exact fun _ => Item.colour_eq_red_iff answer
  · rw [QuestionBank.groupRow_update_questions value]
    rw [List.filterMap_cons_none (by rfl), List.filterMap_nil, List.append_nil] at groups
    exact displays.groups.of_perm groups.symm
  · rw [QuestionBank.questionRow_update value, Option.map_some, GroupEntry.questionRow,
      displays.entry_id value]
    have isNew : bank.questionRow (Prod.fst ((item.idText, id), question, answer)) = none := by
      simp only [QuestionBank.questionRow, value, Option.bind_some, absent, Option.map_none]
    exact (displays.questions.append_new isNew).of_perm questions.symm

/-- A question that is taken out. -/
theorem deleteQuestion
    (displays : Displays (plug c (.node item (before ++ child :: after))) bank)
    (isQuestion : child.label.isGroup = false) {entry : GroupEntry}
    (value : bank item.idText = some entry) :
    Displays (plug c (.node item (before ++ after)))
      (Function.update bank item.idText
        (some { entry with
          questions := Function.update entry.questions child.label.idText none })) := by
  obtain ⟨label, items⟩ := child
  obtain rfl : items = [] := displays.children_of_child isQuestion
  have rows := itemRows_insert c item before after (.node label [])
  obtain ⟨groups, questions⟩ := shownRows_question c item before after isQuestion
  refine ⟨displays.root_plug rfl, ?_, ?_, ?_, ?_⟩
  · intro row member
    exact displays.above row (rows.mem_iff.mpr (List.mem_append_left _ member))
  · intro row member
    exact displays.coloured row (rows.mem_iff.mpr (List.mem_append_left _ member))
  · rw [QuestionBank.groupRow_update_questions value]
    exact displays.groups.of_perm groups
  · rw [QuestionBank.questionRow_update value]
    exact (displays.questions.of_perm questions).erase

/-- A question that gets other texts. -/
theorem updateQuestion
    (displays : Displays (plug c (.node item (before ++ child :: after))) bank)
    (isQuestion : child.label.isGroup = false) {entry : GroupEntry}
    (value : bank item.idText = some entry) {qa : QuestionAnswer}
    (old : entry.questions child.label.idText = some qa) (question answer : String) :
    Displays
      (plug c (.node item (before ++
        .node { child.label with
          text := question, answer := some answer, foreground := Item.colour answer }
          child.children :: after)))
      (Function.update bank item.idText
        (some { entry with
          questions := Function.update entry.questions child.label.idText (some
            { qa with group := item.idText, question := question, answer := answer }) })) := by
  obtain ⟨label, items⟩ := child
  obtain rfl : items = [] := displays.children_of_child isQuestion
  have rows := itemRows_insert c item before after (.node label [])
  have rows' := itemRows_insert c item before after (.node { label with
    text := question, answer := some answer, foreground := Item.colour answer } [])
  obtain ⟨groups, questions⟩ := shownRows_question c item before after isQuestion
  obtain ⟨groups', questions'⟩ := @shownRows_question c item before after { label with
    text := question, answer := some answer, foreground := Item.colour answer } isQuestion
  have key : (entry.id, qa.id) = (item.idText, label.idText) := by
    have shown : bank.questionRow (item.idText, label.idText) = some (entry.questionRow qa) := by
      simp only [QuestionBank.questionRow, value, Option.bind_some]
      rw [show entry.questions label.idText = some qa from old, Option.map_some]
    exact ((displays.questions.mem_iff _ _).mp shown).2
  refine ⟨displays.root_plug rfl, ?_, ?_, ?_, ?_⟩
  · intro row member above isAbove
    rcases List.mem_append.mp (rows'.mem_iff.mp member) with other | new
    · exact displays.above row (rows.mem_iff.mpr (List.mem_append_left _ other)) above isAbove
    · rw [rowsBelow, inherited_node, List.flatMap_nil, List.mem_singleton] at new
      obtain rfl := new
      obtain rfl := Option.some.inj isAbove
      exact displays.isGroup_of_child
  · intro row member
    rcases List.mem_append.mp (rows'.mem_iff.mp member) with other | new
    · exact displays.coloured row (rows.mem_iff.mpr (List.mem_append_left _ other))
    · rw [rowsBelow, inherited_node, List.flatMap_nil, List.mem_singleton] at new
      obtain rfl := new
      exact fun _ => Item.colour_eq_red_iff answer
  · rw [QuestionBank.groupRow_update_questions value]
    exact (displays.groups.of_perm groups).of_perm groups'.symm
  · rw [QuestionBank.questionRow_update value, Option.map_some]
    have same : entry.questionRow
        { qa with group := item.idText, question := question, answer := answer } =
        ((item.idText, label.idText), question, answer) := by
      rw [GroupEntry.questionRow, ← key]
    rw [same]
    have lists := displays.questions.of_perm questions
    exact (lists.replace (y := ((item.idText, label.idText), question, answer)) rfl).of_perm
      questions'.symm

/-- What is below a group without sub-groups are its questions. -/
theorem rowsBelow_leaf
    (displays : Displays (plug c (.node item (before ++ child :: after))) bank)
    (isGroup : child.label.isGroup = true)
    (isLeaf : ∀ kid ∈ child.children, kid.label.isGroup = false) :
    rowsBelow item child = (some (item.isGroup, item.idText), child.label) ::
      child.children.map fun kid => (some (true, child.label.idText), kid.label) := by
  obtain ⟨label, kids⟩ := child
  have within : plug c (.node item (before ++ .node label kids :: after)) =
      plug (c ++ [⟨item, before, after⟩]) (.node label kids) := by
    rw [plug_append]
    rfl
  rw [within] at displays
  rw [rowsBelow, inherited_node, label_node, children_node, List.map_eq_flatMap]
  congr 1
  refine List.flatMap_congr fun kid member => ?_
  obtain ⟨front, back, rfl⟩ := List.append_of_mem member
  obtain ⟨kidLabel, kidItems⟩ := kid
  obtain rfl : kidItems = [] := displays.children_of_child (isLeaf _ member)
  rw [inherited_node, List.flatMap_nil, Item.handDown, show label.isGroup = true from isGroup]
  rfl

/-- The groups on screen are one group without sub-groups and those that stay when it is
taken out. -/
theorem groupRows_leaf
    (displays : Displays (plug c (.node item (before ++ child :: after))) bank)
    (isGroup : child.label.isGroup = true)
    (isLeaf : ∀ kid ∈ child.children, kid.label.isGroup = false) :
    (groupRows (plug c (.node item (before ++ child :: after)))).Perm
      (groupRows (plug c (.node item (before ++ after))) ++
        [(child.label.idText, item.idText, child.label.text)]) := by
  obtain ⟨groups, _⟩ := shownRows_append (itemRows_insert c item before after child)
  have noGroups : (child.children.map fun kid =>
      (some (true, child.label.idText), kid.label)).filterMap Item.groupRow = [] := by
    rw [List.filterMap_eq_nil_iff]
    intro row member
    obtain ⟨kid, isKid, rfl⟩ := List.mem_map.mp member
    rw [Item.groupRow, if_neg (by simp [isLeaf kid isKid])]
  rwa [displays.rowsBelow_leaf isGroup isLeaf,
    List.filterMap_cons_some (by rw [Item.groupRow, if_pos isGroup]), noGroups] at groups

/-- A group that stays has another id than one that is taken out. -/
theorem idText_ne_of_leaf
    (displays : Displays (plug c (.node item (before ++ child :: after))) bank)
    (isGroup : child.label.isGroup = true)
    (isLeaf : ∀ kid ∈ child.children, kid.label.isGroup = false)
    {above : Bool × String} {other : Item}
    (isRow : (some above, other) ∈ itemRows (plug c (.node item (before ++ after))))
    (otherGroup : other.isGroup = true) : other.idText ≠ child.label.idText := by
  intro same
  have keys := (displays.groups.of_perm (displays.groupRows_leaf isGroup isLeaf)).distinct
  rw [DistinctKeys, List.map_append, List.nodup_append] at keys
  refine keys.2.2 child.label.idText ?_ child.label.idText (by simp) rfl
  refine List.mem_map.mpr ⟨(other.idText, above.2, other.text), ?_, same⟩
  exact List.mem_filterMap.mpr ⟨_, isRow, by rw [Item.groupRow, if_pos otherGroup]⟩

/-- No item that stays lies below a group that is taken out. -/
theorem above_ne_of_leaf
    (displays : Displays (plug c (.node item (before ++ child :: after))) bank)
    (isGroup : child.label.isGroup = true) (hasId : child.label.idText ≠ "")
    (isLeaf : ∀ kid ∈ child.children, kid.label.isGroup = false)
    {above : Bool × String} {other : Item}
    (isRow : (some above, other) ∈ itemRows (plug c (.node item (before ++ after)))) :
    above.2 ≠ child.label.idText := by
  intro same
  have isAbove := displays.above (some above, other)
    ((itemRows_insert c item before after child).mem_iff.mpr (List.mem_append_left _ isRow))
    above rfl
  rcases parent_of_row isRow with root | ⟨parent, hands, above', isParent⟩
  · have rootId : ((plug c (.node item (before ++ after))).label.isGroup,
        (plug c (.node item (before ++ after))).label.idText) = (true, "") :=
      displays.root_plug rfl
    rw [rootId] at root
    exact hasId (same.symm.trans (congrArg Prod.snd root))
  · have parentGroup : parent.isGroup = true := (congrArg Prod.fst hands).symm.trans isAbove
    exact displays.idText_ne_of_leaf isGroup isLeaf isParent parentGroup
      ((congrArg Prod.snd hands).symm.trans same)

/-- A group has another id than the item above it. -/
theorem idText_ne_of_child
    (displays : Displays (plug c (.node item (before ++ child :: after))) bank)
    (isGroup : child.label.isGroup = true) (hasId : child.label.idText ≠ "")
    (isLeaf : ∀ kid ∈ child.children, kid.label.isGroup = false) :
    item.idText ≠ child.label.idText := by
  intro same
  by_cases isRoot : c = []
  · subst isRoot
    exact hasId (same.symm.trans (congrArg Prod.snd displays.root))
  · obtain ⟨above, isAbove⟩ := exists_holeAttribute isRoot
    have isRow : (some above, item) ∈ itemRows (plug c (.node item (before ++ after))) := by
      rw [itemRows, inherited_plug, inherited_node, isAbove]
      simp
    exact displays.idText_ne_of_leaf isGroup isLeaf isRow displays.isGroup_of_child same

/-- No group on screen lies below a group without sub-groups. -/
theorem parent_ne_of_leaf
    (displays : Displays (plug c (.node item (before ++ child :: after))) bank)
    (isGroup : child.label.isGroup = true) (hasId : child.label.idText ≠ "")
    (isLeaf : ∀ kid ∈ child.children, kid.label.isGroup = false)
    {row : GroupRow} (member : row ∈ groupRows (plug c (.node item (before ++ child :: after)))) :
    row.2.1 ≠ child.label.idText := by
  obtain ⟨⟨above, other⟩, isRow, shown⟩ := List.mem_filterMap.mp member
  cases above with
  | none => cases shown
  | some above =>
      rw [Item.groupRow] at shown
      split at shown
      · rename_i otherGroup
        obtain rfl := Option.some.inj shown
        rcases List.mem_append.mp ((itemRows_insert c item before after child).mem_iff.mp isRow)
          with stays | below
        · exact displays.above_ne_of_leaf isGroup hasId isLeaf stays
        · rw [displays.rowsBelow_leaf isGroup isLeaf, List.mem_cons] at below
          rcases below with itself | isKid
          · obtain ⟨hands, rfl⟩ := Prod.mk.inj itself
            obtain rfl := Option.some.inj hands
            exact displays.idText_ne_of_child isGroup hasId isLeaf
          · obtain ⟨kid, inGroup, same⟩ := List.mem_map.mp isKid
            obtain ⟨_, rfl⟩ := Prod.mk.inj same
            rw [isLeaf kid inGroup] at otherGroup
            cases otherGroup
      · cases shown

/-- A group without sub-groups that is taken out with its questions. -/
theorem deleteGroup
    (displays : Displays (plug c (.node item (before ++ child :: after))) bank)
    (isGroup : child.label.isGroup = true) (hasId : child.label.idText ≠ "")
    (isLeaf : ∀ kid ∈ child.children, kid.label.isGroup = false) :
    Displays (plug c (.node item (before ++ after)))
      (Function.update bank child.label.idText none) := by
  have rows := itemRows_insert c item before after child
  obtain ⟨_, questions⟩ := shownRows_append rows
  rw [displays.rowsBelow_leaf isGroup isLeaf] at questions
  refine ⟨displays.root_plug rfl, ?_, ?_, ?_, ?_⟩
  · intro row member
    exact displays.above row (rows.mem_iff.mpr (List.mem_append_left _ member))
  · intro row member
    exact displays.coloured row (rows.mem_iff.mpr (List.mem_append_left _ member))
  · rw [QuestionBank.groupRow_update]
    exact (displays.groups.of_perm (displays.groupRows_leaf isGroup isLeaf)).erase
  · rw [QuestionBank.questionRow_update_none]
    refine (displays.questions.of_perm questions).restrict ?_ ?_
    · intro row member
      obtain ⟨above, isRow, shown⟩ := List.mem_filterMap.mp member
      rcases List.mem_cons.mp isRow with rfl | isKid
      · rw [Item.questionRow, if_pos isGroup] at shown
        cases shown
      · obtain ⟨kid, inGroup, rfl⟩ := List.mem_map.mp isKid
        rw [Item.questionRow, if_neg (by simp [isLeaf kid inGroup])] at shown
        rw [← Option.some.inj shown]
    · intro row member sameId
      obtain ⟨⟨above, question⟩, isRow, shown⟩ := List.mem_filterMap.mp member
      cases above with
      | none => cases shown
      | some above =>
          rw [Item.questionRow] at shown
          split at shown
          · cases shown
          · obtain rfl := Option.some.inj shown
            exact displays.above_ne_of_leaf isGroup hasId isLeaf isRow sameId

end Displays

end Notebook
