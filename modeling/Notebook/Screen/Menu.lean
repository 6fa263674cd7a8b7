import Notebook.Screen.Opened

/-!
# The actions of the menu

An action of the menu calls the bank and, when the call succeeds, edits the tree of items.
The bank and the screen stay two views of one map.
-/

namespace Notebook

open RoseTree KeyedList CQuestionBankImpl

/-! ## Calls on the map -/

namespace QuestionBank

variable {bank : QuestionBank}

/-- Adding a group either inserts its entry or changes nothing. -/
theorem addGroup_cases (bank : QuestionBank) (pid name id : String) :
    bank.addGroup pid name id = (.value false, bank) ∨
      bank id = none ∧ bank.addGroup pid name id =
        (.value true, Function.update bank id
          (some { id := id, parent := pid, name := name, questions := fun _ => none })) := by
  unfold addGroup
  split
  · rename_i accepted
    exact Or.inr ⟨accepted.1, rfl⟩
  · exact Or.inl rfl

/-- Deleting a group either takes out its entry or changes nothing. -/
theorem deleteGroup_cases (bank : QuestionBank) (pid id : String) :
    bank.deleteGroup pid id = (.value false, bank) ∨
      bank.deleteGroup pid id = (.value true, Function.update bank id none) := by
  unfold deleteGroup alterUnder
  split
  · split
    · exact Or.inr rfl
    · exact Or.inl rfl
  · exact Or.inl rfl

/-- Writing back the questions of a group changes nothing. -/
theorem update_questions {gid : String} {entry : GroupEntry} (value : bank gid = some entry) :
    Function.update bank gid (some { entry with questions := entry.questions }) = bank := by
  rw [Function.update_eq_self_iff, value]

/-- Adding a question either inserts it into its group or changes nothing. -/
theorem question_add_cases (bank : QuestionBank) (gid qid question answer : String) :
    bank.question (.add gid qid question answer) = ((false, none), bank) ∨
      ∃ entry, bank gid = some entry ∧ entry.questions qid = none ∧
        bank.question (.add gid qid question answer) =
          ((true, none), Function.update bank gid (some { entry with
            questions := Function.update entry.questions qid (some
              { id := qid, group := gid, question := question, answer := answer }) })) := by
  rw [QuestionBank.question, QuestionCall.gid]
  cases value : bank gid with
  | none => exact Or.inl rfl
  | some entry =>
      simp only [QuestionCall.onPart, PartialMap.insertIfAbsent, PartialMap.alter]
      cases old : entry.questions qid with
      | none => exact Or.inr ⟨entry, rfl, old, rfl⟩
      | some qa => exact Or.inl (Prod.ext rfl (update_questions value))

/-- Deleting a question either takes it out of its group or changes nothing. -/
theorem question_delete_cases (bank : QuestionBank) (gid qid : String) :
    bank.question (.delete gid qid) = ((false, none), bank) ∨
      ∃ entry, bank gid = some entry ∧
        bank.question (.delete gid qid) =
          ((true, none), Function.update bank gid (some { entry with
            questions := Function.update entry.questions qid none })) := by
  rw [QuestionBank.question, QuestionCall.gid]
  cases value : bank gid with
  | none => exact Or.inl rfl
  | some entry =>
      simp only [QuestionCall.onPart, PartialMap.deleteIfPresent, PartialMap.alter]
      cases old : entry.questions qid with
      | none => exact Or.inl (Prod.ext rfl (update_questions value))
      | some qa => exact Or.inr ⟨entry, rfl, rfl⟩

/-- Updating a question either rewrites it in its group or changes nothing. -/
theorem question_update_cases (bank : QuestionBank) (gid qid question answer : String) :
    bank.question (.update gid qid question answer) = ((false, none), bank) ∨
      ∃ entry qa, bank gid = some entry ∧ entry.questions qid = some qa ∧
        bank.question (.update gid qid question answer) =
          ((true, none), Function.update bank gid (some { entry with
            questions := Function.update entry.questions qid (some
              { qa with group := gid, question := question, answer := answer }) })) := by
  rw [QuestionBank.question, QuestionCall.gid]
  cases value : bank gid with
  | none => exact Or.inl rfl
  | some entry =>
      simp only [QuestionCall.onPart, PartialMap.updateIfPresent, PartialMap.alter]
      cases old : entry.questions qid with
      | none => exact Or.inl (Prod.ext rfl (update_questions value))
      | some qa => exact Or.inr ⟨entry, qa, rfl, old, rfl⟩

end QuestionBank

/-! ## The menu on an item -/

/-- An item that is pressed with the right button, and an action of the menu. -/
structure MenuCall where
  current : Position
  action : Window.MenuAction
  deriving DecidableEq, Repr

namespace MenuCall

/-- Run the action. -/
def perform (rt : Runtime) : Machine MenuCall Window (Outcome Bool) := fun call w =>
  w.onTreeWidgetItemClicked rt call.current call.action

/-- What a session does at the menu: groups get proper names and ids, groups without
sub-groups are deleted, and no group is renamed. -/
def InSession (root : Path) (call : MenuCall) (w : Window) (_ : Outcome Bool) : Prop :=
  match call.action with
  | .addGroup dialog id => ∀ name ∈ dialog, IsGroupName root name ∧ IsUuidText id
  | .deleteGroup => ∀ item ∈ w.ptrQuestion.subtreeAt call.current,
      ∀ kid ∈ item.children, kid.label.isGroup = false
  | .modifyGroup dialog => dialog = none
  | _ => True

instance (root : Path) (call : MenuCall) (w : Window) (answer : Outcome Bool) :
    Decidable (call.InSession root w answer) := by
  unfold InSession
  split <;> infer_instance

end MenuCall

/-- The bank and the screen of a window are two views of one map. -/
structure Window.Shows (root : Path) (w : Window) (bank : QuestionBank) : Prop where
  sound : Sound root w.ptrBank
  shown : w.ptrBank.Shows bank
  displays : Displays w.ptrQuestion bank

/-- A handler returns, and leaves a window whose bank and screen are views of one map. -/
def Window.Handled (root : Path) (result : Outcome Bool × Window) : Prop :=
  (∃ ok, result.1 = .value ok) ∧ ∃ bank, result.2.Shows root bank

namespace Window.Shows

variable {root : Path} {w : Window} {bank : QuestionBank}

theorem handled (shows : w.Shows root bank) (ok : Bool) :
    Window.Handled root (.value ok, w) :=
  ⟨⟨ok, rfl⟩, bank, shows⟩

/-- The position of an item tells where it lies. -/
theorem exists_place {current : Position} {item : RoseTree Item}
    (found : w.ptrQuestion.subtreeAt current = some item) :
    ∃ c, w.ptrQuestion = plug c item ∧ holePosition c = current :=
  exists_plug_of_subtreeAt found

/-- An item that is not the root lies below another one. -/
theorem exists_parent {current : Position} {item : RoseTree Item}
    (found : w.ptrQuestion.subtreeAt current = some item) :
    current = [] ∨ ∃ c parent before after,
      w.ptrQuestion = plug c (.node parent (before ++ item :: after)) ∧
        current = holePosition c ++ [before.length] := by
  obtain ⟨c, tree, rfl⟩ := exists_place found
  rcases List.eq_nil_or_concat' c with rfl | ⟨front, frame, rfl⟩
  · exact Or.inl rfl
  · refine Or.inr ⟨front, frame.label, frame.before, frame.after, ?_, ?_⟩
    · rw [tree, plug_append]
      rfl
    · rw [holePosition, List.map_append]
      rfl

/-- A call that is made on a bank acts on the map. -/
theorem call (rt : Runtime) (shows : w.Shows root bank) (call : BankCall)
    (inSession : call.InSession root w.ptrBank (call.perform rt w.ptrBank).1) :
    (call.performWithAnswer rt w.ptrBank).1 = (call.onMap bank).1 ∧
      Sound root (call.perform rt w.ptrBank).2 ∧
      (call.perform rt w.ptrBank).2.Shows (call.onMap bank).2 := by
  obtain ⟨answer, next⟩ :=
    BankCall.performWithAnswer_refines rt shows.shown shows.sound call inSession
  rw [BankCall.performWithAnswer_state] at next
  exact ⟨answer, shows.sound.perform rt call inSession, next⟩

/-- Adding a group from the menu. -/
theorem onBtnClickedAddGroup (rt : Runtime) (shows : w.Shows root bank) {current : Position}
    {item : RoseTree Item} (found : w.ptrQuestion.subtreeAt current = some item)
    (isGroup : item.label.isGroup = true) {dialog : Option String} {id : String}
    (proper : ∀ name ∈ dialog, IsGroupName root name ∧ IsUuidText id) :
    Window.Handled root (w.onBtnClickedAddGroup rt current dialog id) := by
  cases dialog with
  | none => exact shows.handled false
  | some name =>
      obtain ⟨c, tree, rfl⟩ := exists_place found
      obtain ⟨label, items⟩ := item
      have pid : (if holePosition c = [] then "" else label.idText) = label.idText := by
        split
        · rename_i isRoot
          obtain rfl := List.map_eq_nil_iff.mp isRoot
          have root := shows.displays.root
          rw [tree] at root
          exact (congrArg Prod.snd root).symm
        · rfl
      obtain ⟨answer, sound, shown⟩ := shows.call rt
        (.group (.add label.idText name id)) (proper name rfl)
      have answer' : (w.ptrBank.addGroup rt label.idText name id).1 =
        (bank.addGroup label.idText name id).1 := congrArg Prod.fst answer
      rw [Window.onBtnClickedAddGroup, found]
      simp only [label_node, pid]
      change Sound root (w.ptrBank.addGroup rt label.idText name id).2 at sound
      change (w.ptrBank.addGroup rt label.idText name id).2.Shows
        (bank.addGroup label.idText name id).2 at shown
      generalize w.ptrBank.addGroup rt label.idText name id = result at answer' sound shown ⊢
      obtain ⟨answer'', b⟩ := result
      rcases bank.addGroup_cases label.idText name id with refused | ⟨absent, done⟩
      · rw [refused] at answer' shown
        obtain rfl := answer'
        exact ⟨⟨_, rfl⟩, bank, sound, shown, shows.displays⟩
      · rw [done] at answer' shown
        obtain rfl := answer'
        refine ⟨⟨_, rfl⟩, _, sound, shown, ?_⟩
        simp only [tree, modifyAt_plug]
        have displays := shows.displays
        rw [tree] at displays
        exact displays.addGroup isGroup name absent

/-- A group without sub-groups on screen is one in the bank. -/
theorem isLeafOf (shows : w.Shows root bank) {c : Context Item} {parent : Item}
    {before after : List (RoseTree Item)} {item : RoseTree Item}
    (tree : w.ptrQuestion = plug c (.node parent (before ++ item :: after)))
    (isGroup : item.label.isGroup = true)
    (isLeaf : ∀ kid ∈ item.children, kid.label.isGroup = false) :
    item.label.idText ≠ "" ∧
      IsLeafOf parent.idText item.label.idText w.ptrBank.clsQuestionBank := by
  have displays := shows.displays
  rw [tree] at displays
  have here := displays.groupRows_leaf isGroup isLeaf
  have same := (displays.rows_of_bank shows.shown shows.sound.ready).1
  have inBank : (item.label.idText, parent.idText, item.label.text) ∈ w.ptrBank.groupRows := by
    rw [← same.mem_iff, here.mem_iff]
    exact List.mem_append_right _ (List.mem_singleton_self _)
  have hasId : item.label.idText ≠ "" := by
    obtain ⟨row, isRow, shown⟩ := List.mem_filterMap.mp inBank
    obtain ⟨above, isAbove, equal⟩ := Option.map_eq_some_iff.mp shown
    rw [← (Prod.mk.inj equal).1]
    rcases parentRows_cases isRow with rfl | ⟨front, grp, left, child, right, bankTree, rfl⟩
    · cases isAbove
    · refine (shows.sound.groups child.label ?_).id.ne_empty
      rw [CQuestionBankImpl.groups, bankTree]
      exact mem_descendants_plug front grp left right child.label_mem_preorder
  refine ⟨hasId, ?_, ?_⟩
  · intro row isRow sameId
    rcases row with ⟨_ | above, grp⟩
    · -- the row without a group above is that of the root
      rcases parentRows_cases isRow with equal | ⟨_, _, _, _, _, _, equal⟩
      · rw [(Prod.mk.inj equal).2, shows.sound.agrees.root] at sameId
        exact absurd sameId.symm hasId
      · cases (Prod.mk.inj equal).1
    · have shown : (grp.strId, above.1, grp.strName) ∈ w.ptrBank.groupRows :=
        List.mem_filterMap.mpr ⟨_, isRow, rfl⟩
      have rows := shows.shown.lists_groupRows
      have value := (rows.mem_iff item.label.idText _).mpr ⟨shown, sameId⟩
      have value' := (rows.mem_iff item.label.idText _).mpr ⟨inBank, rfl⟩
      have equal := Option.some.inj (value.symm.trans value')
      rw [Option.map_some, (Prod.mk.inj (Prod.mk.inj equal).2).1]
  · intro row isRow isParent
    rcases row with ⟨_ | above, grp⟩
    · cases isParent
    · have shown : (grp.strId, above.1, grp.strName) ∈
          groupRows (plug c (.node parent (before ++ item :: after))) := by
        rw [same.mem_iff]
        exact List.mem_filterMap.mpr ⟨_, isRow, rfl⟩
      exact displays.parent_ne_of_leaf isGroup hasId isLeaf shown (Option.some.inj isParent)

/-- Deleting a group from the menu. -/
theorem onBtnClickedDeleteGroup (rt : Runtime) (shows : w.Shows root bank) {current : Position}
    {item : RoseTree Item} (found : w.ptrQuestion.subtreeAt current = some item)
    (isGroup : item.label.isGroup = true)
    (isLeaf : ∀ kid ∈ item.children, kid.label.isGroup = false) :
    Window.Handled root (w.onBtnClickedDeleteGroup rt current) := by
  rw [Window.onBtnClickedDeleteGroup, found]
  rcases exists_parent found with rfl | ⟨c, parent, before, after, tree, rfl⟩
  · exact shows.handled false
  · have above : w.ptrQuestion.subtreeAt (holePosition c) =
        some (.node parent (before ++ item :: after)) := by
      rw [tree, subtreeAt_plug]
    simp only [List.getLast?_concat, List.dropLast_concat, above, label_node]
    obtain ⟨hasId, leaf⟩ := shows.isLeafOf tree isGroup isLeaf
    obtain ⟨answer, sound, shown⟩ := shows.call rt
      (.group (.delete parent.idText item.label.idText)) leaf
    have answer' : (w.ptrBank.deleteGroup rt parent.idText item.label.idText).1 =
      (bank.deleteGroup parent.idText item.label.idText).1 := congrArg Prod.fst answer
    change Sound root (w.ptrBank.deleteGroup rt parent.idText item.label.idText).2 at sound
    change (w.ptrBank.deleteGroup rt parent.idText item.label.idText).2.Shows
      (bank.deleteGroup parent.idText item.label.idText).2 at shown
    generalize w.ptrBank.deleteGroup rt parent.idText item.label.idText = result
      at answer' sound shown ⊢
    obtain ⟨answer'', b⟩ := result
    rcases bank.deleteGroup_cases parent.idText item.label.idText with refused | done
    · rw [refused] at answer' shown
      obtain rfl := answer'
      exact ⟨⟨_, rfl⟩, bank, sound, shown, shows.displays⟩
    · rw [done] at answer' shown
      obtain rfl := answer'
      refine ⟨⟨_, rfl⟩, _, sound, shown, ?_⟩
      simp only [tree, modifyAt_plug, label_node, children_node, eraseIdx_append_cons]
      have displays := shows.displays
      rw [tree] at displays
      exact displays.deleteGroup isGroup hasId isLeaf

/-- Adding a question from the menu. -/
theorem onBtnClickedAddQuestion (rt : Runtime) (shows : w.Shows root bank)
    {current : Position} {item : RoseTree Item}
    (found : w.ptrQuestion.subtreeAt current = some item)
    (isGroup : item.label.isGroup = true) (dialog : Option Window.Dialog) (id : String) :
    Window.Handled root (w.onBtnClickedAddQuestion rt current dialog id) := by
  cases dialog with
  | none => exact shows.handled false
  | some qd =>
      obtain ⟨c, tree, rfl⟩ := exists_place found
      obtain ⟨label, items⟩ := item
      obtain ⟨answer, sound, shown⟩ := shows.call rt
        (.question (.add label.idText id qd.question qd.answer)) trivial
      rw [Window.onBtnClickedAddQuestion, found]
      simp only [label_node]
      change ((.value (w.ptrBank.addQuestion rt label.idText id qd.question qd.answer).1, none) :
        BankAnswer) = _ at answer
      change Sound root (w.ptrBank.addQuestion rt label.idText id qd.question qd.answer).2 at sound
      change (w.ptrBank.addQuestion rt label.idText id qd.question qd.answer).2.Shows
        (bank.question (.add label.idText id qd.question qd.answer)).2 at shown
      generalize w.ptrBank.addQuestion rt label.idText id qd.question qd.answer = result
        at answer sound shown ⊢
      obtain ⟨ok, b⟩ := result
      rcases bank.question_add_cases label.idText id qd.question qd.answer with
        refused | ⟨entry, value, absent, done⟩
      · rw [BankCall.onMap, refused] at answer
        rw [refused] at shown
        obtain rfl : ok = false := by simpa using answer
        exact ⟨⟨_, rfl⟩, bank, sound, shown, shows.displays⟩
      · rw [BankCall.onMap, done] at answer
        rw [done] at shown
        obtain rfl : ok = true := by simpa using answer
        refine ⟨⟨_, rfl⟩, _, sound, shown, ?_⟩
        simp only [tree, modifyAt_plug]
        have displays := shows.displays
        rw [tree] at displays
        exact displays.addQuestion isGroup value absent qd.question qd.answer

/-- Deleting a question from the menu. -/
theorem onBtnClickedDeleteQuestion (rt : Runtime) (shows : w.Shows root bank)
    {current : Position} {item : RoseTree Item}
    (found : w.ptrQuestion.subtreeAt current = some item)
    (isQuestion : item.label.isGroup = false) :
    Window.Handled root (w.onBtnClickedDeleteQuestion rt current) := by
  rw [Window.onBtnClickedDeleteQuestion, found]
  rcases exists_parent found with rfl | ⟨c, parent, before, after, tree, rfl⟩
  · exact shows.handled false
  · have above : w.ptrQuestion.subtreeAt (holePosition c) =
        some (.node parent (before ++ item :: after)) := by
      rw [tree, subtreeAt_plug]
    simp only [List.getLast?_concat, List.dropLast_concat, above, label_node]
    obtain ⟨answer, sound, shown⟩ := shows.call rt
      (.question (.delete parent.idText item.label.idText)) trivial
    change ((.value (w.ptrBank.deleteQuestion rt parent.idText item.label.idText).1, none) :
      BankAnswer) = _ at answer
    change Sound root (w.ptrBank.deleteQuestion rt parent.idText item.label.idText).2 at sound
    change (w.ptrBank.deleteQuestion rt parent.idText item.label.idText).2.Shows
      (bank.question (.delete parent.idText item.label.idText)).2 at shown
    generalize w.ptrBank.deleteQuestion rt parent.idText item.label.idText = result
      at answer sound shown ⊢
    obtain ⟨ok, b⟩ := result
    rcases bank.question_delete_cases parent.idText item.label.idText with
      refused | ⟨entry, value, done⟩
    · rw [BankCall.onMap, refused] at answer
      rw [refused] at shown
      obtain rfl : ok = false := by simpa using answer
      exact ⟨⟨_, rfl⟩, bank, sound, shown, shows.displays⟩
    · rw [BankCall.onMap, done] at answer
      rw [done] at shown
      obtain rfl : ok = true := by simpa using answer
      refine ⟨⟨_, rfl⟩, _, sound, shown, ?_⟩
      simp only [tree, modifyAt_plug, label_node, children_node, eraseIdx_append_cons]
      have displays := shows.displays
      rw [tree] at displays
      exact displays.deleteQuestion isQuestion value

/-- Changing a question from the menu. -/
theorem onBtnClickedModifyQuestion (rt : Runtime) (shows : w.Shows root bank)
    {current : Position} {item : RoseTree Item}
    (found : w.ptrQuestion.subtreeAt current = some item)
    (isQuestion : item.label.isGroup = false) (dialog : Option Window.Dialog) :
    Window.Handled root (w.onBtnClickedModifyQuestion rt current dialog) := by
  rw [Window.onBtnClickedModifyQuestion, found]
  cases dialog with
  | none => exact shows.handled false
  | some qd =>
      rcases exists_parent found with rfl | ⟨c, parent, before, after, tree, rfl⟩
      · exact shows.handled false
      · have above : w.ptrQuestion.subtreeAt (holePosition c) =
            some (.node parent (before ++ item :: after)) := by
          rw [tree, subtreeAt_plug]
        simp only [List.getLast?_concat, List.dropLast_concat, above, label_node]
        obtain ⟨answer, sound, shown⟩ := shows.call rt
          (.question (.update parent.idText item.label.idText qd.question qd.answer)) trivial
        change ((.value (w.ptrBank.updateQuestion rt parent.idText item.label.idText qd.question
          qd.answer).1, none) : BankAnswer) = _ at answer
        change Sound root (w.ptrBank.updateQuestion rt parent.idText item.label.idText qd.question
          qd.answer).2 at sound
        change (w.ptrBank.updateQuestion rt parent.idText item.label.idText qd.question
          qd.answer).2.Shows (bank.question
            (.update parent.idText item.label.idText qd.question qd.answer)).2 at shown
        generalize w.ptrBank.updateQuestion rt parent.idText item.label.idText qd.question
          qd.answer = result at answer sound shown ⊢
        obtain ⟨ok, b⟩ := result
        rcases bank.question_update_cases parent.idText item.label.idText qd.question qd.answer
          with refused | ⟨entry, qa, value, old, done⟩
        · rw [BankCall.onMap, refused] at answer
          rw [refused] at shown
          obtain rfl : ok = false := by simpa using answer
          exact ⟨⟨_, rfl⟩, bank, sound, shown, shows.displays⟩
        · rw [BankCall.onMap, done] at answer
          rw [done] at shown
          obtain rfl : ok = true := by simpa using answer
          refine ⟨⟨_, rfl⟩, _, sound, shown, ?_⟩
          have displays := shows.displays
          rw [tree] at displays
          simp only [tree, modifyAt_append, modifyAt_plug, modifyAt_cons, modifyAt_nil,
            children_node, label_node, KeyedList.modify_append_cons]
          exact displays.updateQuestion isQuestion value old qd.question qd.answer

/-- An action of a session returns and keeps the bank and the screen two views of one map. -/
theorem perform (rt : Runtime) (shows : w.Shows root bank) (call : MenuCall)
    (inSession : call.InSession root w (call.perform rt w).1) :
    Window.Handled root (call.perform rt w) := by
  obtain ⟨current, action⟩ := call
  rw [MenuCall.perform, Window.onTreeWidgetItemClicked]
  cases found : w.ptrQuestion.subtreeAt current with
  | none => exact shows.handled false
  | some item =>
      change Window.Handled root (if action.isVisible item.label.isGroup then
        w.handle rt current action else (.value false, w))
      cases isGroup : item.label.isGroup with
      | true =>
          cases action with
          | addGroup dialog id => exact shows.onBtnClickedAddGroup rt found isGroup inSession
          | deleteGroup =>
              exact shows.onBtnClickedDeleteGroup rt found isGroup (inSession item found)
          | modifyGroup dialog =>
              obtain rfl : dialog = none := inSession
              change Window.Handled root (w.onBtnClickedModifyGroup rt current none)
              rw [Window.onBtnClickedModifyGroup, found]
              exact shows.handled false
          | addQuestion dialog id =>
              exact shows.onBtnClickedAddQuestion rt found isGroup dialog id
          | deleteQuestion => exact shows.handled false
          | modifyQuestion dialog => exact shows.handled false
      | false =>
          cases action with
          | addGroup dialog id => exact shows.handled false
          | deleteGroup => exact shows.handled false
          | modifyGroup dialog => exact shows.handled false
          | addQuestion dialog id => exact shows.handled false
          | deleteQuestion => exact shows.onBtnClickedDeleteQuestion rt found isGroup
          | modifyQuestion dialog =>
              exact shows.onBtnClickedModifyQuestion rt found isGroup dialog

/-- The actions of a session return and keep the bank and the screen two views of one map. -/
theorem run (rt : Runtime) (shows : w.Shows root bank) {calls : List MenuCall}
    (inSession : Machine.Allowed (MenuCall.perform rt) (MenuCall.InSession root) calls w) :
    (∀ answer ∈ (Machine.run (MenuCall.perform rt) calls w).1, ∃ ok, answer = .value ok) ∧
      ∃ next, (Machine.run (MenuCall.perform rt) calls w).2.Shows root next :=
  @Machine.run_answers _ _ _ _ _ (fun w : Window => ∃ bank, w.Shows root bank)
    (fun answer : Outcome Bool => ∃ ok, answer = .value ok)
    (fun call _ ⟨_, shows⟩ inSession => shows.perform rt call inSession) _ _
    ⟨bank, shows⟩ inSession

end Window.Shows

end Notebook
