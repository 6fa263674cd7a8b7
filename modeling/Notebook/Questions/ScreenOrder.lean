import Notebook.Library.Runs
import Notebook.Model.NotebookUi
import Notebook.Questions.Context

/-!
# The questions on screen and the questions of the store

The handlers append and remove items of a tree widget, while the store appends
records and swaps a deleted one with the last. Both lists keep the same
questions. They keep the same order as long as each deletion leaves at most one
question below the deleted one.
-/

namespace Notebook

open KeyedList

/-- A question as it is shown or saved. -/
structure QuestionText where
  id : String
  text : String
  answer : String
  deriving DecidableEq, Repr

namespace QuestionText

/-- The question an item shows. -/
def ofItem (item : Item) : QuestionText :=
  { id := item.idText, text := item.text, answer := item.answerText }

/-- The question `getQuestions` returns. -/
def ofParam (qap : CQuestionAnswerParam) : QuestionText :=
  { id := qap.strId, text := qap.strQuestion, answer := qap.strAnswer }

/-- The question in a record. -/
def ofRecord (qa : QuestionAnswer) : QuestionText :=
  { id := qa.id, text := qa.question, answer := qa.answer }

@[simp] theorem ofItem_ofQuestion (id question answer : String) :
    ofItem (.ofQuestion id question answer) =
      { id := id, text := question, answer := answer } := rfl

@[simp] theorem ofItem_ofParam (qap : CQuestionAnswerParam) :
    ofItem (.ofParam qap) = ofParam qap := rfl

end QuestionText

/-! ## Lists on screen -/

/-- Question items in a list of items, top to bottom. -/
def shownIn (items : List (RoseTree Item)) : List QuestionText :=
  (items.filter fun item => item.label.isGroup = false).map fun item =>
    .ofItem item.label

@[simp] theorem shownIn_nil : shownIn [] = [] := rfl

@[simp] theorem shownIn_append (items more : List (RoseTree Item)) :
    shownIn (items ++ more) = shownIn items ++ shownIn more := by
  simp [shownIn]

theorem shownIn_cons_question {item : RoseTree Item}
    (question : item.label.isGroup = false) (items : List (RoseTree Item)) :
    shownIn (item :: items) = .ofItem item.label :: shownIn items := by
  simp [shownIn, question]

theorem shownIn_initGroups (groups : List CQuestionGroupParam) :
    shownIn (Window.initGroups groups) = [] := by
  induction groups with
  | nil => rfl
  | cons group groups inductionHypothesis =>
      cases group
      simpa [Window.initGroups, shownIn, Item.ofGroup] using inductionHypothesis

/-- A freshly built group item shows the questions of all its stores. -/
theorem shownIn_initQuestionTree (qgp : CQuestionGroupParam) :
    shownIn (Window.initQuestionTree qgp) =
      qgp.label.vecQuestions.flatMap fun qa =>
        (qa.getQuestions.getD []).map .ofParam := by
  cases qgp with
  | node grp groups =>
      rw [Window.initQuestionTree, shownIn_append, shownIn_initGroups,
        List.nil_append, RoseTree.label_node]
      induction grp.vecQuestions with
      | nil => rfl
      | cons qa stores inductionHypothesis =>
          rw [List.flatMap_cons, List.flatMap_cons, shownIn_append,
            inductionHypothesis]
          congr 1
          induction qa.getQuestions.getD [] with
          | nil => rfl
          | cons qap rest tailHypothesis =>
              rw [List.map_cons, shownIn_cons_question rfl, tailHypothesis]
              rfl

namespace Window

/-- The questions under the item at a position. -/
def shown (p : Position) (w : Window) : Option (List QuestionText) :=
  (w.ptrQuestion.subtreeAt p).map fun item => shownIn item.children

/-- What `getQuestions` returns on the only store of the group that is found by an
id. -/
def saved (gid : String) (w : Window) : Option (List QuestionText) :=
  match w.ptrBank.clsQuestionBank.preorder.find? fun grp => grp.strId = gid with
  | some { vecQuestions := [ctx], .. } => ctx.getQuestions.map (List.map .ofParam)
  | _ => none

end Window

/-! ## The store of a group -/

namespace CQuestionBankImpl

/-- The group that is found by an id has one store, which is open and holds the
given records. -/
def Stored (gid : String) (rows : List QuestionAnswer) (b : CQuestionBankImpl) : Prop :=
  ∃ grp ctx,
    b.clsQuestionBank.preorder.find? (fun other => other.strId = gid) = some grp ∧
    grp.vecQuestions = [ctx] ∧ ctx.strPath ≠ [] ∧ ctx.lstQuestions = rows

/-- A successful operation on the store of a group leaves the group with the store
as the operation left it. -/
theorem withContext_stored (rt : Runtime) {b : CQuestionBankImpl} {gid : String}
    {grp : GroupMembers} {ctx : CQuestionAnswerImpl}
    (first : b.clsQuestionBank.preorder.find? (fun other => other.strId = gid) = some grp)
    (stores : grp.vecQuestions = [ctx])
    (use : CQuestionAnswerImpl → Bool × CQuestionAnswerImpl)
    (succeeds : (b.withContext rt gid use).1.getD false = true) :
    (use ctx).1 = true ∧
      ∃ grp', (b.withContext rt gid use).2.clsQuestionBank.preorder.find?
          (fun other => other.strId = gid) = some grp' ∧
        grp'.vecQuestions = [(use ctx).2] := by
  obtain ⟨tree, done, still⟩ :=
    findQustionAnswerContext_of_first rt b.regs.disk first stores use
  unfold withContext at succeeds ⊢
  split at succeeds
  · simp at succeeds
  · rw [done] at succeeds
    rw [if_neg ‹_›, done]
    exact ⟨by simpa using succeeds, _, still, by simp [GroupMembers.withStore, stores]⟩

variable {b : CQuestionBankImpl} {gid : String} {rows : List QuestionAnswer}

theorem addQuestion_stored (rt : Runtime) (stored : b.Stored gid rows)
    {id question answer : String}
    (succeeds : (b.addQuestion rt gid id question answer).1 = true) :
    find QuestionAnswer.id id rows = none ∧
      (b.addQuestion rt gid id question answer).2.Stored gid
        (rows ++ [{ id := id, group := gid, question := question, answer := answer }]) := by
  obtain ⟨grp, ctx, first, stores, opened, rfl⟩ := stored
  obtain ⟨added, grp', first', stores'⟩ :=
    withContext_stored rt first stores _ succeeds
  rcases CQuestionAnswerImpl.addQuestion_cases opened
    { strGroup := gid, strId := id, strQuestion := question, strAnswer := answer } with
    ⟨_, refused, _⟩ | ⟨absent, done⟩
  · rw [refused] at added
    cases added
  · rw [done] at stores'
    exact ⟨absent, grp', _, first', stores', opened, rfl⟩

theorem deleteQuestion_stored (rt : Runtime) (stored : b.Stored gid rows)
    {id : String}
    (succeeds : (b.deleteQuestion rt gid id).1 = true) :
    ∃ before x after, rows = before ++ x :: after ∧ x.id = id ∧
      (b.deleteQuestion rt gid id).2.Stored gid
        (before ++ (after.getLast?.toList ++ after.dropLast)) := by
  obtain ⟨grp, ctx, first, stores, opened, rfl⟩ := stored
  obtain ⟨deleted, grp', first', stores'⟩ :=
    withContext_stored rt first stores _ succeeds
  rcases CQuestionAnswerImpl.deleteQuestion_cases opened id with
    ⟨_, refused, _⟩ | ⟨before, x, after, split, _, key, done⟩
  · rw [refused] at deleted
    cases deleted
  · rw [done] at stores'
    exact ⟨before, x, after, split, key, grp', _, first', stores', opened, rfl⟩

theorem updateQuestion_stored (rt : Runtime) (stored : b.Stored gid rows)
    {id question answer : String}
    (succeeds : (b.updateQuestion rt gid id question answer).1 = true) :
    ∃ before x after, rows = before ++ x :: after ∧ x.id = id ∧
      (b.updateQuestion rt gid id question answer).2.Stored gid
        (before ++ { x with group := gid, question := question, answer := answer } ::
          after) := by
  obtain ⟨grp, ctx, first, stores, opened, rfl⟩ := stored
  obtain ⟨updated, grp', first', stores'⟩ :=
    withContext_stored rt first stores _ succeeds
  rcases CQuestionAnswerImpl.updateQuestion_cases opened
    { strGroup := gid, strId := id, strQuestion := question, strAnswer := answer } with
    ⟨_, refused, _⟩ | ⟨before, x, after, split, _, key, done⟩
  · rw [refused] at updated
    cases updated
  · rw [done] at stores'
    exact ⟨before, x, after, split, key, grp', _, first', stores', opened, rfl⟩

theorem Stored.saved {w : Window} (stored : w.ptrBank.Stored gid rows) :
    w.saved gid = some (rows.map .ofRecord) := by
  obtain ⟨⟨name, id, path, stores⟩, ctx, first, rfl, opened, rfl⟩ := stored
  rw [Window.saved, first]
  simp [CQuestionAnswerImpl.getQuestions, opened, QuestionText.ofParam,
    QuestionText.ofRecord]

end CQuestionBankImpl

/-! ## Edits of the two lists -/

/-- How a handler that succeeds edits the list on screen and the list of the store.
The number counts the questions below a deleted one. -/
inductive QuestionEdit :
    Nat → List QuestionText → List QuestionText →
      List QuestionText → List QuestionText → Prop
  | add {shown saved} (x : QuestionText)
      (isNew : x.id ∉ saved.map QuestionText.id) :
      QuestionEdit 0 shown saved (shown ++ [x]) (saved ++ [x])
  | delete (above below : List QuestionText) {x y : QuestionText}
      (before after : List QuestionText)
      (sameId : y.id = x.id) :
      QuestionEdit below.length (above ++ x :: below) (before ++ y :: after)
        (above ++ below) (before ++ (after.getLast?.toList ++ after.dropLast))
  | modify (above below before after : List QuestionText) {x y : QuestionText}
      (z : QuestionText)
      (sameId : y.id = x.id)
      (keepsId : z.id = x.id) :
      QuestionEdit 0 (above ++ x :: below) (before ++ y :: after)
        (above ++ z :: below) (before ++ z :: after)

/-- Two lists that show the same questions, each once. -/
structure SameQuestions (shown saved : List QuestionText) : Prop where
  perm : shown.Perm saved
  distinct : (saved.map QuestionText.id).Nodup

/-- Elements of two rearranged lists with the same id are equal. -/
theorem SameQuestions.eq_of_id {shown saved : List QuestionText}
    (same : SameQuestions shown saved)
    {x y : QuestionText}
    (inShown : x ∈ shown)
    (inSaved : y ∈ saved)
    (sameId : y.id = x.id) :
    y = x :=
  List.inj_on_of_nodup_map same.distinct inSaved (same.perm.mem_iff.mp inShown) sameId

/-- A list without repetition splits around an element in one way. -/
theorem split_eq_of_nodup {above below before after : List QuestionText}
    {x : QuestionText}
    (distinct : ((before ++ x :: after).map QuestionText.id).Nodup)
    (equal : above ++ x :: below = before ++ x :: after) :
    above = before ∧ below = after := by
  have noCopy : ∀ ys zs : List QuestionText, ys ++ x :: zs = before ++ x :: after →
      x ∉ ys := by
    intro ys zs split present
    rw [← split, List.map_append, List.nodup_append] at distinct
    exact distinct.2.2 x.id (List.mem_map_of_mem present) x.id (by simp) rfl
  have noCopyAfter : ∀ ys zs : List QuestionText, ys ++ x :: zs = before ++ x :: after →
      x ∉ zs := by
    intro ys zs split present
    rw [← split, List.map_append, List.map_cons, List.nodup_append,
      List.nodup_cons] at distinct
    exact distinct.2.1.1 (List.mem_map_of_mem present)
  obtain ⟨left, _, right⟩ := (List.append_cons_inj_of_notMem
    (noCopy before after rfl) (noCopyAfter before after rfl)).mp equal.symm
  exact ⟨left.symm, right.symm⟩

/-- The last element of a list with distinct ids moves to the front without effect
exactly when the list has at most one element. -/
theorem getLast_cons_dropLast_eq_iff {xs : List QuestionText}
    (distinct : (xs.map QuestionText.id).Nodup) :
    xs.getLast?.toList ++ xs.dropLast = xs ↔ xs.length ≤ 1 := by
  rcases List.eq_nil_or_concat' xs with rfl | ⟨middle, last, rfl⟩
  · simp
  · cases middle with
    | nil => simp
    | cons first middle =>
        have different : last ≠ first := by
          rintro rfl
          simp at distinct
        rw [List.getLast?_concat, List.dropLast_concat]
        simp [different]

namespace QuestionEdit

variable {n : Nat} {shown saved shown' saved' : List QuestionText}

/-- An edit keeps the two lists showing the same questions. -/
theorem sameQuestions (edit : QuestionEdit n shown saved shown' saved')
    (same : SameQuestions shown saved) :
    SameQuestions shown' saved' := by
  cases edit with
  | add x isNew =>
      refine ⟨same.perm.append_right [x], ?_⟩
      rw [List.map_append, List.nodup_append]
      refine ⟨same.distinct, by simp, ?_⟩
      rintro id present other isLast rfl
      rw [List.map_singleton, List.mem_singleton] at isLast
      exact isNew (isLast ▸ present)
  | @delete above below x y before after sameId =>
      obtain rfl := same.eq_of_id (x := x) (y := y) (by simp) (by simp) sameId
      have rest : (above ++ below).Perm (before ++ after) :=
        ((List.perm_middle.symm.trans same.perm).trans List.perm_middle).cons_inv
      have rotated := swapRemove_perm before y after
      rw [swapRemove_append_cons] at rotated
      refine ⟨rest.trans rotated.symm, ?_⟩
      have distinct : DistinctKeys QuestionText.id (before ++ y :: after) := same.distinct
      exact distinct.append_sublist.perm rotated.symm
  | @modify above below before after x y z sameId keepsId =>
      obtain rfl := same.eq_of_id (x := x) (y := y) (by simp) (by simp) sameId
      have rest : (above ++ below).Perm (before ++ after) :=
        ((List.perm_middle.symm.trans same.perm).trans List.perm_middle).cons_inv
      refine ⟨List.perm_middle.trans ((rest.cons z).trans List.perm_middle.symm), ?_⟩
      simpa [keepsId] using same.distinct

/-- An edit of equal lists gives equal lists exactly when at most one question is
below a deleted one. -/
theorem eq_iff (edit : QuestionEdit n shown saved shown' saved')
    (same : SameQuestions shown saved)
    (inOrder : shown = saved) :
    shown' = saved' ↔ n ≤ 1 := by
  cases edit with
  | add x isNew => simp [inOrder]
  | @delete above below x y before after sameId =>
      obtain rfl := same.eq_of_id (x := x) (y := y) (by simp) (by simp) sameId
      obtain ⟨rfl, rfl⟩ := split_eq_of_nodup same.distinct inOrder
      have distinct := same.distinct
      rw [List.map_append, List.map_cons, List.nodup_append, List.nodup_cons] at distinct
      rw [List.append_cancel_left_eq, eq_comm,
        getLast_cons_dropLast_eq_iff distinct.2.1.2]
  | @modify above below before after x y z sameId keepsId =>
      obtain rfl := same.eq_of_id (x := x) (y := y) (by simp) (by simp) sameId
      obtain ⟨rfl, rfl⟩ := split_eq_of_nodup same.distinct inOrder
      simp

end QuestionEdit

/-! ## Handler calls on one group -/

/-- A call of one of the three question handlers on the questions of one group item,
with the index of the current item below it. -/
inductive HandlerCall
  | add (dialog : Option Window.Dialog) (uid : String)
  | delete (index : Nat)
  | modify (index : Nat) (dialog : Option Window.Dialog)
  deriving DecidableEq, Repr

namespace HandlerCall

/-- Run a handler on the group item at a position. -/
def handle (rt : Runtime) (p : Position) : Machine HandlerCall Window (Outcome Bool)
  | .add dialog uid, w => w.onBtnClickedAddQuestion rt p dialog uid
  | .delete index, w => w.onBtnClickedDeleteQuestion rt (p ++ [index])
  | .modify index dialog, w => w.onBtnClickedModifyQuestion rt (p ++ [index]) dialog

/-- A call is made on the group item or on a question item below it. -/
def OnGroup (p : Position) (call : HandlerCall) (w : Window) : Prop :=
  match call with
  | .add _ _ => True
  | .delete index | .modify index _ =>
      ∃ item, w.ptrQuestion.subtreeAt (p ++ [index]) = some item ∧
        item.label.isGroup = false

/-- Number of questions on screen below the one that a call deletes. -/
def questionsBelow (p : Position) (call : HandlerCall) (w : Window) : Nat :=
  match call with
  | .delete index =>
      match w.ptrQuestion.subtreeAt p with
      | some group => (shownIn (group.children.drop (index + 1))).length
      | none => 0
  | _ => 0

/-- A handler call on the group that succeeds. -/
def Succeeds (p : Position) (call : HandlerCall) (w : Window) (answer : Outcome Bool) :
    Prop :=
  call.OnGroup p w ∧ answer = .value true

/-- A handler call that deletes one of the last two questions shown, or none. -/
def NearEnd (p : Position) (call : HandlerCall) (w : Window) (_ : Outcome Bool) : Prop :=
  call.questionsBelow p w ≤ 1

instance (p : Position) (call : HandlerCall) (w : Window) (answer : Outcome Bool) :
    Decidable (call.NearEnd p w answer) :=
  inferInstanceAs (Decidable (_ ≤ _))

end HandlerCall

namespace Window

/-- The item at a position and the group found by an id belong together: the item
has the id and shows one list, the group has one open store with another list. -/
structure OnScreen (p : Position) (gid : String) (shown saved : List QuestionText)
    (w : Window) : Prop where
  item : ∃ group, w.ptrQuestion.subtreeAt p = some group ∧
    group.label.idText = gid ∧ shownIn group.children = shown
  stored : ∃ rows, w.ptrBank.Stored gid rows ∧ rows.map .ofRecord = saved

variable {p : Position} {gid : String} {shown saved : List QuestionText} {w : Window}

theorem OnScreen.shown_eq (onScreen : w.OnScreen p gid shown saved) :
    w.shown p = some shown := by
  obtain ⟨⟨group, here, _, rfl⟩, _⟩ := onScreen
  rw [Window.shown, here]
  rfl

theorem OnScreen.saved_eq (onScreen : w.OnScreen p gid shown saved) :
    w.saved gid = some saved := by
  obtain ⟨_, rows, stored, rfl⟩ := onScreen
  exact stored.saved

end Window

namespace HandlerCall

variable {p : Position} {gid : String} {shown saved : List QuestionText} {w : Window}

/-- The item below a group item splits the list of its items. -/
theorem exists_split_of_current {group item : RoseTree Item} {index : Nat}
    (here : w.ptrQuestion.subtreeAt p = some group)
    (found : w.ptrQuestion.subtreeAt (p ++ [index]) = some item) :
    ∃ above below, group.children = above ++ item :: below ∧ above.length = index := by
  rw [RoseTree.subtreeAt_append, here, Option.bind_some, RoseTree.subtreeAt_cons]
    at found
  obtain ⟨child, read, same⟩ := Option.bind_eq_some_iff.mp found
  cases same
  exact exists_split_of_getElem? read

/-- A successful handler edits both lists. -/
theorem handle_edits (rt : Runtime)
    (onScreen : w.OnScreen p gid shown saved)
    (call : HandlerCall)
    (succeeds : call.Succeeds p w (handle rt p call w).1) :
    ∃ shown' saved', (handle rt p call w).2.OnScreen p gid shown' saved' ∧
      QuestionEdit (call.questionsBelow p w) shown saved shown' saved' := by
  obtain ⟨⟨group, here, rfl, rfl⟩, rows, stored, rfl⟩ := onScreen
  obtain ⟨onGroup, succeeded⟩ := succeeds
  cases call with
  | add dialog uid =>
      cases dialog with
      | none => simp [handle, Window.onBtnClickedAddQuestion] at succeeded
      | some qd =>
          simp only [handle, Window.onBtnClickedAddQuestion, here] at succeeded ⊢
          cases done : w.ptrBank.addQuestion rt group.label.idText uid qd.question
              qd.answer with
          | mk ok bank =>
          cases ok with
          | false => simp [done] at succeeded
          | true =>
              obtain ⟨absent, stored'⟩ :=
                CQuestionBankImpl.addQuestion_stored rt stored (by rw [done])
              rw [done] at stored'
              refine ⟨_, _, ⟨⟨_, RoseTree.subtreeAt_modifyAt here _, rfl, rfl⟩,
                _, stored', rfl⟩, ?_⟩
              simp only [RoseTree.children_node, shownIn_append, List.map_append]
              refine QuestionEdit.add _ ?_
              intro present
              simp only [List.map_map, List.mem_map] at present
              obtain ⟨row, member, equal⟩ := present
              exact find_eq_none_iff.mp absent row member equal
  | delete index =>
      obtain ⟨item, found, question⟩ := onGroup
      obtain ⟨above, below, split, rfl⟩ := exists_split_of_current here found
      simp only [handle, Window.onBtnClickedDeleteQuestion, found,
        List.getLast?_concat, List.dropLast_concat, here] at succeeded ⊢
      cases done : w.ptrBank.deleteQuestion rt group.label.idText item.label.idText with
      | mk ok bank =>
      cases ok with
      | false => simp [done] at succeeded
      | true =>
          obtain ⟨before, x, after, rfl, key, stored'⟩ :=
            CQuestionBankImpl.deleteQuestion_stored rt stored (by rw [done])
          rw [done] at stored'
          refine ⟨_, _, ⟨⟨_, RoseTree.subtreeAt_modifyAt here _, rfl, rfl⟩,
            _, stored', rfl⟩, ?_⟩
          have count : questionsBelow p (.delete above.length) w =
              (shownIn below).length := by
            simp [questionsBelow, here, split]
          have erased : (above ++ item :: below).eraseIdx above.length =
              above ++ below := by
            simp [List.eraseIdx_append_of_length_le]
          rw [count, RoseTree.children_node, split, erased, shownIn_append,
            shownIn_append, shownIn_cons_question question, List.map_append,
            List.map_cons, List.map_append, List.map_append, List.map_dropLast]
          have last : (after.getLast?.toList).map QuestionText.ofRecord =
              ((after.map QuestionText.ofRecord).getLast?).toList := by
            rw [List.getLast?_map]
            cases after.getLast? <;> rfl
          rw [last]
          exact QuestionEdit.delete _ _ _ _ key
  | modify index dialog =>
      obtain ⟨item, found, question⟩ := onGroup
      obtain ⟨above, below, split, rfl⟩ := exists_split_of_current here found
      cases dialog with
      | none => simp [handle, Window.onBtnClickedModifyQuestion, found] at succeeded
      | some qd =>
          simp only [handle, Window.onBtnClickedModifyQuestion, found,
            List.getLast?_concat, List.dropLast_concat, here] at succeeded ⊢
          cases done : w.ptrBank.updateQuestion rt group.label.idText
              item.label.idText qd.question qd.answer with
          | mk ok bank =>
          cases ok with
          | false => simp [done] at succeeded
          | true =>
              obtain ⟨before, x, after, rfl, key, stored'⟩ :=
                CQuestionBankImpl.updateQuestion_stored rt stored (by rw [done])
              rw [done] at stored'
              rw [RoseTree.modifyAt_append]
              refine ⟨_, _, ⟨⟨_, RoseTree.subtreeAt_modifyAt here _, rfl, rfl⟩,
                _, stored', rfl⟩, ?_⟩
              rw [RoseTree.modifyAt_cons, RoseTree.children_node, split,
                modify_append_cons, shownIn_append, shownIn_append,
                shownIn_cons_question question, RoseTree.modifyAt_nil,
                shownIn_cons_question ?isQuestion, List.map_append, List.map_cons,
                List.map_append, List.map_cons]
              case isQuestion => exact question
              have written : QuestionText.ofRecord
                  { x with group := group.label.idText, question := qd.question,
                           answer := qd.answer } =
                  { id := item.label.idText, text := qd.question,
                    answer := qd.answer } := by
                rw [← key]
                rfl
              have sameId : (QuestionText.ofRecord x).id =
                  (QuestionText.ofItem item.label).id := key
              rw [written]
              exact QuestionEdit.modify _ _ _ _ _ sameId rfl

/-! ## Runs -/

/-- After every part of a run the questions on screen are in the order of the
store. -/
def AlwaysInOrder (rt : Runtime) (p : Position) (gid : String)
    (calls : List HandlerCall) (w : Window) : Prop :=
  Machine.Always (handle rt p) (fun w => w.shown p = w.saved gid) calls w

/-- Over any sequence of successful handler calls on a group, the list on screen
and the list of the store keep the same questions, each once. They are in the same
order all the time exactly when every deletion takes one of the last two
questions. -/
theorem run_keeps_questions (rt : Runtime)
    (group : ∃ shown saved, w.OnScreen p gid shown saved)
    (inOrder : w.shown p = w.saved gid)
    (distinct : ∀ saved, w.saved gid = some saved → (saved.map QuestionText.id).Nodup)
    {calls : List HandlerCall}
    (succeed : Machine.Allowed (handle rt p) (Succeeds p) calls w) :
    (∃ shown saved,
        (Machine.run (handle rt p) calls w).2.shown p = some shown ∧
        (Machine.run (handle rt p) calls w).2.saved gid = some saved ∧
        SameQuestions shown saved) ∧
      (AlwaysInOrder rt p gid calls w ↔
        Machine.Allowed (handle rt p) (NearEnd p) calls w) := by
  obtain ⟨shown, saved, onScreen⟩ := group
  have equal : shown = saved := by
    rw [onScreen.shown_eq, onScreen.saved_eq] at inOrder
    exact Option.some.inj inOrder
  have same : SameQuestions shown saved :=
    ⟨by rw [equal], distinct saved onScreen.saved_eq⟩
  clear inOrder distinct
  refine ⟨?_, ?_⟩
  · clear equal
    induction calls generalizing w shown saved with
    | nil => exact ⟨shown, saved, onScreen.shown_eq, onScreen.saved_eq, same⟩
    | cons call calls inductionHypothesis =>
        obtain ⟨shown', saved', onScreen', edit⟩ :=
          handle_edits rt onScreen call succeed.1
        exact inductionHypothesis succeed.2 shown' saved' onScreen' (edit.sameQuestions same)
  · induction calls generalizing w shown saved with
    | nil =>
        simp only [Machine.allowed_nil, iff_true]
        intro done later split
        obtain ⟨rfl, rfl⟩ := List.append_eq_nil_iff.mp split.symm
        rw [Machine.run_nil, onScreen.shown_eq, onScreen.saved_eq, equal]
    | cons call calls inductionHypothesis =>
        obtain ⟨shown', saved', onScreen', edit⟩ :=
          handle_edits rt onScreen call succeed.1
        have still := edit.eq_iff same equal
        rw [AlwaysInOrder, Machine.always_cons, Machine.allowed_cons, onScreen.shown_eq,
          onScreen.saved_eq, equal]
        constructor
        · rintro ⟨_, always⟩
          have next : shown' = saved' := by
            have now := always [] calls rfl
            rw [Machine.run_nil, onScreen'.shown_eq, onScreen'.saved_eq] at now
            exact Option.some.inj now
          exact ⟨still.mp next, (inductionHypothesis succeed.2 shown' saved' onScreen' next
            (edit.sameQuestions same)).mp always⟩
        · rintro ⟨near, allowed⟩
          have next : shown' = saved' := still.mpr near
          exact ⟨rfl, (inductionHypothesis succeed.2 shown' saved' onScreen' next
            (edit.sameQuestions same)).mpr allowed⟩

/-- A window on a bank with one group of three questions. -/
def sampleWindow : Window :=
  let bank : CQuestionGroupParam :=
    .node { strName := "root", strPath := ["root"] }
      [.node
        { strName := "Words", strId := "w", strPath := ["root", "Words"],
          vecQuestions :=
            [{ strPath := ["root", "Words", "w.dat"],
               lstQuestions :=
                [{ id := "1", question := "hund", answer := "dog", group := "w" },
                 { id := "2", question := "katze", answer := "cat", group := "w" },
                 { id := "3", question := "maus", answer := "mouse", group := "w" }] }] }
        []]
  { ptrBank := { clsQuestionBank := bank, regs := { mapIds := [("w", "Words")] } }
    ptrQuestion :=
      .node { text := "bank", isGroup := true, foreground := some .blue }
        (Window.initQuestionTree bank) }

theorem sampleWindow_onScreen :
    ∃ shown saved, sampleWindow.OnScreen [0] "w" shown saved :=
  ⟨_, _, ⟨_, rfl, rfl, rfl⟩, _, ⟨_, _, rfl, rfl, by decide, rfl⟩, rfl⟩

/-- A run that adds a question, answers it and deletes the last but one. -/
def sampleCalls : List HandlerCall :=
  [.add (some ⟨"vogel", ""⟩) "4", .modify 3 (some ⟨"vogel", "bird"⟩), .delete 2]

theorem run_keeps_questions_sampleWindow :
    AlwaysInOrder .wire [0] "w" sampleCalls sampleWindow := by
  have succeed : Machine.Allowed (handle .wire [0]) (Succeeds [0]) sampleCalls
      sampleWindow :=
    ⟨⟨trivial, rfl⟩, ⟨⟨_, rfl, rfl⟩, rfl⟩, ⟨⟨_, rfl, rfl⟩, rfl⟩, trivial⟩
  have nearEnd : Machine.Allowed (handle .wire [0]) (NearEnd [0]) sampleCalls
      sampleWindow :=
    ⟨by decide, by decide, by decide, trivial⟩
  exact (run_keeps_questions .wire sampleWindow_onScreen rfl
    (fun saved equal => by cases equal; decide) succeed).2.mpr nearEnd

/-- Deleting the first of three questions moves the last one to the front of the
store but not of the screen. -/
theorem delete_first_reorders :
    sampleWindow.shown [0] = sampleWindow.saved "w" ∧
      Machine.Allowed (handle .wire [0]) (Succeeds [0]) [.delete 0] sampleWindow ∧
      (Machine.run (handle .wire [0]) [.delete 0] sampleWindow).2.shown [0] ≠
        (Machine.run (handle .wire [0]) [.delete 0] sampleWindow).2.saved "w" :=
  ⟨rfl, ⟨⟨⟨_, rfl, rfl⟩, rfl⟩, trivial⟩, by decide⟩

end HandlerCall

end Notebook
