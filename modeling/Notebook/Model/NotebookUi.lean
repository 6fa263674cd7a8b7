import Notebook.Library.Loops
import Notebook.Library.TreePositions
import Notebook.Model.NotebookImpl

/-!
# `notebook.cpp`: the tree of items on screen

The window keeps a tree of items under the item of the whole bank. A current
item is given by its position; the handlers read ids from an item and the one above,
call the bank and, when the call succeeds, edit the items. Icons, tool
tips that repeat the text and the expansion of items are left out.

The search for the next or the previous question is a loop over the current item and
the step to its sibling; nothing bounds the number of iterations. The handlers for
reading search from the current item and fill the two boxes.
-/

namespace Notebook

/-- Colours the window gives to items. -/
inductive Foreground
  | blue
  | red
  | black
  deriving DecidableEq, Repr

/-- Column 0 of a `QTreeWidgetItem`. A role without data is `none`. -/
structure Item where
  /-- Text of the item. -/
  text : String
  /-- `Qt::UserRole`: whether the item is a group. -/
  isGroup : Bool
  /-- `NOTEBOOK_ROLE_ID`. -/
  id : Option String := none
  /-- `NOTEBOOK_ROLE_ANSWER`. -/
  answer : Option String := none
  /-- `Qt::ForegroundRole`. -/
  foreground : Option Foreground := none
  deriving DecidableEq, Repr

namespace Item

/-- `data(0, NOTEBOOK_ROLE_ID).toString()`. -/
def idText (item : Item) : String :=
  item.id.getD ""

/-- `data(0, NOTEBOOK_ROLE_ANSWER).toString()`. -/
def answerText (item : Item) : String :=
  item.answer.getD ""

/-- Item of a group. -/
def ofGroup (name id : String) : Item :=
  { text := name, isGroup := true, id := some id }

/-- The colour that the handlers give to a question with an answer. -/
def colour (answer : String) : Option Foreground :=
  if answer = "" then some .red else some .black

/-- Item that a handler makes for a new question. -/
def ofQuestion (id question answer : String) : Item :=
  { text := question, isGroup := false, id := some id, answer := some answer,
    foreground := colour answer }

/-- Item that `initQuestionTree` makes for a stored question. -/
def ofParam (qap : CQuestionAnswerParam) : Item :=
  { text := qap.strQuestion, isGroup := false, id := some qap.strId,
    answer := some qap.strAnswer,
    foreground := if qap.strAnswer = "" then some .red else none }

end Item

/-- The members of `notebook` that the question handlers use: the bank and the item
`m_ptrQuestion` with everything below it. -/
structure Window where
  ptrBank : CQuestionBankImpl
  ptrQuestion : RoseTree Item

namespace Window

mutual

/-- `notebook::initQuestionTree`: the items below the item of a group. -/
def initQuestionTree : CQuestionGroupParam → List (RoseTree Item)
  | .node grp groups =>
      initGroups groups ++ grp.vecQuestions.flatMap fun qa =>
        (qa.getQuestions.getD []).map fun qap => .node (.ofParam qap) []

/-- The loop of `initQuestionTree` over the sub-groups. -/
def initGroups : List CQuestionGroupParam → List (RoseTree Item)
  | [] => []
  | .node grp groups :: rest =>
      .node (.ofGroup grp.strName grp.strId) (initQuestionTree (.node grp groups)) ::
        initGroups rest

end

/-- What a question dialog returns when it is accepted. -/
structure Dialog where
  question : String
  answer : String
  deriving DecidableEq, Repr

/-- `notebook::onBtnClickedAddQuestion`. The answer tells whether a question was
added. -/
def onBtnClickedAddQuestion (rt : Runtime) (current : Position)
    (dialog : Option Dialog) (id : String) (w : Window) : Outcome Bool × Window :=
  match dialog with
  | none => (.value false, w)
  | some qd =>
      match w.ptrQuestion.subtreeAt current with
      | none => (.undefined, w)
      | some item =>
          match w.ptrBank.addQuestion rt item.label.idText id qd.question qd.answer with
          | (false, bank) => (.value false, { w with ptrBank := bank })
          | (true, bank) =>
              (.value true,
                { ptrBank := bank
                  ptrQuestion := w.ptrQuestion.modifyAt (fun item =>
                    .node item.label (item.children ++
                      [.node (.ofQuestion id qd.question qd.answer) []])) current })

/-- `notebook::onBtnClickedDeleteQuestion`. -/
def onBtnClickedDeleteQuestion (rt : Runtime) (current : Position) (w : Window) :
    Outcome Bool × Window :=
  match w.ptrQuestion.subtreeAt current with
  | none => (.undefined, w)
  | some item =>
      match current.getLast?, w.ptrQuestion.subtreeAt current.dropLast with
      | some index, some parentItem =>
          match w.ptrBank.deleteQuestion rt parentItem.label.idText item.label.idText with
          | (false, bank) => (.value false, { w with ptrBank := bank })
          | (true, bank) =>
              (.value true,
                { ptrBank := bank
                  ptrQuestion := w.ptrQuestion.modifyAt (fun parentItem =>
                    .node parentItem.label (parentItem.children.eraseIdx index))
                    current.dropLast })
      | _, _ => (.value false, w)

/-- `notebook::onBtnClickedModifyQuestion`. -/
def onBtnClickedModifyQuestion (rt : Runtime) (current : Position)
    (dialog : Option Dialog) (w : Window) : Outcome Bool × Window :=
  match w.ptrQuestion.subtreeAt current with
  | none => (.undefined, w)
  | some item =>
      match dialog with
      | none => (.value false, w)
      | some qd =>
          match current.getLast?, w.ptrQuestion.subtreeAt current.dropLast with
          | some _, some parentItem =>
              match w.ptrBank.updateQuestion rt parentItem.label.idText
                  item.label.idText qd.question qd.answer with
              | (false, bank) => (.value false, { w with ptrBank := bank })
              | (true, bank) =>
                  (.value true,
                    { ptrBank := bank
                      ptrQuestion := w.ptrQuestion.modifyAt (fun item =>
                        .node { item.label with
                          text := qd.question, answer := some qd.answer,
                          foreground := Item.colour qd.answer } item.children) current })
          | _, _ => (.value false, w)

/-! ## Next and previous question -/

/-- The value that `val` starts with and gets back when the loop goes up. -/
def direction (flag : Bool) : Int :=
  if flag then -1 else 1

/-- The rest of an iteration of `findTreeWidgetItem`, once `cur_item` is the item at an
index of the parent: the loop is left at a question, goes into a group with children, and
keeps both variables at a group without. -/
def visitItem (flag : Bool) (cur : Position) (item : RoseTree Item) (val : Int) :
    Option Position ⊕ (Position × Int) :=
  if item.label.isGroup = false then .inl (some cur)
  else
    let index := if flag then item.children.length - 1 else 0
    match item.children[index]? with
    | none => .inr (cur, val)
    | some child =>
        if child.label.isGroup = false then .inl (some (cur ++ [index]))
        else .inr (cur ++ [index], 0)

/-- An iteration of the loop in `findTreeWidgetItem`. -/
def findStep (tree : RoseTree Item) (flag : Bool) :
    Loop (Position × Int) (Option Position) := fun (cur, val) =>
  match cur.getLast?, tree.subtreeAt cur.dropLast with
  | some i, some parentItem =>
      let index := (i : Int) + val
      if index < 0 ∨ index ≥ parentItem.children.length then
        .inr (cur.dropLast, direction flag)
      else
        match parentItem.children[index.toNat]? with
        | some item => visitItem flag (cur.dropLast ++ [index.toNat]) item val
        | none => .inl none
  | _, _ => .inl none

/-- `notebook::findTreeWidgetItem` with a bound on the number of iterations. -/
def findTreeWidgetItem (tree : RoseTree Item) (flag : Bool) (item : Option Position)
    (fuel : Nat) : Option (Option Position) :=
  match item with
  | none => some none
  | some cur => Loop.run (findStep tree flag) fuel (cur, direction flag)

/-! ## Groups -/

/-- `notebook::onBtnClickedAddGroup`, with the name that the dialog returns when it is
accepted. -/
def onBtnClickedAddGroup (rt : Runtime) (current : Position) (dialog : Option String)
    (id : String) (w : Window) : Outcome Bool × Window :=
  match dialog with
  | none => (.value false, w)
  | some name =>
      match w.ptrQuestion.subtreeAt current with
      | none => (.undefined, w)
      | some item =>
          let pid := if current = [] then "" else item.label.idText
          match w.ptrBank.addGroup rt pid name id with
          | (.value true, bank) =>
              (.value true,
                { ptrBank := bank
                  ptrQuestion := w.ptrQuestion.modifyAt (fun item =>
                    .node item.label (item.children ++ [.node (.ofGroup name id) []]))
                    current })
          | (answer, bank) => (answer, { w with ptrBank := bank })

/-- `notebook::onBtnClickedDeleteGroup`. -/
def onBtnClickedDeleteGroup (rt : Runtime) (current : Position) (w : Window) :
    Outcome Bool × Window :=
  match w.ptrQuestion.subtreeAt current with
  | none => (.undefined, w)
  | some item =>
      match current.getLast?, w.ptrQuestion.subtreeAt current.dropLast with
      | some index, some parentItem =>
          match w.ptrBank.deleteGroup rt parentItem.label.idText item.label.idText with
          | (.value true, bank) =>
              (.value true,
                { ptrBank := bank
                  ptrQuestion := w.ptrQuestion.modifyAt (fun parentItem =>
                    .node parentItem.label (parentItem.children.eraseIdx index))
                    current.dropLast })
          | (answer, bank) => (answer, { w with ptrBank := bank })
      | _, _ => (.value false, w)

/-- `notebook::onBtnClickedModifyGroup`, with the name that the dialog returns when it is
accepted. -/
def onBtnClickedModifyGroup (rt : Runtime) (current : Position) (dialog : Option String)
    (w : Window) : Outcome Bool × Window :=
  match w.ptrQuestion.subtreeAt current with
  | none => (.undefined, w)
  | some item =>
      match dialog with
      | none => (.value false, w)
      | some name =>
          let pid :=
            match current.getLast?, w.ptrQuestion.subtreeAt current.dropLast with
            | some _, some parentItem => parentItem.label.idText
            | _, _ => ""
          match w.ptrBank.updateGroup rt pid item.label.idText name with
          | (.value true, bank) =>
              (.value true,
                { ptrBank := bank
                  ptrQuestion := w.ptrQuestion.modifyAt (fun item =>
                    .node { item.label with text := name } item.children) current })
          | (answer, bank) => (answer, { w with ptrBank := bank })

/-! ## The menu -/

/-- An action of the menu, with what its dialog returns and the id that `uid` makes. -/
inductive MenuAction
  | addGroup (dialog : Option String) (id : String)
  | deleteGroup
  | modifyGroup (dialog : Option String)
  | addQuestion (dialog : Option Dialog) (id : String)
  | deleteQuestion
  | modifyQuestion (dialog : Option Dialog)
  deriving DecidableEq, Repr

/-- Whether the menu shows an action for an item. -/
def MenuAction.isVisible (isGroup : Bool) : MenuAction → Bool
  | .addGroup _ _ => isGroup
  | .deleteGroup => isGroup
  | .modifyGroup _ => isGroup
  | .addQuestion _ _ => isGroup
  | .deleteQuestion => !isGroup
  | .modifyQuestion _ => !isGroup

/-- The handler that an action is connected to, with the item at a position as the current
one. -/
def handle (rt : Runtime) (current : Position) :
    MenuAction → Window → Outcome Bool × Window
  | .addGroup dialog id, w => w.onBtnClickedAddGroup rt current dialog id
  | .deleteGroup, w => w.onBtnClickedDeleteGroup rt current
  | .modifyGroup dialog, w => w.onBtnClickedModifyGroup rt current dialog
  | .addQuestion dialog id, w => w.onBtnClickedAddQuestion rt current dialog id
  | .deleteQuestion, w => w.onBtnClickedDeleteQuestion rt current
  | .modifyQuestion dialog, w => w.onBtnClickedModifyQuestion rt current dialog

/-- `notebook::onTreeWidgetItemClicked` with the right button: the pressed item is the
current one, and an action that the menu shows can be chosen. -/
def onTreeWidgetItemClicked (rt : Runtime) (current : Position) (action : MenuAction)
    (w : Window) : Outcome Bool × Window :=
  match w.ptrQuestion.subtreeAt current with
  | none => (.value false, w)
  | some item =>
      if action.isVisible item.label.isGroup then w.handle rt current action
      else (.value false, w)

/-! ## Start and end of the program -/

/-- The item of the whole bank. -/
def bankItem : Item :=
  { text := "题库", isGroup := true, foreground := some .blue }

/-- `notebook::initQuestionBank` in the constructor of the window. Without a bank there is
no window to work with; the disk is what the calls leave. -/
def initQuestionBank (rt : Runtime) (path : Path) (listing : CQuestionBankImpl.Listing)
    (disk : Disk) (refusals : Refusals) : Outcome Bool × Option Window × Disk :=
  match (CQuestionBankImpl.fresh disk refusals).init rt path listing with
  | (.value true, bank) =>
      match bank.getQuestionsBank with
      | (true, qgp) =>
          (.value true,
            some { ptrBank := bank, ptrQuestion := .node bankItem (initQuestionTree qgp) },
            bank.regs.disk)
      | (false, _) => (.value false, none, (bank.uninit rt).2.regs.disk)
  | (answer, bank) => (answer, none, bank.regs.disk)

/-- `notebook::~notebook`. -/
def destroy (rt : Runtime) (w : Window) : Outcome Unit × Disk :=
  ((w.ptrBank.uninit rt).1, (w.ptrBank.uninit rt).2.regs.disk)

end Window

/-! ## Reading -/

/-- A box of `QMessageBox`, with its title and its text. -/
inductive MessageBox
  | information (title text : String)
  | warning (title text : String)
  | critical (title text : String)
  deriving DecidableEq, Repr

/-- The members of `notebook` that the handlers for reading use: the items, the current item
of `m_treeQuestionBank`, and the texts that the two boxes were given. -/
structure Reader where
  ptrQuestion : RoseTree Item
  currentItem : Option Position
  edtQuestion : String
  edtAnswer : String

namespace Reader

/-- The item at a position. -/
def itemAt (r : Reader) (p : Position) : Option Item :=
  (r.ptrQuestion.subtreeAt p).map RoseTree.label

/-- `notebook::onBtnClickedLastQuestion` and `notebook::onBtnClickedNextQuestion`, which
differ in the direction of the search and in the text of the box at its end. There is no
answer when the search has not ended within a number of iterations. -/
def onBtnClickedQuestion (flag : Bool) (text : String) (fuel : Nat) (r : Reader) :
    Option (Option MessageBox) × Reader :=
  match Window.findTreeWidgetItem r.ptrQuestion flag r.currentItem fuel with
  | none => (none, r)
  | some none => (some (some (.information "提示" text)), r)
  | some (some p) =>
      -- the search has made the item that it found the current one
      (some none,
        { r with
          currentItem := some p
          edtQuestion := (r.itemAt p).elim "" Item.text
          edtAnswer := "" })

/-- `notebook::onBtnClickedLastQuestion`. -/
def onBtnClickedLastQuestion (fuel : Nat) (r : Reader) : Option (Option MessageBox) × Reader :=
  r.onBtnClickedQuestion true "已到第一个！" fuel

/-- `notebook::onBtnClickedNextQuestion`. -/
def onBtnClickedNextQuestion (fuel : Nat) (r : Reader) : Option (Option MessageBox) × Reader :=
  r.onBtnClickedQuestion false "已到最后一个！" fuel

/-- `notebook::onBtnClickedShowAnswer`. -/
def onBtnClickedShowAnswer (r : Reader) : Option MessageBox × Reader :=
  match r.currentItem.bind r.itemAt with
  | none => (some (.critical "警告" "获取问题失败！"), r)
  | some item =>
      if item.answerText = "" then (some (.information "提示" "暂未录入答案！"), r)
      else (none, { r with edtAnswer := item.answerText })

/-- `notebook::onTreeWidgetItemClicked` with the left button: the pressed item is the
current one. -/
def pressLeft (p : Position) (r : Reader) : Reader :=
  match r.itemAt p with
  | none => r
  | some item =>
      { r with
        currentItem := some p
        edtQuestion := if item.isGroup then "" else item.text
        edtAnswer := "" }

/-- `notebook::onTreeWidgetItemClicked` with the right button, when the menu is left without
an action: the pressed item is the current one, and the boxes keep their texts. -/
def pressRight (p : Position) (r : Reader) : Reader :=
  match r.itemAt p with
  | none => r
  | some _ => { r with currentItem := some p }

/-- A click of the reader. -/
inductive Click
  | left (p : Position)
  | right (p : Position)
  | last
  | next
  | showAnswer
  deriving DecidableEq, Repr

/-- The handler that a click is connected to. -/
def handle (fuel : Nat) : Click → Reader → Option (Option MessageBox) × Reader
  | .left p, r => (some none, r.pressLeft p)
  | .right p, r => (some none, r.pressRight p)
  | .last, r => r.onBtnClickedLastQuestion fuel
  | .next, r => r.onBtnClickedNextQuestion fuel
  | .showAnswer, r => (some r.onBtnClickedShowAnswer.1, r.onBtnClickedShowAnswer.2)

end Reader

end Notebook
