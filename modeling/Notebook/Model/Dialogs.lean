import Mathlib.Data.List.DropRight
import Notebook.Library.Runs
import Notebook.Model.NotebookUi

/-!
# `group_dashboard.cpp`, `question_dashboard.cpp` and `qwenclient.cpp`: the dialogs

A dialog runs until it is accepted or rejected, and is destroyed after its texts were read.
The dialog of a question can send the question to a service: requests are in flight until
the network manager reports them as finished, in whatever order, and a reply reaches the
dialog as one of the two signals of the client. `Qt` collects what the dialogs take from the
libraries: the plain text of an edit box that was given a text, which may be read as rich
text, and the parser of JSON.
-/

namespace Notebook

/-! ## Texts -/

/-- `QChar::isSpace`. -/
def isSpace (c : Char) : Bool :=
  c.val = 0x20 ∨ 0x09 ≤ c.val ∧ c.val ≤ 0x0d ∨ c.val = 0x85 ∨ c.val = 0xa0 ∨ c.val = 0x1680 ∨
    0x2000 ≤ c.val ∧ c.val ≤ 0x200a ∨ c.val = 0x2028 ∨ c.val = 0x2029 ∨ c.val = 0x202f ∨
    c.val = 0x205f ∨ c.val = 0x3000

/-- `QString::trimmed`. -/
def trimmed (text : String) : String :=
  .ofList ((text.toList.dropWhile isSpace).rdropWhile isSpace)

namespace PlaceMarker

/-- The number of one or two digits at the start of a text, with its length. -/
def number : List Char → Option (Nat × Nat)
  | c :: d :: _ =>
      if c.isDigit then
        if d.isDigit then some (10 * (c.toNat - 48) + (d.toNat - 48), 2)
        else some (c.toNat - 48, 1)
      else none
  | [c] => if c.isDigit then some (c.toNat - 48, 1) else none
  | [] => none

/-- The number of the place marker after a percent sign, with the length of what follows the
sign. -/
def afterPercent : List Char → Option (Nat × Nat)
  | 'L' :: text => (number text).map fun marker => (marker.1, marker.2 + 1)
  | text => number text

/-- The numbers of the place markers. -/
def numbers : List Char → List Nat
  | [] => []
  | c :: text =>
      if c = '%' then ((afterPercent text).map Prod.fst).toList ++ numbers text
      else numbers text

/-- Put a text in the place of the markers with a number. The first argument counts the
characters of a marker that are left to pass over. -/
def fill (marker : Nat) (replacement : List Char) : Nat → List Char → List Char
  | _, [] => []
  | skipped + 1, _ :: text => fill marker replacement skipped text
  | 0, c :: text =>
      match if c = '%' then afterPercent text else none with
      | none => c :: fill marker replacement 0 text
      | some (found, length) =>
          if found = marker then replacement ++ fill marker replacement length text
          else c :: fill marker replacement 0 text

end PlaceMarker

/-- `QString::arg` with a text: the place markers with the lowest number are replaced. -/
def arg (format text : String) : String :=
  match (PlaceMarker.numbers format.toList).min? with
  | none => format
  | some marker => .ofList (PlaceMarker.fill marker text.toList 0 format.toList)

/-! ## JSON -/

/-- `QJsonValue`. -/
inductive JsonValue
  | null
  | bool (value : Bool)
  | double (value : Rat)
  | string (value : String)
  | array (values : List JsonValue)
  | object (members : List (String × JsonValue))

/-- The members of a `QJsonObject`. -/
abbrev JsonObject := List (String × JsonValue)

namespace JsonValue

/-- `QJsonValue::toString`. -/
def toText : JsonValue → String
  | .string value => value
  | _ => ""

/-- `QJsonValue::toObject`. -/
def toObject : JsonValue → JsonObject
  | .object members => members
  | _ => []

end JsonValue

/-- `operator[]` of `QJsonObject`, which is null for a name without a member. -/
def JsonObject.get (object : JsonObject) (name : String) : JsonValue :=
  (object.lookup name).getD .null

/-- What the dialogs take from the libraries. -/
structure Qt where
  /-- `toPlainText` after `setText`. -/
  setText : String → String
  /-- `toPlainText` after `setPlainText`. -/
  setPlainText : String → String
  /-- `QJsonDocument::fromJson` and the object of the document. -/
  fromJson : Bytes → JsonObject

/-! ## The client -/

/-- What `QNetworkAccessManager::post` is given. -/
structure Request where
  url : String
  contentType : String
  authorization : String
  body : JsonValue

/-- How a request finishes. -/
inductive Reply
  | error (errorString : String)
  | data (data : Bytes)
  deriving DecidableEq, Repr

/-- The signals of `QwenClient`. -/
inductive Signal
  | answerReceived (answer : String)
  | requestError (errorMessage : String)
  deriving DecidableEq, Repr

/-- `QwenClient`: the key, and the requests of the network manager that are in flight. -/
structure QwenClient where
  apiKey : String
  inFlight : List Request := []

namespace QwenClient

/-- The request that `askQuestion` posts. -/
def request (apiKey question : String) : Request where
  url := "https://dashscope.aliyuncs.com/api/v1/services/aigc/text-generation/generation"
  contentType := "application/json"
  authorization := "Bearer " ++ apiKey
  body := .object
    [("input", .object
        [("messages", .array
          [.object [("content", .string question), ("role", .string "user")]])]),
      ("model", .string "qwen3-max"),
      ("parameters", .object [("result_format", .string "message"), ("seed", .double 1234)])]

/-- `QwenClient::askQuestion`. -/
def askQuestion (question : String) (client : QwenClient) : QwenClient :=
  { client with inFlight := client.inFlight ++ [request client.apiKey question] }

/-- The answer that a successful call holds. -/
def answerIn (obj : JsonObject) : Option String :=
  match obj.lookup "output" with
  | some (.object output) =>
      match output.lookup "choices" with
      | some (.array (firstChoice :: _)) =>
          (firstChoice.toObject.lookup "message").map fun message =>
            (message.toObject.get "content").toText
      | _ => none
  | _ => none

/-- `QwenClient::onReplyFinished`: the signal that is emitted. -/
def onReplyFinished (qt : Qt) : Reply → Signal
  | .error errorString => .requestError (arg "网络错误: %1" errorString)
  | .data data =>
      let obj := qt.fromJson data
      match answerIn obj with
      | some answer => .answerReceived answer
      | none =>
          .requestError
            (if (obj.lookup "code").isSome then
              arg (arg "错误 %1: %2" (obj.get "code").toText) (obj.get "message").toText
            else "未知错误")

end QwenClient

/-! ## The dialog of a question -/

/-- `QDialog::DialogCode`. -/
inductive DialogCode
  | rejected
  | accepted
  deriving DecidableEq, Repr

/-- What an event at a dialog does outside of it. -/
inductive Effect
  | show (box : MessageBox)
  | post (request : Request)
  | finish (request : Request)

/-- `question_dashboard`: the plain texts of its two edit boxes, whether the button for an
answer is enabled, the client, and the result once there is one. -/
structure QuestionDashboard where
  edtQuestion : String := ""
  edtAnswer : String := ""
  btnAnswer : Bool := true
  qwenClient : QwenClient := { apiKey := "myapikey" }
  result : Option DialogCode := none

namespace QuestionDashboard

/-- `question_dashboard::setQuestion`. -/
def setQuestion (qt : Qt) (str : String) (qd : QuestionDashboard) : QuestionDashboard :=
  { qd with edtQuestion := qt.setText str }

/-- `question_dashboard::setAnswer`. -/
def setAnswer (qt : Qt) (str : String) (qd : QuestionDashboard) : QuestionDashboard :=
  { qd with edtAnswer := qt.setText str }

/-- `question_dashboard::onBtnClickedConfirm`. -/
def onBtnClickedConfirm (qd : QuestionDashboard) : List Effect × QuestionDashboard :=
  if qd.edtQuestion = "" then ([.show (.critical "警告" "未添加问题描述！")], qd)
  else ([], { qd with result := some .accepted })

/-- `question_dashboard::onBtnClickedCancel`. -/
def onBtnClickedCancel (qd : QuestionDashboard) : List Effect × QuestionDashboard :=
  ([], { qd with result := some .rejected })

/-- The text that stands for an answer until it arrives. -/
def waitingText : String := "等待通义千问回复..."

/-- `question_dashboard::onBtnClickedAnswer`. -/
def onBtnClickedAnswer (qt : Qt) (qd : QuestionDashboard) : List Effect × QuestionDashboard :=
  let question := trimmed qd.edtQuestion
  if question = "" then ([.show (.warning "输入为空" "请输入问题后再发送！")], qd)
  else
    ([.post (QwenClient.request qd.qwenClient.apiKey question)],
      { qd with
        edtAnswer := qt.setText waitingText
        btnAnswer := false
        qwenClient := qd.qwenClient.askQuestion question })

/-- `question_dashboard::onRecvAnswer` and `question_dashboard::onRecvError`. -/
def onRecv (qt : Qt) (qd : QuestionDashboard) : Signal → List Effect × QuestionDashboard
  | .answerReceived answer =>
      ([], { qd with btnAnswer := true, edtAnswer := qt.setPlainText answer })
  | .requestError error =>
      ([.show (.critical "API 调用失败" error)],
        { qd with btnAnswer := true, edtAnswer := qt.setPlainText (arg "错误：%1" error) })

/-- An event while the dialog runs: an edit, a click, or the end of one of the requests in
flight. -/
inductive Event
  | editQuestion (text : String)
  | editAnswer (text : String)
  | confirm
  | cancel
  | answer
  | finished (index : Nat) (reply : Reply)
  deriving DecidableEq, Repr

/-- What an event does to a dialog that runs. A button that is not enabled cannot be
clicked. -/
def handle (qt : Qt) : Event → QuestionDashboard → List Effect × QuestionDashboard
  | .editQuestion text, qd => ([], { qd with edtQuestion := text })
  | .editAnswer text, qd => ([], { qd with edtAnswer := text })
  | .confirm, qd => qd.onBtnClickedConfirm
  | .cancel, qd => qd.onBtnClickedCancel
  | .answer, qd => if qd.btnAnswer then qd.onBtnClickedAnswer qt else ([], qd)
  | .finished index reply, qd =>
      match qd.qwenClient.inFlight[index]? with
      | none => ([], qd)
      | some request =>
          let client := { qd.qwenClient with inFlight := qd.qwenClient.inFlight.eraseIdx index }
          let (effects, qd) := onRecv qt { qd with qwenClient := client }
            (QwenClient.onReplyFinished qt reply)
          (.finish request :: effects, qd)

/-- An event at a dialog. Once it has a result, `exec` returns and nothing reaches it. -/
def step (qt : Qt) : Machine Event QuestionDashboard (List Effect) := fun event qd =>
  match qd.result with
  | some _ => ([], qd)
  | none => qd.handle qt event

/-- What the window reads from a dialog that was accepted. -/
def dialog (qd : QuestionDashboard) : Option Window.Dialog :=
  if qd.result = some .accepted then
    some { question := qd.edtQuestion, answer := qd.edtAnswer }
  else none

end QuestionDashboard

/-! ## The dialog of a group -/

/-- `group_dashboard`: the plain text of its edit box and the result once there is one. -/
structure GroupDashboard where
  edtGroupName : String := ""
  result : Option DialogCode := none
  deriving DecidableEq, Repr

namespace GroupDashboard

/-- `group_dashboard::setGroupName`. -/
def setGroupName (qt : Qt) (name : String) (gd : GroupDashboard) : GroupDashboard :=
  { gd with edtGroupName := qt.setText name }

/-- `group_dashboard::onBtnClickedConfirm`. -/
def onBtnClickedConfirm (gd : GroupDashboard) : Option MessageBox × GroupDashboard :=
  if gd.edtGroupName = "" then (some (.critical "警告" "未设定分组名称！"), gd)
  else (none, { gd with result := some .accepted })

/-- `group_dashboard::onBtnClickedCancel`. -/
def onBtnClickedCancel (gd : GroupDashboard) : Option MessageBox × GroupDashboard :=
  (none, { gd with result := some .rejected })

/-- An event while the dialog runs. -/
inductive Event
  | editGroupName (text : String)
  | confirm
  | cancel
  deriving DecidableEq, Repr

/-- An event at a dialog. -/
def step : Machine Event GroupDashboard (Option MessageBox) := fun event gd =>
  match gd.result, event with
  | some _, _ => (none, gd)
  | none, .editGroupName text => (none, { gd with edtGroupName := text })
  | none, .confirm => gd.onBtnClickedConfirm
  | none, .cancel => gd.onBtnClickedCancel

/-- What the window reads from a dialog that was accepted. -/
def dialog (gd : GroupDashboard) : Option String :=
  if gd.result = some .accepted then some gd.edtGroupName else none

end GroupDashboard

/-! ## Actions with their dialogs -/

/-- An action of the menu, with what happens at the dialog that its handler opens and the id
that `uid` makes. -/
inductive UserAction
  | addGroup (events : List GroupDashboard.Event) (id : String)
  | deleteGroup
  | modifyGroup (events : List GroupDashboard.Event)
  | addQuestion (events : List QuestionDashboard.Event) (id : String)
  | deleteQuestion
  | modifyQuestion (events : List QuestionDashboard.Event)
  deriving DecidableEq, Repr

namespace UserAction

/-- The dialog of a group when the events are over. A group that is modified starts with its
name. -/
def groupDashboard (qt : Qt) (item : Item) : UserAction → Option GroupDashboard
  | .addGroup events _ => some (Machine.run GroupDashboard.step events {}).2
  | .modifyGroup events =>
      some (Machine.run GroupDashboard.step events
        (GroupDashboard.setGroupName qt item.text {})).2
  | _ => none

/-- The dialog of a question when the events are over. A question that is modified starts
with its texts. -/
def questionDashboard (qt : Qt) (item : Item) : UserAction → Option QuestionDashboard
  | .addQuestion events _ => some (Machine.run (QuestionDashboard.step qt) events {}).2
  | .modifyQuestion events =>
      some (Machine.run (QuestionDashboard.step qt) events
        (QuestionDashboard.setAnswer qt item.answerText
          (QuestionDashboard.setQuestion qt item.text {}))).2
  | _ => none

/-- The dialog that the action opens is closed. -/
def Closes (qt : Qt) (item : Item) (action : UserAction) : Prop :=
  (∀ gd ∈ action.groupDashboard qt item, gd.result ≠ none) ∧
    ∀ qd ∈ action.questionDashboard qt item, qd.result ≠ none

instance (qt : Qt) (item : Item) (action : UserAction) :
    Decidable (action.Closes qt item) :=
  inferInstanceAs (Decidable (_ ∧ _))

/-- The action with what its dialog returns. -/
def menuAction (qt : Qt) (item : Item) (action : UserAction) : Window.MenuAction :=
  match action with
  | .addGroup _ id =>
      .addGroup ((action.groupDashboard qt item).bind GroupDashboard.dialog) id
  | .deleteGroup => .deleteGroup
  | .modifyGroup _ => .modifyGroup ((action.groupDashboard qt item).bind GroupDashboard.dialog)
  | .addQuestion _ id =>
      .addQuestion ((action.questionDashboard qt item).bind QuestionDashboard.dialog) id
  | .deleteQuestion => .deleteQuestion
  | .modifyQuestion _ =>
      .modifyQuestion ((action.questionDashboard qt item).bind QuestionDashboard.dialog)

end UserAction

end Notebook
