import Notebook.Model.Dialogs

/-!
# Asking for an answer

The button for an answer is disabled by a click and enabled by the reply. So there is at most
one request in flight, whatever the user does meanwhile, and every reply is one to the last
request. Meanwhile the box of the answer holds a text that stands for the answer, and a
dialog that is accepted then returns this text.
-/

namespace Notebook

namespace QuestionDashboard

/-- The requests that are posted. -/
def posted (effects : List Effect) : List Request :=
  effects.filterMap fun
    | .post request => some request
    | _ => none

/-- The requests that are finished. -/
def finished (effects : List Effect) : List Request :=
  effects.filterMap fun
    | .finish request => some request
    | _ => none

@[simp] theorem posted_append (effects more : List Effect) :
    posted (effects ++ more) = posted effects ++ posted more :=
  List.filterMap_append

@[simp] theorem finished_append (effects more : List Effect) :
    finished (effects ++ more) = finished effects ++ finished more :=
  List.filterMap_append

/-- The button is enabled exactly when no request is in flight, and there is at most one. -/
structure AtMostOne (qd : QuestionDashboard) : Prop where
  length : qd.qwenClient.inFlight.length ≤ 1
  button : qd.btnAnswer = qd.qwenClient.inFlight.isEmpty

/-- What a request asks. -/
def Asks (apiKey : String) (request : Request) : Prop :=
  ∃ text, trimmed text ≠ "" ∧ request = QwenClient.request apiKey (trimmed text)

/-- What a step does to the requests in flight. -/
structure Moves (before : QuestionDashboard) (effects : List Effect)
    (after : QuestionDashboard) : Prop where
  apiKey : after.qwenClient.apiKey = before.qwenClient.apiKey
  inFlight : before.qwenClient.inFlight ++ posted effects =
    finished effects ++ after.qwenClient.inFlight
  asks : ∀ request ∈ posted effects, Asks before.qwenClient.apiKey request

/-- A step that leaves the client alone. -/
theorem moves_of_client {before after : QuestionDashboard} {effects : List Effect}
    (same : after.qwenClient = before.qwenClient) (noPost : posted effects = [])
    (noFinish : finished effects = []) : Moves before effects after where
  apiKey := by rw [same]
  inFlight := by rw [noPost, noFinish, same, List.append_nil, List.nil_append]
  asks := by simp [noPost]

variable {qd : QuestionDashboard}

/-- A signal shows its text and enables the button. -/
theorem onRecv_eq (qt : Qt) (qd : QuestionDashboard) (signal : Signal) :
    ∃ text effects, qd.onRecv qt signal =
        (effects, { qd with btnAnswer := true, edtAnswer := text }) ∧
      posted effects = [] ∧ finished effects = [] := by
  cases signal with
  | answerReceived answer => exact ⟨_, _, rfl, rfl, rfl⟩
  | requestError error => exact ⟨_, _, rfl, rfl, rfl⟩

/-- A click on the button posts the question or says that there is none. -/
theorem onBtnClickedAnswer_cases (qt : Qt) (qd : QuestionDashboard) :
    (∃ box, qd.onBtnClickedAnswer qt = ([.show box], qd)) ∨
      trimmed qd.edtQuestion ≠ "" ∧ qd.onBtnClickedAnswer qt =
        ([.post (QwenClient.request qd.qwenClient.apiKey (trimmed qd.edtQuestion))],
          { qd with
            edtAnswer := qt.setText waitingText
            btnAnswer := false
            qwenClient := qd.qwenClient.askQuestion (trimmed qd.edtQuestion) }) := by
  unfold onBtnClickedAnswer
  by_cases empty : trimmed qd.edtQuestion = ""
  · exact Or.inl ⟨_, if_pos empty⟩
  · exact Or.inr ⟨empty, if_neg empty⟩

/-- The end of a request, when at most one is in flight. -/
theorem AtMostOne.finished_cases (one : qd.AtMostOne) (qt : Qt) (index : Nat) (reply : Reply) :
    qd.handle qt (.finished index reply) = ([], qd) ∨
      ∃ request effects, qd.qwenClient.inFlight = [request] ∧
        posted effects = [] ∧ finished effects = [] ∧
        qd.handle qt (.finished index reply) =
          (.finish request :: effects,
            (onRecv qt { qd with qwenClient := { qd.qwenClient with inFlight := [] } }
              (QwenClient.onReplyFinished qt reply)).2) := by
  rw [handle]
  cases found : qd.qwenClient.inFlight[index]? with
  | none => exact Or.inl rfl
  | some request =>
      obtain ⟨inside, isRequest⟩ := List.getElem?_eq_some_iff.mp found
      have length := one.length
      obtain ⟨only, single⟩ := List.length_eq_one_iff.mp
        (show qd.qwenClient.inFlight.length = 1 by omega)
      obtain rfl : index = 0 := by omega
      obtain rfl : only = request := by simpa [single] using isRequest
      have erased : qd.qwenClient.inFlight.eraseIdx 0 = [] := by rw [single]; rfl
      obtain ⟨text, effects, received, noPost, noFinish⟩ := onRecv_eq qt
        { qd with qwenClient := { qd.qwenClient with inFlight := [] } }
        (QwenClient.onReplyFinished qt reply)
      refine Or.inr ⟨only, effects, single, noPost, noFinish, ?_⟩
      simp only [erased, received]

/-- An event at a dialog that runs. -/
theorem AtMostOne.handle (one : qd.AtMostOne) (qt : Qt) (event : Event) :
    Moves qd (qd.handle qt event).1 (qd.handle qt event).2 ∧
      (qd.handle qt event).2.AtMostOne := by
  cases event with
  | editQuestion text => exact ⟨moves_of_client rfl rfl rfl, one.length, one.button⟩
  | editAnswer text => exact ⟨moves_of_client rfl rfl rfl, one.length, one.button⟩
  | cancel => exact ⟨moves_of_client rfl rfl rfl, one.length, one.button⟩
  | confirm =>
      rw [QuestionDashboard.handle, onBtnClickedConfirm]
      split
      · exact ⟨moves_of_client rfl rfl rfl, one⟩
      · exact ⟨moves_of_client rfl rfl rfl, one.length, one.button⟩
  | answer =>
      rw [QuestionDashboard.handle]
      split
      · rename_i enabled
        rw [one.button, List.isEmpty_iff] at enabled
        rcases qd.onBtnClickedAnswer_cases qt with ⟨box, shown⟩ | ⟨isText, asked⟩
        · rw [shown]
          exact ⟨moves_of_client rfl rfl rfl, one⟩
        · rw [asked]
          refine ⟨⟨rfl, ?_, ?_⟩, ?_, ?_⟩
          · simp [posted, finished, QwenClient.askQuestion]
          · intro request isPosted
            obtain rfl : request = _ := List.mem_singleton.mp isPosted
            exact ⟨_, isText, rfl⟩
          · simp [QwenClient.askQuestion, enabled]
          · simp [QwenClient.askQuestion]
      · exact ⟨moves_of_client rfl rfl rfl, one⟩
  | finished index reply =>
      rcases one.finished_cases qt index reply with unknown |
        ⟨request, effects, single, noPost, noFinish, handled⟩
      · rw [unknown]
        exact ⟨moves_of_client rfl rfl rfl, one⟩
      · obtain ⟨text, _, received, _⟩ := onRecv_eq qt
          { qd with qwenClient := { qd.qwenClient with inFlight := [] } }
          (QwenClient.onReplyFinished qt reply)
        rw [handled, received]
        have posts : posted (.finish request :: effects) = [] := noPost
        have finishes : finished (.finish request :: effects) = request :: finished effects := rfl
        refine ⟨⟨rfl, ?_, ?_⟩, ?_, ?_⟩
        · rw [posts, finishes, noFinish, single]
        · simp [posts]
        · exact Nat.zero_le 1
        · rfl

/-- An event at a dialog. -/
theorem AtMostOne.step (one : qd.AtMostOne) (qt : Qt) (event : Event) :
    Moves qd (QuestionDashboard.step qt event qd).1 (QuestionDashboard.step qt event qd).2 ∧
      (QuestionDashboard.step qt event qd).2.AtMostOne := by
  rw [QuestionDashboard.step]
  split
  · exact ⟨moves_of_client rfl rfl rfl, one⟩
  · exact one.handle qt event

/-- A run moves the requests as its steps do. -/
theorem AtMostOne.run (one : qd.AtMostOne) (qt : Qt) (events : List Event) :
    Moves qd (Machine.run (QuestionDashboard.step qt) events qd).1.flatten
        (Machine.run (QuestionDashboard.step qt) events qd).2 ∧
      (Machine.run (QuestionDashboard.step qt) events qd).2.AtMostOne := by
  induction events generalizing qd with
  | nil => exact ⟨moves_of_client rfl rfl rfl, one⟩
  | cons event events inductionHypothesis =>
      obtain ⟨here, next⟩ := one.step qt event
      obtain ⟨later, final⟩ := inductionHypothesis next
      refine ⟨⟨later.apiKey.trans here.apiKey, ?_, ?_⟩, final⟩
      · rw [Machine.run_cons, List.flatten_cons, posted_append, finished_append,
          ← List.append_assoc, here.inFlight, List.append_assoc, later.inFlight,
          List.append_assoc]
      · rw [Machine.run_cons, List.flatten_cons, posted_append, List.forall_mem_append,
          ← here.apiKey]
        refine ⟨?_, later.asks⟩
        rw [here.apiKey]
        exact here.asks

/-! ## Results -/

theorem step_closed {code : DialogCode} (closed : qd.result = some code) (qt : Qt)
    (event : Event) : step qt event qd = ([], qd) := by
  simp only [step, closed]

theorem step_open (running : qd.result = none) (qt : Qt) (event : Event) :
    step qt event qd = qd.handle qt event := by
  simp only [step, running]

/-- The ways an event changes the result. -/
theorem result_handle (qt : Qt) (event : Event) (qd : QuestionDashboard) :
    (qd.handle qt event).2.result = qd.result ∨
      (qd.handle qt event).2.result = some .rejected ∨
      (qd.handle qt event).2.edtQuestion ≠ "" := by
  cases event with
  | editQuestion text => exact Or.inl rfl
  | editAnswer text => exact Or.inl rfl
  | cancel => exact Or.inr (Or.inl rfl)
  | confirm =>
      rw [handle, onBtnClickedConfirm]
      split
      · exact Or.inl rfl
      · rename_i isText
        exact Or.inr (Or.inr isText)
  | answer =>
      rw [handle]
      split
      · rcases qd.onBtnClickedAnswer_cases qt with ⟨box, shown⟩ | ⟨_, asked⟩
        · rw [shown]
          exact Or.inl rfl
        · rw [asked]
          exact Or.inl rfl
      · exact Or.inl rfl
  | finished index reply =>
      rw [handle]
      split
      · exact Or.inl rfl
      · obtain ⟨text, effects, received, _⟩ := onRecv_eq qt
          { qd with qwenClient :=
            { qd.qwenClient with inFlight := qd.qwenClient.inFlight.eraseIdx index } }
          (QwenClient.onReplyFinished qt reply)
        refine Or.inl ?_
        simp only [received]

/-- An accepted dialog has a question. -/
def AcceptsQuestion (qd : QuestionDashboard) : Prop :=
  qd.result = some .accepted → qd.edtQuestion ≠ ""

theorem AcceptsQuestion.step (accepts : qd.AcceptsQuestion) (qt : Qt) (event : Event) :
    (QuestionDashboard.step qt event qd).2.AcceptsQuestion := by
  cases closed : qd.result with
  | some code =>
      rw [step_closed closed]
      exact accepts
  | none =>
      rw [step_open closed]
      intro accepted
      rcases qd.result_handle qt event with same | rejected | isText
      · rw [same, closed] at accepted
        cases accepted
      · rw [rejected] at accepted
        cases accepted
      · exact isText

/-- Over any order of edits, clicks and replies, at most one request is in flight and the
button is enabled exactly when there is none; the requests that were posted are those that are
finished, in this order, followed by the one in flight, and each asks a text that is not
blank; and an accepted dialog has a question. -/
theorem run_asks (qt : Qt) (question answer : String) (events : List Event) :
    let run := Machine.run (step qt) events { edtQuestion := question, edtAnswer := answer }
    run.2.qwenClient.inFlight.length ≤ 1 ∧
      run.2.btnAnswer = run.2.qwenClient.inFlight.isEmpty ∧
      posted run.1.flatten = finished run.1.flatten ++ run.2.qwenClient.inFlight ∧
      (∀ request ∈ posted run.1.flatten, Asks "myapikey" request) ∧
      ∀ dialog ∈ run.2.dialog, dialog.question ≠ "" := by
  have one : AtMostOne { edtQuestion := question, edtAnswer := answer } :=
    ⟨Nat.zero_le 1, rfl⟩
  obtain ⟨moves, final⟩ := one.run qt events
  have accepts := @Machine.run_invariant _ _ _ (step qt) AcceptsQuestion
    (fun event _ accepts => accepts.step qt event) events
    { edtQuestion := question, edtAnswer := answer } (fun accepted => by cases accepted)
  refine ⟨final.length, final.button, moves.inFlight, moves.asks, ?_⟩
  intro dialog isDialog
  rw [QuestionDashboard.dialog] at isDialog
  split at isDialog
  · rename_i accepted
    obtain rfl := Option.some.inj isDialog
    exact accepts accepted
  · cases isDialog

/-! ## The text of the answer -/

/-- The text that a reply leaves in the box of the answer. -/
def replyText (qt : Qt) (reply : Reply) : String :=
  match QwenClient.onReplyFinished qt reply with
  | .answerReceived answer => qt.setPlainText answer
  | .requestError error => qt.setPlainText (arg "错误：%1" error)

theorem edtAnswer_onRecv (qt : Qt) (qd : QuestionDashboard) (reply : Reply) :
    (qd.onRecv qt (QwenClient.onReplyFinished qt reply)).2.edtAnswer = replyText qt reply := by
  rw [replyText]
  cases QwenClient.onReplyFinished qt reply <;> rfl

/-- Where the text in the box of the answer is from: the user, the waiting text of the request
in flight, or, when there is none, the start of the dialog or a reply. -/
def AnswerFrom (qt : Qt) (start : String) (events : List Event) (qd : QuestionDashboard) :
    Prop :=
  .editAnswer qd.edtAnswer ∈ events ∨
    qd.qwenClient.inFlight ≠ [] ∧ qd.edtAnswer = qt.setText waitingText ∨
    qd.qwenClient.inFlight = [] ∧
      (qd.edtAnswer = start ∨
        ∃ index reply, .finished index reply ∈ events ∧ qd.edtAnswer = replyText qt reply)

/-- A change of the other members keeps where the text is from. -/
theorem AnswerFrom.congr {qt : Qt} {start : String} {events : List Event}
    (sourced : qd.AnswerFrom qt start events) {other : QuestionDashboard}
    (text : other.edtAnswer = qd.edtAnswer) (client : other.qwenClient = qd.qwenClient) :
    other.AnswerFrom qt start events := by
  rw [AnswerFrom, text, client]
  exact sourced

theorem AnswerFrom.step {qt : Qt} {start : String} {events : List Event}
    (sourced : qd.AnswerFrom qt start events) (one : qd.AtMostOne) {event : Event}
    (isEvent : event ∈ events) :
    (QuestionDashboard.step qt event qd).2.AnswerFrom qt start events := by
  cases closed : qd.result with
  | some code =>
      rw [step_closed closed]
      exact sourced
  | none =>
      rw [step_open closed]
      cases event with
      | editQuestion text => exact sourced.congr rfl rfl
      | editAnswer text => exact Or.inl isEvent
      | cancel => exact sourced.congr rfl rfl
      | confirm =>
          rw [handle, onBtnClickedConfirm]
          split
          · exact sourced
          · exact sourced.congr rfl rfl
      | answer =>
          rw [handle]
          split
          · rcases qd.onBtnClickedAnswer_cases qt with ⟨box, shown⟩ | ⟨_, asked⟩
            · rw [shown]
              exact sourced
            · rw [asked]
              exact Or.inr (Or.inl ⟨by simp [QwenClient.askQuestion], rfl⟩)
          · exact sourced
      | finished index reply =>
          rcases one.finished_cases qt index reply with unknown | ⟨_, _, _, _, _, handled⟩
          · rw [unknown]
            exact sourced
          · rw [handled]
            refine Or.inr (Or.inr ⟨?_, Or.inr ⟨index, reply, isEvent, edtAnswer_onRecv ..⟩⟩)
            obtain ⟨text, _, received, _⟩ := onRecv_eq qt
              { qd with qwenClient := { qd.qwenClient with inFlight := [] } }
              (QwenClient.onReplyFinished qt reply)
            rw [received]

/-- Over any order of edits, clicks and replies, what an accepted dialog returns as the answer
is what the user wrote, or else the waiting text exactly while a request is in flight, and
otherwise the text that the dialog started with or the answer or the error of a reply. -/
theorem run_answer (qt : Qt) (question answer : String) (events : List Event) :
    let last := (Machine.run (step qt) events
      { edtQuestion := question, edtAnswer := answer }).2
    ∀ dialog ∈ last.dialog,
      .editAnswer dialog.answer ∈ events ∨
        last.qwenClient.inFlight ≠ [] ∧ dialog.answer = qt.setText waitingText ∨
        last.qwenClient.inFlight = [] ∧
          (dialog.answer = answer ∨
            ∃ index reply, .finished index reply ∈ events ∧
              dialog.answer = replyText qt reply) := by
  intro last dialog isDialog
  have start : AtMostOne { edtQuestion := question, edtAnswer := answer } ∧
      AnswerFrom qt answer events { edtQuestion := question, edtAnswer := answer } :=
    ⟨⟨Nat.zero_le 1, rfl⟩, Or.inr (Or.inr ⟨rfl, Or.inl rfl⟩)⟩
  obtain ⟨_, sourced⟩ := @Machine.run_preserves _ _ _ (step qt) _
    (fun qd => qd.AtMostOne ∧ qd.AnswerFrom qt answer events)
    (fun event _ ⟨one, sourced⟩ isEvent => ⟨(one.step qt event).2, sourced.step one isEvent⟩)
    _ _ start (Machine.allowed_of_mem (step qt) (fun _ isEvent => isEvent) _)
  rw [QuestionDashboard.dialog] at isDialog
  split at isDialog
  · obtain rfl := Option.some.inj isDialog
    exact sourced
  · cases isDialog

/-- The body of a reply with an answer. -/
def sampleBody : Bytes :=
  utf8 "\x7b\"output\":\x7b\"choices\":[\x7b\"message\":\x7b\"content\":\"dog\"\x7d\x7d]\x7d\x7d"

/-- Plain texts, and a parser for the body of that reply. -/
def sampleQt : Qt where
  setText text := text
  setPlainText text := text
  fromJson data :=
    if data = sampleBody then
      [("output", .object [("choices", .array
        [.object [("message", .object [("content", .string "dog")])]])])]
    else []

theorem run_answer_hund :
    let events : List Event := [.answer, .editQuestion "der Hund", .confirm]
    let last := (Machine.run (step sampleQt) events { edtQuestion := "hund", edtAnswer := "" }).2
    .editAnswer waitingText ∈ events ∨
      last.qwenClient.inFlight ≠ [] ∧ waitingText = sampleQt.setText waitingText ∨
      last.qwenClient.inFlight = [] ∧
        (waitingText = "" ∨
          ∃ index reply, .finished index reply ∈ events ∧
            waitingText = replyText sampleQt reply) :=
  run_answer sampleQt "hund" "" [.answer, .editQuestion "der Hund", .confirm]
    { question := "der Hund", answer := waitingText } (by decide +kernel)

end QuestionDashboard

end Notebook
