import Notebook.Groups.Agreement

/-!
# Which failures leave an old error text

A call that returns false may have written no error text of its own: a store writes its
text to itself and not to the bank, and `ctrlGroup` writes none when it finds no group
to act on. Everywhere else the text after a failure does not depend on the one before.
-/

namespace Notebook

open RoseTree

namespace Registers

/-- Registers that differ at most in the error text. -/
def TextOnly (r r' : Registers) : Prop :=
  ∃ message, r' = { r with strErrorMsg := message }

/-- Two calls of an operation that give the same answer and the same tree, and the same
error text when they answer false. -/
structure SameFailure (first second : Outcome Bool × CQuestionGroupParam × Registers) :
    Prop where
  answer : first.1 = second.1
  tree : first.2.1 = second.2.1
  regs : TextOnly first.2.2 second.2.2
  text : first.1 = .value false → first.2.2 = second.2.2

theorem addGroup_sameFailure (id name : String) (qgp : CQuestionGroupParam)
    {r r' : Registers} (textOnly : TextOnly r r') :
    SameFailure (r.addGroup id name qgp) (r'.addGroup id name qgp) := by
  obtain ⟨message, rfl⟩ := textOnly
  cases opened : r.ptrIds with
  | none =>
      simp only [addGroup, opened]
      exact ⟨rfl, rfl, ⟨message, rfl⟩, by simp⟩
  | some ids =>
      simp only [addGroup, opened]
      split
      · exact ⟨rfl, rfl, ⟨message, rfl⟩, by simp⟩
      · split
        · exact ⟨rfl, rfl, ⟨message, rfl⟩, by simp⟩
        · exact ⟨rfl, rfl, ⟨_, rfl⟩, fun _ => rfl⟩
        · exact ⟨rfl, rfl, ⟨message, rfl⟩, by simp⟩

theorem updateGroup_sameFailure (rt : Runtime) (id name : String) (qgp : CQuestionGroupParam)
    {r r' : Registers} (textOnly : TextOnly r r') :
    SameFailure (r.updateGroup rt id name qgp) (r'.updateGroup rt id name qgp) := by
  obtain ⟨message, rfl⟩ := textOnly
  cases split : splitFirst (fun grp : CQuestionGroupParam => decide (grp.label.strId = id))
    qgp.children with
  | none =>
      simp only [updateGroup, split]
      exact ⟨rfl, rfl, ⟨_, rfl⟩, fun _ => rfl⟩
  | some parts =>
      cases opened : r.ptrIds with
      | none =>
          simp only [updateGroup, split, opened]
          exact ⟨rfl, rfl, ⟨message, by simp only [opened]⟩, by simp⟩
      | some ids =>
          simp only [updateGroup, split, opened]
          split
          · exact ⟨rfl, rfl, ⟨_, rfl⟩, fun _ => rfl⟩
          · exact ⟨rfl, rfl, ⟨message, rfl⟩, by simp⟩

/-- The loop over the sub-groups does not depend on the error text. -/
theorem deleteEach_textOnly {rt : Runtime} {depth : Nat}
    (each : ∀ id qgp {r r' : Registers}, TextOnly r r' →
      SameFailure (deleteGroupWithin rt depth id qgp r) (deleteGroupWithin rt depth id qgp r'))
    (count i : Nat) (qgp : CQuestionGroupParam) {r r' : Registers}
    (textOnly : TextOnly r r') :
    (deleteEach (deleteGroupWithin rt depth) count i qgp r).1 =
        (deleteEach (deleteGroupWithin rt depth) count i qgp r').1 ∧
      (deleteEach (deleteGroupWithin rt depth) count i qgp r).2.1 =
        (deleteEach (deleteGroupWithin rt depth) count i qgp r').2.1 ∧
      TextOnly (deleteEach (deleteGroupWithin rt depth) count i qgp r).2.2
        (deleteEach (deleteGroupWithin rt depth) count i qgp r').2.2 := by
  induction count generalizing i qgp r r' with
  | zero => exact ⟨rfl, rfl, textOnly⟩
  | succ count inductionHypothesis =>
      rw [deleteEach, deleteEach]
      cases qgp.children[i]? with
      | none => exact ⟨rfl, rfl, textOnly⟩
      | some grp =>
          obtain ⟨answer, tree, regs, _⟩ := each grp.label.strId qgp textOnly
          rcases first : deleteGroupWithin rt depth grp.label.strId qgp r with ⟨a, t, s⟩
          rcases second : deleteGroupWithin rt depth grp.label.strId qgp r' with ⟨a', t', s'⟩
          rw [first, second] at answer tree regs
          simp only at answer tree regs
          subst answer tree
          simp only [first, second]
          cases a with
          | value => exact inductionHypothesis (i + 1) t regs
          | threw => exact ⟨rfl, rfl, regs⟩
          | undefined => exact ⟨rfl, rfl, regs⟩

theorem deleteGroupWithin_sameFailure (rt : Runtime) (depth : Nat) (id : String)
    (qgp : CQuestionGroupParam) {r r' : Registers} (textOnly : TextOnly r r') :
    SameFailure (deleteGroupWithin rt depth id qgp r)
      (deleteGroupWithin rt depth id qgp r') := by
  induction depth generalizing id qgp r r' with
  | zero => exact ⟨rfl, rfl, textOnly, by simp [deleteGroupWithin]⟩
  | succ depth inductionHypothesis =>
      obtain ⟨message, rfl⟩ := textOnly
      cases opened : r.ptrIds with
      | none =>
          simp only [deleteGroupWithin, opened]
          exact ⟨rfl, rfl, ⟨message, rfl⟩, by simp⟩
      | some ids =>
          cases split : splitFirst
            (fun grp : CQuestionGroupParam => decide (grp.label.strId = id)) qgp.children with
          | none =>
              simp only [deleteGroupWithin, opened, split]
              exact ⟨rfl, rfl, ⟨_, rfl⟩, fun _ => rfl⟩
          | some parts =>
              obtain ⟨before, found, after⟩ := parts
              rcases closed : closeAll rt found.label.vecQuestions r.disk
                with ⟨ok, stores, disk⟩
              cases ok with
              | false =>
                  simp only [deleteGroupWithin, opened, split, closed]
                  exact ⟨rfl, rfl, ⟨message, rfl⟩, by simp⟩
              | true =>
                  have loop := @deleteEach_textOnly rt depth
                    (fun id qgp {_ _} textOnly => inductionHypothesis id qgp textOnly)
                    found.children.length 0
                    (.node { found.label with vecQuestions := [] } found.children)
                    { r.unregister id ids with disk := disk }
                    { r.unregister id ids with disk := disk, strErrorMsg := message }
                    ⟨message, rfl⟩
                  rcases first : deleteEach (deleteGroupWithin rt depth)
                    found.children.length 0
                    (.node { found.label with vecQuestions := [] } found.children)
                    { r.unregister id ids with disk := disk } with ⟨inner, left, s⟩
                  rcases second : deleteEach (deleteGroupWithin rt depth)
                    found.children.length 0
                    (.node { found.label with vecQuestions := [] } found.children)
                    { r.unregister id ids with disk := disk, strErrorMsg := message }
                    with ⟨inner', left', s'⟩
                  rw [first, second] at loop
                  simp only at loop
                  obtain ⟨rfl, rfl, text, rfl⟩ := loop
                  unfold unregister at first second
                  rw [deleteGroupWithin, deleteGroupWithin]
                  simp only [opened, split, closed, children_node, first, second]
                  cases inner with
                  | threw => exact ⟨rfl, rfl, ⟨text, rfl⟩, by simp⟩
                  | undefined => exact ⟨rfl, rfl, ⟨text, rfl⟩, by simp⟩
                  | value =>
                      simp only
                      split
                      · split
                        · exact ⟨rfl, rfl, ⟨_, rfl⟩, fun _ => rfl⟩
                        · exact ⟨rfl, rfl, ⟨text, rfl⟩, by simp⟩
                      · exact ⟨rfl, rfl, ⟨text, rfl⟩, by simp⟩

/-- Every private operation gives the same failure whatever the error text was. -/
theorem ctrlHere_sameFailure (rt : Runtime) (gid name : String) {type : GroupCtrlType}
    (isOperation : type ≠ .none ∧ type ≠ .max)
    (qgp : CQuestionGroupParam) {r r' : Registers} (textOnly : TextOnly r r') :
    SameFailure (ctrlHere rt gid name type qgp r) (ctrlHere rt gid name type qgp r') := by
  cases type with
  | none => exact absurd rfl isOperation.1
  | add => exact addGroup_sameFailure gid name qgp textOnly
  | delete => exact deleteGroupWithin_sameFailure rt qgp.height gid qgp textOnly
  | update => exact updateGroup_sameFailure rt gid name qgp textOnly
  | max => exact absurd rfl isOperation.2

/-- When some group is hit, a failure of `ctrlGroup` does not depend on the error text
before it. -/
theorem ctrlGroup_sameFailure (rt : Runtime) {pid : String} (gid name : String)
    {type : GroupCtrlType} (isOperation : type ≠ .none ∧ type ≠ .max)
    {qgp : CQuestionGroupParam}
    (someTarget : ∃ grp ∈ qgp.preorder, isTarget pid grp = true)
    {r r' : Registers} (textOnly : TextOnly r r')
    (failed : (ctrlGroup rt pid gid name type qgp r).1 = .value false) :
    (ctrlGroup rt pid gid name type qgp r).2.2 =
      (ctrlGroup rt pid gid name type qgp r').2.2 := by
  obtain ⟨c, u, rfl, hitHere, noneBefore⟩ := exists_first_hit someTarget
  have here := ctrlHere_sameFailure rt gid name isOperation u textOnly
  by_cases goes : (ctrlHere rt gid name type u r).1 = .value false
  · exact (@search_congr_first _ _ _ (isTarget pid)
      (fun grp r => ctrlHere rt gid name type grp r)
      (fun answer : Outcome Bool => answer = .value false) (.value false) rfl c u r r'
      hitHere noneBefore here.answer (here.text goes)).2
  · have stops := @search_plug_of_stop _ _ _ (isTarget pid)
      (fun grp r => ctrlHere rt gid name type grp r)
      (fun answer : Outcome Bool => answer = .value false) (.value false) rfl c u r
      hitHere noneBefore (by simpa using goes)
    exfalso
    apply goes
    have answer : ctrlGroup rt pid gid name type (plug c u) r = _ := stops
    rw [answer] at failed
    exact failed

end Registers

namespace CQuestionBankImpl

/-- `CQuestionBankImpl::err`: the text up to the first terminator. -/
def err (b : CQuestionBankImpl) : Bytes :=
  b.regs.strErrorMsg.takeWhile (· ≠ 0)

/-- The store that the search for a group id hands out. -/
def storeFor (rt : Runtime) (gid : String) (b : CQuestionBankImpl) :
    Option CQuestionAnswerImpl :=
  (findQustionAnswerContext rt b.regs.disk gid (fun ctx => (ctx, ctx)) b.clsQuestionBank).1

/-- Which store the search hands out does not depend on what is done with it. -/
theorem findQustionAnswerContext_answer (rt : Runtime) (disk : Disk) (gid : String)
    (use : CQuestionAnswerImpl → β × CQuestionAnswerImpl) (tree : CQuestionGroupParam) :
    (findQustionAnswerContext rt disk gid use tree).1 =
      (findQustionAnswerContext rt disk gid (fun ctx => (ctx, ctx)) tree).1.map
        fun ctx => (use ctx).1 := by
  have here : ∀ qgp : CQuestionGroupParam, (contextHere rt disk use qgp).1 =
      (contextHere rt disk (fun ctx => (ctx, ctx)) qgp).1.map fun ctx => (use ctx).1 := by
    intro qgp
    unfold contextHere
    split
    · dsimp only
      split <;> rfl
    · rfl
  have related := @search_related _ _ _ (fun grp : GroupMembers => decide (grp.strId = gid))
    (fun grp (_ : Unit) => ((contextHere rt disk use grp).1,
      (contextHere rt disk use grp).2, ()))
    Option.isNone none Unit _
    (fun grp (_ : Unit) => ((contextHere rt disk (fun ctx => (ctx, ctx)) grp).1,
      (contextHere rt disk (fun ctx => (ctx, ctx)) grp).2, ()))
    Option.isNone none
    (fun answer store => answer = store.map fun ctx => (use ctx).1) (fun _ _ => True)
    rfl (by rintro answer store rfl; cases store <;> rfl)
    (fun qgp _ _ _ => ⟨here qgp, trivial⟩) tree () () trivial
  exact related.1

/-- A call on a store that can be carried out: the store is open, and adding meets a new
id, every other call a known one. -/
def Accepts (call : QuestionCall) (ctx : CQuestionAnswerImpl) : Prop :=
  ctx.strPath ≠ [] ∧
    match call with
    | .add _ qid _ _ => KeyedList.find QuestionAnswer.id qid ctx.lstQuestions = none
    | .delete _ qid => KeyedList.find QuestionAnswer.id qid ctx.lstQuestions ≠ none
    | .query _ qid => KeyedList.find QuestionAnswer.id qid ctx.lstQuestions ≠ none
    | .update _ qid _ _ => KeyedList.find QuestionAnswer.id qid ctx.lstQuestions ≠ none

/-- A store answers true exactly to a call it accepts. -/
theorem useStore_iff (call : QuestionCall) (ctx : CQuestionAnswerImpl) :
    (call.useStore ctx).1.1 = true ↔ Accepts call ctx := by
  unfold Accepts
  by_cases opened : ctx.strPath = []
  · apply iff_of_false
    · cases call with
      | add gid qid question answer =>
          rw [QuestionCall.useStore, CQuestionAnswerImpl.addQuestion, if_pos opened]
          simp [CQuestionAnswerImpl.notOpened, CQuestionAnswerImpl.refuse]
      | delete gid qid =>
          rw [QuestionCall.useStore, CQuestionAnswerImpl.deleteQuestion, if_pos opened]
          simp [CQuestionAnswerImpl.notOpened, CQuestionAnswerImpl.refuse]
      | query gid qid =>
          rw [QuestionCall.useStore, CQuestionAnswerImpl.queryQuestion, if_pos opened]
          simp
      | update gid qid question answer =>
          rw [QuestionCall.useStore, CQuestionAnswerImpl.updateQuestion, if_pos opened]
          simp [CQuestionAnswerImpl.notOpened, CQuestionAnswerImpl.refuse]
    · exact fun both => both.1 opened
  · simp only [ne_eq, opened, not_false_eq_true, true_and]
    cases call with
    | add gid qid question answer =>
        simp only [QuestionCall.useStore]
        rcases CQuestionAnswerImpl.addQuestion_cases opened
            { strGroup := gid, strId := qid, strQuestion := question, strAnswer := answer }
          with ⟨⟨qa, found⟩, refused, _⟩ | ⟨absent, done⟩
        · rw [refused]
          simp [show KeyedList.find QuestionAnswer.id qid ctx.lstQuestions = some qa from found]
        · rw [done]
          exact iff_of_true rfl absent
    | delete gid qid =>
        simp only [QuestionCall.useStore]
        rcases CQuestionAnswerImpl.deleteQuestion_cases opened qid
          with ⟨absent, refused, _⟩ | ⟨before, x, after, _, found, _, done⟩
        · rw [refused, absent]
          simp
        · rw [done, found]
          simp
    | query gid qid =>
        rw [QuestionCall.useStore, CQuestionAnswerImpl.queryQuestion_eq opened]
        cases found : KeyedList.find QuestionAnswer.id qid ctx.lstQuestions with
        | none => exact iff_of_false (by simp) (fun known => known found)
        | some qa => exact iff_of_true rfl (by simp [found])
    | update gid qid question answer =>
        simp only [QuestionCall.useStore]
        rcases CQuestionAnswerImpl.updateQuestion_cases opened
            { strGroup := gid, strId := qid, strQuestion := question, strAnswer := answer }
          with ⟨absent, refused, _⟩ | ⟨before, x, after, _, found, _, done⟩
        · simp only at refused absent
          rw [refused, absent]
          simp
        · simp only at done found
          rw [done, found]
          simp

/-- What a question operation of the bank answers and leaves in the error text: a text of
its own without a store, and the old text when a store was handed out. -/
theorem withContext_text (rt : Runtime) (gid : String)
    (use : CQuestionAnswerImpl → β × CQuestionAnswerImpl) (b : CQuestionBankImpl) :
    (∃ text, ∀ message, ((b.withMessage message).withContext rt gid use).1 = none ∧
        ((b.withMessage message).withContext rt gid use).2.regs.strErrorMsg = text) ∧
        ¬ (b.regs.mapIds.contains gid = true ∧ (b.storeFor rt gid).isSome = true) ∨
      ∃ ctx, b.regs.mapIds.contains gid = true ∧ b.storeFor rt gid = some ctx ∧
        ∀ message, ((b.withMessage message).withContext rt gid use).1 = some (use ctx).1 ∧
          ((b.withMessage message).withContext rt gid use).2.regs.strErrorMsg = message := by
  cases known : b.regs.mapIds.contains gid with
  | false =>
      left
      refine ⟨⟨formatted (utf8 "Found group id '" ++ cString gid ++ utf8 "' failed"), ?_⟩,
        by simp⟩
      intro message
      unfold withContext
      rw [if_pos (show (b.withMessage message).regs.mapIds.contains gid = false from known)]
      exact ⟨rfl, rfl⟩
  | true =>
      have handed := findQustionAnswerContext_answer rt b.regs.disk gid use b.clsQuestionBank
      change _ = (b.storeFor rt gid).map _ at handed
      rcases search : findQustionAnswerContext rt b.regs.disk gid use b.clsQuestionBank
        with ⟨answer, tree⟩
      have same : ∀ message, findQustionAnswerContext rt (b.withMessage message).regs.disk gid
          use (b.withMessage message).clsQuestionBank = (answer, tree) := fun _ => search
      rw [search] at handed
      cases store : b.storeFor rt gid with
      | none =>
          left
          rw [store] at handed
          obtain rfl : answer = none := handed
          refine ⟨⟨formatted (utf8 "Found context by group id '" ++ cString gid ++
            utf8 "' failed"), ?_⟩, by simp⟩
          intro message
          unfold withContext
          rw [if_neg (by simp [withMessage, known]), same message]
          exact ⟨rfl, rfl⟩
      | some ctx =>
          right
          rw [store] at handed
          obtain rfl : answer = some (use ctx).1 := handed
          refine ⟨ctx, rfl, rfl, ?_⟩
          intro message
          unfold withContext
          rw [if_neg (by simp [withMessage, known]), same message]
          exact ⟨rfl, rfl⟩

end CQuestionBankImpl

open CQuestionBankImpl

/-- The text that `err` gives after a call returned false does not depend on the text
that was there before it. -/
def BankCall.ReportsOwnFailure (rt : Runtime) (call : BankCall) (b : CQuestionBankImpl) :
    Prop :=
  ∀ message message', (call.perform rt (b.withMessage message)).1 = .value false →
    (call.perform rt (b.withMessage message)).2.err =
      (call.perform rt (b.withMessage message')).2.err

/-- No store is handed out to a question call, or the store accepts it. -/
def QuestionCall.Reaches (rt : Runtime) (call : QuestionCall) (b : CQuestionBankImpl) : Prop :=
  b.regs.mapIds.contains call.gid = true → ∀ ctx, b.storeFor rt call.gid = some ctx →
    Accepts call ctx

/-- A group call is refused by the check of the id and the name, or finds a group that
has the parent id. -/
def GroupCall.Reaches (call : GroupCall) (b : CQuestionBankImpl) : Prop :=
  match call with
  | .add pid name id =>
      b.regs.mapIds.contains id = true ∨ b.regs.mapIds.hasName name = true ∨
        ∃ grp ∈ b.clsQuestionBank.preorder, isTarget pid grp = true
  | .delete pid _ => ∃ grp ∈ b.clsQuestionBank.preorder, isTarget pid grp = true
  | .update pid _ _ => ∃ grp ∈ b.clsQuestionBank.preorder, isTarget pid grp = true

/-- The condition on a call and the state before it. -/
def BankCall.Reaches (rt : Runtime) (call : BankCall) (b : CQuestionBankImpl) : Prop :=
  match call with
  | .question call => call.Reaches rt b
  | .group call => call.Reaches b

theorem getD_eq_elim (answer : Option Bool) : answer.getD false = answer.elim false id := by
  cases answer <;> rfl

theorem fst_getD_eq_elim (answer : Option QuestionResult) :
    (answer.getD (false, none)).1 = answer.elim false Prod.fst := by
  cases answer <;> rfl

/-- A question operation reports its own failure exactly when no store is handed out or
what is done with the store succeeds. -/
theorem withContext_reports_iff (rt : Runtime) (gid : String)
    (use : CQuestionAnswerImpl → β × CQuestionAnswerImpl) (succeeds : β → Bool)
    (b : CQuestionBankImpl) :
    (∀ message message',
        ((b.withMessage message).withContext rt gid use).1.elim false succeeds = false →
        ((b.withMessage message).withContext rt gid use).2.err =
          ((b.withMessage message').withContext rt gid use).2.err) ↔
      (b.regs.mapIds.contains gid = true → ∀ ctx, b.storeFor rt gid = some ctx →
        succeeds (use ctx).1 = true) := by
  rcases withContext_text rt gid use b with ⟨⟨text, own⟩, noStore⟩ | ⟨ctx, known, store, old⟩
  · apply iff_of_true
    · intro message message' _
      rw [err, err, (own message).2, (own message').2]
    · intro known ctx store
      exact absurd ⟨known, by rw [store]; rfl⟩ noStore
  · constructor
    · intro reports _ ctx' store'
      rw [store] at store'
      cases store'
      by_contra refused
      have stale := reports [] [97] (by rw [(old []).1]; simpa using refused)
      rw [err, err, (old []).2, (old [97]).2] at stale
      exact absurd stale (by decide)
    · intro accepted message message' failed
      rw [(old message).1] at failed
      have succeeded := accepted known ctx store
      rw [Option.elim_some, succeeded] at failed
      cases failed

/-- A question call reports its own failure exactly when no store is handed out to it or
the store accepts it. -/
theorem QuestionCall.reports_iff (rt : Runtime) (call : QuestionCall)
    (b : CQuestionBankImpl) :
    (BankCall.question call).ReportsOwnFailure rt b ↔ call.Reaches rt b := by
  have accepts := useStore_iff call
  unfold Reaches
  simp only [← accepts]
  cases call with
  | add gid qid question answer =>
      have reports := withContext_reports_iff rt gid (fun ctx => ctx.addQuestion
        { strGroup := gid, strId := qid, strQuestion := question, strAnswer := answer }) id b
      refine Iff.trans ?_ reports
      simp only [BankCall.ReportsOwnFailure, BankCall.perform, QuestionCall.perform,
        addQuestion, getD_eq_elim, Outcome.value.injEq]
  | delete gid qid =>
      have reports := withContext_reports_iff rt gid (fun ctx => ctx.deleteQuestion qid) id b
      refine Iff.trans ?_ reports
      simp only [BankCall.ReportsOwnFailure, BankCall.perform, QuestionCall.perform,
        deleteQuestion, getD_eq_elim, Outcome.value.injEq]
  | query gid qid =>
      have reports :=
        withContext_reports_iff rt gid (fun ctx => ctx.queryQuestion qid) Prod.fst b
      refine Iff.trans ?_ reports
      simp only [BankCall.ReportsOwnFailure, BankCall.perform, QuestionCall.perform,
        queryQuestion, fst_getD_eq_elim, Outcome.value.injEq]
  | update gid qid question answer =>
      have reports := withContext_reports_iff rt gid (fun ctx => ctx.updateQuestion qid
        { strGroup := gid, strId := qid, strQuestion := question, strAnswer := answer }) id b
      refine Iff.trans ?_ reports
      simp only [BankCall.ReportsOwnFailure, BankCall.perform, QuestionCall.perform,
        updateQuestion, getD_eq_elim, Outcome.value.injEq]

/-- A private operation run from the root reports its own failure exactly when some group
has the parent id. -/
theorem ctrlRoot_reports_iff (rt : Runtime) (pid gid name : String) {type : GroupCtrlType}
    (isOperation : type ≠ .none ∧ type ≠ .max) (b : CQuestionBankImpl) :
    (∀ message message',
        ((b.withMessage message).ctrlRoot rt pid gid name type).1 = .value false →
        ((b.withMessage message).ctrlRoot rt pid gid name type).2.err =
          ((b.withMessage message').ctrlRoot rt pid gid name type).2.err) ↔
      ∃ grp ∈ b.clsQuestionBank.preorder, isTarget pid grp = true := by
  constructor
  · intro reports
    by_contra noTarget
    have missed : ∀ message, ∀ grp ∈ (b.withMessage message).clsQuestionBank.preorder,
        isTarget pid grp = false := by
      intro message
      simpa [withMessage] using noTarget
    have old : ∀ message, (b.withMessage message).ctrlRoot rt pid gid name type =
        (.value false, b.withMessage message) := by
      intro message
      rw [ctrlRoot, Registers.ctrlGroup_of_no_target rt (missed message)]
    have stale := reports [] [97] (by rw [old])
    rw [old, old] at stale
    exact absurd stale (by simp [err, withMessage])
  · intro someTarget message message' failed
    have same := Registers.ctrlGroup_sameFailure rt gid name isOperation someTarget
      (show Registers.TextOnly (b.withMessage message).regs (b.withMessage message').regs from
        ⟨message', rfl⟩) failed
    exact congrArg (fun r : Registers => r.strErrorMsg.takeWhile (· ≠ 0)) same

/-- A group call reports its own failure exactly when a check refuses it or some group has
the parent id. -/
theorem GroupCall.reports_iff (rt : Runtime) (call : GroupCall)
    (b : CQuestionBankImpl) :
    (BankCall.group call).ReportsOwnFailure rt b ↔ call.Reaches b := by
  unfold BankCall.ReportsOwnFailure
  cases call with
  | add pid name id =>
      cases knownId : b.regs.mapIds.contains id with
      | true =>
          apply iff_of_true
          · intro message message' _
            simp only [BankCall.perform, GroupCall.perform, addGroup, withMessage, knownId]
            rfl
          · exact Or.inl knownId
      | false =>
          cases knownName : b.regs.mapIds.hasName name with
          | true =>
              apply iff_of_true
              · intro message message' _
                simp only [BankCall.perform, GroupCall.perform, addGroup, withMessage, knownId,
                  knownName]
                rfl
              · exact Or.inr (Or.inl knownName)
          | false =>
              have passes : ∀ message, (b.withMessage message).addGroup rt pid name id =
                  (b.withMessage message).ctrlRoot rt pid id name .add := by
                intro message
                rw [addGroup, if_neg (by simp [withMessage, knownId]),
                  if_neg (by simp [withMessage, knownName])]
              simp only [BankCall.perform, GroupCall.perform, passes, Reaches, knownId,
                knownName, Bool.false_eq_true, false_or]
              exact ctrlRoot_reports_iff rt pid id name (by simp) b
  | delete pid id => exact ctrlRoot_reports_iff rt pid id "" (by simp) b
  | update pid id name => exact ctrlRoot_reports_iff rt pid id name (by simp) b

/-- A failed call leaves an error text of its own exactly when it reaches the code that
writes one: no store that refuses it is handed out to a question call, and a group call is
refused by a check or finds a group with the parent id. -/
theorem BankCall.reportsOwnFailure_iff (rt : Runtime) (call : BankCall)
    (b : CQuestionBankImpl) :
    call.ReportsOwnFailure rt b ↔ call.Reaches rt b := by
  cases call with
  | question call => exact call.reports_iff rt b
  | group call => exact call.reports_iff rt b

/-- A repeated question id is refused by the store of the group, and `err` gives whatever
the bank reported before. -/
theorem repeated_question_stale :
    let call := BankCall.question (.add "w" "q" "?" "!")
    let filled := (call.perform .wire agreeingBank).2
    let first := call.perform .wire (filled.withMessage [97])
    let second := call.perform .wire (filled.withMessage [98])
    first.1 = .value false ∧ second.1 = .value false ∧
      first.2.err = [97] ∧ second.2.err = [98] ∧
      ¬ call.ReportsOwnFailure .wire filled := by
  intro call filled first second
  have stale : first.1 = .value false ∧ second.1 = .value false ∧
      first.2.err = [97] ∧ second.2.err = [98] := by
    decide +kernel
  obtain ⟨firstFails, secondFails, firstText, secondText⟩ := stale
  refine ⟨firstFails, secondFails, firstText, secondText, ?_⟩
  intro reports
  have same : first.2.err = second.2.err := reports [97] [98] firstFails
  rw [firstText, secondText] at same
  exact absurd same (by decide)

end Notebook
