import Notebook.Model.QuestionAnswerImpl

/-!
# What the record operations of a store do

Each operation of an opened store either refuses and leaves both lists alone, or
changes one list at one row. The question operations are then read as the
reference operations on the partial map from question ids to records.
-/

namespace Notebook

open KeyedList

/-- The record that `addQuestion` stores. -/
def CQuestionAnswerParam.record (qap : CQuestionAnswerParam) : QuestionAnswer :=
  { id := qap.strId, group := qap.strGroup,
    question := qap.strQuestion, answer := qap.strAnswer }

/-- The record that `updateQuestion` writes over an old one. -/
def CQuestionAnswerParam.overwrite (dst : CQuestionAnswerParam)
    (qa : QuestionAnswer) : QuestionAnswer :=
  { qa with group := dst.strGroup, question := dst.strQuestion,
            answer := dst.strAnswer }

@[simp] theorem CQuestionAnswerParam.record_id (qap : CQuestionAnswerParam) :
    qap.record.id = qap.strId := rfl

@[simp] theorem CQuestionAnswerParam.overwrite_id
    (dst : CQuestionAnswerParam)
    (qa : QuestionAnswer) :
    (dst.overwrite qa).id = qa.id := rfl

namespace CQuestionAnswerImpl

/-- Two states of a store that agree in everything but the error text. -/
structure SameRecords (impl impl' : CQuestionAnswerImpl) : Prop where
  path : impl'.strPath = impl.strPath
  groups : impl'.lstGroups = impl.lstGroups
  questions : impl'.lstQuestions = impl.lstQuestions

/-- Two states of a store that agree in everything but the questions and the
error text. -/
structure SameFile (impl impl' : CQuestionAnswerImpl) : Prop where
  path : impl'.strPath = impl.strPath
  groups : impl'.lstGroups = impl.lstGroups

theorem SameRecords.sameFile {impl impl' : CQuestionAnswerImpl}
    (same : SameRecords impl impl') : SameFile impl impl' :=
  ⟨same.path, same.groups⟩

theorem SameRecords.refl (impl : CQuestionAnswerImpl) : SameRecords impl impl :=
  ⟨rfl, rfl, rfl⟩

theorem refuse_sameRecords (impl : CQuestionAnswerImpl) (message : Bytes) :
    (impl.refuse message).1 = false ∧ SameRecords impl (impl.refuse message).2 :=
  ⟨rfl, rfl, rfl, rfl⟩

/-! ## Questions -/

/-- Adding a question refuses a known id and appends a new one. -/
theorem addQuestion_cases {impl : CQuestionAnswerImpl}
    (opened : impl.strPath ≠ [])
    (qap : CQuestionAnswerParam) :
    ((∃ qa, find QuestionAnswer.id qap.strId impl.lstQuestions = some qa) ∧
        (impl.addQuestion qap).1 = false ∧
        SameRecords impl (impl.addQuestion qap).2) ∨
      (find QuestionAnswer.id qap.strId impl.lstQuestions = none ∧
        impl.addQuestion qap =
          (true, { impl with lstQuestions := impl.lstQuestions ++ [qap.record] })) := by
  rw [addQuestion, if_neg opened]
  rcases findIdx?_cases QuestionAnswer.id qap.strId impl.lstQuestions with
    ⟨index, absent⟩ | ⟨before, x, after, _, index, found, _⟩
  · exact Or.inr ⟨absent, by simp only [index]; rfl⟩
  · refine Or.inl ⟨⟨x, found⟩, ?_⟩
    simp only [index]
    exact refuse_sameRecords impl _

/-- Deleting a question refuses an unknown id and moves the last question into
the place of a known one. -/
theorem deleteQuestion_cases {impl : CQuestionAnswerImpl}
    (opened : impl.strPath ≠ [])
    (qid : String) :
    (find QuestionAnswer.id qid impl.lstQuestions = none ∧
        (impl.deleteQuestion qid).1 = false ∧
        SameRecords impl (impl.deleteQuestion qid).2) ∨
      ∃ before x after, impl.lstQuestions = before ++ x :: after ∧
        find QuestionAnswer.id qid impl.lstQuestions = some x ∧ x.id = qid ∧
        impl.deleteQuestion qid =
          (true, { impl with
            lstQuestions := before ++ (after.getLast?.toList ++ after.dropLast) }) := by
  rw [deleteQuestion, if_neg opened]
  rcases findIdx?_cases QuestionAnswer.id qid impl.lstQuestions with
    ⟨index, absent⟩ | ⟨before, x, after, split, index, found, key, _⟩
  · refine Or.inl ⟨absent, ?_⟩
    simp only [index]
    exact refuse_sameRecords impl _
  · refine Or.inr ⟨before, x, after, split, found, key, ?_⟩
    simp only [index]
    rw [split, swapRemove_append_cons]

/-- Updating a question refuses an unknown id and rewrites a known one in
place. -/
theorem updateQuestion_cases {impl : CQuestionAnswerImpl}
    (opened : impl.strPath ≠ [])
    (dst : CQuestionAnswerParam) :
    (find QuestionAnswer.id dst.strId impl.lstQuestions = none ∧
        (impl.updateQuestion dst.strId dst).1 = false ∧
        SameRecords impl (impl.updateQuestion dst.strId dst).2) ∨
      ∃ before x after, impl.lstQuestions = before ++ x :: after ∧
        find QuestionAnswer.id dst.strId impl.lstQuestions = some x ∧
        x.id = dst.strId ∧
        impl.updateQuestion dst.strId dst =
          (true, { impl with lstQuestions := before ++ dst.overwrite x :: after }) := by
  rw [updateQuestion, if_neg opened, if_neg (by simp)]
  rcases findIdx?_cases QuestionAnswer.id dst.strId impl.lstQuestions with
    ⟨index, absent⟩ | ⟨before, x, after, split, index, found, key, _⟩
  · refine Or.inl ⟨absent, ?_⟩
    simp only [index]
    exact refuse_sameRecords impl _
  · refine Or.inr ⟨before, x, after, split, found, key, ?_⟩
    simp only [index]
    rw [split, modify_append_cons]
    rfl

/-- Querying answers from the record found and changes no record. -/
theorem queryQuestion_eq {impl : CQuestionAnswerImpl}
    (opened : impl.strPath ≠ [])
    (qid : String) :
    (impl.queryQuestion qid).1 =
        match find QuestionAnswer.id qid impl.lstQuestions with
        | some qa => (true, some qa.answer)
        | none => (false, none) := by
  rw [queryQuestion, if_neg opened, find]
  split <;> rename_i found <;> simp [found]

theorem queryQuestion_sameRecords (impl : CQuestionAnswerImpl) (qid : String) :
    SameRecords impl (impl.queryQuestion qid).2 := by
  unfold queryQuestion
  split
  · exact (refuse_sameRecords impl _).2
  · split
    · exact (refuse_sameRecords impl _).2
    · exact SameRecords.refl impl

/-- Deleting a question of a store with distinct ids takes out this question. -/
theorem deleteQuestion_of_split {impl : CQuestionAnswerImpl}
    (opened : impl.strPath ≠ [])
    (distinct : DistinctKeys QuestionAnswer.id impl.lstQuestions)
    {before after : List QuestionAnswer}
    {qa : QuestionAnswer}
    (split : impl.lstQuestions = before ++ qa :: after) :
    impl.deleteQuestion qa.id =
      (true, { impl with
        lstQuestions := before ++ (after.getLast?.toList ++ after.dropLast) }) := by
  rw [deleteQuestion, if_neg opened]
  rw [split] at distinct ⊢
  simp only [distinct.findIdx?_eq, swapRemove_append_cons]

/-- Updating a question of a store with distinct ids rewrites this question. -/
theorem updateQuestion_of_split {impl : CQuestionAnswerImpl}
    (opened : impl.strPath ≠ [])
    (distinct : DistinctKeys QuestionAnswer.id impl.lstQuestions)
    {before after : List QuestionAnswer}
    {qa : QuestionAnswer}
    (split : impl.lstQuestions = before ++ qa :: after)
    {dst : CQuestionAnswerParam}
    (sameId : dst.strId = qa.id) :
    impl.updateQuestion qa.id dst =
      (true, { impl with lstQuestions := before ++ dst.overwrite qa :: after }) := by
  rw [updateQuestion, if_neg opened, if_neg (by simp [sameId])]
  rw [split] at distinct ⊢
  simp only [distinct.findIdx?_eq, modify_append_cons]
  rfl

/-! ## Groups -/

/-- Adding a group refuses a known id and appends a new record. -/
theorem addGroup_cases {impl : CQuestionAnswerImpl}
    (opened : impl.strPath ≠ [])
    (gid name : String) :
    ((∃ qag, find QuestionAnswerGroup.id gid impl.lstGroups = some qag) ∧
        SameRecords impl (impl.addGroup gid name).2) ∨
      (find QuestionAnswerGroup.id gid impl.lstGroups = none ∧
        (impl.addGroup gid name).2 =
          { impl with lstGroups := impl.lstGroups ++ [{ id := gid, group := name }] }) := by
  rw [addGroup, if_neg opened]
  rcases findIdx?_cases QuestionAnswerGroup.id gid impl.lstGroups with
    ⟨index, absent⟩ | ⟨before, x, after, _, index, found, _⟩
  · exact Or.inr ⟨absent, by simp only [index]⟩
  · refine Or.inl ⟨⟨x, found⟩, ?_⟩
    simp only [index]
    exact (refuse_sameRecords impl _).2

/-- Deleting a group refuses an unknown id and moves the last record into the place
of a known one. -/
theorem deleteGroup_cases {impl : CQuestionAnswerImpl}
    (opened : impl.strPath ≠ [])
    (gid : String) :
    (find QuestionAnswerGroup.id gid impl.lstGroups = none ∧
        SameRecords impl (impl.deleteGroup gid).2) ∨
      ∃ before x after, impl.lstGroups = before ++ x :: after ∧ x.id = gid ∧
        (impl.deleteGroup gid).2 =
          { impl with
            lstGroups := before ++ (after.getLast?.toList ++ after.dropLast) } := by
  rw [deleteGroup, if_neg opened]
  rcases findIdx?_cases QuestionAnswerGroup.id gid impl.lstGroups with
    ⟨index, absent⟩ | ⟨before, x, after, split, index, _, key, _⟩
  · refine Or.inl ⟨absent, ?_⟩
    simp only [index]
    exact (refuse_sameRecords impl _).2
  · refine Or.inr ⟨before, x, after, split, key, ?_⟩
    simp only [index]
    rw [split, swapRemove_append_cons]

/-- Updating a group refuses an unknown id and renames the record of a known one in
place. -/
theorem updateGroup_cases {impl : CQuestionAnswerImpl}
    (opened : impl.strPath ≠ [])
    (gid name : String) :
    (find QuestionAnswerGroup.id gid impl.lstGroups = none ∧
        SameRecords impl (impl.updateGroup gid name).2) ∨
      ∃ before x after, impl.lstGroups = before ++ x :: after ∧ x.id = gid ∧
        (∀ other ∈ before, other.id ≠ gid) ∧
        (impl.updateGroup gid name).2 =
          { impl with lstGroups := before ++ { x with group := name } :: after } := by
  rw [updateGroup, if_neg opened]
  rcases findIdx?_cases QuestionAnswerGroup.id gid impl.lstGroups with
    ⟨index, absent⟩ | ⟨before, x, after, split, index, _, key, first⟩
  · refine Or.inl ⟨absent, ?_⟩
    simp only [index]
    exact (refuse_sameRecords impl _).2
  · refine Or.inr ⟨before, x, after, split, key, first, ?_⟩
    simp only [index]
    rw [split, modify_append_cons]

/-! ## The partial map of a store -/

/-- The records of a store by question id. -/
def questionMap (impl : CQuestionAnswerImpl) : String → Option QuestionAnswer :=
  fun qid => find QuestionAnswer.id qid impl.lstQuestions

theorem questionMap_eq_find {impl : CQuestionAnswerImpl}
    {rows : List QuestionAnswer}
    (equal : impl.lstQuestions = rows) :
    impl.questionMap = fun qid => find QuestionAnswer.id qid rows := by
  unfold questionMap
  rw [equal]

theorem SameRecords.questionMap_eq {impl impl' : CQuestionAnswerImpl}
    (same : SameRecords impl impl') : impl'.questionMap = impl.questionMap := by
  unfold questionMap
  rw [same.questions]

/-- An operation on an opened store with distinct ids that acts on the partial
map of the store as a reference operation and touches nothing else. -/
structure Refines (impl : CQuestionAnswerImpl)
    (result : Bool × CQuestionAnswerImpl)
    (reference : Bool × (String → Option QuestionAnswer)) : Prop where
  answer : result.1 = reference.1
  map : result.2.questionMap = reference.2
  distinct : DistinctKeys QuestionAnswer.id result.2.lstQuestions
  sameFile : SameFile impl result.2

theorem Refines.of_refused {impl : CQuestionAnswerImpl}
    {result : Bool × CQuestionAnswerImpl}
    {reference : Bool × (String → Option QuestionAnswer)}
    (distinct : DistinctKeys QuestionAnswer.id impl.lstQuestions)
    (refused : result.1 = false)
    (same : SameRecords impl result.2)
    (expected : reference = (false, impl.questionMap)) :
    Refines impl result reference where
  answer := by rw [refused, expected]
  map := by rw [same.questionMap_eq, expected]
  distinct := by rw [same.questions]; exact distinct
  sameFile := same.sameFile

theorem addQuestion_refines {impl : CQuestionAnswerImpl}
    (opened : impl.strPath ≠ [])
    (distinct : DistinctKeys QuestionAnswer.id impl.lstQuestions)
    (qap : CQuestionAnswerParam) :
    Refines impl (impl.addQuestion qap)
      (PartialMap.insertIfAbsent impl.questionMap qap.strId qap.record) := by
  rcases addQuestion_cases opened qap with
    ⟨⟨qa, found⟩, refused, same⟩ | ⟨absent, done⟩
  · apply Refines.of_refused distinct refused same
    simp [PartialMap.insertIfAbsent, PartialMap.alter, questionMap, found]
  · rw [done]
    have isNew : find QuestionAnswer.id qap.record.id impl.lstQuestions = none := absent
    refine ⟨?_, ?_, distinct.append_new isNew, rfl, rfl⟩
    · simp [PartialMap.insertIfAbsent, PartialMap.alter, questionMap, absent]
    · simp only [PartialMap.insertIfAbsent, PartialMap.alter, questionMap, absent]
      exact find_append_new isNew

theorem deleteQuestion_refines {impl : CQuestionAnswerImpl}
    (opened : impl.strPath ≠ [])
    (distinct : DistinctKeys QuestionAnswer.id impl.lstQuestions)
    (qid : String) :
    Refines impl (impl.deleteQuestion qid)
      (PartialMap.deleteIfPresent impl.questionMap qid) := by
  rcases deleteQuestion_cases opened qid with
    ⟨absent, refused, same⟩ | ⟨before, x, after, split, found, rfl, done⟩
  · apply Refines.of_refused distinct refused same
    simp [PartialMap.deleteIfPresent, PartialMap.alter, questionMap, absent]
  · rw [done]
    rw [split] at distinct
    have perm := swapRemove_perm before x after
    rw [swapRemove_append_cons] at perm
    have rest := distinct.append_sublist
    refine ⟨?_, ?_, rest.perm perm.symm, rfl, rfl⟩
    · simp [PartialMap.deleteIfPresent, PartialMap.alter, questionMap, found]
    · have map := find_remove distinct
      rw [← questionMap_eq_find split] at map
      simp only [PartialMap.deleteIfPresent, PartialMap.alter, questionMap, found]
      rw [← map]
      funext k
      exact (find_perm rest perm.symm k).symm

theorem updateQuestion_refines {impl : CQuestionAnswerImpl}
    (opened : impl.strPath ≠ [])
    (distinct : DistinctKeys QuestionAnswer.id impl.lstQuestions)
    (dst : CQuestionAnswerParam) :
    Refines impl (impl.updateQuestion dst.strId dst)
      (PartialMap.updateIfPresent impl.questionMap dst.strId dst.overwrite) := by
  rcases updateQuestion_cases opened dst with
    ⟨absent, refused, same⟩ | ⟨before, x, after, split, found, key, done⟩
  · apply Refines.of_refused distinct refused same
    simp [PartialMap.updateIfPresent, PartialMap.alter, questionMap, absent]
  · rw [done]
    rw [split] at distinct
    refine ⟨?_, ?_, ?_, rfl, rfl⟩
    · simp [PartialMap.updateIfPresent, PartialMap.alter, questionMap, found]
    · have map := find_replace distinct (y := dst.overwrite x) rfl
      rw [← questionMap_eq_find split, key] at map
      simp only [PartialMap.updateIfPresent, PartialMap.alter, questionMap, found]
      rw [← map]
      rfl
    · simpa [DistinctKeys] using distinct

end CQuestionAnswerImpl

end Notebook
