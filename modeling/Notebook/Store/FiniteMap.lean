import Notebook.Library.Runs
import Notebook.Store.Records

/-!
# A store is a pair of finite maps

Whatever calls an opened store gets, its two lists hold the entries of two maps by id,
each once, in an order that only deletions disturb. Calls for questions act on one map
and calls for groups on the other. A store that was not opened refuses every call.
-/

namespace Notebook

open KeyedList

/-- A call of one of the operations of a store. -/
inductive StoreCall
  | addQuestion (qap : CQuestionAnswerParam)
  | deleteQuestion (qid : String)
  | updateQuestion (qid : String) (dst : CQuestionAnswerParam)
  | queryQuestion (qid : String)
  | addGroup (gid name : String)
  | deleteGroup (gid : String)
  | updateGroup (gid name : String)
  deriving DecidableEq, Repr

/-- The maps of a store by id. -/
structure StoreMaps where
  questions : String → Option QuestionAnswer
  groups : String → Option QuestionAnswerGroup

namespace CQuestionAnswerImpl

/-- The records of groups of a store by id. -/
def groupMap (impl : CQuestionAnswerImpl) : String → Option QuestionAnswerGroup :=
  fun gid => find QuestionAnswerGroup.id gid impl.lstGroups

/-- Both maps of a store. -/
def maps (impl : CQuestionAnswerImpl) : StoreMaps :=
  ⟨impl.questionMap, impl.groupMap⟩

/-- The lists of an opened store hold the entries of two maps. -/
structure Represents (impl : CQuestionAnswerImpl) (m : StoreMaps) : Prop where
  opened : impl.strPath ≠ []
  questions : Lists QuestionAnswer.id impl.lstQuestions m.questions
  groups : Lists QuestionAnswerGroup.id impl.lstGroups m.groups

end CQuestionAnswerImpl

namespace StoreCall

open CQuestionAnswerImpl

/-- Run a call on a store. A query also gives the answer it wrote. -/
def perform : Machine StoreCall CQuestionAnswerImpl (Bool × Option String)
  | .addQuestion qap, impl =>
      (((impl.addQuestion qap).1, none), (impl.addQuestion qap).2)
  | .deleteQuestion qid, impl =>
      (((impl.deleteQuestion qid).1, none), (impl.deleteQuestion qid).2)
  | .updateQuestion qid dst, impl =>
      (((impl.updateQuestion qid dst).1, none), (impl.updateQuestion qid dst).2)
  | .queryQuestion qid, impl => impl.queryQuestion qid
  | .addGroup gid name, impl =>
      (((impl.addGroup gid name).1, none), (impl.addGroup gid name).2)
  | .deleteGroup gid, impl =>
      (((impl.deleteGroup gid).1, none), (impl.deleteGroup gid).2)
  | .updateGroup gid name, impl =>
      (((impl.updateGroup gid name).1, none), (impl.updateGroup gid name).2)

/-- Run a change of the questions on both maps. -/
def onQuestions (m : StoreMaps) (change : Bool × (String → Option QuestionAnswer)) :
    (Bool × Option String) × StoreMaps :=
  ((change.1, none), { m with questions := change.2 })

/-- Run a change of the groups on both maps. -/
def onGroups (m : StoreMaps) (change : Bool × (String → Option QuestionAnswerGroup)) :
    (Bool × Option String) × StoreMaps :=
  ((change.1, none), { m with groups := change.2 })

/-- Run a call on the maps. -/
def onMaps : Machine StoreCall StoreMaps (Bool × Option String)
  | .addQuestion qap, m =>
      onQuestions m (PartialMap.insertIfAbsent m.questions qap.strId
        { id := qap.strId, group := qap.strGroup,
          question := qap.strQuestion, answer := qap.strAnswer })
  | .deleteQuestion qid, m => onQuestions m (PartialMap.deleteIfPresent m.questions qid)
  | .updateQuestion qid dst, m =>
      if qid = dst.strId then
        onQuestions m (PartialMap.updateIfPresent m.questions qid fun qa =>
          { qa with group := dst.strGroup, question := dst.strQuestion,
                    answer := dst.strAnswer })
      else ((false, none), m)
  | .queryQuestion qid, m =>
      match m.questions qid with
      | some qa => ((true, some qa.answer), m)
      | none => ((false, none), m)
  | .addGroup gid name, m =>
      onGroups m (PartialMap.insertIfAbsent m.groups gid { id := gid, group := name })
  | .deleteGroup gid, m => onGroups m (PartialMap.deleteIfPresent m.groups gid)
  | .updateGroup gid name, m =>
      onGroups m (PartialMap.updateIfPresent m.groups gid fun qag =>
        { qag with group := name })

/-- Whether a call is for groups. -/
def isForGroups : StoreCall → Bool
  | .addGroup _ _ => true
  | .deleteGroup _ => true
  | .updateGroup _ _ => true
  | _ => false

/-- What one call keeps. A failing call keeps both lists, every call keeps the list of
the other kind, and a deletion swaps and removes inside its list. -/
structure Careful (call : StoreCall) (impl : CQuestionAnswerImpl) : Prop where
  fails : (call.perform impl).1.1 = false → SameRecords impl (call.perform impl).2
  questions : call.isForGroups = true →
    (call.perform impl).2.lstQuestions = impl.lstQuestions
  groups : call.isForGroups = false → (call.perform impl).2.lstGroups = impl.lstGroups
  questionInside : ∀ qid index, call = .deleteQuestion qid →
    impl.lstQuestions.findIdx? (fun qa => qa.id = qid) = some index →
      index < impl.lstQuestions.length ∧
        impl.lstQuestions.length - 1 < impl.lstQuestions.length ∧
        swapRemove? index impl.lstQuestions = some (call.perform impl).2.lstQuestions
  groupInside : ∀ gid index, call = .deleteGroup gid →
    impl.lstGroups.findIdx? (fun qag => qag.id = gid) = some index →
      index < impl.lstGroups.length ∧
        impl.lstGroups.length - 1 < impl.lstGroups.length ∧
        swapRemove? index impl.lstGroups = some (call.perform impl).2.lstGroups

end StoreCall

namespace CQuestionAnswerImpl

/-! ## Answers of the group calls -/

/-- Adding a group succeeds exactly for a new id. -/
theorem addGroup_answer {impl : CQuestionAnswerImpl} (opened : impl.strPath ≠ [])
    (gid name : String) :
    (impl.addGroup gid name).1 =
      (PartialMap.insertIfAbsent impl.groupMap gid { id := gid, group := name }).1 := by
  rw [addGroup, if_neg opened]
  rcases findIdx?_cases QuestionAnswerGroup.id gid impl.lstGroups with
    ⟨index, absent⟩ | ⟨before, x, after, _, index, found, _⟩
  · simp [index, PartialMap.insertIfAbsent, PartialMap.alter, groupMap, absent]
  · simp [index, PartialMap.insertIfAbsent, PartialMap.alter, groupMap, found, refuse]

/-- Deleting a group succeeds exactly for a known id. -/
theorem deleteGroup_answer {impl : CQuestionAnswerImpl} (opened : impl.strPath ≠ [])
    (gid : String) :
    (impl.deleteGroup gid).1 = (PartialMap.deleteIfPresent impl.groupMap gid).1 := by
  rw [deleteGroup, if_neg opened]
  rcases findIdx?_cases QuestionAnswerGroup.id gid impl.lstGroups with
    ⟨index, absent⟩ | ⟨before, x, after, _, index, found, _⟩
  · simp [index, PartialMap.deleteIfPresent, PartialMap.alter, groupMap, absent, refuse]
  · simp [index, PartialMap.deleteIfPresent, PartialMap.alter, groupMap, found]

/-- Updating a group succeeds exactly for a known id. -/
theorem updateGroup_answer {impl : CQuestionAnswerImpl} (opened : impl.strPath ≠ [])
    (gid name : String) :
    (impl.updateGroup gid name).1 =
      (PartialMap.updateIfPresent impl.groupMap gid fun qag =>
        { qag with group := name }).1 := by
  rw [updateGroup, if_neg opened]
  rcases findIdx?_cases QuestionAnswerGroup.id gid impl.lstGroups with
    ⟨index, absent⟩ | ⟨before, x, after, _, index, found, _⟩
  · simp [index, PartialMap.updateIfPresent, PartialMap.alter, groupMap, absent, refuse]
  · simp [index, PartialMap.updateIfPresent, PartialMap.alter, groupMap, found]

/-! ## One call -/

/-- What a group call relies on and gives: the reference change of the map of groups, and
no change of anything else. -/
structure RefinesGroups (impl : CQuestionAnswerImpl)
    (result : Bool × CQuestionAnswerImpl)
    (reference : Bool × (String → Option QuestionAnswerGroup)) : Prop where
  answer : result.1 = reference.1
  lists : Lists QuestionAnswerGroup.id result.2.lstGroups reference.2
  path : result.2.strPath = impl.strPath
  questions : result.2.lstQuestions = impl.lstQuestions
  fails : result.1 = false → result.2.lstGroups = impl.lstGroups

theorem addGroup_refines {impl : CQuestionAnswerImpl} (opened : impl.strPath ≠ [])
    (distinct : DistinctKeys QuestionAnswerGroup.id impl.lstGroups) (gid name : String) :
    RefinesGroups impl (impl.addGroup gid name)
      (PartialMap.insertIfAbsent impl.groupMap gid { id := gid, group := name }) := by
  have answer := addGroup_answer opened gid name
  rcases addGroup_cases opened gid name with ⟨⟨qag, found⟩, same⟩ | ⟨absent, done⟩
  · refine ⟨answer, ?_, same.path, same.questions, fun _ => same.groups⟩
    rw [same.groups]
    simp only [PartialMap.insertIfAbsent, PartialMap.alter, groupMap, found]
    exact lists_find distinct
  · refine ⟨answer, ?_, by rw [done], by rw [done], ?_⟩
    · rw [done]
      simp only [PartialMap.insertIfAbsent, PartialMap.alter, groupMap, absent]
      exact @Lists.append_new _ _ _ _ _ _ (lists_find distinct)
        { id := gid, group := name } absent
    · intro failed
      rw [answer] at failed
      simp [PartialMap.insertIfAbsent, PartialMap.alter, groupMap, absent] at failed

theorem deleteGroup_refines {impl : CQuestionAnswerImpl} (opened : impl.strPath ≠ [])
    (distinct : DistinctKeys QuestionAnswerGroup.id impl.lstGroups) (gid : String) :
    RefinesGroups impl (impl.deleteGroup gid)
      (PartialMap.deleteIfPresent impl.groupMap gid) := by
  have answer := deleteGroup_answer opened gid
  rcases deleteGroup_cases opened gid with
    ⟨absent, same⟩ | ⟨before, x, after, split, rfl, done⟩
  · refine ⟨answer, ?_, same.path, same.questions, fun _ => same.groups⟩
    rw [same.groups]
    simp only [PartialMap.deleteIfPresent, PartialMap.alter, groupMap, absent]
    exact lists_find distinct
  · have lists := lists_find distinct
    rw [split] at lists
    have found : impl.groupMap x.id = some x := by
      rw [groupMap, split]
      exact (lists.mem_iff x.id x).mpr ⟨by simp, rfl⟩
    refine ⟨answer, ?_, by rw [done], by rw [done], ?_⟩
    · rw [done]
      simp only [PartialMap.deleteIfPresent, PartialMap.alter, found]
      have removed := lists.remove
      rw [← split] at removed
      exact removed
    · intro failed
      rw [answer] at failed
      simp [PartialMap.deleteIfPresent, PartialMap.alter, found] at failed

theorem updateGroup_refines {impl : CQuestionAnswerImpl} (opened : impl.strPath ≠ [])
    (distinct : DistinctKeys QuestionAnswerGroup.id impl.lstGroups) (gid name : String) :
    RefinesGroups impl (impl.updateGroup gid name)
      (PartialMap.updateIfPresent impl.groupMap gid fun qag =>
        { qag with group := name }) := by
  have answer := updateGroup_answer opened gid name
  rcases updateGroup_cases opened gid name with
    ⟨absent, same⟩ | ⟨before, x, after, split, rfl, _, done⟩
  · refine ⟨answer, ?_, same.path, same.questions, fun _ => same.groups⟩
    rw [same.groups]
    simp only [PartialMap.updateIfPresent, PartialMap.alter, groupMap, absent]
    exact lists_find distinct
  · have lists := lists_find distinct
    rw [split] at lists
    have found : impl.groupMap x.id = some x := by
      rw [groupMap, split]
      exact (lists.mem_iff x.id x).mpr ⟨by simp, rfl⟩
    refine ⟨answer, ?_, by rw [done], by rw [done], ?_⟩
    · rw [done]
      simp only [PartialMap.updateIfPresent, PartialMap.alter, found]
      have replaced := Lists.replace lists
        (show QuestionAnswerGroup.id { x with group := name } = x.id from rfl)
      rw [← split] at replaced
      exact replaced
    · intro failed
      rw [answer] at failed
      simp [PartialMap.updateIfPresent, PartialMap.alter, found] at failed

/-- Changing the error text keeps the lists. -/
theorem Represents.of_same {impl impl' : CQuestionAnswerImpl} {m : StoreMaps}
    (represents : impl.Represents m) (same : SameRecords impl impl') :
    impl'.Represents m := by
  refine ⟨?_, ?_, ?_⟩
  · rw [same.path]
    exact represents.opened
  · rw [same.questions]
    exact represents.questions
  · rw [same.groups]
    exact represents.groups

/-- Updating with another id than that of the new record is refused. -/
theorem updateQuestion_of_mismatch {impl : CQuestionAnswerImpl}
    (opened : impl.strPath ≠ []) {qid : String} {dst : CQuestionAnswerParam}
    (different : qid ≠ dst.strId) :
    (impl.updateQuestion qid dst).1 = false ∧
      SameRecords impl (impl.updateQuestion qid dst).2 := by
  rw [updateQuestion, if_neg opened, if_pos different]
  exact refuse_sameRecords impl _

/-- A question call that refines a change of the map of questions. -/
theorem Represents.onQuestions {impl : CQuestionAnswerImpl} {m : StoreMaps}
    (represents : impl.Represents m)
    {result : Bool × CQuestionAnswerImpl}
    {change : Bool × (String → Option QuestionAnswer)}
    (refines : Refines impl result change) :
    result.1 = (StoreCall.onQuestions m change).1.1 ∧
      result.2.Represents (StoreCall.onQuestions m change).2 where
  left := refines.answer
  right := by
    refine ⟨?_, ?_, ?_⟩
    · rw [refines.sameFile.path]
      exact represents.opened
    · have lists := lists_find refines.distinct
      rw [show (fun k => find QuestionAnswer.id k result.2.lstQuestions) = change.2 from
        refines.map] at lists
      exact lists
    · rw [refines.sameFile.groups]
      exact represents.groups

/-- A group call that refines a change of the map of groups. -/
theorem Represents.onGroups {impl : CQuestionAnswerImpl} {m : StoreMaps}
    (represents : impl.Represents m)
    {result : Bool × CQuestionAnswerImpl}
    {change : Bool × (String → Option QuestionAnswerGroup)}
    (refines : RefinesGroups impl result change) :
    result.1 = (StoreCall.onGroups m change).1.1 ∧
      result.2.Represents (StoreCall.onGroups m change).2 where
  left := refines.answer
  right := by
    refine ⟨?_, ?_, refines.lists⟩
    · rw [refines.path]
      exact represents.opened
    · rw [refines.questions]
      exact represents.questions

end CQuestionAnswerImpl

namespace StoreCall

open CQuestionAnswerImpl

/-- One call acts on the lists as on the maps. -/
theorem perform_refines (call : StoreCall) {impl : CQuestionAnswerImpl} {m : StoreMaps}
    (represents : impl.Represents m) :
    (call.perform impl).1 = (call.onMaps m).1 ∧
      (call.perform impl).2.Represents (call.onMaps m).2 := by
  have opened := represents.opened
  have questions : m.questions = impl.questionMap := represents.questions.find_eq.symm
  have groups : m.groups = impl.groupMap := represents.groups.find_eq.symm
  have lift : ∀ {result : Bool × CQuestionAnswerImpl}
      {reference : (Bool × Option String) × StoreMaps}, reference.1.2 = none →
      result.1 = reference.1.1 ∧ result.2.Represents reference.2 →
      ((result.1, none), result.2).1 = reference.1 ∧
        ((result.1, (none : Option String)), result.2).2.Represents reference.2 := by
    intro result reference silent both
    refine ⟨?_, both.2⟩
    rw [both.1, ← silent]
  cases call with
  | addQuestion qap =>
      have refines := addQuestion_refines opened represents.questions.distinct qap
      rw [← questions] at refines
      exact lift rfl (represents.onQuestions refines)
  | deleteQuestion qid =>
      have refines := deleteQuestion_refines opened represents.questions.distinct qid
      rw [← questions] at refines
      exact lift rfl (represents.onQuestions refines)
  | updateQuestion qid dst =>
      rw [onMaps]
      by_cases same : qid = dst.strId
      · subst same
        have refines := updateQuestion_refines opened represents.questions.distinct dst
        rw [← questions] at refines
        rw [if_pos rfl]
        exact lift rfl (represents.onQuestions refines)
      · obtain ⟨refused, unchanged⟩ := updateQuestion_of_mismatch opened same
        rw [if_neg same, perform, refused]
        exact ⟨rfl, represents.of_same unchanged⟩
  | queryQuestion qid =>
      have unchanged := queryQuestion_sameRecords impl qid
      have answer := queryQuestion_eq opened qid
      have found : m.questions qid = find QuestionAnswer.id qid impl.lstQuestions := by
        rw [questions, questionMap]
      rw [← found] at answer
      rw [perform, onMaps, answer]
      cases m.questions qid with
      | none => exact ⟨rfl, represents.of_same unchanged⟩
      | some qa => exact ⟨rfl, represents.of_same unchanged⟩
  | addGroup gid name =>
      have refines := addGroup_refines opened represents.groups.distinct gid name
      rw [← groups] at refines
      exact lift rfl (represents.onGroups refines)
  | deleteGroup gid =>
      have refines := deleteGroup_refines opened represents.groups.distinct gid
      rw [← groups] at refines
      exact lift rfl (represents.onGroups refines)
  | updateGroup gid name =>
      have refines := updateGroup_refines opened represents.groups.distinct gid name
      rw [← groups] at refines
      exact lift rfl (represents.onGroups refines)

/-- A failing call keeps both lists. -/
theorem fails_sameRecords (call : StoreCall) {impl : CQuestionAnswerImpl} {m : StoreMaps}
    (represents : impl.Represents m) (failed : (call.perform impl).1.1 = false) :
    SameRecords impl (call.perform impl).2 := by
  have opened := represents.opened
  have ofGroups : ∀ {result : Bool × CQuestionAnswerImpl}
      {change : Bool × (String → Option QuestionAnswerGroup)},
      RefinesGroups impl result change → result.1 = false → SameRecords impl result.2 :=
    fun refines failed => ⟨refines.path, refines.fails failed, refines.questions⟩
  cases call with
  | addQuestion qap =>
      rcases addQuestion_cases opened qap with ⟨_, _, same⟩ | ⟨_, done⟩
      · exact same
      · rw [perform, done] at failed
        cases failed
  | deleteQuestion qid =>
      rcases deleteQuestion_cases opened qid with ⟨_, _, same⟩ | ⟨_, _, _, _, _, _, done⟩
      · exact same
      · rw [perform, done] at failed
        cases failed
  | updateQuestion qid dst =>
      by_cases equal : qid = dst.strId
      · subst equal
        rcases updateQuestion_cases opened dst with ⟨_, _, same⟩ | ⟨_, _, _, _, _, _, done⟩
        · exact same
        · rw [perform, done] at failed
          cases failed
      · exact (updateQuestion_of_mismatch opened equal).2
  | queryQuestion qid => exact queryQuestion_sameRecords impl qid
  | addGroup gid name =>
      exact ofGroups (addGroup_refines opened represents.groups.distinct gid name) failed
  | deleteGroup gid =>
      exact ofGroups (deleteGroup_refines opened represents.groups.distinct gid) failed
  | updateGroup gid name =>
      exact ofGroups (updateGroup_refines opened represents.groups.distinct gid name) failed

/-- At an index that was found, the swap with the last row and the removal of the last
row act inside the list. -/
theorem found_inside {rows : List α} {p : α → Bool} {index : Nat}
    (found : rows.findIdx? p = some index) :
    index < rows.length ∧ rows.length - 1 < rows.length ∧
      swapRemove? index rows = some (swapRemove index rows) := by
  obtain ⟨before, x, after, split, rfl, _⟩ := findIdx?_eq_some_iff_split.mp found
  have inside : before.length < rows.length := by
    rw [split, List.length_append, List.length_cons]
    omega
  exact ⟨inside, by omega, swapRemove?_eq_some_iff.mpr ⟨inside, rfl⟩⟩

/-- A deletion of a question that is found swaps and removes at its index. -/
theorem deleteQuestion_inside {impl : CQuestionAnswerImpl} (opened : impl.strPath ≠ [])
    {qid : String} {index : Nat}
    (found : impl.lstQuestions.findIdx? (fun qa => qa.id = qid) = some index) :
    index < impl.lstQuestions.length ∧
      impl.lstQuestions.length - 1 < impl.lstQuestions.length ∧
      swapRemove? index impl.lstQuestions =
        some ((deleteQuestion qid).perform impl).2.lstQuestions := by
  have done : ((deleteQuestion qid).perform impl).2.lstQuestions =
      swapRemove index impl.lstQuestions := by
    rw [perform, CQuestionAnswerImpl.deleteQuestion, if_neg opened, found]
  rw [done]
  exact found_inside found

/-- A deletion of a group that is found swaps and removes at its index. -/
theorem deleteGroup_inside {impl : CQuestionAnswerImpl} (opened : impl.strPath ≠ [])
    {gid : String} {index : Nat}
    (found : impl.lstGroups.findIdx? (fun qag => qag.id = gid) = some index) :
    index < impl.lstGroups.length ∧
      impl.lstGroups.length - 1 < impl.lstGroups.length ∧
      swapRemove? index impl.lstGroups =
        some ((deleteGroup gid).perform impl).2.lstGroups := by
  have done : ((deleteGroup gid).perform impl).2.lstGroups =
      swapRemove index impl.lstGroups := by
    rw [perform, CQuestionAnswerImpl.deleteGroup, if_neg opened, found]
  rw [done]
  exact found_inside found

/-- Every call of an opened store is careful. -/
theorem careful (call : StoreCall) {impl : CQuestionAnswerImpl} {m : StoreMaps}
    (represents : impl.Represents m) : call.Careful impl := by
  have opened := represents.opened
  refine ⟨call.fails_sameRecords represents, ?_, ?_, ?_, ?_⟩
  · intro forGroups
    cases call with
    | addGroup gid name =>
        exact (addGroup_refines opened represents.groups.distinct gid name).questions
    | deleteGroup gid =>
        exact (deleteGroup_refines opened represents.groups.distinct gid).questions
    | updateGroup gid name =>
        exact (updateGroup_refines opened represents.groups.distinct gid name).questions
    | _ => cases forGroups
  · intro forQuestions
    cases call with
    | addQuestion qap =>
        exact (addQuestion_refines opened represents.questions.distinct qap).sameFile.groups
    | deleteQuestion qid =>
        exact (deleteQuestion_refines opened represents.questions.distinct qid).sameFile.groups
    | updateQuestion qid dst =>
        by_cases equal : qid = dst.strId
        · subst equal
          exact (updateQuestion_refines opened represents.questions.distinct
            dst).sameFile.groups
        · exact (updateQuestion_of_mismatch opened equal).2.groups
    | queryQuestion qid => exact (queryQuestion_sameRecords impl qid).groups
    | _ => cases forQuestions
  · rintro qid index rfl found
    exact deleteQuestion_inside opened found
  · rintro gid index rfl found
    exact deleteGroup_inside opened found

/-- A store that was not opened refuses every call. -/
theorem perform_notOpened (call : StoreCall) {impl : CQuestionAnswerImpl}
    (notOpened : impl.strPath = []) :
    (call.perform impl).1 = (false, none) ∧ SameRecords impl (call.perform impl).2 := by
  have refused := refuse_sameRecords impl (utf8 "Not opened yet")
  cases call with
  | addQuestion qap =>
      rw [perform, CQuestionAnswerImpl.addQuestion, if_pos notOpened]
      exact ⟨rfl, refused.2⟩
  | deleteQuestion qid =>
      rw [perform, CQuestionAnswerImpl.deleteQuestion, if_pos notOpened]
      exact ⟨rfl, refused.2⟩
  | updateQuestion qid dst =>
      rw [perform, CQuestionAnswerImpl.updateQuestion, if_pos notOpened]
      exact ⟨rfl, refused.2⟩
  | queryQuestion qid =>
      rw [perform, CQuestionAnswerImpl.queryQuestion, if_pos notOpened]
      exact ⟨rfl, refused.2⟩
  | addGroup gid name =>
      rw [perform, CQuestionAnswerImpl.addGroup, if_pos notOpened]
      exact ⟨rfl, refused.2⟩
  | deleteGroup gid =>
      rw [perform, CQuestionAnswerImpl.deleteGroup, if_pos notOpened]
      exact ⟨rfl, refused.2⟩
  | updateGroup gid name =>
      rw [perform, CQuestionAnswerImpl.updateGroup, if_pos notOpened]
      exact ⟨rfl, refused.2⟩

/-! ## Runs -/

/-- A store that was not opened refuses every call of a run and keeps its lists. -/
theorem run_notOpened (calls : List StoreCall) {impl : CQuestionAnswerImpl}
    (notOpened : impl.strPath = []) :
    (perform.run calls impl).1 = calls.map (fun _ => (false, none)) ∧
      SameRecords impl (perform.run calls impl).2 := by
  induction calls generalizing impl with
  | nil => exact ⟨rfl, SameRecords.refl impl⟩
  | cons call calls inductionHypothesis =>
      obtain ⟨refused, same⟩ := call.perform_notOpened notOpened
      obtain ⟨later, sameLater⟩ := inductionHypothesis (same.path.trans notOpened)
      rw [Machine.run_cons]
      refine ⟨by rw [refused, later, List.map_cons], ?_⟩
      exact ⟨sameLater.path.trans same.path, sameLater.groups.trans same.groups,
        sameLater.questions.trans same.questions⟩

/-- Over any run of calls an opened store with distinct ids gives the answers of two
finite maps, its lists hold their entries, and every call is careful. A store that was
not opened refuses every call of the run. -/
theorem run_refines_maps (calls : List StoreCall) :
    (∀ impl : CQuestionAnswerImpl, impl.strPath ≠ [] →
      DistinctKeys QuestionAnswer.id impl.lstQuestions →
      DistinctKeys QuestionAnswerGroup.id impl.lstGroups →
        (perform.run calls impl).1 = (onMaps.run calls impl.maps).1 ∧
          (perform.run calls impl).2.Represents (onMaps.run calls impl.maps).2 ∧
          Machine.Allowed perform (fun call impl _ => call.Careful impl) calls impl) ∧
      ∀ impl : CQuestionAnswerImpl, impl.strPath = [] →
        (perform.run calls impl).1 = calls.map (fun _ => (false, none)) ∧
          SameRecords impl (perform.run calls impl).2 := by
  refine ⟨?_, fun impl notOpened => run_notOpened calls notOpened⟩
  intro impl opened questions groups
  have start : impl.Represents impl.maps := ⟨opened, lists_find questions, lists_find groups⟩
  obtain ⟨answers, final⟩ := Machine.run_simulates
    (fun call impl m represents => perform_refines call represents) calls start
  refine ⟨answers, final, ?_⟩
  clear answers final
  generalize impl.maps = m at start
  induction calls generalizing impl m with
  | nil => trivial
  | cons call calls inductionHypothesis =>
      have next := (call.perform_refines start).2
      exact ⟨call.careful start, inductionHypothesis _ next.opened next.questions.distinct
        next.groups.distinct _ next⟩

/-- A store with two questions and one group. -/
def sampleStore : CQuestionAnswerImpl where
  strPath := ["root", "Words", "w.dat"]
  lstGroups := [{ id := "v", group := "Verbs" }]
  lstQuestions :=
    [{ id := "q", group := "w", question := "ser", answer := "to be" },
      { id := "r", group := "w", question := "ir", answer := "to go" }]

theorem run_refines_maps_sampleStore :
    (perform.run [.deleteQuestion "q", .addGroup "v" "Nouns", .queryQuestion "r"]
        sampleStore).1 = [(true, none), (false, none), (true, some "to go")] ∧
      Machine.Allowed perform (fun call impl _ => call.Careful impl)
        [.deleteQuestion "q", .addGroup "v" "Nouns", .queryQuestion "r"] sampleStore := by
  have refines := (run_refines_maps
    [.deleteQuestion "q", .addGroup "v" "Nouns", .queryQuestion "r"]).1 sampleStore
    (by decide) (by simp [DistinctKeys, sampleStore]) (by simp [DistinctKeys, sampleStore])
  exact ⟨refines.1.trans (by decide +kernel), refines.2.2⟩

end StoreCall

end Notebook
