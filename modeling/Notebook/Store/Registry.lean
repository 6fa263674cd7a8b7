import Notebook.Model.NotebookImpl
import Notebook.Store.Records

/-!
# The two copies of the registry

A bank keeps the names of its groups twice: in the map of ids, and in the records of
`ids.dat`. Each private group operation changes both, one after the other.
-/

namespace Notebook

/-! ## The map of ids -/

namespace IdMap

theorem contains_iff {map : IdMap} {id : String} :
    map.contains id = true ↔ id ∈ map.map Prod.fst := by
  simp [contains]

theorem contains_eq_false_iff {map : IdMap} {id : String} :
    map.contains id = false ↔ id ∉ map.map Prod.fst := by
  rw [← contains_iff, Bool.not_eq_true]

theorem hasName_iff {map : IdMap} {name : String} :
    map.hasName name = true ↔ name ∈ map.map Prod.snd := by
  simp [hasName]

theorem hasName_eq_false_iff {map : IdMap} {name : String} :
    map.hasName name = false ↔ name ∉ map.map Prod.snd := by
  rw [← hasName_iff, Bool.not_eq_true]

theorem emplace_of_absent {map : IdMap} {id : String}
    (absent : map.contains id = false) (name : String) :
    map.emplace id name = map ++ [(id, name)] := by
  simp [emplace, absent]

theorem contains_append_singleton (map : IdMap) (id name other : String) :
    (map ++ [(id, name)]).contains other = (map.contains other || decide (id = other)) := by
  simp [contains]

/-- `emplace` never makes two entries for one id. -/
theorem nodup_keys_emplace {map : IdMap}
    (distinct : (map.map Prod.fst).Nodup) (id name : String) :
    ((map.emplace id name).map Prod.fst).Nodup := by
  cases known : map.contains id with
  | true => simpa [emplace, known] using distinct
  | false =>
      have absent := contains_eq_false_iff.mp known
      rw [emplace_of_absent known, List.map_append, List.map_singleton,
        List.nodup_append]
      refine ⟨distinct, by simp, ?_⟩
      intro key member other isNew same
      rw [List.mem_singleton] at isNew
      apply absent
      rw [same, isNew] at member
      exact member

/-- With distinct ids, an id has one name. -/
theorem name_unique {map : IdMap}
    (distinct : (map.map Prod.fst).Nodup)
    {id name name' : String}
    (entry : (id, name) ∈ map)
    (entry' : (id, name') ∈ map) :
    name = name' := by
  have same := List.inj_on_of_nodup_map distinct entry entry' rfl
  exact congrArg Prod.snd same

/-- Taking ids out in turn leaves the entries of all other ids. -/
theorem foldl_erase (erased : List String) (map : IdMap) :
    erased.foldl erase map = map.filter fun kv => kv.1 ∉ erased := by
  induction erased generalizing map with
  | nil => simp
  | cons id erased inductionHypothesis =>
      rw [List.foldl_cons, inductionHypothesis, erase, List.filter_filter]
      apply List.filter_congr
      intro kv member
      simp only [List.mem_cons, not_or, Bool.decide_and, Bool.and_comm]

/-- An id that is found for a name is registered under this name. -/
theorem idOfName_mem (rt : Runtime) {map : IdMap} {name : String}
    (found : map.idOfName rt name ≠ "") :
    (map.idOfName rt name, name) ∈ map := by
  unfold idOfName at found ⊢
  cases walk : (rt.walkOrder map).find? fun kv => decide (kv.2 = name) with
  | none => simp [walk] at found
  | some kv =>
      have isName : kv.2 = name := by simpa using List.find?_some walk
      have member := (rt.walkOrder_perm map).mem_iff.mp (List.mem_of_find?_eq_some walk)
      simp only
      rw [← isName]
      exact member

/-- With distinct names, the id of a registered name is found. -/
theorem idOfName_eq (rt : Runtime) {map : IdMap}
    (distinct : (map.map Prod.snd).Nodup)
    {id name : String}
    (entry : (id, name) ∈ map) :
    map.idOfName rt name = id := by
  unfold idOfName
  cases walk : (rt.walkOrder map).find? fun kv => decide (kv.2 = name) with
  | none =>
      have absent := List.find?_eq_none.mp walk (id, name)
        ((rt.walkOrder_perm map).mem_iff.mpr entry)
      simp at absent
  | some kv =>
      have isName : kv.2 = name := by simpa using List.find?_some walk
      have member := (rt.walkOrder_perm map).mem_iff.mp (List.mem_of_find?_eq_some walk)
      have same := List.inj_on_of_nodup_map distinct member entry isName
      rw [same]

end IdMap

/-! ## The records of the store of ids -/

namespace CQuestionAnswerImpl

/-- Id and name of a record of a group. -/
def groupPair (qag : QuestionAnswerGroup) : String × String :=
  (qag.id, qag.group)

/-- Deleting records in turn leaves the records of all other ids, in some order. -/
theorem foldl_deleteGroup {ids : CQuestionAnswerImpl}
    (opened : ids.strPath ≠ [])
    (distinct : (ids.lstGroups.map QuestionAnswerGroup.id).Nodup)
    (erased : List String) :
    let left := erased.foldl (fun ids id => (ids.deleteGroup id).2) ids
    left.strPath = ids.strPath ∧ left.lstQuestions = ids.lstQuestions ∧
      left.lstGroups.Perm (ids.lstGroups.filter fun qag => qag.id ∉ erased) := by
  induction erased generalizing ids with
  | nil => simp
  | cons id erased inductionHypothesis =>
      rw [List.foldl_cons]
      have first : (ids.deleteGroup id).2.strPath = ids.strPath ∧
          (ids.deleteGroup id).2.lstQuestions = ids.lstQuestions ∧
          (ids.deleteGroup id).2.lstGroups.Perm
            (ids.lstGroups.filter fun qag => qag.id ≠ id) := by
        rcases deleteGroup_cases opened id with
          ⟨absent, same⟩ | ⟨before, x, after, split, rfl, done⟩
        · refine ⟨same.path, same.questions, ?_⟩
          rw [same.groups, List.filter_eq_self.mpr]
          intro qag member
          simpa using KeyedList.find_eq_none_iff.mp absent qag member
        · rw [done]
          refine ⟨rfl, rfl, ?_⟩
          have moved := swapRemove_perm before x after
          rw [swapRemove_append_cons] at moved
          refine moved.trans (List.Perm.of_eq ?_)
          rw [split] at distinct ⊢
          exact (KeyedList.DistinctKeys.filter_ne distinct).symm
      obtain ⟨path, questions, groups⟩ := first
      have opened' : (ids.deleteGroup id).2.strPath ≠ [] := by rw [path]; exact opened
      have distinct' : ((ids.deleteGroup id).2.lstGroups.map QuestionAnswerGroup.id).Nodup :=
        (groups.map _).nodup_iff.mpr (distinct.sublist (List.filter_sublist.map _))
      obtain ⟨restPath, restQuestions, restGroups⟩ := inductionHypothesis opened' distinct'
      refine ⟨restPath.trans path, restQuestions.trans questions,
        (restGroups.trans (groups.filter _)).trans (List.Perm.of_eq ?_)⟩
      rw [List.filter_filter]
      apply List.filter_congr
      intro qag member
      simp only [List.mem_cons, not_or, Bool.decide_and, Bool.and_comm]

end CQuestionAnswerImpl

end Notebook
