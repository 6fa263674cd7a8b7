import Notebook.Init.Entries
import Notebook.Store.Registry

/-!
# The insertion search

`initQuestionBank` puts one entry of the listing under the first group, in depth-first
order, that has the name of the parent. A file that cannot be opened looks to the search
like a group that is not there: it goes on to later groups with the name, where opening
fails again, and nothing is changed.
-/

namespace Notebook

open RoseTree

/-- An id that a map has for a name, or the empty id when it has none. -/
def IdMap.IsIdOf (map : IdMap) (name id : String) : Prop :=
  (id, name) ∈ map ∨ (id = "" ∧ ∀ kv ∈ map, kv.2 ≠ name)

theorem IdMap.isIdOf_idOfName (rt : Runtime) (map : IdMap) (name : String) :
    map.IsIdOf name (map.idOfName rt name) := by
  unfold IdMap.idOfName
  cases walk : (rt.walkOrder map).find? fun kv => decide (kv.2 = name) with
  | none =>
      right
      refine ⟨rfl, ?_⟩
      intro kv member
      have absent := List.find?_eq_none.mp walk kv
        ((rt.walkOrder_perm map).mem_iff.mpr member)
      simpa using absent
  | some kv =>
      left
      have isName : kv.2 = name := by simpa using List.find?_some walk
      rw [← isName]
      exact (rt.walkOrder_perm map).mem_iff.mp (List.mem_of_find?_eq_some walk)

namespace CQuestionBankImpl

/-- One element at the end of one of the lists of a group: a store opened on the path of
a file, or an empty group for a directory. -/
inductive Inserted (rt : Runtime) (disk : Disk) (mapIds : IdMap) (path : Path)
    (name : String) : Bool → CQuestionGroupParam → CQuestionGroupParam → Prop
  | store {grp : GroupMembers} {groups : List CQuestionGroupParam}
      {impl : CQuestionAnswerImpl}
      (opens : CQuestionAnswerImpl.openFile rt disk path true {} = (true, impl))
      (onPath : impl.strPath = path) :
      Inserted rt disk mapIds path name true (.node grp groups)
        (.node { grp with vecQuestions := grp.vecQuestions ++ [impl] } groups)
  | group {grp : GroupMembers} {groups : List CQuestionGroupParam} {id : String}
      (isId : mapIds.IsIdOf name id) :
      Inserted rt disk mapIds path name false (.node grp groups)
        (.node grp (groups ++
          [.node { strName := name, strPath := path, strId := id, vecQuestions := [] } []]))

/-- Placing succeeds for a directory, and for a file that can be opened. -/
theorem placeHere_iff (rt : Runtime) (disk : Disk) (mapIds : IdMap) (path : Path)
    (name : String) (isFile : Bool) (qgp : CQuestionGroupParam) :
    (placeHere rt disk mapIds path name isFile qgp).1 = true ↔
      (isFile = true → (CQuestionAnswerImpl.openFile rt disk path true {}).1 = true) := by
  unfold placeHere
  cases isFile with
  | false => simp
  | true =>
      rw [if_pos rfl]
      split
      · rename_i failed
        simp [failed]
      · rename_i opened
        simp [opened]

/-- A placing that succeeds inserts one element. -/
theorem placeHere_inserted {rt : Runtime} {disk : Disk} {mapIds : IdMap} {path : Path}
    {name : String} {isFile : Bool} {qgp : CQuestionGroupParam}
    (placed : (placeHere rt disk mapIds path name isFile qgp).1 = true) :
    Inserted rt disk mapIds path name isFile qgp
      (placeHere rt disk mapIds path name isFile qgp).2 := by
  unfold placeHere at placed ⊢
  obtain ⟨grp, groups⟩ := qgp
  cases isFile with
  | false =>
      rw [if_neg (by simp)]
      exact .group (mapIds.isIdOf_idOfName rt name)
  | true =>
      rw [if_pos rfl] at placed ⊢
      rcases opens : CQuestionAnswerImpl.openFile rt disk path true {} with ⟨ok, impl⟩
      rw [opens] at placed
      cases ok with
      | false => cases placed
      | true =>
          obtain ⟨_, _, items, _, rfl⟩ := CQuestionAnswerImpl.openFile_questions_iff.mp opens
          exact .store opens rfl

/-- The insertion search returns true exactly when a group has the name of the parent
and a file can be opened. It then inserts one element at the first such group in
depth-first order and changes nothing else; otherwise it changes nothing. -/
theorem initQuestionBank_inserts_once (rt : Runtime) (disk : Disk) (mapIds : IdMap)
    (parentName : String) (path : Path) (name : String) (isFile : Bool)
    (qgp : CQuestionGroupParam) :
    ((initQuestionBank rt disk mapIds parentName path name isFile qgp).1 = true ↔
        (∃ grp ∈ qgp.preorder, grp.strName = parentName) ∧
          (isFile = true →
            (CQuestionAnswerImpl.openFile rt disk path true {}).1 = true)) ∧
      ((initQuestionBank rt disk mapIds parentName path name isFile qgp).1 = true →
        ∃ c u u', qgp = plug c u ∧ u.label.strName = parentName ∧
          (∀ grp ∈ visited c, grp.strName ≠ parentName) ∧
          Inserted rt disk mapIds path name isFile u u' ∧
          (initQuestionBank rt disk mapIds parentName path name isFile qgp).2 =
            plug c u') ∧
      ((initQuestionBank rt disk mapIds parentName path name isFile qgp).1 = false →
        (initQuestionBank rt disk mapIds parentName path name isFile qgp).2 = qgp) := by
  by_cases named : ∃ grp ∈ qgp.preorder, grp.strName = parentName
  · obtain ⟨c, u, rfl, isNamed, notBefore⟩ :=
      @exists_first_hit _ (fun grp : GroupMembers => decide (grp.strName = parentName)) qgp
        (by simpa using named)
    simp only [decide_eq_true_eq, decide_eq_false_iff_not] at isNamed notBefore
    by_cases placed : (placeHere rt disk mapIds path name isFile u).1 = true
    · have done := @initQuestionBank_of_first rt disk mapIds parentName path name isFile c u
        isNamed notBefore placed
      rw [done]
      refine ⟨iff_of_true rfl ⟨named, (placeHere_iff rt disk mapIds path name isFile u).mp
        placed⟩, ?_, by simp⟩
      intro _
      exact ⟨c, u, _, rfl, isNamed, notBefore, placeHere_inserted placed, rfl⟩
    · have notOpened : ¬ (isFile = true →
          (CQuestionAnswerImpl.openFile rt disk path true {}).1 = true) := fun opens =>
        placed ((placeHere_iff rt disk mapIds path name isFile u).mpr opens)
      rcases initQuestionBank_cases rt disk mapIds parentName path name isFile (plug c u) with
        missed | ⟨_, v, _, _, placedThere, _⟩
      · rw [missed]
        refine ⟨iff_of_false (by simp) (fun both => notOpened both.2), by simp, ?_⟩
        intro _
        rfl
      · exact absurd ((placeHere_iff rt disk mapIds path name isFile v).mp placedThere)
          notOpened
  · rcases initQuestionBank_cases rt disk mapIds parentName path name isFile qgp with
      missed | ⟨c, u, rfl, isNamed, _, _⟩
    · rw [missed]
      refine ⟨iff_of_false (by simp) (fun both => named both.1), by simp, ?_⟩
      intro _
      rfl
    · exfalso
      apply named
      refine ⟨u.label, ?_, isNamed⟩
      rw [preorder_plug]
      simp [label_mem_preorder]

end CQuestionBankImpl

end Notebook
