import Notebook.Groups.Deletion
import Notebook.Questions.Refinement
import Notebook.Store.Registry

/-!
# Calls of the group operations on a bank

When ids are unique, each of the three group operations either refuses a call and
changes nothing but the error text, or acts on the one group that the parent id selects.
-/

namespace Notebook

open RoseTree

/-- A call of one of the three group operations. -/
inductive GroupCall
  | add (pid name id : String)
  | delete (pid id : String)
  | update (pid id name : String)
  deriving DecidableEq, Repr

/-- Run a call on the bank. -/
def GroupCall.perform (rt : Runtime) : Machine GroupCall CQuestionBankImpl (Outcome Bool)
  | .add pid name id, b => b.addGroup rt pid name id
  | .delete pid id, b => b.deleteGroup rt pid id
  | .update pid id name, b => b.updateGroup rt pid id name

/-- A call of one of the public operations of a bank. -/
inductive BankCall
  | question (call : QuestionCall)
  | group (call : GroupCall)
  deriving DecidableEq, Repr

/-- Run a call on the bank. -/
def BankCall.perform (rt : Runtime) : Machine BankCall CQuestionBankImpl (Outcome Bool)
  | .question call, b => (.value (call.perform rt b).1.1, (call.perform rt b).2)
  | .group call, b => call.perform rt b

namespace CQuestionBankImpl

/-- The bank with another error text. -/
def withMessage (message : Bytes) (b : CQuestionBankImpl) : CQuestionBankImpl :=
  { b with regs := { b.regs with strErrorMsg := message } }

/-- How a group gets its directory. -/
inductive DirectoryMade (r : Registers) (path : Path) : Outcome Bool → Disk → Prop
  | present (isPresent : r.disk.isPresent path = true) :
      DirectoryMade r path (.value true) r.disk
  | created {disk : Disk}
      (creates : r.refusals.createDirectory r.disk path = .created disk) :
      DirectoryMade r path (.value true) disk
  | failed {answer : Outcome Bool}
      (notTrue : answer ≠ .value true)
      (absent : r.disk.isPresent path = false)
      (notCreated : ∀ disk, r.refusals.createDirectory r.disk path ≠ .created disk) :
      DirectoryMade r path answer r.disk

/-- The ways a call of `addGroup` goes. -/
inductive AddResult (pid name id : String) (b : CQuestionBankImpl) :
    Outcome Bool × CQuestionBankImpl → Prop
  | refused (message : Bytes)
      (why : b.regs.mapIds.contains id = true ∨ b.regs.mapIds.hasName name = true ∨
        ∀ grp ∈ b.clsQuestionBank.preorder, isTarget pid grp = false) :
      AddResult pid name id b (.value false, b.withMessage message)
  | added {c : Context GroupMembers} {parent : GroupMembers}
      {groups : List CQuestionGroupParam} {ids : CQuestionAnswerImpl}
      {answer : Outcome Bool} {disk : Disk}
      (message : Bytes)
      (tree : b.clsQuestionBank = plug c (.node parent groups))
      (selects : Selects pid c parent)
      (opened : b.regs.ptrIds = some ids)
      (newId : b.regs.mapIds.contains id = false)
      (newName : b.regs.mapIds.hasName name = false)
      (made : DirectoryMade b.regs (parent.strPath.join name) answer disk) :
      AddResult pid name id b
        (answer,
          { b with
            clsQuestionBank := plug c
              (.node parent (groups ++ [.node (Registers.newGroup parent id name) []]))
            regs := { b.regs with
              mapIds := b.regs.mapIds ++ [(id, name)]
              ptrIds := some (ids.addGroup id name).2
              disk := disk
              strErrorMsg := message } })

/-- Every call of `addGroup` goes one of these ways. -/
theorem addGroup_result (rt : Runtime) {b : CQuestionBankImpl}
    (unique : UniqueIds b.clsQuestionBank)
    {ids : CQuestionAnswerImpl} (opened : b.regs.ptrIds = some ids)
    (pid name id : String) :
    AddResult pid name id b (b.addGroup rt pid name id) := by
  unfold CQuestionBankImpl.addGroup
  cases newId : b.regs.mapIds.contains id with
  | true =>
      rw [if_pos rfl]
      exact .refused _ (Or.inl newId)
  | false =>
      rw [if_neg (by simp)]
      cases newName : b.regs.mapIds.hasName name with
      | true =>
          rw [if_pos rfl]
          exact .refused _ (Or.inr (Or.inl newName))
      | false =>
          rw [if_neg (by simp), ctrlRoot]
          rcases unique.selects_or_none pid with
            ⟨c, parent, groups, tree, selects, _⟩ | noTarget
          · obtain ⟨answer, disk, message, done, ways⟩ :=
              Registers.addGroup_spec opened id name parent groups
            have acted := Registers.ctrlGroup_of_selects rt selects groups id name .add b.regs
            rw [Registers.ctrlHere, done, IdMap.emplace_of_absent newId] at acted
            rw [tree, acted]
            apply AddResult.added message tree selects opened newId newName
            rcases ways with ⟨rfl, present, rfl⟩ | ⟨rfl, creates⟩ | ⟨notTrue, rfl, absent, none⟩
            · exact .present present
            · exact .created creates
            · exact .failed notTrue absent none
          · rw [Registers.ctrlGroup_of_no_target rt noTarget]
            exact .refused b.regs.strErrorMsg (Or.inr (Or.inr noTarget))

/-- The ways a call of `updateGroup` goes. -/
inductive UpdateResult (pid id name : String) (b : CQuestionBankImpl) :
    Outcome Bool × CQuestionBankImpl → Prop
  | refused (message : Bytes) :
      UpdateResult pid id name b (.value false, b.withMessage message)
  | updated {c : Context GroupMembers} {parent : GroupMembers}
      {before after : List CQuestionGroupParam} {found : CQuestionGroupParam}
      {ids : CQuestionAnswerImpl} {answer : Outcome Bool} {disk : Disk}
      (message : Bytes)
      (tree : b.clsQuestionBank = plug c (.node parent (before ++ found :: after)))
      (selects : Selects pid c parent)
      (isFound : found.label.strId = id)
      (opened : b.regs.ptrIds = some ids)
      (moved : (answer = .value true ∧ b.regs.refusals.rename b.regs.disk
            found.label.strPath (parent.strPath.join name) = some disk) ∨
        (answer = .value false ∧ disk = b.regs.disk ∧ b.regs.refusals.rename b.regs.disk
            found.label.strPath (parent.strPath.join name) = none)) :
      UpdateResult pid id name b
        (answer,
          { b with
            clsQuestionBank := plug c (.node parent
              (before ++ .node { found.label with strName := name } found.children :: after))
            regs := { b.regs with
              ptrIds := some (ids.updateGroup id name).2
              disk := disk
              strErrorMsg := message } })

/-- Every call of `updateGroup` goes one of these ways. -/
theorem updateGroup_result (rt : Runtime) {b : CQuestionBankImpl}
    (unique : UniqueIds b.clsQuestionBank)
    {ids : CQuestionAnswerImpl} (opened : b.regs.ptrIds = some ids)
    (pid id name : String) :
    UpdateResult pid id name b (b.updateGroup rt pid id name) := by
  unfold CQuestionBankImpl.updateGroup ctrlRoot
  rcases unique.selects_or_none pid with ⟨c, parent, groups, tree, selects, _⟩ | noTarget
  · have acted := Registers.ctrlGroup_of_selects rt selects groups id name .update b.regs
    rw [Registers.ctrlHere] at acted
    rw [tree, acted]
    cases split : Registers.firstChild id (.node parent groups) with
    | none =>
        have missing : ∀ other ∈ (RoseTree.node parent groups).children,
            other.label.strId ≠ id := by
          intro other member
          simpa using splitFirst_eq_none_iff.mp split other member
        obtain ⟨message, done⟩ := Registers.updateGroup_of_missing rt b.regs name missing
        rw [done, ← tree]
        exact .refused message
    | some parts =>
        obtain ⟨before, found, after⟩ := parts
        obtain ⟨children, holds, notBefore⟩ := splitFirst_eq_some_iff.mp split
        rw [children_node] at children
        obtain ⟨answer, disk, message, done, moved⟩ :=
          @Registers.updateGroup_spec rt b.regs ids opened id name parent before after found
            (by simpa using holds) (fun other member => by simpa using notBefore other member)
        rw [children] at tree ⊢
        rw [done]
        exact .updated message tree selects (by simpa using holds) opened moved
  · rw [Registers.ctrlGroup_of_no_target rt noTarget]
    exact .refused b.regs.strErrorMsg

/-- The ways a call of `deleteGroup` goes. -/
inductive DeleteCallResult (rt : Runtime) (pid id : String) (b : CQuestionBankImpl) :
    Outcome Bool × CQuestionBankImpl → Prop
  | noTarget (why : ∀ grp ∈ b.clsQuestionBank.preorder, isTarget pid grp = false) :
      DeleteCallResult rt pid id b (.value false, b)
  | missing {ids : CQuestionAnswerImpl} (message : Bytes)
      (opened : b.regs.ptrIds = some ids) :
      DeleteCallResult rt pid id b
        (.value false,
          { b with
            regs := { b.regs.unregister id ids with strErrorMsg := message } })
  | reached {c : Context GroupMembers} {parent : GroupMembers}
      {before after : List CQuestionGroupParam} {found : CQuestionGroupParam}
      {rest : Option CQuestionGroupParam} {answer : Outcome Bool} {r : Registers}
      (tree : b.clsQuestionBank = plug c (.node parent (before ++ found :: after)))
      (selects : Selects pid c parent)
      (split : Registers.firstChild id (.node parent (before ++ found :: after)) =
        some (before, found, after))
      (call : b.regs.deleteGroup rt id (.node parent (before ++ found :: after)) =
        (answer, .node parent (before ++ rest.toList ++ after), r))
      (frame : CallFrame id found rest answer b.regs r) :
      DeleteCallResult rt pid id b
        (answer,
          { b with
            clsQuestionBank := plug c (.node parent (before ++ rest.toList ++ after))
            regs := r })

/-- Every call of `deleteGroup` goes one of these ways. -/
theorem deleteGroup_result (rt : Runtime) {b : CQuestionBankImpl}
    (unique : UniqueIds b.clsQuestionBank)
    {ids : CQuestionAnswerImpl} (opened : b.regs.ptrIds = some ids)
    (pid id : String) :
    DeleteCallResult rt pid id b (b.deleteGroup rt pid id) := by
  unfold CQuestionBankImpl.deleteGroup ctrlRoot
  rcases unique.selects_or_none pid with ⟨c, parent, groups, tree, selects, _⟩ | noTarget
  · have acted := Registers.ctrlGroup_of_selects rt selects groups id "" .delete b.regs
    rw [Registers.ctrlHere] at acted
    rw [tree, acted]
    cases split : Registers.firstChild id (.node parent groups) with
    | none =>
        obtain ⟨message, done⟩ := Registers.deleteGroup_of_missing rt opened split
        rw [done, ← tree]
        exact .missing message opened
    | some parts =>
        obtain ⟨before, found, after⟩ := parts
        have children := (firstChild_eq_some split).1
        rw [children_node] at children
        rw [children] at tree split ⊢
        obtain ⟨rest, left, frame⟩ := Registers.deleteGroup_frame rt opened split
        rcases call : b.regs.deleteGroup rt id (.node parent (before ++ found :: after))
          with ⟨answer, remaining, r⟩
        rw [call] at left frame
        simp only [label_node] at left
        rw [left] at call ⊢
        exact .reached tree selects split call frame
  · rw [Registers.ctrlGroup_of_no_target rt noTarget]
    exact .noTarget noTarget

end CQuestionBankImpl

end Notebook
