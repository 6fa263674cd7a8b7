import Notebook.Groups.Agreement
import Notebook.Groups.Resistance
import Notebook.Init.Bank

/-!
# Refused group operations

A group operation that does not return true may have changed the registry, the tree or
the disk before it failed. Here is exactly when it has not: adding when it is refused
before it touches anything, updating when the name was there already, deleting when it
meets resistance at once.
-/

namespace Notebook

open RoseTree

namespace Registers

/-! ## Updating -/

/-- The record of a group, if there is one, has a name. -/
def Settled (r : Registers) (id name : String) : Prop :=
  ∀ qag ∈ KeyedList.find QuestionAnswerGroup.id id r.records, qag.group = name

instance (r : Registers) (id name : String) : Decidable (r.Settled id name) :=
  inferInstanceAs (Decidable (∀ qag ∈ KeyedList.find QuestionAnswerGroup.id id r.records, _))

@[simp] theorem silent_settled (r : Registers) (id name : String) :
    r.silent.Settled id name ↔ r.Settled id name := by
  simp [Settled]

/-- Renaming the record of a group settles it. -/
theorem settled_updateGroup {ids : CQuestionAnswerImpl} (path : ids.strPath ≠ [])
    (id name : String) {r : Registers}
    (stores : r.ptrIds = some (ids.updateGroup id name).2) :
    r.Settled id name := by
  rw [Settled, records_of_opened stores]
  rcases CQuestionAnswerImpl.updateGroup_cases path id name with
    ⟨absent, same⟩ | ⟨before, x, after, split, isId, first, done⟩
  · rw [same.groups, absent]
    simp
  · subst isId
    have found := @KeyedList.find_append_cons _ _ _ QuestionAnswerGroup.id before
      { x with group := name } first after
    rw [done]
    simp only [found]
    rintro qag ⟨⟩
    rfl

/-- Renaming the record of a group that has the name changes texts only. -/
theorem silent_updateGroup {ids : CQuestionAnswerImpl} (path : ids.strPath ≠ [])
    {id name : String} {r : Registers} (opened : r.ptrIds = some ids)
    (settled : r.Settled id name) :
    ({ (ids.updateGroup id name).2 with strErrorMsg := [] } : CQuestionAnswerImpl) =
      { ids with strErrorMsg := [] } := by
  rcases CQuestionAnswerImpl.updateGroup_cases path id name with
    ⟨_, same⟩ | ⟨before, x, after, split, isId, first, done⟩
  · exact same.silent
  · subst isId
    have found := KeyedList.find_append_cons first after
    rw [← split, ← records_of_opened opened] at found
    have hasName := settled x found
    rw [done, ← hasName, ← split]

/-- Weight of a group with an id that does not have a name. -/
def misnamed (id name : String) (grp : GroupMembers) : Nat :=
  if grp.strId = id ∧ grp.strName ≠ name then 1 else 0

/-- Whether the record of a group is not settled, as a number. -/
def unsettled (id name : String) (r : Registers) : Nat :=
  if r.Settled id name then 0 else 1

/-- The answer of a call of `updateGroup` that changes nothing: the group is not there,
or it and its record have the name and the directory cannot be moved. -/
def UpdatesInVain (r : Registers) (id name : String) (qgp : CQuestionGroupParam)
    (answer : Outcome Bool) : Prop :=
  answer = .value false ∧
    match firstChild id qgp with
    | none => True
    | some (_, found, _) =>
        found.label.strName = name ∧ r.Settled id name ∧
          r.refusals.rename r.disk found.label.strPath (qgp.label.strPath.join name) = none

/-- Either no child has the id, or the call is known around the one that has it. -/
theorem updateGroup_ways (rt : Runtime) (id name : String) (qgp : CQuestionGroupParam)
    {r : Registers} {ids : CQuestionAnswerImpl} (opened : r.ptrIds = some ids) :
    (firstChild id qgp = none ∧ ∃ message, r.updateGroup rt id name qgp =
      (.value false, qgp, { r with strErrorMsg := message })) ∨
    ∃ before found after answer disk message,
      firstChild id qgp = some (before, found, after) ∧
      r.updateGroup rt id name qgp =
        (answer,
          .node qgp.label (before ++
            .node { found.label with strName := name } found.children :: after),
          { r with
            ptrIds := some (ids.updateGroup id name).2
            disk := disk
            strErrorMsg := message }) ∧
      ((answer = .value true ∧ r.refusals.rename r.disk found.label.strPath
            (qgp.label.strPath.join name) = some disk) ∨
        (answer = .value false ∧ disk = r.disk ∧ r.refusals.rename r.disk
            found.label.strPath (qgp.label.strPath.join name) = none)) := by
  cases split : firstChild id qgp with
  | none =>
      left
      have missing : ∀ other ∈ qgp.children, other.label.strId ≠ id := by
        intro other member
        simpa using splitFirst_eq_none_iff.mp split other member
      exact ⟨rfl, updateGroup_of_missing rt r name missing⟩
  | some parts =>
      right
      obtain ⟨before, found, after⟩ := parts
      obtain ⟨children, holds, notBefore⟩ := splitFirst_eq_some_iff.mp split
      obtain ⟨answer, disk, message, done, moved⟩ :=
        @updateGroup_spec rt r ids opened id name qgp.label before after found
          (by simpa using holds) (fun other member => by simpa using notBefore other member)
      rw [← children, node_label_children] at done
      exact ⟨before, found, after, answer, disk, message, rfl, done, moved⟩

/-- A call of `updateGroup` is quiet exactly when it updates in vain; otherwise it
returns true or settles the group or its record. -/
theorem updatesLess (rt : Runtime) (id name : String) :
    QuietOrLess (fun qgp r => r.updateGroup rt id name qgp) Opened silent
      (fun r qgp answer => UpdatesInVain r id name qgp answer) (misnamed id name)
      (unsettled id name) (fun answer => answer = .value true) := by
  refine ⟨?_, ?_, ?_⟩
  · rintro qgp r ⟨ids, opened, path⟩
    rcases updateGroup_ways rt id name qgp opened with
      ⟨_, message, done⟩ | ⟨before, found, after, answer, disk, message, _, done, _⟩
    · rw [done]
      exact ⟨ids, opened, path⟩
    · rw [done]
      refine ⟨_, rfl, ?_⟩
      rcases CQuestionAnswerImpl.updateGroup_cases path id name with
        ⟨_, same⟩ | ⟨_, _, _, _, _, _, renamed⟩
      · rw [same.path]
        exact path
      · rw [renamed]
        exact path
  · rintro qgp r answer ⟨ids, opened, path⟩ ⟨rfl, inVain⟩
    rcases updateGroup_ways rt id name qgp opened with
      ⟨absent, message, done⟩ | ⟨before, found, after, answer, disk, message, split, done, moved⟩
    · exact ⟨_, done, rfl⟩
    · simp only [split] at inVain
      obtain ⟨hasName, settled, fails⟩ := inVain
      rw [silent_settled] at settled
      rcases moved with ⟨_, moves⟩ | ⟨rfl, rfl, _⟩
      · rw [silent_disk, silent_refusals, moves] at fails
        cases fails
      · have sameGroup : RoseTree.node { found.label with strName := name } found.children =
            found := by
          rw [← hasName]
          exact node_label_children found
        rw [sameGroup, node_of_firstChild split] at done
        refine ⟨_, done, ?_⟩
        unfold silent
        simp only [opened, Option.map_some, silent_updateGroup path opened settled]
  · rintro qgp r ⟨ids, opened, path⟩ loud
    rcases updateGroup_ways rt id name qgp opened with
      ⟨absent, message, done⟩ | ⟨before, found, after, answer, disk, message, split, done, moved⟩
    · exfalso
      apply loud
      refine ⟨.value false, rfl, ?_⟩
      simp only [absent]
    · rcases moved with ⟨rfl, _⟩ | ⟨rfl, rfl, fails⟩
      · left
        rw [done]
      · right
        rw [done]
        simp only
        have settledAfter : unsettled id name ({ r with
            ptrIds := some (ids.updateGroup id name).2
            strErrorMsg := message } : Registers).silent = 0 := by
          rw [unsettled, if_pos]
          rw [silent_settled]
          exact settled_updateGroup path id name rfl
        have nowNamed : misnamed id name { found.label with strName := name } = 0 := by
          simp [misnamed]
        have whole := weigh_of_firstChild (misnamed id name) split
        have isChild := (firstChild_eq_some split).2
        rw [← node_label_children found, weigh_node] at whole
        rw [settledAfter, weigh_node, weighAll_append, weighAll_cons, weigh_node, nowNamed]
        have either : 0 < misnamed id name found.label + unsettled id name r.silent := by
          by_contra zero
          apply loud
          have bothZero : misnamed id name found.label = 0 ∧
              unsettled id name r.silent = 0 := by omega
          refine ⟨.value false, rfl, ?_⟩
          simp only [split]
          have hasName : found.label.strName = name := by
            have notMisnamed := bothZero.1
            unfold misnamed at notMisnamed
            by_contra different
            rw [if_pos ⟨isChild, different⟩] at notMisnamed
            cases notMisnamed
          have settled : r.silent.Settled id name := by
            have notUnsettled := bothZero.2
            unfold unsettled at notUnsettled
            by_contra open'
            rw [if_neg open'] at notUnsettled
            cases notUnsettled
          exact ⟨hasName, settled, fails⟩
        omega

/-! ## Adding -/

/-- Every call of `addGroup` registers the id. -/
theorem contains_addGroup (id name : String) (qgp : CQuestionGroupParam) (r : Registers) :
    (r.addGroup id name qgp).2.2.mapIds.contains id = true := by
  have emplaced : (r.mapIds.emplace id name).contains id = true := by
    unfold IdMap.emplace
    split
    · assumption
    · simp [IdMap.contains]
  cases opened : r.ptrIds with
  | none =>
      simp only [addGroup, opened]
      exact emplaced
  | some ids =>
      simp only [addGroup, opened]
      split
      · exact emplaced
      · split <;> exact emplaced

/-- Adding a group keeps the store of ids open. -/
theorem opened_addGroup (id name : String) (qgp : CQuestionGroupParam) {r : Registers}
    (opened : r.Opened) : (r.addGroup id name qgp).2.2.Opened := by
  obtain ⟨ids, isOpen, path⟩ := opened
  obtain ⟨answer, disk, message, done, _⟩ :=
    addGroup_spec isOpen id name qgp.label qgp.children
  rw [node_label_children] at done
  rw [done]
  refine ⟨_, rfl, ?_⟩
  rcases CQuestionAnswerImpl.addGroup_cases path id name with ⟨_, same⟩ | ⟨_, added⟩
  · rw [same.path]
    exact path
  · rw [added]
    exact path

/-- A call of `deleteGroup` is quiet exactly when it meets resistance at once, and leaves
less otherwise. -/
theorem deleteGroup_quietOrLess (rt : Runtime) (id : String) :
    QuietOrLess (fun qgp r => r.deleteGroup rt id qgp) Opened silent
      (fun r qgp answer => Resists rt r qgp.height id qgp answer) storesAndSelf entries
      (fun _ => False) where
  staysReady qgp := (deletesLess rt qgp.height id).staysReady qgp
  quiet qgp := (deletesLess rt qgp.height id).quiet qgp
  less qgp := (deletesLess rt qgp.height id).less qgp

/-- Every group operation keeps the store of ids open. -/
theorem opened_ctrlGroup (rt : Runtime) (pid gid name : String) (type : GroupCtrlType)
    (qgp : CQuestionGroupParam) {r : Registers} (opened : r.Opened) :
    (ctrlGroup rt pid gid name type qgp r).2.2.Opened := by
  apply search_preserves _ qgp opened
  intro found r opened
  cases type with
  | none => exact opened
  | add => exact opened_addGroup gid name found opened
  | delete => exact (deleteGroup_quietOrLess rt gid).staysReady found r opened
  | update => exact (updatesLess rt gid name).staysReady found r opened
  | max => exact opened

end Registers

/-! ## Calls -/

/-- The map of ids, the records of the store of ids, the tree with its open stores and
the tree of directories are the same. -/
structure CQuestionBankImpl.Unchanged (b b' : CQuestionBankImpl) : Prop where
  tree : b'.clsQuestionBank = b.clsQuestionBank
  mapIds : b'.regs.mapIds = b.regs.mapIds
  records : b'.regs.records = b.regs.records
  nodes : ∀ q, b'.regs.disk.node q = b.regs.disk.node q

/-- The calls that change nothing unless they return true. Adding is refused before it
touches anything; at every group that is hit, in turn, updating finds no child to update
or updates it in vain, and deleting meets resistance. -/
def GroupCall.Quiet (rt : Runtime) (call : GroupCall) (b : CQuestionBankImpl) : Prop :=
  match call with
  | .add pid name id =>
      b.regs.mapIds.contains id = true ∨ b.regs.mapIds.hasName name = true ∨
        ∀ grp ∈ b.clsQuestionBank.preorder, isTarget pid grp = false
  | .delete pid id =>
      ∃ answer, CalmThrough
        (fun qgp => Registers.Resists rt b.regs.silent qgp.height id qgp)
        (fun answer => answer = .value false) (.value false)
        (topHits (isTarget pid) b.clsQuestionBank) answer
  | .update pid id name =>
      ∃ answer, CalmThrough (fun qgp => Registers.UpdatesInVain b.regs.silent id name qgp)
        (fun answer => answer = .value false) (.value false)
        (topHits (isTarget pid) b.clsQuestionBank) answer

namespace CQuestionBankImpl

theorem unchanged_of_silent {b : CQuestionBankImpl} {r : Registers}
    (same : r.silent = b.regs.silent) : Unchanged b { b with regs := r } where
  tree := rfl
  mapIds := by
    rw [← Registers.silent_mapIds r, same, Registers.silent_mapIds]
  records := by
    rw [← Registers.silent_records r, same, Registers.silent_records]
  nodes q := by
    rw [← Registers.silent_disk r, same, Registers.silent_disk]

/-- A search whose actions are quiet or leave less, and that does not succeed, changes
nothing exactly when the actions are calm in turn. -/
theorem ctrlRoot_unchanged_iff {rt : Runtime} {pid gid name : String}
    {type : GroupCtrlType} {b : CQuestionBankImpl}
    {calm : Registers → CQuestionGroupParam → Outcome Bool → Prop}
    {weight : GroupMembers → Nat} {measure : Registers → Nat}
    {success : Outcome Bool → Prop}
    (opened : b.regs.Opened)
    (acts : QuietOrLess (fun qgp r => r.ctrlHere rt gid name type qgp) Registers.Opened
      Registers.silent calm weight measure success)
    (sameMeasure : ∀ r r' : Registers, r'.mapIds = r.mapIds → r'.records = r.records →
      measure r'.silent = measure r.silent)
    (stops : ∀ answer, success answer → answer = .value true)
    (fails : (b.ctrlRoot rt pid gid name type).1 ≠ .value true) :
    Unchanged b (b.ctrlRoot rt pid gid name type).2 ↔
      ∃ answer, CalmThrough (calm b.regs.silent) (fun answer => answer = .value false)
        (.value false) (topHits (isTarget pid) b.clsQuestionBank) answer := by
  obtain ⟨quiet, less⟩ := @search_quietOrLess _ _ _ _ (isTarget pid) _
    (fun answer : Outcome Bool => answer = .value false) (.value false) _ _ _ _ _ _
    acts (by simp) (by simp) (fun answer succeeds => by simp [stops answer succeeds])
    b.clsQuestionBank b.regs opened
  constructor
  · intro unchanged
    by_contra loud
    rcases less loud with succeeds | smaller
    · exact fails (stops _ succeeds)
    · have same := sameMeasure b.regs _ unchanged.mapIds unchanged.records
      have sameTree := unchanged.tree
      apply absurd smaller
      apply Nat.not_lt_of_le
      apply Nat.le_of_eq
      exact congrArg₂ (· + ·) (congrArg (weigh weight) sameTree.symm) same.symm
  · rintro ⟨answer, through⟩
    obtain ⟨r, done, same⟩ := quiet answer through
    unfold ctrlRoot Registers.ctrlGroup
    unfold isTarget at done
    simp only [done]
    exact unchanged_of_silent same

/-- A call of `addGroup` changes nothing exactly when it is refused at once. -/
theorem addGroup_unchanged_iff (rt : Runtime) (pid name id : String) (b : CQuestionBankImpl) :
    Unchanged b (b.addGroup rt pid name id).2 ↔ (GroupCall.add pid name id).Quiet rt b := by
  unfold addGroup
  cases known : b.regs.mapIds.contains id with
  | true =>
      rw [if_pos rfl]
      exact iff_of_true ⟨rfl, rfl, rfl, fun _ => rfl⟩ (Or.inl known)
  | false =>
      rw [if_neg (by simp)]
      cases named : b.regs.mapIds.hasName name with
      | true =>
          rw [if_pos rfl]
          exact iff_of_true ⟨rfl, rfl, rfl, fun _ => rfl⟩ (Or.inr (Or.inl named))
      | false =>
          rw [if_neg (by simp)]
          constructor
          · intro unchanged
            by_contra loud
            have someTarget : ∃ grp ∈ b.clsQuestionBank.preorder, isTarget pid grp = true := by
              by_contra none
              apply loud
              refine Or.inr (Or.inr ?_)
              intro grp present
              by_contra hit
              exact none ⟨grp, present, by simpa using hit⟩
            have registered := @search_establishes _ _ _ (isTarget pid)
              (fun qgp r => Registers.ctrlHere rt id name .add qgp r)
              (fun answer : Outcome Bool => answer = .value false) (.value false)
              (fun r => r.mapIds.contains id = true) (by simp)
              (fun qgp r => Registers.contains_addGroup id name qgp r)
              b.clsQuestionBank someTarget b.regs
            have same : (b.ctrlRoot rt pid id name .add).2.regs.mapIds = b.regs.mapIds :=
              unchanged.mapIds
            have after : (b.ctrlRoot rt pid id name .add).2.regs.mapIds.contains id = true :=
              registered
            rw [same, known] at after
            cases after
          · rintro (contains | hasName | noTarget)
            · rw [known] at contains
              cases contains
            · rw [named] at hasName
              cases hasName
            · rw [ctrlRoot, Registers.ctrlGroup_of_no_target rt noTarget]
              exact ⟨rfl, rfl, rfl, fun _ => rfl⟩

end CQuestionBankImpl

open CQuestionBankImpl

/-- On a bank whose store of ids is open, a group call that does not return true changes
nothing exactly when it is quiet. -/
theorem GroupCall.unchanged_iff (rt : Runtime) {b : CQuestionBankImpl}
    (opened : b.regs.Opened) (call : GroupCall)
    (fails : (call.perform rt b).1 ≠ .value true) :
    Unchanged b (call.perform rt b).2 ↔ call.Quiet rt b := by
  cases call with
  | add pid name id => exact b.addGroup_unchanged_iff rt pid name id
  | delete pid id =>
      refine @ctrlRoot_unchanged_iff rt pid id "" .delete b _ _ _ _ opened
        (Registers.deleteGroup_quietOrLess rt id) ?_ (fun _ never => never.elim) fails
      intro r r' sameIds sameRecords
      simp [Registers.entries, sameIds, sameRecords]
  | update pid id name =>
      refine @ctrlRoot_unchanged_iff rt pid id name .update b _ _ _ _ opened
        (Registers.updatesLess rt id name) ?_ (fun _ succeeds => succeeds) fails
      intro r r' _ sameRecords
      simp [Registers.unsettled, Registers.Settled, sameRecords]

/-! ## Runs -/

/-- A question call leaves the registers as they are, apart from the error text. -/
theorem QuestionCall.perform_regs (rt : Runtime) (call : QuestionCall)
    (b : CQuestionBankImpl) :
    ∃ message, (call.perform rt b).2.regs = { b.regs with strErrorMsg := message } := by
  have within : ∀ {β : Type} (gid : String)
      (use : CQuestionAnswerImpl → β × CQuestionAnswerImpl),
      ∃ message, (b.withContext rt gid use).2.regs =
        { b.regs with strErrorMsg := message } := by
    intro β gid use
    unfold withContext
    split
    · exact ⟨_, rfl⟩
    · split
      · exact ⟨_, rfl⟩
      · exact ⟨b.regs.strErrorMsg, rfl⟩
  cases call with
  | add gid qid question answer => exact within gid _
  | delete gid qid => exact within gid _
  | query gid qid => exact within gid _
  | update gid qid question answer => exact within gid _

/-- Every call keeps the store of ids open. -/
theorem BankCall.perform_opened (rt : Runtime) (call : BankCall) {b : CQuestionBankImpl}
    (opened : b.regs.Opened) : (call.perform rt b).2.regs.Opened := by
  cases call with
  | question call =>
      obtain ⟨message, same⟩ := call.perform_regs rt b
      rw [BankCall.perform, same]
      exact opened
  | group call =>
      cases call with
      | add pid name id =>
          rw [BankCall.perform, GroupCall.perform, addGroup]
          split
          · exact opened
          · split
            · exact opened
            · exact Registers.opened_ctrlGroup rt pid id name .add _ opened
      | delete pid id => exact Registers.opened_ctrlGroup rt pid id "" .delete _ opened
      | update pid id name => exact Registers.opened_ctrlGroup rt pid id name .update _ opened

/-- The store of ids is open after `init` returned true. -/
theorem opened_of_init {rt : Runtime} {path : Path} {listing : Listing}
    {b : CQuestionBankImpl} (succeeds : (b.init rt path listing).1 = .value true) :
    (b.init rt path listing).2.regs.Opened := by
  obtain ⟨ids, opens, isOpen, _⟩ := (init_inv succeeds).ids
  obtain ⟨_, _, items, _, rfl⟩ := CQuestionAnswerImpl.openFile_groups_iff.mp opens
  exact ⟨_, isOpen, idsPath_ne_nil path⟩

end Notebook
