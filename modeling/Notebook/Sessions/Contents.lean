import Notebook.Sessions.Durable

/-!
# The contents of a bank as one map

Without its files, a question bank is a map from the ids of groups to the id of the
group above, a name and the questions by their ids. Every call of a session acts on a
bank as on this map.
-/

namespace Notebook

open RoseTree KeyedList CQuestionBankImpl

/-! ## The map -/

/-- A group without its files. -/
structure GroupEntry where
  id : String
  parent : String
  name : String
  questions : String → Option QuestionAnswer

/-- A bank without its files: the groups by their ids. -/
abbrev QuestionBank := String → Option GroupEntry

namespace QuestionBank

/-- The root, whose id is empty, and the groups that are there can get sub-groups. -/
def HasParent (bank : QuestionBank) (pid : String) : Prop :=
  pid = "" ∨ bank pid ≠ none

/-- A name that a group has. -/
def HasName (bank : QuestionBank) (name : String) : Prop :=
  ∃ id entry, bank id = some entry ∧ entry.name = name

open Classical in
/-- Add a group with a new id and a new name. -/
noncomputable def addGroup (pid name id : String) (bank : QuestionBank) :
    Outcome Bool × QuestionBank :=
  if bank id = none ∧ ¬ bank.HasName name ∧ bank.HasParent pid then
    (.value true, Function.update bank id
      (some { id := id, parent := pid, name := name, questions := fun _ => none }))
  else (.value false, bank)

/-- Change the entry of a group that lies under a given parent. -/
def alterUnder (pid id : String) (change : GroupEntry → Option GroupEntry)
    (bank : QuestionBank) : Outcome Bool × QuestionBank :=
  match bank id with
  | some entry =>
      if entry.parent = pid then (.value true, Function.update bank id (change entry))
      else (.value false, bank)
  | none => (.value false, bank)

/-- Delete a group without sub-groups, with its questions. -/
def deleteGroup (pid id : String) (bank : QuestionBank) : Outcome Bool × QuestionBank :=
  bank.alterUnder pid id fun _ => none

/-- Give a group another name. -/
def updateGroup (pid id name : String) (bank : QuestionBank) :
    Outcome Bool × QuestionBank :=
  bank.alterUnder pid id fun entry => some { entry with name := name }

/-- A question call acts on the questions of one group. -/
def question (call : QuestionCall) (bank : QuestionBank) : QuestionResult × QuestionBank :=
  match bank call.gid with
  | some entry =>
      ((call.onPart entry.questions).1, Function.update bank call.gid
        (some { entry with questions := (call.onPart entry.questions).2 }))
  | none => ((false, none), bank)

end QuestionBank

/-- What a call gives back: how it ended, and the answer a query wrote. -/
abbrev BankAnswer := Outcome Bool × Option String

/-- Run a call on the map. -/
noncomputable def BankCall.onMap : Machine BankCall QuestionBank BankAnswer
  | .question call, bank =>
      ((.value (bank.question call).1.1, (bank.question call).1.2), (bank.question call).2)
  | .group (.add pid name id), bank =>
      (((bank.addGroup pid name id).1, none), (bank.addGroup pid name id).2)
  | .group (.delete pid id), bank =>
      (((bank.deleteGroup pid id).1, none), (bank.deleteGroup pid id).2)
  | .group (.update pid id name), bank =>
      (((bank.updateGroup pid id name).1, none), (bank.updateGroup pid id name).2)

/-- Run a call on the bank, with the answer that a query writes. -/
def BankCall.performWithAnswer (rt : Runtime) : Machine BankCall CQuestionBankImpl BankAnswer
  | .question call, b =>
      ((.value (call.perform rt b).1.1, (call.perform rt b).1.2), (call.perform rt b).2)
  | .group call, b => (((call.perform rt b).1, none), (call.perform rt b).2)

theorem BankCall.performWithAnswer_state (rt : Runtime) (call : BankCall)
    (b : CQuestionBankImpl) :
    (call.performWithAnswer rt b).2 = (call.perform rt b).2 := by
  cases call <;> rfl

/-! ## The map of a bank -/

/-- The entry of a group under a parent. -/
def GroupMembers.entry (pid : String) (grp : GroupMembers) : GroupEntry where
  id := grp.strId
  parent := pid
  name := grp.strName
  questions qid := find QuestionAnswer.id qid grp.records

/-- The entries of the groups below the root. -/
def CQuestionBankImpl.entries (b : CQuestionBankImpl) : List GroupEntry :=
  (parentRows b.clsQuestionBank).filterMap fun row =>
    row.1.map fun above => row.2.entry above.1

/-- A bank has the contents of a map. -/
def CQuestionBankImpl.Shows (b : CQuestionBankImpl) (bank : QuestionBank) : Prop :=
  Lists GroupEntry.id b.entries bank

theorem mem_entries {b : CQuestionBankImpl} {entry : GroupEntry} :
    entry ∈ b.entries ↔
      ∃ row ∈ parentRows b.clsQuestionBank, ∃ above, row.1 = some above ∧
        row.2.entry above.1 = entry := by
  simp only [CQuestionBankImpl.entries, List.mem_filterMap, Option.map_eq_some_iff]

/-- Every entry is that of a group below the root. -/
theorem group_of_mem_entries {b : CQuestionBankImpl} {entry : GroupEntry}
    (member : entry ∈ b.entries) :
    ∃ grp ∈ b.groups, ∃ pid, entry = grp.entry pid := by
  obtain ⟨row, isRow, above, isAbove, rfl⟩ := mem_entries.mp member
  rcases parentRows_cases isRow with rfl | ⟨c, parent, before, child, after, tree, rfl⟩
  · cases isAbove
  · refine ⟨child.label, ?_, above.1, rfl⟩
    rw [CQuestionBankImpl.groups, tree]
    exact mem_descendants_plug c parent before after child.label_mem_preorder

/-- Every group below the root has an entry. -/
theorem entry_of_mem_groups {b : CQuestionBankImpl} {grp : GroupMembers}
    (present : grp ∈ b.groups) : ∃ pid, grp.entry pid ∈ b.entries := by
  obtain ⟨parent, _, isRow⟩ := exists_parentRow present
  exact ⟨parent.strId, mem_entries.mpr ⟨_, isRow, _, rfl, rfl⟩⟩

/-- The ids of the entries are distinct when those of the groups are. -/
theorem distinct_entries {b : CQuestionBankImpl}
    (distinct : (b.clsQuestionBank.preorder.map GroupMembers.strId).Nodup) :
    DistinctKeys GroupEntry.id b.entries := by
  rw [← map_snd_parentRows, List.map_map] at distinct
  unfold CQuestionBankImpl.entries
  refine List.Nodup.sublist ?_ distinct
  induction parentRows b.clsQuestionBank with
  | nil => exact List.Sublist.slnil
  | cons row rows inductionHypothesis =>
      rcases row with ⟨_ | above, grp⟩
      · exact inductionHypothesis.cons _
      · exact inductionHypothesis.cons_cons _

namespace CQuestionBankImpl.Shows

variable {b : CQuestionBankImpl} {bank : QuestionBank}

theorem eq_none_iff (shown : b.Shows bank) {id : String} :
    bank id = none ↔ ∀ grp ∈ b.groups, grp.strId ≠ id := by
  constructor
  · rintro absent grp present rfl
    obtain ⟨pid, member⟩ := entry_of_mem_groups present
    have value := (shown.mem_iff grp.strId _).mpr ⟨member, rfl⟩
    rw [absent] at value
    cases value
  · intro absent
    cases value : bank id with
    | none => rfl
    | some entry =>
        obtain ⟨member, isId⟩ := (shown.mem_iff id entry).mp value
        obtain ⟨grp, present, pid, rfl⟩ := group_of_mem_entries member
        exact absurd isId (absent grp present)

theorem ne_none_iff (shown : b.Shows bank) {id : String} :
    bank id ≠ none ↔ ∃ grp ∈ b.groups, grp.strId = id := by
  rw [Ne, shown.eq_none_iff]
  push Not
  rfl

theorem hasName_iff (shown : b.Shows bank) {name : String} :
    bank.HasName name ↔ ∃ grp ∈ b.groups, grp.strName = name := by
  constructor
  · rintro ⟨id, entry, value, rfl⟩
    obtain ⟨member, _⟩ := (shown.mem_iff id entry).mp value
    obtain ⟨grp, present, pid, rfl⟩ := group_of_mem_entries member
    exact ⟨grp, present, rfl⟩
  · rintro ⟨grp, present, rfl⟩
    obtain ⟨pid, member⟩ := entry_of_mem_groups present
    exact ⟨grp.strId, _, (shown.mem_iff _ _).mpr ⟨member, rfl⟩, rfl⟩

theorem hasParent_iff (shown : b.Shows bank) (root : b.clsQuestionBank.label.strId = "")
    {pid : String} :
    bank.HasParent pid ↔ ∃ grp ∈ b.clsQuestionBank.preorder, isTarget pid grp = true := by
  have isTarget_iff : ∀ grp, isTarget pid grp = true ↔ pid = "" ∨ grp.strId = pid := by
    intro grp
    simp only [isTarget, decide_eq_true_eq]
    tauto
  rw [QuestionBank.HasParent, shown.ne_none_iff]
  constructor
  · rintro (rfl | ⟨grp, present, rfl⟩)
    · exact ⟨_, label_mem_preorder _, (isTarget_iff _).mpr (Or.inl rfl)⟩
    · exact ⟨grp, mem_preorder_of_mem_descendants present, (isTarget_iff _).mpr (Or.inr rfl)⟩
  · rintro ⟨grp, inTree, target⟩
    rcases (isTarget_iff grp).mp target with empty | rfl
    · exact Or.inl empty
    · rw [preorder_eq_label_cons, List.mem_cons] at inTree
      rcases inTree with rfl | below
      · exact Or.inl root
      · exact Or.inr ⟨grp, below, rfl⟩

end CQuestionBankImpl.Shows

/-! ## Calls -/

theorem entry_replaceStore {disk : Disk} {grp : GroupMembers} (usable : grp.Usable disk)
    (gid : String) (ctx : CQuestionAnswerImpl) (pid : String) :
    (replaceStore gid ctx grp).entry pid =
      if grp.strId = gid then { grp.entry pid with questions := ctx.questionMap }
      else grp.entry pid := by
  unfold replaceStore
  split
  · rw [GroupMembers.entry, usable.records_withStore]
    rfl
  · rfl

/-- Rewriting the store of a group rewrites the questions of its entry. -/
theorem entries_putStore {b : CQuestionBankImpl} (ready : b.QuestionsReady) (gid : String)
    (ctx : CQuestionAnswerImpl) :
    (b.putStore gid ctx).entries =
      b.entries.map fun entry =>
        if entry.id = gid then { entry with questions := ctx.questionMap } else entry := by
  have rows : parentRows (b.putStore gid ctx).clsQuestionBank =
      (parentRows b.clsQuestionBank).map fun row => (row.1, replaceStore gid ctx row.2) := by
    refine inherited_map (f := replaceStore gid ctx) ?_ none b.clsQuestionBank
    intro _ grp
    rw [replaceStore_identity]
  unfold CQuestionBankImpl.entries
  rw [rows, List.filterMap_map, List.map_filterMap]
  refine List.filterMap_congr ?_
  intro row member
  rcases parentRows_cases member with rfl | ⟨c, parent, before, child, after, tree, rfl⟩
  · rfl
  · have present : child.label ∈ b.groups := by
      rw [CQuestionBankImpl.groups, tree]
      exact mem_descendants_plug c parent before after child.label_mem_preorder
    rw [Function.comp, Option.map_some, Option.map_some, Option.map_some,
      entry_replaceStore (ready.usable _ present)]
    rfl

/-- A question call acts on the bank as on the map. -/
theorem CQuestionBankImpl.Shows.question (rt : Runtime) {b : CQuestionBankImpl}
    {bank : QuestionBank} (shown : b.Shows bank) (ready : b.QuestionsReady)
    (call : QuestionCall) :
    (call.perform rt b).1 = (bank.question call).1 ∧
      (call.perform rt b).2.Shows (bank.question call).2 := by
  rcases call.perform_cases rt ready with ⟨noGroup, message, failed⟩ | ⟨grp, present, isId, done⟩
  · have absent := shown.eq_none_iff.mpr noGroup
    rw [failed, QuestionBank.question, absent]
    exact ⟨rfl, shown⟩
  · obtain ⟨pid, member⟩ := entry_of_mem_groups present
    have value : bank call.gid = some (grp.entry pid) :=
      (shown.mem_iff _ _).mpr ⟨member, isId⟩
    have usable := ready.usable grp present
    obtain ⟨result, map, _, _⟩ :=
      call.useStore_refines usable.context_opened usable.context_distinct
    have questions : (grp.entry pid).questions = grp.context.questionMap := by
      funext qid
      rw [GroupMembers.entry, usable.records_eq]
      rfl
    rw [done, QuestionBank.question, value]
    simp only [questions, ← result, ← map]
    refine ⟨trivial, ?_⟩
    have changed := shown.map_at call.gid (f := fun entry =>
      { entry with questions := (call.useStore grp.context).2.questionMap }) fun _ => rfl
    rw [value] at changed
    rw [CQuestionBankImpl.Shows, entries_putStore ready]
    exact changed

/-- The group that is selected by an id has this id. -/
theorem strId_of_selects {qgp : CQuestionGroupParam} (root : qgp.label.strId = "")
    {pid : String} {c : Context GroupMembers} {parent : GroupMembers}
    {groups : List CQuestionGroupParam} (tree : qgp = plug c (.node parent groups))
    (selects : Selects pid c parent) : parent.strId = pid := by
  have here := selects.here
  simp only [isTarget, decide_eq_true_eq] at here
  rcases here with rfl | same
  · cases c with
    | nil =>
        rw [tree] at root
        exact root
    | cons frame c =>
        have notRoot := selects.notBefore frame.label (by simp)
        simp [isTarget] at notRoot
  · exact same.symm

/-- The directory of a group with a new name can be made. -/
theorem Sound.directory_made {root : Path} {b : CQuestionBankImpl} (sound : Sound root b)
    {parent : GroupMembers} (inTree : parent ∈ b.clsQuestionBank.preorder) {name : String}
    (isName : IsGroupName root name) (isNew : b.regs.mapIds.hasName name = false)
    {answer : Outcome Bool} {disk : Disk}
    (made : DirectoryMade b.regs (parent.strPath.join name) answer disk) :
    answer = .value true := by
  have absent := sound.absent_of_new inTree isName isNew
  rw [isName.component.join] at made
  cases made with
  | present => rfl
  | created => rfl
  | failed notTrue _ notCreated =>
      exfalso
      have parentDirectory : b.regs.disk.node parent.strPath = some .directory := by
        rcases sound.mem_preorder.mp inTree with rfl | below
        · exact sound.root_directory
        · exact (sound.groups parent below).directory
      obtain ⟨disk', makes, _⟩ := FileSystem.mkdir_eq_some
        (FileSystem.hasParent_append_singleton (c := name) parentDirectory) absent
      apply notCreated disk'
      rw [sound.refusals, Refusals.createDirectory, makes]
      rfl

/-- The new entry of a group that was added. -/
theorem entries_add {b : CQuestionBankImpl} {c : Context GroupMembers} {parent : GroupMembers}
    {groups : List CQuestionGroupParam} (tree : b.clsQuestionBank = plug c (.node parent groups))
    (id name : String) (regs : Registers) :
    ({ b with
      clsQuestionBank := plug c (.node parent (groups ++
        [.node (Registers.newGroup parent id name) []]))
      regs := regs } : CQuestionBankImpl).entries.Perm
      (b.entries ++
        [{ id := id, parent := parent.strId, name := name, questions := fun _ => none }]) := by
  have rows := inherited_plug_addLeaf (fun _ grp => some grp.identity) none c parent groups
    (Registers.newGroup parent id name)
  rw [← tree] at rows
  have entries := rows.filterMap fun row =>
    row.1.map fun above : String × String × Path => row.2.entry above.1
  rw [List.filterMap_append] at entries
  exact entries

/-- Adding a group acts on the bank as on the map. -/
theorem CQuestionBankImpl.Shows.add (rt : Runtime) {root : Path} {b : CQuestionBankImpl}
    {bank : QuestionBank} (shown : b.Shows bank) (sound : Sound root b) {pid name id : String}
    (isName : IsGroupName root name) :
    (b.addGroup rt pid name id).1 = (bank.addGroup pid name id).1 ∧
      (b.addGroup rt pid name id).2.Shows (bank.addGroup pid name id).2 := by
  obtain ⟨ids, opened, _⟩ := sound.agrees.ids
  have known : b.regs.mapIds.contains id = true ↔ bank id ≠ none := by
    rw [IdMap.contains_iff, (sound.agrees.mapIds.map Prod.fst).mem_iff, groupPairs,
      List.map_map, List.mem_map, shown.ne_none_iff]
    rfl
  have named : b.regs.mapIds.hasName name = true ↔ bank.HasName name := by
    rw [← not_iff_not, Bool.not_eq_true, IdMap.hasName_eq_false_iff,
      (sound.agrees.mapIds.map Prod.snd).mem_iff, groupPairs, List.map_map, List.mem_map,
      shown.hasName_iff]
    rfl
  have way := b.addGroup_result rt sound.agrees.uniqueIds opened pid name id
  generalize b.addGroup rt pid name id = result at way ⊢
  cases way with
  | refused message why =>
      have refuses : ¬ (bank id = none ∧ ¬ bank.HasName name ∧ bank.HasParent pid) := by
        rw [shown.hasParent_iff sound.agrees.root]
        rintro ⟨isNew, newName, grp, inTree, target⟩
        rcases why with isKnown | isNamed | noTarget
        · exact known.mp isKnown isNew
        · exact newName (named.mp isNamed)
        · rw [noTarget grp inTree] at target
          cases target
      rw [QuestionBank.addGroup, if_neg refuses]
      exact ⟨rfl, shown⟩
  | @added c parent groups ids' answer disk message tree selects opened' newId newName made =>
      have inTree : parent ∈ b.clsQuestionBank.preorder := by
        rw [tree, preorder_plug]
        simp
      have isNew : bank id = none := by
        by_contra isKnown
        rw [known.mpr isKnown] at newId
        cases newId
      have accepts : bank id = none ∧ ¬ bank.HasName name ∧ bank.HasParent pid := by
        refine ⟨isNew, ?_, ?_⟩
        · intro isNamed
          rw [named.mpr isNamed] at newName
          cases newName
        · exact (shown.hasParent_iff sound.agrees.root).mpr ⟨parent, inTree, selects.here⟩
      have parentId := strId_of_selects sound.agrees.root tree selects
      rw [QuestionBank.addGroup, if_pos accepts]
      refine ⟨sound.directory_made inTree isName newName made, ?_⟩
      have entries := entries_add tree id name
        { b.regs with
          mapIds := b.regs.mapIds ++ [(id, name)]
          ptrIds := some (ids'.addGroup id name).2
          disk := disk
          strErrorMsg := message }
      rw [parentId] at entries
      exact (Lists.append_new shown isNew).of_perm entries.symm

/-- Deleting a group acts on the bank as on the map. -/
theorem CQuestionBankImpl.Shows.delete (rt : Runtime) {root : Path} {b : CQuestionBankImpl}
    {bank : QuestionBank} (shown : b.Shows bank) (sound : Sound root b) {pid id : String}
    (isLeaf : IsLeafOf pid id b.clsQuestionBank) :
    (b.deleteGroup rt pid id).1 = (bank.deleteGroup pid id).1 ∧
      (b.deleteGroup rt pid id).2.Shows (bank.deleteGroup pid id).2 := by
  by_cases isGroup : ∃ grp ∈ b.groups, grp.strId = id
  · obtain ⟨grp, present, rfl⟩ := isGroup
    obtain ⟨c, parent, before, after, ids, disk, tree, _, _, done⟩ :=
      sound.deleteGroup_of_leaf rt isLeaf present
    have entries : b.entries.Perm ((b.deleteGroup rt pid grp.strId).2.entries ++
        [grp.entry parent.strId]) := by
      have rows := inherited_plug_insert (fun _ grp => some grp.identity) none c parent before
        (.node grp []) after
      rw [← tree] at rows
      have mapped := rows.filterMap fun row =>
        row.1.map fun above : String × String × Path => row.2.entry above.1
      rw [List.filterMap_append] at mapped
      rw [done]
      exact mapped
    have listed := shown.of_perm entries
    have value : bank grp.strId = some (grp.entry parent.strId) :=
      (listed.mem_iff _ _).mpr ⟨List.mem_append_right _ List.mem_cons_self, rfl⟩
    have parentId : parent.strId = pid := by
      have isRow := child_mem_parentRows c parent before after (.node grp [])
      rw [← tree] at isRow
      exact Option.some.inj (isLeaf.parent _ isRow rfl)
    rw [QuestionBank.deleteGroup, QuestionBank.alterUnder, value]
    simp only [GroupMembers.entry, parentId, if_true]
    refine ⟨by rw [done], ?_⟩
    exact listed.erase
  · have absent : ∀ grp ∈ b.groups, grp.strId ≠ id := fun grp member same =>
      isGroup ⟨grp, member, same⟩
    rw [QuestionBank.deleteGroup, QuestionBank.alterUnder, shown.eq_none_iff.mpr absent]
    obtain ⟨ids, opened, _⟩ := sound.agrees.ids
    have way := b.deleteGroup_result rt sound.agrees.uniqueIds opened pid id
    generalize b.deleteGroup rt pid id = result at way ⊢
    cases way with
    | noTarget why => exact ⟨rfl, shown⟩
    | missing message opened' => exact ⟨rfl, shown⟩
    | @reached c parent before after found rest answer r tree selects split call frame =>
        exfalso
        apply absent found.label _ (firstChild_eq_some split).2
        rw [CQuestionBankImpl.groups, tree]
        exact mem_descendants_plug c parent before after found.label_mem_preorder

/-- A call of a session acts on the bank as on the map. -/
theorem BankCall.performWithAnswer_refines (rt : Runtime) {root : Path}
    {b : CQuestionBankImpl} {bank : QuestionBank} (shown : b.Shows bank)
    (sound : Sound root b) (call : BankCall)
    (inSession : call.InSession root b (call.perform rt b).1) :
    (call.performWithAnswer rt b).1 = (call.onMap bank).1 ∧
      (call.performWithAnswer rt b).2.Shows (call.onMap bank).2 := by
  cases call with
  | question call =>
      obtain ⟨result, next⟩ := shown.question rt sound.ready call
      exact ⟨by rw [performWithAnswer, onMap, result], next⟩
  | group call =>
      cases call with
      | add pid name id =>
          obtain ⟨result, next⟩ := shown.add rt sound inSession.1
          exact ⟨congrArg (fun answer => (answer, none)) result, next⟩
      | delete pid id =>
          obtain ⟨result, next⟩ := shown.delete rt sound inSession
          exact ⟨congrArg (fun answer => (answer, none)) result, next⟩
      | update pid id name => exact inSession.elim

end Notebook
