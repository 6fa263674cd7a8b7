import Notebook.Sessions.Recovered

/-!
# The session after one that was closed in part

`uninit` writes the registry first and then the file of one group after the other. When
the program stops between two files, every group of the bank is there again. It has its
questions when its file was written, else those that it had when the session began.
-/

namespace Notebook

open RoseTree KeyedList CQuestionAnswerImpl CQuestionBankImpl

/-! ## Closing the first stores -/

/-- The disk after `uninit` has closed a number of stores, of which the registry is the
first. -/
def CQuestionBankImpl.closing (rt : Runtime) (b : CQuestionBankImpl) (count : Nat) : Disk :=
  (closeAll rt ((b.regs.ptrIds.toList ++ stores b.clsQuestionBank).take count) b.regs.disk).2.2

/-- The stores of the tree that are closed with the registry. -/
def CQuestionBankImpl.firstStores (b : CQuestionBankImpl) (count : Nat) :
    List CQuestionAnswerImpl :=
  (stores b.clsQuestionBank).take count

/-- The stores of a group are among the first ones. -/
def CQuestionBankImpl.IsWritten (b : CQuestionBankImpl) (count : Nat) (id : String) : Prop :=
  ∀ grp ∈ b.groups, grp.strId = id → grp.vecQuestions ⊆ b.firstStores count

namespace Sound

variable {root : Path} {b : CQuestionBankImpl}

/-- Closing goes through the stores in their order. -/
theorem closing_spec (rt : Runtime) (sound : Sound root b) {ids : CQuestionAnswerImpl}
    (opened : b.regs.ptrIds = some ids) (count : Nat) :
    ClosedAll rt (ids :: b.firstStores count) b.regs.disk (b.closing rt (count + 1)) := by
  have isPrefix : (ids :: b.firstStores count).Sublist (ids :: stores b.clsQuestionBank) :=
    (List.take_sublist _ _).cons_cons ids
  obtain ⟨disk, closes, all⟩ := closeAll_spec rt
    ((sound.distinct_files opened).sublist (isPrefix.map CQuestionAnswerImpl.strPath))
    fun ctx member => sound.closable opened ctx (isPrefix.subset member)
  have first : (b.regs.ptrIds.toList ++ stores b.clsQuestionBank).take (count + 1) =
      ids :: b.firstStores count := by
    rw [opened]
    rfl
  rw [closing, first, closes]
  exact all

/-- When all stores are closed, `uninit` has ended. -/
theorem closing_all (rt : Runtime) (sound : Sound root b) {count : Nat}
    (all : (stores b.clsQuestionBank).length ≤ count) :
    b.closing rt (count + 1) = (b.uninit rt).2.regs.disk := by
  obtain ⟨ids, opened, _⟩ := sound.agrees.ids
  obtain ⟨disk, closes, _⟩ := closeAll_spec rt (sound.distinct_files opened)
    (sound.closable opened)
  have everything : (b.regs.ptrIds.toList ++ stores b.clsQuestionBank).take (count + 1) =
      ids :: stores b.clsQuestionBank := by
    rw [opened]
    exact congrArg (List.cons ids) (List.take_of_length_le all)
  rw [closing, everything, closes]
  rw [closeAll] at closes
  cases first : ids.close rt b.regs.disk with
  | none =>
      rw [first] at closes
      cases closes
  | some middle =>
      rw [first] at closes
      simp only [CQuestionBankImpl.uninit, opened, first, CQuestionBankImpl.uninitTree,
        uninitQuestionBank_of_closeAll closes]

end Sound

/-! ## The bank that the disk holds -/

/-- A group with the store that it has on the disk. -/
def GroupMembers.partlyWritten (rt : Runtime) (disk : Disk) (closed : List CQuestionAnswerImpl)
    (grp : GroupMembers) : GroupMembers :=
  if grp.vecQuestions ⊆ closed then grp else grp.onDisk rt disk

theorem GroupMembers.partlyWritten_identity (rt : Runtime) (disk : Disk)
    (closed : List CQuestionAnswerImpl) (grp : GroupMembers) :
    (grp.partlyWritten rt disk closed).identity = grp.identity := by
  unfold partlyWritten
  split <;> rfl

/-- The bank with the stores that it has on the disk. -/
def CQuestionBankImpl.partlyWritten (rt : Runtime) (closed : List CQuestionAnswerImpl)
    (b : CQuestionBankImpl) : CQuestionBankImpl :=
  { b with
    clsQuestionBank :=
      b.clsQuestionBank.map (GroupMembers.partlyWritten rt b.regs.disk closed) }

namespace CQuestionBankImpl

variable (rt : Runtime) (closed : List CQuestionAnswerImpl) (b : CQuestionBankImpl)

theorem sameOutline_partlyWritten : SameOutline b (b.partlyWritten rt closed) := by
  refine ⟨?_, rfl, rfl, rfl, rfl, rfl⟩
  rw [partlyWritten, RoseTree.map_map]
  exact RoseTree.map_congr fun grp _ => grp.partlyWritten_identity rt b.regs.disk closed

theorem groups_partlyWritten :
    (b.partlyWritten rt closed).groups =
      b.groups.map (GroupMembers.partlyWritten rt b.regs.disk closed) :=
  descendants_map _ _

theorem parentRows_partlyWritten :
    parentRows (b.partlyWritten rt closed).clsQuestionBank =
      (parentRows b.clsQuestionBank).map fun row =>
        (row.1, row.2.partlyWritten rt b.regs.disk closed) := by
  refine inherited_map (f := GroupMembers.partlyWritten rt b.regs.disk closed) ?_ none
    b.clsQuestionBank
  intro _ grp
  rw [grp.partlyWritten_identity]

end CQuestionBankImpl

section Closing

variable {rt : Runtime} {root : Path} {deleted : String → Prop}
  {opened b : CQuestionBankImpl} {items : List QuestionAnswerGroup}

theorem ReadBack.sound_partlyWritten (read : ReadBack rt root opened items)
    (since : SinceOpened root deleted opened b) (closed : List CQuestionAnswerImpl) :
    Sound root (b.partlyWritten rt closed) := by
  apply since.sound.of_sameOutline (b.sameOutline_partlyWritten rt closed)
  · have noStores : b.clsQuestionBank.label.vecQuestions ⊆ closed := by
      rw [since.sound.root_group]
      exact List.nil_subset _
    rw [CQuestionBankImpl.partlyWritten, label_map, GroupMembers.partlyWritten, if_pos noStores]
  · intro grp' member
    rw [b.groups_partlyWritten] at member
    obtain ⟨grp, present, rfl⟩ := List.mem_map.mp member
    unfold GroupMembers.partlyWritten
    split
    · exact since.sound.groups grp present
    · exact read.kept_onDisk since present

/-- After some stores were closed the disk has a bank with these stores and those that were
there before. -/
theorem ReadBack.left_partlyWritten (read : ReadBack rt root opened items)
    (since : SinceOpened root deleted opened b) {closed : List CQuestionAnswerImpl}
    {current : List QuestionAnswerGroup} {disk : Disk}
    (partly : PartlyClosed rt root b closed current disk) :
    LeftOnDisk rt root (b.partlyWritten rt closed) current disk := by
  have saved : ∀ grp ∈ b.groups,
      decodedAt rt.parseQuestions disk grp.datPath =
          some (grp.partlyWritten rt b.regs.disk closed).records ∧
        (disk.node grp.datPath = none ↔
          (grp.partlyWritten rt b.regs.disk closed).records = []) := by
    intro grp present
    unfold GroupMembers.partlyWritten
    split
    · rename_i isClosed
      exact partly.saved grp present isClosed
    · rename_i notClosed
      have same := partly.untouched grp present notClosed
      obtain ⟨decoded, absent, _⟩ := read.recordsOnDisk_cases since present
      rw [GroupMembers.onDisk_records, same,
        decodedAt_congr _ (FileSystem.contentsAt_congr same)]
      exact ⟨decoded, absent⟩
  have samePaths : ∀ grp : GroupMembers,
      (grp.partlyWritten rt b.regs.disk closed).strPath = grp.strPath ∧
        (grp.partlyWritten rt b.regs.disk closed).datPath = grp.datPath := by
    intro grp
    unfold GroupMembers.partlyWritten
    split <;> exact ⟨rfl, rfl⟩
  refine ⟨partly.directories, partly.registry, ?_, ?_, ?_⟩
  · intro grp' member
    rw [b.groups_partlyWritten] at member
    obtain ⟨grp, present, rfl⟩ := List.mem_map.mp member
    rw [(samePaths grp).2]
    exact (saved grp present).1
  · intro grp' member
    rw [b.groups_partlyWritten] at member
    obtain ⟨grp, present, rfl⟩ := List.mem_map.mp member
    rw [(samePaths grp).2]
    exact (saved grp present).2
  · intro p below different present
    rcases partly.entries p below different present with isIds | ⟨grp, isGroup, isPath⟩
    · exact Or.inl isIds
    · refine Or.inr ⟨grp.partlyWritten rt b.regs.disk closed, ?_, ?_⟩
      · rw [b.groups_partlyWritten]
        exact List.mem_map_of_mem isGroup
      · rw [(samePaths grp).1, (samePaths grp).2]
        exact isPath

/-- The disk after the registry and some more stores were closed holds this bank. -/
theorem ReadBack.holdsContents_closing (read : ReadBack rt root opened items)
    (since : SinceOpened root deleted opened b) (count : Nat) {mixed : QuestionBank}
    (shown : (b.partlyWritten rt (b.firstStores count)).Shows mixed) :
    HoldsContents rt root (b.closing rt (count + 1)) mixed := by
  obtain ⟨ids, isOpen, _⟩ := since.sound.agrees.ids
  have partly := since.sound.partlyClosed rt isOpen (List.take_subset count _)
    (since.sound.closing_spec rt isOpen count)
  have sound := read.sound_partlyWritten since (b.firstStores count)
  obtain ⟨ids', isOpen', _, pairs⟩ := sound.agrees.ids
  obtain rfl : ids = ids' := Option.some.inj (isOpen.symm.trans isOpen')
  exact (read.left_partlyWritten since partly).holdsContents sound pairs shown

/-! ## What the next session finds -/

/-- A map between the one that was saved and the current one. It has all groups of the
current map. Those that were not written have the saved questions, or none when they were
not there or were deleted. -/
structure QuestionBank.PartlySaved (mixed : QuestionBank) (written deleted : String → Prop)
    (saved current : QuestionBank) : Prop where
  absent : ∀ id, current id = none → mixed id = none
  same : ∀ id, written id → mixed id = current id
  others : ∀ id now, ¬ written id → current id = some now →
    ∃ questions, mixed id = some { now with questions := questions } ∧
      ((∃ old, saved id = some old ∧ questions = old.questions) ∨
        (saved id = none ∨ deleted id) ∧ questions = fun _ => none)

/-- A group that a map has is that of a row of the bank. -/
theorem CQuestionBankImpl.Shows.row {bank : QuestionBank} (shown : b.Shows bank) {id : String}
    {entry : GroupEntry} (value : bank id = some entry) :
    ∃ row ∈ parentRows b.clsQuestionBank, ∃ above, row.1 = some above ∧
      row.2.entry above.1 = entry ∧ row.2.strId = id ∧ row.2 ∈ b.groups := by
  obtain ⟨member, rfl⟩ := (shown.mem_iff id entry).mp value
  obtain ⟨row, isRow, above, isAbove, rfl⟩ := mem_entries.mp member
  exact ⟨row, isRow, above, isAbove, rfl, rfl,
    SinceOpened.mem_groups_of_row isRow (by rw [isAbove]; simp)⟩

/-- The questions that the disk has of a group that was not written. -/
theorem ReadBack.questions_onDisk (read : ReadBack rt root opened items)
    (since : SinceOpened root deleted opened b) {saved : QuestionBank}
    (shown : opened.Shows saved) {grp : GroupMembers} (present : grp ∈ b.groups) (pid : String) :
    let questions := ((grp.onDisk rt b.regs.disk).entry pid).questions
    (∃ old, saved grp.strId = some old ∧ questions = old.questions) ∨
      (saved grp.strId = none ∨ deleted grp.strId) ∧ questions = fun _ => none := by
  intro questions
  have isQuestions : questions = fun qid =>
      find QuestionAnswer.id qid (recordsOnDisk rt b.regs.disk grp) := by
    funext qid
    exact congrArg (find QuestionAnswer.id qid) (grp.onDisk_records rt b.regs.disk)
  by_cases remains : saved grp.strId = none ∨ deleted grp.strId
  · rcases (read.recordsOnDisk_cases since present).2.2 with
      empty | ⟨old, isGroup, samePath, same⟩
    · right
      refine ⟨remains, ?_⟩
      rw [isQuestions, empty]
      rfl
    · left
      obtain ⟨pid', isEntry⟩ := entry_of_mem_groups isGroup
      have sameId : old.strId = grp.strId := by
        rw [(read.sound.groups old isGroup).datPath_eq,
          (since.sound.groups grp present).datPath_eq] at samePath
        have sameFile := List.singleton_inj.mp (List.append_inj' samePath rfl).2
        have texts := congrArg String.toList sameFile
        rw [String.toList_append, String.toList_append] at texts
        exact String.toList_injective (List.append_cancel_right texts)
      refine ⟨old.entry pid', (shown.mem_iff _ _).mpr ⟨isEntry, sameId⟩, ?_⟩
      rw [isQuestions, same]
      rfl
  · left
    rw [not_or] at remains
    obtain ⟨old, value⟩ := Option.ne_none_iff_exists'.mp remains.1
    obtain ⟨row, isRow, above, isAbove, rfl, sameId, isGroup⟩ := shown.row value
    -- the file of a group that was not deleted is still there
    obtain ⟨file, row', isRow', sameAbove, sameIdentity⟩ :=
      since.kept row isRow (by rw [isAbove]; simp) (sameId ▸ remains.2)
    obtain ⟨sameId', _, samePath⟩ : row'.2.strId = row.2.strId ∧
        row'.2.strName = row.2.strName ∧ row'.2.strPath = row.2.strPath := by
      simpa [GroupMembers.identity] using sameIdentity
    have isGrp : row'.2 = grp := List.inj_on_of_nodup_map since.sound.agrees.nodup_ids
      (SinceOpened.mem_groups_of_row isRow' (by rw [sameAbove, isAbove]; simp)) present
      (sameId'.trans sameId)
    have sameFile : grp.datPath = row.2.datPath := by
      rw [← isGrp, GroupMembers.datPath, GroupMembers.datPath, sameId', samePath]
    have decoded := read.left.records row.2 isGroup
    rw [← decodedAt_congr rt.parseQuestions (FileSystem.contentsAt_congr file)] at decoded
    refine ⟨row.2.entry above.1, value, ?_⟩
    rw [isQuestions, recordsOnDisk, sameFile, decoded]
    rfl

/-- The map of the bank that the disk holds. -/
theorem ReadBack.partlySaved (read : ReadBack rt root opened items)
    (since : SinceOpened root deleted opened b) (count : Nat) {saved current mixed : QuestionBank}
    (before : opened.Shows saved) (now : b.Shows current)
    (shown : (b.partlyWritten rt (b.firstStores count)).Shows mixed) :
    mixed.PartlySaved (b.IsWritten count) deleted saved current := by
  -- a group of the current map and what the disk has of it
  have onDisk : ∀ {id entry}, current id = some entry → ∃ grp ∈ b.groups, ∃ pid,
      grp.strId = id ∧ entry = grp.entry pid ∧
        mixed id = some ((grp.partlyWritten rt b.regs.disk (b.firstStores count)).entry pid) := by
    intro id entry value
    obtain ⟨row, isRow, above, isAbove, rfl, rfl, isGroup⟩ := now.row value
    refine ⟨row.2, isGroup, above.1, rfl, rfl, (shown.mem_iff _ _).mpr ⟨?_, ?_⟩⟩
    · rw [mem_entries, b.parentRows_partlyWritten]
      exact ⟨_, List.mem_map_of_mem isRow, above, isAbove, rfl⟩
    · exact congrArg Prod.fst (row.2.partlyWritten_identity rt b.regs.disk _)
  have absent : ∀ id, current id = none → mixed id = none := by
    intro id noGroup
    rw [shown.eq_none_iff, b.groups_partlyWritten]
    intro grp' member
    obtain ⟨grp, present, rfl⟩ := List.mem_map.mp member
    have sameId : (grp.partlyWritten rt b.regs.disk (b.firstStores count)).strId = grp.strId :=
      congrArg Prod.fst (grp.partlyWritten_identity rt b.regs.disk _)
    rw [sameId]
    exact now.eq_none_iff.mp noGroup grp present
  refine ⟨absent, ?_, ?_⟩
  · intro id isWritten
    cases value : current id with
    | none => exact absent id value
    | some entry =>
        obtain ⟨grp, present, pid, sameId, rfl, isMixed⟩ := onDisk value
        rw [isMixed, GroupMembers.partlyWritten, if_pos (isWritten grp present sameId)]
  · intro id entry notWritten value
    obtain ⟨grp, present, pid, rfl, rfl, isMixed⟩ := onDisk value
    have notFirst : ¬ grp.vecQuestions ⊆ b.firstStores count := by
      intro first
      apply notWritten
      intro other isOther sameId
      obtain rfl := List.inj_on_of_nodup_map since.sound.agrees.nodup_ids isOther present sameId
      exact first
    rw [GroupMembers.partlyWritten, if_neg notFirst] at isMixed
    exact ⟨_, isMixed, read.questions_onDisk since before present pid⟩

end Closing

namespace Session

/-- When the program stops while `uninit` closes the last of any number of sessions, after
the registry and some of the files, all further sessions find every group. Its questions are
the current ones when its file was written, else those of the session before. When all files
were written, this is where `uninit` ends. -/
theorem run_partlyClosed (rt : Runtime) {root : Path} {disk : Disk}
    (nothingYet : NothingYet root disk) {sessions : List Session} {last : Session}
    (proper : Machine.Allowed (perform rt root) (Proper rt root) (sessions ++ [last]) disk)
    (count : Nat) :
    let b := last.used rt root (Machine.run (perform rt root) sessions disk).2
    let stopped := b.closing rt (count + 1)
    ((stores b.clsQuestionBank).length ≤ count → stopped = (b.uninit rt).2.regs.disk) ∧
    ∃ mixed : QuestionBank,
      mixed.PartlySaved (b.IsWritten count) (Deletes last.calls)
        (Machine.run onMap sessions fun _ => none).2
        (Machine.run onMap (sessions ++ [last]) fun _ => none).2 ∧
      ∀ more, Machine.Allowed (perform rt root) (Proper rt root) more stopped →
        (Machine.run (performWithAnswers rt root) more stopped).1 =
            (Machine.run onMap more mixed).1 ∧
          HoldsContents rt root (Machine.run (performWithAnswers rt root) more stopped).2
            (Machine.run onMap more mixed).2 := by
  intro b stopped
  rw [Machine.allowed_append] at proper
  obtain ⟨opened, items, initialised, read⟩ :=
    run_readsBack rt nothingYet proper.1 last.entries proper.2.1.1
  obtain ⟨_, holds⟩ := run_persistent rt nothingYet proper.1
  rw [Machine.run_state_congr (performWithAnswers_state rt root)] at holds
  obtain ⟨opened', initialised', _, before⟩ := holds last.entries proper.2.1.1
  obtain rfl : opened = opened' := congrArg Prod.snd (initialised.symm.trans initialised')
  have isOpened : last.opened rt root (Machine.run (perform rt root) sessions disk).2 =
      (.value true, opened) := initialised
  have calls := proper.2.1.2
  rw [isOpened] at calls
  have since := SinceOpened.run rt read.sound calls
  obtain ⟨_, _, now⟩ := calls_refine rt read.sound before calls
  have isUsed : (Machine.run (BankCall.perform rt) last.calls opened).2 = b := by
    change _ = last.used rt root _
    rw [used, isOpened]
  rw [isUsed] at since now
  have current : (Machine.run onMap (sessions ++ [last]) fun _ => none).2 =
      (Machine.run BankCall.onMap last.calls (Machine.run onMap sessions fun _ => none).2).2 := by
    rw [Machine.run_append]
    rfl
  rw [← current] at now
  have shown := lists_find (distinct_entries
    (read.sound_partlyWritten since (b.firstStores count)).ready.distinct_all)
  refine ⟨since.sound.closing_all rt, _, read.partlySaved since count before now shown, ?_⟩
  intro more allowed
  exact run_refines rt (read.holdsContents_closing since count shown) allowed

theorem run_partlyClosed_secondSession :
    let b := secondSession.used .wire ["root"]
      (Machine.run (perform .wire ["root"]) [firstSession] FileSystem.empty).2
    let stopped := b.closing .wire 1
    ((stores b.clsQuestionBank).length ≤ 0 → stopped = (b.uninit .wire).2.regs.disk) ∧
    ∃ mixed : QuestionBank,
      mixed.PartlySaved (b.IsWritten 0) (Deletes secondSession.calls)
        (Machine.run onMap [firstSession] fun _ => none).2
        (Machine.run onMap ([firstSession] ++ [secondSession]) fun _ => none).2 ∧
      ∀ more, Machine.Allowed (perform .wire ["root"]) (Proper .wire ["root"]) more stopped →
        (Machine.run (performWithAnswers .wire ["root"]) more stopped).1 =
            (Machine.run onMap more mixed).1 ∧
          HoldsContents .wire ["root"]
            (Machine.run (performWithAnswers .wire ["root"]) more stopped).2
            (Machine.run onMap more mixed).2 :=
  run_partlyClosed .wire (.absent rfl (by decide)) (by decide +kernel) 0

end Session

end Notebook
