import Notebook.Sessions.Interrupted

/-!
# Sessions that change nothing

Closing a bank writes every store again. When all calls of a session are queries or are
refused, the bytes written are those that were read, and the disk is the same before and
after the session.
-/

namespace Notebook

open RoseTree KeyedList CQuestionAnswerImpl CQuestionBankImpl

/-! ## Bytes on the disk -/

/-- The registry and the files of a bank, byte for byte. -/
structure WrittenOut (rt : Runtime) (root : Path) (b : CQuestionBankImpl)
    (items : List QuestionAnswerGroup) (disk : Disk) : Prop where
  registry : disk.node (idsPath root) = recordsNode rt.serializeGroups items
  files : ∀ grp ∈ b.groups, disk.node grp.datPath = recordsNode rt.serializeQuestions grp.records

namespace Sound

variable {root : Path} {b : CQuestionBankImpl}

/-- The stores of a bank that agrees with its directory can be closed. -/
theorem closes (rt : Runtime) (sound : Sound root b) {ids : CQuestionAnswerImpl}
    (opened : b.regs.ptrIds = some ids) :
    ClosedAll rt (ids :: stores b.clsQuestionBank) b.regs.disk (b.uninit rt).2.regs.disk := by
  obtain ⟨disk, done, all⟩ := uninit_spec rt opened (sound.distinct_files opened)
    (sound.closable opened)
  rw [done]
  exact all

/-- Where the parent of a group or of the registry stands, its file can be written. -/
theorem hasParent_datPath (sound : Sound root b) {grp : GroupMembers}
    (present : grp ∈ b.groups) : b.regs.disk.HasParent grp.datPath := by
  have kept := sound.groups grp present
  rw [kept.datPath_eq]
  exact FileSystem.hasParent_append_singleton kept.directory

theorem hasParent_idsPath (sound : Sound root b) : b.regs.disk.HasParent (idsPath root) :=
  FileSystem.hasParent_append_singleton sound.root_directory

/-- What a store of the tree writes. -/
theorem written_store (rt : Runtime) (sound : Sound root b) {ctx : CQuestionAnswerImpl}
    (member : ctx ∈ stores b.clsQuestionBank) :
    ∃ grp ∈ b.groups, ctx.strPath = grp.datPath ∧
      ctx.written rt b.regs.disk = recordsNode rt.serializeQuestions grp.records := by
  obtain ⟨grp, present, isStore⟩ := sound.mem_stores member
  have kept := sound.groups grp present
  rcases kept.stores_cases with empty | ⟨other, only, path, noGroups⟩
  · rw [empty] at isStore
    cases isStore
  · rw [only, List.mem_singleton] at isStore
    subst isStore
    have records : grp.records = ctx.lstQuestions := by simp [GroupMembers.records, only]
    refine ⟨grp, present, path, ?_⟩
    rw [written_of_questions rt noGroups (path ▸ sound.hasParent_datPath present), records]

/-- What closing a bank leaves, byte for byte. -/
theorem writtenOut (rt : Runtime) (sound : Sound root b) {ids : CQuestionAnswerImpl}
    (opened : b.regs.ptrIds = some ids) :
    WrittenOut rt root b ids.lstGroups (b.uninit rt).2.regs.disk := by
  obtain ⟨isIds, noQuestions⟩ := sound.ids ids opened
  have closed := sound.closes rt opened
  constructor
  · rw [← isIds, closed.written ids List.mem_cons_self]
    exact written_of_groups rt noQuestions (isIds ▸ sound.hasParent_idsPath)
  · intro grp present
    have kept := sound.groups grp present
    by_cases hasStore : ∃ ctx ∈ stores b.clsQuestionBank, ctx.strPath = grp.datPath
    · obtain ⟨ctx, member, path⟩ := hasStore
      obtain ⟨other, isGroup, samePath, written⟩ := sound.written_store rt member
      obtain rfl := sound.eq_of_datPath present isGroup (path.symm.trans samePath)
      rw [← path, closed.written ctx (List.mem_cons_of_mem ids member), written]
    · have noStore : grp.vecQuestions = [] := by
        rw [List.eq_nil_iff_forall_not_mem]
        intro ctx isStore
        exact hasStore ⟨ctx, List.mem_flatMap.mpr
          ⟨grp, mem_preorder_of_mem_descendants present, isStore⟩, (kept.stores ctx isStore).1⟩
      rw [closed.untouched, kept.unopened noStore, GroupMembers.records, noStore]
      · rfl
      · intro ctx member path
        rcases List.mem_cons.mp member with rfl | inTree
        · exact kept.datPath_ne_ids (path.symm.trans isIds)
        · exact hasStore ⟨ctx, inTree, path⟩

end Sound

/-! ## Calls that change nothing -/

/-- Whether a question call only reads. -/
def QuestionCall.isQuery : QuestionCall → Bool
  | .query _ _ => true
  | _ => false

/-- A query, or a call that is refused. -/
def BankCall.ChangesNothing (call : BankCall) (_ : CQuestionBankImpl) (answer : Outcome Bool) :
    Prop :=
  match call with
  | .question call => call.isQuery = true ∨ answer = .value false
  | .group _ => answer = .value false

instance (call : BankCall) (b : CQuestionBankImpl) (answer : Outcome Bool) :
    Decidable (call.ChangesNothing b answer) :=
  match call with
  | .question call => inferInstanceAs (Decidable (call.isQuery = true ∨ answer = .value false))
  | .group _ => inferInstanceAs (Decidable (answer = .value false))

/-- A bank with the groups, the records and the disk of another one. -/
structure SameData (root : Path) (opened b : CQuestionBankImpl) : Prop where
  sound : Sound root b
  disk : b.regs.disk = opened.regs.disk
  ids : b.regs.ptrIds.map (·.lstGroups) = opened.regs.ptrIds.map (·.lstGroups)
  groups : ∀ grp ∈ b.groups, ∃ old ∈ opened.groups,
    old.datPath = grp.datPath ∧ old.records = grp.records

namespace SameData

variable {root : Path} {opened b : CQuestionBankImpl}

theorem refl (sound : Sound root b) : SameData root b b :=
  ⟨sound, rfl, rfl, fun grp present => ⟨grp, present, rfl, rfl⟩⟩

theorem withMessage (same : SameData root opened b) (message : Bytes) :
    SameData root opened (b.withMessage message) :=
  ⟨same.sound.withMessage message, same.disk, same.ids, same.groups⟩

/-- A store that is used without effect. -/
theorem useStore_sameRecords {call : QuestionCall} {ctx : CQuestionAnswerImpl}
    (opened : ctx.strPath ≠ [])
    (nothing : call.isQuery = true ∨ (call.useStore ctx).1.1 = false) :
    SameRecords ctx (call.useStore ctx).2 := by
  cases call with
  | query gid qid => exact queryQuestion_sameRecords ctx qid
  | add gid qid question answer =>
      have refused := nothing.resolve_left (by simp [QuestionCall.isQuery])
      rw [QuestionCall.useStore] at refused ⊢
      rcases addQuestion_cases opened
        { strGroup := gid, strId := qid, strQuestion := question, strAnswer := answer } with
        ⟨_, _, same⟩ | ⟨_, done⟩
      · exact same
      · rw [done] at refused
        cases refused
  | delete gid qid =>
      have refused := nothing.resolve_left (by simp [QuestionCall.isQuery])
      rw [QuestionCall.useStore] at refused ⊢
      rcases deleteQuestion_cases opened qid with ⟨_, _, same⟩ | ⟨_, _, _, _, _, _, done⟩
      · exact same
      · rw [done] at refused
        cases refused
  | update gid qid question answer =>
      have refused := nothing.resolve_left (by simp [QuestionCall.isQuery])
      rw [QuestionCall.useStore] at refused ⊢
      rcases updateQuestion_cases opened
        { strGroup := gid, strId := qid, strQuestion := question, strAnswer := answer } with
        ⟨_, _, same⟩ | ⟨_, _, _, _, _, _, done⟩
      · exact same
      · simp only [done] at refused
        cases refused

theorem question (rt : Runtime) (same : SameData root opened b) {call : QuestionCall}
    (nothing : call.isQuery = true ∨ (call.perform rt b).1.1 = false) :
    SameData root opened (call.perform rt b).2 := by
  have sound := same.sound.question rt call
  rcases call.perform_cases rt same.sound.ready with
    ⟨_, message, failed⟩ | ⟨grp, present, isId, done⟩
  · rw [failed]
    exact same.withMessage _
  · rw [done] at nothing sound ⊢
    have usable := same.sound.ready.usable grp present
    have records := useStore_sameRecords usable.context_opened nothing
    refine ⟨sound, same.disk, same.ids, ?_⟩
    intro grp' member
    rw [CQuestionBankImpl.groups, putStore, descendants_map] at member
    obtain ⟨old, isOld, rfl⟩ := List.mem_map.mp member
    obtain ⟨first, isFirst, samePath, sameRecords⟩ := same.groups old isOld
    refine ⟨first, isFirst, ?_⟩
    unfold replaceStore
    split
    · rename_i sameId
      have isGrp : old = grp := List.inj_on_of_nodup_map same.sound.agrees.nodup_ids isOld present
        (sameId.trans isId.symm)
      subst isGrp
      rw [GroupMembers.withStore_datPath, usable.records_withStore, records.questions,
        ← usable.records_eq]
      exact ⟨samePath, sameRecords⟩
    · exact ⟨samePath, sameRecords⟩

theorem add (rt : Runtime) (same : SameData root opened b) {pid name id : String}
    (isName : IsGroupName root name)
    (refused : (b.addGroup rt pid name id).1 = .value false) :
    SameData root opened (b.addGroup rt pid name id).2 := by
  obtain ⟨ids, isOpen, _⟩ := same.sound.agrees.ids
  have way := b.addGroup_result rt same.sound.agrees.uniqueIds isOpen pid name id
  generalize b.addGroup rt pid name id = result at way refused ⊢
  cases way with
  | refused message why => exact same.withMessage message
  | @added c parent groups ids' answer disk message tree selects isOpen' newId newName made =>
      have inTree : parent ∈ b.clsQuestionBank.preorder := by
        rw [tree, preorder_plug]
        simp
      have returned := same.sound.directory_made inTree isName newName made
      rw [show answer = _ from refused] at returned
      cases returned

theorem delete (rt : Runtime) (same : SameData root opened b) {pid id : String}
    (isLeaf : IsLeafOf pid id b.clsQuestionBank)
    (refused : (b.deleteGroup rt pid id).1 = .value false) :
    SameData root opened (b.deleteGroup rt pid id).2 := by
  have sound := same.sound.delete rt isLeaf
  have absent : ∀ grp ∈ b.groups, grp.strId ≠ id := by
    rintro grp present rfl
    obtain ⟨_, _, _, _, _, _, _, _, _, done⟩ := same.sound.deleteGroup_of_leaf rt isLeaf present
    rw [done] at refused
    cases refused
  obtain ⟨ids, isOpen, hasPath, pairs⟩ := same.sound.agrees.ids
  have sameIds : SameRecords ids (ids.deleteGroup id).2 := by
    rcases CQuestionAnswerImpl.deleteGroup_cases hasPath id with
      ⟨_, records⟩ | ⟨before, x, after, split, isId, _⟩
    · exact records
    · exfalso
      have isPair : groupPair x ∈ groupPairs b.clsQuestionBank := by
        rw [← pairs.mem_iff, split]
        exact List.mem_map_of_mem (List.mem_append_right _ List.mem_cons_self)
      obtain ⟨grp, present, equal⟩ := List.mem_map.mp isPair
      exact absent grp present ((congrArg Prod.fst equal).trans isId)
  have way := b.deleteGroup_result rt same.sound.agrees.uniqueIds isOpen pid id
  generalize b.deleteGroup rt pid id = result at way sound ⊢
  cases way with
  | noTarget why => exact same
  | @missing ids' message isOpen' =>
      obtain rfl := Option.some.inj (isOpen.symm.trans isOpen')
      refine ⟨sound, same.disk, ?_, same.groups⟩
      rw [← same.ids, isOpen]
      exact congrArg some sameIds.groups
  | @reached c parent before after found rest answer r tree selects split call frame =>
      exfalso
      apply absent found.label _ (firstChild_eq_some split).2
      rw [CQuestionBankImpl.groups, tree]
      exact mem_descendants_plug c parent before after found.label_mem_preorder

end SameData

/-- A call that changes nothing. -/
theorem SameData.call (rt : Runtime) {root : Path} {opened b : CQuestionBankImpl}
    (same : SameData root opened b) {call : BankCall}
    (inSession : call.InSession root b (call.perform rt b).1)
    (nothing : call.ChangesNothing b (call.perform rt b).1) :
    SameData root opened (call.perform rt b).2 := by
  rcases call with call | ⟨pid, name, id⟩ | ⟨pid, id⟩ | ⟨pid, id, name⟩
  · exact same.question rt (nothing.imp_right fun refused => Outcome.value.inj refused)
  · exact same.add rt inSession.1 nothing
  · exact same.delete rt inSession nothing
  · exact inSession.elim

/-- Closing a bank with the data that its disk holds writes the same bytes. -/
theorem SameData.node_uninit (rt : Runtime) {root : Path} {opened b : CQuestionBankImpl}
    (same : SameData root opened b) {ids : CQuestionAnswerImpl}
    (isOpen : opened.regs.ptrIds = some ids)
    (written : WrittenOut rt root opened ids.lstGroups opened.regs.disk) (q : Path) :
    (b.uninit rt).2.regs.disk.node q = opened.regs.disk.node q := by
  have sound := same.sound
  obtain ⟨ids', isOpen', _⟩ := sound.agrees.ids
  obtain ⟨isIds, noQuestions⟩ := sound.ids ids' isOpen'
  have closed := sound.closes rt isOpen'
  have sameGroups : ids'.lstGroups = ids.lstGroups := by
    have both := same.ids
    rw [isOpen, isOpen'] at both
    exact Option.some.inj both
  by_cases isStore : ∃ ctx ∈ ids' :: stores b.clsQuestionBank, ctx.strPath = q
  · obtain ⟨ctx, member, rfl⟩ := isStore
    rw [closed.written ctx member]
    rcases List.mem_cons.mp member with rfl | inTree
    · rw [written_of_groups rt noQuestions (isIds ▸ sound.hasParent_idsPath), sameGroups,
        isIds, written.registry]
    · obtain ⟨grp, present, path, wrote⟩ := sound.written_store rt inTree
      obtain ⟨old, isGroup, samePath, sameRecords⟩ := same.groups grp present
      rw [wrote, ← sameRecords, path, ← samePath, written.files old isGroup]
  · rw [closed.untouched q fun ctx member path => isStore ⟨ctx, member, path⟩, same.disk]

/-! ## Sessions -/

/-- A session that starts on the disk reads all that is there, and would write the same. -/
def ReadsBytes (rt : Runtime) (root : Path) (disk : Disk) : Prop :=
  ∀ entries, disk.IsListing root entries →
    ∃ b ids, (fresh disk Refusals.never).init rt root { entries := entries } =
        (.value true, b) ∧
      b.regs.disk = disk ∧ Sound root b ∧ b.regs.ptrIds = some ids ∧
      WrittenOut rt root b ids.lstGroups disk

theorem Sound.readsBytes (rt : Runtime) {root : Path} {b : CQuestionBankImpl}
    (sound : Sound root b) : ReadsBytes rt root (b.uninit rt).2.regs.disk := by
  intro entries listed
  obtain ⟨closedIds, isOpen, _⟩ := sound.agrees.ids
  have written := sound.writtenOut rt isOpen
  obtain ⟨next, initialised, soundNext, rows⟩ := sound.reinit rt listed
  have starts : ((fresh (b.uninit rt).2.regs.disk Refusals.never).init rt root
      { entries := entries }).1 = .value true := by rw [initialised]
  obtain ⟨ready, _, ⟨ids, opened, isIds, _⟩, _, _, _, _⟩ := init_inv starts
  rw [initialised] at ready opened isIds
  have sameDisk : next.regs.disk = (b.uninit rt).2.regs.disk := by
    apply ready.eq_of_present
    obtain ⟨_, _, _, _, sameDisk, left⟩ := sound.uninit rt
    change (b.uninit rt).2.regs.disk.node root ≠ none
    rw [sameDisk, (left.directories root).mpr sound.root_directory]
    simp
  obtain ⟨_, _, items, decoded, rfl⟩ := openFile_groups_iff.mp opened
  have sameItems : items = closedIds.lstGroups := by
    rw [sameDisk, decodedAt_of_recordsNode rt.parse_serializeGroups written.registry] at decoded
    exact (Option.some.inj decoded).symm
  refine ⟨next, _, initialised, sameDisk, soundNext, isIds, ?_, ?_⟩
  · rw [sameItems]
    exact written.registry
  · intro grp present
    obtain ⟨old, isGroup, rfl⟩ := descendants_of_rows rows present
    rw [GroupMembers.reopened_records]
    exact written.files old isGroup

namespace Session

/-- After any number of sessions, a session in which every call is a query or is refused
leaves every byte of the disk as it was. -/
theorem run_unchanged (rt : Runtime) {root : Path} {disk : Disk}
    (nothingYet : NothingYet root disk) {sessions : List Session} {last idle : Session}
    (proper : Machine.Allowed (perform rt root) (Proper rt root) (sessions ++ [last]) disk) :
    let before := (Machine.run (perform rt root) (sessions ++ [last]) disk).2
    before.IsListing root idle.entries →
    Machine.Allowed (BankCall.perform rt)
      (fun call b answer => call.InSession root b answer ∧ call.ChangesNothing b answer)
      idle.calls (idle.opened rt root before).2 →
    ∀ q, (idle.perform rt root before).2.node q = before.node q := by
  intro before listed calls
  obtain ⟨closed, sound, _, isClosed⟩ := exists_last rt nothingYet proper
  obtain ⟨b, ids, initialised, sameDisk, soundStart, isOpen, written⟩ :=
    sound.readsBytes rt idle.entries (isClosed ▸ listed)
  rw [← isClosed] at initialised sameDisk written
  have isOpened : idle.opened rt root before = (.value true, b) := initialised
  rw [isOpened] at calls
  have same : SameData root b (Machine.run (BankCall.perform rt) idle.calls b).2 :=
    Machine.run_preserves (fun _ _ same allowed => same.call rt allowed.1 allowed.2)
      (.refl soundStart) calls
  have isBefore : b.regs.disk = before := sameDisk
  intro q
  rw [perform, used, isOpened, ← isBefore]
  exact same.node_uninit rt isOpen (sameDisk ▸ written) q

/-- A session with a query, a name that is taken and a question that is not there. -/
def idleSession : Session where
  entries := secondSession.entries
  calls :=
    [.question (.query "2b" "q"), .group (.add "" "Verbs" "7f"),
      .question (.delete "3c" "q"), .question (.query "3c" "q")]

theorem run_unchanged_idleSession :
    let before := (Machine.run (perform .wire ["root"]) ([] ++ [firstSession])
      FileSystem.empty).2
    ∀ q, (idleSession.perform .wire ["root"] before).2.node q = before.node q :=
  @run_unchanged .wire ["root"] FileSystem.empty (.absent rfl (by decide)) [] firstSession
    idleSession (by decide +kernel) (by decide +kernel) (by decide +kernel)

end Session

end Notebook
