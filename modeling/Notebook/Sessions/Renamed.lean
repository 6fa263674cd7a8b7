import Mathlib.Data.Fintype.EquivFin
import Notebook.Sessions.Durable

/-!
# What a rename loses

`updateGroup` moves the directory of a group but leaves its cached path, and the paths of
the stores that are open, as they were. A question that is added to the group
afterwards is written to a file in a directory that is not there any more, without an
error, so the next `init` does not find it.
-/

namespace Notebook

open RoseTree CQuestionAnswerImpl CQuestionBankImpl

/-! ## Calls after a rename -/

/-- The ids of a group and of the groups below it. -/
def UnderGroup (gid : String) (qgp : CQuestionGroupParam) (id : String) : Prop :=
  ∃ c found, qgp = plug c found ∧ found.label.strId = gid ∧
    ∃ grp ∈ found.preorder, grp.strId = id

/-- The calls that may follow the rename of a group: edits of questions of the group and
of the groups below it, new groups under them, and further renames. -/
def BankCall.FollowsRename (root : Path) (gid : String) (call : BankCall)
    (b : CQuestionBankImpl) (_ : Outcome Bool) : Prop :=
  match call with
  | .question (.query _ _) => False
  | .question call => UnderGroup gid b.clsQuestionBank call.gid
  | .group (.add pid name id) =>
      UnderGroup gid b.clsQuestionBank pid ∧ IsGroupName root name ∧ IsUuidText id
  | .group (.update _ _ name) => IsGroupName root name
  | .group (.delete _ _) => False

/-- Whatever calls follow a rename that returned true, the groups and their questions
survive. -/
def RenameKeeps (rt : Runtime) (root : Path) (pid gid name : String)
    (b : CQuestionBankImpl) : Prop :=
  ∀ calls,
    Machine.Allowed (BankCall.perform rt) (BankCall.FollowsRename root gid) calls
      (b.updateGroup rt pid gid name).2 →
    (Machine.run (BankCall.perform rt) calls (b.updateGroup rt pid gid name).2).2.Survives
      rt root

/-! ## The bank after a rename -/

/-- A bank after a group was renamed: it can go on, but the directory at the cached path of
the group is not there. -/
structure AfterRename (root : Path) (b : CQuestionBankImpl) (found : GroupMembers)
    (name : String) (b' : CQuestionBankImpl) : Prop where
  ready : b'.QuestionsReady
  ids : ∀ ids ∈ b'.regs.ptrIds, ids.strPath = idsPath root
  gone : b'.regs.disk.node found.strPath = none
  renamed : { found with strName := name } ∈ b'.groups
  stores : ∀ ctx ∈ stores b'.clsQuestionBank, ctx ∈ stores b.clsQuestionBank

namespace Sound

variable {root : Path} {b : CQuestionBankImpl}

/-- A rename to an unused name that returns true has moved the directory. -/
theorem updateGroup_moves (rt : Runtime) (sound : Sound root b) {pid gid name : String}
    (isName : IsGroupName root name) (isNew : b.regs.mapIds.hasName name = false)
    (returned : (b.updateGroup rt pid gid name).1 = .value true) :
    ∃ found ∈ b.groups, found.strId = gid ∧
      AfterRename root b found name (b.updateGroup rt pid gid name).2 := by
  obtain ⟨ids, opened, idsOpened, _⟩ := sound.agrees.ids
  have way := b.updateGroup_result rt sound.agrees.uniqueIds opened pid gid name
  generalize b.updateGroup rt pid gid name = result at way returned ⊢
  cases way with
  | refused => cases returned
  | @updated c parent before after found ids' answer disk message tree selects isFound opened'
      moved =>
      obtain rfl := Option.some.inj (opened.symm.trans opened')
      have inGroups : found.label ∈ b.groups := by
        rw [CQuestionBankImpl.groups, tree]
        exact mem_descendants_plug c parent before after found.label_mem_preorder
      have inTree := mem_preorder_of_mem_descendants inGroups
      have kept := sound.groups found.label inGroups
      have path : found.label.strPath = parent.strPath ++ [found.label.strName] := by
        have isRow := child_mem_parentRows c parent before after found
        rw [← tree] at isRow
        exact sound.rows _ isRow parent.identity rfl
      have otherName : found.label.strName ≠ name := by
        rintro rfl
        rw [IdMap.hasName_eq_false_iff, (sound.agrees.mapIds.map Prod.snd).mem_iff, groupPairs,
          List.map_map] at isNew
        exact isNew (List.mem_map_of_mem (f := Prod.snd ∘ GroupMembers.pair) inGroups)
      have otherPath : found.label.strPath ≠ parent.strPath ++ [name] := by
        rw [path]
        intro same
        exact otherName (List.singleton_inj.mp (List.append_inj' same rfl).2)
      rw [isName.component.join] at moved
      have renames : b.regs.disk.rename found.label.strPath (parent.strPath ++ [name]) =
          some disk := by
        rcases moved with ⟨_, renames⟩ | ⟨isFalse, _⟩
        · exact Refusals.rename_of_allowed renames
        · simp only at returned
          rw [returned] at isFalse
          cases isFalse
      obtain ⟨allowed, rfl⟩ : ∃ allowed, disk =
          b.regs.disk.moved found.label.strPath (parent.strPath ++ [name]) allowed := by
        rcases FileSystem.rename_cases renames with ⟨same, _⟩ | isMoved
        · exact absurd same otherPath
        · exact isMoved
      have sourceApart : ¬ parent.strPath ++ [name] <+: found.label.strPath := by
        intro above
        have lengths : (parent.strPath ++ [name]).length = found.label.strPath.length := by
          rw [path, List.length_append, List.length_append]
          rfl
        exact otherPath (above.eq_of_length lengths).symm
      -- nothing of the bank lies at or below the new directory
      have noFile : ∀ grp ∈ b.groups, ¬ parent.strPath ++ [name] <+: grp.datPath := by
        intro grp present above
        have keptGrp := sound.groups grp present
        rw [keptGrp.datPath_eq, List.prefix_concat_iff] at above
        rcases above with same | above
        · exact isName.ne_append_dat _ (List.singleton_inj.mp (List.append_inj' same rfl).2)
        · have absent := FileSystem.node_eq_none_below allowed.2.1 (by simp) above
          rw [keptGrp.directory] at absent
          cases absent
      have renamedPerm := map_descendants_plug_lift (f := fun grp : GroupMembers => grp) c
        parent before { found.label with strName := name } found.children after
      have oldPerm := map_descendants_plug_lift (f := fun grp : GroupMembers => grp) c
        parent before found.label found.children after
      rw [node_label_children, ← tree] at oldPerm
      rw [List.map_id', List.map_id'] at renamedPerm oldPerm
      have sameMembers : ∀ grp' ∈ (plug c (.node parent
          (before ++ .node { found.label with strName := name } found.children ::
            after))).descendants,
          ∃ grp ∈ b.groups, grp'.strId = grp.strId ∧ grp'.strPath = grp.strPath ∧
            grp'.vecQuestions = grp.vecQuestions := by
        intro grp' member
        rcases List.mem_append.mp (renamedPerm.mem_iff.mp member) with other | isRenamed
        · exact ⟨grp', oldPerm.mem_iff.mpr (List.mem_append_left _ other), rfl, rfl, rfl⟩
        · rw [List.mem_singleton.mp isRenamed]
          exact ⟨found.label, inGroups, rfl, rfl, rfl⟩
      have sameLabel : (plug c (.node parent (before ++
          .node { found.label with strName := name } found.children :: after))).label =
            b.clsQuestionBank.label := by
        rw [tree]
        exact label_plug_congr (f := fun grp : GroupMembers => grp) c rfl
      refine ⟨found.label, inGroups, isFound, ⟨?_, sound.ready.empty_id, ?_, ?_, ?_, ?_⟩, ?_, ?_,
        renamedPerm.mem_iff.mpr (List.mem_append_right _ List.mem_cons_self), ?_⟩
      · rw [sameLabel]
        exact sound.agrees.root
      · intro grp' member
        obtain ⟨grp, present, sameId, _⟩ := sameMembers grp' member
        rw [sameId]
        exact sound.ready.id_ne_empty grp present
      · have oldIds := (oldPerm.map GroupMembers.strId).nodup_iff.mp sound.agrees.nodup_ids
        rw [List.map_append] at oldIds
        refine ((renamedPerm.map GroupMembers.strId).nodup_iff).mpr ?_
        rw [List.map_append]
        exact oldIds
      · intro grp' member
        obtain ⟨grp, present, sameId, _⟩ := sameMembers grp' member
        rw [sameId]
        exact sound.ready.registered grp present
      · intro grp' member
        obtain ⟨grp, present, sameId, samePath, sameStores⟩ := sameMembers grp' member
        have usable := sound.ready.usable grp present
        refine ⟨sameStores ▸ usable.single, sameStores ▸ usable.opened,
          sameStores ▸ usable.distinct, fun empty => ?_⟩
        have absent := (sound.groups grp present).unopened (sameStores ▸ empty)
        rw [FileSystem.isPresent_eq_false_iff, GroupMembers.datPath, samePath, sameId,
          ← GroupMembers.datPath, FileSystem.node_moved, if_neg (noFile grp present)]
        split
        · rfl
        · exact absent
      · intro ids'' isIds
        obtain rfl := Option.some.inj isIds
        have isPath := (sound.ids ids opened).1
        rcases CQuestionAnswerImpl.updateGroup_cases idsOpened gid name with
          ⟨_, same⟩ | ⟨front, x, back, _, _, _, done⟩
        · exact same.path.trans isPath
        · rw [done]
          exact isPath
      · rw [FileSystem.node_moved, if_neg sourceApart, if_pos List.prefix_rfl]
      · intro ctx member
        obtain ⟨grp', inTree', isStore⟩ := List.mem_flatMap.mp member
        rw [preorder_eq_label_cons, List.mem_cons] at inTree'
        rcases inTree' with rfl | below
        · rw [sameLabel, sound.root_group] at isStore
          cases isStore
        · obtain ⟨grp, present, _, _, sameStores⟩ := sameMembers grp' below
          exact List.mem_flatMap.mpr
            ⟨grp, mem_preorder_of_mem_descendants present, sameStores ▸ isStore⟩

end Sound

/-! ## A question that no file has -/

/-- No directory stands at a path, and no file that `init` opens has a question with a
given id. -/
structure Unaware (rt : Runtime) (gone : Path) (qid : String) (disk : Disk) : Prop where
  gone : disk.node gone ≠ some .directory
  files : ∀ p, p.filename ≠ "ids.dat" → ∀ items,
    decodedAt rt.parseQuestions disk p = some items → ∀ qa ∈ items, qa.id ≠ qid

/-- A store that writes nothing where `init` would find the question: it is that of the
ids, its directory is gone, or it does not have the question. -/
inductive Harmless (gone : Path) (qid : String) (ctx : CQuestionAnswerImpl) : Prop
  | registry (isIds : ctx.strPath.filename = "ids.dat")
  | orphan {file : String} (path : ctx.strPath = gone ++ [file])
  | without (noGroups : ctx.lstGroups = []) (others : ∀ qa ∈ ctx.lstQuestions, qa.id ≠ qid)

theorem keptByClose_unaware {rt : Runtime} {gone : Path} {qid : String} (nonempty : gone ≠ [])
    {ctx : CQuestionAnswerImpl} (harmless : Harmless gone qid ctx) :
    KeptByClose rt (Unaware rt gone qid) ctx := by
  intro disk disk' unaware closed
  have here := node_of_close_here closed
  constructor
  · intro directory
    by_cases same : ctx.strPath = gone
    · subst same
      rcases here with before | none | ⟨_, _, written⟩
      · exact unaware.gone (before.symm.trans directory)
      · rw [none] at directory
        cases directory
      · rw [written] at directory
        cases directory
    · exact unaware.gone ((node_of_close closed same).symm.trans directory)
  · intro p notIds items decoded
    by_cases same : ctx.strPath = p
    · subst same
      rcases here with before | none | ⟨parent, records, written⟩
      · rw [decodedAt_congr _ (FileSystem.contentsAt_congr before)] at decoded
        exact unaware.files _ notIds items decoded
      · rw [decodedAt, FileSystem.contentsAt_of_absent none] at decoded
        obtain rfl := Option.some.inj decoded
        simp
      · cases harmless with
        | registry isIds => exact absurd isIds notIds
        | orphan path =>
            exfalso
            rw [path] at parent
            have directory := parent.2
            rw [List.dropLast_concat, FileSystem.isDirectory_iff] at directory
            exact unaware.gone (directory.resolve_left nonempty)
        | without noGroups others =>
            have questions := records.resolve_left (fun groups => groups noGroups)
            rw [decodedAt, FileSystem.contentsAt_of_node written] at decoded
            simp only [contents, noGroups, if_true, List.nil_append, if_neg questions] at decoded
            rw [rt.parse_serializeQuestions] at decoded
            obtain rfl := Option.some.inj decoded
            exact others
    · rw [decodedAt_congr _ (FileSystem.contentsAt_congr (node_of_close closed same))] at decoded
      exact unaware.files p notIds items decoded

/-- There is an id that no record on the disk and in given stores has. -/
theorem exists_new_question_id (rt : Runtime) (disk : Disk)
    (stores : List CQuestionAnswerImpl) :
    ∃ qid, (∀ p items, decodedAt rt.parseQuestions disk p = some items →
        ∀ qa ∈ items, qa.id ≠ qid) ∧
      ∀ ctx ∈ stores, ∀ qa ∈ ctx.lstQuestions, qa.id ≠ qid := by
  obtain ⟨qid, isNew⟩ := Infinite.exists_notMem_finset
    ((disk.support.flatMap fun p => (decodedAt rt.parseQuestions disk p).getD []) ++
      stores.flatMap CQuestionAnswerImpl.lstQuestions |>.map QuestionAnswer.id).toFinset
  rw [List.mem_toFinset, List.map_append, List.mem_append, not_or] at isNew
  refine ⟨qid, ?_, ?_⟩
  · rintro p items decoded qa member rfl
    apply isNew.1
    have inSupport : p ∈ disk.support := by
      apply disk.mem_support
      intro absent
      rw [decodedAt, FileSystem.contentsAt_of_absent absent] at decoded
      obtain rfl := Option.some.inj decoded
      cases member
    refine List.mem_map_of_mem (List.mem_flatMap.mpr ⟨p, inSupport, ?_⟩)
    rw [decoded]
    exact member
  · rintro ctx inStores qa member rfl
    exact isNew.2 (List.mem_map_of_mem (List.mem_flatMap.mpr ⟨ctx, inStores, member⟩))

/-- A question in memory that no file has after closing is lost. -/
theorem not_survives {rt : Runtime} {root gone : Path} {qid : String} {b : CQuestionBankImpl}
    (unaware : Unaware rt gone qid (b.uninit rt).2.regs.disk)
    {grp : GroupMembers} (present : grp ∈ b.clsQuestionBank.preorder)
    {qa : QuestionAnswer} (isRecord : qa ∈ grp.records) (isId : qa.id = qid) :
    ¬ b.Survives rt root := by
  rintro ⟨_, survives⟩
  obtain ⟨entries, listed⟩ := FileSystem.exists_listing (b.uninit rt).2.regs.disk root
  obtain ⟨starts, perm⟩ := survives entries listed
  have initialised := init_inv starts
  have read := (storesOfListing_of_init initialised rfl).read
  rw [← map_snd_parentRows] at present
  obtain ⟨row, isRow, rfl⟩ := List.mem_map.mp present
  have shown := perm.mem_iff.mpr (List.mem_map_of_mem (f := fun row :
    Option (String × String × Path) × GroupMembers =>
      (row.1.map Prod.fst, row.2.strId, row.2.strName, row.2.records)) isRow)
  obtain ⟨next, isNext, equal⟩ := List.mem_map.mp shown
  have sameRecords : next.2.records = row.2.records := by
    simp only [Prod.mk.injEq] at equal
    exact equal.2.2.2
  rw [← sameRecords] at isRecord
  obtain ⟨ctx, isStore, inStore⟩ := List.mem_flatMap.mp isRecord
  have inTree : ctx ∈ stores ((fresh (b.uninit rt).2.regs.disk Refusals.never).init rt root
      { entries := entries }).2.clsQuestionBank :=
    List.mem_flatMap.mpr ⟨next.2, snd_mem_preorder_of_mem_inherited isNext, isStore⟩
  obtain ⟨isFile, items, decoded, isCtx⟩ := read ctx inTree
  rw [decodedAt_congr _ (initialised.root.contentsAt _)] at decoded
  rw [isCtx] at inStore
  exact unaware.files _ (isFile_of_isStoreEntry isFile).2 items decoded qa inStore isId

/-! ## The lost question -/

/-- A question with a new id is added to a renamed group, in the store that is on the file
below the cached path. -/
theorem AfterRename.addQuestion (rt : Runtime) {root : Path} {b b' : CQuestionBankImpl}
    {found : GroupMembers} {name : String}
    (after : AfterRename root b found name b') (kept : found.Kept root b.regs.disk)
    {qid : String} (isNew : ∀ ctx ∈ found.vecQuestions, ∀ qa ∈ ctx.lstQuestions, qa.id ≠ qid) :
    ∃ ctx : CQuestionAnswerImpl, ctx.strPath = found.datPath ∧
      { id := qid, group := found.strId } ∈ ctx.lstQuestions ∧
      (BankCall.question (.add found.strId qid "" "")).perform rt b' =
        (.value true, b'.putStore found.strId ctx) := by
  have sameContext : ({ found with strName := name } : GroupMembers).context =
      found.context := rfl
  rcases (QuestionCall.add found.strId qid "" "").perform_cases rt after.ready with
    ⟨noGroup, _⟩ | ⟨grp, present, isId, done⟩
  · exact absurd rfl (noGroup { found with strName := name } after.renamed)
  · have isRenamed : grp = { found with strName := name } :=
      List.inj_on_of_nodup_map after.ready.distinct_ids present after.renamed isId
    subst isRenamed
    rw [sameContext, QuestionCall.useStore] at done
    have noRecord : ∀ qa ∈ found.context.lstQuestions, qa.id ≠ qid := by
      unfold GroupMembers.context
      split
      · simp
      · rename_i ctx rest stores
        exact isNew ctx (by simp [stores])
    rcases addQuestion_cases (kept.context.1 ▸ found.datPath_ne_nil)
      { strGroup := found.strId, strId := qid, strQuestion := "", strAnswer := "" } with
      ⟨⟨qa, known⟩, _⟩ | ⟨_, added⟩
    · exact absurd (KeyedList.key_of_find known) (noRecord qa (KeyedList.mem_of_find known))
    · rw [added] at done
      have performed := congrArg
        (fun result : QuestionResult × CQuestionBankImpl => (Outcome.value result.1.1, result.2))
        done
      refine ⟨_, ?_, ?_, performed⟩
      · exact kept.context.1
      · exact List.mem_append_right _ List.mem_cons_self

/-- No rename to an unused name that returns true keeps what is added after it. -/
theorem updateGroup_never_keeps (rt : Runtime) {root : Path} {b : CQuestionBankImpl}
    (sound : Sound root b) {pid gid name : String} (isName : IsGroupName root name)
    (isNew : b.regs.mapIds.hasName name = false)
    (returned : (b.updateGroup rt pid gid name).1 = .value true) :
    ¬ RenameKeeps rt root pid gid name b := by
  intro keeps
  obtain ⟨found, inGroups, rfl, after⟩ := sound.updateGroup_moves rt isName isNew returned
  unfold RenameKeeps at keeps
  generalize (b.updateGroup rt pid found.strId name).2 = b' at keeps after
  obtain ⟨qid, noFile, noStore⟩ :=
    exists_new_question_id rt b'.regs.disk (stores b.clsQuestionBank)
  have kept := sound.groups found inGroups
  have inTree := mem_preorder_of_mem_descendants inGroups
  obtain ⟨ctx, path, inStore, added⟩ := after.addQuestion rt kept fun ctx isStore =>
    noStore ctx (List.mem_flatMap.mpr ⟨found, inTree, isStore⟩)
  have follows : Machine.Allowed (BankCall.perform rt)
      (BankCall.FollowsRename root found.strId)
      [.question (.add found.strId qid "" "")] b' := by
    obtain ⟨c, groups, tree⟩ :=
      exists_plug_of_mem_preorder (mem_preorder_of_mem_descendants after.renamed)
    exact ⟨⟨c, _, tree, rfl, _, label_mem_preorder _, rfl⟩, trivial⟩
  have survives := keeps _ follows
  rw [Machine.run_cons, Machine.run_nil, added] at survives
  -- closing writes the question nowhere
  have unaware : Unaware rt found.strPath qid
      ((b'.putStore found.strId ctx).uninit rt).2.regs.disk := by
    have harmless : ∀ store ∈ stores (b'.putStore found.strId ctx).clsQuestionBank,
        Harmless found.strPath qid store := by
      intro store member
      obtain ⟨grp, present, isStore⟩ := List.mem_flatMap.mp member
      rw [putStore, preorder_map] at present
      obtain ⟨old, isOld, rfl⟩ := List.mem_map.mp present
      have ofBank : store ∈ old.vecQuestions → Harmless found.strPath qid store := by
        intro isStore
        have inBank := after.stores store (List.mem_flatMap.mpr ⟨old, isOld, isStore⟩)
        obtain ⟨grp, isGroup, ofGroup⟩ := sound.mem_stores inBank
        exact .without ((sound.groups grp isGroup).stores store ofGroup).2.1
          (noStore store inBank)
      unfold replaceStore at isStore
      split at isStore
      · rcases List.mem_cons.mp isStore with rfl | inTail
        · exact .orphan (path.trans kept.datPath_eq)
        · exact ofBank (List.mem_of_mem_tail inTail)
      · exact ofBank isStore
    refine uninit_keeps ?_ (fun store member =>
      keptByClose_unaware kept.strPath_ne_nil (harmless store member)) ?_
    · intro ids isIds
      apply keptByClose_unaware kept.strPath_ne_nil
      apply Harmless.registry
      rw [after.ids ids isIds]
      exact Path.filename_append_singleton root _
    · refine ⟨?_, fun p _ => noFile p⟩
      change b'.regs.disk.node found.strPath ≠ some .directory
      rw [after.gone]
      simp
  have shown : ({ found with strName := name } : GroupMembers).withStore ctx ∈
      (b'.putStore found.strId ctx).clsQuestionBank.preorder := by
    rw [putStore, preorder_map]
    exact List.mem_map.mpr
      ⟨_, mem_preorder_of_mem_descendants after.renamed, if_pos rfl⟩
  exact not_survives unaware shown
    (List.mem_flatMap.mpr ⟨ctx, List.mem_cons_self, inStore⟩) rfl survives

theorem updateGroup_never_keeps_firstSession :
    ¬ RenameKeeps .wire ["root"] "" "1a" "Adverbs"
      (Session.firstSession.used .wire ["root"] FileSystem.empty) :=
  updateGroup_never_keeps .wire
    (Session.sound_used (NothingYet.opens .wire (.absent rfl (by decide)))
      (show Session.firstSession.Proper .wire ["root"] FileSystem.empty (.value true, .value ()) by
        decide +kernel)).2
    (by decide) (by decide +kernel) (by decide +kernel)

/-- A session that makes one group. -/
def wordsSession : Session where
  entries := []
  calls := [.group (.add "" "Words" "1a")]

/-- The bank of one group, without a store. -/
def wordsBank : CQuestionBankImpl :=
  wordsSession.used .wire ["root"] FileSystem.empty

/-- A question that is added after a rename is in memory and is not there after the next
`init`, although every call returned true. -/
theorem added_after_rename_lost :
    let renamed := wordsBank.updateGroup .wire "" "1a" "Nouns"
    let added := renamed.2.addQuestion .wire "1a" "q" "ser" "to be"
    let closed := added.2.uninit .wire
    let entries : List Path := [["root", "ids.dat"], ["root", "Nouns"]]
    let next := (fresh closed.2.regs.disk Refusals.never).init .wire ["root"]
      { entries := entries }
    Sound ["root"] wordsBank ∧ renamed.1 = .value true ∧ added.1 = true ∧
      closed.1 = .value () ∧ closed.2.regs.disk.IsListing ["root"] entries ∧
      next.1 = .value true ∧
      added.2.groupsWithQuestions =
        [(none, "", "root", []),
          (some "", "1a", "Nouns",
            [{ id := "q", group := "1a", question := "ser", answer := "to be" }])] ∧
      next.2.groupsWithQuestions =
        [(none, "", "root", []), (some "", "1a", "Nouns", [])] := by
  intro renamed added closed entries next
  have sound : Sound ["root"] wordsBank :=
    (Session.sound_used (NothingYet.opens .wire (.absent rfl (by decide)))
      (show wordsSession.Proper .wire ["root"] FileSystem.empty (.value true, .value ()) by
        decide +kernel)).2
  refine ⟨sound, ?_⟩
  decide +kernel

end Notebook
