import Notebook.Groups.Deletion
import Notebook.Init.Bank
import Notebook.Questions.Context
import Notebook.Store.Registry

/-!
# Addressing what is shown

The tree shows all stores of all groups, while the operations go through the registry,
a search by id and the first store of a group. After `init` on directories with
distinct names, the groups with an id have it alone, so what these groups hold in their
first store can be addressed, and so can they themselves.
-/

namespace Notebook

open RoseTree CQuestionAnswerImpl

namespace CQuestionBankImpl

/-! ## Ids after `init` -/

/-- What `init` from a fresh bank has done to the ids: the root has none, and every
other id belongs to one group, is registered, and is that of a directory. -/
structure Identified (b : CQuestionBankImpl) : Prop where
  root : b.clsQuestionBank.label.strId = ""
  unique : UniqueIds b.clsQuestionBank
  registered : ∀ grp ∈ b.clsQuestionBank.preorder, grp.strId ≠ "" →
    b.regs.mapIds.contains grp.strId = true
  directory : ∀ grp ∈ b.clsQuestionBank.preorder, grp.strId ≠ "" →
    b.regs.disk.node grp.strPath = some .directory
  opened : ∃ ids, b.regs.ptrIds = some ids

/-- On directories with distinct names `init` identifies the groups. -/
theorem init_identified {rt : Runtime} {disk : Disk} {refusals : Refusals} {root : Path}
    {listing : Listing} {b : CQuestionBankImpl}
    (starts : (fresh disk refusals).init rt root listing = (.value true, b))
    (names : ((listing.entries.filter b.regs.disk.isDirectory).map Path.filename).Nodup) :
    Identified b := by
  have initialised : Initialised rt root listing (fresh disk refusals) b := by
    have done := init_inv (b := fresh disk refusals) (by rw [starts])
    rwa [starts] at done
  obtain ⟨ids, _, opened, mapIds⟩ := initialised.ids
  have keys : (b.regs.mapIds.map Prod.fst).Nodup := by
    rw [mapIds]
    exact nodup_keys_registryOf _ .nil
  obtain ⟨label, perm⟩ := initEntries_identities initialised.entries
  have start : identities (withRoot root (fresh disk refusals).clsQuestionBank) =
      [("", root.filename, root)] := by
    simp [identities, withRoot, fresh, GroupMembers.identity]
  rw [start] at perm
  -- every group with an id is that of a directory whose name is registered
  have ofDirectory : ∀ grp ∈ b.clsQuestionBank.preorder, grp.strId ≠ "" →
      ∃ dir ∈ listing.entries.filter b.regs.disk.isDirectory,
        grp.identity = identityOf rt b.regs.mapIds dir ∧
        (grp.strId, dir.filename) ∈ b.regs.mapIds := by
    intro grp member hasId
    have present : grp.identity ∈ identities b.clsQuestionBank := List.mem_map_of_mem member
    rw [perm.mem_iff, List.mem_append, List.mem_singleton, List.mem_map] at present
    rcases present with isRoot | ⟨dir, isDirectory, same⟩
    · exact absurd (congrArg Prod.fst isRoot) hasId
    · refine ⟨dir, isDirectory, same.symm, ?_⟩
      have sameId : b.regs.mapIds.idOfName rt dir.filename = grp.strId :=
        congrArg Prod.fst same
      have registered := IdMap.idOfName_mem rt (sameId ▸ hasId)
      rwa [sameId] at registered
  refine ⟨?_, ?_, ?_, ?_, ids, opened⟩
  · exact congrArg Prod.fst label
  · intro grp member hasId
    obtain ⟨dir, _, _, entry⟩ := ofDirectory grp member hasId
    have atMostOne : (b.clsQuestionBank.preorder.filter
        fun other => other.strId = grp.strId).length ≤ 1 := by
      have viaIdentities : (b.clsQuestionBank.preorder.filter
          fun other => other.strId = grp.strId).length =
            ((identities b.clsQuestionBank).filter
              fun identity => identity.1 = grp.strId).length := by
        rw [identities, List.filter_map, List.length_map]
        rfl
      rw [viaIdentities, (perm.filter _).length_eq, List.filter_append,
        List.filter_cons_of_neg (by simpa using hasId.symm), List.filter_nil,
        List.nil_append, List.filter_map, List.length_map]
      have viaNames : (listing.entries.filter b.regs.disk.isDirectory).filter
          ((fun identity : String × String × Path => decide (identity.1 = grp.strId)) ∘
            identityOf rt b.regs.mapIds) =
          (listing.entries.filter b.regs.disk.isDirectory).filter
            ((fun name => decide (b.regs.mapIds.idOfName rt name = grp.strId)) ∘
              Path.filename) := rfl
      rw [viaNames, ← List.length_map Path.filename, ← List.filter_map]
      apply length_filter_le_one (x := dir.filename) names
      intro name _ hasThisId
      have sameId : b.regs.mapIds.idOfName rt name = grp.strId := by simpa using hasThisId
      have other := IdMap.idOfName_mem rt (sameId ▸ hasId)
      rw [sameId] at other
      exact IdMap.name_unique keys other entry
    have isHere : grp ∈ b.clsQuestionBank.preorder.filter
        fun other => other.strId = grp.strId :=
      List.mem_filter.mpr ⟨member, by simp⟩
    obtain ⟨only, single⟩ := List.length_eq_one_iff.mp
      (Nat.le_antisymm atMostOne (List.length_pos_of_mem isHere))
    rw [single, List.mem_singleton] at isHere
    rw [single, isHere]
  · intro grp member hasId
    obtain ⟨dir, _, _, entry⟩ := ofDirectory grp member hasId
    exact IdMap.contains_iff.mpr (List.mem_map_of_mem (f := Prod.fst) entry)
  · intro grp member hasId
    obtain ⟨dir, isDirectory, same, _⟩ := ofDirectory grp member hasId
    have path : grp.strPath = dir := congrArg (fun identity => identity.2.2) same
    rw [path]
    exact FileSystem.isDirectory_iff.mp (List.mem_filter.mp isDirectory).2

/-! ## Questions -/

/-- The bank after the records of the first store of a group were replaced. -/
def withRecords (gid : String) (ctx : CQuestionAnswerImpl) (records : List QuestionAnswer)
    (b : CQuestionBankImpl) : CQuestionBankImpl :=
  { b with
    clsQuestionBank := b.clsQuestionBank.map
      (replaceStore gid { ctx with lstQuestions := records }) }

/-- The operations on a group id and a question id act on one record of the first store
of the group, and on nothing else. -/
structure QuestionAddressed (rt : Runtime) (b : CQuestionBankImpl) (gid : String)
    (ctx : CQuestionAnswerImpl) (before : List QuestionAnswer) (qa : QuestionAnswer)
    (after : List QuestionAnswer) : Prop where
  query : b.queryQuestion rt gid qa.id = ((true, some qa.answer), b)
  update : ∀ question answer,
    b.updateQuestion rt gid qa.id question answer =
      (true, b.withRecords gid ctx
        (before ++
          { qa with group := gid, question := question, answer := answer } :: after))
  delete : b.deleteQuestion rt gid qa.id =
    (true, b.withRecords gid ctx (before ++ (after.getLast?.toList ++ after.dropLast)))

/-- A question operation on a registered id that one group only has acts on the first
store of that group. -/
theorem withContext_of_unique (rt : Runtime) {b : CQuestionBankImpl} {grp : GroupMembers}
    (registered : b.regs.mapIds.contains grp.strId = true)
    (unique : b.clsQuestionBank.preorder.filter
      (fun other => other.strId = grp.strId) = [grp])
    {ctx : CQuestionAnswerImpl} {rest : List CQuestionAnswerImpl}
    (stores : grp.vecQuestions = ctx :: rest)
    (use : CQuestionAnswerImpl → β × CQuestionAnswerImpl) :
    b.withContext rt grp.strId use =
      (some (use ctx).1,
        { b with
          clsQuestionBank := b.clsQuestionBank.map (replaceStore grp.strId (use ctx).2) }) := by
  have context : grp.context = ctx := by simp [GroupMembers.context, stores]
  have found := @findQustionAnswerContext_of_unique _ rt b.regs.disk _ _ unique
    (by simp [stores]) use
  rw [context] at found
  rw [withContext, if_neg (by simp [registered]), found]

/-- Every question of the first store of a group with an id can be addressed. -/
theorem Identified.question (rt : Runtime) {b : CQuestionBankImpl}
    (identified : Identified b)
    {grp : GroupMembers}
    (present : grp ∈ b.clsQuestionBank.preorder)
    (hasId : grp.strId ≠ "")
    {ctx : CQuestionAnswerImpl} {rest : List CQuestionAnswerImpl}
    (stores : grp.vecQuestions = ctx :: rest)
    (opened : ctx.strPath ≠ [])
    (distinct : (ctx.lstQuestions.map QuestionAnswer.id).Nodup)
    {before after : List QuestionAnswer} {qa : QuestionAnswer}
    (split : ctx.lstQuestions = before ++ qa :: after) :
    QuestionAddressed rt b grp.strId ctx before qa after := by
  have acts := fun {β : Type} (use : CQuestionAnswerImpl → β × CQuestionAnswerImpl) =>
    withContext_of_unique rt (identified.registered grp present hasId)
      (identified.unique grp present hasId) stores use
  refine ⟨?_, ?_, ?_⟩
  · have isQuestion : KeyedList.find QuestionAnswer.id qa.id ctx.lstQuestions = some qa := by
      rw [KeyedList.find_eq_some_iff distinct, split]
      exact ⟨by simp, rfl⟩
    have asked : ctx.queryQuestion qa.id = ((true, some qa.answer), ctx) := by
      rw [KeyedList.find] at isQuestion
      rw [CQuestionAnswerImpl.queryQuestion, if_neg opened, isQuestion]
    have unchanged : b.clsQuestionBank.map (replaceStore grp.strId ctx) =
        b.clsQuestionBank := by
      apply map_eq_self
      intro other member
      unfold replaceStore
      split
      · rename_i sameId
        have isHere : other ∈ b.clsQuestionBank.preorder.filter
            fun other => other.strId = grp.strId :=
          List.mem_filter.mpr ⟨member, by simpa using sameId⟩
        rw [identified.unique grp present hasId, List.mem_singleton] at isHere
        rw [isHere, GroupMembers.withStore, stores, List.tail_cons, ← stores]
      · rfl
    rw [CQuestionBankImpl.queryQuestion, acts]
    simp only [asked, unchanged, Option.getD_some]
  · intro question answer
    have done : ctx.updateQuestion qa.id
        { strGroup := grp.strId, strId := qa.id, strQuestion := question,
          strAnswer := answer } = _ :=
      CQuestionAnswerImpl.updateQuestion_of_split opened distinct split rfl
    rw [CQuestionBankImpl.updateQuestion, acts]
    simp only [done, Option.getD_some]
    rfl
  · rw [CQuestionBankImpl.deleteQuestion, acts]
    simp only [CQuestionAnswerImpl.deleteQuestion_of_split opened distinct split,
      Option.getD_some]
    rfl

/-! ## Groups -/

/-- The new group is appended under the group with the id, and nothing else changes in
the tree or in the registry. -/
structure GroupAdded (b b' : CQuestionBankImpl) (c : Context GroupMembers)
    (grp : GroupMembers) (groups : List CQuestionGroupParam) (id name : String) : Prop where
  tree : b'.clsQuestionBank =
    plug c (.node grp (groups ++ [.node (Registers.newGroup grp id name) []]))
  mapIds : b'.regs.mapIds = b.regs.mapIds ++ [(id, name)]

/-- The name of the group is changed, and nothing else in the tree or in the map of
ids. -/
structure GroupRenamed (b b' : CQuestionBankImpl) (c : Context GroupMembers)
    (parent : GroupMembers) (before : List CQuestionGroupParam)
    (found : CQuestionGroupParam) (after : List CQuestionGroupParam) (name : String) :
    Prop where
  tree : b'.clsQuestionBank =
    plug c (.node parent
      (before ++ .node { found.label with strName := name } found.children :: after))
  mapIds : b'.regs.mapIds = b.regs.mapIds

/-- A sub-group of the root or of a group with an id, and with an id itself, is selected
by the two ids. -/
theorem Identified.selects {b : CQuestionBankImpl} (identified : Identified b)
    {c : Context GroupMembers} {parent : GroupMembers} {groups : List CQuestionGroupParam}
    (tree : b.clsQuestionBank = plug c (.node parent groups))
    (addressed : c = [] ∨ parent.strId ≠ "") :
    Selects parent.strId c parent := by
  have present : parent ∈ b.clsQuestionBank.preorder := by
    rw [tree, preorder_plug]
    simp
  by_cases hasId : parent.strId = ""
  · obtain rfl := addressed.resolve_right (not_not_intro hasId)
    rw [hasId]
    exact selects_root parent
  · apply selects_of_unique hasId
    rw [← tree]
    exact identified.unique parent present hasId

theorem Identified.firstChild {b : CQuestionBankImpl} (identified : Identified b)
    {c : Context GroupMembers} {parent : GroupMembers}
    {before after : List CQuestionGroupParam} {found : CQuestionGroupParam}
    (tree : b.clsQuestionBank = plug c (.node parent (before ++ found :: after)))
    (hasId : found.label.strId ≠ "") :
    ∀ other ∈ before, other.label.strId ≠ found.label.strId := by
  have unique := identified.unique found.label
    (by
      rw [tree, preorder_plug, preorder_node, List.flatMap_append, List.flatMap_cons]
      simp [found.label_mem_preorder])
    hasId
  intro other member same
  have split : b.clsQuestionBank =
      plug (c ++ [⟨parent, before, after⟩]) (.node found.label found.children) := by
    rw [tree, plug_append, plug_cons, plug_nil, node_label_children]
  rw [split] at unique
  have inVisited : other.label ∈ visited (c ++ [⟨parent, before, after⟩]) := by
    rw [visited_append, visited_cons, visited_nil, List.append_nil]
    apply List.mem_append_right
    apply List.mem_cons_of_mem
    exact List.mem_flatMap.mpr ⟨other, member, other.label_mem_preorder⟩
  have different := (apart_of_filter_eq_singleton unique).2.1 other.label inVisited
  simp [same] at different

/-- A group with an id takes a new group. -/
theorem Identified.addGroup (rt : Runtime) {b : CQuestionBankImpl}
    (identified : Identified b)
    {c : Context GroupMembers} {grp : GroupMembers} {groups : List CQuestionGroupParam}
    (tree : b.clsQuestionBank = plug c (.node grp groups))
    (hasId : grp.strId ≠ "")
    {name id : String}
    (newId : b.regs.mapIds.contains id = false)
    (newName : b.regs.mapIds.hasName name = false) :
    GroupAdded b (b.addGroup rt grp.strId name id).2 c grp groups id name ∧
      (IsComponent name → b.regs.refusals = Refusals.never →
        (b.addGroup rt grp.strId name id).1 = .value true) := by
  obtain ⟨ids, opened⟩ := identified.opened
  have selects := identified.selects tree (Or.inr hasId)
  obtain ⟨answer, disk, message, done, ways⟩ :=
    Registers.addGroup_spec opened id name grp groups
  have acted := Registers.ctrlGroup_of_selects rt selects groups id name .add b.regs
  rw [Registers.ctrlHere, done] at acted
  have whole : b.addGroup rt grp.strId name id =
      (answer,
        { b with
          clsQuestionBank :=
            plug c (.node grp (groups ++ [.node (Registers.newGroup grp id name) []]))
          regs := { b.regs with
            mapIds := b.regs.mapIds.emplace id name
            ptrIds := some (ids.addGroup id name).2
            disk := disk
            strErrorMsg := message } }) := by
    rw [CQuestionBankImpl.addGroup, if_neg (by simp [newId]), if_neg (by simp [newName]),
      ctrlRoot, tree, acted]
  rw [whole]
  refine ⟨⟨rfl, IdMap.emplace_of_absent newId name⟩, ?_⟩
  intro component never
  rcases ways with ⟨isTrue, _⟩ | ⟨isTrue, _⟩ | ⟨_, _, absent, notMade⟩
  · exact isTrue
  · exact isTrue
  · -- the directory of the parent is there, so the call creates one below it
    exfalso
    have present : grp ∈ b.clsQuestionBank.preorder := by
      rw [tree, preorder_plug]
      simp
    have directory := identified.directory grp present hasId
    rw [component.join] at absent notMade
    obtain ⟨made, makes, _⟩ := FileSystem.mkdir_eq_some
      (FileSystem.hasParent_append_singleton (c := name) directory)
      (FileSystem.isPresent_eq_false_iff.mp absent)
    apply notMade made
    simp [never, Refusals.createDirectory, Refusals.never, makes]

/-- A group with an id is renamed. -/
theorem Identified.updateGroup (rt : Runtime) {b : CQuestionBankImpl}
    (identified : Identified b)
    {c : Context GroupMembers} {parent : GroupMembers}
    {before after : List CQuestionGroupParam} {found : CQuestionGroupParam}
    (tree : b.clsQuestionBank = plug c (.node parent (before ++ found :: after)))
    (addressed : c = [] ∨ parent.strId ≠ "")
    (hasId : found.label.strId ≠ "")
    (name : String) :
    GroupRenamed b (b.updateGroup rt parent.strId found.label.strId name).2 c parent
      before found after name := by
  obtain ⟨ids, opened⟩ := identified.opened
  have selects := identified.selects tree addressed
  obtain ⟨answer, disk, message, done, _⟩ :=
    @Registers.updateGroup_spec rt b.regs ids opened _ name parent before after found rfl
      (identified.firstChild tree hasId)
  have acted := Registers.ctrlGroup_of_selects rt selects (before ++ found :: after)
    found.label.strId name .update b.regs
  rw [Registers.ctrlHere, done] at acted
  rw [CQuestionBankImpl.updateGroup, ctrlRoot, tree, acted]
  exact ⟨rfl, rfl⟩

/-- Deleting a group with an id deletes what is below it at most. -/
theorem Identified.deleteGroup (rt : Runtime) {b : CQuestionBankImpl}
    (identified : Identified b)
    {c : Context GroupMembers} {parent : GroupMembers}
    {before after : List CQuestionGroupParam} {found : CQuestionGroupParam}
    (tree : b.clsQuestionBank = plug c (.node parent (before ++ found :: after)))
    (addressed : c = [] ∨ parent.strId ≠ "")
    (hasId : found.label.strId ≠ "") :
    (IsChain found → (b.deleteGroup rt parent.strId found.label.strId).1 ≠ .undefined) ∧
      ∃ rest,
        (b.deleteGroup rt parent.strId found.label.strId).2.clsQuestionBank =
          plug c (.node parent (before ++ rest.toList ++ after)) ∧
        CallFrame found.label.strId found rest
          (b.deleteGroup rt parent.strId found.label.strId).1 b.regs
          (b.deleteGroup rt parent.strId found.label.strId).2.regs := by
  obtain ⟨ids, opened⟩ := identified.opened
  have selects := identified.selects tree addressed
  have split : Registers.firstChild found.label.strId
      (.node parent (before ++ found :: after)) = some (before, found, after) :=
    splitFirst_append_cons (by simp)
      (fun other member => by simpa using identified.firstChild tree hasId other member) after
  obtain ⟨rest, done, frame⟩ := Registers.deleteGroup_frame rt opened split
  have defined := Registers.deleteGroup_defined rt opened split
  have acted := Registers.ctrlGroup_of_selects rt selects (before ++ found :: after)
    found.label.strId "" .delete b.regs
  rw [Registers.ctrlHere] at acted
  rw [CQuestionBankImpl.deleteGroup, ctrlRoot, tree, acted]
  exact ⟨defined, rest, by rw [done]; rfl, frame⟩

end CQuestionBankImpl

open CQuestionBankImpl

/-- After `init` on directories with distinct names and files with distinct question
ids, the operations address each group with an id, and each question in its first
store. -/
theorem init_addresses_shown (rt : Runtime) {disk : Disk} {refusals : Refusals}
    {root : Path} {listing : Listing} {b : CQuestionBankImpl}
    (starts : (fresh disk refusals).init rt root listing = (.value true, b))
    (names : ((listing.entries.filter b.regs.disk.isDirectory).map Path.filename).Nodup)
    (questions : ∀ entry ∈ listing.entries, isStoreEntry b.regs.disk entry = true →
      ∀ items ∈ decodedAt rt.parseQuestions b.regs.disk entry,
        (items.map QuestionAnswer.id).Nodup) :
    (∀ grp ∈ b.clsQuestionBank.preorder, grp.strId ≠ "" →
      ∀ ctx rest before qa after, grp.vecQuestions = ctx :: rest →
        ctx.lstQuestions = before ++ qa :: after →
        QuestionAddressed rt b grp.strId ctx before qa after) ∧
    (∀ c grp groups, b.clsQuestionBank = plug c (.node grp groups) → grp.strId ≠ "" →
      ∀ name id, b.regs.mapIds.contains id = false → b.regs.mapIds.hasName name = false →
        GroupAdded b (b.addGroup rt grp.strId name id).2 c grp groups id name ∧
          (IsComponent name → b.regs.refusals = Refusals.never →
            (b.addGroup rt grp.strId name id).1 = .value true)) ∧
    (∀ c parent before found after,
      b.clsQuestionBank = plug c (.node parent (before ++ found :: after)) →
      (c = [] ∨ parent.strId ≠ "") → found.label.strId ≠ "" →
        (∀ name, GroupRenamed b (b.updateGroup rt parent.strId found.label.strId name).2
          c parent before found after name) ∧
        (IsChain found →
          (b.deleteGroup rt parent.strId found.label.strId).1 ≠ .undefined) ∧
        ∃ rest,
          (b.deleteGroup rt parent.strId found.label.strId).2.clsQuestionBank =
            plug c (.node parent (before ++ rest.toList ++ after)) ∧
          CallFrame found.label.strId found rest
            (b.deleteGroup rt parent.strId found.label.strId).1 b.regs
            (b.deleteGroup rt parent.strId found.label.strId).2.regs) := by
  have identified := init_identified starts names
  have initialised := init_inv (b := fresh disk refusals) (by rw [starts])
  rw [starts] at initialised
  obtain ⟨opens, perm⟩ := initEntries_stores initialised.entries
  refine ⟨?_, ?_, ?_⟩
  · intro grp present hasId ctx rest before qa after stores split
    have inTree : ctx ∈ Notebook.stores b.clsQuestionBank :=
      List.mem_flatMap.mpr ⟨grp, present, by simp [stores]⟩
    have none : Notebook.stores (withRoot root (fresh disk refusals).clsQuestionBank) = [] := by
      simp [Notebook.stores, withRoot, fresh]
    rw [perm.mem_iff, none, List.nil_append, List.mem_map] at inTree
    simp only [List.mem_filter] at inTree
    obtain ⟨entry, ⟨member, isStore⟩, isCtx⟩ := inTree
    have opensTrue := opens entry member isStore
    have read : openFile rt b.regs.disk entry true {} = (true, ctx) :=
      Prod.ext opensTrue isCtx
    obtain ⟨nonempty, _, items, decoded, equal⟩ := openFile_questions_iff.mp read
    have distinct := questions entry member isStore items decoded
    apply identified.question rt present hasId stores _ _ split
    · rw [equal]
      exact nonempty
    · rw [equal]
      exact distinct
  · intro c grp groups tree hasId name id newId newName
    exact identified.addGroup rt tree hasId newId newName
  · intro c parent before found after tree addressed hasId
    exact ⟨identified.updateGroup rt tree addressed hasId,
      identified.deleteGroup rt tree addressed hasId⟩

/-- A bank directory with two files in the directory of a registered group. -/
def shownDisk : Disk :=
  FileSystem.ofNodes
    [(["root"], .directory),
     (["root", "Words"], .directory),
     (["root", "Words", "w.dat"],
       .file (Runtime.wire.serializeQuestions
         [{ id := "1", question := "hund", answer := "dog" }])),
     (["root", "Words", "more.dat"],
       .file (Runtime.wire.serializeQuestions
         [{ id := "2", question := "katze", answer := "cat" }])),
     (["root", "ids.dat"],
       .file (Runtime.wire.serializeGroups [{ id := "w", group := "Words" }]))]

/-- A listing of the directory. -/
def shownListing : Listing :=
  { entries :=
      [["root", "Words"], ["root", "Words", "w.dat"], ["root", "Words", "more.dat"],
       ["root", "ids.dat"]] }

theorem init_addresses_shown_shownDisk :
    QuestionAddressed .wire
      ((fresh shownDisk Refusals.never).init .wire ["root"] shownListing).2 "w"
      { strPath := ["root", "Words", "w.dat"],
        lstQuestions := [{ id := "1", question := "hund", answer := "dog" }] }
      [] { id := "1", question := "hund", answer := "dog" } [] := by
  have starts : ((fresh shownDisk Refusals.never).init .wire ["root"]
      shownListing).1 = .value true := by decide +kernel
  have addressed := init_addresses_shown .wire (Prod.ext starts rfl)
    (by decide +kernel) (by decide +kernel)
  exact addressed.1
    { strId := "w", strName := "Words", strPath := ["root", "Words"],
      vecQuestions :=
        [{ strPath := ["root", "Words", "w.dat"],
           lstQuestions := [{ id := "1", question := "hund", answer := "dog" }] },
         { strPath := ["root", "Words", "more.dat"],
           lstQuestions := [{ id := "2", question := "katze", answer := "cat" }] }] }
    (by decide +kernel) (by decide) _ _ [] _ [] rfl rfl

/-- The question in the second file of the directory is shown and is not found. -/
theorem second_store_not_addressed :
    let opened := (fresh shownDisk Refusals.never).init .wire ["root"] shownListing
    shownDisk.IsListing ["root"] shownListing.entries ∧
      ((shownListing.entries.filter shownDisk.isDirectory).map Path.filename).Nodup ∧
      (∀ entry ∈ shownListing.entries, isStoreEntry shownDisk entry = true →
        ∀ items ∈ decodedAt Runtime.wire.parseQuestions shownDisk entry,
          (items.map QuestionAnswer.id).Nodup) ∧
      opened.1 = .value true ∧
      ∃ grp ∈ opened.2.clsQuestionBank.preorder, ∃ ctx ∈ grp.vecQuestions,
        ∃ qa ∈ ctx.lstQuestions,
          (opened.2.queryQuestion .wire grp.strId qa.id).1 ≠ (true, some qa.answer) := by
  decide +kernel

end Notebook
