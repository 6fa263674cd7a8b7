import Notebook.Sessions.Persistent

/-!
# Sessions that are not closed

Nothing but directories reaches the disk before `uninit`. When the program stops after
some calls of a session, the next `init` returns true: it finds the registry that the
session had read, the directories as the session left them, and of the questions those
that were there when the session began.
-/

namespace Notebook

open RoseTree KeyedList CQuestionAnswerImpl CQuestionBankImpl

/-! ## What a session reads at its start -/

/-- The registry that a successful `init` read. -/
theorem CQuestionBankImpl.Initialised.registry {rt : Runtime} {root : Path} {disk : Disk}
    {refusals : Refusals} {listing : Listing} {b : CQuestionBankImpl}
    (initialised : Initialised rt root listing (fresh disk refusals) b) :
    ∃ items, decodedAt rt.parseGroups b.regs.disk (idsPath root) = some items ∧
      b.regs.mapIds = registryOf items [] := by
  obtain ⟨_, _, ⟨ids, opened, _, isMap⟩, _, _, _, _⟩ := initialised
  obtain ⟨_, _, items, decoded, rfl⟩ := openFile_groups_iff.mp opened
  exact ⟨items, decoded, isMap⟩

/-- A root directory that is there is not made. -/
theorem CQuestionBankImpl.RootReady.eq_of_present {root : Path} {disk disk' : Disk}
    (ready : RootReady root disk disk') (present : disk.node root ≠ none) : disk' = disk := by
  cases ready with
  | present => rfl
  | created absent => exact absurd absent present

/-- A bank that has everything its disk holds. -/
structure ReadBack (rt : Runtime) (root : Path) (b : CQuestionBankImpl)
    (items : List QuestionAnswerGroup) : Prop where
  sound : Sound root b
  left : LeftOnDisk rt root b items b.regs.disk
  mapIds : b.regs.mapIds = registryOf items []

/-- A session that starts on the disk reads all that is there. -/
def ReadsBack (rt : Runtime) (root : Path) (disk : Disk) : Prop :=
  ∀ entries, disk.IsListing root entries →
    ∃ b items, (fresh disk Refusals.never).init rt root { entries := entries } =
      (.value true, b) ∧ ReadBack rt root b items

theorem NothingYet.readsBack (rt : Runtime) {root : Path} {disk : Disk}
    (nothingYet : NothingYet root disk) : ReadsBack rt root disk := by
  intro entries listed
  obtain ⟨b, initialised, sound⟩ := nothingYet.opens rt entries listed
  have starts : ((fresh disk Refusals.never).init rt root { entries := entries }).1 =
      .value true := by rw [initialised]
  have found := init_inv starts
  rw [initialised] at found
  obtain ⟨items, decoded, isMap⟩ := found.registry
  have noGroup := nothingYet.noGroup initialised sound
  exact ⟨b, items, initialised, sound,
    ⟨fun _ => Iff.rfl, decoded, fun grp present => absurd present (noGroup grp),
      fun grp present => absurd present (noGroup grp), sound.entries⟩, isMap⟩

/-- The groups of a bank that was read again. -/
theorem descendants_of_rows {qgp qgp' : CQuestionGroupParam}
    (rows : (parentRows qgp').Perm
      ((parentRows qgp).map fun row => (row.1, row.2.reopened)))
    {grp : GroupMembers} (present : grp ∈ qgp'.descendants) :
    ∃ old ∈ qgp.descendants, grp = old.reopened := by
  obtain ⟨above, _, isRow⟩ := exists_parentRow present
  obtain ⟨row, member, equal⟩ := List.mem_map.mp (rows.mem_iff.mp isRow)
  obtain ⟨sameAbove, rfl⟩ := Prod.mk.inj equal
  rcases parentRows_cases member with rfl | ⟨c, parent, before, child, after, rfl, rfl⟩
  · cases sameAbove
  · exact ⟨child.label, mem_descendants_plug c parent before after child.label_mem_preorder, rfl⟩

theorem Sound.readsBack (rt : Runtime) {root : Path} {b : CQuestionBankImpl}
    (sound : Sound root b) : ReadsBack rt root (b.uninit rt).2.regs.disk := by
  intro entries listed
  obtain ⟨next, initialised, soundNext, rows⟩ := sound.reinit rt listed
  obtain ⟨items, disk, pairs, _, sameDisk, left⟩ := sound.uninit rt
  have starts : ((fresh (b.uninit rt).2.regs.disk Refusals.never).init rt root
      { entries := entries }).1 = .value true := by rw [initialised]
  have found := init_inv starts
  rw [initialised] at found
  have isDisk : next.regs.disk = disk := by
    have rootThere : (b.uninit rt).2.regs.disk.node root ≠ none := by
      rw [sameDisk, (left.directories root).mpr sound.root_directory]
      simp
    exact (found.root.eq_of_present rootThere).trans sameDisk
  obtain ⟨items', decoded, isMap⟩ := found.registry
  refine ⟨next, items', initialised, soundNext, ⟨fun _ => Iff.rfl, decoded, ?_, ?_,
    soundNext.entries⟩, isMap⟩
  · intro grp present
    obtain ⟨old, isGroup, rfl⟩ := descendants_of_rows rows present
    rw [GroupMembers.reopened_records, isDisk]
    exact left.records old isGroup
  · intro grp present
    obtain ⟨old, isGroup, rfl⟩ := descendants_of_rows rows present
    rw [GroupMembers.reopened_records, isDisk]
    exact left.absent old isGroup

/-! ## What a session does before its end -/

/-- What has happened since a bank was opened, as far as the disk shows it: no file is new,
the registry is untouched, and a group that was not deleted has its place and its file. -/
structure SinceOpened (root : Path) (deleted : String → Prop) (opened b : CQuestionBankImpl) :
    Prop where
  start : Sound root opened
  sound : Sound root b
  registry : b.regs.disk.node (idsPath root) = opened.regs.disk.node (idsPath root)
  files : ∀ q contents, b.regs.disk.node q = some (.file contents) →
    opened.regs.disk.node q = some (.file contents)
  kept : ∀ row ∈ parentRows opened.clsQuestionBank, row.1 ≠ none → ¬ deleted row.2.strId →
    b.regs.disk.node row.2.datPath = opened.regs.disk.node row.2.datPath ∧
      ∃ row' ∈ parentRows b.clsQuestionBank,
        row'.1 = row.1 ∧ row'.2.identity = row.2.identity

namespace SinceOpened

variable {root : Path} {deleted : String → Prop} {opened b : CQuestionBankImpl}

theorem refl (sound : Sound root opened) : SinceOpened root deleted opened opened where
  start := sound
  sound := sound
  registry := rfl
  files _ _ file := file
  kept row present _ _ := ⟨rfl, row, present, rfl, rfl⟩

/-- A change that keeps the disk and the identities of the groups. -/
theorem of_sameOutline (since : SinceOpened root deleted opened b) {b' : CQuestionBankImpl}
    (sound : Sound root b') (sameDisk : b'.regs.disk = b.regs.disk)
    (sameTree : b'.clsQuestionBank.map GroupMembers.identity =
      b.clsQuestionBank.map GroupMembers.identity) :
    SinceOpened root deleted opened b' where
  start := since.start
  sound := sound
  registry := by rw [sameDisk, since.registry]
  files := by
    rw [sameDisk]
    exact since.files
  kept row present below remains := by
    obtain ⟨file, row', isRow, sameAbove, sameIdentity⟩ := since.kept row present below remains
    have inOutline : (row'.1, row'.2.identity) ∈
        (parentRows b'.clsQuestionBank).map (fun row => (row.1, row.2.identity)) := by
      rw [map_parentRows, sameTree, ← map_parentRows]
      exact List.mem_map_of_mem (f := fun row => (row.1, row.2.identity)) isRow
    obtain ⟨row'', isRow'', equal⟩ := List.mem_map.mp inOutline
    obtain ⟨equalAbove, equalIdentity⟩ := Prod.mk.inj equal
    rw [sameDisk]
    exact ⟨file, row'', isRow'', equalAbove.trans sameAbove, equalIdentity.trans sameIdentity⟩

/-- The group of a row below the root. -/
theorem mem_groups_of_row {b : CQuestionBankImpl}
    {row : Option (String × String × Path) × GroupMembers}
    (present : row ∈ parentRows b.clsQuestionBank) (below : row.1 ≠ none) :
    row.2 ∈ b.groups := by
  rcases parentRows_cases present with rfl | ⟨c, parent, before, child, after, tree, rfl⟩
  · exact absurd rfl below
  · rw [CQuestionBankImpl.groups, tree]
    exact mem_descendants_plug c parent before after child.label_mem_preorder

theorem question (rt : Runtime) (since : SinceOpened root deleted opened b)
    (call : QuestionCall) : SinceOpened root deleted opened (call.perform rt b).2 := by
  have same := (call.perform_refines rt since.sound.ready).2.2.2.1
  exact since.of_sameOutline (since.sound.question rt call) same.disk same.tree

/-- A new group brings a directory only. -/
theorem add (rt : Runtime) (since : SinceOpened root deleted opened b) {pid name id : String}
    (isName : IsGroupName root name) (isId : IsUuidText id) :
    SinceOpened root deleted opened (b.addGroup rt pid name id).2 := by
  have sound : Sound root (b.addGroup rt pid name id).2 := since.sound.add rt isName isId
  obtain ⟨ids, isOpen, _⟩ := since.sound.agrees.ids
  have way := b.addGroup_result rt since.sound.agrees.uniqueIds isOpen pid name id
  generalize b.addGroup rt pid name id = result at way sound ⊢
  cases way with
  | refused message why => exact since.of_sameOutline sound rfl rfl
  | @added c parent groups ids' answer disk message tree selects isOpen' newId newName made =>
      rw [isName.component.join] at made
      have nodes : ∀ q, disk.node q = b.regs.disk.node q ∨
          q = parent.strPath ++ [name] ∧ disk.node q = some .directory := by
        intro q
        cases made with
        | present => exact Or.inl rfl
        | failed => exact Or.inl rfl
        | created creates =>
            rw [FileSystem.node_of_mkdir (Refusals.mkdir_of_created creates)]
            split
            · rename_i here
              exact Or.inr ⟨here, rfl⟩
            · exact Or.inl rfl
      have elsewhere : ∀ (dir : Path) (file : String), name ≠ file →
          disk.node (dir ++ [file]) = b.regs.disk.node (dir ++ [file]) := by
        intro dir file different
        rcases nodes (dir ++ [file]) with same | ⟨here, _⟩
        · exact same
        · exact absurd (List.singleton_inj.mp (List.append_inj' here rfl).2).symm different
      refine ⟨since.start, sound, ?_, ?_, ?_⟩
      · exact (elsewhere root _ isName.ne_ids).trans since.registry
      · intro q contents file
        rcases nodes q with same | ⟨_, directory⟩
        · exact since.files q contents (same ▸ file)
        · rw [show disk.node q = _ from file] at directory
          cases directory
      · intro row present below remains
        obtain ⟨file, row', isRow, same⟩ := since.kept row present below remains
        have rows := inherited_plug_addLeaf (fun _ grp => some grp.identity) none c parent groups
          (Registers.newGroup parent id name)
        rw [← tree] at rows
        refine ⟨?_, row', rows.mem_iff.mpr (List.mem_append_left _ isRow), same⟩
        have kept := since.start.groups row.2 (mem_groups_of_row present below)
        rw [← file, kept.datPath_eq]
        exact elsewhere _ _ (isName.ne_append_dat _)

/-- A deleted group takes its directory along. -/
theorem delete (rt : Runtime) (since : SinceOpened root deleted opened b) {pid id : String}
    (isLeaf : IsLeafOf pid id b.clsQuestionBank) (isDeleted : deleted id) :
    SinceOpened root deleted opened (b.deleteGroup rt pid id).2 := by
  have sound := since.sound.delete rt isLeaf
  by_cases isGroup : ∃ grp ∈ b.groups, grp.strId = id
  · obtain ⟨grp, present, rfl⟩ := isGroup
    obtain ⟨c, parent, before, after, ids, disk, tree, _, nodes, done⟩ :=
      since.sound.deleteGroup_of_leaf rt isLeaf present
    obtain ⟨_, notIds, others⟩ := since.sound.outside_leaf present isLeaf.leaf
    have rows := inherited_plug_insert (fun _ grp => some grp.identity) none c parent before
      (.node grp []) after
    rw [← tree] at rows
    rw [done] at sound ⊢
    refine ⟨since.start, sound, ?_, ?_, ?_⟩
    · rw [← since.registry]
      exact (nodes _).trans (if_neg notIds)
    · intro q contents file
      rw [show disk.node q = _ from nodes q] at file
      split at file
      · cases file
      · exact since.files q contents file
    · intro row isOld below remains
      obtain ⟨file, row', isRow, sameAbove, sameIdentity⟩ := since.kept row isOld below remains
      have isGroup : row'.2 ∈ b.groups :=
        mem_groups_of_row isRow (by rw [sameAbove]; exact below)
      have sameId : row'.2.strId = row.2.strId := congrArg Prod.fst sameIdentity
      have samePath : row'.2.strPath = row.2.strPath :=
        congrArg (fun parts => parts.2.2) sameIdentity
      have different : row'.2 ≠ grp := by
        rintro rfl
        exact remains (sameId ▸ isDeleted)
      have sameFile : row.2.datPath = row'.2.datPath := by
        rw [GroupMembers.datPath, GroupMembers.datPath, sameId, samePath]
      constructor
      · rw [← file, sameFile]
        exact (nodes _).trans (if_neg (others row'.2 isGroup different).2)
      · refine ⟨row', ?_, sameAbove, sameIdentity⟩
        rcases List.mem_append.mp (rows.mem_iff.mp isRow) with stays | isLeafRow
        · exact stays
        · exfalso
          simp only [inherited_node, List.flatMap_nil, List.mem_singleton] at isLeafRow
          exact different (by rw [isLeafRow])
  · have absent : ∀ grp ∈ b.groups, grp.strId ≠ id := fun grp member same =>
      isGroup ⟨grp, member, same⟩
    obtain ⟨ids, isOpen, _⟩ := since.sound.agrees.ids
    have way := b.deleteGroup_result rt since.sound.agrees.uniqueIds isOpen pid id
    generalize b.deleteGroup rt pid id = result at way sound ⊢
    cases way with
    | noTarget why => exact since
    | missing message isOpen' => exact since.of_sameOutline sound rfl rfl
    | @reached c parent before after found rest answer r tree selects split call frame =>
        exfalso
        apply absent found.label _ (firstChild_eq_some split).2
        rw [CQuestionBankImpl.groups, tree]
        exact mem_descendants_plug c parent before after found.label_mem_preorder

/-- A call of a session. -/
theorem call (rt : Runtime) (since : SinceOpened root deleted opened b) {call : BankCall}
    (deletes : ∀ pid id, call = .group (.delete pid id) → deleted id)
    (inSession : call.InSession root b (call.perform rt b).1) :
    SinceOpened root deleted opened (call.perform rt b).2 := by
  rcases call with call | ⟨pid, name, id⟩ | ⟨pid, id⟩ | ⟨pid, id, name⟩
  · exact since.question rt call
  · exact since.add rt inSession.1 inSession.2
  · exact since.delete rt inSession (deletes pid id rfl)
  · exact inSession.elim

end SinceOpened

/-- Whether some call deletes the group with an id. -/
def Deletes (calls : List BankCall) (id : String) : Prop :=
  ∃ pid, .group (.delete pid id) ∈ calls

/-- The calls of a session that is not closed. -/
theorem SinceOpened.run (rt : Runtime) {root : Path} {opened : CQuestionBankImpl}
    (sound : Sound root opened) {calls : List BankCall}
    (inSession : Machine.Allowed (BankCall.perform rt) (BankCall.InSession root) calls opened) :
    SinceOpened root (Deletes calls) opened
      (Machine.run (BankCall.perform rt) calls opened).2 :=
  Machine.run_preserves
    (fun _ _ since allowed => since.call rt
      (fun pid _ isDelete => ⟨pid, isDelete ▸ allowed.1⟩) allowed.2)
    (.refl sound) inSession.with_mem

end Notebook
