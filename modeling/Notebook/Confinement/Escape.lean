import Notebook.Confinement.Visits
import Notebook.Sessions.Durable

/-!
# A group with the name of the parent directory

The name of a group is joined to the path of its parent without a look at it. A group that
is called like the parent directory therefore has the directory above as its own, and
deleting the group takes this directory away with all that is in it.
-/

namespace Notebook

open RoseTree CQuestionAnswerImpl CQuestionBankImpl

namespace Sound

variable {root : Path} {b : CQuestionBankImpl}

/-- No group has the name of the parent directory. -/
theorem hasName_dots (sound : Sound root b) : b.regs.mapIds.hasName ".." = false := by
  rw [IdMap.hasName_eq_false_iff, (sound.agrees.mapIds.map Prod.snd).mem_iff, groupPairs,
    List.map_map, List.mem_map]
  rintro ⟨grp, member, isDots⟩
  exact (sound.groups grp member).name.component.ne_dots isDots

/-- Adding the group succeeds without a change to the disk, under any parent. -/
theorem addGroup_dots (rt : Runtime) (sound : Sound root b) {c : Context GroupMembers}
    {parent : GroupMembers} {groups : List CQuestionGroupParam}
    (tree : b.clsQuestionBank = plug c (.node parent groups))
    (above : parent.strPath.dropLast ≠ []) {id : String}
    (newId : b.regs.mapIds.contains id = false) :
    ∃ ids message,
      b.addGroup rt parent.strId ".." id =
        (.value true,
          { b with
            clsQuestionBank := plug c (.node parent
              (groups ++ [.node (Registers.newGroup parent id "..") []]))
            regs := { b.regs with
              mapIds := b.regs.mapIds.emplace id ".."
              ptrIds := some ids
              strErrorMsg := message } }) ∧
        b.regs.disk.isDirectory parent.strPath.dropLast = true := by
  have inTree : parent ∈ b.clsQuestionBank.preorder := by
    rw [tree, preorder_plug]
    simp
  have directory : b.regs.disk.isDirectory parent.strPath = true := by
    rw [FileSystem.isDirectory_iff]
    rcases sound.mem_preorder.mp inTree with rfl | below
    · exact sound.root_directory
    · exact (sound.groups parent below).directory
  have isDirectory : b.regs.disk.isDirectory parent.strPath.dropLast = true :=
    FileSystem.isDirectory_above above (List.dropLast_prefix _) directory
  have present : b.regs.disk.isPresent (parent.strPath.join "..") = true := by
    rw [Path.join_dots]
    exact Registers.isPresent_of_isDirectory isDirectory
  obtain ⟨ids, opened, _⟩ := sound.agrees.ids
  obtain ⟨answer, disk, message, done, ways⟩ :=
    Registers.addGroup_spec opened id ".." parent groups
  have acted := Registers.ctrlGroup_of_selects rt (sound.distinctIds.selects tree) groups id ".."
    .add b.regs
  rw [Registers.ctrlHere, done] at acted
  refine ⟨(ids.addGroup id "..").2, message, ?_, isDirectory⟩
  obtain ⟨rfl, rfl⟩ : answer = .value true ∧ disk = b.regs.disk := by
    rcases ways with ⟨returns, _, same⟩ | ⟨_, creates⟩ | ⟨_, _, absent, _⟩
    · exact ⟨returns, same⟩
    · have free := (FileSystem.hasParent_of_mkdir (Refusals.mkdir_of_created creates)).2
      exact absurd free (FileSystem.isPresent_iff.mp present)
    · rw [present] at absent
      cases absent
  rw [CQuestionBankImpl.addGroup, if_neg (by simp [newId]), if_neg (by simp [sound.hasName_dots]),
    ctrlRoot, tree, acted]

/-- Deleting it takes away the directory above that of the parent. -/
theorem deleteGroup_dots (rt : Runtime) (sound : Sound root b) {parent : GroupMembers}
    (present : parent ∈ b.clsQuestionBank.preorder)
    (above : parent.strPath.dropLast ≠ []) {id : String}
    (newId : b.regs.mapIds.contains id = false) :
    let added := b.addGroup rt parent.strId ".." id
    let deleted := added.2.deleteGroup rt parent.strId id
    added.1 = .value true ∧ deleted.1 = .value true ∧
      deleted.2.regs.disk = b.regs.disk.removeTree parent.strPath.dropLast := by
  obtain ⟨c, groups, tree⟩ := exists_plug_of_mem_preorder present
  obtain ⟨ids, message, added, directory⟩ := sound.addGroup_dots rt tree above newId
  have others : ∀ child ∈ groups, child.label.strId ≠ id := by
    rintro child member rfl
    obtain ⟨before, after, rfl⟩ := List.append_of_mem member
    have isGroup := mem_descendants_plug c parent before after child.label_mem_preorder
    rw [← tree] at isGroup
    rw [sound.ready.registered child.label isGroup] at newId
    cases newId
  have split : Registers.firstChild id (.node parent
      (groups ++ [.node (Registers.newGroup parent id "..") []])) =
        some (groups, .node (Registers.newGroup parent id "..") [], []) :=
    splitFirst_append_cons (by simp [Registers.newGroup]) (by simpa using others) []
  have path : (Registers.newGroup parent id "..").strPath = parent.strPath.dropLast :=
    Path.join_dots _
  simp only [added]
  generalize regs : ({ b.regs with
    mapIds := b.regs.mapIds.emplace id "..", ptrIds := some ids, strErrorMsg := message } :
    Registers) = r
  have opened : r.ptrIds = some ids := by rw [← regs]
  have sameDisk : r.disk = b.regs.disk := by rw [← regs]
  have done := @Registers.deleteGroup_of_leaf rt id _ _ _ _ r ids r.disk opened split
    (by rw [← regs]; exact sound.refusals) rfl (by rw [path, sameDisk]; exact directory)
  have acted := Registers.ctrlGroup_of_selects rt (sound.distinctIds.selects tree)
    (groups ++ [.node (Registers.newGroup parent id "..") []]) id "" .delete r
  rw [Registers.ctrlHere, done] at acted
  rw [CQuestionBankImpl.deleteGroup, ctrlRoot]
  simp only [acted]
  rw [path, sameDisk]
  exact ⟨trivial, trivial, rfl⟩

end Sound

namespace Session

/-- After any number of sessions, under any group of the bank: adding a group with the name of
the parent directory and deleting it both return true, and take away the directory that holds
the directory of the parent. -/
theorem run_dots (rt : Runtime) {root : Path} {disk : Disk}
    (nothingYet : NothingYet root disk) {sessions : List Session} {last : Session}
    (proper : Machine.Allowed (perform rt root) (Proper rt root) (sessions ++ [last]) disk)
    {parent : GroupMembers} {id : String} :
    let b := last.used rt root (Machine.run (perform rt root) sessions disk).2
    let added := b.addGroup rt parent.strId ".." id
    let deleted := added.2.deleteGroup rt parent.strId id
    parent ∈ b.clsQuestionBank.preorder → parent.strPath.dropLast ≠ [] →
    b.regs.mapIds.contains id = false →
      added.1 = .value true ∧ deleted.1 = .value true ∧
        ∀ q, parent.strPath.dropLast <+: q → deleted.2.regs.disk.node q = none := by
  intro b added deleted present above newId
  rw [Machine.allowed_append] at proper
  have opens : Opens rt root (Machine.run (perform rt root) sessions disk).2 :=
    @Machine.run_preserves _ _ _ (perform rt root) (Proper rt root) (Opens rt root)
      (fun _ _ opens proper => (sound_used opens proper).2.opens rt) sessions disk
      (nothingYet.opens rt) proper.1
  have sound : Sound root b := (sound_used opens proper.2.1).2
  obtain ⟨returns, returns', gone⟩ := sound.deleteGroup_dots rt present above newId
  refine ⟨returns, returns', fun q below => ?_⟩
  rw [gone, FileSystem.node_removeTree, if_pos below]

/-- A session that makes two groups below each other. -/
def nestedSession : Session where
  entries := []
  calls := [.group (.add "" "Words" "1a"), .group (.add "1a" "Verbs" "2b")]

theorem run_dots_nestedSession :
    let b := nestedSession.used .wire ["home", "bank"] homeDisk
    let added := b.addGroup .wire "" ".." "3c"
    let deleted := added.2.deleteGroup .wire "" "3c"
    added.1 = .value true ∧ deleted.1 = .value true ∧
      ∀ q, ["home"] <+: q → deleted.2.regs.disk.node q = none :=
  @run_dots .wire ["home", "bank"] homeDisk (.absent rfl (by decide)) [] nestedSession
    (by decide +kernel) { strName := "bank", strPath := ["home", "bank"] } "3c"
    (by decide +kernel) (by decide) (by decide +kernel)

end Session

end Notebook
