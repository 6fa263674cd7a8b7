import Notebook.Sessions.Reopen
import Notebook.Sessions.Steps

/-!
# Durability over sessions

A session is `init` on a new object, any calls of the kinds a session makes, and
`uninit`. Over any number of sessions the groups and their questions survive.
-/

namespace Notebook

open RoseTree CQuestionAnswerImpl CQuestionBankImpl

/-! ## What survives -/

/-- The groups of a bank: the id of the parent, the own id and name, and the questions. -/
def CQuestionBankImpl.groupsWithQuestions (b : CQuestionBankImpl) :
    List (Option String × String × String × List QuestionAnswer) :=
  (parentRows b.clsQuestionBank).map fun row =>
    (row.1.map Prod.fst, row.2.strId, row.2.strName, row.2.records)

/-- Closing the bank raises no error, and the next `init` on the same path returns true and
finds the same groups with the same questions. -/
def CQuestionBankImpl.Survives (rt : Runtime) (root : Path) (b : CQuestionBankImpl) : Prop :=
  (b.uninit rt).1 = .value () ∧
    ∀ entries, (b.uninit rt).2.regs.disk.IsListing root entries →
      let next := (fresh (b.uninit rt).2.regs.disk Refusals.never).init rt root
        { entries := entries }
      next.1 = .value true ∧ next.2.groupsWithQuestions.Perm b.groupsWithQuestions

/-- On a disk that a session can start with, `init` returns true and makes a bank that
agrees with the directory. -/
def Opens (rt : Runtime) (root : Path) (disk : Disk) : Prop :=
  ∀ entries, disk.IsListing root entries →
    ∃ b, (fresh disk Refusals.never).init rt root { entries := entries } = (.value true, b) ∧
      Sound root b

/-- Opening a bank from what is left of it on the disk. -/
theorem LeftOnDisk.reinit {rt : Runtime} {root : Path} {b : CQuestionBankImpl}
    {items : List QuestionAnswerGroup} {disk : Disk} (left : LeftOnDisk rt root b items disk)
    (sound : Sound root b) (pairs : (items.map groupPair).Perm (groupPairs b.clsQuestionBank))
    {entries : List Path} (listed : disk.IsListing root entries) :
    ∃ next, (fresh disk Refusals.never).init rt root { entries := entries } =
        (.value true, next) ∧
      Sound root next ∧
      (parentRows next.clsQuestionBank).Perm
        ((parentRows b.clsQuestionBank).map fun row => (row.1, row.2.reopened)) := by
  have registryFile : disk.node (idsPath root) ≠ some .directory :=
    fun directory => sound.ids_file ((left.directories _).mp directory)
  obtain ⟨tree, initialised, rows⟩ := @init_of_readable rt _ Refusals.never root
    { entries := entries } ((left.directories root).mpr sound.root_directory) registryFile items
    left.registry
    (by
      intro entry member isStore
      obtain ⟨grp, isGroup, rfl⟩ := (left.isStoreEntry_iff sound listed member).mp isStore
      rw [left.records grp isGroup]
      rfl)
    listed rfl (left.namesFound sound listed)
  have sameRows := rows.trans (left.mirrorRows_perm sound listed pairs)
  exact ⟨_, initialised, sound.reopened left pairs sameRows, sameRows⟩

namespace Sound

variable {rt : Runtime} {root : Path} {b : CQuestionBankImpl}

/-- Closing a bank that agrees with its directory and opening it again. -/
theorem reinit (rt : Runtime) (sound : Sound root b) {entries : List Path}
    (listed : (b.uninit rt).2.regs.disk.IsListing root entries) :
    ∃ next, (fresh (b.uninit rt).2.regs.disk Refusals.never).init rt root
        { entries := entries } = (.value true, next) ∧
      Sound root next ∧
      (parentRows next.clsQuestionBank).Perm
        ((parentRows b.clsQuestionBank).map fun row => (row.1, row.2.reopened)) := by
  obtain ⟨items, disk, pairs, _, rfl, left⟩ := sound.uninit rt
  exact left.reinit sound pairs listed

theorem opens (rt : Runtime) (sound : Sound root b) :
    Opens rt root (b.uninit rt).2.regs.disk := by
  intro entries listed
  obtain ⟨next, initialised, soundNext, _⟩ := sound.reinit rt listed
  exact ⟨next, initialised, soundNext⟩

theorem survives (rt : Runtime) (sound : Sound root b) : b.Survives rt root := by
  constructor
  · obtain ⟨_, _, _, returned, _⟩ := sound.uninit rt
    exact returned
  · intro entries listed
    obtain ⟨next, initialised, _, rows⟩ := sound.reinit rt listed
    rw [initialised]
    refine ⟨rfl, ?_⟩
    have mapped := rows.map fun row : Option (String × String × Path) × GroupMembers =>
      (row.1.map Prod.fst, row.2.strId, row.2.strName, row.2.records)
    rw [List.map_map] at mapped
    refine mapped.trans (List.Perm.of_eq (List.map_congr_left ?_))
    intro row _
    rw [Function.comp, GroupMembers.reopened_records]
    rfl

end Sound

/-! ## The first session -/

/-- An absent directory that can be made, or a directory with nothing in it. -/
inductive NothingYet (root : Path) (disk : Disk) : Prop
  | absent (free : disk.node root = none) (parent : disk.HasParent root)
  | empty (directory : disk.node root = some .directory) (noEntries : disk.HasNoEntries root)

/-- The bank that `init` makes of an empty directory agrees with it. -/
theorem opens_empty (rt : Runtime) {root : Path} {disk : Disk}
    (directory : disk.node root = some .directory)
    (nothing : ∀ q, root <+: q → root ≠ q → disk.node q = none) :
    ∃ b, (fresh disk Refusals.never).init rt root { entries := [] } = (.value true, b) ∧
      Sound root b := by
  have noIds : disk.node (idsPath root) = none :=
    nothing _ (List.prefix_append _ _) (by simp [idsPath])
  have opened := openFile_of_absent rt (idsPath_ne_nil root)
    (FileSystem.isPresent_eq_false_iff.mpr noIds) false
  have initialised := @init_of_placed rt root { entries := [] } (fresh disk Refusals.never)
    directory _ opened _ rfl rfl
  refine ⟨_, initialised, ⟨rfl, ⟨_, rfl, idsPath_ne_nil root, .nil⟩, .nil, .nil, .nil⟩, ?_, rfl,
    ?_, ?_, directory, ?_, ?_, rfl⟩
  · intro ids isIds
    obtain rfl := Option.some.inj isIds
    exact ⟨rfl, rfl⟩
  · intro row member above isAbove
    rcases parentRows_cases member with rfl | ⟨c, parent, before, child, after, tree, _⟩
    · cases isAbove
    · exfalso
      have inTree := mem_descendants_plug c parent before after child.label_mem_preorder
      rw [← tree] at inTree
      cases inTree
  · intro grp member
    cases member
  · change disk.node (idsPath root) ≠ some .directory
    rw [noIds]
    simp
  · intro p below different present
    exact absurd (nothing p below different) present

/-- A session can start on a path where there is nothing yet. -/
theorem NothingYet.opens (rt : Runtime) {root : Path} {disk : Disk}
    (nothingYet : NothingYet root disk) : Opens rt root disk := by
  intro entries listed
  cases nothingYet with
  | absent free parent =>
      have nothing : ∀ q, root <+: q → disk.node q = none := fun q below =>
        FileSystem.node_eq_none_below free parent.1 below
      obtain rfl : entries = [] := by
        rw [List.eq_nil_iff_forall_not_mem]
        intro p member
        obtain ⟨below, _, present⟩ := (listed.mem_iff p).mp member
        exact present (nothing p below)
      obtain ⟨made, makes, nodes⟩ := FileSystem.mkdir_eq_some parent free
      have created : Refusals.never.createDirectory disk root = .created made := by
        rw [Refusals.createDirectory, makes]
        rfl
      have isDirectory : made.node root = some .directory := by rw [nodes, if_pos rfl]
      rw [init_of_created (b := fresh disk Refusals.never)
        (FileSystem.isPresent_eq_false_iff.mpr free) created
        (FileSystem.isPresent_iff.mpr (by rw [isDirectory]; simp))]
      apply opens_empty rt isDirectory
      intro q below different
      rw [nodes, if_neg different.symm]
      exact nothing q below
  | empty directory noEntries =>
      have nothing := FileSystem.hasNoEntries_iff.mp noEntries
      obtain rfl : entries = [] := by
        rw [List.eq_nil_iff_forall_not_mem]
        intro p member
        obtain ⟨below, different, present⟩ := (listed.mem_iff p).mp member
        exact present (nothing p below different)
      exact opens_empty rt directory nothing

/-! ## Runs of sessions -/

/-- A session: the listing that its `init` gets, and the calls between `init` and
`uninit`. -/
structure Session where
  entries : List Path
  calls : List BankCall

namespace Session

/-- The start of a session, on a new object. -/
def opened (rt : Runtime) (root : Path) (session : Session) (disk : Disk) :
    Outcome Bool × CQuestionBankImpl :=
  (fresh disk Refusals.never).init rt root { entries := session.entries }

/-- The bank after the calls of a session, before `uninit`. -/
def used (rt : Runtime) (root : Path) (session : Session) (disk : Disk) : CQuestionBankImpl :=
  (Machine.run (BankCall.perform rt) session.calls (session.opened rt root disk).2).2

/-- Run a whole session. The answers are those of `init` and `uninit`. -/
def perform (rt : Runtime) (root : Path) :
    Machine Session Disk (Outcome Bool × Outcome Unit) := fun session disk =>
  let closed := (session.used rt root disk).uninit rt
  (((session.opened rt root disk).1, closed.1), closed.2.regs.disk)

/-- A session that gets a listing of its directory and makes calls of the kinds that a
session makes. -/
def Proper (rt : Runtime) (root : Path) (session : Session) (disk : Disk)
    (_ : Outcome Bool × Outcome Unit) : Prop :=
  disk.IsListing root session.entries ∧
    Machine.Allowed (BankCall.perform rt) (BankCall.InSession root) session.calls
      (session.opened rt root disk).2

instance (rt : Runtime) (root : Path) (session : Session) (disk : Disk)
    (answers : Outcome Bool × Outcome Unit) :
    Decidable (session.Proper rt root disk answers) :=
  inferInstanceAs (Decidable (_ ∧ _))

/-- A session on a disk that opens. -/
theorem sound_used {rt : Runtime} {root : Path} {disk : Disk} (opens : Opens rt root disk)
    {session : Session} {answers : Outcome Bool × Outcome Unit}
    (proper : session.Proper rt root disk answers) :
    (session.opened rt root disk).1 = .value true ∧ Sound root (session.used rt root disk) := by
  obtain ⟨b, initialised, sound⟩ := opens session.entries proper.1
  have calls := proper.2
  unfold used
  rw [opened, initialised] at calls ⊢
  exact ⟨rfl, sound.run rt calls⟩

/-- From a path where there is nothing yet, over any number of sessions, `init` and
`uninit` of the last one succeed, and the next `init` on the path returns true and finds
the same groups, each with the same name, parent and questions. -/
theorem run_durable (rt : Runtime) {root : Path} {disk : Disk}
    (nothingYet : NothingYet root disk) {sessions : List Session} {last : Session}
    (proper : Machine.Allowed (perform rt root) (Proper rt root) (sessions ++ [last]) disk) :
    let before := (Machine.run (perform rt root) sessions disk).2
    (last.opened rt root before).1 = .value true ∧
      (last.used rt root before).Survives rt root := by
  intro before
  rw [Machine.allowed_append] at proper
  have opens : Opens rt root before :=
    @Machine.run_preserves _ _ _ (perform rt root) (Proper rt root) (Opens rt root)
      (fun _ _ opens proper => (sound_used opens proper).2.opens rt) sessions disk
      (nothingYet.opens rt) proper.1
  obtain ⟨returned, sound⟩ := sound_used opens proper.2.1
  exact ⟨returned, sound.survives rt⟩

/-- A session that makes groups below each other and gives them questions. -/
def firstSession : Session where
  entries := []
  calls :=
    [.group (.add "" "Words" "1a"), .group (.add "1a" "Verbs" "2b"),
      .question (.add "2b" "q" "ser" "to be"), .question (.add "1a" "p" "hund" "dog"),
      .group (.add "1a" "Words" "4d"), .group (.add "" "Nouns" "3c")]

/-- A session that takes out a question and a group and changes another question. -/
def secondSession : Session where
  entries :=
    [["root", "Words"], ["root", "Nouns"], ["root", "Words", "1a.dat"],
      ["root", "Words", "Verbs"], ["root", "ids.dat"], ["root", "Words", "Verbs", "2b.dat"]]
  calls :=
    [.question (.delete "1a" "p"), .group (.delete "" "3c"),
      .question (.update "2b" "q" "estar" "to be"), .question (.query "2b" "q")]

theorem run_durable_secondSession :
    let before := (Machine.run (perform .wire ["root"]) [firstSession] FileSystem.empty).2
    (secondSession.opened .wire ["root"] before).1 = .value true ∧
      (secondSession.used .wire ["root"] before).Survives .wire ["root"] :=
  run_durable .wire (.absent rfl (by decide)) (by decide +kernel)

end Session

end Notebook
