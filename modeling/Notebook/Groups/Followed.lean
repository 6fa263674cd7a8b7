import Notebook.Groups.Agreement
import Notebook.Groups.Nesting
import Notebook.Library.QuietSearch
import Notebook.Library.TreePositions

/-!
# The directories of the groups

The directory of a group is the one at its cached path when the group is made, and goes
where renames carry it. `updateGroup` leaves the cached path as it was, so the two may
come apart. Deleting a group removes what lies at the cached path: it takes away the
directory of the group and spares those of the others exactly when the cached path still
leads to the one and to none of the others.
-/

namespace Notebook

open RoseTree CQuestionBankImpl

/-! ## Renames -/

/-- Where a path leads after a directory was renamed. -/
def Path.follow (q src dst : Path) : Path :=
  if src <+: q then dst ++ q.drop src.length else q

/-- What a path named is named by the path that follows the rename. -/
theorem FileSystem.node_follow {fs fs' : FileSystem β} {src dst : Path}
    (renamed : fs.rename src dst = some fs')
    {q : Path}
    (present : fs.node q ≠ none) :
    fs'.node (q.follow src dst) = fs.node q := by
  rcases FileSystem.rename_cases renamed with ⟨rfl, _, rfl⟩ | ⟨allowed, rfl⟩
  · have stays : q.follow src src = q := by
      unfold Path.follow
      split
      · rename_i below
        exact List.prefix_iff_eq_append.mp below
      · rfl
    rw [stays]
  · unfold Path.follow
    split
    · rename_i below
      rw [node_moved, if_pos (List.prefix_append _ _), List.drop_left,
        List.prefix_iff_eq_append.mp below]
    · rename_i elsewhere
      -- the target was free, so nothing was present below it
      have free : ¬ dst <+: q := fun below =>
        present (fs.node_eq_none_below allowed.2.1 allowed.2.2.1.1 below)
      rw [node_moved, if_neg free, if_neg elsewhere]

/-- The rename that `updateGroup` makes below a group, where it succeeds. -/
def Registers.renameHere (id name : String) (r : Registers) (qgp : CQuestionGroupParam) :
    Option (Path × Path) :=
  (firstChild id qgp).bind fun (_, found, _) =>
    let src := found.label.strPath
    let dst := qgp.label.strPath.join name
    if (r.refusals.rename r.disk src dst).isSome then some (src, dst) else none

/-- The rename of a call of `updateGroup` that returns true: the first one that succeeds
below the topmost groups with the parent id. -/
def CQuestionBankImpl.renameOf (pid id name : String) (b : CQuestionBankImpl) :
    Option (Path × Path) :=
  (topHits (isTarget pid) b.clsQuestionBank).findSome? (b.regs.renameHere id name)

/-- Where a call moves a directory. -/
def BankCall.moves (call : BankCall) (b : CQuestionBankImpl) (q : Path) : Path :=
  match call with
  | .group (.update pid id name) =>
      match b.renameOf pid id name with
      | some (src, dst) => q.follow src dst
      | none => q
  | _ => q

/-- Without the store of ids no operation returns true. -/
theorem Registers.ctrlHere_of_closed (rt : Runtime) (gid name : String)
    (type : GroupCtrlType) (qgp : CQuestionGroupParam) {r : Registers}
    (closed : r.ptrIds = none) :
    (ctrlHere rt gid name type qgp r).1 ≠ .value true ∧
      (ctrlHere rt gid name type qgp r).2.2.ptrIds = none := by
  cases type with
  | none => exact ⟨by simp [ctrlHere], closed⟩
  | max => exact ⟨by simp [ctrlHere], closed⟩
  | add =>
      simp only [ctrlHere, addGroup, closed]
      exact ⟨by simp, trivial⟩
  | delete =>
      obtain ⟨depth, height⟩ := exists_height qgp
      rw [ctrlHere, deleteGroup, height, deleteGroupWithin]
      simp only [closed]
      exact ⟨by simp, trivial⟩
  | update =>
      rw [ctrlHere, updateGroup]
      split
      · exact ⟨by simp, closed⟩
      · simp only [closed]
        exact ⟨by simp, trivial⟩

/-- A group operation that returns true found the store of ids open. -/
theorem CQuestionBankImpl.opened_of_ctrlRoot {rt : Runtime} {pid gid name : String}
    {type : GroupCtrlType} {b : CQuestionBankImpl}
    (accepted : (b.ctrlRoot rt pid gid name type).1 = .value true) :
    ∃ ids, b.regs.ptrIds = some ids := by
  cases closed : b.regs.ptrIds with
  | some ids => exact ⟨ids, rfl⟩
  | none =>
      exfalso
      have never := @search_related _ _ _ (fun grp : GroupMembers => pid = "" ∨ pid = grp.strId)
        (fun grp r => Registers.ctrlHere rt gid name type grp r)
        (fun answer : Outcome Bool => answer = .value false) (.value false) _ _
        (fun grp r => Registers.ctrlHere rt gid name type grp r)
        (fun answer : Outcome Bool => answer = .value false) (.value false)
        (fun answer answer' => answer = answer' ∧ answer ≠ .value true)
        (fun r r' => r = r' ∧ r.ptrIds = none)
        ⟨rfl, by simp⟩ (fun _ _ same => by rw [same.1])
        (fun grp r r' same => by
          obtain ⟨rfl, closed⟩ := same
          have here := Registers.ctrlHere_of_closed rt gid name type grp closed
          exact ⟨⟨rfl, here.1⟩, rfl, here.2⟩)
        b.clsQuestionBank b.regs b.regs ⟨rfl, closed⟩
      exact never.1.2 accepted

/-- What `updateGroup` does below one group, against the rename that is expected
there. -/
theorem Registers.updateGroup_finds (rt : Runtime) (id name : String) (r : Registers)
    (qgp : CQuestionGroupParam) {s : Registers}
    (before : s.disk = r.disk ∧ s.refusals = r.refusals ∧ s.ptrIds.isSome = true) :
    FoundOrNot (fun answer : Outcome Bool => answer = .value false)
      (fun s => s.disk = r.disk ∧ s.refusals = r.refusals ∧ s.ptrIds.isSome = true)
      (fun rename s => r.disk.rename rename.1 rename.2 = some s.disk)
      (r.renameHere id name qgp)
      (s.updateGroup rt id name qgp).1 (s.updateGroup rt id name qgp).2.2 := by
  obtain ⟨sameDisk, sameRefusals, isOpen⟩ := before
  obtain ⟨ids, opened⟩ := Option.isSome_iff_exists.mp isOpen
  unfold renameHere
  cases split : firstChild id qgp with
  | none =>
      have missing : ∀ other ∈ qgp.children, other.label.strId ≠ id := by
        intro other member
        simpa using splitFirst_eq_none_iff.mp split other member
      obtain ⟨message, done⟩ := s.updateGroup_of_missing rt name missing
      rw [done]
      exact ⟨by simp, sameDisk, sameRefusals, isOpen⟩
  | some parts =>
      obtain ⟨front, found, back⟩ := parts
      obtain ⟨children, holds, notBefore⟩ := splitFirst_eq_some_iff.mp split
      obtain ⟨answer, disk, message, done, moved⟩ :=
        @Registers.updateGroup_spec rt s ids opened id name qgp.label front back found
          (by simpa using holds) (fun other member => by simpa using notBefore other member)
      rw [← children, node_label_children] at done
      rw [sameDisk, sameRefusals] at moved
      simp only [Option.bind_some, done]
      rcases moved with ⟨rfl, renamed⟩ | ⟨rfl, unmoved, refused⟩
      · rw [renamed, Option.isSome_some, if_pos rfl]
        exact ⟨by simp, Refusals.rename_of_allowed renamed⟩
      · rw [refused, if_neg (by simp)]
        exact ⟨by simp, unmoved, sameRefusals, rfl⟩

/-! ## Following the directories -/

/-- A bank, and for every group of its tree the directory that was made for it. -/
structure Followed where
  bank : CQuestionBankImpl
  directory : Position → Path

/-- The cached path of the group at a position. -/
def cachedPath (qgp : CQuestionGroupParam) (p : Position) : Path :=
  match subtreeAt p qgp with
  | some grp => grp.label.strPath
  | none => []

namespace Followed

/-- At the start the directory of every group is at its cached path. -/
def start (b : CQuestionBankImpl) : Followed where
  bank := b
  directory := cachedPath b.clsQuestionBank

end Followed

/-- Run a call, and move the directories along. A group that is new gets the directory
at its cached path. -/
def BankCall.follow (rt : Runtime) : Machine BankCall Followed (Outcome Bool) :=
  fun call s =>
    ((call.perform rt s.bank).1,
      { bank := (call.perform rt s.bank).2
        directory := fun p =>
          if (subtreeAt p s.bank.clsQuestionBank).isSome then
            call.moves s.bank (s.directory p)
          else cachedPath (call.perform rt s.bank).2.clsQuestionBank p })

/-- A call that returns true, and stays inside the directories it works in. -/
def BankCall.Follows (call : BankCall) (_ : Followed) (answer : Outcome Bool) : Prop :=
  answer = .value true ∧ call.StaysInside

/-- Adding a group keeps whatever was present. -/
theorem CQuestionBankImpl.node_ctrlRoot_add (rt : Runtime) (pid id name : String)
    {b : CQuestionBankImpl} {q : Path}
    (present : b.regs.disk.node q ≠ none) :
    (b.ctrlRoot rt pid id name .add).2.regs.disk.node q = b.regs.disk.node q := by
  have kept := @search_preserves _ _ _ (fun grp : GroupMembers => pid = "" ∨ pid = grp.strId)
    (fun grp r => Registers.ctrlHere rt id name .add grp r)
    (fun answer : Outcome Bool => answer = .value false) (.value false)
    (fun r => r.disk.node q = b.regs.disk.node q)
    (fun qgp r same => by
      cases opened : r.ptrIds with
      | none =>
          simp only [Registers.ctrlHere, Registers.addGroup, opened]
          exact same
      | some ids =>
          obtain ⟨answer, disk, message, done, ways⟩ :=
            Registers.addGroup_spec opened id name qgp.label qgp.children
          rw [node_label_children] at done
          simp only [Registers.ctrlHere, done]
          rcases ways with ⟨_, _, rfl⟩ | ⟨_, creates⟩ | ⟨_, rfl, _, _⟩
          · exact same
          · have made := Refusals.mkdir_of_created creates
            have isNew := (FileSystem.hasParent_of_mkdir made).2
            rw [FileSystem.node_of_mkdir made, if_neg, same]
            rintro rfl
            exact present (same.symm.trans isNew)
          · exact same)
    b.clsQuestionBank b.regs rfl
  exact kept

/-- Whatever was present is found again where the call moved it. -/
theorem BankCall.node_moves (rt : Runtime) {call : BankCall} {b : CQuestionBankImpl}
    (accepted : (call.perform rt b).1 = .value true)
    (staysInside : call.StaysInside)
    {q : Path}
    (present : b.regs.disk.node q ≠ none) :
    (call.perform rt b).2.regs.disk.node (call.moves b q) = b.regs.disk.node q := by
  cases call with
  | question call =>
      have sameDisk : ∀ {β : Type} (gid : String)
          (use : CQuestionAnswerImpl → β × CQuestionAnswerImpl),
          (b.withContext rt gid use).2.regs.disk = b.regs.disk := by
        intro β gid use
        unfold withContext
        split
        · rfl
        · split <;> rfl
      have same : (call.perform rt b).2.regs.disk = b.regs.disk := by
        cases call <;> exact sameDisk _ _
      exact congrArg (fun disk : Disk => disk.node q) same
  | group call =>
      cases call with
      | delete pid id => exact staysInside.elim
      | add pid name id =>
          have stays : (BankCall.group (.add pid name id)).moves b q = q := rfl
          rw [stays]
          rw [BankCall.perform, GroupCall.perform, CQuestionBankImpl.addGroup] at accepted ⊢
          split at accepted
          · cases accepted
          · rename_i newId
            split at accepted
            · cases accepted
            · rename_i newName
              rw [if_neg newId, if_neg newName]
              exact node_ctrlRoot_add rt pid id name present
      | update pid id name =>
          obtain ⟨ids, opened⟩ := opened_of_ctrlRoot accepted
          have finds : FoundOrNot (fun answer : Outcome Bool => answer = .value false)
              (fun s : Registers => s.disk = b.regs.disk ∧ s.refusals = b.regs.refusals ∧
                s.ptrIds.isSome = true)
              (fun rename s => b.regs.disk.rename rename.1 rename.2 = some s.disk)
              (b.renameOf pid id name)
              (Registers.ctrlGroup rt pid id name .update b.clsQuestionBank b.regs).1
              (Registers.ctrlGroup rt pid id name .update b.clsQuestionBank b.regs).2.2 :=
            search_finds (by simp)
              (fun qgp s before => Registers.updateGroup_finds rt id name b.regs qgp before)
              b.clsQuestionBank ⟨rfl, rfl, by rw [opened]; rfl⟩
          have answer : (Registers.ctrlGroup rt pid id name .update b.clsQuestionBank
            b.regs).1 = .value true := accepted
          unfold BankCall.moves
          cases renames : b.renameOf pid id name with
          | none =>
              rw [renames] at finds
              have goes := finds.1
              rw [answer] at goes
              simp at goes
          | some rename =>
              rw [renames] at finds
              simp only [renames]
              exact FileSystem.node_follow finds.2 present

/-! ## Deleting a group -/

/-- The ids by which the window asks to delete a group: the id of its parent, at which
the search stops, and its own id, which no child before it has. -/
structure Addresses (pid id : String) (qgp : CQuestionGroupParam) (c : Context GroupMembers)
    (parent : GroupMembers) (before : List CQuestionGroupParam) (found : CQuestionGroupParam)
    (after : List CQuestionGroupParam) : Prop where
  tree : qgp = plug c (.node parent (before ++ found :: after))
  selects : Selects pid c parent
  isFound : found.label.strId = id
  notBefore : ∀ other ∈ before, other.label.strId ≠ id

/-- The position of a child of the group in a hole. -/
def childPosition (c : Context GroupMembers) (before : List CQuestionGroupParam) : Position :=
  holePosition c ++ [before.length]

theorem Addresses.subtreeAt {pid id : String} {qgp : CQuestionGroupParam}
    {c : Context GroupMembers} {parent : GroupMembers} {before after : List CQuestionGroupParam}
    {found : CQuestionGroupParam}
    (addresses : Addresses pid id qgp c parent before found after) :
    subtreeAt (childPosition c before) qgp = some found := by
  rw [addresses.tree, childPosition, subtreeAt_append, subtreeAt_plug, Option.bind_some,
    subtreeAt_cons, children_node, List.getElem?_append_right (Nat.le_refl _), Nat.sub_self]
  rfl

/-- What deleting the group at a position should leave on the disk: its directory is
gone, and the directory of every group outside its subtree is still there with its
files. -/
structure DeletesOwnDirectory (s : Followed) (p : Position) (disk : Disk) : Prop where
  own : disk.isDirectory (s.directory p) = false
  others : ∀ q grp, RoseTree.subtreeAt q s.bank.clsQuestionBank = some grp → ¬ p <+: q →
    s.bank.regs.disk.isDirectory (s.directory q) = true →
      disk.isDirectory (s.directory q) = true ∧
        ∀ file, s.bank.regs.disk.isFile (s.directory q ++ [file]) = true →
          disk.node (s.directory q ++ [file]) =
            s.bank.regs.disk.node (s.directory q ++ [file])

/-- A cached path that leads to the directory of the group at a position, and to that of
no group outside its subtree. -/
structure LeadsToOwn (s : Followed) (p : Position) (path : Path) : Prop where
  own : s.bank.regs.disk.isDirectory (s.directory p) = true → path <+: s.directory p
  others : ∀ q grp, RoseTree.subtreeAt q s.bank.clsQuestionBank = some grp → ¬ p <+: q →
    s.bank.regs.disk.isDirectory (s.directory q) = true → ¬ path <+: s.directory q

instance (s : Followed) (p : Position) (path : Path) : Decidable (LeadsToOwn s p path) :=
  decidable_of_iff
    ((s.bank.regs.disk.isDirectory (s.directory p) = true → path <+: s.directory p) ∧
      ∀ q ∈ places (fun _ => true) s.bank.clsQuestionBank, ¬ p <+: q →
        s.bank.regs.disk.isDirectory (s.directory q) = true → ¬ path <+: s.directory q)
    ⟨fun leads => ⟨leads.1, fun q grp place =>
        leads.2 q (mem_places_iff.mpr ⟨grp, place, rfl⟩)⟩,
      fun leads => ⟨leads.own, fun q member => by
        obtain ⟨grp, place, _⟩ := mem_places_iff.mp member
        exact leads.others q grp place⟩⟩

/-- What a call that returns true does to the disk: everything at and below the cached
path goes if there is a directory, and nothing goes otherwise. -/
theorem Registers.deleteGroup_disk (rt : Runtime) {id : String}
    {qgp found : CQuestionGroupParam} {before after : List CQuestionGroupParam}
    {r : Registers} {ids : CQuestionAnswerImpl}
    (opened : r.ptrIds = some ids)
    (split : firstChild id qgp = some (before, found, after))
    (nested : Nested found)
    (returns : (r.deleteGroup rt id qgp).1 = .value true)
    {disk : Disk} (isDisk : (r.deleteGroup rt id qgp).2.2.disk = disk) :
    (∀ q, found.label.strPath <+: q → disk.isDirectory q = false) ∧
      (∀ q, ¬ found.label.strPath <+: q → disk.node q = r.disk.node q) ∧
      (r.disk.isDirectory found.label.strPath = false → ∀ q, disk.node q = r.disk.node q) := by
  subst isDisk
  have steps := deleteGroup_steps rt opened split
  have gone := directory_gone rt opened split returns
  have below := nested.liesBelow (List.prefix_refl found.label.strPath)
  refine ⟨?_, fun q outside => steps.keeps_outside below outside, ?_⟩
  · intro q inside
    rw [← Bool.not_eq_true]
    intro directory
    have above := FileSystem.isDirectory_above nested.ne_nil inside directory
    rw [gone] at above
    cases above
  · intro noDirectory q
    rw [← Bool.not_eq_true, FileSystem.isDirectory_iff] at noDirectory
    exact steps.keeps_of_not_directory below nested.ne_nil noDirectory q

/-- A call that returns true takes away the directory of its group and spares those of the
others exactly when the cached path leads to the one and to none of the others. -/
theorem deletesOwnDirectory_iff {s : Followed} {p : Position} {path : Path} {disk : Disk}
    (gone : ∀ q, path <+: q → disk.isDirectory q = false)
    (kept : ∀ q, ¬ path <+: q → disk.node q = s.bank.regs.disk.node q)
    (nothing : s.bank.regs.disk.isDirectory path = false →
      ∀ q, disk.node q = s.bank.regs.disk.node q) :
    DeletesOwnDirectory s p disk ↔ LeadsToOwn s p path := by
  have sameDirectory : ∀ {q}, disk.node q = s.bank.regs.disk.node q →
      disk.isDirectory q = s.bank.regs.disk.isDirectory q := by
    intro q same
    rw [Bool.eq_iff_iff, FileSystem.isDirectory_iff, FileSystem.isDirectory_iff, same]
  constructor
  · intro deletes
    constructor
    · intro directory
      by_contra elsewhere
      have left := deletes.own
      rw [sameDirectory (kept _ elsewhere), directory] at left
      cases left
    · intro q grp place outside directory inside
      have still := (deletes.others q grp place outside directory).1
      rw [gone _ inside] at still
      cases still
  · intro leads
    constructor
    · by_cases inside : path <+: s.directory p
      · exact gone _ inside
      · rw [sameDirectory (kept _ inside), ← Bool.not_eq_true]
        exact fun directory => inside (leads.own directory)
    · intro q grp place outside directory
      have elsewhere := leads.others q grp place outside directory
      refine ⟨by rw [sameDirectory (kept _ elsewhere), directory], ?_⟩
      intro file isFile
      by_cases inside : path <+: s.directory q ++ [file]
      · -- the cached path can only be that of the file
        rcases List.prefix_concat_iff.mp inside with same | above
        · apply nothing
          obtain ⟨contents, node⟩ := FileSystem.isFile_iff.mp isFile
          rw [← Bool.not_eq_true, FileSystem.isDirectory_iff, same, node]
          simp
        · exact absurd above elsewhere
      · exact kept _ inside

/-- Every run of calls that stay inside keeps the paths going down the tree. -/
theorem BankCall.nested_follow (rt : Runtime) {b : CQuestionBankImpl}
    (nested : Nested b.clsQuestionBank) {calls : List BankCall}
    (follows : Machine.Allowed (follow rt) Follows calls (Followed.start b)) :
    Nested (Machine.run (follow rt) calls (Followed.start b)).2.bank.clsQuestionBank := by
  have preserved : ∀ (call : BankCall) (s : Followed), Nested s.bank.clsQuestionBank →
      call.Follows s (call.follow rt s).1 → Nested (call.follow rt s).2.bank.clsQuestionBank :=
    fun _ _ nested follows => BankCall.nested rt follows.2 nested
  exact Machine.run_preserves preserved nested follows

/-- After any run of calls that return true and stay inside the directories they work
in, from a bank whose paths go down the tree, a deletion that returns true takes away
the directory of its group, wherever renames have carried it, and spares the directories
of the others exactly when the cached path still leads to the one and to none of the
others. -/
theorem BankCall.run_delete_iff (rt : Runtime) {b : CQuestionBankImpl}
    (nested : Nested b.clsQuestionBank)
    {calls : List BankCall}
    (follows : Machine.Allowed (follow rt) Follows calls (Followed.start b))
    {s : Followed} (reached : (Machine.run (follow rt) calls (Followed.start b)).2 = s)
    {pid id : String} {c : Context GroupMembers} {parent : GroupMembers}
    {before after : List CQuestionGroupParam} {found : CQuestionGroupParam}
    (addresses : Addresses pid id s.bank.clsQuestionBank c parent before found after)
    (returns : (s.bank.deleteGroup rt pid id).1 = .value true) :
    DeletesOwnDirectory s (childPosition c before) (s.bank.deleteGroup rt pid id).2.regs.disk ↔
      LeadsToOwn s (childPosition c before) found.label.strPath := by
  subst reached
  have reachedNested := BankCall.nested_follow rt nested follows
  generalize (Machine.run (follow rt) calls (Followed.start b)).2 = s at *
  rw [addresses.tree] at reachedNested
  have nestedFound : Nested found := reachedNested.of_plug.child (by simp)
  obtain ⟨ids, opened⟩ := opened_of_ctrlRoot returns
  have split : Registers.firstChild id (.node parent (before ++ found :: after)) =
      some (before, found, after) :=
    splitFirst_append_cons (by simpa using addresses.isFound)
      (by simpa using addresses.notBefore) after
  have acted := Registers.ctrlGroup_of_selects rt addresses.selects
    (before ++ found :: after) id "" .delete s.bank.regs
  rw [CQuestionBankImpl.deleteGroup, ctrlRoot, addresses.tree, acted, Registers.ctrlHere]
    at returns ⊢
  obtain ⟨gone, kept, nothing⟩ :=
    Registers.deleteGroup_disk rt opened split nestedFound returns rfl
  exact deletesOwnDirectory_iff gone kept nothing

/-- The group of the directory `Words` with the group below it. -/
def wordsGroup : CQuestionGroupParam :=
  .node { strName := "Words", strId := "w", strPath := ["root", "Words"] }
    [.node { strName := "Verbs", strId := "v", strPath := ["root", "Words", "Verbs"] } []]

theorem agreeingBank_nested : Nested agreeingBank.clsQuestionBank := by
  have tree : agreeingBank.clsQuestionBank =
      .node { strName := "root", strPath := ["root"] } [wordsGroup] := by
    decide +kernel
  rw [tree]
  refine .node (by simp) (by simp) (by simp [wordsGroup]) ?_
  intro words isWords
  rw [List.mem_singleton.mp isWords]
  refine .node (by simp) (by simp) (by simp) ?_
  intro verbs isVerbs
  rw [List.mem_singleton.mp isVerbs]
  exact .node (by simp) (by simp) (by simp) (by simp)

/-- The group `Nouns` with one question. -/
def nounsGroup : CQuestionGroupParam :=
  .node
    { strName := "Nouns"
      strId := "n"
      strPath := ["root", "Nouns"]
      vecQuestions :=
        [{ strPath := ["root", "Nouns", "n.dat"]
           lstQuestions := [{ id := "q", group := "n", question := "?", answer := "!" }] }] }
    []

/-- Calls that add a group and a question in it, and give a group the name it has. -/
def followedCalls : List BankCall :=
  [.group (.add "" "Nouns" "n"), .question (.add "n" "q" "?" "!"),
   .group (.update "" "w" "Words")]

theorem BankCall.run_delete_iff_agreeingBank :
    let s := (Machine.run (follow .wire) followedCalls (Followed.start agreeingBank)).2
    DeletesOwnDirectory s [1] (s.bank.deleteGroup .wire "" "n").2.regs.disk := by
  intro s
  have component : IsComponent "Nouns" := by decide +kernel
  have fileName : IsComponent "n.dat" := by decide +kernel
  have follows : Machine.Allowed (follow .wire) Follows followedCalls
      (Followed.start agreeingBank) :=
    ⟨⟨by decide +kernel, component.staysInside⟩, ⟨by decide +kernel, fileName⟩,
      ⟨by decide +kernel, trivial⟩, trivial⟩
  have addresses : Addresses "" "n" s.bank.clsQuestionBank []
      { strName := "root", strPath := ["root"] } [wordsGroup] nounsGroup [] :=
    ⟨by decide +kernel, selects_root _, by decide, by decide⟩
  exact (run_delete_iff .wire agreeingBank_nested follows rfl addresses (by decide +kernel)).mpr
    (by decide +kernel)

/-- Calls after which two groups have the names, but not the cached paths, of their
directories. -/
def renamingCalls : List BankCall :=
  [.group (.add "" "Nouns" "n"), .group (.update "" "w" "Adverbs"),
   .group (.update "" "n" "Words")]

/-- A group that was renamed leaves its directory behind when it is deleted, and takes
away the directory of a group that was given its old name. -/
theorem renamed_group_deletes_other :
    let run := Machine.run (BankCall.follow .wire) renamingCalls (Followed.start agreeingBank)
    let call := run.2.bank.deleteGroup .wire "" "w"
    run.1 = [.value true, .value true, .value true] ∧ call.1 = .value true ∧
      run.2.directory [0] = ["root", "Adverbs"] ∧
      call.2.regs.disk.isDirectory ["root", "Adverbs"] = true ∧
      run.2.directory [1] = ["root", "Words"] ∧
      run.2.bank.regs.disk.isDirectory ["root", "Words"] = true ∧
      call.2.regs.disk.isDirectory ["root", "Words"] = false ∧
      ¬ DeletesOwnDirectory run.2 [0] call.2.regs.disk := by
  intro run call
  have facts : run.1 = [.value true, .value true, .value true] ∧ call.1 = .value true ∧
      run.2.directory [0] = ["root", "Adverbs"] ∧
      call.2.regs.disk.isDirectory ["root", "Adverbs"] = true ∧
      run.2.directory [1] = ["root", "Words"] ∧
      run.2.bank.regs.disk.isDirectory ["root", "Words"] = true ∧
      call.2.regs.disk.isDirectory ["root", "Words"] = false := by
    decide +kernel
  obtain ⟨answers, returns, moved, left, taken, stood, gone⟩ := facts
  refine ⟨answers, returns, moved, left, taken, stood, gone, ?_⟩
  intro deletes
  have own := deletes.own
  rw [moved, left] at own
  cases own

end Notebook
