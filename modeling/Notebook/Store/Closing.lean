import Notebook.Model.NotebookImpl

/-!
# Closing stores

Closing a store replaces or removes the file at its path and touches nothing
else. Stores with distinct paths can therefore be closed in any order, and the
recursive `uninitQuestionBank` closes the stores of the whole tree like one list.
-/

namespace Notebook

namespace CQuestionAnswerImpl

/-- What is at the path of a store after it was closed on a disk. Without a parent
directory the file cannot be opened. -/
def written (rt : Runtime) (disk : Disk) (ctx : CQuestionAnswerImpl) :
    Option (Node Bytes) :=
  if ctx.lstGroups = [] ∧ ctx.lstQuestions = [] then none
  else if disk.HasParent ctx.strPath then some (.file (ctx.contents rt))
  else none

theorem written_ne_directory (rt : Runtime) (disk : Disk) (ctx : CQuestionAnswerImpl) :
    ctx.written rt disk ≠ some .directory := by
  unfold written
  split
  · simp
  · split <;> simp

/-- What records of one kind are written as. Without any there is no file. -/
def recordsNode (serialize : List α → Bytes) (items : List α) : Option (Node Bytes) :=
  if items = [] then none else some (.file (serialize items))

theorem written_of_groups (rt : Runtime) {disk : Disk} {ctx : CQuestionAnswerImpl}
    (noQuestions : ctx.lstQuestions = []) (parent : disk.HasParent ctx.strPath) :
    ctx.written rt disk = recordsNode rt.serializeGroups ctx.lstGroups := by
  unfold written recordsNode contents
  by_cases empty : ctx.lstGroups = []
  · simp [empty, noQuestions]
  · simp [empty, noQuestions, parent]

theorem written_of_questions (rt : Runtime) {disk : Disk} {ctx : CQuestionAnswerImpl}
    (noGroups : ctx.lstGroups = []) (parent : disk.HasParent ctx.strPath) :
    ctx.written rt disk = recordsNode rt.serializeQuestions ctx.lstQuestions := by
  unfold written recordsNode contents
  by_cases empty : ctx.lstQuestions = []
  · simp [empty, noGroups]
  · simp [empty, noGroups, parent]

/-- A store that can be closed without an error: its path is not a directory. -/
structure Closable (disk : Disk) (ctx : CQuestionAnswerImpl) : Prop where
  path_ne_nil : ctx.strPath ≠ []
  not_directory : disk.node ctx.strPath ≠ some .directory

/-- Closing changes the path of the store only. -/
theorem close_spec (rt : Runtime) {disk : Disk} {ctx : CQuestionAnswerImpl}
    (closable : ctx.Closable disk) :
    ∃ disk', ctx.close rt disk = some disk' ∧
      ∀ q, disk'.node q = if q = ctx.strPath then ctx.written rt disk else disk.node q := by
  obtain ⟨nonempty, notDirectory⟩ := closable
  unfold close
  by_cases empty : ctx.lstGroups = [] ∧ ctx.lstQuestions = []
  · rw [if_pos empty, written, if_pos empty]
    exact FileSystem.remove_of_not_directory nonempty notDirectory
  · rw [if_neg empty, written, if_neg empty]
    refine ⟨_, rfl, ?_⟩
    intro q
    by_cases parent : disk.HasParent ctx.strPath
    · rw [if_pos parent, FileSystem.node_writeFile _ parent notDirectory]
    · rw [FileSystem.writeFile_of_not_hasParent _ parent, if_neg parent]
      split
      · rename_i same
        by_contra present
        exact parent (same ▸ FileSystem.hasParent_of_present present)
      · rfl

/-- Closing changes no other path, whatever is there. -/
theorem node_of_close {rt : Runtime} {disk disk' : Disk} {ctx : CQuestionAnswerImpl}
    (closed : ctx.close rt disk = some disk')
    {q : Path}
    (elsewhere : ctx.strPath ≠ q) :
    disk'.node q = disk.node q := by
  unfold close at closed
  split at closed
  · unfold FileSystem.remove at closed
    split at closed
    · cases closed
      rfl
    · split at closed
      · rename_i noEntries
        cases closed
        rw [FileSystem.node_removeTree]
        split
        · rename_i below
          exact (FileSystem.hasNoEntries_iff.mp noEntries q below elsewhere).symm
        · rfl
      · cases closed
  · cases closed
    exact FileSystem.node_writeFile_of_ne _ (Ne.symm elsewhere)

/-- What closing a store leaves at its own path. -/
theorem node_of_close_here {rt : Runtime} {disk disk' : Disk} {ctx : CQuestionAnswerImpl}
    (closed : ctx.close rt disk = some disk') :
    disk'.node ctx.strPath = disk.node ctx.strPath ∨ disk'.node ctx.strPath = none ∨
      disk.HasParent ctx.strPath ∧ (ctx.lstGroups ≠ [] ∨ ctx.lstQuestions ≠ []) ∧
        disk'.node ctx.strPath = some (.file (ctx.contents rt)) := by
  unfold close at closed
  split at closed
  · unfold FileSystem.remove at closed
    split at closed
    · cases closed
      exact Or.inl rfl
    · split at closed
      · cases closed
        right
        left
        rw [FileSystem.node_removeTree, if_pos List.prefix_rfl]
      · cases closed
  · rename_i nonempty
    cases closed
    by_cases allowed : disk.HasParent ctx.strPath ∧ disk.isDirectory ctx.strPath = false
    · right
      right
      refine ⟨allowed.1, not_and_or.mp nonempty, ?_⟩
      rw [FileSystem.writeFile, FileSystem.put, dif_pos allowed, FileSystem.node_place,
        if_pos rfl]
    · left
      rw [FileSystem.writeFile, FileSystem.put, dif_neg allowed]

/-- A file at the path of a store after closing it holds what the store wrote. -/
theorem file_of_close {rt : Runtime} {disk disk' : Disk} {ctx : CQuestionAnswerImpl}
    (nonempty : ctx.strPath ≠ [])
    (closed : ctx.close rt disk = some disk')
    {contents : Bytes} (file : disk'.node ctx.strPath = some (.file contents)) :
    (ctx.lstGroups ≠ [] ∨ ctx.lstQuestions ≠ []) ∧ contents = ctx.contents rt := by
  unfold close at closed
  split at closed
  · rw [FileSystem.remove, if_neg nonempty] at closed
    split at closed
    · cases closed
      rw [FileSystem.node_removeTree, if_pos List.prefix_rfl] at file
      cases file
    · cases closed
  · rename_i written
    cases closed
    refine ⟨not_and_or.mp written, ?_⟩
    by_cases allowed : disk.HasParent ctx.strPath ∧ disk.isDirectory ctx.strPath = false
    · rw [FileSystem.writeFile, FileSystem.put, dif_pos allowed, FileSystem.node_place,
        if_pos rfl] at file
      cases file
      rfl
    · -- nothing was written, and no file was there
      rw [FileSystem.writeFile, FileSystem.put, dif_neg allowed] at file
      refine absurd ⟨FileSystem.hasParent_of_present (by rw [file]; simp), ?_⟩ allowed
      rw [FileSystem.isDirectory, file]

/-- Closing a store keeps the directories. -/
theorem directory_iff_of_close {rt : Runtime} {disk disk' : Disk}
    {ctx : CQuestionAnswerImpl}
    (closable : ctx.Closable disk)
    (closed : ∀ q, disk'.node q =
      if q = ctx.strPath then ctx.written rt disk else disk.node q)
    (q : Path) :
    disk'.node q = some .directory ↔ disk.node q = some .directory := by
  rw [closed]
  by_cases same : q = ctx.strPath
  · subst same
    simp [written_ne_directory, closable.not_directory]
  · rw [if_neg same]

/-- What closing leaves depends on the directories only. -/
theorem written_congr (rt : Runtime) {disk disk' : Disk}
    (sameDirectories : ∀ q, disk'.node q = some .directory ↔
      disk.node q = some .directory)
    (ctx : CQuestionAnswerImpl) :
    ctx.written rt disk' = ctx.written rt disk := by
  unfold written
  simp only [FileSystem.hasParent_congr sameDirectories]

theorem Closable.congr {disk disk' : Disk} {ctx : CQuestionAnswerImpl}
    (closable : ctx.Closable disk)
    (sameDirectories : ∀ q, disk'.node q = some .directory ↔
      disk.node q = some .directory) :
    ctx.Closable disk' :=
  ⟨closable.path_ne_nil, fun directory =>
    closable.not_directory ((sameDirectories _).mp directory)⟩

end CQuestionAnswerImpl

open CQuestionAnswerImpl

/-- The outcome of closing a list of stores: each path holds what its store wrote,
every other path is as before. -/
structure ClosedAll (rt : Runtime) (stores : List CQuestionAnswerImpl)
    (disk disk' : Disk) : Prop where
  written : ∀ ctx ∈ stores, disk'.node ctx.strPath = ctx.written rt disk
  untouched : ∀ q, (∀ ctx ∈ stores, ctx.strPath ≠ q) → disk'.node q = disk.node q

/-- Closing keeps the directories. -/
theorem ClosedAll.directory_iff {rt : Runtime} {stores : List CQuestionAnswerImpl}
    {disk disk' : Disk}
    (closed : ClosedAll rt stores disk disk')
    (closable : ∀ ctx ∈ stores, ctx.Closable disk)
    (q : Path) :
    disk'.node q = some .directory ↔ disk.node q = some .directory := by
  by_cases isPath : ∃ ctx ∈ stores, ctx.strPath = q
  · obtain ⟨ctx, present, rfl⟩ := isPath
    rw [closed.written ctx present]
    simp [written_ne_directory, (closable ctx present).not_directory]
  · rw [closed.untouched q fun ctx present same => isPath ⟨ctx, present, same⟩]

/-- Stores with distinct paths are all closed, each by its own write. -/
theorem closeAll_spec (rt : Runtime) {stores : List CQuestionAnswerImpl} {disk : Disk}
    (distinct : (stores.map CQuestionAnswerImpl.strPath).Nodup)
    (closable : ∀ ctx ∈ stores, ctx.Closable disk) :
    ∃ disk', closeAll rt stores disk = (true, [], disk') ∧
      ClosedAll rt stores disk disk' := by
  induction stores generalizing disk with
  | nil => exact ⟨disk, rfl, by simp, fun _ _ => rfl⟩
  | cons ctx rest inductionHypothesis =>
      rw [List.map_cons, List.nodup_cons] at distinct
      have here := closable ctx List.mem_cons_self
      obtain ⟨middle, closed, nodes⟩ := close_spec rt here
      have sameDirectories := directory_iff_of_close here nodes
      obtain ⟨disk', closedRest, all⟩ := inductionHypothesis distinct.2
        (fun other present =>
          (closable other (List.mem_cons_of_mem ctx present)).congr sameDirectories)
      refine ⟨disk', by rw [closeAll, closed]; exact closedRest, ?_, ?_⟩
      · intro other present
        rcases List.mem_cons.mp present with rfl | inRest
        · have alone : ∀ later ∈ rest, later.strPath ≠ other.strPath :=
            fun later member same => distinct.1 (same ▸ List.mem_map_of_mem member)
          rw [all.untouched _ alone, nodes, if_pos rfl]
        · rw [all.written other inRest, written_congr rt sameDirectories]
      · intro q outside
        rw [all.untouched q fun later member =>
            outside later (List.mem_cons_of_mem ctx member),
          nodes, if_neg (outside ctx List.mem_cons_self).symm]

/-- Whether or not an error is raised, the stores that remain were there before, and
only their paths change. -/
theorem closeAll_frame {rt : Runtime} {stores rest : List CQuestionAnswerImpl}
    {disk disk' : Disk} {ok : Bool}
    (closed : closeAll rt stores disk = (ok, rest, disk')) :
    (∀ ctx ∈ rest, ctx ∈ stores) ∧
      ∀ q, (∀ ctx ∈ stores, ctx.strPath ≠ q) → disk'.node q = disk.node q := by
  induction stores generalizing disk with
  | nil =>
      cases closed
      exact ⟨by simp, fun _ _ => rfl⟩
  | cons ctx stores inductionHypothesis =>
      rw [closeAll] at closed
      cases first : ctx.close rt disk with
      | none =>
          rw [first] at closed
          cases closed
          exact ⟨fun _ member => member, fun _ _ => rfl⟩
      | some middle =>
          rw [first] at closed
          obtain ⟨remain, frame⟩ := inductionHypothesis closed
          constructor
          · intro other member
            exact List.mem_cons_of_mem ctx (remain other member)
          · intro q elsewhere
            rw [List.forall_mem_cons] at elsewhere
            rw [frame q elsewhere.2, node_of_close first elsewhere.1]

/-- When an error is raised, a store was closed before it or the first one raised it. -/
theorem closeAll_failed {rt : Runtime} {stores rest : List CQuestionAnswerImpl}
    {disk disk' : Disk}
    (fails : closeAll rt stores disk = (false, rest, disk')) :
    rest.length < stores.length ∨
      ∃ ctx tail, stores = ctx :: tail ∧ ctx.close rt disk = none ∧ rest = stores := by
  cases stores with
  | nil => cases fails
  | cons ctx tail =>
      rw [closeAll] at fails
      cases first : ctx.close rt disk with
      | none =>
          rw [first] at fails
          cases fails
          exact Or.inr ⟨ctx, tail, rfl, first, rfl⟩
      | some middle =>
          rw [first] at fails
          left
          have shorter : ∀ {stores : List CQuestionAnswerImpl} {disk : Disk},
              closeAll rt stores disk = (false, rest, disk') → rest.length ≤ stores.length := by
            intro stores
            induction stores with
            | nil =>
                intro disk fails
                cases fails
            | cons other stores inductionHypothesis =>
                intro disk fails
                rw [closeAll] at fails
                split at fails
                · cases fails
                  exact Nat.le_refl _
                · have := inductionHypothesis fails
                  rw [List.length_cons]
                  omega
          have remaining := shorter fails
          rw [List.length_cons]
          omega

theorem closeAll_append (rt : Runtime) (stores more : List CQuestionAnswerImpl)
    (disk : Disk) :
    closeAll rt (stores ++ more) disk =
      match closeAll rt stores disk with
      | (true, _, disk') => closeAll rt more disk'
      | (false, rest, disk') => (false, rest ++ more, disk') := by
  induction stores generalizing disk with
  | nil => rfl
  | cons ctx stores inductionHypothesis =>
      rw [List.cons_append, closeAll, closeAll]
      cases ctx.close rt disk with
      | none => rfl
      | some disk' => exact inductionHypothesis disk'

/-- Closing without an error leaves no store. -/
theorem closeAll_drained {rt : Runtime} {stores rest : List CQuestionAnswerImpl}
    {disk disk' : Disk}
    (closed : closeAll rt stores disk = (true, rest, disk')) :
    rest = [] := by
  induction stores generalizing disk with
  | nil =>
      cases closed
      rfl
  | cons ctx stores inductionHypothesis =>
      rw [closeAll] at closed
      split at closed
      · cases closed
      · exact inductionHypothesis closed

/-- Two lists of stores that are closed in turn were closed without an error. -/
theorem closeAll_append_eq_iff {rt : Runtime} {stores more : List CQuestionAnswerImpl}
    {disk disk' : Disk} :
    closeAll rt (stores ++ more) disk = (true, [], disk') ↔
      ∃ middle, closeAll rt stores disk = (true, [], middle) ∧
        closeAll rt more middle = (true, [], disk') := by
  rw [closeAll_append]
  rcases first : closeAll rt stores disk with ⟨ok, rest, middle⟩
  cases ok with
  | false => simp
  | true =>
      obtain rfl := closeAll_drained first
      simp

/-! ## The recursive close -/

/-- A group after its stores were closed. -/
def GroupMembers.closed (grp : GroupMembers) : GroupMembers :=
  { grp with vecQuestions := [] }

/-- The stores of a tree, in the order the recursive close reaches them. -/
def stores (qgp : CQuestionGroupParam) : List CQuestionAnswerImpl :=
  qgp.preorder.flatMap GroupMembers.vecQuestions

theorem stores_node (grp : GroupMembers) (groups : List CQuestionGroupParam) :
    stores (.node grp groups) = grp.vecQuestions ++ groups.flatMap stores := by
  rw [stores, RoseTree.preorder_node, List.flatMap_cons, List.flatMap_assoc]
  rfl

/-- The loop over the sub-groups closes what each of them closes. -/
private theorem uninitQuestionBanks_of_closeAll {rt : Runtime}
    {groups : List CQuestionGroupParam}
    (each : ∀ qgp ∈ groups, ∀ disk disk' : Disk,
      closeAll rt (stores qgp) disk = (true, [], disk') →
      CQuestionBankImpl.uninitQuestionBank rt qgp disk =
        (true, qgp.map GroupMembers.closed, disk'))
    {disk disk' : Disk}
    (closed : closeAll rt (groups.flatMap stores) disk = (true, [], disk')) :
    CQuestionBankImpl.uninitQuestionBanks rt groups disk =
      (true, groups.map (RoseTree.map GroupMembers.closed), disk') := by
  induction groups generalizing disk with
  | nil =>
      cases closed
      rfl
  | cons qgp groups inductionHypothesis =>
      rw [List.flatMap_cons, closeAll_append_eq_iff] at closed
      obtain ⟨middle, first, rest⟩ := closed
      have head := each qgp List.mem_cons_self disk middle first
      have tail := inductionHypothesis
        (fun other member => each other (List.mem_cons_of_mem qgp member)) rest
      rw [CQuestionBankImpl.uninitQuestionBanks, head]
      simp only [tail, List.map_cons]

/-- The recursive close of a tree closes its stores like one list. -/
theorem uninitQuestionBank_of_closeAll {rt : Runtime} {qgp : CQuestionGroupParam}
    {disk disk' : Disk}
    (closed : closeAll rt (stores qgp) disk = (true, [], disk')) :
    CQuestionBankImpl.uninitQuestionBank rt qgp disk =
      (true, qgp.map GroupMembers.closed, disk') := by
  induction qgp using RoseTree.induction generalizing disk disk' with
  | node grp groups inductionHypothesis =>
      rw [stores_node, closeAll_append_eq_iff] at closed
      obtain ⟨middle, here, below⟩ := closed
      have rest := uninitQuestionBanks_of_closeAll
        (fun qgp member disk disk' => inductionHypothesis qgp member) below
      rw [CQuestionBankImpl.uninitQuestionBank, here]
      simp only [rest, RoseTree.map_node, GroupMembers.closed]

/-- The whole of `uninit`: the store of the ids and all stores of the tree are closed
like one list. -/
theorem uninit_spec (rt : Runtime) {b : CQuestionBankImpl}
    {ids : CQuestionAnswerImpl}
    (opened : b.regs.ptrIds = some ids)
    (distinct : ((ids :: stores b.clsQuestionBank).map
      CQuestionAnswerImpl.strPath).Nodup)
    (closable : ∀ ctx ∈ ids :: stores b.clsQuestionBank, ctx.Closable b.regs.disk) :
    ∃ disk', b.uninit rt =
        (.value (),
          { b with
            clsQuestionBank := b.clsQuestionBank.map GroupMembers.closed
            regs := { b.regs with ptrIds := none, disk := disk' } }) ∧
      ClosedAll rt (ids :: stores b.clsQuestionBank) b.regs.disk disk' := by
  obtain ⟨disk', closed, all⟩ := closeAll_spec rt distinct closable
  refine ⟨disk', ?_, all⟩
  rw [closeAll] at closed
  cases first : ids.close rt b.regs.disk with
  | none =>
      rw [first] at closed
      cases closed
  | some middle =>
      rw [first] at closed
      simp only [CQuestionBankImpl.uninit, opened, first, CQuestionBankImpl.uninitTree,
        uninitQuestionBank_of_closeAll closed, if_true]

/-! ## What every close keeps -/

/-- A property of the disk that closing a store keeps. -/
def KeptByClose (rt : Runtime) (holds : Disk → Prop) (ctx : CQuestionAnswerImpl) : Prop :=
  ∀ disk disk', holds disk → ctx.close rt disk = some disk' → holds disk'

section Keeps

variable {rt : Runtime} {holds : Disk → Prop}

theorem closeAll_keeps {stores : List CQuestionAnswerImpl}
    (each : ∀ ctx ∈ stores, KeptByClose rt holds ctx)
    {disk : Disk} (start : holds disk) :
    holds (closeAll rt stores disk).2.2 := by
  induction stores generalizing disk with
  | nil => exact start
  | cons ctx stores inductionHypothesis =>
      rw [closeAll]
      cases closed : ctx.close rt disk with
      | none => exact start
      | some disk' =>
          exact inductionHypothesis
            (fun other member => each other (List.mem_cons_of_mem ctx member))
            (each ctx List.mem_cons_self disk disk' start closed)

private theorem uninitQuestionBanks_keeps {groups : List CQuestionGroupParam}
    (each : ∀ qgp ∈ groups, ∀ disk : Disk, holds disk →
      holds (CQuestionBankImpl.uninitQuestionBank rt qgp disk).2.2)
    {disk : Disk} (start : holds disk) :
    holds (CQuestionBankImpl.uninitQuestionBanks rt groups disk).2.2 := by
  induction groups generalizing disk with
  | nil => exact start
  | cons qgp groups inductionHypothesis =>
      have first := each qgp List.mem_cons_self disk start
      rw [CQuestionBankImpl.uninitQuestionBanks]
      rcases closed : CQuestionBankImpl.uninitQuestionBank rt qgp disk with ⟨ok, qgp', middle⟩
      rw [closed] at first
      cases ok with
      | false => exact first
      | true =>
          exact inductionHypothesis
            (fun other member => each other (List.mem_cons_of_mem qgp member)) first

theorem uninitQuestionBank_keeps {qgp : CQuestionGroupParam}
    (each : ∀ ctx ∈ stores qgp, KeptByClose rt holds ctx)
    {disk : Disk} (start : holds disk) :
    holds (CQuestionBankImpl.uninitQuestionBank rt qgp disk).2.2 := by
  induction qgp using RoseTree.induction generalizing disk with
  | node grp groups inductionHypothesis =>
      rw [stores_node] at each
      have here := closeAll_keeps
        (fun ctx member => each ctx (List.mem_append_left _ member)) start
      rw [CQuestionBankImpl.uninitQuestionBank]
      rcases closed : closeAll rt grp.vecQuestions disk with ⟨ok, stores, middle⟩
      rw [closed] at here
      cases ok with
      | false => exact here
      | true =>
          exact uninitQuestionBanks_keeps
            (fun qgp member disk start => inductionHypothesis qgp member
              (fun ctx inGroup => each ctx (List.mem_append_right _
                (List.mem_flatMap.mpr ⟨qgp, member, inGroup⟩))) start) here

/-- `uninit` keeps what closing each of the stores of the bank keeps. -/
theorem uninit_keeps {b : CQuestionBankImpl}
    (ids : ∀ ids ∈ b.regs.ptrIds, KeptByClose rt holds ids)
    (each : ∀ ctx ∈ stores b.clsQuestionBank, KeptByClose rt holds ctx)
    (start : holds b.regs.disk) :
    holds (b.uninit rt).2.regs.disk := by
  unfold CQuestionBankImpl.uninit CQuestionBankImpl.uninitTree
  cases opened : b.regs.ptrIds with
  | none => exact uninitQuestionBank_keeps each start
  | some store =>
      simp only
      cases closed : store.close rt b.regs.disk with
      | none => exact start
      | some disk =>
          exact uninitQuestionBank_keeps each (ids store opened b.regs.disk disk start closed)

end Keeps

end Notebook
