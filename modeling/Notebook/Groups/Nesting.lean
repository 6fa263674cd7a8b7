import Notebook.Groups.Calls
import Notebook.Groups.DiskEffect
import Notebook.Init.Mirror

/-!
# Cached paths that go down the tree

No operation but `init` sets the cached path of a group that is there already. So the
paths go down the tree after every run of calls whose group names and file names lead
to no place above the directory they are used in, whatever the calls rename.
-/

namespace Notebook

open RoseTree CQuestionBankImpl

/-- A call that leads to no path outside the directory it works in, and deletes no
group. -/
def BankCall.StaysInside : BankCall → Prop
  | .question call => IsComponent (call.gid ++ ".dat")
  | .group (.add _ name _) => ∀ p : Path, p <+: p.join name
  | .group (.update _ _ _) => True
  | .group (.delete _ _) => False

theorem IsComponent.staysInside {name : String} (component : IsComponent name) (p : Path) :
    p <+: p.join name := by
  rw [component.join]
  exact List.prefix_append _ _

/-! ## Stores keep their path -/

namespace CQuestionAnswerImpl

theorem strPath_addQuestion (qap : CQuestionAnswerParam) (ctx : CQuestionAnswerImpl) :
    (ctx.addQuestion qap).2.strPath = ctx.strPath := by
  unfold addQuestion
  split
  · rfl
  · split <;> rfl

theorem strPath_deleteQuestion (qid : String) (ctx : CQuestionAnswerImpl) :
    (ctx.deleteQuestion qid).2.strPath = ctx.strPath := by
  unfold deleteQuestion
  split
  · rfl
  · split <;> rfl

theorem strPath_queryQuestion (qid : String) (ctx : CQuestionAnswerImpl) :
    (ctx.queryQuestion qid).2.strPath = ctx.strPath := by
  unfold queryQuestion
  split
  · rfl
  · split <;> rfl

theorem strPath_updateQuestion (qid : String) (dst : CQuestionAnswerParam)
    (ctx : CQuestionAnswerImpl) :
    (ctx.updateQuestion qid dst).2.strPath = ctx.strPath := by
  unfold updateQuestion
  split
  · rfl
  · split
    · rfl
    · split <;> rfl

end CQuestionAnswerImpl

/-! ## Searches -/

namespace Nested

/-- Groups of the same paths can be put in the place of others. -/
theorem replace {grp : GroupMembers} {groups groups' : List CQuestionGroupParam}
    (nested : Nested (.node grp groups))
    (inside : ∀ qgp ∈ groups', Nested qgp)
    (samePaths : groups'.map (fun qgp => qgp.label.strPath) =
      groups.map (fun qgp => qgp.label.strPath)) :
    Nested (.node grp groups') := by
  cases nested with
  | node nonempty stores above _ =>
      refine .node nonempty stores ?_ inside
      intro qgp' member
      have path : qgp'.label.strPath ∈ groups.map (fun qgp => qgp.label.strPath) := by
        rw [← samePaths]
        exact List.mem_map_of_mem (f := fun qgp : CQuestionGroupParam => qgp.label.strPath)
          member
      obtain ⟨qgp, present, samePath⟩ := List.mem_map.mp path
      rw [← samePath]
      exact above qgp present

/-- Other stores of a group, with files below its path. -/
theorem withStores {grp : GroupMembers} {groups : List CQuestionGroupParam}
    (nested : Nested (.node grp groups))
    {stores : List CQuestionAnswerImpl}
    (below : ∀ ctx ∈ stores, grp.strPath <+: ctx.strPath ∧ grp.strPath ≠ ctx.strPath) :
    Nested (.node { grp with vecQuestions := stores } groups) := by
  cases nested with
  | node nonempty _ above inside => exact .node nonempty below above inside

theorem storesBelow {grp : GroupMembers} {groups : List CQuestionGroupParam}
    (nested : Nested (.node grp groups)) :
    ∀ ctx ∈ grp.vecQuestions, grp.strPath <+: ctx.strPath ∧ grp.strPath ≠ ctx.strPath := by
  cases nested with
  | node nonempty stores above inside => exact stores

/-- Another name of a group. -/
theorem withName {qgp : CQuestionGroupParam} (nested : Nested qgp) (name : String) :
    Nested (.node { qgp.label with strName := name } qgp.children) := by
  cases nested with
  | node nonempty stores above inside => exact .node nonempty stores above inside

/-- One more group, with a path below that of the group it is put into. -/
theorem addLeaf {grp : GroupMembers} {groups : List CQuestionGroupParam}
    (nested : Nested (.node grp groups))
    {id name : String}
    (reaches : grp.strPath <+: grp.strPath.join name) :
    Nested (.node grp (groups ++ [.node (Registers.newGroup grp id name) []])) := by
  cases nested with
  | node nonempty stores above inside =>
      have newNonempty : grp.strPath.join name ≠ [] := by
        intro empty
        rw [empty, List.prefix_nil] at reaches
        exact nonempty reaches
      have leaf : Nested (.node (Registers.newGroup grp id name) []) :=
        .node newNonempty (by simp [Registers.newGroup]) (by simp) (by simp)
      refine .node nonempty stores ?_ ?_
      · intro qgp member
        rcases List.mem_append.mp member with old | isNew
        · exact above qgp old
        · rw [List.mem_singleton.mp isNew]
          exact reaches
      · intro qgp member
        rcases List.mem_append.mp member with old | isNew
        · exact inside qgp old
        · rw [List.mem_singleton.mp isNew]
          exact leaf

/-- What a caller does with the store of a group keeps the paths, when the file name of
the group is one component. -/
theorem contextHere {rt : Runtime} {disk : Disk}
    {use : CQuestionAnswerImpl → β × CQuestionAnswerImpl}
    (samePath : ∀ ctx, (use ctx).2.strPath = ctx.strPath)
    {qgp : CQuestionGroupParam} (nested : Nested qgp)
    (component : IsComponent (qgp.label.strId ++ ".dat")) :
    Nested (CQuestionBankImpl.contextHere rt disk use qgp).2 := by
  cases qgp with
  | node grp groups =>
      have old := nested.storesBelow
      unfold CQuestionBankImpl.contextHere
      split
      · dsimp only
        split
        · exact nested
        · rename_i impl opens
          obtain ⟨_, _, items, _, isImpl⟩ := CQuestionAnswerImpl.openFile_questions_iff.mp opens
          apply nested.withStores
          intro ctx member
          rw [List.mem_singleton.mp member, samePath, isImpl]
          rw [label_node] at component
          simp only [label_node, component.join]
          exact ⟨List.prefix_append _ _, by simp⟩
      · rename_i first rest isStores
        rw [label_node] at isStores
        apply nested.withStores
        intro ctx member
        rcases List.mem_cons.mp member with rfl | later
        · rw [samePath]
          exact old first (isStores ▸ List.mem_cons_self)
        · exact old ctx (isStores ▸ List.mem_cons_of_mem first later)

/-- The operations that add or update a group keep the paths. -/
theorem ctrlHere {rt : Runtime} {gid name : String} {type : GroupCtrlType}
    (notDelete : type ≠ .delete)
    (reaches : type = .add → ∀ p : Path, p <+: p.join name)
    {qgp : CQuestionGroupParam} (nested : Nested qgp) (r : Registers) :
    Nested (Registers.ctrlHere rt gid name type qgp r).2.1 := by
  cases type with
  | none => exact nested
  | max => exact nested
  | delete => exact absurd rfl notDelete
  | add =>
      cases qgp with
      | node grp groups =>
          have added : Nested (.node grp
              (groups ++ [.node (Registers.newGroup grp gid name) []])) :=
            nested.addLeaf (reaches rfl grp.strPath)
          cases opened : r.ptrIds with
          | none =>
              rw [Registers.ctrlHere, Registers.addGroup]
              simp only [opened]
              exact nested
          | some ids =>
              obtain ⟨answer, disk, message, done, _⟩ :=
                Registers.addGroup_spec opened gid name grp groups
              rw [Registers.ctrlHere, done]
              exact added
  | update =>
      rw [Registers.ctrlHere, Registers.updateGroup]
      split
      · exact nested
      · rename_i before found after split
        have children := (splitFirst_eq_some_iff.mp split).1
        split
        · exact nested
        · have renamed : Nested (.node qgp.label (before ++
              .node { found.label with strName := name } found.children :: after)) := by
            rw [← node_label_children qgp, children] at nested
            apply nested.replace
            · intro other member
              rcases List.mem_append.mp member with inBefore | inRest
              · exact nested.child (List.mem_append_left _ inBefore)
              · rcases List.mem_cons.mp inRest with rfl | inAfter
                · exact (nested.child (List.mem_append_right _ List.mem_cons_self)).withName
                    name
                · exact nested.child
                    (List.mem_append_right _ (List.mem_cons_of_mem found inAfter))
            · simp
          dsimp only
          split
          · exact renamed
          · exact renamed

/-- A search whose action keeps the paths of the subtrees it runs on keeps those of the
tree. -/
theorem search {hit : GroupMembers → Bool} {goOn : ρ → Bool} {miss : ρ}
    {act : CQuestionGroupParam → σ → ρ × CQuestionGroupParam × σ}
    (label : ∀ t s, (act t s).2.1.label.strPath = t.label.strPath)
    (keeps : ∀ t s, hit t.label = true → Nested t → Nested (act t s).2.1)
    {qgp : CQuestionGroupParam} (nested : Nested qgp) (s : σ) :
    Nested (RoseTree.search hit act goOn miss qgp s).2.1 :=
  search_keeps (fun nested _ member => nested.child member)
    (fun nested inside samePaths => nested.replace inside samePaths)
    label keeps nested s

end Nested

/-! ## The tree that `init` builds -/

/-- Paths that go down from every group to the groups below it. -/
theorem nested_of_inherited {above : Option (String × String × Path)}
    {qgp : CQuestionGroupParam}
    (rows : ∀ row ∈ qgp.inherited (fun _ grp => some grp.identity) above,
      row.2.strPath ≠ [] ∧ (∀ parent ∈ row.1, parent.2.2 <+: row.2.strPath) ∧
        ∀ ctx ∈ row.2.vecQuestions, row.2.strPath <+: ctx.strPath ∧ row.2.strPath ≠ ctx.strPath) :
    Nested qgp := by
  induction qgp using RoseTree.induction generalizing above with
  | node grp groups inductionHypothesis =>
      rw [inherited_node] at rows
      obtain ⟨nonempty, _, stores⟩ := rows (above, grp) List.mem_cons_self
      have below : ∀ qgp ∈ groups, ∀ row ∈ qgp.inherited (fun _ grp => some grp.identity)
          (some grp.identity), row ∈ (above, grp) :: groups.flatMap
            (inherited (fun _ grp => some grp.identity) (some grp.identity)) :=
        fun qgp member row present =>
          List.mem_cons_of_mem _ (List.mem_flatMap.mpr ⟨qgp, member, present⟩)
      refine .node nonempty stores ?_ ?_
      · intro qgp member
        have first : (some grp.identity, qgp.label) ∈
            qgp.inherited (fun _ grp => some grp.identity) (some grp.identity) := by
          rw [← node_label_children qgp, inherited_node]
          exact List.mem_cons_self
        exact (rows _ (below qgp member _ first)).2.1 grp.identity rfl
      · intro qgp member
        exact inductionHypothesis qgp member fun row present =>
          rows row (below qgp member row present)

/-- The tree that mirrors the directories has paths that go down. -/
theorem nested_of_mirrors {rt : Runtime} {disk : Disk} {mapIds : IdMap} {root : Path}
    {entries : List Path}
    (listed : disk.IsListing root entries)
    (rootDirectory : disk.node root = some .directory)
    (readable : ∀ entry ∈ entries, isStoreEntry disk entry = true →
      (CQuestionAnswerImpl.openFile rt disk entry true {}).1 = true)
    {qgp : CQuestionGroupParam}
    (mirrors : (parentRows qgp).Perm (mirrorRows rt disk mapIds root entries)) :
    Nested qgp := by
  refine @nested_of_inherited none qgp ?_
  intro row present
  obtain ⟨dir, member, rfl⟩ := List.mem_map.mp (mirrors.mem_iff.mp present)
  have isPresent : disk.node dir ≠ none := by
    rcases List.mem_cons.mp member with rfl | isEntry
    · rw [rootDirectory]
      simp
    · exact ((listed.mem_iff dir).mp (List.mem_of_mem_filter isEntry)).2.2
  refine ⟨?_, ?_, ?_⟩
  · rintro rfl
    exact isPresent disk.node_nil
  · intro parent isParent
    rw [mirrorRow] at isParent
    split at isParent
    · cases isParent
    · cases isParent
      exact List.dropLast_prefix dir
  · intro ctx isStore
    obtain ⟨entry, isEntry, rfl⟩ := List.mem_map.mp isStore
    obtain ⟨inListing, holds⟩ := List.mem_filter.mp isEntry
    rw [Bool.and_eq_true, decide_eq_true_eq] at holds
    obtain ⟨isStoreFile, inside⟩ := holds
    obtain ⟨nonempty, _, items, _, isImpl⟩ := CQuestionAnswerImpl.openFile_questions_iff.mp
      (Prod.ext (readable entry inListing isStoreFile) rfl)
    have path : (storeOf rt disk entry).strPath = entry :=
      congrArg CQuestionAnswerImpl.strPath isImpl
    rw [path]
    have row : (mirrorRow rt disk mapIds root entries dir).2.strPath = entry.dropLast :=
      inside.symm
    rw [row]
    refine ⟨List.dropLast_prefix entry, fun same => ?_⟩
    have lengths := congrArg List.length same
    have positive := List.length_pos_iff.mpr nonempty
    rw [List.length_dropLast] at lengths
    omega

/-- When every directory that holds an entry is above all directories of its name, a fresh
bank that `init` reads has paths that go down the tree. -/
theorem nested_init {rt : Runtime} {disk : Disk} {refusals : Refusals} {root : Path}
    {listing : Listing} {b : CQuestionBankImpl}
    (started : (fresh disk refusals).init rt root listing = (.value true, b))
    (listed : b.regs.disk.IsListing root listing.entries)
    (names : NamesFound b.regs.disk root listing.entries) :
    Nested b.clsQuestionBank := by
  have initialised := init_inv (congrArg Prod.fst started)
  rw [started] at initialised
  have readable := (initEntries_stores initialised.entries).1
  have start : Mirrors rt b.regs.disk b.regs.mapIds root [] (withRoot root (.node {} [])) :=
    Mirrors.start
  obtain ⟨tree, placed, mirrors⟩ := initEntries_mirrors listed initialised.directory names
    readable (List.nil_append _).symm start
  have sameTree : b.clsQuestionBank = tree :=
    congrArg Prod.snd (initialised.entries.symm.trans placed)
  rw [sameTree]
  exact nested_of_mirrors listed initialised.directory readable mirrors.rows

/-! ## Calls and runs -/

theorem nested_withContext (rt : Runtime) {gid : String}
    {use : CQuestionAnswerImpl → β × CQuestionAnswerImpl}
    (samePath : ∀ ctx, (use ctx).2.strPath = ctx.strPath)
    (component : IsComponent (gid ++ ".dat"))
    {b : CQuestionBankImpl} (nested : Nested b.clsQuestionBank) :
    Nested (b.withContext rt gid use).2.clsQuestionBank := by
  have label : ∀ qgp : CQuestionGroupParam,
      (contextHere rt b.regs.disk use qgp).2.label.strPath = qgp.label.strPath :=
    fun qgp => congrArg (fun parts : String × String × Path => parts.2.2)
      (identity_contextHere rt b.regs.disk use qgp)
  have kept : Nested (findQustionAnswerContext rt b.regs.disk gid use b.clsQuestionBank).2 := by
    apply Nested.search (fun qgp _ => label qgp) _ nested ()
    intro qgp _ hitHere nested
    have isGroup : qgp.label.strId = gid := by simpa using hitHere
    exact nested.contextHere samePath (isGroup ▸ component)
  unfold withContext
  split
  · exact nested
  · rcases search : findQustionAnswerContext rt b.regs.disk gid use b.clsQuestionBank
      with ⟨answer, tree⟩
    rw [search] at kept
    cases answer with
    | none => exact kept
    | some => exact kept

theorem nested_ctrlRoot (rt : Runtime) (pid gid name : String) {type : GroupCtrlType}
    (notDelete : type ≠ .delete)
    (reaches : type = .add → ∀ p : Path, p <+: p.join name)
    {b : CQuestionBankImpl} (nested : Nested b.clsQuestionBank) :
    Nested (b.ctrlRoot rt pid gid name type).2.clsQuestionBank := by
  have kept : Nested (Registers.ctrlGroup rt pid gid name type b.clsQuestionBank b.regs).2.1 :=
    Nested.search
      (fun qgp r => congrArg GroupMembers.strPath
        (Registers.label_ctrlHere rt gid name type qgp r))
      (fun qgp r _ nested => nested.ctrlHere notDelete reaches r) nested b.regs
  exact kept

/-- A call that stays inside keeps the paths going down the tree. -/
theorem BankCall.nested (rt : Runtime) {call : BankCall} (staysInside : call.StaysInside)
    {b : CQuestionBankImpl} (nested : Nested b.clsQuestionBank) :
    Nested (call.perform rt b).2.clsQuestionBank := by
  cases call with
  | question call =>
      cases call with
      | add gid qid question answer =>
          exact nested_withContext rt (CQuestionAnswerImpl.strPath_addQuestion _) staysInside
            nested
      | delete gid qid =>
          exact nested_withContext rt (CQuestionAnswerImpl.strPath_deleteQuestion _)
            staysInside nested
      | query gid qid =>
          exact nested_withContext rt (CQuestionAnswerImpl.strPath_queryQuestion _) staysInside
            nested
      | update gid qid question answer =>
          exact nested_withContext rt (CQuestionAnswerImpl.strPath_updateQuestion _ _)
            staysInside nested
  | group call =>
      cases call with
      | delete pid id => exact staysInside.elim
      | update pid id name => exact nested_ctrlRoot rt pid id name (by simp) (by simp) nested
      | add pid name id =>
          rw [BankCall.perform, GroupCall.perform, CQuestionBankImpl.addGroup]
          split
          · exact nested
          · split
            · exact nested
            · exact nested_ctrlRoot rt pid id name (by simp) (fun _ => staysInside) nested

end Notebook
