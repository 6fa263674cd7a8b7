import Notebook.Init.Entries
import Notebook.Store.Registry

/-!
# The whole of `init`

A call of `init` that returns true has found or created the root directory, has
read the registry from `ids.dat`, and has placed every entry of the listing.
-/

namespace Notebook

open CQuestionAnswerImpl

/-- Path of the registry file of a bank. -/
def idsPath (path : Path) : Path :=
  path ++ ["ids.dat"]

theorem idsPath_ne_nil (path : Path) : idsPath path ≠ [] := by
  simp [idsPath]

namespace CQuestionBankImpl

/-- The map of ids after records of groups were read into it. -/
def registryOf (items : List QuestionAnswerGroup) (mapIds : IdMap) : IdMap :=
  items.foldl (fun map item => map.emplace item.id item.group) mapIds

/-- The registry that is read has one entry for each id. -/
theorem nodup_keys_registryOf (items : List QuestionAnswerGroup) {mapIds : IdMap}
    (distinct : (mapIds.map Prod.fst).Nodup) :
    ((registryOf items mapIds).map Prod.fst).Nodup := by
  induction items generalizing mapIds with
  | nil => exact distinct
  | cons item items inductionHypothesis =>
      exact inductionHypothesis (IdMap.nodup_keys_emplace distinct item.id item.group)

/-- The tree with the name and the path of the root directory. -/
def withRoot (path : Path) (qgp : CQuestionGroupParam) : CQuestionGroupParam :=
  .node { qgp.label with strName := path.filename, strPath := path } qgp.children

/-- The disk after `init` has looked for the root directory. -/
inductive RootReady (path : Path) (disk : Disk) : Disk → Prop
  | present (isPresent : disk.node path ≠ none) : RootReady path disk disk
  | created {disk' : Disk}
      (absent : disk.node path = none)
      (parent : disk.HasParent path)
      (nodes : ∀ q, disk'.node q = if q = path then some .directory else disk.node q) :
      RootReady path disk disk'

/-- Looking for the root directory changes no file. -/
theorem RootReady.contentsAt {path : Path} {disk disk' : Disk}
    (ready : RootReady path disk disk') (q : Path) :
    disk'.contentsAt q = disk.contentsAt q := by
  cases ready with
  | present => rfl
  | created absent parent nodes =>
      by_cases same : q = path
      · subst same
        rw [FileSystem.contentsAt_of_absent absent, FileSystem.contentsAt, nodes,
          if_pos rfl]
      · exact FileSystem.contentsAt_congr (by rw [nodes, if_neg same])

/-- What `init` has done when it returns true. -/
structure Initialised (rt : Runtime) (path : Path) (listing : Listing)
    (b b' : CQuestionBankImpl) : Prop where
  root : RootReady path b.regs.disk b'.regs.disk
  directory : b'.regs.disk.node path = some .directory
  ids : ∃ ids, openFile rt b'.regs.disk (idsPath path) false {} = (true, ids) ∧
    b'.regs.ptrIds = some ids ∧ b'.regs.mapIds = registryOf ids.lstGroups b.regs.mapIds
  entries : initEntries rt b'.regs.disk b'.regs.mapIds path.filename listing.entries
    (withRoot path b.clsQuestionBank) = (true, b'.clsQuestionBank)
  complete : listing.failed = false
  refusals : b'.regs.refusals = b.regs.refusals
  strIdPath : b'.strIdPath = idsPath path

theorem abandonIds_ne_true (rt : Runtime) (ids : CQuestionAnswerImpl)
    (b : CQuestionBankImpl) : (b.abandonIds rt ids).1 ≠ .value true := by
  unfold abandonIds
  split <;> simp

/-- A successful rest of `init`, after the root directory was found. -/
theorem initWithin_inv {rt : Runtime} {path : Path} {listing : Listing}
    {b : CQuestionBankImpl}
    (succeeds : (b.initWithin rt path listing).1 = .value true)
    {b₀ : CQuestionBankImpl}
    (root : RootReady path b₀.regs.disk b.regs.disk)
    (sameTree : b.clsQuestionBank = b₀.clsQuestionBank)
    (sameIds : b.regs.mapIds = b₀.regs.mapIds)
    (sameRefusals : b.regs.refusals = b₀.regs.refusals) :
    Initialised rt path listing b₀ (b.initWithin rt path listing).2 := by
  unfold initWithin at succeeds ⊢
  rcases opened : openFile rt b.regs.disk (path ++ ["ids.dat"]) false {} with ⟨ok, ids⟩
  simp only [opened] at succeeds ⊢
  cases ok with
  | false => simp at succeeds
  | true =>
      obtain ⟨nonempty, _, items, _, rfl⟩ := openFile_groups_iff.mp opened
      simp only [getGroups, nonempty, if_false] at succeeds ⊢
      rcases placed : initEntries rt b.regs.disk
          (List.foldl (fun map item => map.emplace item.id item.group) b.regs.mapIds items)
          path.filename (if b.regs.disk.isDirectory path then listing.entries else [])
          (.node { b.clsQuestionBank.label with
            strName := path.filename, strPath := path } b.clsQuestionBank.children)
        with ⟨ok, tree⟩
      simp only [placed] at succeeds ⊢
      cases ok with
      | false => simp at succeeds
      | true =>
          simp only at succeeds ⊢
          split at succeeds
          · exact absurd succeeds (abandonIds_ne_true rt _ _)
          · rename_i complete
            rw [not_or] at complete
            have directory : b.regs.disk.isDirectory path = true := by
              simpa using complete.2
            rw [if_pos directory] at placed
            rw [if_neg (not_or.mpr complete)]
            refine ⟨root, FileSystem.isDirectory_iff.mp directory, ⟨_, opened, rfl, ?_⟩,
              ?_, by simpa using complete.1, sameRefusals, rfl⟩
            · rw [registryOf, ← sameIds]
            · rw [withRoot, ← sameTree]
              exact placed

/-- What a call of `init` that returns true has done. -/
theorem init_inv {rt : Runtime} {path : Path} {listing : Listing}
    {b : CQuestionBankImpl}
    (succeeds : (b.init rt path listing).1 = .value true) :
    Initialised rt path listing b (b.init rt path listing).2 := by
  unfold init at succeeds ⊢
  split at succeeds
  · rename_i present
    rw [if_pos present]
    exact initWithin_inv succeeds (.present (FileSystem.isPresent_iff.mp present))
      rfl rfl rfl
  · rename_i absent
    rw [if_neg absent]
    split at succeeds
    · simp at succeeds
    · simp at succeeds
    · rename_i disk created
      have made := Refusals.mkdir_of_created created
      have free := FileSystem.hasParent_of_mkdir made
      exact initWithin_inv succeeds
        (.created free.2 free.1 (FileSystem.node_of_mkdir made)) rfl rfl rfl

/-- `init` returns true when the root directory is there, the registry can be read
and every entry is placed. -/
theorem init_of_placed {rt : Runtime} {path : Path} {listing : Listing}
    {b : CQuestionBankImpl}
    (directory : b.regs.disk.node path = some .directory)
    {ids : CQuestionAnswerImpl}
    (opened : openFile rt b.regs.disk (idsPath path) false {} = (true, ids))
    {tree : CQuestionGroupParam}
    (placed : initEntries rt b.regs.disk (registryOf ids.lstGroups b.regs.mapIds) path.filename
      listing.entries (withRoot path b.clsQuestionBank) = (true, tree))
    (complete : listing.failed = false) :
    b.init rt path listing =
      (.value true,
        { clsQuestionBank := tree
          strIdPath := idsPath path
          regs := { b.regs with
            mapIds := registryOf ids.lstGroups b.regs.mapIds, ptrIds := some ids } }) := by
  have present : b.regs.disk.isPresent path = true := by
    rw [FileSystem.isPresent_iff, directory]
    simp
  have isDirectory : b.regs.disk.isDirectory path = true :=
    FileSystem.isDirectory_iff.mpr directory
  obtain ⟨nonempty, _, items, _, rfl⟩ := openFile_groups_iff.mp opened
  rw [init, if_pos present]
  unfold initWithin
  rw [idsPath] at opened nonempty
  simp only [opened, getGroups, nonempty, if_false, isDirectory, if_true, complete]
  rw [withRoot, registryOf] at placed
  simp only [placed]
  rfl

/-- Once the root directory was created, `init` goes on as if it had been there. -/
theorem init_of_created {rt : Runtime} {path : Path} {listing : Listing}
    {b : CQuestionBankImpl} {disk : Disk}
    (absent : b.regs.disk.isPresent path = false)
    (created : b.regs.refusals.createDirectory b.regs.disk path = .created disk)
    (present : disk.isPresent path = true) :
    b.init rt path listing =
      { b with regs := { b.regs with disk := disk } }.init rt path listing := by
  conv_rhs => rw [init, if_pos present]
  rw [init, if_neg (by simp [absent]), created]

end CQuestionBankImpl

end Notebook
