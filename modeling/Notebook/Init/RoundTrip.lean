import Notebook.Init.Bank

/-!
# Opening and closing without edits

`init` opens every file of the listing in exactly one store, whatever group it
attaches the store to, and `uninit` closes every store of the tree once. Without
edits in between, every file holds the records it held before.
-/

namespace Notebook

open CQuestionAnswerImpl CQuestionBankImpl

/-- What the stores of a bank are right after `init` on a fresh object: one for each
file of the listing, with the records of that file. -/
structure StoresOfListing (rt : Runtime) (disk : Disk) (entries : List Path)
    (opened : List CQuestionAnswerImpl) : Prop where
  paths : (opened.map CQuestionAnswerImpl.strPath).Perm
    (entries.filter (isStoreEntry disk))
  read : ∀ ctx ∈ opened, isStoreEntry disk ctx.strPath = true ∧
    ∃ items, decodedAt rt.parseQuestions disk ctx.strPath = some items ∧
      ctx = { strPath := ctx.strPath, lstQuestions := items }

theorem storesOfListing_of_init {rt : Runtime} {path : Path} {listing : Listing}
    {b b' : CQuestionBankImpl}
    (initialised : Initialised rt path listing b b')
    (noStores : stores b.clsQuestionBank = []) :
    StoresOfListing rt b'.regs.disk listing.entries (stores b'.clsQuestionBank) := by
  obtain ⟨opens, perm⟩ := initEntries_stores initialised.entries
  have start : stores (withRoot path b.clsQuestionBank) = stores b.clsQuestionBank := by
    rw [← RoseTree.node_label_children b.clsQuestionBank]
    simp [withRoot, stores_node]
  rw [start, noStores, List.nil_append] at perm
  have each : ∀ entry ∈ listing.entries.filter (isStoreEntry b'.regs.disk),
      ∃ items, decodedAt rt.parseQuestions b'.regs.disk entry = some items ∧
        storeOf rt b'.regs.disk entry = { strPath := entry, lstQuestions := items } := by
    intro entry member
    rw [List.mem_filter] at member
    have opened := opens entry member.1 member.2
    obtain ⟨_, _, items, decoded, equal⟩ :=
      openFile_questions_iff.mp (Prod.ext opened rfl : _ = (true, storeOf rt b'.regs.disk entry))
    exact ⟨items, decoded, equal⟩
  constructor
  · refine (perm.map CQuestionAnswerImpl.strPath).trans ?_
    rw [List.map_map]
    have paths : ∀ entry ∈ listing.entries.filter (isStoreEntry b'.regs.disk),
        (CQuestionAnswerImpl.strPath ∘ storeOf rt b'.regs.disk) entry = entry := by
      intro entry member
      obtain ⟨items, _, equal⟩ := each entry member
      rw [Function.comp, equal]
    rw [List.map_congr_left paths, List.map_id']
  · intro ctx present
    obtain ⟨entry, member, rfl⟩ := List.mem_map.mp (perm.mem_iff.mp present)
    obtain ⟨items, decoded, equal⟩ := each entry member
    rw [equal]
    exact ⟨(List.mem_filter.mp member).2, items, decoded, rfl⟩

/-- Opening a directory and closing it again keeps the decoded records of every
file, creates no file, writes every opened file from the one store that read it,
and leaves every other file alone. -/
theorem init_uninit_keeps_records (rt : Runtime) {disk : Disk} {refusals : Refusals}
    {path : Path} {listing : Listing}
    (starts : ((fresh disk refusals).init rt path listing).1 = .value true)
    (listed : ((fresh disk refusals).init rt path listing).2.regs.disk.IsListing path
      listing.entries) :
    let opened := ((fresh disk refusals).init rt path listing).2
    let closed := opened.uninit rt
    let files := listing.entries.filter (isStoreEntry opened.regs.disk)
    closed.1 = .value () ∧
      ((stores opened.clsQuestionBank).map CQuestionAnswerImpl.strPath).Perm files ∧
      (∀ ctx ∈ stores opened.clsQuestionBank,
        decodedAt rt.parseQuestions disk ctx.strPath = some ctx.lstQuestions ∧
          closed.2.regs.disk.node ctx.strPath = ctx.written rt opened.regs.disk) ∧
      decodedAt rt.parseGroups closed.2.regs.disk (idsPath path) =
        decodedAt rt.parseGroups disk (idsPath path) ∧
      (∀ q, q ≠ idsPath path →
        decodedAt rt.parseQuestions closed.2.regs.disk q =
          decodedAt rt.parseQuestions disk q) ∧
      (∀ q, disk.contentsAt q = none → closed.2.regs.disk.contentsAt q = none) ∧
      ∀ q, q ≠ idsPath path → q ∉ files →
        closed.2.regs.disk.contentsAt q = disk.contentsAt q := by
  have initialised := init_inv starts
  generalize (fresh disk refusals).init rt path listing = result at *
  obtain ⟨answer, opened⟩ := result
  simp only at initialised listed ⊢
  have readBefore : ∀ q, opened.regs.disk.contentsAt q = disk.contentsAt q :=
    initialised.root.contentsAt
  obtain ⟨paths, read⟩ := storesOfListing_of_init initialised rfl
  obtain ⟨ids, idsOpened, isIds, _⟩ := initialised.ids
  obtain ⟨_, idsNotDirectory, groups, groupsDecoded, rfl⟩ := openFile_groups_iff.mp idsOpened
  have filesNodup := (listed.nodup.filter (isStoreEntry opened.regs.disk))
  have idsApart : idsPath path ∉
      (stores opened.clsQuestionBank).map CQuestionAnswerImpl.strPath := by
    intro present
    have member := (List.mem_filter.mp (paths.mem_iff.mp present)).2
    exact (isFile_of_isStoreEntry member).2 (Path.filename_append_singleton path _)
  obtain ⟨disk', closes, all⟩ := uninit_spec rt isIds
    (by
      rw [List.map_cons, List.nodup_cons]
      exact ⟨idsApart, paths.nodup_iff.mpr filesNodup⟩)
    (by
      intro ctx present
      rcases List.mem_cons.mp present with rfl | inTree
      · exact ⟨idsPath_ne_nil path, idsNotDirectory⟩
      · have file := (isFile_of_isStoreEntry (read ctx inTree).1).1
        obtain ⟨contents, node⟩ := FileSystem.isFile_iff.mp file
        exact ⟨(hasParent_of_isFile file).1, by simp [node]⟩)
  have idsParent : opened.regs.disk.HasParent (idsPath path) :=
    FileSystem.hasParent_append_singleton initialised.directory
  have idsAfter : decodedAt rt.parseGroups disk' (idsPath path) = some groups :=
    decodedAt_of_recordsNode rt.parse_serializeGroups
      ((all.written { strPath := idsPath path, lstGroups := groups } List.mem_cons_self).trans
        (written_of_groups rt rfl idsParent))
  have filesAfter : ∀ ctx ∈ stores opened.clsQuestionBank,
      decodedAt rt.parseQuestions disk' ctx.strPath =
        decodedAt rt.parseQuestions opened.regs.disk ctx.strPath := by
    intro ctx present
    obtain ⟨isStore, items, decoded, equal⟩ := read ctx present
    have written := all.written ctx (List.mem_cons_of_mem _ present)
    have parent := hasParent_of_isFile (isFile_of_isStoreEntry isStore).1
    rw [written_of_questions rt (by rw [equal]) parent] at written
    rw [decoded, decodedAt_of_recordsNode rt.parse_serializeQuestions written, equal]
  have isPath : ∀ q, q ∈ listing.entries.filter (isStoreEntry opened.regs.disk) ↔
      ∃ ctx ∈ stores opened.clsQuestionBank, ctx.strPath = q := by
    intro q
    rw [← paths.mem_iff, List.mem_map]
  have untouched : ∀ q, q ≠ idsPath path →
      q ∉ listing.entries.filter (isStoreEntry opened.regs.disk) →
      disk'.contentsAt q = disk.contentsAt q := by
    intro q notIds notFile
    rw [← readBefore q]
    apply FileSystem.contentsAt_congr
    apply all.untouched
    intro ctx present same
    rcases List.mem_cons.mp present with rfl | inTree
    · exact notIds same.symm
    · exact notFile ((isPath q).mpr ⟨ctx, inTree, same⟩)
  rw [closes]
  refine ⟨rfl, paths, ?_, ?_, ?_, ?_, untouched⟩
  · intro ctx present
    obtain ⟨_, items, decoded, equal⟩ := read ctx present
    refine ⟨?_, all.written ctx (List.mem_cons_of_mem _ present)⟩
    rw [← decodedAt_congr _ (readBefore _), decoded, equal]
  · rw [idsAfter, ← groupsDecoded]
    exact decodedAt_congr _ (readBefore _)
  · intro q notIds
    by_cases isFile : q ∈ listing.entries.filter (isStoreEntry opened.regs.disk)
    · obtain ⟨ctx, present, rfl⟩ := (isPath q).mp isFile
      rw [filesAfter ctx present]
      exact decodedAt_congr _ (readBefore _)
    · exact decodedAt_congr _ (untouched q notIds isFile)
  · intro q noFile
    by_cases same : q = idsPath path
    · subst same
      have nothing : groups = [] := by
        rw [decodedAt, readBefore, noFile] at groupsDecoded
        exact (Option.some.inj groupsDecoded).symm
      have node := all.written { strPath := idsPath path, lstGroups := groups }
        List.mem_cons_self
      rw [written, if_pos ⟨nothing, rfl⟩] at node
      exact FileSystem.contentsAt_of_absent node
    · by_cases isFile : q ∈ listing.entries.filter (isStoreEntry opened.regs.disk)
      · have file := (isFile_of_isStoreEntry (List.mem_filter.mp isFile).2).1
        obtain ⟨contents, node⟩ := FileSystem.isFile_iff.mp file
        rw [← readBefore q, FileSystem.contentsAt_of_node node] at noFile
        cases noFile
      · rw [untouched q same isFile, noFile]

/-- A bank directory with a registered group, a directory name that occurs twice,
an empty file and a file at the root. -/
def sampleDisk : Disk :=
  FileSystem.ofNodes
    [(["root"], .directory),
     (["root", "Words"], .directory),
     (["root", "Words", "w.dat"],
       .file (Runtime.wire.serializeQuestions [{ id := "1", question := "hund" }])),
     (["root", "Words", "Old"], .directory),
     (["root", "Old"], .directory),
     (["root", "Old", "o.dat"], .file []),
     (["root", "loose.dat"],
       .file (Runtime.wire.serializeQuestions [{ id := "2", question := "katze" }])),
     (["root", "ids.dat"],
       .file (Runtime.wire.serializeGroups [{ id := "w", group := "Words" }]))]

/-- A listing of the sample directory. -/
def sampleListing : Listing :=
  { entries :=
      [["root", "ids.dat"], ["root", "Old"], ["root", "Old", "o.dat"],
       ["root", "Words"], ["root", "Words", "Old"], ["root", "Words", "w.dat"],
       ["root", "loose.dat"]] }

theorem init_uninit_keeps_records_sampleDisk :
    let opened := ((fresh sampleDisk Refusals.never).init .wire ["root"] sampleListing).2
    (opened.uninit .wire).2.regs.disk.contentsAt ["root", "Old", "o.dat"] = none ∧
      decodedAt Runtime.wire.parseQuestions (opened.uninit .wire).2.regs.disk
          ["root", "Words", "w.dat"] =
        decodedAt Runtime.wire.parseQuestions sampleDisk ["root", "Words", "w.dat"] := by
  have starts : ((fresh sampleDisk Refusals.never).init .wire ["root"]
      sampleListing).1 = .value true := by decide +kernel
  have listed : ((fresh sampleDisk Refusals.never).init .wire ["root"]
      sampleListing).2.regs.disk.IsListing ["root"] sampleListing.entries := by
    decide +kernel
  have kept := init_uninit_keeps_records .wire starts listed
  exact ⟨by decide +kernel, kept.2.2.2.2.1 _ (by decide)⟩

end Notebook
