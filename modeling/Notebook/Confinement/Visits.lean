import Notebook.Confinement.Inside
import Notebook.Sessions.Sound

/-!
# What lies outside the directory of a bank

Over any number of visits to a directory, nothing outside it changes when the ids are
plain and the names stay below the directory they are joined to. A group with the name of
the parent directory does leave it: deleting this group takes away the parent of the root.
-/

namespace Notebook

open RoseTree CQuestionAnswerImpl CQuestionBankImpl

/-! ## Start -/

section Opening

variable {rt : Runtime} {root : Path} {disk : Disk} {mapIds : IdMap}

/-- The id that the map has for a name is plain when its ids are. -/
theorem isPlainId_idOfName (plain : ∀ kv ∈ mapIds, IsPlainId kv.1) (name : String) :
    IsPlainId (mapIds.idOfName rt name) := by
  by_cases missing : mapIds.idOfName rt name = ""
  · rw [missing]
    exact isPlainId_empty
  · exact plain _ (IdMap.idOfName_mem rt missing)

theorem placeHere_inside (plain : ∀ kv ∈ mapIds, IsPlainId kv.1) {entry : Path}
    (below : root <+: entry) {name : String} {isFile : Bool}
    (notIds : isFile = true → entry ≠ idsPath root) {qgp : CQuestionGroupParam}
    (groups : ∀ grp ∈ qgp.preorder, grp.Inside root) :
    ∀ grp ∈ (placeHere rt disk mapIds entry name isFile qgp).2.preorder, grp.Inside root := by
  obtain ⟨grp, children⟩ := qgp
  rw [preorder_node, List.forall_mem_cons] at groups
  obtain ⟨⟨path, id, stores⟩, others⟩ := groups
  unfold placeHere
  split
  · rename_i isFile
    split
    · rw [preorder_node, List.forall_mem_cons]
      exact ⟨⟨path, id, stores⟩, others⟩
    · rename_i impl opened
      obtain ⟨_, _, items, _, rfl⟩ := openFile_questions_iff.mp opened
      rw [preorder_node, List.forall_mem_cons]
      refine ⟨⟨path, id, List.forall_mem_append.mpr ⟨stores, ?_⟩⟩, others⟩
      simpa using ⟨below, notIds isFile⟩
  · rw [preorder_node, List.forall_mem_cons, label_node, children_node, List.flatMap_append,
      List.forall_mem_append]
    refine ⟨⟨path, id, stores⟩, others, ?_⟩
    simpa using ⟨below, isPlainId_idOfName plain name, by simp⟩

theorem initEntry_inside (plain : ∀ kv ∈ mapIds, IsPlainId kv.1) {rootName : String}
    {entry : Path} (below : root <+: entry) {qgp : CQuestionGroupParam}
    (groups : ∀ grp ∈ qgp.preorder, grp.Inside root) :
    ∀ grp ∈ (initEntry rt disk mapIds rootName entry qgp).2.preorder, grp.Inside root := by
  have placed : ∀ isFile, (isFile = true → entry ≠ idsPath root) →
      ∀ grp ∈ (CQuestionBankImpl.initQuestionBank rt disk mapIds
        (Path.filename entry.dropLast) entry entry.filename isFile qgp).2.preorder,
        grp.Inside root := by
    intro isFile notIds
    unfold CQuestionBankImpl.initQuestionBank
    refine search_labels ?_ groups ()
    intro qgp _ groups
    exact placeHere_inside plain below notIds groups
  unfold initEntry
  simp only
  split
  · split
    · exact groups
    · rename_i notIds
      refine placed true fun _ same => notIds ?_
      rw [same, idsPath, Path.filename_append_singleton]
  · split
    · split
      · obtain ⟨grp, children⟩ := qgp
        rw [preorder_node, List.forall_mem_cons] at groups
        rw [preorder_node, List.forall_mem_cons, label_node, children_node, List.flatMap_append,
          List.forall_mem_append]
        refine ⟨groups.1, groups.2, ?_⟩
        simpa using ⟨below, isPlainId_idOfName plain _, by simp⟩
      · exact placed false (by simp)
    · exact groups

theorem initEntries_inside (plain : ∀ kv ∈ mapIds, IsPlainId kv.1) {rootName : String}
    {entries : List Path} (below : ∀ entry ∈ entries, root <+: entry)
    {qgp : CQuestionGroupParam} (groups : ∀ grp ∈ qgp.preorder, grp.Inside root) :
    ∀ grp ∈ (initEntries rt disk mapIds rootName entries qgp).2.preorder,
      grp.Inside root := by
  induction entries generalizing qgp with
  | nil => exact groups
  | cons entry entries inductionHypothesis =>
      rw [List.forall_mem_cons] at below
      have first : ∀ grp ∈ (initEntry rt disk mapIds rootName entry qgp).2.preorder,
          grp.Inside root := initEntry_inside plain below.1 groups
      rw [initEntries]
      rcases placed : initEntry rt disk mapIds rootName entry qgp with ⟨ok, tree⟩
      rw [placed] at first
      cases ok with
      | false => exact first
      | true => exact inductionHypothesis below.2 first

end Opening

theorem registryOf_plain {items : List QuestionAnswerGroup}
    (plain : ∀ item ∈ items, IsPlainId item.id) :
    ∀ kv ∈ registryOf items [], IsPlainId kv.1 := by
  have start : ∀ map : IdMap, (∀ kv ∈ map, IsPlainId kv.1) →
      ∀ kv ∈ registryOf items map, IsPlainId kv.1 := by
    unfold registryOf
    induction items with
    | nil => exact fun _ known => known
    | cons item items inductionHypothesis =>
        rw [List.forall_mem_cons] at plain
        intro map known
        apply inductionHypothesis plain.2
        intro kv member
        rcases IdMap.mem_emplace member with old | rfl
        · exact known kv old
        · exact plain.1
  exact start [] (by simp)

/-- What differs outside the root after a start. -/
theorem StartKeeps.agreeOutside {rt : Runtime} {root : Path} {disk disk' : Disk}
    (kept : StartKeeps rt root disk disk') : disk.AgreeOutside root disk' := by
  intro q outside
  apply kept.others
  · rintro rfl
    exact outside List.prefix_rfl
  · rintro rfl
    exact outside (List.prefix_append _ _)

/-- A bank that `init` opened stays in its directory. -/
theorem init_confined {rt : Runtime} {root : Path} {disk : Disk} {refusals : Refusals}
    {listing : Listing} (below : ∀ entry ∈ listing.entries, root <+: entry)
    (plain : PlainRegistry rt root disk)
    (succeeds : ((fresh disk refusals).init rt root listing).1 = .value true) :
    Confined rt root disk ((fresh disk refusals).init rt root listing).2 := by
  have kept := (init_disk rt root listing (fresh disk refusals)).keeps
  obtain ⟨ready, directory, ⟨ids, opened, isIds, isMap⟩, placed, _, _, _⟩ := init_inv succeeds
  generalize ((fresh disk refusals).init rt root listing).2 = b at *
  obtain ⟨nonempty, _, items, decoded, rfl⟩ := openFile_groups_iff.mp opened
  have plainItems := plain items (kept.records ▸ decoded)
  have plainMap : ∀ kv ∈ b.regs.mapIds, IsPlainId kv.1 := by
    rw [isMap]
    exact registryOf_plain plainItems
  constructor
  · have tree := congrArg Prod.snd placed
    simp only at tree
    rw [← tree]
    apply initEntries_inside plainMap below
    have root : ({ strName := root.filename, strPath := root } : GroupMembers).Inside root :=
      ⟨List.prefix_rfl, isPlainId_empty, by simp⟩
    simpa [withRoot, fresh] using root
  · refine ⟨plainMap, ?_, ?_, kept.agreeOutside⟩
    · intro ids' isIds'
      rw [isIds] at isIds'
      cases isIds'
      exact ⟨rfl, rfl, plainItems⟩
    · intro none
      rw [isIds] at none
      cases none

/-! ## End -/

/-- Closing a bank changes nothing outside its directory, and leaves plain ids. -/
theorem Confined.uninit {rt : Runtime} {root : Path} {start : Disk} {b : CQuestionBankImpl}
    (confined : Confined rt root start b) :
    start.AgreeOutside root (b.uninit rt).2.regs.disk ∧
      PlainRegistry rt root (b.uninit rt).2.regs.disk := by
  have stored : ∀ ctx ∈ stores b.clsQuestionBank,
      root <+: ctx.strPath ∧ ctx.strPath ≠ idsPath root := by
    intro ctx member
    obtain ⟨grp, present, isStore⟩ := List.mem_flatMap.mp member
    exact (confined.groups grp present).stores ctx isStore
  constructor
  · have keeps : ∀ ctx : CQuestionAnswerImpl, root <+: ctx.strPath →
        KeptByClose rt (start.AgreeOutside root) ctx := fun ctx below disk disk' agree closed =>
      agree.trans (agreeOutside_of_close below closed)
    refine uninit_keeps (fun ids isIds => keeps ids ?_)
      (fun ctx member => keeps ctx (stored ctx member).1) confined.regs.outside
    rw [(confined.regs.ptrIds ids isIds).path]
    exact List.prefix_append _ _
  · have keeps : ∀ ctx ∈ stores b.clsQuestionBank,
        KeptByClose rt (PlainRegistry rt root) ctx := by
      intro ctx member disk disk' plain closed
      exact plain.congr (decodedAt_congr _ (FileSystem.contentsAt_congr
        (node_of_close closed (stored ctx member).2)))
    unfold CQuestionBankImpl.uninit CQuestionBankImpl.uninitTree
    cases opened : b.regs.ptrIds with
    | none => exact uninitQuestionBank_keeps keeps (confined.regs.registry opened)
    | some ids =>
        have isRegistry := confined.regs.ptrIds ids opened
        simp only
        cases closed : ids.close rt b.regs.disk with
        | none => exact isRegistry.not_closed closed
        | some disk => exact uninitQuestionBank_keeps keeps (isRegistry.close closed)

/-! ## Visits -/

/-- A disk with a directory that can hold a bank, and a file next to it. -/
def homeDisk : Disk :=
  FileSystem.ofNodes [(["home"], .directory), (["home", "notes.txt"], .file [104, 105])]

/-- A visit to the directory of a bank: `init` with some listing and with some calls
refused, calls of the bank when `init` returned true, and `uninit`. -/
structure Visit where
  listing : Listing
  refusals : Refusals
  calls : List BankCall

namespace Visit

/-- The start of a visit, on a new object. -/
def opened (rt : Runtime) (root : Path) (visit : Visit) (disk : Disk) :
    Outcome Bool × CQuestionBankImpl :=
  (fresh disk visit.refusals).init rt root visit.listing

/-- A whole visit. A bank that `init` did not open is dropped. -/
def perform (rt : Runtime) (root : Path) : Machine Visit Disk (Outcome Bool) :=
  fun visit disk =>
    match visit.opened rt root disk with
    | (.value true, b) =>
        (.value true,
          ((Machine.run (BankCall.perform rt) visit.calls b).2.uninit rt).2.regs.disk)
    | (answer, b) => (answer, b.regs.disk)

/-- A visit that lists entries below the root only, and whose calls stay inside. -/
structure StaysInside (root : Path) (visit : Visit) : Prop where
  listing : ∀ entry ∈ visit.listing.entries, root <+: entry
  calls : ∀ call ∈ visit.calls, call.KeepsInside

theorem perform_inside (rt : Runtime) {root : Path} {visit : Visit}
    (stays : visit.StaysInside root) {disk : Disk} (plain : PlainRegistry rt root disk) :
    disk.AgreeOutside root (visit.perform rt root disk).2 ∧
      PlainRegistry rt root (visit.perform rt root disk).2 := by
  have kept : StartKeeps rt root disk (visit.opened rt root disk).2.regs.disk :=
    (init_disk rt root visit.listing (fresh disk visit.refusals)).keeps
  rcases start : visit.opened rt root disk with ⟨answer, b⟩
  rw [start] at kept
  by_cases succeeds : answer = .value true
  · subst succeeds
    have confined : Confined rt root disk b := by
      have same : b = (visit.opened rt root disk).2 := by rw [start]
      rw [same]
      exact init_confined stays.listing plain (congrArg Prod.fst start)
    have used : Confined rt root disk (Machine.run (BankCall.perform rt) visit.calls b).2 :=
      Machine.run_preserves (fun _ _ confined stays => confined.call stays) confined
        (Machine.allowed_of_mem _ stays.calls b)
    rw [perform, start]
    exact used.uninit
  · have dropped : visit.perform rt root disk = (answer, b.regs.disk) := by
      rw [perform, start]
      split
      · rename_i equal
        cases equal
        exact absurd rfl succeeds
      · rename_i equal
        cases equal
        rfl
    rw [dropped]
    exact ⟨kept.agreeOutside, plain.congr kept.records⟩

/-- Over any number of visits, whatever the calls answer and whatever the operating system
refuses, nothing outside the root changes. -/
theorem run_inside (rt : Runtime) {root : Path} {disk : Disk}
    (plain : PlainRegistry rt root disk) {visits : List Visit}
    (stay : ∀ visit ∈ visits, visit.StaysInside root) :
    disk.AgreeOutside root (Machine.run (perform rt root) visits disk).2 := by
  induction visits generalizing disk with
  | nil => exact .refl root disk
  | cons visit visits inductionHypothesis =>
      rw [List.forall_mem_cons] at stay
      obtain ⟨agree, plain'⟩ := perform_inside rt stay.1 plain
      exact agree.trans (inductionHypothesis plain' stay.2)

/-- A visit that makes a group, renames it and gives it a question. -/
def firstVisit : Visit where
  listing := { entries := [] }
  refusals := Refusals.never
  calls :=
    [.group (.add "" "Words" "1a"), .group (.update "" "1a" "Verbs"),
      .question (.add "1a" "q" "ser" "to be")]

/-- A visit in which the operating system removes nothing. -/
def secondVisit : Visit where
  listing := { entries := [["home", "bank", "Verbs"], ["home", "bank", "ids.dat"]] }
  refusals := { Refusals.never with failsRemoveAll := fun _ => true }
  calls := [.group (.delete "" "1a"), .group (.add "9z" "Nouns" "3c")]

theorem run_inside_secondVisit :
    homeDisk.AgreeOutside ["home", "bank"]
      (Machine.run (perform .wire ["home", "bank"]) [firstVisit, secondVisit] homeDisk).2 := by
  refine run_inside .wire ?_ ?_
  · intro items decoded
    have none : decodedAt Runtime.wire.parseGroups homeDisk (idsPath ["home", "bank"]) =
        some [] := rfl
    rw [none] at decoded
    cases decoded
    simp
  · intro visit member
    simp only [List.mem_cons, List.not_mem_nil, or_false] at member
    rcases member with rfl | rfl
    · exact ⟨by decide, by decide⟩
    · exact ⟨by decide, by decide⟩

end Visit

end Notebook
