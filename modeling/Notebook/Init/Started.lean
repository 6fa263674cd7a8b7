import Notebook.Init.RoundTrip
import Notebook.Library.Runs

/-!
# What starting leaves on the disk

Whatever `init` answers, it creates the root directory at most, and writes the registry
back when the listing fails after the registry was read. The records that the registry
holds are the same afterwards, over any number of starts.
-/

namespace Notebook

open RoseTree CQuestionAnswerImpl CQuestionBankImpl

/-! ## One start -/

/-- What a call of `init` leaves on the disk: the disk it found, the root directory made
ready, or in addition the registry closed again. -/
inductive InitDisk (rt : Runtime) (path : Path) (disk : Disk) : Disk → Prop
  | untouched : InitDisk rt path disk disk
  | ready {disk' : Disk} (root : RootReady path disk disk') : InitDisk rt path disk disk'
  | abandoned {ready disk' : Disk} {ids : CQuestionAnswerImpl}
      (root : RootReady path disk ready)
      (opened : openFile rt ready (idsPath path) false {} = (true, ids))
      (closed : ids.close rt ready = some disk') :
      InitDisk rt path disk disk'

/-- The rest of `init`, after the root directory was made ready. -/
theorem initWithin_disk (rt : Runtime) {path : Path} (listing : Listing)
    {b : CQuestionBankImpl} {disk : Disk} (root : RootReady path disk b.regs.disk) :
    InitDisk rt path disk (b.initWithin rt path listing).2.regs.disk := by
  unfold initWithin
  rcases opened : openFile rt b.regs.disk (path ++ ["ids.dat"]) false {} with ⟨ok, ids⟩
  cases ok with
  | false =>
      simp only [opened]
      exact .ready root
  | true =>
      have nonempty := (openFile_groups_iff.mp opened).1
      obtain ⟨_, _, items, _, rfl⟩ := openFile_groups_iff.mp opened
      simp only [opened, getGroups, nonempty, if_false]
      split
      · exact .ready root
      · split
        · -- the listing failed
          unfold abandonIds
          split
          · exact .ready root
          · rename_i closed
            exact .abandoned root opened closed
        · exact .ready root

theorem init_disk (rt : Runtime) (path : Path) (listing : Listing) (b : CQuestionBankImpl) :
    InitDisk rt path b.regs.disk (b.init rt path listing).2.regs.disk := by
  unfold init
  cases present : b.regs.disk.isPresent path with
  | true =>
      rw [if_pos rfl]
      exact initWithin_disk rt listing (.present (FileSystem.isPresent_iff.mp present))
  | false =>
      rw [if_neg (by simp)]
      cases created : b.regs.refusals.createDirectory b.regs.disk path with
      | error => exact .untouched
      | notCreated => exact .untouched
      | created disk =>
          have made := Refusals.mkdir_of_created created
          have free := FileSystem.hasParent_of_mkdir made
          exact initWithin_disk rt listing
            (.created free.2 free.1 (FileSystem.node_of_mkdir made))

/-! ## What it keeps -/

/-- Two disks that differ in the root directory, if it was absent, and in the bytes of the
registry, which was a file of records and holds the same ones. -/
structure StartKeeps (rt : Runtime) (path : Path) (disk disk' : Disk) : Prop where
  others : ∀ q, q ≠ path → q ≠ idsPath path → disk'.node q = disk.node q
  root : disk'.node path = disk.node path ∨
    disk.node path = none ∧ disk'.node path = some .directory
  records : decodedAt rt.parseGroups disk' (idsPath path) =
    decodedAt rt.parseGroups disk (idsPath path)
  unread : decodedAt rt.parseGroups disk (idsPath path) = none →
    disk'.node (idsPath path) = disk.node (idsPath path)
  registry : disk'.node (idsPath path) = disk.node (idsPath path) ∨
    ∃ contents items, disk.contentsAt (idsPath path) = some contents ∧
      rt.parseGroups contents = some items ∧
      disk'.node (idsPath path) = recordsNode rt.serializeGroups items

namespace StartKeeps

variable {rt : Runtime} {path : Path} {disk disk' disk'' : Disk}

theorem refl (rt : Runtime) (path : Path) (disk : Disk) : StartKeeps rt path disk disk :=
  ⟨fun _ _ _ => rfl, Or.inl rfl, rfl, fun _ => rfl, Or.inl rfl⟩

theorem trans (first : StartKeeps rt path disk disk')
    (second : StartKeeps rt path disk' disk'') : StartKeeps rt path disk disk'' where
  others q notRoot notIds :=
    (second.others q notRoot notIds).trans (first.others q notRoot notIds)
  root := by
    rcases first.root with same | ⟨absent, made⟩
    · rw [← same]
      exact second.root
    · right
      refine ⟨absent, ?_⟩
      rcases second.root with same | ⟨gone, _⟩
      · exact same.trans made
      · rw [made] at gone
        cases gone
  records := second.records.trans first.records
  unread undecoded :=
    (second.unread (first.records.trans undecoded)).trans (first.unread undecoded)
  registry := by
    rcases second.registry with same | ⟨contents, items, held, parsed, written⟩
    · rw [same]
      exact first.registry
    · right
      rcases first.registry with same | ⟨contents', items', held', parsed', written'⟩
      · exact ⟨contents, items, (FileSystem.contentsAt_congr same).symm.trans held, parsed,
          written⟩
      · -- what was written first is read again
        have decoded := decodedAt_of_recordsNode rt.parse_serializeGroups written'
        rw [decodedAt, held] at decoded
        obtain rfl : items = items' := Option.some.inj (parsed.symm.trans decoded)
        exact ⟨contents', items, held', parsed', written⟩

theorem of_rootReady (root : RootReady path disk disk') : StartKeeps rt path disk disk' := by
  cases root with
  | present => exact refl rt path disk
  | created absent parent nodes =>
      have different : idsPath path ≠ path := by simp [idsPath]
      have same : disk'.node (idsPath path) = disk.node (idsPath path) := by
        rw [nodes, if_neg different]
      refine ⟨fun q notRoot _ => by rw [nodes, if_neg notRoot], ?_, ?_, fun _ => same,
        Or.inl same⟩
      · exact Or.inr ⟨absent, by rw [nodes, if_pos rfl]⟩
      · exact decodedAt_congr _ (RootReady.contentsAt (.created absent parent nodes) _)

/-- Closing the registry after it was read writes the records that it held. -/
theorem of_close {ids : CQuestionAnswerImpl}
    (opened : openFile rt disk (idsPath path) false {} = (true, ids))
    (closed : ids.close rt disk = some disk') :
    StartKeeps rt path disk disk' := by
  obtain ⟨nonempty, notDirectory, items, decoded, rfl⟩ := openFile_groups_iff.mp opened
  have closable : Closable disk { strPath := idsPath path, lstGroups := items } :=
    ⟨nonempty, notDirectory⟩
  obtain ⟨_, closes, nodes⟩ := close_spec rt closable
  rw [closes] at closed
  cases closed
  have written : disk'.node (idsPath path) =
      CQuestionAnswerImpl.written rt disk { strPath := idsPath path, lstGroups := items } := by
    rw [nodes, if_pos rfl]
  have registry : disk'.node (idsPath path) = disk.node (idsPath path) ∨
      ∃ contents items, disk.contentsAt (idsPath path) = some contents ∧
        rt.parseGroups contents = some items ∧
        disk'.node (idsPath path) = recordsNode rt.serializeGroups items := by
    rcases node : disk.node (idsPath path) with _ | ⟨_⟩ | ⟨contents⟩
    · -- there was no file, so there were no records
      rw [decodedAt, FileSystem.contentsAt_of_absent node] at decoded
      obtain rfl := Option.some.inj decoded
      exact Or.inl written
    · exact absurd node notDirectory
    · right
      have held := FileSystem.contentsAt_of_node node
      have parent : disk.HasParent (idsPath path) :=
        FileSystem.hasParent_of_present (by simp [node])
      rw [decodedAt, held] at decoded
      exact ⟨contents, items, held, decoded, written.trans (written_of_groups rt rfl parent)⟩
  refine ⟨fun q _ notIds => by rw [nodes, if_neg notIds], ?_, ?_, ?_, registry⟩
  · left
    rw [nodes, if_neg (by simp [idsPath])]
  · rcases registry with same | ⟨contents, items', held, parsed, rewritten⟩
    · exact decodedAt_congr _ (FileSystem.contentsAt_congr same)
    · rw [decodedAt_of_recordsNode rt.parse_serializeGroups rewritten, decodedAt, held]
      exact parsed.symm
  · rw [decoded]
    simp

end StartKeeps

theorem InitDisk.keeps {rt : Runtime} {path : Path} {disk disk' : Disk}
    (leaves : InitDisk rt path disk disk') : StartKeeps rt path disk disk' := by
  cases leaves with
  | untouched => exact .refl rt path disk
  | ready root => exact .of_rootReady root
  | abandoned root opened closed =>
      exact (StartKeeps.of_rootReady root).trans (.of_close opened closed)

/-! ## Runs of starts -/

/-- A start of the program: the listing that `init` gets and the calls that are refused. -/
structure Start where
  listing : Listing
  refusals : Refusals

/-- Call `init` on a new bank. -/
def Start.perform (rt : Runtime) (path : Path) : Machine Start Disk (Outcome Bool) :=
  fun start disk =>
    let opened := (fresh disk start.refusals).init rt path start.listing
    (opened.1, opened.2.regs.disk)

/-- Over any number of starts, whatever they meet and answer, nothing is lost. -/
theorem Start.run_keeps (rt : Runtime) (path : Path) (starts : List Start) (disk : Disk) :
    StartKeeps rt path disk (Machine.run (Start.perform rt path) starts disk).2 :=
  Machine.run_invariant
    (fun start _ kept => kept.trans
      (init_disk rt path start.listing (fresh _ start.refusals)).keeps)
    starts (.refl rt path disk)

end Notebook
