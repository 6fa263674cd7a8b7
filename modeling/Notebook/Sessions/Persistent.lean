import Notebook.Sessions.Contents

/-!
# Sessions act on one map

Opening and closing a bank do not show: over any number of sessions the answers are
those of one map that is never closed.
-/

namespace Notebook

open RoseTree KeyedList CQuestionAnswerImpl CQuestionBankImpl

namespace Session

/-- What a session gives back: the answers of `init`, of its calls and of `uninit`. -/
abbrev Answers := Outcome Bool × List BankAnswer × Outcome Unit

/-- Run a whole session, with the answers of its calls. -/
def performWithAnswers (rt : Runtime) (root : Path) : Machine Session Disk Answers :=
  fun session disk =>
    let opened := session.opened rt root disk
    let used := Machine.run (BankCall.performWithAnswer rt) session.calls opened.2
    let closed := used.2.uninit rt
    ((opened.1, used.1, closed.1), closed.2.regs.disk)

/-- Run a session on the map. -/
noncomputable def onMap : Machine Session QuestionBank Answers := fun session bank =>
  let used := Machine.run BankCall.onMap session.calls bank
  ((.value true, used.1, .value ()), used.2)

theorem performWithAnswers_state (rt : Runtime) (root : Path) (session : Session)
    (disk : Disk) :
    (session.performWithAnswers rt root disk).2 = (session.perform rt root disk).2 := by
  have same := Machine.run_state_congr (BankCall.performWithAnswer_state rt) session.calls
    (session.opened rt root disk).2
  rw [performWithAnswers, perform, used]
  simp only [same]

end Session

/-- A disk holds the contents of a map: `init` returns true and shows them. -/
def HoldsContents (rt : Runtime) (root : Path) (disk : Disk) (bank : QuestionBank) : Prop :=
  ∀ entries, disk.IsListing root entries →
    ∃ b, (fresh disk Refusals.never).init rt root { entries := entries } = (.value true, b) ∧
      Sound root b ∧ b.Shows bank

/-- Nothing lies below a path where there is nothing yet. -/
theorem NothingYet.node_below {root : Path} {disk : Disk} (nothingYet : NothingYet root disk)
    {q : Path} (below : root <+: q) (different : root ≠ q) : disk.node q = none := by
  cases nothingYet with
  | absent free parent => exact FileSystem.node_eq_none_below free parent.1 below
  | empty directory noEntries =>
      exact FileSystem.hasNoEntries_iff.mp noEntries q below different

/-- Where there is nothing yet, a session finds no group. -/
theorem NothingYet.noGroup {rt : Runtime} {root : Path} {disk : Disk}
    (nothingYet : NothingYet root disk) {listing : Listing} {b : CQuestionBankImpl}
    (initialised : (fresh disk Refusals.never).init rt root listing = (.value true, b))
    (sound : Sound root b) (grp : GroupMembers) : grp ∉ b.groups := by
  intro present
  have starts : ((fresh disk Refusals.never).init rt root listing).1 = .value true := by
    rw [initialised]
  have ready := (init_inv starts).root
  rw [initialised] at ready
  have below := sound.root_prefix (mem_preorder_of_mem_descendants present)
  have directory := (sound.groups grp present).directory
  have absent : (fresh disk Refusals.never).regs.disk.node grp.strPath = none :=
    nothingYet.node_below below (sound.ne_root present)
  cases ready with
  | present isPresent =>
      have clash := directory.symm.trans absent
      cases clash
  | created free parent nodes =>
      rw [nodes, if_neg (sound.ne_root present).symm, absent] at directory
      cases directory

/-- Where there is nothing yet, the map is empty. -/
theorem NothingYet.holdsContents (rt : Runtime) {root : Path} {disk : Disk}
    (nothingYet : NothingYet root disk) :
    HoldsContents rt root disk fun _ => none := by
  intro entries listed
  obtain ⟨b, initialised, sound⟩ := nothingYet.opens rt entries listed
  refine ⟨b, initialised, sound, distinct_entries sound.ready.distinct_all, ?_⟩
  intro id entry
  refine iff_of_false (by simp) ?_
  rintro ⟨member, _⟩
  obtain ⟨grp, present, _⟩ := group_of_mem_entries member
  exact nothingYet.noGroup initialised sound grp present

/-- What is left of a bank on the disk holds its map. -/
theorem LeftOnDisk.holdsContents {rt : Runtime} {root : Path} {b : CQuestionBankImpl}
    {items : List QuestionAnswerGroup} {disk : Disk} (left : LeftOnDisk rt root b items disk)
    (sound : Sound root b) (pairs : (items.map groupPair).Perm (groupPairs b.clsQuestionBank))
    {bank : QuestionBank} (shown : b.Shows bank) : HoldsContents rt root disk bank := by
  intro entries listed
  obtain ⟨next, initialised, soundNext, rows⟩ := left.reinit sound pairs listed
  refine ⟨next, initialised, soundNext, shown.of_perm ?_⟩
  have mapped := rows.filterMap fun row =>
    row.1.map fun above : String × String × Path => row.2.entry above.1
  rw [List.filterMap_map] at mapped
  refine (mapped.trans (List.Perm.of_eq (List.filterMap_congr ?_))).symm
  intro row _
  simp only [Function.comp, GroupMembers.entry, GroupMembers.reopened_records]
  rfl

/-- A bank that is closed and opened again shows the same map. -/
theorem Sound.holdsContents (rt : Runtime) {root : Path} {b : CQuestionBankImpl}
    (sound : Sound root b) {bank : QuestionBank} (shown : b.Shows bank) :
    HoldsContents rt root (b.uninit rt).2.regs.disk bank := by
  obtain ⟨items, disk, pairs, _, rfl, left⟩ := sound.uninit rt
  exact left.holdsContents sound pairs shown

namespace Session

/-- The calls of a session act on the bank as on the map. -/
theorem calls_refine (rt : Runtime) {root : Path} {b : CQuestionBankImpl}
    (sound : Sound root b) {bank : QuestionBank} (shown : b.Shows bank)
    {calls : List BankCall}
    (inSession : Machine.Allowed (BankCall.perform rt) (BankCall.InSession root) calls b) :
    (Machine.run (BankCall.performWithAnswer rt) calls b).1 =
        (Machine.run BankCall.onMap calls bank).1 ∧
      Sound root (Machine.run (BankCall.perform rt) calls b).2 ∧
      (Machine.run (BankCall.perform rt) calls b).2.Shows
        (Machine.run BankCall.onMap calls bank).2 := by
  have allowed : Machine.Allowed (BankCall.performWithAnswer rt)
      (fun call b _ => call.InSession root b (call.perform rt b).1) calls b :=
    inSession.transfer (BankCall.performWithAnswer_state rt) fun _ _ inSession => inSession
  obtain ⟨answers, final, shown'⟩ := @Machine.run_simulates_allowed _ _ _ _
    (BankCall.performWithAnswer rt) BankCall.onMap
    (fun call b _ => call.InSession root b (call.perform rt b).1)
    (fun b bank => Sound root b ∧ b.Shows bank)
    (by
      rintro call b bank ⟨sound, shown⟩ inSession
      obtain ⟨result, next⟩ := BankCall.performWithAnswer_refines rt shown sound call inSession
      refine ⟨result, ?_, next⟩
      rw [BankCall.performWithAnswer_state]
      exact sound.perform rt call inSession)
    calls b bank ⟨sound, shown⟩ allowed
  rw [Machine.run_state_congr (BankCall.performWithAnswer_state rt)] at final shown'
  exact ⟨answers, final, shown'⟩

/-- A session acts on what a disk holds as on the map. -/
theorem performWithAnswers_refines (rt : Runtime) {root : Path} {disk : Disk}
    {bank : QuestionBank} (holds : HoldsContents rt root disk bank) {session : Session}
    {answers : Outcome Bool × Outcome Unit}
    (proper : session.Proper rt root disk answers) :
    (session.performWithAnswers rt root disk).1 = (session.onMap bank).1 ∧
      HoldsContents rt root (session.performWithAnswers rt root disk).2
        (session.onMap bank).2 := by
  obtain ⟨b, initialised, sound, shown⟩ := holds session.entries proper.1
  have opened : session.opened rt root disk = (.value true, b) := initialised
  have calls := proper.2
  rw [opened] at calls
  obtain ⟨results, final, shown'⟩ := calls_refine rt sound shown calls
  obtain ⟨_, _, _, returned, _⟩ := final.uninit rt
  rw [performWithAnswers, opened]
  simp only [Machine.run_state_congr (BankCall.performWithAnswer_state rt)]
  refine ⟨?_, final.holdsContents rt shown'⟩
  rw [onMap, results, returned]

/-- Any number of sessions act on what a disk holds as on the map. -/
theorem run_refines (rt : Runtime) {root : Path} {disk : Disk} {bank : QuestionBank}
    (holds : HoldsContents rt root disk bank) {sessions : List Session}
    (proper : Machine.Allowed (perform rt root) (Proper rt root) sessions disk) :
    (Machine.run (performWithAnswers rt root) sessions disk).1 =
        (Machine.run onMap sessions bank).1 ∧
      HoldsContents rt root (Machine.run (performWithAnswers rt root) sessions disk).2
        (Machine.run onMap sessions bank).2 := by
  have allowed : Machine.Allowed (performWithAnswers rt root)
      (fun session disk _ => session.Proper rt root disk (session.perform rt root disk).1)
      sessions disk :=
    proper.transfer (performWithAnswers_state rt root) fun _ _ proper => proper
  exact @Machine.run_simulates_allowed _ _ _ _ (performWithAnswers rt root) onMap
    (fun session disk _ => session.Proper rt root disk (session.perform rt root disk).1)
    (HoldsContents rt root)
    (fun session disk bank holds proper => performWithAnswers_refines rt holds proper)
    sessions disk bank holds allowed

/-- From a path where there is nothing yet, over any number of sessions, every answer is
that of one map which is never closed, and the disk that is left holds its contents. -/
theorem run_persistent (rt : Runtime) {root : Path} {disk : Disk}
    (nothingYet : NothingYet root disk) {sessions : List Session}
    (proper : Machine.Allowed (perform rt root) (Proper rt root) sessions disk) :
    (Machine.run (performWithAnswers rt root) sessions disk).1 =
        (Machine.run onMap sessions fun _ => none).1 ∧
      HoldsContents rt root (Machine.run (performWithAnswers rt root) sessions disk).2
        (Machine.run onMap sessions fun _ => none).2 :=
  run_refines rt (nothingYet.holdsContents rt) proper

theorem run_persistent_secondSession :
    (Machine.run (performWithAnswers .wire ["root"]) [firstSession, secondSession]
        FileSystem.empty).1 =
        (Machine.run onMap [firstSession, secondSession] fun _ => none).1 ∧
      HoldsContents .wire ["root"]
        (Machine.run (performWithAnswers .wire ["root"]) [firstSession, secondSession]
          FileSystem.empty).2
        (Machine.run onMap [firstSession, secondSession] fun _ => none).2 :=
  run_persistent .wire (.absent rfl (by decide)) (by decide +kernel)

end Session

/-! ## What lies in the directory -/

/-- The directories of the groups of a map. -/
inductive QuestionBank.IsPath (root : Path) (bank : QuestionBank) : String → Path → Prop
  | root : IsPath root bank "" root
  | child {id : String} {entry : GroupEntry} {p : Path} (value : bank id = some entry)
      (parent : IsPath root bank entry.parent p) : IsPath root bank id (p ++ [entry.name])

/-- The directory of a bank at rest: the registry, the directories of the groups and their
files, and nothing else. A group without questions has no file. -/
structure QuestionBank.Saved (rt : Runtime) (root : Path) (bank : QuestionBank)
    (disk : Disk) : Prop where
  directories : ∀ q, root <+: q →
    (disk.node q = some .directory ↔ ∃ id, bank.IsPath root id q)
  registry : ∃ items, decodedAt rt.parseGroups disk (idsPath root) = some items ∧
    (items.map QuestionAnswerGroup.id).Nodup ∧
    ∀ id name, (id, name) ∈ items.map groupPair ↔
      ∃ entry, bank id = some entry ∧ entry.name = name
  questions : ∀ id entry p, bank id = some entry → bank.IsPath root id p →
    ∃ records, decodedAt rt.parseQuestions disk (p ++ [id ++ ".dat"]) = some records ∧
      Lists QuestionAnswer.id records entry.questions ∧
      (disk.node (p ++ [id ++ ".dat"]) = none ↔ records = [])
  nothing_else : ∀ q, root <+: q → disk.node q ≠ none →
    q = idsPath root ∨ ∃ id p, bank.IsPath root id p ∧ (q = p ∨ q = p ++ [id ++ ".dat"])

namespace Sound

variable {root : Path} {b : CQuestionBankImpl} {bank : QuestionBank}

/-- The paths of the groups are those that the map tells. -/
theorem isPath_iff (sound : Sound root b) (shown : b.Shows bank) {id : String} {q : Path} :
    bank.IsPath root id q ↔
      ∃ grp ∈ b.clsQuestionBank.preorder, grp.strId = id ∧ grp.strPath = q := by
  constructor
  · intro isPath
    induction isPath with
    | root =>
        exact ⟨b.clsQuestionBank.label, label_mem_preorder _, sound.agrees.root, by
          rw [sound.root_group]⟩
    | @child id entry p value _ inductionHypothesis =>
        obtain ⟨above, inTree, sameId, rfl⟩ := inductionHypothesis
        obtain ⟨member, rfl⟩ := (shown.mem_iff id entry).mp value
        obtain ⟨row, isRow, identity, isAbove, rfl⟩ := mem_entries.mp member
        rcases parentRows_cases isRow with rfl | ⟨c, parent, before, child, after, tree, rfl⟩
        · cases isAbove
        · obtain rfl := Option.some.inj isAbove
          have isParent : parent ∈ b.clsQuestionBank.preorder := by
            rw [tree, preorder_plug]
            simp
          obtain rfl : above = parent :=
            List.inj_on_of_nodup_map sound.ready.distinct_all inTree isParent sameId
          refine ⟨child.label, ?_, rfl, sound.rows _ isRow _ rfl⟩
          rw [tree]
          exact mem_preorder_of_mem_descendants
            (mem_descendants_plug c above before after child.label_mem_preorder)
  · rintro ⟨grp, inTree, rfl, rfl⟩
    generalize length : grp.strPath.length = n
    induction n using Nat.strongRecOn generalizing grp with
    | ind n inductionHypothesis =>
        rcases sound.mem_preorder.mp inTree with rfl | below
        · exact .root
        · obtain ⟨parent, isParent, isRow, path⟩ := sound.exists_parent below
          have value : bank grp.strId = some (grp.entry parent.strId) :=
            (shown.mem_iff _ _).mpr ⟨mem_entries.mpr ⟨_, isRow, _, rfl, rfl⟩, rfl⟩
          have shorter : parent.strPath.length < n := by
            rw [← length, path, List.length_append, List.length_singleton]
            omega
          rw [path]
          exact .child value (inductionHypothesis _ shorter parent isParent rfl)

/-- Closing a bank leaves its map in the directory. -/
theorem saved (rt : Runtime) (sound : Sound root b) (shown : b.Shows bank) :
    bank.Saved rt root (b.uninit rt).2.regs.disk := by
  obtain ⟨items, disk, pairs, _, rfl, left⟩ := sound.uninit rt
  have nodup : (items.map QuestionAnswerGroup.id).Nodup := by
    have keys := (pairs.map Prod.fst).nodup_iff.mpr sound.agrees.distinctIds
    rwa [List.map_map] at keys
  refine ⟨?_, ⟨items, left.registry, nodup, ?_⟩, ?_, ?_⟩
  · intro q below
    rw [left.directories]
    simp only [sound.isPath_iff shown]
    constructor
    · intro directory
      by_cases isRoot : root = q
      · exact ⟨_, _, label_mem_preorder _, rfl, by rw [sound.root_group]; exact isRoot⟩
      · rcases sound.entries q below isRoot (by rw [directory]; simp) with
          rfl | ⟨grp, present, rfl | rfl⟩
        · exact absurd directory sound.ids_file
        · exact ⟨_, grp, mem_preorder_of_mem_descendants present, rfl, rfl⟩
        · exact absurd directory (sound.groups grp present).not_directory
    · rintro ⟨_, grp, inTree, rfl, rfl⟩
      rcases sound.mem_preorder.mp inTree with rfl | present
      · exact sound.root_directory
      · exact (sound.groups grp present).directory
  · intro id name
    rw [pairs.mem_iff, groupPairs, List.mem_map]
    constructor
    · rintro ⟨grp, present, equal⟩
      obtain ⟨rfl, rfl⟩ := Prod.mk.inj equal
      obtain ⟨pid, member⟩ := entry_of_mem_groups present
      exact ⟨_, (shown.mem_iff _ _).mpr ⟨member, rfl⟩, rfl⟩
    · rintro ⟨entry, value, rfl⟩
      obtain ⟨member, rfl⟩ := (shown.mem_iff id entry).mp value
      obtain ⟨grp, present, pid, rfl⟩ := group_of_mem_entries member
      exact ⟨grp, present, rfl⟩
  · intro id entry p value isPath
    obtain ⟨member, rfl⟩ := (shown.mem_iff id entry).mp value
    obtain ⟨grp, present, pid, rfl⟩ := group_of_mem_entries member
    obtain ⟨other, inTree, sameId, rfl⟩ := (sound.isPath_iff shown).mp isPath
    obtain rfl : other = grp := List.inj_on_of_nodup_map sound.ready.distinct_all inTree
      (mem_preorder_of_mem_descendants present) sameId
    have file := (sound.groups other present).datPath_eq
    have usable := (sound.groups other present).usable
    have sameFile : other.strPath ++ [(other.entry pid).id ++ ".dat"] = other.datPath :=
      file.symm
    rw [sameFile]
    refine ⟨other.records, left.records other present, ?_, left.absent other present⟩
    apply lists_find
    rw [usable.records_eq]
    exact usable.context_distinct
  · intro q below present
    simp only [sound.isPath_iff shown]
    by_cases isRoot : root = q
    · exact Or.inr ⟨_, q, ⟨_, label_mem_preorder _, rfl, by rw [sound.root_group]; exact isRoot⟩,
        Or.inl rfl⟩
    · rcases left.entries q below isRoot present with isIds | ⟨grp, isGroup, rfl | rfl⟩
      · exact Or.inl isIds
      · exact Or.inr ⟨_, _, ⟨grp, mem_preorder_of_mem_descendants isGroup, rfl, rfl⟩, Or.inl rfl⟩
      · exact Or.inr ⟨_, _, ⟨grp, mem_preorder_of_mem_descendants isGroup, rfl, rfl⟩,
          Or.inr (sound.groups grp isGroup).datPath_eq⟩

end Sound

/-! ## Records name their groups -/

/-- Every question of a map carries the id of its group. -/
def QuestionBank.NamesGroups (bank : QuestionBank) : Prop :=
  ∀ id entry, bank id = some entry → ∀ qid qa, entry.questions qid = some qa → qa.group = id

/-- A question call writes records that carry the id of its group. -/
theorem QuestionCall.onPart_group (call : QuestionCall) {part : String → Option QuestionAnswer}
    (before : ∀ qid qa, part qid = some qa → qa.group = call.gid) {qid : String}
    {qa : QuestionAnswer} (value : (call.onPart part).2 qid = some qa) : qa.group = call.gid := by
  cases call with
  | add gid id question answer =>
      change (PartialMap.insertIfAbsent part id _).2 qid = some qa at value
      refine PartialMap.alter_forall before ?_ value
      intro written isWritten
      split at isWritten
      · cases isWritten
      · obtain rfl := Option.some.inj (Option.some.inj isWritten)
        rfl
  | delete gid id =>
      change (PartialMap.deleteIfPresent part id).2 qid = some qa at value
      refine PartialMap.alter_forall before ?_ value
      intro written isWritten
      split at isWritten <;> cases isWritten
  | update gid id question answer =>
      change (PartialMap.updateIfPresent part id _).2 qid = some qa at value
      refine PartialMap.alter_forall before ?_ value
      intro written isWritten
      split at isWritten
      · obtain rfl := Option.some.inj (Option.some.inj isWritten)
        rfl
      · cases isWritten
  | query gid id =>
      apply before qid qa
      rw [onPart] at value
      split at value <;> exact value

namespace QuestionBank.NamesGroups

variable {bank : QuestionBank}

theorem update (names : bank.NamesGroups) {id : String} {change : Option GroupEntry}
    (changed : ∀ entry, change = some entry →
      ∀ qid qa, entry.questions qid = some qa → qa.group = id) :
    QuestionBank.NamesGroups (Function.update bank id change) := by
  intro other entry value
  rw [Function.update_apply] at value
  split at value
  · subst_vars
    exact changed entry rfl
  · exact names other entry value

theorem alterUnder (names : bank.NamesGroups) (pid id : String)
    {change : GroupEntry → Option GroupEntry}
    (keeps : ∀ entry next, change entry = some next → next.questions = entry.questions) :
    (bank.alterUnder pid id change).2.NamesGroups := by
  unfold QuestionBank.alterUnder
  split
  · rename_i entry value
    split
    · refine names.update fun next isNext => ?_
      rw [keeps entry next isNext]
      exact names id entry value
    · exact names
  · exact names

theorem onMap (names : bank.NamesGroups) (call : BankCall) : (call.onMap bank).2.NamesGroups := by
  cases call with
  | question call =>
      change (bank.question call).2.NamesGroups
      unfold QuestionBank.question
      split
      · rename_i entry value
        refine names.update fun next isNext qid qa => ?_
        obtain rfl := Option.some.inj isNext
        exact call.onPart_group (names call.gid entry value)
      · exact names
  | group call =>
      cases call with
      | add pid name id =>
          change (bank.addGroup pid name id).2.NamesGroups
          unfold QuestionBank.addGroup
          split
          · refine names.update fun next isNext qid qa value => ?_
            obtain rfl := Option.some.inj isNext
            cases value
          · exact names
      | delete pid id => exact names.alterUnder pid id fun _ _ isNext => by cases isNext
      | update pid id name =>
          exact names.alterUnder pid id fun entry next isNext => by
            obtain rfl := Option.some.inj isNext
            rfl

end QuestionBank.NamesGroups

namespace Session

/-- The last session of a run leaves its bank, which is closed, and the map of the run. -/
theorem exists_last (rt : Runtime) {root : Path} {disk : Disk}
    (nothingYet : NothingYet root disk) {sessions : List Session} {last : Session}
    (proper : Machine.Allowed (perform rt root) (Proper rt root) (sessions ++ [last]) disk) :
    ∃ b : CQuestionBankImpl, Sound root b ∧
      b.Shows (Machine.run onMap (sessions ++ [last]) fun _ => none).2 ∧
      (Machine.run (perform rt root) (sessions ++ [last]) disk).2 =
        (b.uninit rt).2.regs.disk := by
  rw [Machine.allowed_append] at proper
  obtain ⟨_, holds⟩ := run_persistent rt nothingYet proper.1
  rw [Machine.run_state_congr (performWithAnswers_state rt root)] at holds
  obtain ⟨b, initialised, sound, shown⟩ := holds last.entries proper.2.1.1
  have opened : last.opened rt root (Machine.run (perform rt root) sessions disk).2 =
    (.value true, b) := initialised
  have calls := proper.2.1.2
  rw [opened] at calls
  obtain ⟨_, final, shown'⟩ := calls_refine rt sound shown calls
  refine ⟨_, final, ?_, ?_⟩
  · rw [Machine.run_append]
    exact shown'
  · rw [Machine.run_append, Machine.run_cons, Machine.run_nil]
    change ((last.used rt root _).uninit rt).2.regs.disk = _
    rw [used, opened]

/-- After any number of sessions the directory holds the map: the registry, the directories
and the files of its groups, and nothing else. -/
theorem run_saved (rt : Runtime) {root : Path} {disk : Disk}
    (nothingYet : NothingYet root disk) {sessions : List Session} {last : Session}
    (proper : Machine.Allowed (perform rt root) (Proper rt root) (sessions ++ [last]) disk) :
    (Machine.run onMap (sessions ++ [last]) fun _ => none).2.Saved rt root
      (Machine.run (perform rt root) (sessions ++ [last]) disk).2 := by
  obtain ⟨b, sound, shown, closed⟩ := exists_last rt nothingYet proper
  rw [closed]
  exact sound.saved rt shown

theorem run_saved_secondSession :
    (Machine.run onMap ([firstSession] ++ [secondSession]) fun _ => none).2.Saved .wire ["root"]
      (Machine.run (perform .wire ["root"]) ([firstSession] ++ [secondSession])
        FileSystem.empty).2 :=
  run_saved .wire (.absent rfl (by decide)) (by decide +kernel)

/-- After any number of sessions every id of the registry is that of one directory, and all
records in the file of this directory carry the id, with distinct ids of their own. -/
theorem run_names_groups (rt : Runtime) {root : Path} {disk : Disk}
    (nothingYet : NothingYet root disk) {sessions : List Session} {last : Session}
    (proper : Machine.Allowed (perform rt root) (Proper rt root) (sessions ++ [last]) disk) :
    let final := (Machine.run (perform rt root) (sessions ++ [last]) disk).2
    ∃ items, decodedAt rt.parseGroups final (idsPath root) = some items ∧
      ∀ item ∈ items, ∃ p records, root <+: p ∧ Path.filename p = item.group ∧
        final.node p = some .directory ∧
        decodedAt rt.parseQuestions final (p ++ [item.id ++ ".dat"]) = some records ∧
        (records.map QuestionAnswer.id).Nodup ∧ ∀ qa ∈ records, qa.group = item.id := by
  intro final
  obtain ⟨b, sound, shown, closed⟩ := exists_last rt nothingYet proper
  have names : (Machine.run onMap (sessions ++ [last]) fun _ => none).2.NamesGroups :=
    Machine.run_invariant
      (fun session bank names => Machine.run_invariant
        (fun call bank names => names.onMap call) session.calls names)
      (sessions ++ [last]) (fun _ _ value => by cases value)
  obtain ⟨items, _, pairs, _, rfl, left⟩ := sound.uninit rt
  refine ⟨items, ?_, ?_⟩
  · rw [show final = _ from closed]
    exact left.registry
  · intro item member
    have inTree := pairs.mem_iff.mp (List.mem_map_of_mem (f := groupPair) member)
    obtain ⟨grp, present, same⟩ := List.mem_map.mp inTree
    obtain ⟨sameId, sameName⟩ := Prod.mk.inj same
    have kept := sound.groups grp present
    have inBank := mem_preorder_of_mem_descendants present
    refine ⟨grp.strPath, grp.records, sound.root_prefix inBank, ?_, ?_, ?_, ?_, ?_⟩
    · rw [sound.filename inBank]
      exact sameName
    · rw [show final = _ from closed, left.directories]
      exact kept.directory
    · rw [show final = _ from closed, show item.id = grp.strId from sameId.symm,
        ← kept.datPath_eq]
      exact left.records grp present
    · rw [kept.usable.records_eq]
      exact kept.usable.context_distinct
    · intro qa isRecord
      obtain ⟨pid, isEntry⟩ := entry_of_mem_groups present
      have value := (shown.mem_iff grp.strId _).mpr ⟨isEntry, rfl⟩
      have found : find QuestionAnswer.id qa.id grp.records = some qa := by
        rw [kept.usable.records_eq] at isRecord ⊢
        exact (find_eq_some_iff kept.usable.context_distinct).mpr ⟨isRecord, rfl⟩
      rw [show item.id = grp.strId from sameId.symm]
      exact names grp.strId _ value qa.id qa found

theorem run_names_groups_secondSession :
    let final := (Machine.run (perform .wire ["root"]) ([firstSession] ++ [secondSession])
      FileSystem.empty).2
    ∃ items, decodedAt Runtime.wire.parseGroups final (idsPath ["root"]) = some items ∧
      ∀ item ∈ items, ∃ p records, ["root"] <+: p ∧ Path.filename p = item.group ∧
        final.node p = some .directory ∧
        decodedAt Runtime.wire.parseQuestions final (p ++ [item.id ++ ".dat"]) = some records ∧
        (records.map QuestionAnswer.id).Nodup ∧ ∀ qa ∈ records, qa.group = item.id :=
  run_names_groups .wire (.absent rfl (by decide)) (by decide +kernel)

end Session

end Notebook
