import Notebook.Groups.Deletion
import Notebook.Library.QuietSearch
import Notebook.Store.Registry

/-!
# Calls of `deleteGroup` that meet resistance

Deleting takes ids out of the registry and closes stores on its way down the tree, so a
call changes nothing only when it meets resistance at once, at every group it comes to.
Any other call leaves fewer groups, stores or entries of the registry.
-/

namespace Notebook

open RoseTree

namespace Registers

/-- The registers without error texts. -/
def silent (r : Registers) : Registers :=
  { r with
    strErrorMsg := []
    ptrIds := r.ptrIds.map fun ids => { ids with strErrorMsg := [] } }

/-- Records of the store of ids. -/
def records (r : Registers) : List QuestionAnswerGroup :=
  match r.ptrIds with
  | some ids => ids.lstGroups
  | none => []

/-- The store of ids is open. -/
def Opened (r : Registers) : Prop :=
  ∃ ids, r.ptrIds = some ids ∧ ids.strPath ≠ []

@[simp] theorem silent_mapIds (r : Registers) : r.silent.mapIds = r.mapIds := rfl

@[simp] theorem silent_disk (r : Registers) : r.silent.disk = r.disk := rfl

@[simp] theorem silent_refusals (r : Registers) : r.silent.refusals = r.refusals := rfl

@[simp] theorem silent_records (r : Registers) : r.silent.records = r.records := by
  unfold records silent
  cases r.ptrIds <;> rfl

theorem records_of_opened {r : Registers} {ids : CQuestionAnswerImpl}
    (opened : r.ptrIds = some ids) : r.records = ids.lstGroups := by
  rw [records, opened]

/-- Neither copy of the registry has an id. -/
def Unknown (r : Registers) (id : String) : Prop :=
  r.mapIds.contains id = false ∧ ∀ qag ∈ r.records, qag.id ≠ id

instance (r : Registers) (id : String) : Decidable (r.Unknown id) :=
  inferInstanceAs (Decidable (_ ∧ _))

/-- Entries in both copies of the registry. -/
def entries (r : Registers) : Nat :=
  r.mapIds.length + r.records.length

@[simp] theorem silent_entries (r : Registers) : r.silent.entries = r.entries := by
  simp [entries]

end Registers

theorem CQuestionAnswerImpl.SameRecords.silent {impl impl' : CQuestionAnswerImpl}
    (same : SameRecords impl impl') :
    { impl' with strErrorMsg := [] } = { impl with strErrorMsg := [] } := by
  cases impl
  cases impl'
  obtain ⟨path, groups, questions⟩ := same
  simp only at path groups questions
  subst path groups questions
  rfl

namespace Registers

/-- Taking out an id that neither copy has changes texts only. -/
theorem silent_unregister {r : Registers} {ids : CQuestionAnswerImpl}
    (opened : r.ptrIds = some ids) (path : ids.strPath ≠ [])
    {id : String} (unknown : r.Unknown id) :
    (unregister id ids r).silent = r.silent := by
  have noEntry : r.mapIds.erase id = r.mapIds := by
    rw [IdMap.erase, List.filter_eq_self]
    intro kv member
    have absent := IdMap.contains_eq_false_iff.mp unknown.1
    have different : kv.1 ≠ id := fun same =>
      absent (same ▸ List.mem_map_of_mem (f := Prod.fst) member)
    simpa using different
  have noRecord : ({ (ids.deleteGroup id).2 with strErrorMsg := [] } : CQuestionAnswerImpl) =
      { ids with strErrorMsg := [] } := by
    rcases CQuestionAnswerImpl.deleteGroup_cases path id with
      ⟨_, same⟩ | ⟨before, x, after, split, isId, _⟩
    · exact same.silent
    · exfalso
      apply unknown.2 x _ isId
      rw [records_of_opened opened, split]
      simp
  unfold silent unregister
  simp only [noEntry, opened, Option.map_some, noRecord]

/-- Taking out an id keeps the store of ids open. -/
theorem opened_unregister (r : Registers) {ids : CQuestionAnswerImpl}
    (path : ids.strPath ≠ []) (id : String) : (unregister id ids r).Opened := by
  refine ⟨_, rfl, ?_⟩
  rcases CQuestionAnswerImpl.deleteGroup_cases path id with
    ⟨_, same⟩ | ⟨before, x, after, _, _, done⟩
  · rw [same.path]
    exact path
  · rw [done]
    exact path

/-- Taking out an id that one of the copies has leaves fewer entries. -/
theorem entries_unregister {r : Registers} {ids : CQuestionAnswerImpl}
    (opened : r.ptrIds = some ids) (path : ids.strPath ≠ []) (id : String) :
    (unregister id ids r).entries ≤ r.entries ∧
      (¬ r.Unknown id → (unregister id ids r).entries < r.entries) := by
  have mapIds : (r.mapIds.erase id).length ≤ r.mapIds.length ∧
      (r.mapIds.contains id = true → (r.mapIds.erase id).length < r.mapIds.length) := by
    refine ⟨List.length_filter_le _ _, ?_⟩
    intro known
    obtain ⟨kv, member, isId⟩ := List.mem_map.mp (IdMap.contains_iff.mp known)
    apply Nat.lt_of_le_of_ne (List.length_filter_le _ _)
    intro same
    have all := List.length_filter_eq_length_iff.mp same kv member
    simp [isId] at all
  have records : (unregister id ids r).records.length ≤ ids.lstGroups.length ∧
      ((∃ qag ∈ ids.lstGroups, qag.id = id) →
        (unregister id ids r).records.length < ids.lstGroups.length) := by
    rw [records_of_opened (r := unregister id ids r) rfl]
    rcases CQuestionAnswerImpl.deleteGroup_cases path id with
      ⟨absent, same⟩ | ⟨before, x, after, split, isId, done⟩
    · rw [same.groups]
      refine ⟨Nat.le_refl _, ?_⟩
      rintro ⟨qag, member, isId⟩
      exact absurd isId (KeyedList.find_eq_none_iff.mp absent qag member)
    · have shorter := (swapRemove_perm before x after).length_eq
      rw [swapRemove_append_cons] at shorter
      rw [done, split]
      simp only [shorter, List.length_append, List.length_cons]
      omega
  rw [entries, entries, records_of_opened opened]
  refine ⟨?_, ?_⟩
  · have first := mapIds.1
    have second := records.1
    unfold unregister at second ⊢
    simp only at second ⊢
    omega
  · intro known
    rw [Unknown, records_of_opened opened] at known
    have first := mapIds.1
    have second := records.1
    by_cases inMap : r.mapIds.contains id = true
    · have strict := mapIds.2 inMap
      unfold unregister at second ⊢
      simp only at second ⊢
      omega
    · have inRecords : ∃ qag ∈ ids.lstGroups, qag.id = id := by
        by_contra none
        apply known
        refine ⟨by simpa using inMap, ?_⟩
        intro qag member isId
        exact none ⟨qag, member, isId⟩
      have strict := records.2 inRecords
      unfold unregister at strict ⊢
      simp only at strict ⊢
      omega

@[simp] theorem unknown_silent (r : Registers) (id : String) :
    r.silent.Unknown id ↔ r.Unknown id := by
  simp [Unknown]

theorem opened_of_silent_eq {r r' : Registers} (same : r'.silent = r.silent)
    (opened : r.Opened) : r'.Opened := by
  obtain ⟨ids, isOpen, path⟩ := opened
  have stores : (r'.ptrIds.map fun ids : CQuestionAnswerImpl =>
      { ids with strErrorMsg := [] }) = some { ids with strErrorMsg := [] } := by
    have equal := congrArg Registers.ptrIds same
    simp only [silent, isOpen, Option.map_some] at equal
    exact equal
  obtain ⟨ids', isOpen', equal⟩ := Option.map_eq_some_iff.mp stores
  refine ⟨ids', isOpen', ?_⟩
  have samePath := congrArg CQuestionAnswerImpl.strPath equal
  simp only at samePath
  rw [samePath]
  exact path

/-! ## Deleting -/

/-- The answers of a call of `deleteGroup` that meets resistance at once: no copy of the
registry has the id, and the group is not there, or closing its first store fails, or it
has no store, its sub-groups resist in turn and its directory cannot be removed. -/
def Resists (rt : Runtime) (r : Registers) :
    Nat → String → CQuestionGroupParam → Outcome Bool → Prop
  | 0, _, _, answer => answer = .undefined
  | depth + 1, id, qgp, answer =>
      r.Unknown id ∧
        match firstChild id qgp with
        | none => answer = .value false
        | some (_, found, _) =>
            match found.label.vecQuestions with
            | ctx :: _ => ctx.close rt r.disk = none ∧ answer = .threw
            | [] =>
                CalmThrough (fun grp => Resists rt r depth grp.label.strId found)
                    (fun answer => answer = .value false) (.value false)
                    found.children answer ∧
                  (answer = .value false →
                    r.disk.isDirectory found.label.strPath = true ∧
                      r.refusals.failsRemoveAll found.label.strPath = true)

/-- A call that meets resistance does not return true. -/
theorem Resists.ne_true {rt : Runtime} {r : Registers} {depth : Nat} {id : String}
    {qgp : CQuestionGroupParam} {answer : Outcome Bool}
    (resists : Resists rt r depth id qgp answer) :
    answer ≠ .value true := by
  induction depth generalizing id qgp answer with
  | zero =>
      obtain rfl : answer = .undefined := resists
      simp
  | succ depth inductionHypothesis =>
      obtain ⟨_, way⟩ := resists
      split at way
      · rw [way]
        simp
      · split at way
        · rw [way.2]
          simp
        · rcases way.1.exists_calm with isFalse | ⟨grp, _, below⟩
          · rw [isFalse]
            simp
          · exact inductionHypothesis below

/-- How a loop ends whose last call gave an answer. -/
def loopEnd : Outcome Bool → Outcome Unit
  | .value _ => .value ()
  | .threw => .threw
  | .undefined => .undefined

/-- Weight of a group: itself and its stores. -/
def storesAndSelf (grp : GroupMembers) : Nat :=
  grp.vecQuestions.length + 1

/-- Calls of `deleteGroup` with a bound on the depth are quiet or leave less. -/
abbrev DeletesLess (rt : Runtime) (depth : Nat) (id : String) : Prop :=
  QuietOrLess (fun qgp r => deleteGroupWithin rt depth id qgp r) Opened silent
    (fun r qgp answer => Resists rt r depth id qgp answer) storesAndSelf entries
    (fun _ => False)

/-- A loop over sub-groups that resist in turn changes texts only. -/
theorem deleteEach_of_calm {rt : Runtime} {depth : Nat}
    (each : ∀ id, DeletesLess rt depth id)
    {count i : Nat} {start : CQuestionGroupParam} {r : Registers} {answer : Outcome Bool}
    (opened : r.Opened)
    (whole : i + count = start.children.length)
    (through : CalmThrough (fun grp => Resists rt r.silent depth grp.label.strId start)
      (fun answer => answer = .value false) (.value false) (start.children.drop i) answer) :
    ∃ r', deleteEach (deleteGroupWithin rt depth) count i start r =
        (loopEnd answer, start, r') ∧ r'.silent = r.silent := by
  induction count generalizing i r with
  | zero =>
      rw [List.drop_eq_nil_of_le (by omega)] at through
      obtain rfl : answer = .value false := through
      exact ⟨r, rfl, rfl⟩
  | succ count inductionHypothesis =>
      have inside : i < start.children.length := by omega
      rw [List.drop_eq_getElem_cons inside] at through
      obtain ⟨here, calmHere, rest⟩ := through
      obtain ⟨r', done, same⟩ := (each _).quiet start r here opened calmHere
      have notTrue := calmHere.ne_true
      rw [deleteEach, List.getElem?_eq_getElem inside]
      simp only [done]
      cases here with
      | value b =>
          obtain rfl : b = false := by simpa using notTrue
          rw [if_pos (by simp), ← same] at rest
          have after := inductionHypothesis (opened_of_silent_eq same opened) (by omega) rest
          rw [same] at after
          exact after
      | threw =>
          rw [if_neg (by simp)] at rest
          exact ⟨r', by rw [rest]; rfl, same⟩
      | undefined =>
          rw [if_neg (by simp)] at rest
          exact ⟨r', by rw [rest]; rfl, same⟩

/-- No loop leaves more than there was. -/
theorem deleteEach_le {rt : Runtime} {depth : Nat}
    (each : ∀ id, DeletesLess rt depth id)
    (count i : Nat) (start : CQuestionGroupParam) {r : Registers} (opened : r.Opened) :
    (deleteEach (deleteGroupWithin rt depth) count i start r).2.2.Opened ∧
      weigh storesAndSelf (deleteEach (deleteGroupWithin rt depth) count i start r).2.1 +
          (deleteEach (deleteGroupWithin rt depth) count i start r).2.2.entries ≤
        weigh storesAndSelf start + r.entries := by
  induction count generalizing i start r with
  | zero => exact ⟨opened, Nat.le_refl _⟩
  | succ count inductionHypothesis =>
      rw [deleteEach]
      cases read : start.children[i]? with
      | none => exact ⟨opened, Nat.le_refl _⟩
      | some grp =>
          have openedHere := (each grp.label.strId).staysReady start r opened
          have here := (each grp.label.strId).le start opened
          simp only [false_or, silent_entries] at here
          rcases call : deleteGroupWithin rt depth grp.label.strId start r
            with ⟨answer, next, r'⟩
          rw [call] at openedHere here
          simp only at openedHere here
          simp only [call]
          cases answer with
          | threw => exact ⟨openedHere, here⟩
          | undefined => exact ⟨openedHere, here⟩
          | value =>
              obtain ⟨openedLater, later⟩ := inductionHypothesis (i + 1) next openedHere
              exact ⟨openedLater, Nat.le_trans later here⟩

/-- A loop over sub-groups that do not all resist leaves less. -/
theorem deleteEach_less {rt : Runtime} {depth : Nat}
    (each : ∀ id, DeletesLess rt depth id)
    {count i : Nat} {start : CQuestionGroupParam} {r : Registers}
    (opened : r.Opened)
    (whole : i + count = start.children.length)
    (loud : ¬ ∃ answer, CalmThrough
      (fun grp => Resists rt r.silent depth grp.label.strId start)
      (fun answer => answer = .value false) (.value false) (start.children.drop i) answer) :
    weigh storesAndSelf (deleteEach (deleteGroupWithin rt depth) count i start r).2.1 +
        (deleteEach (deleteGroupWithin rt depth) count i start r).2.2.entries <
      weigh storesAndSelf start + r.entries := by
  induction count generalizing i r with
  | zero =>
      rw [List.drop_eq_nil_of_le (by omega)] at loud
      exact absurd ⟨_, rfl⟩ loud
  | succ count inductionHypothesis =>
      have inside : i < start.children.length := by omega
      rw [List.drop_eq_getElem_cons inside] at loud
      rw [deleteEach, List.getElem?_eq_getElem inside]
      by_cases calmHere : ∃ here,
          Resists rt r.silent depth start.children[i].label.strId start here
      · obtain ⟨here, resists⟩ := calmHere
        obtain ⟨r', done, same⟩ := (each _).quiet start r here opened resists
        obtain rfl : here = .value false := by
          by_contra stops
          exact loud ⟨here, calmThrough_cons_of_stops resists (by simpa using stops)⟩
        simp only [done]
        have less := @inductionHypothesis (i + 1) r' (opened_of_silent_eq same opened)
          (by omega) (by
            rintro ⟨answer, rest⟩
            rw [same] at rest
            exact loud ⟨answer, calmThrough_cons_of_goes resists (by simp) rest⟩)
        have sameEntries : r'.entries = r.entries := by
          rw [← silent_entries, same, silent_entries]
        omega
      · have openedHere := (each start.children[i].label.strId).staysReady start r opened
        have here := (each start.children[i].label.strId).less start r opened calmHere
        simp only [false_or, silent_entries] at here
        rcases call : deleteGroupWithin rt depth start.children[i].label.strId start r
          with ⟨answer, next, r'⟩
        rw [call] at openedHere here
        simp only at openedHere here
        simp only [call]
        cases answer with
        | threw => exact here
        | undefined => exact here
        | value =>
            have later := (deleteEach_le each count (i + 1) next openedHere).2
            exact Nat.lt_of_le_of_lt later here

/-- Closing the stores of a group and running its loop leaves less, unless the group has
no store, its id is unknown and its sub-groups resist in turn. -/
theorem closed_loop_less {rt : Runtime} {depth : Nat}
    (each : ∀ id, DeletesLess rt depth id)
    {r r' : Registers} {ids : CQuestionAnswerImpl}
    (isOpen : r.ptrIds = some ids) (path : ids.strPath ≠ [])
    {id : String} {found found' : CQuestionGroupParam}
    {stores : List CQuestionAnswerImpl} {disk : Disk} {inner : Outcome Unit}
    (closed : closeAll rt found.label.vecQuestions r.disk = (true, stores, disk))
    (loop : deleteEach (deleteGroupWithin rt depth) found.children.length 0
      (withoutStores found) { unregister id ids r with disk := disk } =
        (inner, found', r')) :
    r'.Opened ∧
      weigh storesAndSelf found' + r'.entries ≤ weigh storesAndSelf found + r.entries ∧
      ((r.Unknown id → found.label.vecQuestions = [] → ∀ answer,
          ¬ CalmThrough (fun grp => Resists rt r.silent depth grp.label.strId found)
            (fun answer => answer = .value false) (.value false) found.children answer) →
        weigh storesAndSelf found' + r'.entries <
          weigh storesAndSelf found + r.entries) := by
  have opened : ({ unregister id ids r with disk := disk } : Registers).Opened :=
    opened_unregister r path id
  have afterLoop := deleteEach_le each found.children.length 0 (withoutStores found) opened
  rw [loop] at afterLoop
  obtain ⟨openedAfter, inLoop⟩ := afterLoop
  have notMore : weigh storesAndSelf found' + r'.entries ≤
      weigh storesAndSelf (withoutStores found) + (unregister id ids r).entries := inLoop
  obtain ⟨fewer, strictlyFewer⟩ := entries_unregister isOpen path id
  have weightFound : weigh storesAndSelf found =
      found.label.vecQuestions.length + 1 + weighAll storesAndSelf found.children := by
    rw [← node_label_children found, weigh_node]
    rfl
  have weightEmptied : weigh storesAndSelf (withoutStores found) =
      1 + weighAll storesAndSelf found.children := by
    rw [withoutStores, weigh_node]
    simp [storesAndSelf]
  refine ⟨openedAfter, by omega, ?_⟩
  intro notCalm
  by_cases noStores : found.label.vecQuestions = []
  · by_cases unknown : r.Unknown id
    · have same : withoutStores found = found := by
        rw [withoutStores, ← noStores]
        exact node_label_children found
      rw [noStores] at closed
      cases closed
      have sameView : ({ unregister id ids r with disk := r.disk } : Registers).silent =
          r.silent :=
        silent_unregister isOpen path unknown
      rw [same] at loop
      have inLoop := @deleteEach_less rt depth each _ 0 found _ opened (Nat.zero_add _)
        (by
          rintro ⟨answer, through⟩
          rw [sameView, List.drop_zero] at through
          exact notCalm unknown noStores answer through)
      rw [loop] at inLoop
      have less : weigh storesAndSelf found' + r'.entries <
          weigh storesAndSelf found + (unregister id ids r).entries := inLoop
      omega
    · have strict := strictlyFewer unknown
      omega
  · have some := List.length_pos_iff.mpr noStores
    omega

/-- The loop of a group without stores whose id is unknown and whose sub-groups resist in
turn changes texts only. -/
theorem closed_loop_quiet {rt : Runtime} {depth : Nat}
    (each : ∀ id, DeletesLess rt depth id)
    {r r' : Registers} {ids : CQuestionAnswerImpl}
    (isOpen : r.ptrIds = some ids) (path : ids.strPath ≠ [])
    {id : String} {found found' : CQuestionGroupParam}
    {stores : List CQuestionAnswerImpl} {disk : Disk} {inner : Outcome Unit}
    {answer : Outcome Bool}
    (unknown : r.Unknown id)
    (noStores : found.label.vecQuestions = [])
    (closed : closeAll rt found.label.vecQuestions r.disk = (true, stores, disk))
    (loop : deleteEach (deleteGroupWithin rt depth) found.children.length 0
      (withoutStores found) { unregister id ids r with disk := disk } =
        (inner, found', r'))
    (through : CalmThrough (fun grp => Resists rt r.silent depth grp.label.strId found)
      (fun answer => answer = .value false) (.value false) found.children answer) :
    inner = loopEnd answer ∧ found' = found ∧ r'.silent = r.silent := by
  have sameGroup : withoutStores found = found := by
    rw [withoutStores, ← noStores]
    exact node_label_children found
  rw [noStores] at closed
  cases closed
  have opened : ({ unregister id ids r with disk := r.disk } : Registers).Opened :=
    opened_unregister r path id
  have sameView : ({ unregister id ids r with disk := r.disk } : Registers).silent =
      r.silent :=
    silent_unregister isOpen path unknown
  obtain ⟨r'', done, same⟩ := @deleteEach_of_calm rt depth each _ 0 found _ _ opened
    (Nat.zero_add _) (by rw [sameView, List.drop_zero]; exact through)
  rw [sameGroup, done] at loop
  cases loop
  exact ⟨rfl, rfl, same.trans sameView⟩

/-- Putting the child that was found back in its place. -/
theorem node_of_firstChild {id : String} {qgp found : CQuestionGroupParam}
    {before after : List CQuestionGroupParam}
    (split : firstChild id qgp = some (before, found, after)) :
    RoseTree.node qgp.label (before ++ found :: after) = qgp := by
  rw [← (firstChild_eq_some split).1]
  exact node_label_children qgp

/-- Weight of a group by the parts around the child that was found. -/
theorem weigh_of_firstChild (weight : GroupMembers → Nat) {id : String}
    {qgp found : CQuestionGroupParam} {before after : List CQuestionGroupParam}
    (split : firstChild id qgp = some (before, found, after)) :
    weigh weight qgp = weight qgp.label +
      (weighAll weight before + (weigh weight found + weighAll weight after)) := by
  rw [← node_of_firstChild split, weigh_node]
  simp

theorem weigh_storesAndSelf (qgp : CQuestionGroupParam) :
    weigh storesAndSelf qgp =
      qgp.label.vecQuestions.length + 1 + weighAll storesAndSelf qgp.children := by
  rw [← node_label_children qgp, weigh_node]
  rfl

/-- What is left is less when less is left of the child that was found. -/
theorem weigh_around {id : String} {qgp found found' : CQuestionGroupParam}
    {before after : List CQuestionGroupParam} {r' : Registers} {entries : Nat}
    (split : firstChild id qgp = some (before, found, after))
    (less : weigh storesAndSelf found' + r'.entries < weigh storesAndSelf found + entries) :
    weigh storesAndSelf (.node qgp.label (before ++ found' :: after)) + r'.entries <
      weigh storesAndSelf qgp + entries := by
  have whole := weigh_of_firstChild storesAndSelf split
  simp only [weigh_node, weighAll_append, weighAll_cons]
  omega

/-- What is left is less when the child that was found is taken out. -/
theorem weigh_without {id : String} {qgp found found' : CQuestionGroupParam}
    {before after : List CQuestionGroupParam} {r' : Registers} {entries : Nat}
    (split : firstChild id qgp = some (before, found, after))
    (notMore : weigh storesAndSelf found' + r'.entries ≤
      weigh storesAndSelf found + entries) :
    weigh storesAndSelf (.node qgp.label (before ++ after)) + r'.entries <
      weigh storesAndSelf qgp + entries := by
  have whole := weigh_of_firstChild storesAndSelf split
  have weightFound := weigh_storesAndSelf found'
  simp only [weigh_node, weighAll_append]
  omega

/-- A call that goes on past the closing of the stores, and resists, found none. -/
theorem Resists.drained {rt : Runtime} {r : Registers} {depth : Nat} {id : String}
    {qgp found : CQuestionGroupParam} {before after : List CQuestionGroupParam}
    {stores : List CQuestionAnswerImpl} {disk : Disk} {answer : Outcome Bool}
    (resists : Resists rt r (depth + 1) id qgp answer)
    (split : firstChild id qgp = some (before, found, after))
    (closed : closeAll rt found.label.vecQuestions r.disk = (true, stores, disk)) :
    found.label.vecQuestions = [] ∧
      CalmThrough (fun grp => Resists rt r depth grp.label.strId found)
        (fun answer => answer = .value false) (.value false) found.children answer ∧
      (answer = .value false →
        r.disk.isDirectory found.label.strPath = true ∧
          r.refusals.failsRemoveAll found.label.strPath = true) := by
  obtain ⟨_, way⟩ := resists
  simp only [split] at way
  cases opened : found.label.vecQuestions with
  | nil =>
      simp only [opened] at way
      exact ⟨rfl, way⟩
  | cons ctx rest =>
      simp only [opened] at way
      rw [opened, closeAll, way.1] at closed
      cases closed

/-- A call that meets resistance changes texts only. -/
theorem DeleteResult.quiet {rt : Runtime} {depth : Nat} {id : String}
    (each : ∀ id, DeletesLess rt depth id)
    {qgp : CQuestionGroupParam} {ids : CQuestionAnswerImpl} {r : Registers}
    {answer : Outcome Bool} {result : Outcome Bool × CQuestionGroupParam × Registers}
    (isOpen : r.ptrIds = some ids) (path : ids.strPath ≠ [])
    (way : DeleteResult rt depth id qgp ids r result)
    (resists : Resists rt r.silent (depth + 1) id qgp answer) :
    ∃ r', result = (answer, qgp, r') ∧ r'.silent = r.silent := by
  have notTrue := resists.ne_true
  have unknown : r.Unknown id := (unknown_silent r id).mp resists.1
  have same := silent_unregister isOpen path unknown
  cases way with
  | missing message absent =>
      have isFalse := resists.2
      simp only [absent] at isFalse
      refine ⟨{ unregister id ids r with strErrorMsg := message }, ?_, same⟩
      rw [isFalse]
  | @closeFails before after found stores disk split fails =>
      have closing := resists.2
      simp only [split] at closing
      cases opened : found.label.vecQuestions with
      | nil =>
          rw [opened] at fails
          cases fails
      | cons ctx tail =>
          simp only [opened] at closing
          have raises : ctx.close rt r.disk = none := closing.1
          rw [opened, closeAll, raises] at fails
          cases fails
          refine ⟨unregister id ids r, ?_, same⟩
          rw [closing.2, ← opened, node_label_children, node_of_firstChild split]
          rfl
  | stopsInside split closed loop stops =>
      obtain ⟨noStores, through, _⟩ := resists.drained split closed
      obtain ⟨rfl, rfl, sameAfter⟩ :=
        closed_loop_quiet each isOpen path unknown noStores closed loop through
      refine ⟨_, ?_, sameAfter⟩
      rw [node_of_firstChild split]
      cases answer with
      | value => exact absurd rfl stops
      | threw => rfl
      | undefined => rfl
  | @refused before after found found' stores disk r' message split closed loop _ _ =>
      obtain ⟨noStores, through, _⟩ := resists.drained split closed
      obtain ⟨isEnd, rfl, sameAfter⟩ :=
        closed_loop_quiet each isOpen path unknown noStores closed loop through
      refine ⟨{ r' with strErrorMsg := message }, ?_, sameAfter⟩
      rw [node_of_firstChild split]
      cases answer with
      | value b =>
          obtain rfl : b = false := by simpa using notTrue
          rfl
      | threw => cases isEnd
      | undefined => cases isEnd
  | @removed before after found found' stores disk r' split closed loop directory allowed =>
      obtain ⟨noStores, through, refusal⟩ := resists.drained split closed
      obtain ⟨isEnd, rfl, sameAfter⟩ :=
        closed_loop_quiet each isOpen path unknown noStores closed loop through
      have isFalse : answer = .value false := by
        cases answer with
        | value b => simpa using notTrue
        | threw => cases isEnd
        | undefined => cases isEnd
      have sameRefusals : r'.refusals = r.refusals := by
        rw [← silent_refusals, sameAfter, silent_refusals]
      have fails := (refusal isFalse).2
      rw [silent_refusals, ← sameRefusals, allowed] at fails
      cases fails
  | @noDirectory before after found found' stores disk r' split closed loop notDirectory =>
      obtain ⟨noStores, through, refusal⟩ := resists.drained split closed
      obtain ⟨isEnd, rfl, sameAfter⟩ :=
        closed_loop_quiet each isOpen path unknown noStores closed loop through
      have isFalse : answer = .value false := by
        cases answer with
        | value b => simpa using notTrue
        | threw => cases isEnd
        | undefined => cases isEnd
      have sameDisk : r'.disk = r.disk := by
        rw [← silent_disk, sameAfter, silent_disk]
      have directory := (refusal isFalse).1
      rw [silent_disk, ← sameDisk, notDirectory] at directory
      cases directory

/-- A call that meets no resistance leaves less. -/
theorem DeleteResult.less {rt : Runtime} {depth : Nat} {id : String}
    (each : ∀ id, DeletesLess rt depth id)
    {qgp : CQuestionGroupParam} {ids : CQuestionAnswerImpl} {r : Registers}
    {result : Outcome Bool × CQuestionGroupParam × Registers}
    (isOpen : r.ptrIds = some ids) (path : ids.strPath ≠ [])
    (way : DeleteResult rt depth id qgp ids r result)
    (loud : ¬ ∃ answer, Resists rt r.silent (depth + 1) id qgp answer) :
    weigh storesAndSelf result.2.1 + result.2.2.entries <
      weigh storesAndSelf qgp + r.entries := by
  obtain ⟨fewer, strictlyFewer⟩ := entries_unregister isOpen path id
  have ofUnknown : r.Unknown id → r.silent.Unknown id := (unknown_silent r id).mpr
  cases way with
  | missing message absent =>
      have known : ¬ r.Unknown id := by
        intro unknown
        apply loud
        refine ⟨.value false, ofUnknown unknown, ?_⟩
        simp only [absent]
      have strict : ({ unregister id ids r with strErrorMsg := message } : Registers).entries <
          r.entries := strictlyFewer known
      apply Nat.add_lt_add_left strict
  | @closeFails before after found stores disk split fails =>
      apply @weigh_around _ _ _ (.node { found.label with vecQuestions := stores }
        found.children) _ _ { unregister id ids r with disk := disk } _ split
      change _ + (unregister id ids r).entries < _
      rw [weigh_storesAndSelf, weigh_storesAndSelf found]
      simp only [label_node, children_node]
      rcases closeAll_failed fails with shorter | ⟨ctx, tail, isCons, raises, rfl⟩
      · omega
      · by_cases unknown : r.Unknown id
        · exfalso
          apply loud
          refine ⟨.threw, ofUnknown unknown, ?_⟩
          simp only [split, isCons]
          exact ⟨raises, trivial⟩
        · have strict := strictlyFewer unknown
          omega
  | stopsInside split closed loop stops =>
      obtain ⟨_, _, strict⟩ := closed_loop_less each isOpen path closed loop
      apply weigh_around split
      apply strict
      intro unknown noStores answer through
      apply loud
      obtain ⟨isEnd, _⟩ :=
        closed_loop_quiet each isOpen path unknown noStores closed loop through
      refine ⟨answer, ofUnknown unknown, ?_⟩
      simp only [split, noStores]
      refine ⟨through, ?_⟩
      intro isFalse
      rw [isFalse] at isEnd
      exact absurd isEnd stops
  | @refused before after found found' stores disk r' message split closed loop directory fails =>
      obtain ⟨_, _, strict⟩ := closed_loop_less each isOpen path closed loop
      apply @weigh_around _ _ _ _ _ _ { r' with strErrorMsg := message } _ split
      apply strict
      intro unknown noStores answer through
      apply loud
      obtain ⟨isEnd, rfl, sameAfter⟩ :=
        closed_loop_quiet each isOpen path unknown noStores closed loop through
      refine ⟨answer, ofUnknown unknown, ?_⟩
      simp only [split, noStores]
      refine ⟨through, ?_⟩
      intro _
      have sameDisk : r'.disk = r.disk := by
        rw [← silent_disk, sameAfter, silent_disk]
      have sameRefusals : r'.refusals = r.refusals := by
        rw [← silent_refusals, sameAfter, silent_refusals]
      rw [silent_disk, silent_refusals, ← sameDisk, ← sameRefusals]
      exact ⟨directory, fails⟩
  | @removed before after found found' stores disk r' split closed loop directory allowed =>
      obtain ⟨_, notMore, _⟩ := closed_loop_less each isOpen path closed loop
      exact @weigh_without _ _ _ found' _ _
        { r' with disk := r'.disk.removeTree found'.label.strPath } _ split notMore
  | noDirectory split closed loop notDirectory =>
      obtain ⟨_, notMore, _⟩ := closed_loop_less each isOpen path closed loop
      exact weigh_without split notMore

/-- A call of `deleteGroup` is quiet exactly when it meets resistance at once, and leaves
less otherwise. -/
theorem deletesLess (rt : Runtime) (depth : Nat) (id : String) : DeletesLess rt depth id := by
  induction depth generalizing id with
  | zero =>
      refine ⟨fun qgp r ready => ready, ?_, ?_⟩
      · intro qgp r answer _ resists
        obtain rfl : answer = .undefined := resists
        exact ⟨r, rfl, rfl⟩
      · intro qgp r _ loud
        exact absurd ⟨.undefined, rfl⟩ loud
  | succ depth inductionHypothesis =>
      refine ⟨?_, ?_, ?_⟩
      · rintro qgp r ⟨ids, isOpen, path⟩
        have way := deleteGroupWithin_result rt depth id qgp isOpen
        generalize deleteGroupWithin rt (depth + 1) id qgp r = result at way ⊢
        cases way with
        | missing message absent => exact opened_unregister r path id
        | closeFails split fails => exact opened_unregister r path id
        | stopsInside split closed loop stops =>
            exact (closed_loop_less inductionHypothesis isOpen path closed loop).1
        | refused message split closed loop directory fails =>
            exact (closed_loop_less inductionHypothesis isOpen path closed loop).1
        | removed split closed loop directory allowed =>
            exact (closed_loop_less inductionHypothesis isOpen path closed loop).1
        | noDirectory split closed loop notDirectory =>
            exact (closed_loop_less inductionHypothesis isOpen path closed loop).1
      · rintro qgp r answer ⟨ids, isOpen, path⟩ resists
        exact (deleteGroupWithin_result rt depth id qgp isOpen).quiet inductionHypothesis
          isOpen path resists
      · rintro qgp r ⟨ids, isOpen, path⟩ loud
        right
        simp only [silent_entries]
        exact (deleteGroupWithin_result rt depth id qgp isOpen).less inductionHypothesis
          isOpen path loud

end Registers

end Notebook
