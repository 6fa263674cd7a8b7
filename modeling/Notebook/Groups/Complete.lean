import Notebook.Groups.Agreement

/-!
# Which deletions are complete

The loop in `deleteGroup` walks a vector of sub-groups while each call in its body may
erase from that vector. A record of the ids that are erased shows that every group below
the deleted one is erased exactly when no group has more than one sub-group and nothing
stops the calls.
-/

namespace Notebook

open RoseTree

namespace Registers

/-! ## The record of erased ids -/

/-- The ids that the calls of a loop erase, in turn. -/
def erasedEach
    (deleteGroup : String → CQuestionGroupParam → Registers →
      Outcome Bool × CQuestionGroupParam × Registers)
    (erased : String → CQuestionGroupParam → Registers → List String) :
    (count i : Nat) → CQuestionGroupParam → Registers → List String
  | 0, _, _, _ => []
  | count + 1, i, found, r =>
      match found.children[i]? with
      | none => []
      | some grp =>
          erased grp.label.strId found r ++
            match deleteGroup grp.label.strId found r with
            | (.value _, found, r) => erasedEach deleteGroup erased count (i + 1) found r
            | (.threw, _, _) => []
            | (.undefined, _, _) => []

/-- The ids that a call erases from the vectors, in the order in which the calls for them
return. A call erases the id it was given when it answers true. -/
def erasedWithin (rt : Runtime) :
    Nat → String → CQuestionGroupParam → Registers → List String
  | 0, _, _, _ => []
  | depth + 1, id, qgp, r =>
      (match r.ptrIds, firstChild id qgp with
        | some ids, some (_, found, _) =>
            match closeAll rt found.label.vecQuestions r.disk with
            | (true, _, disk) =>
                erasedEach (deleteGroupWithin rt depth) (erasedWithin rt depth)
                  found.children.length 0 (withoutStores found)
                  { r.unregister id ids with disk := disk }
            | (false, _, _) => []
        | _, _ => []) ++
      if (deleteGroupWithin rt (depth + 1) id qgp r).1 = .value true then [id] else []

/-- The ids that a call of `deleteGroup` erases from the vectors. -/
def erasedIds (rt : Runtime) (id : String) (qgp : CQuestionGroupParam) (r : Registers) :
    List String :=
  erasedWithin rt qgp.height id qgp r

/-- The ids that the loop of a call for a group erases. -/
def erasedBelow (rt : Runtime) (depth : Nat) (found : CQuestionGroupParam) (r : Registers) :
    List String :=
  erasedEach (deleteGroupWithin rt depth) (erasedWithin rt depth) found.children.length 0
    (withoutStores found) r

/-- The loop of a call for a group. -/
def loopBelow (rt : Runtime) (depth : Nat) (found : CQuestionGroupParam) (r : Registers) :
    Outcome Unit × CQuestionGroupParam × Registers :=
  deleteEach (deleteGroupWithin rt depth) found.children.length 0 (withoutStores found) r

section Calls

variable {rt : Runtime} {depth : Nat} {id : String} {qgp found : CQuestionGroupParam}
  {before after : List CQuestionGroupParam} {r : Registers} {ids : CQuestionAnswerImpl}

/-- A call that closes the stores of its group erases what its loop erases, and its own
id when it answers true. -/
theorem erasedWithin_of_closed
    (opened : r.ptrIds = some ids)
    (split : firstChild id qgp = some (before, found, after))
    {disk : Disk}
    (closed : closeAll rt found.label.vecQuestions r.disk = (true, [], disk)) :
    erasedWithin rt (depth + 1) id qgp r =
      erasedBelow rt depth found { r.unregister id ids with disk := disk } ++
        if (deleteGroupWithin rt (depth + 1) id qgp r).1 = .value true then [id] else [] := by
  rw [erasedWithin]
  simp only [opened, split, closed]
  rfl

/-- A call that cannot close the stores of its group leaves with an exception. -/
theorem deleteGroupWithin_of_closeFails
    (opened : r.ptrIds = some ids)
    (split : firstChild id qgp = some (before, found, after))
    (fails : (closeAll rt found.label.vecQuestions r.disk).1 = false) :
    (deleteGroupWithin rt (depth + 1) id qgp r).1 = .threw := by
  rcases closed : closeAll rt found.label.vecQuestions r.disk with ⟨ok, stores, disk⟩
  rw [closed] at fails
  cases fails
  rw [firstChild] at split
  rw [deleteGroupWithin]
  simp only [opened, split, closed]

/-- Only a call that closes the stores of its group erases anything. -/
theorem closes_of_mem_erasedWithin
    (opened : r.ptrIds = some ids)
    (split : firstChild id qgp = some (before, found, after))
    {x : String}
    (erased : x ∈ erasedWithin rt (depth + 1) id qgp r) :
    ∃ disk, closeAll rt found.label.vecQuestions r.disk = (true, [], disk) := by
  rcases closed : closeAll rt found.label.vecQuestions r.disk with ⟨ok, stores, disk⟩
  cases ok with
  | true =>
      obtain rfl := closeAll_drained closed
      exact ⟨disk, rfl⟩
  | false =>
      have threw : (deleteGroupWithin rt (depth + 1) id qgp r).1 = .threw :=
        deleteGroupWithin_of_closeFails opened split (by rw [closed])
      rw [erasedWithin, threw] at erased
      simp [opened, split, closed] at erased

/-- What a call that returns leaves of the vector and of the registry. -/
theorem deleteGroupWithin_next
    (opened : r.ptrIds = some ids)
    (split : firstChild id qgp = some (before, found, after))
    {ok : Bool} {next : CQuestionGroupParam} {r' : Registers}
    (call : deleteGroupWithin rt depth id qgp r = (.value ok, next, r')) :
    ∃ rest : Option CQuestionGroupParam,
      next = .node qgp.label (before ++ rest.toList ++ after) ∧
      (rest = none ↔ ok = true) ∧
      (∀ found' ∈ rest, found'.label.strId = found.label.strId) ∧
      ∃ ids', r'.ptrIds = some ids' := by
  cases depth with
  | zero => cases call
  | succ depth =>
      obtain ⟨rest, tree, frame⟩ := deleteGroupWithin_frame rt depth opened split
      rw [call] at tree frame
      obtain ⟨erased, erases, _⟩ := frame.erased
      refine ⟨rest, tree, ?_, fun found' isRest => (frame.label found' isRest).strId,
        erases.opened opened⟩
      rw [frame.gone, Outcome.value.injEq]

end Calls

/-! ## What is erased lies below -/

section Loops

variable {rt : Runtime} {depth : Nat}

/-- The sub-groups that a loop can still reach after a call at one position are those
after this position. -/
theorem drop_next {start : CQuestionGroupParam} {before after : List CQuestionGroupParam}
    (rest : Option CQuestionGroupParam) :
    (RoseTree.node start.label (before ++ rest.toList ++ after)).children.drop
        (before.length + 1) =
      if rest = none then after.drop 1 else after := by
  rw [children_node, ← List.drop_drop]
  cases rest with
  | none => simp
  | some found' => simp [List.append_assoc]

theorem siblings_next {start grp : CQuestionGroupParam}
    {before after : List CQuestionGroupParam}
    (children : start.children = before ++ grp :: after)
    (siblings : (start.children.map fun grp => grp.label.strId).Nodup)
    {rest : Option CQuestionGroupParam}
    (sameId : ∀ grp' ∈ rest, grp'.label.strId = grp.label.strId) :
    ((RoseTree.node start.label (before ++ rest.toList ++ after)).children.map
      fun grp => grp.label.strId).Nodup := by
  rw [children, List.map_append, List.map_cons] at siblings
  rw [children_node, List.map_append, List.map_append]
  cases rest with
  | none =>
      rw [Option.toList_none, List.map_nil, List.append_nil]
      exact siblings.sublist ((List.sublist_cons_self _ _).append_left _)
  | some grp' =>
      rw [Option.toList_some, List.map_singleton, sameId grp' rfl, List.append_assoc]
      exact siblings

/-- A loop over sub-groups with distinct ids erases only ids of the sub-groups it can
still reach and of groups below them. -/
theorem mem_erasedEach
    (each : ∀ id qgp found before after r ids x, r.ptrIds = some ids →
      firstChild id qgp = some (before, found, after) →
      (found.preorder.map GroupMembers.strId).Nodup →
      x ∈ erasedWithin rt depth id qgp r → x ∈ found.preorder.map GroupMembers.strId)
    (count i : Nat) {start : CQuestionGroupParam} {r : Registers}
    {ids : CQuestionAnswerImpl}
    (opened : r.ptrIds = some ids)
    (siblings : (start.children.map fun grp => grp.label.strId).Nodup)
    (below : ∀ grp ∈ start.children.drop i, (grp.preorder.map GroupMembers.strId).Nodup)
    {x : String}
    (erased : x ∈ erasedEach (deleteGroupWithin rt depth) (erasedWithin rt depth) count i
      start r) :
    ∃ grp ∈ start.children.drop i, x ∈ grp.preorder.map GroupMembers.strId := by
  induction count generalizing i start r ids with
  | zero => cases erased
  | succ count inductionHypothesis =>
      rw [erasedEach] at erased
      cases read : start.children[i]? with
      | none =>
          rw [read] at erased
          cases erased
      | some grp =>
          obtain ⟨before, after, children, rfl⟩ := exists_split_of_getElem? read
          have dropped : start.children.drop before.length = grp :: after := by
            rw [children, List.drop_left]
          rw [dropped] at below ⊢
          have split := firstChild_of_distinct children siblings
          rw [read] at erased
          simp only at erased
          rcases List.mem_append.mp erased with here | later
          · exact ⟨grp, List.mem_cons_self,
              each _ _ _ _ _ _ _ _ opened split (below grp List.mem_cons_self) here⟩
          · rcases call : deleteGroupWithin rt depth grp.label.strId start r
              with ⟨answer, next, r'⟩
            rw [call] at later
            cases answer with
            | threw => cases later
            | undefined => cases later
            | value ok =>
                obtain ⟨rest, rfl, _, sameId, ids', opened'⟩ :=
                  deleteGroupWithin_next opened split call
                have reach := @drop_next start before after rest
                have inAfter : ∀ other ∈ (RoseTree.node start.label
                    (before ++ rest.toList ++ after)).children.drop (before.length + 1),
                    other ∈ after := by
                  intro other member
                  rw [reach] at member
                  split at member
                  · exact List.mem_of_mem_drop member
                  · exact member
                obtain ⟨other, member, isId⟩ := inductionHypothesis (before.length + 1)
                  opened'
                  (siblings_next children siblings sameId)
                  (fun other member =>
                    below other (List.mem_cons_of_mem grp (inAfter other member)))
                  later
                exact ⟨other, List.mem_cons_of_mem grp (inAfter other member), isId⟩

/-- A call for a group erases only ids of this group and of groups below it. -/
theorem mem_erasedWithin (rt : Runtime) (depth : Nat) (id : String)
    (qgp found : CQuestionGroupParam) (before after : List CQuestionGroupParam)
    (r : Registers) (ids : CQuestionAnswerImpl) (x : String)
    (opened : r.ptrIds = some ids)
    (split : firstChild id qgp = some (before, found, after))
    (distinct : (found.preorder.map GroupMembers.strId).Nodup)
    (erased : x ∈ erasedWithin rt depth id qgp r) :
    x ∈ found.preorder.map GroupMembers.strId := by
  induction depth generalizing id qgp found before after r ids x with
  | zero => cases erased
  | succ depth inductionHypothesis =>
      obtain ⟨disk, closed⟩ := closes_of_mem_erasedWithin opened split erased
      rw [erasedWithin_of_closed opened split closed] at erased
      rw [preorder_eq_label_cons, List.map_cons] at distinct ⊢
      rcases List.mem_append.mp erased with inLoop | own
      · have below := (List.nodup_cons.mp distinct).2
        have opened' : ({ r.unregister id ids with disk := disk } : Registers).ptrIds =
            some (ids.deleteGroup id).2 := rfl
        obtain ⟨grp, member, isId⟩ := @mem_erasedEach rt depth inductionHypothesis _ 0
          (withoutStores found) _ _ opened' (nodup_strId_children below)
          (fun grp member => nodup_map_preorder_of_mem below (List.mem_of_mem_drop member))
          x inLoop
        apply List.mem_cons_of_mem
        rw [descendants, List.map_flatMap]
        exact List.mem_flatMap.mpr ⟨grp, List.mem_of_mem_drop member, isId⟩
      · rw [(firstChild_eq_some split).2]
        split at own
        · exact List.mem_cons.mpr (Or.inl (List.mem_singleton.mp own))
        · cases own

/-- What the loop of a call for a group erases has the id of a group below it. -/
theorem mem_erasedBelow {found : CQuestionGroupParam} {r : Registers}
    {ids : CQuestionAnswerImpl}
    (opened : r.ptrIds = some ids)
    (distinct : (found.descendants.map GroupMembers.strId).Nodup)
    {x : String}
    (erased : x ∈ erasedBelow rt depth found r) :
    x ∈ found.descendants.map GroupMembers.strId := by
  obtain ⟨grp, member, isId⟩ := @mem_erasedEach rt depth (mem_erasedWithin rt depth) _ 0
    (withoutStores found) _ _ opened (nodup_strId_children distinct)
    (fun grp member => nodup_map_preorder_of_mem distinct (List.mem_of_mem_drop member))
    x erased
  rw [descendants, List.map_flatMap]
  exact List.mem_flatMap.mpr ⟨grp, List.mem_of_mem_drop member, isId⟩

/-- What a loop erases after the call for one sub-group has the id of a later sub-group
or of a group below it. When the call erased its sub-group, the next one is passed over. -/
theorem mem_erasedEach_later {start grp : CQuestionGroupParam}
    {before after : List CQuestionGroupParam}
    (children : start.children = before ++ grp :: after)
    (distinct : (start.descendants.map GroupMembers.strId).Nodup)
    {rest : Option CQuestionGroupParam}
    (sameId : ∀ grp' ∈ rest, grp'.label.strId = grp.label.strId)
    {r : Registers} {ids : CQuestionAnswerImpl}
    (opened : r.ptrIds = some ids)
    {count : Nat} {x : String}
    (erased : x ∈ erasedEach (deleteGroupWithin rt depth) (erasedWithin rt depth) count
      (before.length + 1) (.node start.label (before ++ rest.toList ++ after)) r) :
    ∃ other ∈ if rest = none then after.drop 1 else after,
      x ∈ other.preorder.map GroupMembers.strId := by
  have reach := @drop_next start before after rest
  rw [← reach]
  apply @mem_erasedEach rt depth (mem_erasedWithin rt depth) _ _ _ _ _ opened
    (siblings_next children (nodup_strId_children distinct) sameId) _ x erased
  intro other member
  apply nodup_map_preorder_of_mem distinct
  rw [reach] at member
  rw [children]
  apply List.mem_append_right
  apply List.mem_cons_of_mem
  split at member
  · exact List.mem_of_mem_drop member
  · exact member

/-- A call erases the id of its own group only when it answers true. -/
theorem returns_true_of_erased {id : String} {qgp found : CQuestionGroupParam}
    {before after : List CQuestionGroupParam} {r : Registers} {ids : CQuestionAnswerImpl}
    (opened : r.ptrIds = some ids)
    (split : firstChild id qgp = some (before, found, after))
    (distinct : (found.preorder.map GroupMembers.strId).Nodup)
    (erased : found.label.strId ∈ erasedWithin rt depth id qgp r) :
    (deleteGroupWithin rt depth id qgp r).1 = .value true := by
  cases depth with
  | zero => cases erased
  | succ depth =>
      obtain ⟨disk, closed⟩ := closes_of_mem_erasedWithin opened split erased
      rw [erasedWithin_of_closed opened split closed] at erased
      rw [preorder_eq_label_cons, List.map_cons, List.nodup_cons] at distinct
      rcases List.mem_append.mp erased with inLoop | own
      · have opened' : ({ r.unregister id ids with disk := disk } : Registers).ptrIds =
            some (ids.deleteGroup id).2 := rfl
        exact absurd (mem_erasedBelow opened' distinct.2 inLoop) distinct.1
      · by_contra notTrue
        rw [if_neg notTrue] at own
        cases own

/-- A loop that erases the id of every group below runs over one sub-group at most. -/
theorem single_of_erasedBelow {found : CQuestionGroupParam} {r : Registers}
    {ids : CQuestionAnswerImpl}
    (opened : r.ptrIds = some ids)
    (distinct : (found.descendants.map GroupMembers.strId).Nodup)
    (all : ∀ grp ∈ found.descendants, grp.strId ∈ erasedBelow rt depth found r) :
    found.children = [] ∨ ∃ child, found.children = [child] := by
  cases children : found.children with
  | nil => exact Or.inl rfl
  | cons first others =>
      right
      cases others with
      | nil => exact ⟨first, rfl⟩
      | cons second others =>
          exfalso
          have siblings := nodup_strId_children distinct
          have split : firstChild first.label.strId (withoutStores found) =
              some ([], first, second :: others) :=
            firstChild_of_distinct children siblings
          have belowFirst : (first.preorder.map GroupMembers.strId).Nodup :=
            nodup_map_preorder_of_mem distinct (by simp [children])
          have inside : ∀ grp ∈ found.children,
              grp.label.strId ∈ erasedBelow rt depth found r := by
            intro grp member
            exact all _ (List.mem_flatMap.mpr ⟨grp, member, grp.label_mem_preorder⟩)
          have firstErased := inside first (by simp [children])
          have secondErased := inside second (by simp [children])
          -- the ids below the first, the second and the other sub-groups are apart
          have parts := distinct
          rw [descendants, children, List.flatMap_cons, List.flatMap_cons, List.map_append,
            List.map_append, List.nodup_append, List.nodup_append] at parts
          obtain ⟨_, ⟨_, _, secondApart⟩, firstApart⟩ := parts
          have firstId : first.label.strId ∈ first.preorder.map GroupMembers.strId :=
            List.mem_map_of_mem first.label_mem_preorder
          have secondId : second.label.strId ∈ second.preorder.map GroupMembers.strId :=
            List.mem_map_of_mem second.label_mem_preorder
          have notInFirst : second.label.strId ∉ erasedWithin rt depth first.label.strId
              (withoutStores found) r := by
            intro erased
            exact firstApart _ (mem_erasedWithin rt depth _ _ _ _ _ _ _ _ opened split
              belowFirst erased) _ (List.mem_append_left _ secondId) rfl
          have read : (withoutStores found).children[0]? = some first := by
            rw [withoutStores_children, children]
            rfl
          rw [erasedBelow, children, List.length_cons, erasedEach, read]
            at firstErased secondErased
          simp only at firstErased secondErased
          rcases call : deleteGroupWithin rt depth first.label.strId (withoutStores found) r
            with ⟨answer, next, r'⟩
          rw [call] at firstErased secondErased
          cases answer with
          | threw => exact notInFirst (by simpa using secondErased)
          | undefined => exact notInFirst (by simpa using secondErased)
          | value ok =>
              obtain ⟨rest, rfl, isTrue, sameId, ids', opened'⟩ :=
                deleteGroupWithin_next opened split call
              have later : ∀ x, _ → _ := fun x =>
                @mem_erasedEach_later rt depth (withoutStores found) first [] _ children
                  distinct rest sameId _ _ opened' (second :: others).length x
              cases ok with
              | true =>
                  -- the second sub-group moved to the position that was just read
                  rcases List.mem_append.mp secondErased with here | later'
                  · exact notInFirst here
                  · obtain ⟨grp, member, isId⟩ := later _ later'
                    rw [if_pos (isTrue.mpr rfl)] at member
                    exact secondApart _ secondId _
                      (List.mem_map.mpr (by
                        obtain ⟨other, present, same⟩ := List.mem_map.mp isId
                        exact ⟨other, List.mem_flatMap.mpr ⟨grp, member, present⟩, same⟩))
                      rfl
              | false =>
                  -- the first sub-group was not erased and is not read again
                  rcases List.mem_append.mp firstErased with here | later'
                  · have returned := returns_true_of_erased opened split belowFirst here
                    rw [call] at returned
                    cases returned
                  · obtain ⟨grp, member, isId⟩ := later _ later'
                    rw [if_neg (by simp [isTrue])] at member
                    apply firstApart _ firstId _ _ rfl
                    obtain ⟨other, present, same⟩ := List.mem_map.mp isId
                    rw [← List.map_append, ← List.flatMap_cons, ← same]
                    exact List.mem_map_of_mem (List.mem_flatMap.mpr ⟨grp, member, present⟩)

end Loops

/-! ## Chains of groups -/

end Registers

/-- The directory of a group is at or above a path. -/
def GroupMembers.TakesAway (grp : GroupMembers) (p : Path) : Prop :=
  grp.strPath ≠ [] ∧ grp.strPath <+: p

/-- No directory of some groups, each below the one before it, is in the way of their
removal from the deepest upwards: one that refuses to be removed went away with the
directory of a deeper group. -/
def Removable (refusals : Refusals) (disk : Disk) (groups : List GroupMembers) : Prop :=
  ∀ grp deeper, grp :: deeper <:+ groups → refusals.failsRemoveAll grp.strPath = true →
    disk.isDirectory grp.strPath = true → ∃ below ∈ deeper, below.TakesAway grp.strPath

theorem removable_nil (refusals : Refusals) (disk : Disk) : Removable refusals disk [] := by
  intro grp deeper suffix
  simp at suffix

theorem removable_cons_iff {refusals : Refusals} {disk : Disk} {grp : GroupMembers}
    {deeper : List GroupMembers} :
    Removable refusals disk (grp :: deeper) ↔
      Removable refusals disk deeper ∧
        (refusals.failsRemoveAll grp.strPath = true →
          disk.isDirectory grp.strPath = true →
          ∃ below ∈ deeper, below.TakesAway grp.strPath) := by
  constructor
  · intro removable
    refine ⟨?_, removable grp deeper (List.suffix_refl _)⟩
    intro other others suffix
    exact removable other others (suffix.trans (List.suffix_cons grp deeper))
  · rintro ⟨rest, here⟩ other others suffix
    rcases List.suffix_cons_iff.mp suffix with same | inRest
    · cases same
      exact here
    · exact rest other others inRest

/-- No group of the subtree has two sub-groups and, where there are sub-groups at all,
every store of the subtree can be closed and no directory below is in the way. -/
structure Deletable (rt : Runtime) (r : Registers) (found : CQuestionGroupParam) : Prop where
  chain : IsChain found
  free : found.children ≠ [] → ∃ closedDisk,
    closeAll rt (stores found) r.disk = (true, [], closedDisk) ∧
    Removable r.refusals closedDisk found.descendants

/-- Groups were erased from the deepest upwards: their ids are recorded, and their
directories are gone. -/
structure Cleared (groups : List GroupMembers) (disk : Disk) (erased : List String)
    (r r' : Registers) : Prop where
  erased : erased = (groups.map GroupMembers.strId).reverse
  directory : ∀ p, r'.disk.isDirectory p = true ↔
    disk.isDirectory p = true ∧ ∀ grp ∈ groups, ¬ grp.TakesAway p
  refusals : r'.refusals = r.refusals

theorem isDirectory_removeTree {disk : Disk} {p q : Path} :
    (disk.removeTree p).isDirectory q = true ↔ ¬ p <+: q ∧ disk.isDirectory q = true := by
  rw [FileSystem.isDirectory_iff, FileSystem.isDirectory_iff, FileSystem.node_removeTree]
  by_cases below : p <+: q <;> simp [below]

namespace Registers

variable {rt : Runtime} {depth : Nat}

/-- A loop over one sub-group is one call. -/
theorem loopBelow_single {found child : CQuestionGroupParam} {r : Registers}
    (children : found.children = [child]) :
    loopBelow rt depth found r =
      match deleteGroupWithin rt depth child.label.strId (withoutStores found) r with
      | (.value _, next, r') => (.value (), next, r')
      | (.threw, next, r') => (.threw, next, r')
      | (.undefined, next, r') => (.undefined, next, r') := by
  have read : (withoutStores found).children[0]? = some child := by
    rw [withoutStores_children, children]
    rfl
  rw [loopBelow, children, List.length_singleton, deleteEach, read]
  rfl

theorem erasedBelow_single {found child : CQuestionGroupParam} {r : Registers}
    (children : found.children = [child]) :
    erasedBelow rt depth found r =
      erasedWithin rt depth child.label.strId (withoutStores found) r := by
  have read : (withoutStores found).children[0]? = some child := by
    rw [withoutStores_children, children]
    rfl
  rw [erasedBelow, children, List.length_singleton, erasedEach, read]
  simp only
  split <;> exact List.append_nil _

/-- A call whose loop has cleared the groups below answers true exactly when the
directory of its own group is not in the way, and then this group is cleared too. -/
theorem call_cleared {id : String} {qgp found found' : CQuestionGroupParam}
    {before after : List CQuestionGroupParam} {r r' : Registers}
    {ids : CQuestionAnswerImpl} {disk closedDisk : Disk}
    (opened : r.ptrIds = some ids)
    (split : firstChild id qgp = some (before, found, after))
    (closed : closeAll rt found.label.vecQuestions r.disk = (true, [], disk))
    (loop : loopBelow rt depth found { r.unregister id ids with disk := disk } =
      (.value (), found', r'))
    (cleared : Cleared found.descendants closedDisk
      (erasedBelow rt depth found { r.unregister id ids with disk := disk }) r r') :
    (∃ ok, (deleteGroupWithin rt (depth + 1) id qgp r).1 = .value ok) ∧
    ((deleteGroupWithin rt (depth + 1) id qgp r).1 = .value true ↔
      (r.refusals.failsRemoveAll found.label.strPath = true →
        closedDisk.isDirectory found.label.strPath = true →
        ∃ below ∈ found.descendants, below.TakesAway found.label.strPath)) ∧
    ((deleteGroupWithin rt (depth + 1) id qgp r).1 = .value true →
      Cleared found.preorder closedDisk (erasedWithin rt (depth + 1) id qgp r) r
        (deleteGroupWithin rt (depth + 1) id qgp r).2.2) := by
  have way := deleteGroupWithin_result rt depth id qgp opened
  have log : erasedWithin rt (depth + 1) id qgp r = _ :=
    erasedWithin_of_closed opened split closed
  have samePath : found'.label.strPath = found.label.strPath := by
    have frame := deleteEach_frame rt depth found.children.length 0 (withoutStores found)
      (show ({ r.unregister id ids with disk := disk } : Registers).ptrIds = some _ from rfl)
    have label := frame.label
    rw [loopBelow] at loop
    rw [loop] at label
    rw [label]
    rfl
  have sameLoop : ∀ {stores : List CQuestionAnswerImpl} {disk' : Disk} {result},
      closeAll rt found.label.vecQuestions r.disk = (true, stores, disk') →
      deleteEach (deleteGroupWithin rt depth) found.children.length 0 (withoutStores found)
        { r.unregister id ids with disk := disk' } = result →
      result = (.value (), found', r') := by
    intro stores disk' result closed' loop'
    rw [closed] at closed'
    cases closed'
    rw [← loop']
    exact loop
  generalize deleteGroupWithin rt (depth + 1) id qgp r = result at way log ⊢
  cases way with
  | missing message absent =>
      rw [split] at absent
      cases absent
  | closeFails split' fails =>
      rw [split] at split'
      cases split'
      rw [closed] at fails
      cases fails
  | stopsInside split' closed' loop' stops =>
      rw [split] at split'
      cases split'
      have same := sameLoop closed' loop'
      cases same
      exact absurd rfl stops
  | refused message split' closed' loop' directory fails =>
      rw [split] at split'
      cases split'
      have same := sameLoop closed' loop'
      cases same
      rw [samePath] at directory fails
      rw [cleared.refusals] at fails
      obtain ⟨stands, notBelow⟩ := (cleared.directory _).mp directory
      refine ⟨⟨false, rfl⟩, ?_, fun true => by cases true⟩
      apply iff_of_false (by simp)
      intro free
      obtain ⟨below, member, above⟩ := free fails stands
      exact notBelow below member above
  | removed split' closed' loop' directory allowed =>
      rw [split] at split'
      cases split'
      have same := sameLoop closed' loop'
      cases same
      rw [samePath] at directory allowed ⊢
      rw [cleared.refusals] at allowed
      refine ⟨⟨true, rfl⟩, iff_of_true rfl (by simp [allowed]), fun _ => ?_⟩
      refine ⟨?_, ?_, cleared.refusals⟩
      · rw [log, if_pos rfl, cleared.erased, preorder_eq_label_cons, List.map_cons,
          List.reverse_cons, (firstChild_eq_some split).2]
      · intro p
        have nonempty : found.label.strPath ≠ [] := by
          intro empty
          rw [empty, FileSystem.isDirectory_iff, FileSystem.node_nil] at directory
          cases directory
        rw [isDirectory_removeTree, cleared.directory, preorder_eq_label_cons,
          List.forall_mem_cons, GroupMembers.TakesAway]
        constructor
        · rintro ⟨outside, stands, notBelow⟩
          exact ⟨stands, fun above => outside above.2, notBelow⟩
        · rintro ⟨stands, outside, notBelow⟩
          exact ⟨fun above => outside ⟨nonempty, above⟩, stands, notBelow⟩
  | noDirectory split' closed' loop' notDirectory =>
      rw [split] at split'
      cases split'
      have same := sameLoop closed' loop'
      cases same
      rw [samePath] at notDirectory
      refine ⟨⟨true, rfl⟩, iff_of_true rfl ?_, fun _ => ?_⟩
      · intro _ stands
        by_contra notBelow
        push Not at notBelow
        rw [(cleared.directory _).mpr ⟨stands, notBelow⟩] at notDirectory
        cases notDirectory
      · refine ⟨?_, ?_, cleared.refusals⟩
        · rw [log, if_pos rfl, cleared.erased, preorder_eq_label_cons, List.map_cons,
            List.reverse_cons, (firstChild_eq_some split).2]
        · intro p
          rw [cleared.directory, preorder_eq_label_cons, List.forall_mem_cons]
          constructor
          · rintro ⟨stands, notBelow⟩
            refine ⟨stands, ?_, notBelow⟩
            rintro ⟨nonempty, above⟩
            rw [FileSystem.isDirectory_above nonempty above ((cleared.directory p).mpr
              ⟨stands, notBelow⟩)] at notDirectory
            cases notDirectory
          · rintro ⟨stands, _, notBelow⟩
            exact ⟨stands, notBelow⟩

/-- The loop over a chain of groups clears them when the stores can be closed and no
directory is in the way. -/
theorem loop_cleared {found : CQuestionGroupParam} (chain : IsChain found)
    {depth : Nat} (deep : found.height ≤ depth + 1)
    {r : Registers} {ids : CQuestionAnswerImpl} (opened : r.ptrIds = some ids)
    {closedDisk : Disk}
    (closed : closeAll rt (found.children.flatMap stores) r.disk = (true, [], closedDisk))
    (removable : Removable r.refusals closedDisk found.descendants) :
    ∃ found' r', loopBelow rt depth found r = (.value (), found', r') ∧
      Cleared found.descendants closedDisk (erasedBelow rt depth found r) r r' := by
  induction chain generalizing depth r ids with
  | leaf grp =>
      cases closed
      refine ⟨_, r, rfl, rfl, ?_, rfl⟩
      simp [descendants]
  | @link grp child below inductionHypothesis =>
      rw [height_node, heightAll, heightAll, Nat.max_zero] at deep
      obtain ⟨depth, rfl⟩ : ∃ less, depth = less + 1 := by
        obtain ⟨height, isHeight⟩ := exists_height child
        exact ⟨depth - 1, by omega⟩
      rw [children_node, List.flatMap_singleton, ← node_label_children child, stores_node,
        closeAll_append_eq_iff] at closed
      obtain ⟨disk, closedHere, closedBelow⟩ := closed
      have only : firstChild child.label.strId (withoutStores (.node grp [child])) =
          some ([], child, []) :=
        firstChild_of_distinct rfl (by simp)
      have descendantsEq : (RoseTree.node grp [child]).descendants = child.preorder := by
        simp [descendants]
      rw [descendantsEq, preorder_eq_label_cons, removable_cons_iff] at removable
      rw [descendantsEq]
      have shallow : child.height ≤ depth + 1 := by omega
      obtain ⟨found', r', loop, cleared⟩ := inductionHypothesis shallow
        (show ({ r.unregister child.label.strId ids with disk := disk } :
          Registers).ptrIds = some _ from rfl)
        closedBelow removable.1
      obtain ⟨_, isTrue, clears⟩ := call_cleared opened only closedHere loop
        ⟨cleared.erased, cleared.directory, cleared.refusals⟩
      have returned := isTrue.mpr removable.2
      have clearedHere := clears returned
      rw [erasedBelow_single rfl]
      rcases call : deleteGroupWithin rt (depth + 1) child.label.strId
          (withoutStores (.node grp [child])) r with ⟨answer, next, r''⟩
      rw [call] at returned clearedHere
      simp only at returned
      subst returned
      refine ⟨next, r'', ?_, clearedHere⟩
      rw [loopBelow_single rfl, call]

/-- A loop that erases the id of every group below runs over a chain of groups whose
stores can be closed and whose directories are not in the way. -/
theorem chain_of_erasedBelow {found : CQuestionGroupParam}
    {depth : Nat} (deep : found.height ≤ depth + 1)
    {r : Registers} {ids : CQuestionAnswerImpl} (opened : r.ptrIds = some ids)
    (distinct : (found.descendants.map GroupMembers.strId).Nodup)
    (all : ∀ grp ∈ found.descendants, grp.strId ∈ erasedBelow rt depth found r) :
    IsChain found ∧ ∃ closedDisk,
      closeAll rt (found.children.flatMap stores) r.disk = (true, [], closedDisk) ∧
      Removable r.refusals closedDisk found.descendants := by
  induction found using RoseTree.induction generalizing depth r ids with
  | node grp groups inductionHypothesis =>
      rcases single_of_erasedBelow opened distinct all with noChild | ⟨child, isChild⟩
      · rw [children_node] at noChild
        subst noChild
        exact ⟨.leaf grp, r.disk, rfl, removable_nil _ _⟩
      · rw [children_node] at isChild
        subst isChild
        rw [height_node, heightAll, heightAll, Nat.max_zero] at deep
        obtain ⟨depth, rfl⟩ : ∃ less, depth = less + 1 := by
          obtain ⟨height, isHeight⟩ := exists_height child
          exact ⟨depth - 1, by omega⟩
        have shallow : child.height ≤ depth + 1 := by omega
        have descendantsEq : (RoseTree.node grp [child]).descendants = child.preorder := by
          simp [descendants]
        rw [descendantsEq] at distinct all
        have only : firstChild child.label.strId (withoutStores (.node grp [child])) =
            some ([], child, []) :=
          firstChild_of_distinct rfl (by simp)
        simp only [erasedBelow_single (show (RoseTree.node grp [child]).children = [child]
          from rfl)] at all
        have ownErased := all _ child.label_mem_preorder
        have returned := returns_true_of_erased opened only distinct ownErased
        obtain ⟨disk, closedHere⟩ := closes_of_mem_erasedWithin opened only ownErased
        have opened' : ({ r.unregister child.label.strId ids with disk := disk } :
            Registers).ptrIds = some (ids.deleteGroup child.label.strId).2 := rfl
        rw [erasedWithin_of_closed opened only closedHere, if_pos returned] at all
        rw [preorder_eq_label_cons, List.map_cons, List.nodup_cons] at distinct
        have allBelow : ∀ other ∈ child.descendants, other.strId ∈ erasedBelow rt depth child
            { r.unregister child.label.strId ids with disk := disk } := by
          intro other member
          have inside : other ∈ child.preorder := mem_preorder_of_mem_descendants member
          rcases List.mem_append.mp (all other inside) with inLoop | own
          · exact inLoop
          · rw [List.mem_singleton] at own
            exact absurd (own ▸ List.mem_map_of_mem member) distinct.1
        obtain ⟨chain, closedDisk, closedBelow, removable⟩ :=
          inductionHypothesis child List.mem_cons_self shallow opened' distinct.2 allBelow
        obtain ⟨found', r', loop, cleared⟩ :=
          loop_cleared chain shallow opened' closedBelow removable
        obtain ⟨_, isTrue, _⟩ := call_cleared opened only closedHere loop
          ⟨cleared.erased, cleared.directory, cleared.refusals⟩
        refine ⟨.link grp chain, closedDisk, ?_, ?_⟩
        · rw [children_node, List.flatMap_singleton, ← node_label_children child, stores_node,
            closeAll_append_eq_iff]
          exact ⟨disk, closedHere, closedBelow⟩
        · rw [descendantsEq, preorder_eq_label_cons, removable_cons_iff]
          exact ⟨removable, isTrue.mp returned⟩

/-- A call whose loop erases every group below meets a deletable group. -/
theorem deletable_of_erased {id : String} {qgp found : CQuestionGroupParam}
    {before after : List CQuestionGroupParam} {r : Registers} {ids : CQuestionAnswerImpl}
    (opened : r.ptrIds = some ids)
    (split : firstChild id qgp = some (before, found, after))
    (distinct : (found.preorder.map GroupMembers.strId).Nodup)
    (all : ∀ grp ∈ found.descendants, grp.strId ∈ erasedIds rt id qgp r) :
    Deletable rt r found := by
  cases children : found.children with
  | nil =>
      rw [← node_label_children found, children]
      exact ⟨.leaf _, fun hasChild => absurd rfl hasChild⟩
  | cons child others =>
      obtain ⟨depth, height⟩ := exists_height qgp
      rw [erasedIds, height] at all
      have inside : child.label ∈ found.descendants :=
        List.mem_flatMap.mpr ⟨child, by simp [children], child.label_mem_preorder⟩
      obtain ⟨disk, closed⟩ := closes_of_mem_erasedWithin opened split (all _ inside)
      have opened' : ({ r.unregister id ids with disk := disk } : Registers).ptrIds =
          some (ids.deleteGroup id).2 := rfl
      rw [erasedWithin_of_closed opened split closed] at all
      have isFound := (firstChild_eq_some split).2
      rw [preorder_eq_label_cons, List.map_cons, List.nodup_cons] at distinct
      have enough := Nat.le_succ_of_le (height_le_of_firstChild split height)
      obtain ⟨chain, closedDisk, closedBelow, removable⟩ :=
        chain_of_erasedBelow enough opened' distinct.2 (by
          intro grp member
          rcases List.mem_append.mp (all grp member) with inLoop | own
          · exact inLoop
          · split at own
            · rw [List.mem_singleton, ← isFound] at own
              exact absurd (own ▸ List.mem_map_of_mem member) distinct.1
            · cases own)
      refine ⟨chain, fun _ => ⟨closedDisk, ?_, removable⟩⟩
      rw [← node_label_children found, stores_node, closeAll_append_eq_iff]
      exact ⟨disk, closed, closedBelow⟩

/-- A call for a deletable group erases every group below once, and takes the ids of all
groups of the subtree out of the registry. -/
theorem erased_of_deletable {id : String} {qgp found : CQuestionGroupParam}
    {before after : List CQuestionGroupParam} {r : Registers} {ids : CQuestionAnswerImpl}
    (opened : r.ptrIds = some ids)
    (split : firstChild id qgp = some (before, found, after))
    (distinct : (found.preorder.map GroupMembers.strId).Nodup)
    (deletable : Deletable rt r found) :
    (∀ grp ∈ found.descendants, (erasedIds rt id qgp r).count grp.strId = 1) ∧
      ∃ erased, Erases erased r (r.deleteGroup rt id qgp).2.2 ∧
        ∀ id, id ∈ erased ↔ ∃ grp ∈ found.preorder, grp.strId = id := by
  have isFound := (firstChild_eq_some split).2
  cases children : found.children with
  | nil =>
      have noneBelow : found.descendants = [] := by rw [descendants, children]; rfl
      refine ⟨by simp [noneBelow], ?_⟩
      obtain ⟨rest, _, frame⟩ := deleteGroup_frame rt opened split
      obtain ⟨erased, erases, fromBelow⟩ := frame.erased
      have nothing : erased = [] := by
        rw [List.eq_nil_iff_forall_not_mem]
        intro other member
        obtain ⟨grp, inside, _⟩ := fromBelow other member
        rw [noneBelow] at inside
        cases inside
      rw [nothing] at erases
      refine ⟨[id], erases, ?_⟩
      intro other
      rw [preorder_eq_label_cons, noneBelow, List.mem_singleton, ← isFound]
      simp [eq_comm]
  | cons child others =>
      obtain ⟨closedDisk, closed, removable⟩ := deletable.free (by simp [children])
      rw [← node_label_children found, stores_node, closeAll_append_eq_iff] at closed
      obtain ⟨disk, closedHere, closedBelow⟩ := closed
      obtain ⟨depth, height⟩ := exists_height qgp
      have opened' : ({ r.unregister id ids with disk := disk } : Registers).ptrIds =
          some (ids.deleteGroup id).2 := rfl
      have enough := Nat.le_succ_of_le (height_le_of_firstChild split height)
      obtain ⟨found', r', loop, cleared⟩ :=
        loop_cleared deletable.chain enough opened' closedBelow removable
      obtain ⟨⟨ok, returns⟩, _, _⟩ := call_cleared opened split closedHere loop
        ⟨cleared.erased, cleared.directory, cleared.refusals⟩
      constructor
      · intro grp member
        rw [erasedIds, height, erasedWithin_of_closed opened split closedHere, cleared.erased,
          List.count_append, List.count_reverse]
        rw [preorder_eq_label_cons, List.map_cons, List.nodup_cons] at distinct
        rw [List.count_eq_one_of_mem distinct.2 (List.mem_map_of_mem member)]
        split
        · rw [List.count_eq_zero_of_not_mem]
          rw [List.mem_singleton, ← isFound]
          intro own
          exact distinct.1 (own ▸ List.mem_map_of_mem member)
        · rfl
      · have returns' : (r.deleteGroup rt id qgp).1 = .value ok := by
          rw [deleteGroup, height]
          exact returns
        refine ⟨_, deleteGroup_erases rt opened split distinct returns', ?_⟩
        intro other
        rw [List.mem_map]

end Registers

/-! ## Complete deletions -/

namespace CQuestionBankImpl

/-- The name that the map of ids has for an id. -/
def mappedName (b : CQuestionBankImpl) (id : String) : Option String :=
  (KeyedList.find Prod.fst id b.regs.mapIds).map Prod.snd

/-- The name that the store of ids has for an id. -/
def recordedName (b : CQuestionBankImpl) (id : String) : Option String :=
  b.regs.ptrIds.bind fun ids =>
    (KeyedList.find QuestionAnswerGroup.id id ids.lstGroups).map QuestionAnswerGroup.group

/-- The groups of a bank have pairwise distinct ids, in the tree, whose root has the empty
id, and in the open store of ids. -/
structure DistinctIds (b : CQuestionBankImpl) : Prop where
  root : b.clsQuestionBank.label.strId = ""
  groups : (b.clsQuestionBank.preorder.map GroupMembers.strId).Nodup
  records : ∃ ids, b.regs.ptrIds = some ids ∧ ids.strPath ≠ [] ∧
    (ids.lstGroups.map QuestionAnswerGroup.id).Nodup

variable {b : CQuestionBankImpl} {c : Context GroupMembers} {parent : GroupMembers}
  {before after : List CQuestionGroupParam} {found : CQuestionGroupParam}

/-- Deleting one group of a bank is complete: no loop reads outside its vector, every
group below is erased once, no id of the subtree is left in the registry, and every other
id keeps its name in both copies. -/
structure CompleteDeletion (rt : Runtime) (b : CQuestionBankImpl) (parent : GroupMembers)
    (groups : List CQuestionGroupParam) (found : CQuestionGroupParam) : Prop where
  inBounds : (b.deleteGroup rt parent.strId found.label.strId).1 ≠ .undefined
  once : ∀ grp ∈ found.descendants,
    (Registers.erasedIds rt found.label.strId (.node parent groups) b.regs).count
      grp.strId = 1
  gone : ∀ grp ∈ found.preorder,
    (b.deleteGroup rt parent.strId found.label.strId).2.mappedName grp.strId = none ∧
    (b.deleteGroup rt parent.strId found.label.strId).2.recordedName grp.strId = none
  kept : ∀ id, (∀ grp ∈ found.preorder, grp.strId ≠ id) →
    (b.deleteGroup rt parent.strId found.label.strId).2.mappedName id = b.mappedName id ∧
    (b.deleteGroup rt parent.strId found.label.strId).2.recordedName id =
      b.recordedName id

/-- What taking ids out of the registry leaves of the names. -/
theorem names_of_erases {b' : CQuestionBankImpl} {erased : List String}
    (erases : Erases erased b.regs b'.regs)
    (distinct : DistinctIds b)
    (id : String) :
    b'.mappedName id = (if id ∈ erased then none else b.mappedName id) ∧
      b'.recordedName id = (if id ∈ erased then none else b.recordedName id) := by
  obtain ⟨ids, opened, path, records⟩ := distinct.records
  constructor
  · have found := @KeyedList.find_filter _ _ _ Prod.fst (fun key => decide (key ∉ erased)) id
      b.regs.mapIds
    rw [mappedName, erases.mapIds, IdMap.foldl_erase, found]
    by_cases member : id ∈ erased <;> simp [member, mappedName]
  · obtain ⟨_, _, left⟩ := CQuestionAnswerImpl.foldl_deleteGroup path records erased
    have found := @KeyedList.find_filter _ _ _ QuestionAnswerGroup.id
      (fun key => decide (key ∉ erased)) id ids.lstGroups
    have keys := records.sublist
      ((List.filter_sublist (p := fun qag => decide (qag.id ∉ erased))).map _)
    rw [recordedName, erases.ptrIds, opened, recordedName, opened]
    simp only [Option.map_some, Option.bind_some]
    rw [← KeyedList.find_perm keys left.symm, found]
    by_cases member : id ∈ erased <;> simp [member]

/-- The parent of a group is selected by its id. -/
theorem DistinctIds.selects (distinct : DistinctIds b) {groups : List CQuestionGroupParam}
    (tree : b.clsQuestionBank = plug c (.node parent groups)) :
    Selects parent.strId c parent := by
  have ids := distinct.groups
  have root := distinct.root
  have below := ids
  rw [preorder_eq_label_cons, List.map_cons, List.nodup_cons] at below
  by_cases hasId : parent.strId = ""
  · cases c with
    | nil =>
        rw [hasId]
        exact selects_root parent
    | cons frame c =>
        exfalso
        apply below.1
        have inside : parent ∈ b.clsQuestionBank.descendants := by
          rw [tree, plug_cons, descendants, children_node]
          refine List.mem_flatMap.mpr ⟨plug c (.node parent groups), by simp, ?_⟩
          rw [preorder_plug]
          simp
        rw [root, ← hasId]
        exact List.mem_map_of_mem inside
  · apply selects_of_unique hasId
    rw [← tree]
    exact uniqueIds_of_nodup root below.2 parent (by rw [tree, preorder_plug]; simp) hasId

/-- The private call that deleting a group comes to. -/
theorem deleteGroup_of_selects (rt : Runtime) {groups : List CQuestionGroupParam}
    (tree : b.clsQuestionBank = plug c (.node parent groups))
    (selects : Selects parent.strId c parent) (id : String) :
    (b.deleteGroup rt parent.strId id).1 =
        (b.regs.deleteGroup rt id (.node parent groups)).1 ∧
      (b.deleteGroup rt parent.strId id).2.regs =
        (b.regs.deleteGroup rt id (.node parent groups)).2.2 := by
  have acted := Registers.ctrlGroup_of_selects rt selects groups id "" .delete b.regs
  rw [Registers.ctrlHere] at acted
  rw [CQuestionBankImpl.deleteGroup, ctrlRoot, tree, acted]
  exact ⟨rfl, rfl⟩

/-- Deleting a group is complete exactly when no group of its subtree has two sub-groups
and, where it has sub-groups at all, every store of the subtree can be closed and no
directory below is in the way. -/
theorem deleteGroup_complete_iff (rt : Runtime) (distinct : DistinctIds b)
    (tree : b.clsQuestionBank = plug c (.node parent (before ++ found :: after))) :
    CompleteDeletion rt b parent (before ++ found :: after) found ↔
      Deletable rt b.regs found := by
  obtain ⟨ids, opened, path, records⟩ := distinct.records
  have selects := distinct.selects tree
  have call := deleteGroup_of_selects rt tree selects found.label.strId
  have idsHere : ((RoseTree.node parent (before ++ found :: after)).preorder.map
      GroupMembers.strId).Nodup := by
    have whole := distinct.groups
    rw [tree, preorder_plug, List.map_append, List.map_append] at whole
    exact (List.nodup_append.mp (List.nodup_append.mp whole).1).2.1
  rw [preorder_eq_label_cons, List.map_cons, List.nodup_cons] at idsHere
  have distinctFound : (found.preorder.map GroupMembers.strId).Nodup :=
    nodup_map_preorder_of_mem idsHere.2 (by simp)
  have split : Registers.firstChild found.label.strId
      (.node parent (before ++ found :: after)) = some (before, found, after) :=
    Registers.firstChild_of_distinct rfl (Registers.nodup_strId_children idsHere.2)
  constructor
  · intro complete
    apply Registers.deletable_of_erased opened split distinctFound
    intro grp member
    apply List.count_pos_iff.mp
    rw [complete.once grp member]
    exact Nat.one_pos
  · intro deletable
    obtain ⟨once, erased, erases, inSubtree⟩ :=
      Registers.erased_of_deletable opened split distinctFound deletable
    rw [← call.2] at erases
    have names := names_of_erases erases distinct
    refine ⟨?_, once, ?_, ?_⟩
    · rw [call.1]
      exact Registers.deleteGroup_defined rt opened split deletable.chain
    · intro grp member
      have taken : grp.strId ∈ erased := (inSubtree _).mpr ⟨grp, member, rfl⟩
      rw [(names _).1, (names _).2, if_pos taken, if_pos taken]
      exact ⟨rfl, rfl⟩
    · intro id outside
      have left : id ∉ erased := by
        intro taken
        obtain ⟨grp, member, isId⟩ := (inSubtree id).mp taken
        exact outside grp member isId
      rw [(names id).1, (names id).2, if_neg left, if_neg left]
      exact ⟨rfl, rfl⟩

theorem deleteGroup_complete_iff_agreeingBank :
    CompleteDeletion .wire agreeingBank
      { strName := "root", strPath := ["root"] }
      ([] ++ .node { strId := "w", strName := "Words", strPath := ["root", "Words"] }
        [.node { strId := "v", strName := "Verbs", strPath := ["root", "Words", "Verbs"] } []]
          :: [])
      (.node { strId := "w", strName := "Words", strPath := ["root", "Words"] }
        [.node { strId := "v", strName := "Verbs", strPath := ["root", "Words", "Verbs"] }
          []]) := by
  have distinct : DistinctIds agreeingBank :=
    ⟨by decide +kernel, by decide +kernel,
      { strPath := ["root", "ids.dat"],
        lstGroups := [{ id := "w", group := "Words" }, { id := "v", group := "Verbs" }] },
      by decide +kernel, by decide, by decide⟩
  apply (@deleteGroup_complete_iff agreeingBank [] _ [] [] _ .wire distinct
    (by decide +kernel)).mpr
  refine ⟨.link _ (.leaf _), fun _ => ⟨agreeingBank.regs.disk, rfl, ?_⟩⟩
  have free : agreeingBank.regs.refusals.failsRemoveAll ["root", "Words", "Verbs"] = false := by
    decide +kernel
  exact removable_cons_iff.mpr
    ⟨removable_nil _ _, fun refused => absurd (free.symm.trans refused) (by decide)⟩

/-- Of two sub-groups the loop deletes the first, after which the vector has no element
at the second position, and the id of the other one stays registered. -/
theorem two_subgroups_incomplete :
    let b := (agreeingBank.addGroup .wire "w" "Nouns" "n").2
    let verbs : CQuestionGroupParam :=
      .node { strId := "v", strName := "Verbs", strPath := ["root", "Words", "Verbs"] } []
    let nouns : CQuestionGroupParam :=
      .node { strId := "n", strName := "Nouns", strPath := ["root", "Words", "Nouns"] } []
    let words : CQuestionGroupParam :=
      .node { strId := "w", strName := "Words", strPath := ["root", "Words"] } [verbs, nouns]
    let root : GroupMembers := { strName := "root", strPath := ["root"] }
    DistinctIds b ∧ b.clsQuestionBank = .node root [words] ∧
      (b.deleteGroup .wire "" "w").1 = .undefined ∧
      (b.deleteGroup .wire "" "w").2.mappedName "n" = some "Nouns" ∧
      ¬ CompleteDeletion .wire b root [words] words := by
  intro b verbs nouns words root
  have runs : b.clsQuestionBank = .node root [words] ∧
      (b.deleteGroup .wire "" "w").1 = .undefined ∧
      (b.deleteGroup .wire "" "w").2.mappedName "n" = some "Nouns" := by
    decide +kernel
  refine ⟨⟨by decide +kernel, by decide +kernel,
      { strPath := ["root", "ids.dat"],
        lstGroups := [{ id := "w", group := "Words" }, { id := "v", group := "Verbs" },
          { id := "n", group := "Nouns" }] },
      by decide +kernel, by decide, by decide⟩, runs.1, runs.2.1, runs.2.2, ?_⟩
  intro complete
  exact complete.inBounds runs.2.1

end CQuestionBankImpl

end Notebook
