import Notebook.Groups.Control
import Notebook.Store.Closing

/-!
# Deleting a group

`deleteGroup` takes the id out of both copies of the registry, closes the stores of
the group, deletes its sub-groups in a loop over a vector that shrinks meanwhile,
removes the directory at the cached path and only then erases the group. The ways a
call can go are listed once; what every call keeps, and what a call that returns
does to the registry, follow by induction on the depth.
-/

namespace Notebook

open RoseTree

namespace Registers

/-- The registers after an id was taken out of both copies of the registry. -/
def unregister (id : String) (ids : CQuestionAnswerImpl) (r : Registers) : Registers :=
  { r with mapIds := r.mapIds.erase id, ptrIds := some (ids.deleteGroup id).2 }

/-- The first child with an id. -/
def firstChild (id : String) (qgp : CQuestionGroupParam) :
    Option (List CQuestionGroupParam × CQuestionGroupParam × List CQuestionGroupParam) :=
  splitFirst (fun grp => grp.label.strId = id) qgp.children

/-- How a call ends whose loop did not return. -/
def stopped : Outcome Unit → Outcome Bool
  | .threw => .threw
  | .value _ => .undefined
  | .undefined => .undefined

/-- A group whose stores were closed. -/
def withoutStores (qgp : CQuestionGroupParam) : CQuestionGroupParam :=
  .node { qgp.label with vecQuestions := [] } qgp.children

@[simp] theorem withoutStores_children (qgp : CQuestionGroupParam) :
    (withoutStores qgp).children = qgp.children := rfl

/-- The ways a call of `deleteGroup` goes. -/
inductive DeleteResult (rt : Runtime) (depth : Nat) (id : String)
    (qgp : CQuestionGroupParam) (ids : CQuestionAnswerImpl) (r : Registers) :
    Outcome Bool × CQuestionGroupParam × Registers → Prop
  | missing (message : Bytes)
      (absent : firstChild id qgp = none) :
      DeleteResult rt depth id qgp ids r
        (.value false, qgp, { unregister id ids r with strErrorMsg := message })
  | closeFails {before after : List CQuestionGroupParam} {found : CQuestionGroupParam}
      {stores : List CQuestionAnswerImpl} {disk : Disk}
      (split : firstChild id qgp = some (before, found, after))
      (fails : closeAll rt found.label.vecQuestions r.disk = (false, stores, disk)) :
      DeleteResult rt depth id qgp ids r
        (.threw,
          .node qgp.label (before ++
            .node { found.label with vecQuestions := stores } found.children :: after),
          { unregister id ids r with disk := disk })
  | stopsInside {before after : List CQuestionGroupParam}
      {found found' : CQuestionGroupParam} {stores : List CQuestionAnswerImpl}
      {disk : Disk} {r' : Registers} {inner : Outcome Unit}
      (split : firstChild id qgp = some (before, found, after))
      (closed : closeAll rt found.label.vecQuestions r.disk = (true, stores, disk))
      (loop : deleteEach (deleteGroupWithin rt depth) found.children.length 0
        (withoutStores found) { unregister id ids r with disk := disk } =
          (inner, found', r'))
      (stops : inner ≠ .value ()) :
      DeleteResult rt depth id qgp ids r
        (stopped inner, .node qgp.label (before ++ found' :: after), r')
  | refused {before after : List CQuestionGroupParam}
      {found found' : CQuestionGroupParam} {stores : List CQuestionAnswerImpl}
      {disk : Disk} {r' : Registers}
      (message : Bytes)
      (split : firstChild id qgp = some (before, found, after))
      (closed : closeAll rt found.label.vecQuestions r.disk = (true, stores, disk))
      (loop : deleteEach (deleteGroupWithin rt depth) found.children.length 0
        (withoutStores found) { unregister id ids r with disk := disk } =
          (.value (), found', r'))
      (directory : r'.disk.isDirectory found'.label.strPath = true)
      (fails : r'.refusals.failsRemoveAll found'.label.strPath = true) :
      DeleteResult rt depth id qgp ids r
        (.value false, .node qgp.label (before ++ found' :: after),
          { r' with strErrorMsg := message })
  | removed {before after : List CQuestionGroupParam}
      {found found' : CQuestionGroupParam} {stores : List CQuestionAnswerImpl}
      {disk : Disk} {r' : Registers}
      (split : firstChild id qgp = some (before, found, after))
      (closed : closeAll rt found.label.vecQuestions r.disk = (true, stores, disk))
      (loop : deleteEach (deleteGroupWithin rt depth) found.children.length 0
        (withoutStores found) { unregister id ids r with disk := disk } =
          (.value (), found', r'))
      (directory : r'.disk.isDirectory found'.label.strPath = true)
      (allowed : r'.refusals.failsRemoveAll found'.label.strPath = false) :
      DeleteResult rt depth id qgp ids r
        (.value true, .node qgp.label (before ++ after),
          { r' with disk := r'.disk.removeTree found'.label.strPath })
  | noDirectory {before after : List CQuestionGroupParam}
      {found found' : CQuestionGroupParam} {stores : List CQuestionAnswerImpl}
      {disk : Disk} {r' : Registers}
      (split : firstChild id qgp = some (before, found, after))
      (closed : closeAll rt found.label.vecQuestions r.disk = (true, stores, disk))
      (loop : deleteEach (deleteGroupWithin rt depth) found.children.length 0
        (withoutStores found) { unregister id ids r with disk := disk } =
          (.value (), found', r'))
      (notDirectory : r'.disk.isDirectory found'.label.strPath = false) :
      DeleteResult rt depth id qgp ids r
        (.value true, .node qgp.label (before ++ after), r')

theorem isPresent_of_isDirectory {disk : Disk} {path : Path}
    (directory : disk.isDirectory path = true) : disk.isPresent path = true := by
  rw [FileSystem.isPresent_iff, FileSystem.isDirectory_iff.mp directory]
  simp

/-- Every call goes one of these ways. -/
theorem deleteGroupWithin_result (rt : Runtime) (depth : Nat) (id : String)
    (qgp : CQuestionGroupParam) {ids : CQuestionAnswerImpl} {r : Registers}
    (opened : r.ptrIds = some ids) :
    DeleteResult rt depth id qgp ids r (deleteGroupWithin rt (depth + 1) id qgp r) := by
  rw [deleteGroupWithin]
  simp only [opened]
  cases split : firstChild id qgp with
  | none =>
      rw [firstChild] at split
      simp only [split]
      exact .missing _ split
  | some parts =>
      obtain ⟨before, found, after⟩ := parts
      have asSplit := split
      rw [firstChild] at asSplit
      simp only [asSplit]
      rcases closed : closeAll rt found.label.vecQuestions r.disk with ⟨ok, stores, disk⟩
      cases ok with
      | false => exact .closeFails split closed
      | true =>
          rcases loop : deleteEach (deleteGroupWithin rt depth) found.children.length 0
              (withoutStores found) { unregister id ids r with disk := disk }
            with ⟨inner, found', r'⟩
          have asLoop := loop
          rw [withoutStores, unregister] at asLoop
          simp only [children_node, asLoop]
          cases inner with
          | threw => exact .stopsInside split closed loop (by simp)
          | undefined => exact .stopsInside split closed loop (by simp)
          | value =>
              simp only
              cases directory : r'.disk.isDirectory found'.label.strPath with
              | false =>
                  rw [if_neg (by simp)]
                  exact .noDirectory split closed loop directory
              | true =>
                  rw [if_pos ⟨isPresent_of_isDirectory directory, rfl⟩, Refusals.removeAll]
                  cases fails : r'.refusals.failsRemoveAll found'.label.strPath with
                  | true => exact .refused _ split closed loop directory fails
                  | false => exact .removed split closed loop directory fails

end Registers

/-! ## What every call keeps -/

/-- A group in the same place as another one, with at most its stores. -/
structure GroupMembers.Covers (grp grp' : GroupMembers) : Prop where
  identity : grp'.identity = grp.identity
  stores : ∀ ctx ∈ grp'.vecQuestions, ctx ∈ grp.vecQuestions

theorem GroupMembers.Covers.refl (grp : GroupMembers) : grp.Covers grp :=
  ⟨rfl, fun _ member => member⟩

theorem GroupMembers.Covers.trans {grp grp' grp'' : GroupMembers}
    (first : grp.Covers grp') (second : grp'.Covers grp'') : grp.Covers grp'' :=
  ⟨second.identity.trans first.identity,
    fun ctx member => first.stores ctx (second.stores ctx member)⟩

theorem GroupMembers.Covers.strId {grp grp' : GroupMembers} (covers : grp.Covers grp') :
    grp'.strId = grp.strId :=
  congrArg Prod.fst covers.identity

theorem GroupMembers.Covers.strPath {grp grp' : GroupMembers} (covers : grp.Covers grp') :
    grp'.strPath = grp.strPath :=
  congrArg (fun parts => parts.2.2) covers.identity

/-- The paths that deleting a group may change: those at or below its own path and
those of its stores. -/
def GroupMembers.Touches (grp : GroupMembers) (q : Path) : Prop :=
  grp.strPath <+: q ∨ ∃ ctx ∈ grp.vecQuestions, ctx.strPath = q

theorem GroupMembers.Covers.touches {grp grp' : GroupMembers} (covers : grp.Covers grp')
    {q : Path} (touches : grp'.Touches q) : grp.Touches q := by
  rcases touches with below | ⟨ctx, member, isPath⟩
  · left
    rw [← covers.strPath]
    exact below
  · right
    exact ⟨ctx, covers.stores ctx member, isPath⟩

/-- Ids were taken out of both copies of the registry, in turn. -/
structure Erases (erased : List String) (r r' : Registers) : Prop where
  mapIds : r'.mapIds = erased.foldl IdMap.erase r.mapIds
  ptrIds : r'.ptrIds =
    r.ptrIds.map fun ids => erased.foldl (fun ids id => (ids.deleteGroup id).2) ids
  refusals : r'.refusals = r.refusals

theorem Erases.refl (r : Registers) : Erases [] r r where
  mapIds := rfl
  ptrIds := by cases r.ptrIds <;> rfl
  refusals := rfl

theorem Erases.trans {erased more : List String} {r r' r'' : Registers}
    (first : Erases erased r r') (second : Erases more r' r'') :
    Erases (erased ++ more) r r'' where
  mapIds := by rw [second.mapIds, first.mapIds, List.foldl_append]
  ptrIds := by
    rw [second.ptrIds, first.ptrIds, Option.map_map]
    simp only [Function.comp_def, List.foldl_append]
  refusals := second.refusals.trans first.refusals

/-- The start of a call takes its id out of the registry. -/
theorem Erases.unregister {r : Registers} {ids : CQuestionAnswerImpl}
    (opened : r.ptrIds = some ids) (id : String) (disk : Disk) :
    Erases [id] r { r.unregister id ids with disk := disk } where
  mapIds := rfl
  ptrIds := by
    rw [opened]
    rfl
  refusals := rfl

theorem Erases.opened {erased : List String} {r r' : Registers}
    (erases : Erases erased r r') {ids : CQuestionAnswerImpl}
    (opened : r.ptrIds = some ids) :
    ∃ ids', r'.ptrIds = some ids' := by
  rw [erases.ptrIds, opened]
  exact ⟨_, rfl⟩

/-- What calls below a group keep: the group itself, and everything its descendants
do not touch. -/
structure LoopFrame (qgp qgp' : CQuestionGroupParam) (r r' : Registers) : Prop where
  label : qgp'.label = qgp.label
  remains : ∀ grp' ∈ qgp'.descendants, ∃ grp ∈ qgp.descendants, grp.Covers grp'
  erased : ∃ erased, Erases erased r r' ∧
    ∀ id ∈ erased, ∃ grp ∈ qgp.descendants, grp.strId = id
  disk : ∀ q, (∀ grp ∈ qgp.descendants, ¬ grp.Touches q) →
    r'.disk.node q = r.disk.node q

theorem LoopFrame.refl (qgp : CQuestionGroupParam) (r : Registers) :
    LoopFrame qgp qgp r r where
  label := rfl
  remains := fun grp member => ⟨grp, member, .refl grp⟩
  erased := ⟨[], .refl r, by simp⟩
  disk := fun _ _ => rfl

theorem LoopFrame.trans {qgp qgp' qgp'' : CQuestionGroupParam} {r r' r'' : Registers}
    (first : LoopFrame qgp qgp' r r') (second : LoopFrame qgp' qgp'' r' r'') :
    LoopFrame qgp qgp'' r r'' where
  label := second.label.trans first.label
  remains := by
    intro grp'' member
    obtain ⟨grp', member', covers'⟩ := second.remains grp'' member
    obtain ⟨grp, present, covers⟩ := first.remains grp' member'
    exact ⟨grp, present, covers.trans covers'⟩
  erased := by
    obtain ⟨erased, erases, fromHere⟩ := first.erased
    obtain ⟨more, erasesMore, fromThere⟩ := second.erased
    refine ⟨erased ++ more, erases.trans erasesMore, ?_⟩
    intro id member
    rcases List.mem_append.mp member with inFirst | inSecond
    · exact fromHere id inFirst
    · obtain ⟨grp', member', rfl⟩ := fromThere id inSecond
      obtain ⟨grp, present, covers⟩ := first.remains grp' member'
      exact ⟨grp, present, covers.strId.symm⟩
  disk := by
    intro q untouched
    rw [second.disk q, first.disk q untouched]
    intro grp' member touches
    obtain ⟨grp, present, covers⟩ := first.remains grp' member
    exact untouched grp present (covers.touches touches)

/-- What a call that finds its group keeps. The group is gone exactly when the answer
is true. -/
structure CallFrame (id : String) (found : CQuestionGroupParam)
    (rest : Option CQuestionGroupParam) (answer : Outcome Bool) (r r' : Registers) :
    Prop where
  gone : rest = none ↔ answer = .value true
  label : ∀ found' ∈ rest, found.label.Covers found'.label
  remains : ∀ found' ∈ rest, ∀ grp' ∈ found'.descendants,
    ∃ grp ∈ found.descendants, grp.Covers grp'
  erased : ∃ erased, Erases (id :: erased) r r' ∧
    ∀ id ∈ erased, ∃ grp ∈ found.descendants, grp.strId = id
  disk : ∀ q, (∀ grp ∈ found.preorder, ¬ grp.Touches q) →
    r'.disk.node q = r.disk.node q

/-- A call keeps what a loop with this call alone keeps. -/
theorem CallFrame.loopFrame {id : String} {qgp found : CQuestionGroupParam}
    {before after : List CQuestionGroupParam} {rest : Option CQuestionGroupParam}
    {answer : Outcome Bool} {r r' : Registers}
    (frame : CallFrame id found rest answer r r')
    (children : qgp.children = before ++ found :: after)
    (isFound : found.label.strId = id) :
    LoopFrame qgp (.node qgp.label (before ++ rest.toList ++ after)) r r' := by
  have inside : ∀ grp ∈ found.preorder, grp ∈ qgp.descendants := by
    intro grp member
    rw [descendants, children, List.flatMap_append, List.flatMap_cons]
    exact List.mem_append_right _ (List.mem_append_left _ member)
  have below : ∀ grp ∈ found.descendants, grp ∈ qgp.descendants :=
    fun grp member => inside grp (mem_preorder_of_mem_descendants member)
  refine ⟨rfl, ?_, ?_, fun q untouched => frame.disk q fun grp member =>
    untouched grp (inside grp member)⟩
  · intro grp' member
    rw [descendants, children_node, List.flatMap_append, List.flatMap_append,
      List.mem_append, List.mem_append] at member
    rcases member with (inBefore | inRest) | inAfter
    · refine ⟨grp', ?_, .refl grp'⟩
      rw [descendants, children, List.flatMap_append]
      exact List.mem_append_left _ inBefore
    · rw [List.mem_flatMap] at inRest
      obtain ⟨found', isRest, inFound⟩ := inRest
      rw [Option.mem_toList] at isRest
      rw [preorder_eq_label_cons, List.mem_cons] at inFound
      rcases inFound with rfl | deeper
      · exact ⟨found.label, inside _ found.label_mem_preorder, frame.label found' isRest⟩
      · obtain ⟨grp, present, covers⟩ := frame.remains found' isRest grp' deeper
        exact ⟨grp, below grp present, covers⟩
    · refine ⟨grp', ?_, .refl grp'⟩
      rw [descendants, children, List.flatMap_append, List.flatMap_cons]
      exact List.mem_append_right _ (List.mem_append_right _ inAfter)
  · obtain ⟨erased, erases, fromBelow⟩ := frame.erased
    refine ⟨id :: erased, erases, ?_⟩
    intro other member
    rcases List.mem_cons.mp member with rfl | later
    · exact ⟨found.label, inside _ found.label_mem_preorder, isFound⟩
    · obtain ⟨grp, present, same⟩ := fromBelow other later
      exact ⟨grp, below grp present, same⟩

theorem firstChild_eq_some {id : String} {qgp found : CQuestionGroupParam}
    {before after : List CQuestionGroupParam}
    (split : Registers.firstChild id qgp = some (before, found, after)) :
    qgp.children = before ++ found :: after ∧ found.label.strId = id := by
  have parts := splitFirst_eq_some_iff.mp split
  exact ⟨parts.1, by simpa using parts.2.1⟩

/-- A call keeps what its loop keeps, apart from its own group. -/
theorem Registers.DeleteResult.frame {rt : Runtime} {depth : Nat} {id : String}
    {qgp found : CQuestionGroupParam} {before after : List CQuestionGroupParam}
    {ids : CQuestionAnswerImpl} {r : Registers}
    {result : Outcome Bool × CQuestionGroupParam × Registers}
    (way : DeleteResult rt depth id qgp ids r result)
    (opened : r.ptrIds = some ids)
    (split : firstChild id qgp = some (before, found, after))
    (loopFrame : ∀ count i start r₀ ids₀, r₀.ptrIds = some ids₀ →
      LoopFrame start (deleteEach (deleteGroupWithin rt depth) count i start r₀).2.1 r₀
        (deleteEach (deleteGroupWithin rt depth) count i start r₀).2.2) :
    ∃ rest, result.2.1 = .node qgp.label (before ++ rest.toList ++ after) ∧
      CallFrame id found rest result.1 r result.2.2 := by
  -- what holds after the stores of the group were closed and its loop was run
  have afterLoop : ∀ {stores : List CQuestionAnswerImpl} {disk : Disk}
      {inner : Outcome Unit} {found' : CQuestionGroupParam} {r' : Registers},
      closeAll rt found.label.vecQuestions r.disk = (true, stores, disk) →
      deleteEach (deleteGroupWithin rt depth) found.children.length 0
        (withoutStores found) { unregister id ids r with disk := disk } =
          (inner, found', r') →
      LoopFrame (withoutStores found) found' { unregister id ids r with disk := disk } r' ∧
        (∃ erased, Erases (id :: erased) r r' ∧
          ∀ id ∈ erased, ∃ grp ∈ found.descendants, grp.strId = id) ∧
        ∀ q, (∀ grp ∈ found.preorder, ¬ grp.Touches q) →
          r'.disk.node q = r.disk.node q := by
    intro stores disk inner found' r' closed loop
    have frame := loopFrame found.children.length 0 (withoutStores found)
      { unregister id ids r with disk := disk } _ rfl
    rw [loop] at frame
    refine ⟨frame, ?_, ?_⟩
    · obtain ⟨erased, erases, fromBelow⟩ := frame.erased
      exact ⟨erased, (Erases.unregister opened id disk).trans erases, fromBelow⟩
    · intro q untouched
      rw [frame.disk q fun grp member =>
        untouched grp (mem_preorder_of_mem_descendants member)]
      apply (closeAll_frame closed).2
      intro ctx member isPath
      exact untouched _ found.label_mem_preorder (Or.inr ⟨ctx, member, isPath⟩)
  have labelAfter : ∀ {found' : CQuestionGroupParam},
      found'.label = (withoutStores found).label → found.label.Covers found'.label := by
    intro found' same
    rw [same]
    exact ⟨rfl, by simp [withoutStores]⟩
  cases way with
  | missing message absent =>
      rw [absent] at split
      cases split
  | closeFails split' fails =>
      rw [split] at split'
      cases split'
      have closing := closeAll_frame fails
      refine ⟨some _, by rw [Option.toList_some, List.append_assoc]; rfl,
        by simp, ?_, ?_, ⟨[], .unregister opened id _, by simp⟩, ?_⟩
      · rintro found' ⟨⟩
        exact ⟨rfl, closing.1⟩
      · rintro found' ⟨⟩ grp' member
        exact ⟨grp', member, .refl grp'⟩
      · intro q untouched
        apply closing.2
        intro ctx member isPath
        exact untouched _ found.label_mem_preorder (Or.inr ⟨ctx, member, isPath⟩)
  | @stopsInside _ _ _ _ _ _ _ inner split' closed loop stops =>
      rw [split] at split'
      cases split'
      obtain ⟨frame, erased, disk⟩ := afterLoop closed loop
      refine ⟨some _, by rw [Option.toList_some, List.append_assoc]; rfl,
        ?_, ?_, ?_, erased, disk⟩
      · cases inner <;> simp [stopped]
      · rintro found' ⟨⟩
        exact labelAfter frame.label
      · rintro found' ⟨⟩
        exact frame.remains
  | refused message split' closed loop directory fails =>
      rw [split] at split'
      cases split'
      obtain ⟨frame, ⟨erased, erases, fromBelow⟩, disk⟩ := afterLoop closed loop
      refine ⟨some _, by rw [Option.toList_some, List.append_assoc]; rfl,
        by simp, ?_, ?_,
        ⟨erased, ⟨erases.mapIds, erases.ptrIds, erases.refusals⟩, fromBelow⟩, disk⟩
      · rintro found' ⟨⟩
        exact labelAfter frame.label
      · rintro found' ⟨⟩
        exact frame.remains
  | removed split' closed loop directory allowed =>
      rw [split] at split'
      cases split'
      obtain ⟨frame, ⟨erased, erases, fromBelow⟩, disk⟩ := afterLoop closed loop
      refine ⟨none, by rw [Option.toList_none, List.append_nil], by simp, by simp, by simp,
        ⟨erased, ⟨erases.mapIds, erases.ptrIds, erases.refusals⟩, fromBelow⟩, ?_⟩
      intro q untouched
      have samePath := (labelAfter frame.label).strPath
      rw [FileSystem.node_removeTree, if_neg, disk q untouched]
      intro below
      rw [samePath] at below
      exact untouched _ found.label_mem_preorder (Or.inl below)
  | noDirectory split' closed loop notDirectory =>
      rw [split] at split'
      cases split'
      obtain ⟨frame, erased, disk⟩ := afterLoop closed loop
      exact ⟨none, by rw [Option.toList_none, List.append_nil], by simp, by simp, by simp,
        erased, disk⟩

namespace Registers

/-- A loop keeps what each of its calls keeps. -/
theorem deleteEach_loopFrame
    {deleteGroup : String → CQuestionGroupParam → Registers →
      Outcome Bool × CQuestionGroupParam × Registers}
    (each : ∀ id qgp r ids, r.ptrIds = some ids →
      (∃ grp ∈ qgp.children, grp.label.strId = id) →
      LoopFrame qgp (deleteGroup id qgp r).2.1 r (deleteGroup id qgp r).2.2)
    (count i : Nat) (start : CQuestionGroupParam) {r : Registers}
    {ids : CQuestionAnswerImpl} (opened : r.ptrIds = some ids) :
    LoopFrame start (deleteEach deleteGroup count i start r).2.1 r
      (deleteEach deleteGroup count i start r).2.2 := by
  induction count generalizing i start r ids with
  | zero => exact .refl start r
  | succ count inductionHypothesis =>
      rw [deleteEach]
      cases read : start.children[i]? with
      | none => exact .refl start r
      | some grp =>
          have frame := each grp.label.strId start r ids opened
            ⟨grp, List.mem_of_getElem? read, rfl⟩
          rcases call : deleteGroup grp.label.strId start r with ⟨answer, next, r'⟩
          rw [call] at frame
          simp only [call]
          cases answer with
          | threw => exact frame
          | undefined => exact frame
          | value =>
              obtain ⟨erased, erases, _⟩ := frame.erased
              obtain ⟨ids', opened'⟩ := erases.opened opened
              exact frame.trans (inductionHypothesis (i + 1) next opened')

/-- Every loop keeps the group it works on, and everything the descendants of the
group do not touch. -/
theorem deleteEach_frame (rt : Runtime) (depth count i : Nat)
    (start : CQuestionGroupParam) {r : Registers} {ids : CQuestionAnswerImpl}
    (opened : r.ptrIds = some ids) :
    LoopFrame start (deleteEach (deleteGroupWithin rt depth) count i start r).2.1 r
      (deleteEach (deleteGroupWithin rt depth) count i start r).2.2 := by
  induction depth generalizing count i start r ids with
  | zero =>
      apply deleteEach_loopFrame _ count i start opened
      intro id qgp r ids opened present
      exact .refl qgp r
  | succ depth inductionHypothesis =>
      apply deleteEach_loopFrame _ count i start opened
      intro id qgp r ids opened present
      have way := deleteGroupWithin_result rt depth id qgp opened
      cases split : firstChild id qgp with
      | none =>
          obtain ⟨grp, member, isGroup⟩ := present
          have other := splitFirst_eq_none_iff.mp split grp member
          simp [isGroup] at other
      | some parts =>
          obtain ⟨before, found, after⟩ := parts
          obtain ⟨children, isFound⟩ := firstChild_eq_some split
          obtain ⟨rest, tree, frame⟩ := way.frame opened split
            fun count i start r₀ ids₀ opened₀ =>
              inductionHypothesis count i start opened₀
          rw [tree]
          exact frame.loopFrame children isFound

/-- What a call with enough depth keeps. -/
theorem deleteGroupWithin_frame (rt : Runtime) (depth : Nat) {id : String}
    {qgp found : CQuestionGroupParam} {before after : List CQuestionGroupParam}
    {r : Registers} {ids : CQuestionAnswerImpl}
    (opened : r.ptrIds = some ids)
    (split : firstChild id qgp = some (before, found, after)) :
    ∃ rest, (deleteGroupWithin rt (depth + 1) id qgp r).2.1 =
        .node qgp.label (before ++ rest.toList ++ after) ∧
      CallFrame id found rest (deleteGroupWithin rt (depth + 1) id qgp r).1 r
        (deleteGroupWithin rt (depth + 1) id qgp r).2.2 :=
  (deleteGroupWithin_result rt depth id qgp opened).frame opened split
    fun count i start _ _ opened₀ => deleteEach_frame rt depth count i start opened₀

theorem exists_height (qgp : CQuestionGroupParam) : ∃ depth, qgp.height = depth + 1 := by
  cases qgp
  exact ⟨_, height_node _ _⟩

/-- The recursion is deep enough for the group that is found. -/
theorem height_le_of_firstChild {id : String} {qgp found : CQuestionGroupParam}
    {before after : List CQuestionGroupParam} {depth : Nat}
    (split : firstChild id qgp = some (before, found, after))
    (height : qgp.height = depth + 1) :
    found.height ≤ depth := by
  rw [← node_label_children qgp, height_node, (firstChild_eq_some split).1] at height
  have inside := @height_le_heightAll _ found (before ++ found :: after) (by simp)
  omega

/-- What a call of `deleteGroup` keeps. -/
theorem deleteGroup_frame (rt : Runtime) {id : String} {qgp found : CQuestionGroupParam}
    {before after : List CQuestionGroupParam} {r : Registers} {ids : CQuestionAnswerImpl}
    (opened : r.ptrIds = some ids)
    (split : firstChild id qgp = some (before, found, after)) :
    ∃ rest, (r.deleteGroup rt id qgp).2.1 =
        .node qgp.label (before ++ rest.toList ++ after) ∧
      CallFrame id found rest (r.deleteGroup rt id qgp).1 r
        (r.deleteGroup rt id qgp).2.2 := by
  obtain ⟨depth, height⟩ := exists_height qgp
  rw [deleteGroup, height]
  exact deleteGroupWithin_frame rt depth opened split

/-- A call that finds no group takes the id out of the registry all the same. -/
theorem deleteGroup_of_missing (rt : Runtime) {id : String} {qgp : CQuestionGroupParam}
    {r : Registers} {ids : CQuestionAnswerImpl}
    (opened : r.ptrIds = some ids)
    (absent : firstChild id qgp = none) :
    ∃ message, r.deleteGroup rt id qgp =
      (.value false, qgp, { unregister id ids r with strErrorMsg := message }) := by
  obtain ⟨depth, height⟩ := exists_height qgp
  rw [firstChild] at absent
  rw [deleteGroup, height, deleteGroupWithin]
  simp only [opened, absent]
  exact ⟨_, rfl⟩

/-! ## What a call that returns has deleted -/

/-- A call that returns has closed the stores of its group and run its loop to the
end. -/
theorem DeleteResult.loop_of_value {rt : Runtime} {depth : Nat} {id : String}
    {qgp found : CQuestionGroupParam} {before after : List CQuestionGroupParam}
    {ids : CQuestionAnswerImpl} {r : Registers}
    {result : Outcome Bool × CQuestionGroupParam × Registers}
    (way : DeleteResult rt depth id qgp ids r result)
    (split : firstChild id qgp = some (before, found, after))
    {b : Bool} (returns : result.1 = .value b) :
    ∃ disk found' r',
      deleteEach (deleteGroupWithin rt depth) found.children.length 0
        (withoutStores found) { unregister id ids r with disk := disk } =
          (.value (), found', r') ∧
      result.2.2.mapIds = r'.mapIds ∧ result.2.2.ptrIds = r'.ptrIds ∧
      result.2.2.refusals = r'.refusals := by
  cases way with
  | missing message absent =>
      rw [absent] at split
      cases split
  | closeFails split' fails => cases returns
  | @stopsInside _ _ _ _ _ _ _ inner split' closed loop stops =>
      cases inner with
      | value => exact absurd rfl stops
      | threw => cases returns
      | undefined => cases returns
  | refused message split' closed loop directory fails =>
      rw [split] at split'
      cases split'
      exact ⟨_, _, _, loop, rfl, rfl, rfl⟩
  | removed split' closed loop directory allowed =>
      rw [split] at split'
      cases split'
      exact ⟨_, _, _, loop, rfl, rfl, rfl⟩
  | noDirectory split' closed loop notDirectory =>
      rw [split] at split'
      cases split'
      exact ⟨_, _, _, loop, rfl, rfl, rfl⟩

/-- No call makes the vector of sub-groups longer. -/
theorem length_children_deleteGroupWithin_le (rt : Runtime) (depth : Nat) (id : String)
    (qgp : CQuestionGroupParam) {r : Registers} {ids : CQuestionAnswerImpl}
    (opened : r.ptrIds = some ids) :
    (deleteGroupWithin rt depth id qgp r).2.1.children.length ≤ qgp.children.length ∧
      ∃ ids', (deleteGroupWithin rt depth id qgp r).2.2.ptrIds = some ids' := by
  cases depth with
  | zero => exact ⟨Nat.le_refl _, ids, opened⟩
  | succ depth =>
      cases split : firstChild id qgp with
      | none =>
          rw [firstChild] at split
          rw [deleteGroupWithin]
          simp only [opened, split]
          exact ⟨Nat.le_refl _, _, rfl⟩
      | some parts =>
          obtain ⟨before, found, after⟩ := parts
          obtain ⟨rest, tree, frame⟩ := deleteGroupWithin_frame rt depth opened split
          obtain ⟨erased, erases, _⟩ := frame.erased
          refine ⟨?_, erases.opened opened⟩
          rw [tree, (firstChild_eq_some split).1]
          cases rest <;> simp

/-- A loop that runs to the end has read every position inside the vector as it was
at that time. -/
theorem deleteEach_reads_inside (rt : Runtime) (depth count i : Nat)
    (start : CQuestionGroupParam) {r : Registers} {ids : CQuestionAnswerImpl}
    (opened : r.ptrIds = some ids)
    (returns : (deleteEach (deleteGroupWithin rt depth) count i start r).1 = .value ()) :
    count = 0 ∨ i + count ≤ start.children.length := by
  induction count generalizing i start r ids with
  | zero => exact Or.inl rfl
  | succ count inductionHypothesis =>
      right
      rw [deleteEach] at returns
      cases read : start.children[i]? with
      | none =>
          rw [read] at returns
          cases returns
      | some grp =>
          have inside := (List.getElem?_eq_some_iff.mp read).1
          rw [read] at returns
          have shorter := length_children_deleteGroupWithin_le rt depth grp.label.strId
            start opened
          rcases call : deleteGroupWithin rt depth grp.label.strId start r
            with ⟨answer, next, r'⟩
          rw [call] at shorter
          simp only [call] at returns
          obtain ⟨notLonger, ids', opened'⟩ := shorter
          cases answer with
          | threw => cases returns
          | undefined => cases returns
          | value =>
              have rest := inductionHypothesis (i + 1) next opened' returns
              simp only at notLonger
              omega

/-- The split at a child whose siblings have other ids. -/
theorem firstChild_of_distinct {qgp found : CQuestionGroupParam}
    {before after : List CQuestionGroupParam}
    (children : qgp.children = before ++ found :: after)
    (distinct : (qgp.children.map fun grp => grp.label.strId).Nodup) :
    firstChild found.label.strId qgp = some (before, found, after) := by
  rw [firstChild, children]
  apply splitFirst_append_cons (by simp)
  rw [children, List.map_append, List.map_cons, List.nodup_append] at distinct
  intro grp member
  have apart := distinct.2.2 _ (List.mem_map_of_mem member) _ List.mem_cons_self
  simpa using apart

/-- A loop that runs to the end over sub-groups with distinct ids has taken the ids
of all of them, and of all groups below them, out of the registry. -/
theorem deleteEach_erases {rt : Runtime} {depth : Nat}
    (each : ∀ id qgp found before after r ids b, r.ptrIds = some ids →
      firstChild id qgp = some (before, found, after) →
      (found.preorder.map GroupMembers.strId).Nodup →
      (deleteGroupWithin rt depth id qgp r).1 = .value b →
      Erases (found.preorder.map GroupMembers.strId) r
        (deleteGroupWithin rt depth id qgp r).2.2)
    {count i : Nat} {start : CQuestionGroupParam} {r : Registers}
    {ids : CQuestionAnswerImpl}
    (opened : r.ptrIds = some ids)
    (siblings : (start.children.map fun grp => grp.label.strId).Nodup)
    (below : ∀ grp ∈ start.children.drop i, (grp.preorder.map GroupMembers.strId).Nodup)
    (whole : i + count = start.children.length)
    (returns : (deleteEach (deleteGroupWithin rt depth) count i start r).1 = .value ()) :
    Erases ((start.children.drop i).flatMap fun grp => grp.preorder.map GroupMembers.strId)
      r (deleteEach (deleteGroupWithin rt depth) count i start r).2.2 := by
  induction count generalizing i start r ids with
  | zero =>
      have done : start.children.drop i = [] := List.drop_eq_nil_of_le (by omega)
      rw [done]
      exact .refl r
  | succ count inductionHypothesis =>
      have inside : i < start.children.length := by omega
      have read : start.children[i]? = some start.children[i] :=
        List.getElem?_eq_getElem inside
      obtain ⟨before, after, children, position⟩ := exists_split_of_getElem? read
      generalize start.children[i] = grp at read children
      have dropped : start.children.drop i = grp :: after := by
        rw [children, ← position, List.drop_left]
      rw [deleteEach, read] at returns ⊢
      rw [dropped] at below ⊢
      have split := firstChild_of_distinct children siblings
      rcases call : deleteGroupWithin rt depth grp.label.strId start r
        with ⟨answer, next, r'⟩
      simp only [call] at returns ⊢
      obtain ⟨b, rfl⟩ : ∃ b, answer = .value b := by
        cases answer with
        | value b => exact ⟨b, rfl⟩
        | threw => cases returns
        | undefined => cases returns
      have first := each _ _ _ _ _ _ _ b opened split (below grp List.mem_cons_self)
        (congrArg Prod.fst call)
      obtain ⟨rest, tree, sameId⟩ : ∃ rest : Option CQuestionGroupParam,
          next = .node start.label (before ++ rest.toList ++ after) ∧
            ∀ found' ∈ rest, found'.label.strId = grp.label.strId := by
        cases depth with
        | zero => cases call
        | succ depth =>
            obtain ⟨rest, tree, frame⟩ := deleteGroupWithin_frame rt depth opened split
            rw [call] at tree frame
            exact ⟨rest, tree, fun found' isRest => (frame.label found' isRest).strId⟩
      rw [call] at first
      obtain ⟨ids', opened'⟩ := first.opened opened
      rw [List.flatMap_cons]
      apply first.trans
      have lengths := congrArg List.length children
      rw [List.length_append, List.length_cons] at lengths
      cases count with
      | zero =>
          have last : after = [] := List.eq_nil_of_length_eq_zero (by omega)
          rw [last]
          exact .refl r'
      | succ count =>
          -- the vector has not become shorter, since the loop reads beyond this position
          have reads := deleteEach_reads_inside rt depth (count + 1) (i + 1) next opened'
            returns
          cases rest with
          | none =>
              rw [tree, children_node, Option.toList_none, List.append_nil,
                List.length_append] at reads
              omega
          | some found' =>
              have children' : next.children = before ++ found' :: after := by
                rw [tree, children_node, Option.toList_some, List.append_assoc]
                rfl
              have dropped' : next.children.drop (i + 1) = after := by
                rw [children', ← position, ← List.drop_drop, List.drop_left]
                rfl
              rw [← dropped']
              apply inductionHypothesis opened'
              · rw [children, List.map_append, List.map_cons] at siblings
                rw [children', List.map_append, List.map_cons, sameId found' rfl]
                exact siblings
              · intro other member
                rw [dropped'] at member
                exact below other (List.mem_cons_of_mem grp member)
              · rw [children', List.length_append, List.length_cons]
                omega
              · exact returns

theorem nodup_strId_children {qgp : CQuestionGroupParam}
    (distinct : (qgp.descendants.map GroupMembers.strId).Nodup) :
    (qgp.children.map fun grp => grp.label.strId).Nodup := by
  refine List.Nodup.sublist ?_ distinct
  rw [descendants, List.map_flatMap]
  generalize qgp.children = groups
  induction groups with
  | nil => exact .slnil
  | cons grp groups inductionHypothesis =>
      rw [List.map_cons, List.flatMap_cons, preorder_eq_label_cons, List.map_cons,
        List.cons_append]
      exact (inductionHypothesis.trans (List.sublist_append_right _ _)).cons_cons _

/-- A call that returns has taken the ids of its group and of all groups below it out
of the registry, when these ids are distinct. -/
theorem deleteGroupWithin_erases (rt : Runtime) (depth : Nat) (id : String)
    (qgp found : CQuestionGroupParam) (before after : List CQuestionGroupParam)
    (r : Registers) (ids : CQuestionAnswerImpl) (b : Bool)
    (opened : r.ptrIds = some ids)
    (split : firstChild id qgp = some (before, found, after))
    (distinct : (found.preorder.map GroupMembers.strId).Nodup)
    (returns : (deleteGroupWithin rt depth id qgp r).1 = .value b) :
    Erases (found.preorder.map GroupMembers.strId) r
      (deleteGroupWithin rt depth id qgp r).2.2 := by
  induction depth generalizing id qgp found before after r ids b with
  | zero => cases returns
  | succ depth inductionHypothesis =>
      obtain rfl : found.label.strId = id := (firstChild_eq_some split).2
      have way := deleteGroupWithin_result rt depth found.label.strId qgp opened
      obtain ⟨disk, found', r', loop, mapIds, ptrIds, refusals⟩ :=
        way.loop_of_value split returns
      rw [preorder_eq_label_cons, List.map_cons] at distinct ⊢
      have below := (List.nodup_cons.mp distinct).2
      have opened' : ({ unregister found.label.strId ids r with disk := disk } :
          Registers).ptrIds = some (ids.deleteGroup found.label.strId).2 := rfl
      have erases := @deleteEach_erases rt depth inductionHypothesis _ 0
        (withoutStores found) _ _ opened' (nodup_strId_children below)
        (by
          intro grp member
          rw [List.drop_zero] at member
          exact nodup_map_preorder_of_mem below member)
        (Nat.zero_add _) (by rw [withoutStores_children, loop])
      rw [withoutStores_children, loop, List.drop_zero] at erases
      have all := (Erases.unregister opened found.label.strId disk).trans erases
      rw [descendants, List.map_flatMap]
      exact ⟨mapIds.trans all.mapIds, ptrIds.trans all.ptrIds,
        refusals.trans all.refusals⟩

/-- A call of `deleteGroup` that returns has taken the ids of its group and of all
groups below it out of the registry. -/
theorem deleteGroup_erases (rt : Runtime) {id : String} {qgp found : CQuestionGroupParam}
    {before after : List CQuestionGroupParam} {r : Registers} {ids : CQuestionAnswerImpl}
    {b : Bool}
    (opened : r.ptrIds = some ids)
    (split : firstChild id qgp = some (before, found, after))
    (distinct : (found.preorder.map GroupMembers.strId).Nodup)
    (returns : (r.deleteGroup rt id qgp).1 = .value b) :
    Erases (found.preorder.map GroupMembers.strId) r (r.deleteGroup rt id qgp).2.2 :=
  deleteGroupWithin_erases rt _ id qgp found before after r ids b opened split distinct
    returns

/-! ## Chains of groups -/

/-- A loop over at most one sub-group stays inside the vector. -/
theorem deleteGroupWithin_defined {rt : Runtime} {found : CQuestionGroupParam}
    (chain : IsChain found)
    {depth : Nat}
    (deep : found.height ≤ depth)
    {id : String}
    {qgp : CQuestionGroupParam}
    {before after : List CQuestionGroupParam}
    {r : Registers}
    {ids : CQuestionAnswerImpl}
    (opened : r.ptrIds = some ids)
    (split : firstChild id qgp = some (before, found, after)) :
    (deleteGroupWithin rt (depth + 1) id qgp r).1 ≠ .undefined := by
  induction chain generalizing depth id qgp before after r ids with
  | leaf grp =>
      have way := deleteGroupWithin_result rt depth id qgp opened
      intro undefined
      generalize deleteGroupWithin rt (depth + 1) id qgp r = result at way undefined
      cases way with
      | stopsInside split' closed loop stops =>
          rw [split] at split'
          cases split'
          cases loop
          exact stops rfl
      | _ => cases undefined
  | @link grp child below inductionHypothesis =>
      have way := deleteGroupWithin_result rt depth id qgp opened
      intro undefined
      generalize deleteGroupWithin rt (depth + 1) id qgp r = result at way undefined
      cases way with
      | @stopsInside _ _ _ found' _ disk r' inner split' closed loop stops =>
          rw [split] at split'
          cases split'
          rw [height_node, heightAll, heightAll, Nat.max_zero] at deep
          obtain ⟨depth, rfl⟩ : ∃ less, depth = less + 1 := ⟨depth - 1, by omega⟩
          have only : firstChild child.label.strId (withoutStores (.node grp [child])) =
              some ([], child, []) :=
            firstChild_of_distinct rfl (by simp)
          have opened' : ({ unregister id ids r with disk := disk } : Registers).ptrIds =
              some (ids.deleteGroup id).2 := rfl
          have shallow : child.height ≤ depth := by omega
          have defined := inductionHypothesis shallow opened' only
          have read : (withoutStores (.node grp [child])).children[0]? = some child := rfl
          rw [children_node, List.length_singleton, deleteEach, read] at loop
          rcases call : deleteGroupWithin rt (depth + 1) child.label.strId
              (withoutStores (.node grp [child]))
              { unregister id ids r with disk := disk } with ⟨answer, next, r''⟩
          rw [call] at defined
          simp only [call] at loop
          cases answer with
          | value =>
              cases loop
              exact stops rfl
          | threw =>
              cases loop
              cases undefined
          | undefined => exact defined rfl
      | _ => cases undefined

/-- A group is deleted without reading outside a vector when no group below it has
more than one sub-group. -/
theorem deleteGroup_defined (rt : Runtime) {id : String} {qgp found : CQuestionGroupParam}
    {before after : List CQuestionGroupParam} {r : Registers} {ids : CQuestionAnswerImpl}
    (opened : r.ptrIds = some ids)
    (split : firstChild id qgp = some (before, found, after))
    (chain : IsChain found) :
    (r.deleteGroup rt id qgp).1 ≠ .undefined := by
  obtain ⟨depth, height⟩ := exists_height qgp
  rw [deleteGroup, height]
  have shallow := height_le_of_firstChild split height
  exact deleteGroupWithin_defined chain shallow opened split

/-- No private operation changes the members of the group it acts on. -/
theorem label_ctrlHere (rt : Runtime) (gid name : String) (type : GroupCtrlType)
    (qgp : CQuestionGroupParam) (r : Registers) :
    (ctrlHere rt gid name type qgp r).2.1.label = qgp.label := by
  cases type with
  | none => rfl
  | max => rfl
  | add =>
      cases opened : r.ptrIds with
      | none => simp only [ctrlHere, addGroup, opened]
      | some ids =>
          simp only [ctrlHere, addGroup, opened]
          split
          · rfl
          · split <;> rfl
  | delete =>
      rw [ctrlHere, deleteGroup]
      cases opened : r.ptrIds with
      | none =>
          cases height : qgp.height with
          | zero => rfl
          | succ depth =>
              rw [deleteGroupWithin]
              simp only [opened]
      | some ids =>
          obtain ⟨depth, height⟩ := exists_height qgp
          have way := deleteGroupWithin_result rt depth gid qgp opened
          rw [height]
          generalize deleteGroupWithin rt (depth + 1) gid qgp r = result at way
          cases way <;> rfl
  | update =>
      rw [ctrlHere, updateGroup]
      split
      · rfl
      · split
        · rfl
        · dsimp only
          split <;> rfl

end Registers

end Notebook
