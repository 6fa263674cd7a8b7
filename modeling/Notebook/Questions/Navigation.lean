import Notebook.Model.NotebookUi

/-!
# Next and previous question

The loop of `findTreeWidgetItem` looks at the items beside the current one, from the
innermost level outwards. It passes over groups without children and goes into the first
other group, always to the first child, or to the last child on the way back. A group
without children on that way keeps it there for ever; everywhere else it finds the next
question in reading order.
-/

namespace Notebook

open RoseTree

namespace Window

/-! ## Iterations -/

variable {tree : RoseTree Item} {flag : Bool}

/-- An iteration that stays inside the vector of the parent looks at one of its items. -/
theorem findStep_inside {p : Position} {i j : Nat} {val : Int}
    {parentItem item : RoseTree Item}
    (found : subtreeAt p tree = some parentItem)
    (index : (i : Int) + val = j)
    (read : parentItem.children[j]? = some item) :
    findStep tree flag (p ++ [i], val) = visitItem flag (p ++ [j]) item val := by
  have bound := (List.getElem?_eq_some_iff.mp read).1
  unfold findStep
  simp only [List.getLast?_append, List.getLast?_singleton, Option.some_or,
    List.dropLast_concat, found, index]
  rw [if_neg (by omega)]
  simp only [Int.toNat_natCast, read]

/-- An iteration that would leave the vector of the parent goes up. -/
theorem findStep_outside {p : Position} {i : Nat} {val : Int} {parentItem : RoseTree Item}
    (found : subtreeAt p tree = some parentItem)
    (outside : (i : Int) + val < 0 ∨ (parentItem.children.length : Int) ≤ i + val) :
    findStep tree flag (p ++ [i], val) = .inr (p, direction flag) := by
  unfold findStep
  simp only [List.getLast?_append, List.getLast?_singleton, Option.some_or,
    List.dropLast_concat, found]
  rw [if_pos outside]

/-- The parent of a position below the root. -/
theorem exists_parent {p : Position} {i : Nat} {item : RoseTree Item}
    (found : subtreeAt (p ++ [i]) tree = some item) :
    ∃ parentItem, subtreeAt p tree = some parentItem ∧ parentItem.children[i]? = some item := by
  rw [subtreeAt_append] at found
  obtain ⟨parentItem, above, below⟩ := Option.bind_eq_some_iff.mp found
  obtain ⟨child, read, same⟩ := Option.bind_eq_some_iff.mp below
  cases same
  exact ⟨parentItem, above, read⟩

/-- An iteration without a step to a sibling looks at the current item again. -/
theorem findStep_here {p : Position} {i : Nat} {item : RoseTree Item}
    (found : subtreeAt (p ++ [i]) tree = some item) :
    findStep tree flag (p ++ [i], 0) = visitItem flag (p ++ [i]) item 0 := by
  obtain ⟨parentItem, above, read⟩ := exists_parent found
  exact findStep_inside above (Int.add_zero _) read

/-- The ways an iteration goes that looks for a sibling. -/
theorem findStep_cases {p : Position} {u : RoseTree Item}
    (found : subtreeAt p tree = some u) :
    (p = [] ∧ findStep tree flag (p, direction flag) = .inl none) ∨
    (∃ q i parentItem, p = q ++ [i] ∧ subtreeAt q tree = some parentItem ∧
      findStep tree flag (p, direction flag) = .inr (q, direction flag) ∧
      beside flag p tree = beside flag q tree) ∨
    ∃ q i j item, p = q ++ [i] ∧ subtreeAt (q ++ [j]) tree = some item ∧
      findStep tree flag (p, direction flag) =
        visitItem flag (q ++ [j]) item (direction flag) ∧
      beside flag p tree = (q ++ [j], item) :: beside flag (q ++ [j]) tree := by
  cases p using List.reverseRecOn with
  | nil => exact Or.inl ⟨rfl, rfl⟩
  | append_singleton q i =>
      right
      obtain ⟨parentItem, above, read⟩ := exists_parent found
      have inside := (List.getElem?_eq_some_iff.mp read).1
      have besideHere := fun k => beside_append_singleton flag above k
      rcases siblings_cases flag inside with ⟨none, outside⟩ | ⟨j, item, index, readItem, rest⟩
      · left
        refine ⟨q, i, parentItem, rfl, above, findStep_outside above outside, ?_⟩
        rw [besideHere, none]
        rfl
      · right
        refine ⟨q, i, j, item, rfl, ?_, findStep_inside above index readItem, ?_⟩
        · rw [subtreeAt_append, above, Option.bind_some, subtreeAt_cons, readItem]
          rfl
        · rw [besideHere, besideHere, rest]
          rfl

/-! ## Going into a group -/

/-- The element that is met first from one side. -/
def edge (flag : Bool) (l : List β) : Option β :=
  if flag then l.getLast? else l.head?

mutual

/-- Whether the way through first children, or through last children, ends at a group
without children. -/
def deadEnd (flag : Bool) : RoseTree Item → Bool
  | .node item items => item.isGroup && (edge flag (deadEnds flag items)).getD true

/-- Whether the way from each of some items ends at a group without children. -/
def deadEnds (flag : Bool) : List (RoseTree Item) → List Bool
  | [] => []
  | item :: items => deadEnd flag item :: deadEnds flag items

end

theorem deadEnds_eq_map (items : List (RoseTree Item)) :
    deadEnds flag items = items.map (deadEnd flag) := by
  induction items with
  | nil => rfl
  | cons item items inductionHypothesis =>
      rw [deadEnds, inductionHypothesis, List.map_cons]

/-- The index at which the loop goes into a group. -/
def edgeIndex (flag : Bool) (items : List (RoseTree Item)) : Nat :=
  if flag then items.length - 1 else 0

theorem getElem?_edgeIndex (items : List (RoseTree Item)) :
    items[edgeIndex flag items]? = edge flag items := by
  unfold edgeIndex edge
  cases flag with
  | false => exact List.head?_eq_getElem?.symm
  | true => exact List.getLast?_eq_getElem?.symm

/-- The way through a group goes on through the child at its edge. -/
theorem deadEnd_eq (item : RoseTree Item) :
    deadEnd flag item = (item.label.isGroup &&
      ((item.children[edgeIndex flag item.children]?).map (deadEnd flag)).getD true) := by
  cases item with
  | node label items =>
      rw [deadEnd, deadEnds_eq_map, getElem?_edgeIndex]
      cases flag with
      | false => rw [edge, edge, List.head?_map]; rfl
      | true => rw [edge, edge, List.getLast?_map]; rfl

theorem visitItem_question {pos : Position} {item : RoseTree Item}
    (isQuestion : item.label.isGroup = false) (val : Int) :
    visitItem flag pos item val = .inl (some pos) := by
  rw [visitItem, if_pos isQuestion]

theorem visitItem_empty {pos : Position} {item : RoseTree Item}
    (isGroup : item.label.isGroup = true)
    (empty : item.children[edgeIndex flag item.children]? = none) (val : Int) :
    visitItem flag pos item val = .inr (pos, val) := by
  rw [visitItem, if_neg (by simp [isGroup])]
  rw [edgeIndex] at empty
  simp only [empty]

theorem visitItem_child {pos : Position} {item child : RoseTree Item}
    (isGroup : item.label.isGroup = true)
    (read : item.children[edgeIndex flag item.children]? = some child) (val : Int) :
    visitItem flag pos item val =
      if child.label.isGroup = false then .inl (some (pos ++ [edgeIndex flag item.children]))
      else .inr (pos ++ [edgeIndex flag item.children], 0) := by
  rw [visitItem, if_neg (by simp [isGroup])]
  rw [edgeIndex] at read
  simp only [read]
  rfl

/-- A child is found below the position of its item. -/
theorem subtreeAt_child {pos : Position} {item child : RoseTree Item} {i : Nat}
    (found : subtreeAt pos tree = some item) (read : item.children[i]? = some child) :
    subtreeAt (pos ++ [i]) tree = some child := by
  rw [subtreeAt_append, found, Option.bind_some, subtreeAt_cons, read]
  rfl

/-- From a group, without a step to a sibling, the loop ends exactly when the way through
the group is no dead end. -/
theorem visit_returns_iff {p : Position} {i : Nat} {item : RoseTree Item}
    (found : subtreeAt (p ++ [i]) tree = some item)
    (isGroup : item.label.isGroup = true) :
    (∃ result, Loop.Continues (findStep tree flag) (visitItem flag (p ++ [i]) item 0) result) ↔
      deadEnd flag item = false := by
  induction item generalizing p i with
  | node label items inductionHypothesis =>
      rw [deadEnd_eq, isGroup, Bool.true_and, children_node]
      cases read : items[edgeIndex flag items]? with
      | none =>
          have stays : visitItem flag (p ++ [i]) (.node label items) 0 = _ :=
            visitItem_empty isGroup read 0
          apply iff_of_false
          · rintro ⟨result, continues⟩
            rw [stays] at continues
            exact Loop.not_returns_of_fixed ((findStep_here found).trans stays) _ continues
          · simp
      | some child =>
          have goes : visitItem flag (p ++ [i]) (.node label items) 0 = _ :=
            visitItem_child isGroup read 0
          have foundChild := subtreeAt_child found read
          rw [goes, Option.map_some, Option.getD_some]
          cases kind : child.label.isGroup with
          | false =>
              rw [if_pos rfl]
              apply iff_of_true ⟨_, rfl⟩
              rw [deadEnd_eq, kind, Bool.false_and]
          | true =>
              rw [if_neg (by simp)]
              have further := inductionHypothesis child (List.mem_of_getElem? read)
                foundChild kind
              rw [← further, ← findStep_here foundChild]
              exact exists_congr fun result => Loop.continues_inr

/-! ## Reading order -/

/-- The questions of a tree of items, by position, in reading order. -/
def questions (tree : RoseTree Item) : List Position :=
  places (fun item => !item.isGroup) tree

/-- The questions of an item with its position. -/
def questionsAt (entry : Position × RoseTree Item) : List Position :=
  placesAt (fun item => !item.isGroup) entry

/-- A list in the direction of a search. -/
def directed (flag : Bool) (l : List β) : List β :=
  if flag then l.reverse else l

theorem map_directed (f : β → γ) (l : List β) :
    (directed flag l).map f = directed flag (l.map f) := by
  cases flag <;> simp [directed]

mutual

/-- No question of a tree of items has children. -/
def questionsAreLeaves : RoseTree Item → Bool
  | .node item items => (item.isGroup || items.isEmpty) && allQuestionsAreLeaves items

/-- No question of some trees of items has children. -/
def allQuestionsAreLeaves : List (RoseTree Item) → Bool
  | [] => true
  | item :: items => questionsAreLeaves item && allQuestionsAreLeaves items

end

theorem allQuestionsAreLeaves_iff (items : List (RoseTree Item)) :
    allQuestionsAreLeaves items = true ↔ ∀ item ∈ items, questionsAreLeaves item = true := by
  induction items with
  | nil => simp [allQuestionsAreLeaves]
  | cons item items inductionHypothesis =>
      rw [allQuestionsAreLeaves, Bool.and_eq_true, inductionHypothesis, List.forall_mem_cons]

theorem questionsAreLeaves_iff (item : RoseTree Item) :
    questionsAreLeaves item = true ↔
      (item.label.isGroup = false → item.children = []) ∧
        ∀ child ∈ item.children, questionsAreLeaves child = true := by
  cases item with
  | node label items =>
      rw [questionsAreLeaves, Bool.and_eq_true, allQuestionsAreLeaves_iff]
      cases kind : label.isGroup <;> simp [kind]

/-- Leaves stay leaves in a subtree. -/
theorem questionsAreLeaves_subtreeAt {p : Position} {t item : RoseTree Item}
    (leaves : questionsAreLeaves t = true) (found : subtreeAt p t = some item) :
    questionsAreLeaves item = true := by
  induction p generalizing t with
  | nil =>
      cases found
      exact leaves
  | cons i p inductionHypothesis =>
      obtain ⟨child, read, below⟩ := Option.bind_eq_some_iff.mp found
      exact inductionHypothesis
        (((questionsAreLeaves_iff t).mp leaves).2 child (List.mem_of_getElem? read)) below

theorem questions_of_question {item : RoseTree Item}
    (leaves : questionsAreLeaves item = true) (isQuestion : item.label.isGroup = false) :
    questions item = [[]] := by
  have noChild := ((questionsAreLeaves_iff item).mp leaves).1 isQuestion
  cases item with
  | node label items =>
      rw [children_node] at noChild
      rw [label_node] at isQuestion
      subst noChild
      rw [questions, places_node, isQuestion]
      rfl

/-- The first question of a group in the direction of a search is the first one of the
child at its edge, when this child has a question. -/
theorem head?_questions {item child : RoseTree Item}
    (isGroup : item.label.isGroup = true)
    (read : item.children[edgeIndex flag item.children]? = some child)
    {q : Position} (first : (directed flag (questions child)).head? = some q) :
    (directed flag (questions item)).head? =
      some (edgeIndex flag item.children :: q) := by
  cases item with
  | node label items =>
      rw [children_node] at read ⊢
      rw [label_node] at isGroup
      rw [questions, places_node, isGroup, placesFrom_eq_flatMap]
      simp only [Bool.not_true, Bool.false_eq_true, if_false, List.nil_append]
      have atEdge : ∀ i, (directed flag (questionsAt ([i], child))).head? = some (i :: q) := by
        intro i
        have mapped : directed flag (questionsAt ([i], child)) =
            (directed flag (questions child)).map ([i] ++ ·) := (map_directed _ _).symm
        rw [mapped, List.head?_map, first]
        rfl
      rw [getElem?_edgeIndex] at read
      cases flag with
      | false =>
          obtain ⟨rest, rfl⟩ := List.head?_eq_some_iff.mp read
          have first := atEdge 0
          simp only [directed, Bool.false_eq_true, if_false] at first ⊢
          rw [placed_cons, List.flatMap_cons, List.head?_append]
          rw [questionsAt] at first
          rw [first]
          rfl
      | true =>
          obtain ⟨front, rfl⟩ := List.getLast?_eq_some_iff.mp read
          have last := atEdge front.length
          simp only [directed, if_true] at last ⊢
          rw [placed_append, List.flatMap_append, List.reverse_append, List.head?_append,
            Nat.zero_add, placed_cons, List.flatMap_cons, placed]
          rw [questionsAt] at last
          simp [last, edgeIndex]

/-- From a group, without a step to a sibling, the loop can only end at the first question
of the group in the direction of the search. -/
theorem visit_result {p : Position} {i : Nat} {item : RoseTree Item}
    (leaves : questionsAreLeaves item = true)
    (found : subtreeAt (p ++ [i]) tree = some item)
    (isGroup : item.label.isGroup = true)
    {result : Option Position}
    (returns : Loop.Continues (findStep tree flag) (visitItem flag (p ++ [i]) item 0)
      result) :
    ∃ q, result = some (p ++ [i] ++ q) ∧ (directed flag (questions item)).head? = some q := by
  induction item generalizing p i with
  | node label items inductionHypothesis =>
      cases read : items[edgeIndex flag items]? with
      | none =>
          have stays : visitItem flag (p ++ [i]) (.node label items) 0 = _ :=
            visitItem_empty isGroup read 0
          rw [stays] at returns
          exact absurd returns
            (Loop.not_returns_of_fixed ((findStep_here found).trans stays) result)
      | some child =>
          have goes : visitItem flag (p ++ [i]) (.node label items) 0 = _ :=
            visitItem_child isGroup read 0
          have foundChild := subtreeAt_child found read
          have member := List.mem_of_getElem? read
          have leavesBelow := ((questionsAreLeaves_iff _).mp leaves).2 child member
          rw [goes] at returns
          cases kind : child.label.isGroup with
          | false =>
              rw [if_pos kind, Loop.continues_inl] at returns
              refine ⟨[edgeIndex flag items], ?_, ?_⟩
              · rw [← returns]
                rfl
              · apply head?_questions isGroup read
                rw [questions_of_question leavesBelow kind]
                cases flag <;> rfl
          | true =>
              rw [if_neg (by simp [kind]), Loop.continues_inr, children_node,
                findStep_here foundChild] at returns
              obtain ⟨q, isResult, first⟩ :=
                inductionHypothesis child member leavesBelow foundChild kind returns
              refine ⟨edgeIndex flag items :: q, ?_, head?_questions isGroup read first⟩
              rw [isResult]
              simp [List.append_assoc]

/-! ## The whole search -/

/-- The search stops passing over siblings at a question and at a group with children. -/
def stopsAt (entry : Position × RoseTree Item) : Bool :=
  !entry.2.label.isGroup || !entry.2.children.isEmpty

/-- Whether the first item beside a position at which the search stops leads to a group
without children. -/
def runsIntoDeadEnd (tree : RoseTree Item) (flag : Bool) (p : Position) : Bool :=
  ((beside flag p tree).find? stopsAt).any fun entry => deadEnd flag entry.2

theorem edge_of_nonempty {item : RoseTree Item} (nonempty : item.children.isEmpty = false) :
    ∃ child, item.children[edgeIndex flag item.children]? = some child := by
  rw [getElem?_edgeIndex]
  cases children : item.children with
  | nil => simp [children] at nonempty
  | cons child others =>
      cases flag with
      | false => exact ⟨child, rfl⟩
      | true => exact ⟨_, List.getLast?_cons⟩

/-- At a group with children the loop forgets its step. -/
theorem visitItem_of_nonempty {pos : Position} {item : RoseTree Item}
    (isGroup : item.label.isGroup = true) (nonempty : item.children.isEmpty = false)
    (val : Int) :
    visitItem flag pos item val = visitItem flag pos item 0 := by
  obtain ⟨child, read⟩ := @edge_of_nonempty flag item nonempty
  rw [visitItem_child isGroup read, visitItem_child isGroup read]

theorem visitItem_of_empty {pos : Position} {item : RoseTree Item}
    (isGroup : item.label.isGroup = true) (empty : item.children.isEmpty = true)
    (val : Int) :
    visitItem flag pos item val = .inr (pos, val) := by
  apply visitItem_empty isGroup
  rw [List.isEmpty_iff.mp empty]
  rfl

/-- The search ends exactly when it does not run into a dead end. -/
theorem search_returns_iff {p : Position} {u : RoseTree Item}
    (found : subtreeAt p tree = some u) :
    (∃ result, Loop.Returns (findStep tree flag) (p, direction flag) result) ↔
      runsIntoDeadEnd tree flag p = false := by
  simp only [Loop.returns_iff_continues]
  -- each iteration that does not end the search goes up or passes over one sibling
  induction bound : p.length + (beside flag p tree).length using Nat.strongRecOn
    generalizing p u with
  | _ bound inductionHypothesis =>
      subst bound
      rcases (@findStep_cases tree flag _ _ found) with ⟨rfl, step⟩ |
        ⟨q, i, parentItem, rfl, above, step, same⟩ | ⟨q, i, j, item, rfl, there, step, rest⟩
      · rw [step]
        exact iff_of_true ⟨none, rfl⟩ rfl
      · simp only [step, Loop.continues_inr]
        rw [runsIntoDeadEnd, same]
        exact inductionHypothesis _ (by rw [same, List.length_append]; simp) above rfl
      · rw [step, runsIntoDeadEnd, rest]
        cases kind : item.label.isGroup with
        | false =>
            rw [visitItem_question kind]
            apply iff_of_true ⟨_, rfl⟩
            rw [List.find?_cons_of_pos (by simp [stopsAt, kind])]
            rw [Option.any_some, deadEnd_eq, kind, Bool.false_and]
        | true =>
            cases empty : item.children.isEmpty with
            | true =>
                rw [visitItem_of_empty kind empty,
                  List.find?_cons_of_neg (by simp [stopsAt, kind, empty])]
                simp only [Loop.continues_inr]
                exact inductionHypothesis _ (by rw [rest]; simp) there rfl
            | false =>
                rw [visitItem_of_nonempty kind empty,
                  List.find?_cons_of_pos (by simp [stopsAt, empty]), Option.any_some]
                exact visit_returns_iff there kind

/-- The search can only end at the first question beside its start. -/
theorem search_result {p : Position} {u : RoseTree Item}
    (leaves : questionsAreLeaves tree = true)
    (found : subtreeAt p tree = some u)
    {result : Option Position}
    (returns : Loop.Returns (findStep tree flag) (p, direction flag) result) :
    result =
      ((beside flag p tree).flatMap fun entry => directed flag (questionsAt entry)).head? := by
  rw [Loop.returns_iff_continues] at returns
  induction bound : p.length + (beside flag p tree).length using Nat.strongRecOn
    generalizing p u with
  | _ bound inductionHypothesis =>
      subst bound
      rcases (@findStep_cases tree flag _ _ found) with ⟨rfl, step⟩ |
        ⟨q, i, parentItem, rfl, above, step, same⟩ | ⟨q, i, j, item, rfl, there, step, rest⟩
      · rw [step] at returns
        exact returns.symm
      · rw [step, Loop.continues_inr] at returns
        rw [same]
        exact inductionHypothesis _ (by rw [same, List.length_append]; simp) above returns rfl
      · have leavesThere := questionsAreLeaves_subtreeAt leaves there
        rw [rest, List.flatMap_cons, List.head?_append]
        rw [step] at returns
        have here : directed flag (questionsAt (q ++ [j], item)) =
            (directed flag (questions item)).map (q ++ [j] ++ ·) := (map_directed _ _).symm
        rw [here, List.head?_map]
        cases kind : item.label.isGroup with
        | false =>
            rw [visitItem_question kind, Loop.continues_inl] at returns
            rw [questions_of_question leavesThere kind, ← returns]
            cases flag <;> simp [directed]
        | true =>
            cases empty : item.children.isEmpty with
            | true =>
                rw [visitItem_of_empty kind empty, Loop.continues_inr] at returns
                have noQuestion : questions item = [] := by
                  cases item with
                  | node label items =>
                      obtain rfl := List.isEmpty_iff.mp empty
                      rw [label_node] at kind
                      rw [questions, places_node, kind]
                      rfl
                have further :=
                  inductionHypothesis _ (by rw [rest]; simp) there returns rfl
                rw [noQuestion]
                cases flag <;> simpa [directed] using further
            | false =>
                rw [visitItem_of_nonempty kind empty] at returns
                obtain ⟨r, isResult, first⟩ := visit_result leavesThere there kind returns
                rw [first, isResult]
                rfl

/-- `findTreeWidgetItem` ends after finitely many iterations exactly when the search does
not run into a dead end. -/
theorem findTreeWidgetItem_returns_iff (tree : RoseTree Item) (flag : Bool)
    {item : Option Position}
    (inTree : ∀ p ∈ item, ∃ u, subtreeAt p tree = some u) :
    (∃ fuel result, findTreeWidgetItem tree flag item fuel = some result) ↔
      ∀ p ∈ item, runsIntoDeadEnd tree flag p = false := by
  cases item with
  | none => exact iff_of_true ⟨0, none, rfl⟩ (by simp)
  | some p =>
      obtain ⟨u, found⟩ := inTree p rfl
      have ends := @search_returns_iff tree flag p u found
      rw [exists_comm]
      simp only [Option.mem_def, Option.some.injEq, forall_eq']
      exact ends

/-- Groups with one question, with no question and with no child, and a question beside
them. -/
def sampleItems : RoseTree Item :=
  .node { text := "bank", isGroup := true }
    [.node { text := "Words", isGroup := true }
        [.node { text := "Verbs", isGroup := true } [],
          .node { text := "hund", isGroup := false } []],
      .node { text := "Names", isGroup := true } [],
      .node { text := "katze", isGroup := false } []]

theorem findTreeWidgetItem_returns_iff_sampleItems :
    ∃ fuel result, findTreeWidgetItem sampleItems false (some [0, 1]) fuel = some result :=
  (findTreeWidgetItem_returns_iff sampleItems false (by
    intro p isStart
    cases isStart
    exact ⟨_, rfl⟩)).mpr (by decide)

/-- The next question after the only question of the first group is looked for in the
second group, whose only child is a group without children: the loop does not end. -/
theorem next_question_hangs :
    let items : RoseTree Item :=
      .node { text := "bank", isGroup := true }
        [.node { text := "Words", isGroup := true }
            [.node { text := "hund", isGroup := false } []],
          .node { text := "Verbs", isGroup := true }
            [.node { text := "Nouns", isGroup := true } []]]
    ∀ fuel, findTreeWidgetItem items false (some [0, 0]) fuel = none := by
  intro items fuel
  rcases fuel with _ | _ | fuel
  · rfl
  · rfl
  · exact @Loop.run_of_fixed _ _ (findStep items false) ([1, 0], 0) rfl fuel

/-! ## Neighbours -/

/-- What lies around a question in reading order. -/
theorem questions_around {p : Position} {before after : List Position}
    (leaves : questionsAreLeaves tree = true)
    (order : questions tree = before ++ p :: after) :
    ∃ u, subtreeAt p tree = some u ∧
      before.reverse =
        (beside true p tree).flatMap (fun entry => directed true (questionsAt entry)) ∧
      after =
        (beside false p tree).flatMap (fun entry => directed false (questionsAt entry)) := by
  have member : p ∈ questions tree := by simp [order]
  obtain ⟨u, found, isQuestion⟩ := mem_places_iff.mp member
  have kind : u.label.isGroup = false := by simpa using isQuestion
  refine ⟨u, found, ?_⟩
  have split := @places_split _ (fun item : Item => !item.isGroup) p tree u found (by
    intro q r v isPrefix nonempty above
    have leavesAbove := questionsAreLeaves_subtreeAt leaves above
    by_contra isQuestion
    have noChild := ((questionsAreLeaves_iff v).mp leavesAbove).1 (by simpa using isQuestion)
    obtain ⟨i, r, rfl⟩ := List.exists_cons_of_ne_nil nonempty
    rw [isPrefix, subtreeAt_append, above, Option.bind_some, subtreeAt_cons, noChild] at found
    cases found)
  have here := questions_of_question (questionsAreLeaves_subtreeAt leaves found) kind
  rw [questions] at here order
  rw [here, order, List.map_singleton, List.append_nil, List.singleton_append] at split
  have nodup := @nodup_places _ (fun item : Item => !item.isGroup) tree
  rw [order] at nodup
  have apart := (List.nodup_cons.mp (List.perm_middle.nodup_iff.mp nodup)).1
  rw [List.mem_append, not_or] at apart
  obtain ⟨rfl, _, rfl⟩ := (List.append_cons_inj_of_notMem apart.1 apart.2).mp split
  exact ⟨List.reverse_reverse _, rfl⟩

/-- When the search from a question ends, it has found the question next to it in reading
order, or none when there is none. -/
theorem search_neighbour {p : Position} {before after : List Position}
    (leaves : questionsAreLeaves tree = true)
    (order : questions tree = before ++ p :: after)
    {fuel : Nat} {result : Option Position}
    (ends : findTreeWidgetItem tree flag (some p) fuel = some result) :
    result = if flag then before.getLast? else after.head? := by
  obtain ⟨u, found, left, right⟩ := questions_around leaves order
  have isNext := search_result leaves found ⟨fuel, ends⟩
  cases flag with
  | false =>
      rw [← right] at isNext
      exact isNext
  | true =>
      rw [← left, List.head?_reverse] at isNext
      exact isNext

/-- Whenever the search from a question ends, it gives the next question in reading order,
or the previous one on the way back, and null exactly when there is none. Both directions
undo each other. -/
theorem findTreeWidgetItem_neighbour {tree : RoseTree Item} {p : Position}
    {before after : List Position}
    (leaves : questionsAreLeaves tree = true)
    (order : questions tree = before ++ p :: after) :
    (∀ flag fuel result, findTreeWidgetItem tree flag (some p) fuel = some result →
      result = if flag then before.getLast? else after.head?) ∧
    (∀ flag fuel q, findTreeWidgetItem tree flag (some p) fuel = some (some q) →
      ∀ fuel' result, findTreeWidgetItem tree (!flag) (some q) fuel' = some result →
        result = some p) := by
  refine ⟨fun flag fuel result ends => search_neighbour leaves order ends, ?_⟩
  intro flag fuel q ends fuel' result back
  have isNext := search_neighbour leaves order ends
  cases flag with
  | false =>
      obtain ⟨rest, rfl⟩ := List.head?_eq_some_iff.mp isNext.symm
      have order' : questions tree = (before ++ [p]) ++ q :: rest := by
        rw [order, List.append_assoc]
        rfl
      have isBack := search_neighbour leaves order' back
      simpa using isBack
  | true =>
      obtain ⟨rest, rfl⟩ := List.getLast?_eq_some_iff.mp isNext.symm
      have order' : questions tree = rest ++ q :: p :: after := by
        rw [order, List.append_assoc]
        rfl
      exact search_neighbour leaves order' back

theorem findTreeWidgetItem_neighbour_sampleItems :
    (∀ flag fuel result, findTreeWidgetItem sampleItems flag (some [0, 1]) fuel = some result →
      result = if flag then none else some [2]) ∧
    (∀ flag fuel q, findTreeWidgetItem sampleItems flag (some [0, 1]) fuel = some (some q) →
      ∀ fuel' result, findTreeWidgetItem sampleItems (!flag) (some q) fuel' = some result →
        result = some [0, 1]) :=
  @findTreeWidgetItem_neighbour sampleItems [0, 1] [] [[2]] (by decide) (by decide)

end Window

end Notebook
