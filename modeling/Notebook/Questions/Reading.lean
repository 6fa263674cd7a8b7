import Mathlib.Data.Finset.Dedup
import Mathlib.Order.Filter.AtTopBot.Basic
import Mathlib.Order.Filter.Finite
import Notebook.Library.Runs
import Notebook.Library.Spans
import Notebook.Questions.Navigation

/-!
# Reading the questions

The questions on screen are read like a pile of cards. A click on an item goes to its place
in the pile, the buttons turn to the card before or after that place, and a third button
shows the back of the card.
-/

namespace Notebook

open RoseTree

namespace Window

variable {tree : RoseTree Item}

/-- No search from an item runs into a dead end. -/
def NoDeadEnds (tree : RoseTree Item) : Prop :=
  ∀ p ∈ places (fun _ => true) tree, ∀ flag, runsIntoDeadEnd tree flag p = false

instance (tree : RoseTree Item) : Decidable (NoDeadEnds tree) :=
  inferInstanceAs (Decidable (∀ p ∈ _, ∀ _, _))

/-- Then a number of iterations is enough for every search. -/
theorem NoDeadEnds.exists_enough (noDeadEnds : NoDeadEnds tree) :
    ∃ enough, ∀ fuel ≥ enough, ∀ flag p u, subtreeAt p tree = some u →
      ∃ result, findTreeWidgetItem tree flag (some p) fuel = some result := by
  have each : ∀ p ∈ (places (fun _ => true) tree).toFinset, ∀ᶠ fuel in Filter.atTop,
      ∀ flag, ∃ result, findTreeWidgetItem tree flag (some p) fuel = some result := by
    intro p isPlace
    have inTree := List.mem_toFinset.mp isPlace
    obtain ⟨u, found, _⟩ := mem_places_iff.mp inTree
    refine Filter.eventually_all.mpr fun flag => ?_
    obtain ⟨result, fuel, ended⟩ := (search_returns_iff found).mpr (noDeadEnds p inTree flag)
    exact Filter.eventually_atTop.mpr ⟨fuel, fun more le => ⟨result, Loop.run_mono le ended⟩⟩
  obtain ⟨enough, all⟩ :=
    Filter.eventually_atTop.mp ((Filter.eventually_all_finset _).mpr each)
  refine ⟨enough, fun fuel le flag p u found => all fuel le p ?_ flag⟩
  exact List.mem_toFinset.mpr (mem_places_iff.mpr ⟨u, found, rfl⟩)

/-! ## Places in the pile -/

/-- The questions at and below a position, with those before and after it on screen. -/
def spanAt (tree : RoseTree Item) (p : Position) : Span Position where
  before := ((beside true p tree).flatMap fun entry => (questionsAt entry).reverse).reverse
  here := ((subtreeAt p tree).elim [] questions).map (p ++ ·)
  after := (beside false p tree).flatMap questionsAt

/-- An item with an item below it is a group. -/
theorem isGroup_above (leaves : questionsAreLeaves tree = true) {q r : Position}
    {u v : RoseTree Item} (found : subtreeAt (q ++ r) tree = some u) (below : r ≠ [])
    (above : subtreeAt q tree = some v) : v.label.isGroup = true := by
  by_contra isQuestion
  have noChild := ((questionsAreLeaves_iff v).mp (questionsAreLeaves_subtreeAt leaves above)).1
    (by simpa using isQuestion)
  obtain ⟨i, r, rfl⟩ := List.exists_cons_of_ne_nil below
  rw [subtreeAt_append, above, Option.bind_some, subtreeAt_cons, noChild] at found
  cases found

/-- The places are places in the pile of all questions. -/
theorem whole_spanAt (leaves : questionsAreLeaves tree = true) {p : Position}
    {u : RoseTree Item} (found : subtreeAt p tree = some u) :
    (spanAt tree p).whole = questions tree := by
  have split := @places_split _ (fun item : Item => !item.isGroup) p tree u found (by
    intro q r v isPrefix nonempty above
    rw [isPrefix] at found
    simpa using isGroup_above leaves found nonempty above)
  rw [questions, split, Span.whole, spanAt, found]
  rfl

/-- The place of a question holds that question. -/
theorem here_spanAt (leaves : questionsAreLeaves tree = true) {p : Position}
    {u : RoseTree Item} (found : subtreeAt p tree = some u)
    (isQuestion : u.label.isGroup = false) : (spanAt tree p).here = [p] := by
  have single := questions_of_question (questionsAreLeaves_subtreeAt leaves found) isQuestion
  simp [spanAt, found, single]

/-- A search that ends has found the neighbour of its place. -/
theorem findTreeWidgetItem_spanAt (leaves : questionsAreLeaves tree = true) {p : Position}
    {u : RoseTree Item} (found : subtreeAt p tree = some u) {flag : Bool} {fuel : Nat}
    {result : Option Position}
    (ended : findTreeWidgetItem tree flag (some p) fuel = some result) :
    result = (spanAt tree p).neighbour flag := by
  rw [search_result leaves found ⟨fuel, ended⟩]
  cases flag with
  | false => rfl
  | true => exact (List.getLast?_reverse ..).symm

/-- The neighbour of a place is a question, and the step to it leads to its place. -/
theorem spanAt_of_step (leaves : questionsAreLeaves tree = true) {p q : Position}
    {u : RoseTree Item} (found : subtreeAt p tree = some u) {flag : Bool} {t : Span Position}
    (went : (spanAt tree p).step flag = some (q, t)) :
    ∃ v, subtreeAt q tree = some v ∧ v.label.isGroup = false ∧ t = spanAt tree q := by
  rcases (spanAt tree p).step_cases flag with ⟨_, stays⟩ | ⟨q', t', _, goes, here, whole⟩
  · rw [stays] at went
    cases went
  · rw [goes] at went
    cases went
    rw [whole_spanAt leaves found] at whole
    have member : q ∈ questions tree := by simp [← whole, Span.whole, here]
    obtain ⟨v, foundNext, kind⟩ := mem_places_iff.mp member
    have isQuestion : v.label.isGroup = false := by simpa using kind
    have all := whole_spanAt leaves foundNext
    refine ⟨v, foundNext, isQuestion, Span.eq_of_whole ?_ ?_
      (here_spanAt leaves foundNext isQuestion) here⟩
    · rw [all]
      exact nodup_places tree
    · rw [all, whole]

end Window

/-! ## The pile of cards -/

/-- A reader of the cards: the place in the pile, the item there, and the cards whose front
and whose back are shown. -/
structure Cards where
  place : Span Position
  item : Position
  front : Option Position
  back : Option Position

namespace Cards

open Window

/-- The text on the front of a card. -/
def frontText (tree : RoseTree Item) (card : Option Position) : String :=
  ((card.bind fun p => subtreeAt p tree).map fun u => u.label.text).getD ""

/-- The text on the back of a card. -/
def backText (tree : RoseTree Item) (card : Option Position) : String :=
  ((card.bind fun p => subtreeAt p tree).map fun u => u.label.answerText).getD ""

/-- Go to an item and show the front of its card. -/
def goTo (tree : RoseTree Item) (p : Position) (isGroup : Bool) : Cards where
  place := spanAt tree p
  item := p
  front := if isGroup then none else some p
  back := none

/-- Turn to the card before or after the place. -/
def turn (backward : Bool) (text : String) (c : Cards) :
    Option (Option MessageBox) × Cards :=
  match c.place.step backward with
  | none => (some (some (.information "提示" text)), c)
  | some (p, place) => (some none, { place := place, item := p, front := some p, back := none })

/-- What the clicks do with the cards. -/
def handle (tree : RoseTree Item) :
    Machine Reader.Click Cards (Option (Option MessageBox))
  | .left p, c =>
      match subtreeAt p tree with
      | none => (some none, c)
      | some u => (some none, goTo tree p u.label.isGroup)
  | .right p, c =>
      match subtreeAt p tree with
      | none => (some none, c)
      | some _ => (some none, { c with place := spanAt tree p, item := p })
  | .last, c => c.turn true "已到第一个！"
  | .next, c => c.turn false "已到最后一个！"
  | .showAnswer, c =>
      if backText tree (some c.item) = "" then
        (some (some (.information "提示" "暂未录入答案！")), c)
      else (some none, { c with back := some c.item })

end Cards

namespace Reader

open Window Cards

/-- The window shows what the reader of the cards sees. -/
structure Follows (tree : RoseTree Item) (r : Reader) (c : Cards) : Prop where
  items : r.ptrQuestion = tree
  current : r.currentItem = some c.item
  inTree : ∃ u, subtreeAt c.item tree = some u
  place : c.place = spanAt tree c.item
  front : r.edtQuestion = frontText tree c.front
  back : r.edtAnswer = backText tree c.back

variable {tree : RoseTree Item} {r : Reader} {c : Cards}

/-- A click on an item goes to its place in the pile. -/
theorem follows_pressLeft (same : r.ptrQuestion = tree) {p : Position} {u : RoseTree Item}
    (found : subtreeAt p tree = some u) :
    Follows tree (r.pressLeft p) (goTo tree p u.label.isGroup) := by
  subst same
  have isItem : r.itemAt p = some u.label := by rw [itemAt, found, Option.map_some]
  rw [pressLeft, isItem]
  refine ⟨rfl, rfl, ⟨u, found⟩, rfl, ?_, rfl⟩
  cases kind : u.label.isGroup <;> simp [goTo, frontText, found, kind]

/-- The buttons turn the cards. -/
theorem Follows.turn (leaves : questionsAreLeaves tree = true) (follows : Follows tree r c)
    {flag : Bool} {fuel : Nat}
    (ends : ∃ result, findTreeWidgetItem tree flag (some c.item) fuel = some result)
    (text : String) :
    (r.onBtnClickedQuestion flag text fuel).1 = (c.turn flag text).1 ∧
      Follows tree (r.onBtnClickedQuestion flag text fuel).2 (c.turn flag text).2 := by
  obtain ⟨result, ended⟩ := ends
  obtain ⟨u, found⟩ := follows.inTree
  have isNeighbour := findTreeWidgetItem_spanAt leaves found ended
  rw [onBtnClickedQuestion, follows.items, follows.current, ended, Cards.turn, follows.place]
  rcases (spanAt tree c.item).step_cases flag with ⟨none, stays⟩ | ⟨q, t, next, goes, _⟩
  · rw [isNeighbour, none, stays]
    exact ⟨rfl, follows⟩
  · obtain ⟨v, foundNext, _, place⟩ := spanAt_of_step leaves found goes
    rw [isNeighbour, next, goes]
    refine ⟨rfl, rfl, rfl, ⟨v, foundNext⟩, place, ?_, rfl⟩
    simp [itemAt, follows.items, frontText, foundNext]

/-- The third button shows the back of the card at the place. -/
theorem Follows.showAnswer (follows : Follows tree r c) :
    some r.onBtnClickedShowAnswer.1 = (Cards.handle tree .showAnswer c).1 ∧
      Follows tree r.onBtnClickedShowAnswer.2 (Cards.handle tree .showAnswer c).2 := by
  obtain ⟨u, found⟩ := follows.inTree
  have isItem : r.currentItem.bind r.itemAt = some u.label := by
    rw [follows.current, Option.bind_some, itemAt, follows.items, found, Option.map_some]
  have answer : backText tree (some c.item) = u.label.answerText := by
    simp [backText, found]
  simp only [onBtnClickedShowAnswer, isItem, Cards.handle, answer]
  by_cases empty : u.label.answerText = ""
  · rw [if_pos empty, if_pos empty]
    exact ⟨rfl, follows⟩
  · rw [if_neg empty, if_neg empty]
    exact ⟨rfl, follows.items, follows.current, follows.inTree, follows.place, follows.front,
      answer.symm⟩

/-- Every click does to the window what it does to the cards. -/
theorem Follows.handle (leaves : questionsAreLeaves tree = true) {fuel : Nat}
    (ends : ∀ flag p u, subtreeAt p tree = some u →
      ∃ result, findTreeWidgetItem tree flag (some p) fuel = some result)
    (click : Click) (follows : Follows tree r c) :
    (Reader.handle fuel click r).1 = (Cards.handle tree click c).1 ∧
      Follows tree (Reader.handle fuel click r).2 (Cards.handle tree click c).2 := by
  obtain ⟨u, found⟩ := follows.inTree
  cases click with
  | left p =>
      rw [Reader.handle, Cards.handle]
      cases pressed : subtreeAt p tree with
      | none =>
          have noItem : r.itemAt p = none := by rw [itemAt, follows.items, pressed]; rfl
          rw [pressLeft, noItem]
          exact ⟨rfl, follows⟩
      | some v => exact ⟨rfl, follows_pressLeft follows.items pressed⟩
  | right p =>
      rw [Reader.handle, Cards.handle]
      cases pressed : subtreeAt p tree with
      | none =>
          have noItem : r.itemAt p = none := by rw [itemAt, follows.items, pressed]; rfl
          rw [pressRight, noItem]
          exact ⟨rfl, follows⟩
      | some v =>
          have isItem : r.itemAt p = some v.label := by
            rw [itemAt, follows.items, pressed, Option.map_some]
          rw [pressRight, isItem]
          exact ⟨rfl, follows.items, rfl, ⟨v, pressed⟩, rfl, follows.front, follows.back⟩
  | last => exact follows.turn leaves (ends true _ u found) _
  | next => exact follows.turn leaves (ends false _ u found) _
  | showAnswer => exact follows.showAnswer

/-- From a click on an item on, whatever the window showed before, every run of clicks turns
the pile of the questions on screen: the boxes show the front and the back of cards, and the
places are places in the pile. -/
theorem run_reads (leaves : questionsAreLeaves tree = true) (noDeadEnds : NoDeadEnds tree) :
    ∃ enough, ∀ fuel ≥ enough, ∀ r : Reader, r.ptrQuestion = tree →
      ∀ p u, subtreeAt p tree = some u → ∀ clicks : List Click,
        let reading := Machine.run (Reader.handle fuel) clicks (r.pressLeft p)
        let cards := Machine.run (Cards.handle tree) clicks (goTo tree p u.label.isGroup)
        reading.1 = cards.1 ∧ cards.2.place.whole = questions tree ∧
          reading.2.currentItem = some cards.2.item ∧
          reading.2.edtQuestion = frontText tree cards.2.front ∧
          reading.2.edtAnswer = backText tree cards.2.back := by
  obtain ⟨enough, ends⟩ := noDeadEnds.exists_enough
  refine ⟨enough, fun fuel le r same p u found clicks => ?_⟩
  obtain ⟨answers, final⟩ := Machine.run_simulates
    (fun click _ _ follows => Follows.handle leaves (ends fuel le) click follows) clicks
    (follows_pressLeft same found)
  obtain ⟨v, foundLast⟩ := final.inTree
  refine ⟨answers, ?_, final.current, final.front, final.back⟩
  rw [final.place]
  exact whole_spanAt leaves foundLast

theorem run_reads_sampleItems :
    ∃ enough, ∀ fuel ≥ enough, ∀ r : Reader, r.ptrQuestion = sampleItems →
      ∀ p u, subtreeAt p sampleItems = some u → ∀ clicks : List Click,
        let reading := Machine.run (Reader.handle fuel) clicks (r.pressLeft p)
        let cards := Machine.run (Cards.handle sampleItems) clicks
          (goTo sampleItems p u.label.isGroup)
        reading.1 = cards.1 ∧ cards.2.place.whole = questions sampleItems ∧
          reading.2.currentItem = some cards.2.item ∧
          reading.2.edtQuestion = frontText sampleItems cards.2.front ∧
          reading.2.edtAnswer = backText sampleItems cards.2.back :=
  run_reads (by decide) (by decide)

/-! ## The boxes and the current item -/

/-- The boxes show an item: its text when it is a question, and at most its answer. -/
def Fits (r : Reader) (item : Item) : Prop :=
  r.edtQuestion = (if item.isGroup then "" else item.text) ∧
    (r.edtAnswer = "" ∨ r.edtAnswer = item.answerText)

instance (r : Reader) (item : Item) : Decidable (r.Fits item) :=
  inferInstanceAs (Decidable (_ ∧ _))

/-- The boxes show the current item. -/
def ShowsCurrent (r : Reader) : Prop :=
  ∃ p item, r.currentItem = some p ∧ r.itemAt p = some item ∧ r.Fits item

theorem ShowsCurrent.pressLeft (shows : r.ShowsCurrent) (p : Position) :
    (r.pressLeft p).ShowsCurrent := by
  rw [Reader.pressLeft]
  cases found : r.itemAt p with
  | none => exact shows
  | some item => exact ⟨p, item, rfl, found, rfl, Or.inl rfl⟩

theorem ShowsCurrent.showAnswer (shows : r.ShowsCurrent) :
    r.onBtnClickedShowAnswer.2.ShowsCurrent := by
  obtain ⟨p, item, current, found, front, back⟩ := shows
  have isItem : r.currentItem.bind r.itemAt = some item := by
    rw [current, Option.bind_some, found]
  simp only [onBtnClickedShowAnswer, isItem]
  split
  · exact ⟨p, item, current, found, front, back⟩
  · exact ⟨p, item, current, found, front, Or.inr rfl⟩

/-- A search either leaves the window as it is or shows the question that it found. -/
theorem ShowsCurrent.turn (leaves : questionsAreLeaves r.ptrQuestion = true)
    (shows : r.ShowsCurrent) (flag : Bool) (text : String) (fuel : Nat) :
    (r.onBtnClickedQuestion flag text fuel).2.ShowsCurrent := by
  have before := shows
  obtain ⟨p, item, current, isItem, _⟩ := shows
  obtain ⟨u, found, _⟩ := Option.map_eq_some_iff.mp isItem
  rw [onBtnClickedQuestion, current]
  cases ended : findTreeWidgetItem r.ptrQuestion flag (some p) fuel with
  | none => exact before
  | some result =>
      have isNeighbour := findTreeWidgetItem_spanAt leaves found ended
      rcases (spanAt r.ptrQuestion p).step_cases flag with ⟨none, _⟩ | ⟨q, t, next, goes, _⟩
      · rw [isNeighbour, none]
        exact before
      · obtain ⟨v, foundNext, isQuestion, _⟩ := spanAt_of_step leaves found goes
        rw [isNeighbour, next]
        have there : r.itemAt q = some v.label := by rw [itemAt, foundNext, Option.map_some]
        refine ⟨q, v.label, rfl, there, ?_, Or.inl rfl⟩
        simp [there, isQuestion]

/-- No click changes the items. -/
theorem ptrQuestion_handle (fuel : Nat) (click : Click) (r : Reader) :
    (r.handle fuel click).2.ptrQuestion = r.ptrQuestion := by
  cases click with
  | left p => rw [Reader.handle, pressLeft]; split <;> rfl
  | right p => rw [Reader.handle, pressRight]; split <;> rfl
  | last => rw [Reader.handle, onBtnClickedLastQuestion, onBtnClickedQuestion]; split <;> rfl
  | next => rw [Reader.handle, onBtnClickedNextQuestion, onBtnClickedQuestion]; split <;> rfl
  | showAnswer =>
      rw [Reader.handle, onBtnClickedShowAnswer]
      split
      · rfl
      · split <;> rfl

theorem ptrQuestion_run (fuel : Nat) (clicks : List Click) (r : Reader) :
    (Machine.run (Reader.handle fuel) clicks r).2.ptrQuestion = r.ptrQuestion :=
  @Machine.run_invariant _ _ _ (Reader.handle fuel) (fun now => now.ptrQuestion = r.ptrQuestion)
    (fun click now same => (ptrQuestion_handle fuel click now).trans same) clicks r rfl

/-- An item that is clicked with the right button is one that the boxes show already. -/
def RightFits (click : Click) (r : Reader) (_ : Option (Option MessageBox)) : Prop :=
  match click with
  | .right p => ∀ item ∈ r.itemAt p, r.Fits item
  | _ => True

instance (click : Click) (r : Reader) (answer : Option (Option MessageBox)) :
    Decidable (RightFits click r answer) := by
  unfold RightFits
  split <;> infer_instance

/-- The boxes keep showing the current item exactly when a click with the right button is on
an item that they show already. -/
theorem ShowsCurrent.handle_iff (leaves : questionsAreLeaves r.ptrQuestion = true)
    (shows : r.ShowsCurrent) (fuel : Nat) (click : Click) :
    (r.handle fuel click).2.ShowsCurrent ↔ RightFits click r (r.handle fuel click).1 := by
  cases click with
  | left p => exact iff_of_true (shows.pressLeft p) trivial
  | last => exact iff_of_true (shows.turn leaves true _ fuel) trivial
  | next => exact iff_of_true (shows.turn leaves false _ fuel) trivial
  | showAnswer => exact iff_of_true shows.showAnswer trivial
  | right p =>
      change (r.pressRight p).ShowsCurrent ↔ ∀ item ∈ r.itemAt p, r.Fits item
      rw [pressRight]
      cases found : r.itemAt p with
      | none => exact iff_of_true shows (by simp)
      | some item =>
          constructor
          · rintro ⟨q, other, current, there, front, back⟩ item' same
            cases same
            cases current
            cases found.symm.trans there
            exact ⟨front, back⟩
          · intro fits
            exact ⟨p, item, rfl, found, fits item rfl⟩

/-- From a click on an item on, whatever the window showed before and whether or not searches
end, the boxes show the current item all the time exactly when every click with the right
button is on an item that they show already. -/
theorem run_shows_current {r : Reader} (leaves : questionsAreLeaves r.ptrQuestion = true)
    {p : Position} {item : Item} (found : r.itemAt p = some item) (fuel : Nat)
    (clicks : List Click) :
    Machine.Always (Reader.handle fuel) ShowsCurrent clicks (r.pressLeft p) ↔
      Machine.Allowed (Reader.handle fuel) RightFits clicks (r.pressLeft p) := by
  have start : (r.pressLeft p).ptrQuestion = r.ptrQuestion ∧ (r.pressLeft p).ShowsCurrent := by
    rw [pressLeft, found]
    exact ⟨rfl, p, item, rfl, found, rfl, Or.inl rfl⟩
  have withItems := @Machine.always_iff_allowed _ _ _ (Reader.handle fuel)
    (fun now => now.ptrQuestion = r.ptrQuestion ∧ now.ShowsCurrent) (fun _ _ _ => True)
    RightFits (by
      rintro click now ⟨same, shows⟩ _
      rw [ptrQuestion_handle, and_iff_right same]
      exact shows.handle_iff (by rw [same]; exact leaves) fuel click) clicks _ start
    (Machine.allowed_of_forall (fun _ _ _ => trivial) _ _)
  rw [← withItems]
  exact forall₃_congr fun done _ _ =>
    (and_iff_right ((ptrQuestion_run fuel done _).trans start.1)).symm

theorem run_shows_current_sampleItems :
    Machine.Always (Reader.handle 9) ShowsCurrent [.next, .right [2], .last, .showAnswer]
        (pressLeft [0, 1] ⟨sampleItems, none, "", ""⟩) ↔
      Machine.Allowed (Reader.handle 9) RightFits [.next, .right [2], .last, .showAnswer]
        (pressLeft [0, 1] ⟨sampleItems, none, "", ""⟩) :=
  @run_shows_current ⟨sampleItems, none, "", ""⟩ (by decide) [0, 1] _ rfl 9 _

/-! ## From one end to the other -/

/-- The text in the box of the question after a click. -/
def shownBy (fuel : Nat) : Machine Click Reader String := fun click r =>
  ((r.handle fuel click).2.edtQuestion, (r.handle fuel click).2)

/-- The button of a direction. -/
def button (flag : Bool) : Click :=
  if flag then .last else .next

/-- The text of the box at the end of a direction. -/
def endText (flag : Bool) : String :=
  if flag then "已到第一个！" else "已到最后一个！"

theorem handle_button (flag : Bool) (fuel : Nat) (r : Reader) :
    r.handle fuel (button flag) = r.onBtnClickedQuestion flag (endText flag) fuel := by
  cases flag <;> rfl

/-- The search from a question goes to the one after it in its direction. -/
theorem findTreeWidgetItem_directed (leaves : questionsAreLeaves tree = true) {flag : Bool}
    {seen rest : List Position} {p : Position}
    (order : directed flag (questions tree) = seen ++ p :: rest) {fuel : Nat}
    {result : Option Position}
    (ended : findTreeWidgetItem tree flag (some p) fuel = some result) :
    result = rest.head? := by
  cases flag with
  | false => exact search_neighbour leaves order ended
  | true =>
      have order' : questions tree = rest.reverse ++ p :: seen.reverse := by
        rw [← List.reverse_reverse (questions tree),
          show (questions tree).reverse = seen ++ p :: rest from order]
        simp
      rw [search_neighbour leaves order' ended]
      exact List.getLast?_reverse ..

/-- The button shows the questions of its direction one after the other, and says in the end
that there is none left. -/
theorem run_button (leaves : questionsAreLeaves tree = true) {fuel : Nat}
    (ends : ∀ flag p u, subtreeAt p tree = some u →
      ∃ result, findTreeWidgetItem tree flag (some p) fuel = some result)
    {flag : Bool} {seen rest : List Position} {p : Position}
    (order : directed flag (questions tree) = seen ++ p :: rest) {r : Reader}
    (same : r.ptrQuestion = tree) (current : r.currentItem = some p) :
    let shown := Machine.run (shownBy fuel) (List.replicate rest.length (button flag)) r
    shown.1 = rest.map (fun q => frontText tree (some q)) ∧
      shown.2.ptrQuestion = tree ∧
      shown.2.currentItem = some ((p :: rest).getLast (List.cons_ne_nil p rest)) ∧
      shown.2.handle fuel (button flag) =
        (some (some (.information "提示" (endText flag))), shown.2) := by
  induction rest generalizing seen p r with
  | nil =>
      have member : p ∈ questions tree := by
        have inDirected : p ∈ directed flag (questions tree) := by simp [order]
        cases flag <;> simpa [directed] using inDirected
      obtain ⟨u, found, _⟩ := mem_places_iff.mp member
      obtain ⟨result, ended⟩ := ends flag p u found
      have isEnd := findTreeWidgetItem_directed leaves order ended
      refine ⟨rfl, same, current, ?_⟩
      change r.handle fuel (button flag) = _
      rw [handle_button, onBtnClickedQuestion, same, current, ended, isEnd]
      rfl
  | cons q rest inductionHypothesis =>
      have member : ∀ x ∈ [p, q], x ∈ questions tree := by
        intro x isOne
        have inDirected : x ∈ directed flag (questions tree) := by
          rw [order]
          rcases List.mem_cons.mp isOne with rfl | isNext
          · simp
          · simp [List.mem_singleton.mp isNext]
        cases flag <;> simpa [directed] using inDirected
      obtain ⟨u, found, _⟩ := mem_places_iff.mp (member p (by simp))
      obtain ⟨v, foundNext, _⟩ := mem_places_iff.mp (member q (by simp))
      obtain ⟨result, ended⟩ := ends flag p u found
      have isNext := findTreeWidgetItem_directed leaves order ended
      have clicked : (r.handle fuel (button flag)).2 =
          { r with
            currentItem := some q
            edtQuestion := frontText tree (some q)
            edtAnswer := "" } := by
        rw [handle_button, onBtnClickedQuestion, same, current, ended, isNext]
        simp [itemAt, same, frontText, foundNext]
      have order' : directed flag (questions tree) = (seen ++ [p]) ++ q :: rest := by
        rw [order, List.append_assoc]
        rfl
      have further := inductionHypothesis order'
        (show (r.handle fuel (button flag)).2.ptrQuestion = tree by rw [clicked]; exact same)
        (show (r.handle fuel (button flag)).2.currentItem = some q by rw [clicked])
      intro shown
      have isShown : shown =
          ((r.handle fuel (button flag)).2.edtQuestion ::
              (Machine.run (shownBy fuel) (List.replicate rest.length (button flag))
                (r.handle fuel (button flag)).2).1,
            (Machine.run (shownBy fuel) (List.replicate rest.length (button flag))
                (r.handle fuel (button flag)).2).2) := rfl
      rw [isShown]
      refine ⟨?_, further.2.1, ?_, further.2.2.2⟩
      · rw [List.map_cons, ← further.1, clicked]
      · rw [further.2.2.1, List.getLast_cons_cons]

end Reader

end Notebook
