import Notebook.Questions.Reading
import Notebook.Screen.Programs

/-!
# Reading through the bank

The screen shows each question of the bank once, and the button for the next question goes
through the screen. So, from the first question on, it shows each question of the bank once.
-/

namespace Notebook

open RoseTree KeyedList CQuestionBankImpl Window Cards

/-- A tree of items whose questions have no items below them. -/
theorem questionsAreLeaves_of_plug {tree : RoseTree Item}
    (leaf : ∀ c item items, tree = plug c (.node item items) → item.isGroup = false →
      items = []) : questionsAreLeaves tree = true := by
  induction tree using RoseTree.induction with
  | node label items inductionHypothesis =>
      refine (questionsAreLeaves_iff _).mpr ⟨leaf [] label items rfl, ?_⟩
      intro child member
      obtain ⟨before, after, rfl⟩ := List.append_of_mem member
      apply inductionHypothesis child member
      intro c item kids isChild isQuestion
      exact leaf (⟨label, before, after⟩ :: c) item kids (by rw [plug_cons, ← isChild])
        isQuestion

namespace Displays

variable {tree : RoseTree Item} {bank : QuestionBank}

theorem questionsAreLeaves (displays : Displays tree bank) :
    Window.questionsAreLeaves tree = true := by
  apply questionsAreLeaves_of_plug
  rintro c item items rfl isQuestion
  exact displays.children_of_question isQuestion

/-- A row without an item above is that of the root, which is no question. -/
theorem isGroup_of_root_row (displays : Displays tree bank)
    {row : Option (Bool × String) × Item} (isRow : row ∈ itemRows tree)
    (noParent : row.1 = none) : row.2.isGroup = true := by
  rcases exists_plug_of_mem_inherited isRow with rfl | ⟨c, parent, front, kid, back, _, rfl⟩
  · exact congrArg Prod.fst displays.root
  · cases noParent

/-- The cards in the pile carry the questions on screen. -/
theorem frontText_questions (displays : Displays tree bank) :
    (Window.questions tree).map (fun p => frontText tree (some p)) =
      (questionRows tree).map fun row => row.2.1 := by
  have labels := @map_label_places _ (fun item : Item => !item.isGroup) tree
  have texts := congrArg
    (List.map fun label : Option Item => (label.map Item.text).getD "") labels
  have fronts : (Window.questions tree).map (fun p => frontText tree (some p)) =
      (tree.preorder.filter fun item => !item.isGroup).map Item.text := by
    simpa [Window.questions, frontText, Function.comp_def] using texts
  rw [fronts, ← map_snd_inherited Item.handDown none tree, List.filter_map, List.map_map,
    questionRows, List.map_filterMap, ← List.filterMap_eq_map, List.filterMap_filter]
  apply List.filterMap_congr
  rintro ⟨above, item⟩ isRow
  cases above with
  | none =>
      have isGroup := displays.isGroup_of_root_row isRow rfl
      simp [Item.questionRow, show item.isGroup = true from isGroup]
  | some above =>
      cases isGroup : item.isGroup <;> simp [Item.questionRow, isGroup]

end Displays

namespace Program

/-- The window when the actions at the menu are done. -/
def lastWindow (rt : Runtime) (root : Path) (program : Program) (disk : Disk) :
    Option Window :=
  (program.opened rt root disk).2.1.map fun w =>
    (Machine.run (MenuCall.perform rt) program.calls w).2

/-- In any run of the program after any number of others, from the first question on screen
on, the button for the next question shows every question of the bank once and then says that
there is none left, and the other button shows them in the opposite order. -/
theorem run_read_through (rt : Runtime) {root : Path} {disk : Disk}
    (nothingYet : NothingYet root disk) {programs : List Program} {last : Program}
    (proper : Machine.Allowed (perform rt root) (Proper rt root) (programs ++ [last]) disk)
    (noDeadEnds : ∀ w ∈ last.lastWindow rt root
      (Machine.run (perform rt root) programs disk).2, NoDeadEnds w.ptrQuestion) :
    ∃ w, last.lastWindow rt root (Machine.run (perform rt root) programs disk).2 = some w ∧
      ∀ first rest, questions w.ptrQuestion = first :: rest →
        ∃ enough, ∀ fuel ≥ enough, ∀ r : Reader, r.ptrQuestion = w.ptrQuestion →
          let start := r.pressLeft first
          let forth :=
            Machine.run (Reader.shownBy fuel) (List.replicate rest.length .next) start
          let back :=
            Machine.run (Reader.shownBy fuel) (List.replicate rest.length .last) forth.2
          (start.edtQuestion :: forth.1).Perm
              (w.ptrBank.questionRows.map fun row => row.2.1) ∧
            forth.2.handle fuel .next =
              (some (some (.information "提示" "已到最后一个！")), forth.2) ∧
            back.1 = (start.edtQuestion :: forth.1).reverse.tail ∧
            back.2.handle fuel .last =
              (some (some (.information "提示" "已到第一个！")), back.2) := by
  rw [Machine.allowed_append] at proper
  obtain ⟨bank, holds⟩ := run_holds nothingYet proper.1
  obtain ⟨w, opened, shows, inSession⟩ := opened_shows holds proper.2.1
  obtain ⟨_, next, final⟩ := shows.run rt inSession
  have isLast : last.lastWindow rt root (Machine.run (perform rt root) programs disk).2 =
      some (Machine.run (MenuCall.perform rt) last.calls w).2 := by
    rw [lastWindow, opened]
    rfl
  refine ⟨_, isLast, ?_⟩
  have clear := noDeadEnds _ isLast
  generalize (Machine.run (MenuCall.perform rt) last.calls w).2 = w at final clear ⊢
  intro first rest order
  obtain ⟨enough, ends⟩ := clear.exists_enough
  refine ⟨enough, fun fuel le r same => ?_⟩
  have leaves := final.displays.questionsAreLeaves
  have member : first ∈ questions w.ptrQuestion := by simp [order]
  obtain ⟨u, found, kind⟩ := mem_places_iff.mp member
  have isItem : r.itemAt first = some u.label := by
    rw [Reader.itemAt, same, found, Option.map_some]
  have isQuestion : u.label.isGroup = false := by simpa using kind
  intro start forth back
  have shown : start.edtQuestion = frontText w.ptrQuestion (some first) := by
    simp [start, Reader.pressLeft, isItem, isQuestion, frontText, found]
  obtain ⟨texts, sameForth, currentForth, endForth⟩ :=
    @Reader.run_button _ leaves fuel (ends fuel le) false [] rest first order start
      (show start.ptrQuestion = w.ptrQuestion by
        simp only [start, Reader.pressLeft, isItem]
        exact same)
      (show start.currentItem = some first by simp [start, Reader.pressLeft, isItem])
  -- the way back starts at the last question
  obtain ⟨before, lastPosition, whole⟩ := (List.eq_nil_or_concat' (first :: rest)).resolve_left
    (List.cons_ne_nil first rest)
  have sameLength : rest.length = before.reverse.length := by
    have lengths := congrArg List.length whole
    simp only [List.length_cons, List.length_append, List.length_nil] at lengths
    rw [List.length_reverse]
    omega
  have orderBack : directed true (questions w.ptrQuestion) =
      [] ++ lastPosition :: before.reverse := by
    rw [order, whole]
    simp [directed]
  have atEnd : (first :: rest).getLast (List.cons_ne_nil first rest) = lastPosition := by
    simp [whole]
  rw [atEnd] at currentForth
  obtain ⟨textsBack, _, _, endBack⟩ :=
    @Reader.run_button _ leaves fuel (ends fuel le) true [] before.reverse lastPosition
      orderBack forth.2 sameForth currentForth
  rw [← sameLength] at textsBack endBack
  have all : start.edtQuestion :: forth.1 =
      (questions w.ptrQuestion).map fun p => frontText w.ptrQuestion (some p) := by
    rw [shown, order, List.map_cons]
    exact congrArg _ texts
  refine ⟨?_, endForth, ?_, endBack⟩
  · rw [all, final.displays.frontText_questions]
    exact ((final.displays.rows_of_bank final.shown final.sound.ready).2).map _
  · rw [all, order, whole]
    refine textsBack.trans ?_
    simp

theorem run_read_through_secondProgram :
    ∃ w, secondProgram.lastWindow .wire ["root"]
        (Machine.run (perform .wire ["root"]) [firstProgram] FileSystem.empty).2 = some w ∧
      ∀ first rest, questions w.ptrQuestion = first :: rest →
        ∃ enough, ∀ fuel ≥ enough, ∀ r : Reader, r.ptrQuestion = w.ptrQuestion →
          let start := r.pressLeft first
          let forth :=
            Machine.run (Reader.shownBy fuel) (List.replicate rest.length .next) start
          let back :=
            Machine.run (Reader.shownBy fuel) (List.replicate rest.length .last) forth.2
          (start.edtQuestion :: forth.1).Perm
              (w.ptrBank.questionRows.map fun row => row.2.1) ∧
            forth.2.handle fuel .next =
              (some (some (.information "提示" "已到最后一个！")), forth.2) ∧
            back.1 = (start.edtQuestion :: forth.1).reverse.tail ∧
            back.2.handle fuel .last =
              (some (some (.information "提示" "已到第一个！")), back.2) :=
  run_read_through .wire (.absent rfl (by decide)) (by decide +kernel) (by decide +kernel)

end Program

end Notebook
