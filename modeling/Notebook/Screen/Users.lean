import Notebook.Dialogs.Asking
import Notebook.Screen.Programs

/-!
# Users at the menu and at the dialogs

An action of the menu opens a dialog, and what the user does there decides what the bank is
called with. The dialogs refuse empty texts, so no question and no group without a text gets
on the screen or into the bank.
-/

namespace Notebook

open RoseTree KeyedList CQuestionBankImpl

/-! ## Texts on screen -/

/-- Every item below the item of the bank has a text. -/
def HasTexts (tree : RoseTree Item) : Prop :=
  ∀ item ∈ tree.descendants, item.text ≠ ""

namespace HasTexts

variable {tree : RoseTree Item}

theorem addLeaf (hasTexts : HasTexts tree) {new : Item} (isText : new.text ≠ "")
    (p : Position) :
    HasTexts
      (modifyAt (fun item => .node item.label (item.children ++ [.node new []])) p tree) := by
  refine (forall_descendants_modifyAt
    (fun item => .node item.label (item.children ++ [.node new []])) (fun _ => rfl)
    (fun u below => ?_) p hasTexts).2
  simp only [descendants, children_node, List.flatMap_append, List.forall_mem_append]
  exact ⟨below, by simpa using isText⟩

theorem eraseIdx (hasTexts : HasTexts tree) (i : Nat) (p : Position) :
    HasTexts (modifyAt (fun item => .node item.label (item.children.eraseIdx i)) p tree) := by
  refine (forall_descendants_modifyAt
    (fun item => .node item.label (item.children.eraseIdx i)) (fun _ => rfl)
    (fun u below item isItem => ?_) p hasTexts).2
  obtain ⟨child, isChild, inChild⟩ := List.mem_flatMap.mp isItem
  exact below item (List.mem_flatMap.mpr ⟨child, List.mem_of_mem_eraseIdx isChild, inChild⟩)

theorem relabel (hasTexts : HasTexts tree) {change : Item → Item}
    (isText : ∀ item, (change item).text ≠ "") (p : Position) :
    HasTexts (modifyAt (fun item => .node (change item.label) item.children) p tree) := by
  rcases List.eq_nil_or_concat' p with rfl | ⟨q, i, rfl⟩
  · exact hasTexts
  · rw [modifyAt_append]
    refine (forall_descendants_modifyAt
      (modifyAt (fun item => .node (change item.label) item.children) [i]) (fun _ => rfl)
      (fun u below item isItem => ?_) q hasTexts).2
    rw [modifyAt_cons, descendants, children_node] at isItem
    obtain ⟨child, isChild, inChild⟩ := List.mem_flatMap.mp isItem
    obtain ⟨j, read⟩ := List.getElem?_of_mem isChild
    rw [List.getElem?_modify] at read
    obtain ⟨old, readOld, rfl⟩ := Option.map_eq_some_iff.mp read
    have inOld : ∀ b ∈ old.preorder, b.text ≠ "" := fun b inside =>
      below b (List.mem_flatMap.mpr ⟨old, List.mem_of_getElem? readOld, inside⟩)
    split at inChild
    · rw [modifyAt_nil, preorder_eq_label_cons, List.mem_cons] at inChild
      rcases inChild with rfl | further
      · exact isText _
      · exact inOld item (mem_preorder_of_mem_descendants further)
    · exact inOld item inChild

end HasTexts

/-! ## Texts that the dialogs return -/

/-- The texts that a dialog returns are not empty. -/
def MenuCall.GivesTexts (call : MenuCall) : Prop :=
  match call.action with
  | .addGroup dialog _ => ∀ name ∈ dialog, name ≠ ""
  | .modifyGroup dialog => ∀ name ∈ dialog, name ≠ ""
  | .addQuestion dialog _ => ∀ qd ∈ dialog, qd.question ≠ ""
  | .modifyQuestion dialog => ∀ qd ∈ dialog, qd.question ≠ ""
  | .deleteGroup => True
  | .deleteQuestion => True

namespace Window

variable {w : Window}

theorem onBtnClickedAddGroup_hasTexts (rt : Runtime) (hasTexts : HasTexts w.ptrQuestion)
    (current : Position) {dialog : Option String} (id : String)
    (gives : ∀ name ∈ dialog, name ≠ "") :
    HasTexts (w.onBtnClickedAddGroup rt current dialog id).2.ptrQuestion := by
  cases dialog with
  | none => exact hasTexts
  | some name =>
      rw [onBtnClickedAddGroup]
      split
      · exact hasTexts
      · dsimp only
        split
        · exact hasTexts.addLeaf (gives name rfl) current
        · exact hasTexts

theorem onBtnClickedDeleteGroup_hasTexts (rt : Runtime) (hasTexts : HasTexts w.ptrQuestion)
    (current : Position) :
    HasTexts (w.onBtnClickedDeleteGroup rt current).2.ptrQuestion := by
  rw [onBtnClickedDeleteGroup]
  split
  · exact hasTexts
  · split
    · split
      · exact hasTexts.eraseIdx _ _
      · exact hasTexts
    · exact hasTexts

theorem onBtnClickedModifyGroup_hasTexts (rt : Runtime) (hasTexts : HasTexts w.ptrQuestion)
    (current : Position) {dialog : Option String} (gives : ∀ name ∈ dialog, name ≠ "") :
    HasTexts (w.onBtnClickedModifyGroup rt current dialog).2.ptrQuestion := by
  rw [onBtnClickedModifyGroup]
  split
  · exact hasTexts
  · cases dialog with
    | none => exact hasTexts
    | some name =>
        dsimp only
        split
        · exact @HasTexts.relabel _ hasTexts (fun item => { item with text := name })
            (fun _ => gives name rfl) current
        · exact hasTexts

theorem onBtnClickedAddQuestion_hasTexts (rt : Runtime) (hasTexts : HasTexts w.ptrQuestion)
    (current : Position) {dialog : Option Dialog} (id : String)
    (gives : ∀ qd ∈ dialog, qd.question ≠ "") :
    HasTexts (w.onBtnClickedAddQuestion rt current dialog id).2.ptrQuestion := by
  cases dialog with
  | none => exact hasTexts
  | some qd =>
      rw [onBtnClickedAddQuestion]
      split
      · exact hasTexts
      · split
        · exact hasTexts
        · exact hasTexts.addLeaf (gives qd rfl) current

theorem onBtnClickedDeleteQuestion_hasTexts (rt : Runtime) (hasTexts : HasTexts w.ptrQuestion)
    (current : Position) :
    HasTexts (w.onBtnClickedDeleteQuestion rt current).2.ptrQuestion := by
  rw [onBtnClickedDeleteQuestion]
  split
  · exact hasTexts
  · split
    · split
      · exact hasTexts
      · exact hasTexts.eraseIdx _ _
    · exact hasTexts

theorem onBtnClickedModifyQuestion_hasTexts (rt : Runtime) (hasTexts : HasTexts w.ptrQuestion)
    (current : Position) {dialog : Option Dialog} (gives : ∀ qd ∈ dialog, qd.question ≠ "") :
    HasTexts (w.onBtnClickedModifyQuestion rt current dialog).2.ptrQuestion := by
  rw [onBtnClickedModifyQuestion]
  split
  · exact hasTexts
  · cases dialog with
    | none => exact hasTexts
    | some qd =>
        dsimp only
        split
        · split
          · exact hasTexts
          · exact @HasTexts.relabel _ hasTexts
              (fun item => { item with
                text := qd.question, answer := some qd.answer,
                foreground := Item.colour qd.answer })
              (fun _ => gives qd rfl) current
        · exact hasTexts

end Window

/-- An action whose dialog gives no empty text keeps the texts on screen. -/
theorem MenuCall.perform_hasTexts (rt : Runtime) {w : Window}
    (hasTexts : HasTexts w.ptrQuestion) {call : MenuCall} (gives : call.GivesTexts) :
    HasTexts (call.perform rt w).2.ptrQuestion := by
  obtain ⟨current, action⟩ := call
  rw [perform, Window.onTreeWidgetItemClicked]
  split
  · exact hasTexts
  · dsimp only
    split
    · cases action with
      | addGroup dialog id => exact w.onBtnClickedAddGroup_hasTexts rt hasTexts current id gives
      | deleteGroup => exact w.onBtnClickedDeleteGroup_hasTexts rt hasTexts current
      | modifyGroup dialog => exact w.onBtnClickedModifyGroup_hasTexts rt hasTexts current gives
      | addQuestion dialog id =>
          exact w.onBtnClickedAddQuestion_hasTexts rt hasTexts current id gives
      | deleteQuestion => exact w.onBtnClickedDeleteQuestion_hasTexts rt hasTexts current
      | modifyQuestion dialog =>
          exact w.onBtnClickedModifyQuestion_hasTexts rt hasTexts current gives
    · exact hasTexts

/-! ## Texts in the bank -/

/-- An item below the root has a row. -/
theorem exists_row_of_mem_descendants {tree : RoseTree Item} {item : Item}
    (below : item ∈ tree.descendants) : ∃ above, (some above, item) ∈ itemRows tree := by
  cases tree with
  | node label items =>
      obtain ⟨child, isChild, inChild⟩ := List.mem_flatMap.mp below
      rw [← map_snd_inherited Item.handDown (some (label.isGroup, label.idText)) child] at inChild
      obtain ⟨⟨above, item⟩, isRow, rfl⟩ := List.mem_map.mp inChild
      have inTree : (above, item) ∈ itemRows (.node label items) := by
        rw [itemRows, inherited_node]
        exact List.mem_cons_of_mem _ (List.mem_flatMap.mpr ⟨child, isChild, isRow⟩)
      rcases exists_plug_of_mem_inherited isRow with equal | ⟨c, parent, front, kid, back, _, equal⟩
      · cases equal
        exact ⟨_, inTree⟩
      · cases equal
        exact ⟨_, inTree⟩

/-- An item with a row with something above lies below the root. -/
theorem mem_descendants_of_row {tree : RoseTree Item} {above : Bool × String} {item : Item}
    (isRow : (some above, item) ∈ itemRows tree) : item ∈ tree.descendants := by
  rcases exists_plug_of_mem_inherited isRow with equal | ⟨c, parent, front, kid, back, rfl, equal⟩
  · cases equal
  · cases equal
    exact mem_descendants_plug c parent front back kid.label_mem_preorder

/-- Texts on screen are texts in the rows. -/
theorem hasTexts_iff {tree : RoseTree Item} :
    HasTexts tree ↔
      (∀ row ∈ groupRows tree, row.2.2 ≠ "") ∧ ∀ row ∈ questionRows tree, row.2.1 ≠ "" := by
  constructor
  · intro hasTexts
    constructor
    · intro row isRow
      obtain ⟨⟨_ | above, item⟩, isItem, shown⟩ := List.mem_filterMap.mp isRow
      · cases shown
      · rw [Item.groupRow] at shown
        split at shown
        · cases shown
          exact hasTexts item (mem_descendants_of_row isItem)
        · cases shown
    · intro row isRow
      obtain ⟨⟨_ | above, item⟩, isItem, shown⟩ := List.mem_filterMap.mp isRow
      · cases shown
      · rw [Item.questionRow] at shown
        split at shown
        · cases shown
        · cases shown
          exact hasTexts item (mem_descendants_of_row isItem)
  · rintro ⟨groups, questions⟩ item below
    obtain ⟨above, isRow⟩ := exists_row_of_mem_descendants below
    cases kind : item.isGroup with
    | true =>
        exact groups (item.idText, above.2, item.text)
          (List.mem_filterMap.mpr ⟨_, isRow, by simp [Item.groupRow, kind]⟩)
    | false =>
        exact questions ((above.2, item.idText), item.text, item.answerText)
          (List.mem_filterMap.mpr ⟨_, isRow, by simp [Item.questionRow, kind]⟩)

/-- Every group and every question of a map has a text. -/
def QuestionBank.HasTexts (bank : QuestionBank) : Prop :=
  (∀ id row, bank.groupRow id = some row → row.2.2 ≠ "") ∧
    ∀ key row, bank.questionRow key = some row → row.2.1 ≠ ""

theorem QuestionBank.hasTexts_none : QuestionBank.HasTexts fun _ => none := by
  simp [HasTexts, groupRow, questionRow]

/-- Texts on screen are texts in the map. -/
theorem Displays.hasTexts_iff {tree : RoseTree Item} {bank : QuestionBank}
    (displays : Displays tree bank) : HasTexts tree ↔ bank.HasTexts := by
  rw [Notebook.hasTexts_iff, QuestionBank.HasTexts]
  refine and_congr ⟨fun rows id row value => ?_, fun values row isRow => ?_⟩
    ⟨fun rows key row value => ?_, fun values row isRow => ?_⟩
  · exact rows row ((displays.groups.mem_iff id row).mp value).1
  · exact values _ row ((displays.groups.mem_iff _ row).mpr ⟨isRow, rfl⟩)
  · exact rows row ((displays.questions.mem_iff key row).mp value).1
  · exact values _ row ((displays.questions.mem_iff _ row).mpr ⟨isRow, rfl⟩)

namespace Window.Shows

variable {root : Path} {w : Window} {bank : QuestionBank}

/-- Actions whose dialogs give no empty text keep the texts in the map. -/
theorem run_hasTexts (rt : Runtime) (shows : w.Shows root bank) (hasTexts : bank.HasTexts)
    {calls : List MenuCall} (gives : ∀ call ∈ calls, call.GivesTexts)
    (inSession : Machine.Allowed (MenuCall.perform rt) (MenuCall.InSession root) calls w) :
    ∃ next, (Machine.run (MenuCall.perform rt) calls w).2.Shows root next ∧ next.HasTexts := by
  obtain ⟨_, next, final⟩ := shows.run rt inSession
  have onScreen := @Machine.run_preserves _ _ _ (MenuCall.perform rt) _
    (fun w => HasTexts w.ptrQuestion)
    (fun _ _ before gives => MenuCall.perform_hasTexts rt before gives) _ _
    (shows.displays.hasTexts_iff.mpr hasTexts)
    (Machine.allowed_of_mem (MenuCall.perform rt) gives w)
  exact ⟨next, final, final.displays.hasTexts_iff.mp onScreen⟩

/-- Texts in the map are texts in the bank. -/
theorem rows_hasTexts (shows : w.Shows root bank) (hasTexts : bank.HasTexts) :
    (∀ row ∈ w.ptrBank.groupRows, row.2.2 ≠ "") ∧
      ∀ row ∈ w.ptrBank.questionRows, row.2.1 ≠ "" := by
  obtain ⟨groups, questions⟩ :=
    Notebook.hasTexts_iff.mp (shows.displays.hasTexts_iff.mpr hasTexts)
  have same := shows.showsBank
  exact ⟨fun row isRow => groups row (same.groups.mem_iff.mpr isRow),
    fun row isRow => questions row (same.questions.mem_iff.mpr isRow)⟩

end Window.Shows

/-! ## Users -/

namespace GroupDashboard

/-- Over any events an accepted dialog has a name. -/
theorem run_dialog (events : List Event) (start : String) :
    ∀ name ∈ (Machine.run step events { edtGroupName := start }).2.dialog, name ≠ "" := by
  have accepts := @Machine.run_invariant _ _ _ step
    (fun gd => gd.result = some .accepted → gd.edtGroupName ≠ "") (by
      intro event gd before
      cases closed : gd.result with
      | some code =>
          simp only [step, closed]
          rw [closed] at before
          exact before
      | none =>
          cases event with
          | editGroupName text => simp [step, closed]
          | cancel => simp [step, closed, onBtnClickedCancel]
          | confirm =>
              simp only [step, closed, onBtnClickedConfirm]
              split
              · simp [closed]
              · exact fun _ => ‹_›) events { edtGroupName := start }
    (fun accepted => by cases accepted)
  intro name isName
  rw [dialog] at isName
  split at isName
  · rename_i accepted
    obtain rfl := Option.some.inj isName
    exact accepts accepted
  · cases isName

end GroupDashboard

/-- An item that is pressed with the right button, and what the user does at the menu. -/
structure UserCall where
  current : Position
  action : UserAction
  deriving DecidableEq, Repr

namespace UserCall

/-- The item that is pressed. -/
def item (call : UserCall) (w : Window) : Item :=
  (w.ptrQuestion.subtreeAt call.current).elim { text := "", isGroup := false } RoseTree.label

/-- The action with what its dialog returns. -/
def menuCall (qt : Qt) (call : UserCall) (w : Window) : MenuCall where
  current := call.current
  action := call.action.menuAction qt (call.item w)

/-- Run the action with its dialog. -/
def perform (qt : Qt) (rt : Runtime) : Machine UserCall Window (Outcome Bool) := fun call w =>
  (call.menuCall qt w).perform rt w

/-- What a session does at the menu, with dialogs that are closed. -/
def InSession (qt : Qt) (root : Path) (call : UserCall) (w : Window)
    (answer : Outcome Bool) : Prop :=
  call.action.Closes qt (call.item w) ∧ (call.menuCall qt w).InSession root w answer

instance (qt : Qt) (root : Path) (call : UserCall) (w : Window) (answer : Outcome Bool) :
    Decidable (call.InSession qt root w answer) :=
  inferInstanceAs (Decidable (_ ∧ _))

/-- A run with dialogs is a run with what they return. -/
theorem run_eq (qt : Qt) (rt : Runtime) (calls : List UserCall) (w : Window) :
    Machine.run (perform qt rt) calls w =
      Machine.run (MenuCall.perform rt)
        (Machine.translated (menuCall qt) (MenuCall.perform rt) calls w) w :=
  (Machine.run_translated (menuCall qt) (MenuCall.perform rt) calls w).symm

/-- The dialogs give no empty text. -/
theorem menuCall_givesTexts (qt : Qt) (call : UserCall) (w : Window) :
    (call.menuCall qt w).GivesTexts := by
  obtain ⟨current, action⟩ := call
  cases action with
  | addGroup events id => exact GroupDashboard.run_dialog events ""
  | modifyGroup events => exact GroupDashboard.run_dialog events _
  | addQuestion events id => exact (QuestionDashboard.run_asks qt "" "" events).2.2.2.2
  | modifyQuestion events => exact (QuestionDashboard.run_asks qt _ _ events).2.2.2.2
  | deleteGroup => trivial
  | deleteQuestion => trivial

end UserCall

/-- A run of the program by a user: the listing that it gets, and the actions. -/
structure UserProgram where
  entries : List Path
  calls : List UserCall

namespace UserProgram

variable {qt : Qt} {rt : Runtime} {root : Path} {disk : Disk}

/-- The start of the program. -/
def opened (rt : Runtime) (root : Path) (up : UserProgram) (disk : Disk) :
    Outcome Bool × Option Window × Disk :=
  Window.initQuestionBank rt root { entries := up.entries } disk Refusals.never

/-- The actions at the menu that the user's actions come to. -/
def menuCalls (qt : Qt) (rt : Runtime) (up : UserProgram) (w : Window) : List MenuCall :=
  Machine.translated (UserCall.menuCall qt) (MenuCall.perform rt) up.calls w

/-- The run of the program that the user's actions come to. -/
def program (qt : Qt) (rt : Runtime) (root : Path) (up : UserProgram) (disk : Disk) :
    Program where
  entries := up.entries
  calls := (up.opened rt root disk).2.1.elim [] (up.menuCalls qt rt)

/-- Run the program. -/
def perform (qt : Qt) (rt : Runtime) (root : Path) :
    Machine UserProgram Disk (Outcome Bool × Outcome Unit) := fun up disk =>
  (up.program qt rt root disk).perform rt root disk

/-- A run that gets a listing of its directory and does what a session does. -/
def Proper (qt : Qt) (rt : Runtime) (root : Path) (up : UserProgram) (disk : Disk)
    (_ : Outcome Bool × Outcome Unit) : Prop :=
  disk.IsListing root up.entries ∧
    ∀ w ∈ (up.opened rt root disk).2.1,
      Machine.Allowed (UserCall.perform qt rt) (UserCall.InSession qt root) up.calls w

instance (qt : Qt) (rt : Runtime) (root : Path) (up : UserProgram) (disk : Disk)
    (answers : Outcome Bool × Outcome Unit) :
    Decidable (up.Proper qt rt root disk answers) :=
  inferInstanceAs (Decidable (_ ∧ _))

/-- The start of the program with its actions on a disk that holds a map. -/
theorem opened_shows {bank : QuestionBank} (holds : HoldsContents rt root disk bank)
    {up : UserProgram} {answers : Outcome Bool × Outcome Unit}
    (proper : up.Proper qt rt root disk answers) :
    ∃ w : Window, up.opened rt root disk = (.value true, some w, w.ptrBank.regs.disk) ∧
      w.Shows root bank ∧ (up.program qt rt root disk).calls = up.menuCalls qt rt w ∧
      Machine.Allowed (UserCall.perform qt rt) (UserCall.InSession qt root) up.calls w ∧
      Machine.Allowed (MenuCall.perform rt) (MenuCall.InSession root) (up.menuCalls qt rt w) w := by
  obtain ⟨w, started, shows⟩ := holds.opens proper.1
  have isOpened : up.opened rt root disk = (.value true, some w, w.ptrBank.regs.disk) := started
  have inSession := proper.2 w (by rw [isOpened]; rfl)
  refine ⟨w, isOpened, shows, by rw [program, isOpened]; rfl, inSession, ?_⟩
  exact Machine.allowed_translated (fun _ _ allowed => allowed.2) inSession

/-- The dialogs give no empty text. -/
theorem menuCalls_giveTexts (qt : Qt) (rt : Runtime) (up : UserProgram) (w : Window) :
    ∀ call ∈ up.menuCalls qt rt w, call.GivesTexts := by
  intro call isCall
  obtain ⟨user, now, rfl⟩ := Machine.exists_of_mem_translated isCall
  exact user.menuCall_givesTexts qt now

/-- A run leaves a disk that holds a map with texts. -/
theorem perform_holds {bank : QuestionBank} (holds : HoldsContents rt root disk bank)
    (hasTexts : bank.HasTexts) {up : UserProgram} {answers : Outcome Bool × Outcome Unit}
    (proper : up.Proper qt rt root disk answers) :
    ∃ next, HoldsContents rt root (up.perform qt rt root disk).2 next ∧ next.HasTexts := by
  obtain ⟨w, isOpened, shows, calls, _, inSession⟩ := opened_shows holds proper
  obtain ⟨next, final, texts⟩ :=
    shows.run_hasTexts rt hasTexts (up.menuCalls_giveTexts qt rt w) inSession
  have isOpened' : (up.program qt rt root disk).opened rt root disk =
      (.value true, some w, w.ptrBank.regs.disk) := isOpened
  rw [perform, Program.perform, isOpened', calls]
  exact ⟨next, (final.destroy rt).2, texts⟩

/-- After any number of runs the disk holds a map with texts. -/
theorem run_holds (nothingYet : NothingYet root disk) {programs : List UserProgram}
    (proper : Machine.Allowed (perform qt rt root) (Proper qt rt root) programs disk) :
    ∃ bank, HoldsContents rt root (Machine.run (perform qt rt root) programs disk).2 bank ∧
      bank.HasTexts :=
  @Machine.run_preserves _ _ _ (perform qt rt root) (Proper qt rt root)
    (fun disk => ∃ bank, HoldsContents rt root disk bank ∧ bank.HasTexts)
    (fun _ _ ⟨_, holds, hasTexts⟩ proper => perform_holds holds hasTexts proper) programs disk
    ⟨_, nothingYet.holdsContents rt, QuestionBank.hasTexts_none⟩ proper

/-- In any run of the program after any number of others, whatever the user does at the menu
and at the dialogs, the screen shows the bank all the time, and every group and every question
in it has a text. -/
theorem run_has_texts (qt : Qt) (rt : Runtime) {root : Path} {disk : Disk}
    (nothingYet : NothingYet root disk) {programs : List UserProgram} {last : UserProgram}
    (proper : Machine.Allowed (perform qt rt root) (Proper qt rt root) (programs ++ [last])
      disk) :
    let before := (Machine.run (perform qt rt root) programs disk).2
    ∃ w : Window, last.opened rt root before = (.value true, some w, w.ptrBank.regs.disk) ∧
      (∀ answer ∈ (Machine.run (UserCall.perform qt rt) last.calls w).1,
        ∃ ok, answer = .value ok) ∧
      Machine.Always (UserCall.perform qt rt)
        (fun w => w.ShowsBank ∧ (∀ row ∈ w.ptrBank.groupRows, row.2.2 ≠ "") ∧
          ∀ row ∈ w.ptrBank.questionRows, row.2.1 ≠ "") last.calls w := by
  intro before
  rw [Machine.allowed_append] at proper
  obtain ⟨bank, holds, hasTexts⟩ := run_holds nothingYet proper.1
  obtain ⟨w, isOpened, shows, _, byUser, inSession⟩ := opened_shows holds proper.2.1
  refine ⟨w, isOpened, ?_, ?_⟩
  · rw [UserCall.run_eq]
    exact (shows.run rt inSession).1
  · intro done later split
    rw [split, Machine.allowed_append] at byUser
    have gives : ∀ call ∈ Machine.translated (UserCall.menuCall qt) (MenuCall.perform rt) done w,
        call.GivesTexts := menuCalls_giveTexts qt rt ⟨[], done⟩ w
    obtain ⟨next, final, texts⟩ := shows.run_hasTexts rt hasTexts gives
      (Machine.allowed_translated (fun _ _ allowed => allowed.2) byUser.1)
    rw [← UserCall.run_eq] at final
    exact ⟨final.showsBank, final.rows_hasTexts texts⟩

/-- A user who first confirms empty dialogs, and does not wait for an answer. -/
def firstUser : UserProgram where
  entries := []
  calls :=
    [⟨[], .addGroup [.confirm, .editGroupName "Words", .confirm] "1a"⟩,
      ⟨[0], .addQuestion [.confirm, .answer, .editQuestion "hund", .answer, .confirm] "p"⟩,
      ⟨[0], .addQuestion [.editQuestion "katze", .cancel] "q"⟩]

/-- A user who asks for an answer and waits for it. -/
def secondUser : UserProgram where
  entries := [["root", "Words"], ["root", "Words", "1a.dat"], ["root", "ids.dat"]]
  calls :=
    [⟨[0, 0], .modifyQuestion
      [.answer, .finished 0 (.data QuestionDashboard.sampleBody), .confirm]⟩]

theorem run_has_texts_secondUser :
    let before :=
      (Machine.run (perform QuestionDashboard.sampleQt .wire ["root"]) [firstUser] FileSystem.empty).2
    ∃ w : Window,
      secondUser.opened .wire ["root"] before = (.value true, some w, w.ptrBank.regs.disk) ∧
      (∀ answer ∈ (Machine.run (UserCall.perform QuestionDashboard.sampleQt .wire) secondUser.calls w).1,
        ∃ ok, answer = .value ok) ∧
      Machine.Always (UserCall.perform QuestionDashboard.sampleQt .wire)
        (fun w => w.ShowsBank ∧ (∀ row ∈ w.ptrBank.groupRows, row.2.2 ≠ "") ∧
          ∀ row ∈ w.ptrBank.questionRows, row.2.1 ≠ "") secondUser.calls w :=
  run_has_texts QuestionDashboard.sampleQt .wire (.absent rfl (by decide)) (by decide +kernel)

end UserProgram

end Notebook
