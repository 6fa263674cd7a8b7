import Notebook.Screen.Menu
import Notebook.Sessions.Persistent

/-!
# Runs of the program

The program builds the screen from the bank of its directory, runs actions of the menu, and
closes the bank. The screen shows the bank at any time, and the next start shows the screen
that was closed.
-/

namespace Notebook

open RoseTree KeyedList CQuestionBankImpl

namespace Window

/-- The screen shows the groups and the questions of the bank, each once, and the questions
without an answer in red. -/
structure ShowsBank (w : Window) : Prop where
  groups : (groupRows w.ptrQuestion).Perm w.ptrBank.groupRows
  questions : (questionRows w.ptrQuestion).Perm w.ptrBank.questionRows
  distinct : (w.ptrBank.groupRows.map Prod.fst).Nodup ∧
    (w.ptrBank.questionRows.map Prod.fst).Nodup
  coloured : ∀ row ∈ itemRows w.ptrQuestion, row.2.WellColoured

namespace Shows

variable {root : Path} {w : Window} {bank : QuestionBank}

theorem showsBank (shows : w.Shows root bank) : w.ShowsBank where
  groups := (shows.displays.rows_of_bank shows.shown shows.sound.ready).1
  questions := (shows.displays.rows_of_bank shows.shown shows.sound.ready).2
  distinct := ⟨shows.shown.lists_groupRows.distinct,
    (shows.shown.lists_questionRows shows.sound.ready).distinct⟩
  coloured := shows.displays.coloured

/-- Closing the window leaves the map on the disk. -/
theorem destroy (rt : Runtime) (shows : w.Shows root bank) :
    (w.destroy rt).1 = .value () ∧ HoldsContents rt root (w.destroy rt).2 bank := by
  obtain ⟨_, _, _, returned, _⟩ := shows.sound.uninit rt
  refine ⟨?_, shows.sound.holdsContents rt shows.shown⟩
  rw [Window.destroy, returned]

end Shows

end Window

/-- A window that is opened on the disk shows the map that the disk holds. -/
theorem HoldsContents.opens {rt : Runtime} {root : Path} {disk : Disk} {bank : QuestionBank}
    (holds : HoldsContents rt root disk bank) {entries : List Path}
    (listed : disk.IsListing root entries) :
    ∃ w : Window, Window.initQuestionBank rt root { entries := entries } disk Refusals.never =
        (.value true, some w, w.ptrBank.regs.disk) ∧ w.Shows root bank := by
  obtain ⟨b, initialised, sound, shown⟩ := holds entries listed
  refine ⟨{ ptrBank := b,
            ptrQuestion := .node Window.bankItem (Window.initQuestionTree b.clsQuestionBank) },
    ?_, sound, shown, sound.displays shown⟩
  rw [Window.initQuestionBank, initialised]
  rfl

/-- A run of the program: the listing that it gets, and the actions at the menu. -/
structure Program where
  entries : List Path
  calls : List MenuCall

namespace Program

/-- The start of the program. -/
def opened (rt : Runtime) (root : Path) (program : Program) (disk : Disk) :
    Outcome Bool × Option Window × Disk :=
  Window.initQuestionBank rt root { entries := program.entries } disk Refusals.never

/-- Run the program. The answers are those of `initQuestionBank` and of the destructor,
which has nothing to close when there is no bank. -/
def perform (rt : Runtime) (root : Path) : Machine Program Disk (Outcome Bool × Outcome Unit) :=
  fun program disk =>
    match program.opened rt root disk with
    | (answer, some w, _) =>
        let closed := (Machine.run (MenuCall.perform rt) program.calls w).2.destroy rt
        ((answer, closed.1), closed.2)
    | (answer, none, disk) => ((answer, .value ()), disk)

/-- A run that gets a listing of its directory and does what a session does at the menu. -/
def Proper (rt : Runtime) (root : Path) (program : Program) (disk : Disk)
    (_ : Outcome Bool × Outcome Unit) : Prop :=
  disk.IsListing root program.entries ∧
    ∀ w ∈ (program.opened rt root disk).2.1,
      Machine.Allowed (MenuCall.perform rt) (MenuCall.InSession root) program.calls w

instance (rt : Runtime) (root : Path) (program : Program) (disk : Disk)
    (answers : Outcome Bool × Outcome Unit) :
    Decidable (program.Proper rt root disk answers) :=
  inferInstanceAs (Decidable (_ ∧ _))

/-- A run on a disk that holds a map. -/
theorem opened_shows {rt : Runtime} {root : Path} {disk : Disk} {bank : QuestionBank}
    (holds : HoldsContents rt root disk bank) {program : Program}
    {answers : Outcome Bool × Outcome Unit} (proper : program.Proper rt root disk answers) :
    ∃ w : Window, program.opened rt root disk = (.value true, some w, w.ptrBank.regs.disk) ∧
      w.Shows root bank ∧
      Machine.Allowed (MenuCall.perform rt) (MenuCall.InSession root) program.calls w := by
  obtain ⟨w, started, shows⟩ := holds.opens proper.1
  have opened : program.opened rt root disk = (.value true, some w, w.ptrBank.regs.disk) :=
    started
  exact ⟨w, opened, shows, proper.2 w (by rw [opened]; rfl)⟩

/-- A run leaves a disk that holds a map. -/
theorem perform_holds {rt : Runtime} {root : Path} {disk : Disk} {bank : QuestionBank}
    (holds : HoldsContents rt root disk bank) {program : Program}
    {answers : Outcome Bool × Outcome Unit} (proper : program.Proper rt root disk answers) :
    ∃ next, HoldsContents rt root (program.perform rt root disk).2 next := by
  obtain ⟨w, opened, shows, inSession⟩ := opened_shows holds proper
  obtain ⟨_, next, final⟩ := shows.run rt inSession
  rw [perform, opened]
  exact ⟨next, (final.destroy rt).2⟩

/-- After any number of runs the disk holds a map. -/
theorem run_holds {rt : Runtime} {root : Path} {disk : Disk} (nothingYet : NothingYet root disk)
    {programs : List Program}
    (proper : Machine.Allowed (perform rt root) (Proper rt root) programs disk) :
    ∃ bank, HoldsContents rt root (Machine.run (perform rt root) programs disk).2 bank :=
  @Machine.run_preserves _ _ _ (perform rt root) (Proper rt root)
    (fun disk => ∃ bank, HoldsContents rt root disk bank)
    (fun _ _ ⟨_, holds⟩ proper => perform_holds holds proper) programs disk
    ⟨_, nothingYet.holdsContents rt⟩ proper

/-- In any run of the program after any number of others, the program starts, every action of
the menu returns, and after it the screen shows the groups and the questions of the bank. -/
theorem run_shows_bank (rt : Runtime) {root : Path} {disk : Disk}
    (nothingYet : NothingYet root disk) {programs : List Program} {last : Program}
    (proper : Machine.Allowed (perform rt root) (Proper rt root) (programs ++ [last]) disk) :
    let before := (Machine.run (perform rt root) programs disk).2
    ∃ w : Window, last.opened rt root before = (.value true, some w, w.ptrBank.regs.disk) ∧
      (∀ answer ∈ (Machine.run (MenuCall.perform rt) last.calls w).1, ∃ ok, answer = .value ok) ∧
      Machine.Always (MenuCall.perform rt) Window.ShowsBank last.calls w := by
  intro before
  rw [Machine.allowed_append] at proper
  obtain ⟨bank, holds⟩ := run_holds nothingYet proper.1
  obtain ⟨w, opened, shows, inSession⟩ := opened_shows holds proper.2.1
  refine ⟨w, opened, (shows.run rt inSession).1, ?_⟩
  intro done later split
  rw [split, Machine.allowed_append] at inSession
  obtain ⟨_, next, after⟩ := shows.run rt inSession.1
  exact after.showsBank

/-- When the program is started again after any number of runs, the screen shows the groups
and the questions that it showed when the last run ended. -/
theorem run_restart (rt : Runtime) {root : Path} {disk : Disk}
    (nothingYet : NothingYet root disk) {programs : List Program} {last next : Program}
    (proper : Machine.Allowed (perform rt root) (Proper rt root) (programs ++ [last, next]) disk) :
    let before := (Machine.run (perform rt root) programs disk).2
    ∃ w w' : Window, last.opened rt root before = (.value true, some w, w.ptrBank.regs.disk) ∧
      next.opened rt root (last.perform rt root before).2 =
        (.value true, some w', w'.ptrBank.regs.disk) ∧
      (groupRows w'.ptrQuestion).Perm
        (groupRows (Machine.run (MenuCall.perform rt) last.calls w).2.ptrQuestion) ∧
      (questionRows w'.ptrQuestion).Perm
        (questionRows (Machine.run (MenuCall.perform rt) last.calls w).2.ptrQuestion) := by
  intro before
  rw [Machine.allowed_append] at proper
  obtain ⟨bank, holds⟩ := run_holds nothingYet proper.1
  obtain ⟨w, opened, shows, inSession⟩ := opened_shows holds proper.2.1
  obtain ⟨_, bank', final⟩ := shows.run rt inSession
  have left : (last.perform rt root before).2 =
      ((Machine.run (MenuCall.perform rt) last.calls w).2.destroy rt).2 := by
    rw [perform, opened]
  have properNext := proper.2.2.1
  rw [show (last.perform rt root (Machine.run (perform rt root) programs disk).2).2 = _ from left]
    at properNext
  obtain ⟨w', opened', shows', _⟩ := opened_shows (final.destroy rt).2 properNext
  refine ⟨w, w', opened, ?_, ?_⟩
  · rw [left]
    exact opened'
  · exact shows'.displays.rows_perm final.displays

/-- A run that makes groups below each other and gives them questions. -/
def firstProgram : Program where
  entries := []
  calls :=
    [⟨[], .addGroup (some "Words") "1a"⟩, ⟨[0], .addGroup (some "Verbs") "2b"⟩,
      ⟨[0, 0], .addQuestion (some { question := "ser", answer := "to be" }) "q"⟩,
      ⟨[0], .addQuestion (some { question := "hund", answer := "" }) "p"⟩,
      ⟨[0], .addGroup (some "Words") "4d"⟩, ⟨[], .addGroup (some "Nouns") "3c"⟩]

/-- A run that takes out a question and a group and changes another question. -/
def secondProgram : Program where
  entries :=
    [["root", "Words"], ["root", "Nouns"], ["root", "Words", "1a.dat"],
      ["root", "Words", "Verbs"], ["root", "ids.dat"], ["root", "Words", "Verbs", "2b.dat"]]
  calls :=
    [⟨[0, 1], .deleteQuestion⟩, ⟨[1], .deleteGroup⟩, ⟨[0], .modifyGroup none⟩,
      ⟨[0, 0, 0], .modifyQuestion (some { question := "estar", answer := "to be" })⟩]

/-- A start without any action. -/
def thirdProgram : Program where
  entries :=
    [["root", "Words"], ["root", "Words", "Verbs"], ["root", "ids.dat"],
      ["root", "Words", "Verbs", "2b.dat"]]
  calls := []

theorem run_shows_bank_secondProgram :
    let before := (Machine.run (perform .wire ["root"]) [firstProgram] FileSystem.empty).2
    ∃ w : Window,
      secondProgram.opened .wire ["root"] before = (.value true, some w, w.ptrBank.regs.disk) ∧
      (∀ answer ∈ (Machine.run (MenuCall.perform .wire) secondProgram.calls w).1,
        ∃ ok, answer = .value ok) ∧
      Machine.Always (MenuCall.perform .wire) Window.ShowsBank secondProgram.calls w :=
  run_shows_bank .wire (.absent rfl (by decide)) (by decide +kernel)

theorem run_restart_thirdProgram :
    let before := (Machine.run (perform .wire ["root"]) [firstProgram] FileSystem.empty).2
    ∃ w w' : Window,
      secondProgram.opened .wire ["root"] before = (.value true, some w, w.ptrBank.regs.disk) ∧
      thirdProgram.opened .wire ["root"] (secondProgram.perform .wire ["root"] before).2 =
        (.value true, some w', w'.ptrBank.regs.disk) ∧
      (groupRows w'.ptrQuestion).Perm
        (groupRows (Machine.run (MenuCall.perform .wire) secondProgram.calls w).2.ptrQuestion) ∧
      (questionRows w'.ptrQuestion).Perm
        (questionRows (Machine.run (MenuCall.perform .wire) secondProgram.calls w).2.ptrQuestion) :=
  run_restart .wire (.absent rfl (by decide)) (by decide +kernel)

end Program

end Notebook
