import Notebook.Init.Entries
import Notebook.Store.FiniteMap

/-!
# Saving and loading a store

`close` writes the records of groups and then those of questions into one file, and
`open` reads the whole file as one kind. On the wire both lists look alike, so records
of the other kind are read as records of the kind that is asked for.
-/

namespace Notebook

open KeyedList

/-! ## Two lists in one file -/

/-- A runtime whose messages are on the proto3 wire format. -/
structure Runtime.OnWire (rt : Runtime) : Prop where
  serializeGroups : rt.serializeGroups = serializeItems QuestionAnswerGroup.serialize
  parseGroups : rt.parseGroups = parseItems QuestionAnswerGroup.parse
  serializeQuestions : rt.serializeQuestions = serializeItems QuestionAnswer.serialize
  parseQuestions : rt.parseQuestions = parseItems QuestionAnswer.parse

theorem Runtime.wire_onWire : Runtime.wire.OnWire := ⟨rfl, rfl, rfl, rfl⟩

/-- String fields that were written can be read by any message with string fields. -/
theorem exists_parseStrings (known : Nat → Bool) (set : α → Nat → String → α)
    {fields : List (Nat × String)} (positive : ∀ field ∈ fields, field.1 ≠ 0) (message : α) :
    ∃ read, (Wire.readFields (serializeStrings fields)).bind
      (parseStrings known set message) = some read := by
  rw [serializeStrings, Wire.readFields_flatMap_writeField (by
    simp only [List.mem_map, List.mem_filter]
    rintro _ ⟨field, ⟨present, _⟩, rfl⟩
    exact positive field present)]
  rw [Option.bind_some, List.map_map]
  generalize fields.filter (fun field => field.2 ≠ "") = nonempty
  induction nonempty generalizing message with
  | nil => exact ⟨message, rfl⟩
  | cons field rest inductionHypothesis =>
      rw [List.map_cons, parseStrings, List.foldlM_cons]
      by_cases isKnown : known field.1 = true
      · obtain ⟨read, done⟩ := inductionHypothesis (set message field.1 field.2)
        refine ⟨read, ?_⟩
        simp only [Function.comp, if_pos isKnown, ofUtf8_utf8]
        exact done
      · obtain ⟨read, done⟩ := inductionHypothesis message
        refine ⟨read, ?_⟩
        simp only [Function.comp, if_neg isKnown]
        exact done

/-- A record of a question can be read as one of a group. -/
theorem QuestionAnswerGroup.exists_parse (qa : QuestionAnswer) :
    ∃ qag, QuestionAnswerGroup.parse qa.serialize = some qag :=
  exists_parseStrings _ _ (by simp [QuestionAnswer.fields]) _

/-- A record of a group can be read as one of a question. -/
theorem QuestionAnswer.exists_parse (qag : QuestionAnswerGroup) :
    ∃ qa, QuestionAnswer.parse qag.serialize = some qa :=
  exists_parseStrings _ _ (by simp [QuestionAnswerGroup.fields]) _

/-- Items of any kind that can be read one by one are read as a list. -/
theorem exists_collectItems {parse : Bytes → Option α} {serialize : β → Bytes}
    (readable : ∀ item, ∃ read, parse (serialize item) = some read) (items : List β) :
    ∃ reads : List α, reads.length = items.length ∧
      collectItems parse ((items.map fun item => (1, serialize item)).map
        fun field => ⟨field.1, .delimited field.2⟩) = some reads := by
  induction items with
  | nil => exact ⟨[], rfl, rfl⟩
  | cons item items inductionHypothesis =>
      obtain ⟨read, here⟩ := readable item
      obtain ⟨reads, length, rest⟩ := inductionHypothesis
      refine ⟨read :: reads, by simp [length], ?_⟩
      simp only [List.map_cons, collectItems, here, Option.bind_some, rest, Option.map_some]

theorem collectItems_append (parse : Bytes → Option α) (first second : List Wire.Field) :
    collectItems parse (first ++ second) =
      (collectItems parse first).bind fun items =>
        (collectItems parse second).map (items ++ ·) := by
  induction first with
  | nil => simp [collectItems]
  | cons field first inductionHypothesis =>
      rw [List.cons_append, collectItems, collectItems]
      split
      · rw [inductionHypothesis]
        cases parse _ <;> cases collectItems parse first <;>
          cases collectItems parse second <;> rfl
      · exact inductionHypothesis

theorem itemFields_positive (serialize : α → Bytes) (items : List α) :
    ∀ field ∈ items.map (fun item => (1, serialize item)), field.1 ≠ 0 := by
  intro field member
  obtain ⟨item, _, rfl⟩ := List.mem_map.mp member
  simp

/-- Two lists written one after the other are read as one list: the items of the first
one, and as many more as the second one has. -/
theorem parseItems_append {parse : Bytes → Option α}
    {serialize : β → Bytes} {serialize' : γ → Bytes}
    (readable : ∀ item, ∃ read, parse (serialize item) = some read)
    (readable' : ∀ item, ∃ read, parse (serialize' item) = some read)
    (items : List β) (items' : List γ) :
    ∃ reads reads' : List α,
      parseItems parse (serializeItems serialize items) = some reads ∧
      parseItems parse (serializeItems serialize' items') = some reads' ∧
      reads.length = items.length ∧ reads'.length = items'.length ∧
      parseItems parse (serializeItems serialize items ++ serializeItems serialize' items') =
        some (reads ++ reads') := by
  obtain ⟨reads, length, collected⟩ := exists_collectItems readable items
  obtain ⟨reads', length', collected'⟩ := exists_collectItems readable' items'
  refine ⟨reads, reads', ?_, ?_, length, length', ?_⟩
  · rw [parseItems, serializeItems,
      Wire.readFields_flatMap_writeField (itemFields_positive serialize items), Option.bind_some,
      collected]
  · rw [parseItems, serializeItems,
      Wire.readFields_flatMap_writeField (itemFields_positive serialize' items'), Option.bind_some,
      collected']
  · rw [parseItems, serializeItems,
      Wire.readFields_flatMap_writeField_append (itemFields_positive serialize items),
      serializeItems, Wire.readFields_flatMap_writeField (itemFields_positive serialize' items'),
      Option.map_some,
      Option.bind_some, collectItems_append, collected, collected', Option.bind_some,
      Option.map_some]

namespace CQuestionAnswerImpl

/-- The lists of one kind, questions or groups, are the same. -/
def SameKind (flag : Bool) (impl impl' : CQuestionAnswerImpl) : Prop :=
  match flag with
  | true => impl'.lstQuestions = impl.lstQuestions
  | false => impl'.lstGroups = impl.lstGroups

/-- There is no record of one kind. -/
def NoneOfKind (flag : Bool) (impl : CQuestionAnswerImpl) : Prop :=
  match flag with
  | true => impl.lstQuestions = []
  | false => impl.lstGroups = []

/-- On the wire an empty list is written as nothing. -/
theorem contents_onWire {rt : Runtime} (wire : rt.OnWire) (impl : CQuestionAnswerImpl) :
    impl.contents rt =
      serializeItems QuestionAnswerGroup.serialize impl.lstGroups ++
        serializeItems QuestionAnswer.serialize impl.lstQuestions := by
  unfold contents
  rw [wire.serializeGroups, wire.serializeQuestions]
  congr 1
  · split
    · rename_i none
      rw [none]
      rfl
    · rfl
  · split
    · rename_i none
      rw [none]
      rfl
    · rfl

/-- What a store wrote is read as the records of the kind that is asked for exactly when
the store had none of the other kind. -/
theorem openFile_of_contents {rt : Runtime} (wire : rt.OnWire) {disk : Disk} {path : Path}
    (nonempty : path ≠ []) {impl : CQuestionAnswerImpl}
    (file : disk.node path = some (.file (impl.contents rt))) (flag : Bool) :
    ∃ loaded, openFile rt disk path flag {} = (true, loaded) ∧
      (SameKind flag impl loaded ↔ NoneOfKind (!flag) impl) := by
  have notDirectory : disk.node path ≠ some .directory := by simp [file]
  have held := FileSystem.contentsAt_of_node file
  cases flag with
  | true =>
      obtain ⟨reads, reads', _, second, length, _, both⟩ := @parseItems_append _ _ _
        QuestionAnswer.parse QuestionAnswerGroup.serialize QuestionAnswer.serialize
        QuestionAnswer.exists_parse
        (fun qa => ⟨qa, QuestionAnswer.parse_serialize qa⟩) impl.lstGroups impl.lstQuestions
      rw [parseItems_serializeItems QuestionAnswer.parse_serialize] at second
      cases second
      have decoded : decodedAt rt.parseQuestions disk path =
          some (reads ++ impl.lstQuestions) := by
        simp only [decodedAt, held]
        rw [contents_onWire wire, wire.parseQuestions, both]
      refine ⟨_, openFile_questions_iff.mpr ⟨nonempty, notDirectory, _, decoded, rfl⟩, ?_⟩
      change reads ++ impl.lstQuestions = impl.lstQuestions ↔ impl.lstGroups = []
      rw [List.append_left_eq_self, ← List.length_eq_zero_iff, length, List.length_eq_zero_iff]
  | false =>
      obtain ⟨reads, reads', first, _, _, length, both⟩ := @parseItems_append _ _ _
        QuestionAnswerGroup.parse QuestionAnswerGroup.serialize QuestionAnswer.serialize
        (fun qag => ⟨qag, QuestionAnswerGroup.parse_serialize qag⟩)
        QuestionAnswerGroup.exists_parse impl.lstGroups impl.lstQuestions
      rw [parseItems_serializeItems QuestionAnswerGroup.parse_serialize] at first
      cases first
      have decoded : decodedAt rt.parseGroups disk path = some (impl.lstGroups ++ reads') := by
        simp only [decodedAt, held]
        rw [contents_onWire wire, wire.parseGroups, both]
      refine ⟨_, openFile_groups_iff.mpr ⟨nonempty, notDirectory, _, decoded, rfl⟩, ?_⟩
      change impl.lstGroups ++ reads' = impl.lstGroups ↔ impl.lstQuestions = []
      rw [List.append_right_eq_self, ← List.length_eq_zero_iff, length, List.length_eq_zero_iff]

/-- Closing a store on an absent path and opening the path again for one kind gives back
its records of this kind exactly when, in a directory that is there, it has none of the
other kind, and else has none of this kind. -/
theorem close_open_iff {rt : Runtime} (wire : rt.OnWire) {disk : Disk}
    {impl : CQuestionAnswerImpl} (opened : impl.strPath ≠ [])
    (absent : disk.node impl.strPath = none) (flag : Bool) :
    ∃ disk' loaded, impl.close rt disk = some disk' ∧
      openFile rt disk' impl.strPath flag {} = (true, loaded) ∧
      (SameKind flag impl loaded ↔
        (disk.HasParent impl.strPath → NoneOfKind (!flag) impl) ∧
          (¬ disk.HasParent impl.strPath → NoneOfKind flag impl)) := by
  have closable : impl.Closable disk := ⟨opened, by simp [absent]⟩
  obtain ⟨disk', closed, nodes⟩ := close_spec rt closable
  have here := nodes impl.strPath
  rw [if_pos rfl] at here
  -- with nothing written the path stays absent
  have ofAbsent : disk'.node impl.strPath = none →
      openFile rt disk' impl.strPath flag {} = (true, { strPath := impl.strPath }) ∧
        (SameKind flag impl { strPath := impl.strPath } ↔ NoneOfKind flag impl) := by
    intro gone
    have notPresent : disk'.isPresent impl.strPath = false :=
      FileSystem.isPresent_eq_false_iff.mpr gone
    refine ⟨?_, ?_⟩
    · rw [openFile, if_neg opened, if_pos notPresent]
    · cases flag with
      | true => exact eq_comm
      | false => exact eq_comm
  by_cases empty : impl.lstGroups = [] ∧ impl.lstQuestions = []
  · rw [written, if_pos empty] at here
    obtain ⟨loads, same⟩ := ofAbsent here
    have noneOfKind : ∀ flag, NoneOfKind flag impl := by
      intro flag
      cases flag with
      | true => exact empty.2
      | false => exact empty.1
    refine ⟨disk', _, closed, loads, ?_⟩
    rw [same]
    exact iff_of_true (noneOfKind flag) ⟨fun _ => noneOfKind _, fun _ => noneOfKind _⟩
  · rw [written, if_neg empty] at here
    by_cases parent : disk.HasParent impl.strPath
    · rw [if_pos parent] at here
      obtain ⟨loaded, loads, same⟩ := openFile_of_contents wire opened here flag
      refine ⟨disk', loaded, closed, loads, ?_⟩
      rw [same]
      simp only [parent, not_true, forall_const, false_implies, and_true]
    · rw [if_neg parent] at here
      obtain ⟨loads, same⟩ := ofAbsent here
      refine ⟨disk', _, closed, loads, ?_⟩
      rw [same]
      simp only [parent, not_false_eq_true, forall_const, false_implies, true_and]

end CQuestionAnswerImpl

namespace StoreCall

open CQuestionAnswerImpl

/-- A call keeps the path of an opened store. -/
theorem perform_path (call : StoreCall) {impl : CQuestionAnswerImpl} {m : StoreMaps}
    (represents : impl.Represents m) : (call.perform impl).2.strPath = impl.strPath := by
  have opened := represents.opened
  cases call with
  | addQuestion qap =>
      exact (addQuestion_refines opened represents.questions.distinct qap).sameFile.path
  | deleteQuestion qid =>
      exact (deleteQuestion_refines opened represents.questions.distinct qid).sameFile.path
  | updateQuestion qid dst =>
      by_cases equal : qid = dst.strId
      · subst equal
        exact (updateQuestion_refines opened represents.questions.distinct dst).sameFile.path
      · exact (updateQuestion_of_mismatch opened equal).2.path
  | queryQuestion qid => exact (queryQuestion_sameRecords impl qid).path
  | addGroup gid name =>
      exact (addGroup_refines opened represents.groups.distinct gid name).path
  | deleteGroup gid => exact (deleteGroup_refines opened represents.groups.distinct gid).path
  | updateGroup gid name =>
      exact (updateGroup_refines opened represents.groups.distinct gid name).path

/-- After any calls on a store that was opened on an absent path, closing it and opening
the path again gives back the records of the kind that is asked for exactly when, in a
directory that is there, the closed store has no record of the other kind. -/
theorem run_close_open_iff {rt : Runtime} (wire : rt.OnWire) {disk : Disk} {path : Path}
    (absent : disk.node path = none) {flag : Bool} {impl : CQuestionAnswerImpl}
    (opens : openFile rt disk path flag {} = (true, impl)) (calls : List StoreCall) :
    (∃ disk' loaded, (perform.run calls impl).2.close rt disk = some disk' ∧
        openFile rt disk' path flag {} = (true, loaded) ∧
        SameKind flag (perform.run calls impl).2 loaded) ↔
      (disk.HasParent path → NoneOfKind (!flag) (perform.run calls impl).2) ∧
        (¬ disk.HasParent path → NoneOfKind flag (perform.run calls impl).2) := by
  have started : impl = { strPath := path } ∧ path ≠ [] := by
    unfold openFile at opens
    split at opens
    · cases opens
    · rename_i nonempty
      rw [if_pos (FileSystem.isPresent_eq_false_iff.mpr absent)] at opens
      cases opens
      exact ⟨rfl, nonempty⟩
  obtain ⟨rfl, nonempty⟩ := started
  -- the calls keep the path
  obtain ⟨⟨m, represents⟩, samePath⟩ := @Machine.run_invariant _ _ _ perform
    (fun impl => (∃ m, impl.Represents m) ∧ impl.strPath = path)
    (by
      rintro call impl ⟨⟨m, represents⟩, samePath⟩
      exact ⟨⟨_, (call.perform_refines represents).2⟩,
        (call.perform_path represents).trans samePath⟩)
    calls { strPath := path }
    ⟨⟨CQuestionAnswerImpl.maps { strPath := path }, nonempty,
      lists_find (by simp [DistinctKeys]), lists_find (by simp [DistinctKeys])⟩, rfl⟩
  clear opens
  generalize (perform.run calls { strPath := path }).2 = closing at represents samePath ⊢
  subst samePath
  obtain ⟨disk', loaded, closed, loads, same⟩ :=
    close_open_iff wire represents.opened absent flag
  rw [← same]
  constructor
  · rintro ⟨disk'', loaded', closed', loads', sameKind⟩
    rw [closed] at closed'
    cases closed'
    rw [loads] at loads'
    cases loads'
    exact sameKind
  · intro sameKind
    exact ⟨disk', loaded, closed, loads, sameKind⟩

/-- A disk with an empty directory. -/
def emptyRoot : Disk :=
  FileSystem.ofNodes [(["root"], .directory)]

/-- A question of a group. -/
def sampleParam : CQuestionAnswerParam :=
  { strId := "q", strQuestion := "ser", strAnswer := "to be", strGroup := "w" }

theorem run_close_open_iff_emptyRoot :
    ∃ disk' loaded,
      (perform.run [.addQuestion sampleParam, .addGroup "w" "Words", .deleteGroup "w"]
        { strPath := ["root", "w.dat"] }).2.close .wire emptyRoot = some disk' ∧
      openFile .wire disk' ["root", "w.dat"] true {} = (true, loaded) ∧
      SameKind true
        (perform.run [.addQuestion sampleParam, .addGroup "w" "Words", .deleteGroup "w"]
          { strPath := ["root", "w.dat"] }).2 loaded := by
  have parent : emptyRoot.HasParent ["root", "w.dat"] := by decide +kernel
  refine (run_close_open_iff Runtime.wire_onWire (by decide +kernel) (by rfl)
    [.addQuestion sampleParam, .addGroup "w" "Words", .deleteGroup "w"]).mpr ⟨?_, ?_⟩
  · intro _
    change _ = []
    decide +kernel
  · intro noParent
    exact absurd parent noParent

/-- A store of groups that also got a question reads it back as one more group. -/
theorem question_loaded_as_group :
    (perform.run [.addGroup "w" "Words", .addQuestion sampleParam]
      { strPath := ["root", "ids.dat"] }).2.lstGroups = [{ id := "w", group := "Words" }] ∧
    ((perform.run [.addGroup "w" "Words", .addQuestion sampleParam]
        { strPath := ["root", "ids.dat"] }).2.close .wire emptyRoot).map
      (fun disk' => openFile .wire disk' ["root", "ids.dat"] false {}) =
        some (true,
          { strPath := ["root", "ids.dat"]
            lstGroups := [{ id := "w", group := "Words" },
              { id := "w", group := "ser", path := "to be" }] }) := by
  decide +kernel

end StoreCall

end Notebook
