import Notebook.Library.WireFormat

/-!
# The messages of `xn.proto` and the libraries the program runs on

Records and their lists are read from and written to the proto3 wire format:
a string field is written when it is not empty, and on reading it must be valid
UTF-8, fields of unknown number or of another wire type are skipped, and the
last value of a field wins. `Runtime` collects what the program takes from its
libraries: the two list messages, the order in which an unordered map is walked
and the texts of file-system errors.
-/

namespace Notebook

/-- Contents of a file, or the bytes of a `std::string`. -/
abbrev Bytes := List UInt8

/-- `xn::QuestionAnswer`. -/
structure QuestionAnswer where
  /-- Field 1. -/
  question : String := ""
  /-- Field 2. -/
  answer : String := ""
  /-- Field 3. -/
  group : String := ""
  /-- Field 4. -/
  id : String := ""
  deriving DecidableEq, Repr

/-- `xn::QuestionAnswerGroup`. -/
structure QuestionAnswerGroup where
  /-- Field 1. -/
  group : String := ""
  /-- Field 2, which the program never sets. -/
  path : String := ""
  /-- Field 3. -/
  id : String := ""
  deriving DecidableEq, Repr

/-! ## String fields -/

/-- UTF-8 bytes of a text. -/
def utf8 (text : String) : Bytes :=
  text.toByteArray.data.toList

/-- The text with the given UTF-8 bytes, if they are valid. -/
def ofUtf8 (bytes : Bytes) : Option String :=
  String.fromUTF8? bytes.toByteArray

theorem ofUtf8_utf8 (text : String) : ofUtf8 (utf8 text) = some text := by
  have same : (utf8 text).toByteArray = text.toByteArray := by
    apply ByteArray.ext
    rw [List.data_toByteArray, utf8, Array.toArray_toList]
  rw [ofUtf8, same, String.fromUTF8?, dif_pos text.isValidUTF8]
  rfl

/-- Write the string fields of a message that are not empty. -/
def serializeStrings (fields : List (Nat × String)) : Bytes :=
  ((fields.filter fun field => field.2 ≠ "").map fun field =>
    (field.1, utf8 field.2)).flatMap fun field => Wire.writeField field.1 field.2

/-- Set the string fields of a message in the order they were read. -/
def parseStrings
    (known : Nat → Bool)
    (set : α → Nat → String → α)
    (start : α)
    (fields : List Wire.Field) : Option α :=
  fields.foldlM (fun message field =>
    match field.value with
    | .delimited bytes =>
        if known field.number then
          (ofUtf8 bytes).map (set message field.number)
        else some message
    | _ => some message) start

/-- Reading the string fields that were written sets each non-empty one. -/
theorem parseStrings_serializeStrings
    {known : Nat → Bool}
    {set : α → Nat → String → α}
    {fields : List (Nat × String)}
    (positive : ∀ field ∈ fields, field.1 ≠ 0)
    (allKnown : ∀ field ∈ fields, known field.1 = true)
    (start : α) :
    (Wire.readFields (serializeStrings fields)).bind
        (parseStrings known set start) =
      some ((fields.filter fun field => field.2 ≠ "").foldl
        (fun message field => set message field.1 field.2) start) := by
  rw [serializeStrings, Wire.readFields_flatMap_writeField (by
    simp only [List.mem_map, List.mem_filter]
    rintro _ ⟨field, ⟨present, _⟩, rfl⟩
    exact positive field present)]
  simp only [Option.bind_some, List.map_map, parseStrings]
  have written : ∀ field ∈ fields.filter fun field => field.2 ≠ "",
      known field.1 = true := fun field present =>
    allKnown field (List.mem_of_mem_filter present)
  generalize fields.filter (fun field => field.2 ≠ "") = nonempty at written
  induction nonempty generalizing start with
  | nil => rfl
  | cons field rest inductionHypothesis =>
      have tail := inductionHypothesis (set start field.1 field.2) fun other member =>
        written other (List.mem_cons_of_mem field member)
      rw [List.map_cons, List.foldlM_cons, List.foldl_cons, ← tail]
      simp only [Function.comp, if_pos (written field List.mem_cons_self),
        ofUtf8_utf8]
      rfl

/-! ## Records -/

namespace QuestionAnswer

/-- String fields with their numbers. -/
def fields (message : QuestionAnswer) : List (Nat × String) :=
  [(1, message.question), (2, message.answer), (3, message.group), (4, message.id)]

/-- Set the string field with a given number. -/
def setField (message : QuestionAnswer) (number : Nat) (text : String) :
    QuestionAnswer :=
  match number with
  | 1 => { message with question := text }
  | 2 => { message with answer := text }
  | 3 => { message with group := text }
  | 4 => { message with id := text }
  | _ => message

/-- Bytes of one record. -/
def serialize (message : QuestionAnswer) : Bytes :=
  serializeStrings message.fields

/-- Read one record. -/
def parse (bytes : Bytes) : Option QuestionAnswer :=
  (Wire.readFields bytes).bind
    (parseStrings (fun number => 1 ≤ number ∧ number ≤ 4) setField {})

theorem parse_serialize (message : QuestionAnswer) :
    parse message.serialize = some message := by
  rw [parse, serialize, parseStrings_serializeStrings (by simp [fields])
    (by simp [fields])]
  obtain ⟨question, answer, group, id⟩ := message
  by_cases questionEmpty : question = "" <;> by_cases answerEmpty : answer = "" <;>
    by_cases groupEmpty : group = "" <;> by_cases idEmpty : id = "" <;>
    simp [fields, setField, questionEmpty, answerEmpty, groupEmpty, idEmpty]

end QuestionAnswer

namespace QuestionAnswerGroup

/-- String fields with their numbers. -/
def fields (message : QuestionAnswerGroup) : List (Nat × String) :=
  [(1, message.group), (2, message.path), (3, message.id)]

/-- Set the string field with a given number. -/
def setField (message : QuestionAnswerGroup) (number : Nat) (text : String) :
    QuestionAnswerGroup :=
  match number with
  | 1 => { message with group := text }
  | 2 => { message with path := text }
  | 3 => { message with id := text }
  | _ => message

/-- Bytes of one record. -/
def serialize (message : QuestionAnswerGroup) : Bytes :=
  serializeStrings message.fields

/-- Read one record. -/
def parse (bytes : Bytes) : Option QuestionAnswerGroup :=
  (Wire.readFields bytes).bind
    (parseStrings (fun number => 1 ≤ number ∧ number ≤ 3) setField {})

theorem parse_serialize (message : QuestionAnswerGroup) :
    parse message.serialize = some message := by
  rw [parse, serialize, parseStrings_serializeStrings (by simp [fields])
    (by simp [fields])]
  obtain ⟨group, path, id⟩ := message
  by_cases groupEmpty : group = "" <;> by_cases pathEmpty : path = "" <;>
    by_cases idEmpty : id = "" <;>
    simp [fields, setField, groupEmpty, pathEmpty, idEmpty]

end QuestionAnswerGroup

/-! ## Lists of records -/

/-- Write the items of a list message, whose only field has number 1. -/
def serializeItems (serialize : α → Bytes) (items : List α) : Bytes :=
  (items.map fun item => (1, serialize item)).flatMap fun field =>
    Wire.writeField field.1 field.2

/-- Collect the items of a list message. -/
def collectItems (parse : Bytes → Option α) : List Wire.Field → Option (List α)
  | [] => some []
  | field :: fields =>
      match field.number, field.value with
      | 1, .delimited bytes =>
          (parse bytes).bind fun item =>
            (collectItems parse fields).map (item :: ·)
      | _, _ => collectItems parse fields

/-- Read a list message. -/
def parseItems (parse : Bytes → Option α) (bytes : Bytes) : Option (List α) :=
  (Wire.readFields bytes).bind (collectItems parse)

theorem parseItems_serializeItems
    {serialize : α → Bytes}
    {parse : Bytes → Option α}
    (inverse : ∀ item, parse (serialize item) = some item)
    (items : List α) :
    parseItems parse (serializeItems serialize items) = some items := by
  rw [parseItems, serializeItems, Wire.readFields_flatMap_writeField (by
    simp only [List.mem_map]
    rintro _ ⟨item, _, rfl⟩
    simp)]
  rw [Option.bind_some]
  induction items with
  | nil => rfl
  | cons item items inductionHypothesis =>
      simp only [List.map_cons, collectItems, inverse, Option.bind_some,
        inductionHypothesis, Option.map_some]

/-! ## The runtime -/

/-- Calls whose errors the program reports. -/
inductive FileCall
  | iterate (path : List String)
  | removeAll (path : List String)
  | rename (source target : List String)
  deriving DecidableEq, Repr

/-- The order in which one call walks a `std::unordered_map`. It is not a function of the
entries: on an object that was used before, it depends on all that its map has held. Such
an object is given another order for each of its calls. -/
structure WalkOrder where
  /-- The entries in the order in which they are met. -/
  walkOrder : List (String × String) → List (String × String)
  /-- Walking a map meets each entry once. -/
  walkOrder_perm : ∀ entries, (walkOrder entries).Perm entries

/-- What the program takes from its libraries. The order of a walk is the one in the map
of a new object, which has held nothing before. -/
structure Runtime extends WalkOrder where
  /-- `QuestionAnswerGroupList::SerializeToOstream`. -/
  serializeGroups : List QuestionAnswerGroup → Bytes
  /-- `QuestionAnswerGroupList::ParseFromIstream`. -/
  parseGroups : Bytes → Option (List QuestionAnswerGroup)
  /-- `QuestionAnswerList::SerializeToOstream`. -/
  serializeQuestions : List QuestionAnswer → Bytes
  /-- `QuestionAnswerList::ParseFromIstream`. -/
  parseQuestions : Bytes → Option (List QuestionAnswer)
  /-- Parsing undoes serializing. -/
  parse_serializeGroups : ∀ items, parseGroups (serializeGroups items) = some items
  /-- Parsing undoes serializing. -/
  parse_serializeQuestions : ∀ items,
    parseQuestions (serializeQuestions items) = some items
  /-- `std::filesystem::filesystem_error::what`. -/
  what : FileCall → Bytes

/-- The runtime as a call meets it that walks maps in another order. -/
def Runtime.walking (rt : Runtime) (walk : WalkOrder) : Runtime :=
  { rt with toWalkOrder := walk }

/-- The runtime on the proto3 wire format, with maps walked in insertion
order. -/
def Runtime.wire : Runtime where
  serializeGroups := serializeItems QuestionAnswerGroup.serialize
  parseGroups := parseItems QuestionAnswerGroup.parse
  serializeQuestions := serializeItems QuestionAnswer.serialize
  parseQuestions := parseItems QuestionAnswer.parse
  parse_serializeGroups :=
    parseItems_serializeItems QuestionAnswerGroup.parse_serialize
  parse_serializeQuestions :=
    parseItems_serializeItems QuestionAnswer.parse_serialize
  walkOrder entries := entries
  walkOrder_perm := List.Perm.refl
  what
    | .iterate _ => utf8 "recursive_directory_iterator"
    | .removeAll _ => utf8 "remove_all"
    | .rename _ _ => utf8 "rename"

end Notebook
