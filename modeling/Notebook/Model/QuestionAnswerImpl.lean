import Notebook.Library.FileSystem
import Notebook.Library.KeyedList
import Notebook.Model.NotebookUtils

/-!
# `question_answer_impl.cpp`: one file of records

A `CQuestionAnswerImpl` holds the decoded records of one file. A file is opened
either for groups (`ids.dat`) or for questions; closing it writes whatever lists
are not empty, or removes the file.
-/

namespace Notebook

/-- The disk: file contents are bytes. -/
abbrev Disk := FileSystem Bytes

/-- `CQuestionAnswerParam`. -/
structure CQuestionAnswerParam where
  strId : String
  strQuestion : String
  strAnswer : String
  strGroup : String
  deriving DecidableEq, Repr

/-- `CQuestionAnswerImpl`. The empty path stands for an object that was not
opened. -/
structure CQuestionAnswerImpl where
  strPath : Path := []
  lstGroups : List QuestionAnswerGroup := []
  lstQuestions : List QuestionAnswer := []
  strErrorMsg : Bytes := []
  deriving DecidableEq, Repr

namespace CQuestionAnswerImpl

/-! ## Opening and closing -/

/-- `ParseFromIstream` on the file at a path: the stream of a directory cannot be
read. -/
def parseFile (parse : Bytes → Option (List α)) (disk : Disk) (path : Path) :
    Option (List α) :=
  match disk.node path with
  | some (.file contents) => parse contents
  | _ => none

/-- `CQuestionAnswerImpl::open`. What a failed parse leaves in the list is not
kept: no caller uses the object after that. -/
def openFile (rt : Runtime) (disk : Disk) (path : Path) (flag : Bool)
    (impl : CQuestionAnswerImpl) : Bool × CQuestionAnswerImpl :=
  if path = [] then
    (false, { impl with strErrorMsg := formatted (utf8 "Input path is empty") })
  else if disk.isPresent path = false then
    (true, { impl with strPath := path })
  else
    let failed : Bool × CQuestionAnswerImpl :=
      (false,
        { impl with
          strErrorMsg := formatted
            (utf8 "Parse " ++ cString path.toText ++ utf8 " failed") })
    if flag then
      match parseFile rt.parseQuestions disk path with
      | some items => (true, { impl with lstQuestions := items, strPath := path })
      | none => failed
    else
      match parseFile rt.parseGroups disk path with
      | some items => (true, { impl with lstGroups := items, strPath := path })
      | none => failed

/-- Bytes that `close` writes: the groups, if any, then the questions, if any. -/
def contents (rt : Runtime) (impl : CQuestionAnswerImpl) : Bytes :=
  (if impl.lstGroups = [] then [] else rt.serializeGroups impl.lstGroups) ++
    (if impl.lstQuestions = [] then [] else rt.serializeQuestions impl.lstQuestions)

/-- `CQuestionAnswerImpl::close`. The answer is `none` when removing the file
raises an error. -/
def close (rt : Runtime) (disk : Disk) (impl : CQuestionAnswerImpl) : Option Disk :=
  if impl.lstGroups = [] ∧ impl.lstQuestions = [] then disk.remove impl.strPath
  else some (disk.writeFile impl.strPath (impl.contents rt))

/-! ## Groups -/

/-- Refuse a call with a message. -/
def refuse (impl : CQuestionAnswerImpl) (message : Bytes) :
    Bool × CQuestionAnswerImpl :=
  (false, { impl with strErrorMsg := message })

/-- The refusal of an object that was not opened. -/
def notOpened (impl : CQuestionAnswerImpl) : Bool × CQuestionAnswerImpl :=
  impl.refuse (utf8 "Not opened yet")

/-- `CQuestionAnswerImpl::addGroup`. -/
def addGroup (gid name : String) (impl : CQuestionAnswerImpl) :
    Bool × CQuestionAnswerImpl :=
  if impl.strPath = [] then impl.notOpened
  else
    match impl.lstGroups.findIdx? fun qag => qag.id = gid with
    | some _ => impl.refuse
        (formatted (utf8 "Repeated group id '" ++ cString gid ++ utf8 "'"))
    | none =>
        (true, { impl with lstGroups := impl.lstGroups ++ [{ id := gid, group := name }] })

/-- `CQuestionAnswerImpl::deleteGroup`. -/
def deleteGroup (gid : String) (impl : CQuestionAnswerImpl) :
    Bool × CQuestionAnswerImpl :=
  if impl.strPath = [] then impl.notOpened
  else
    match impl.lstGroups.findIdx? fun qag => qag.id = gid with
    | none => impl.refuse
        (formatted (utf8 "Found group id '" ++ cString gid ++ utf8 "' failed"))
    | some index =>
        (true, { impl with lstGroups := swapRemove index impl.lstGroups })

/-- `CQuestionAnswerImpl::updateGroup`. -/
def updateGroup (gid name : String) (impl : CQuestionAnswerImpl) :
    Bool × CQuestionAnswerImpl :=
  if impl.strPath = [] then impl.notOpened
  else
    match impl.lstGroups.findIdx? fun qag => qag.id = gid with
    | none => impl.refuse
        (formatted (utf8 "Found group id '" ++ cString gid ++ utf8 "' failed"))
    | some index =>
        (true,
          { impl with
            lstGroups := impl.lstGroups.modify index fun qag =>
              { qag with group := name } })

/-- `CQuestionAnswerImpl::getGroups`, where `emplace` adds an entry to the map of
the caller. -/
def getGroups (emplace : β → String → String → β) (groups : β)
    (impl : CQuestionAnswerImpl) : Bool × β × CQuestionAnswerImpl :=
  if impl.strPath = [] then
    (false, groups, { impl with strErrorMsg := utf8 "Not opened yet" })
  else
    (true, impl.lstGroups.foldl (fun map item => emplace map item.id item.group) groups,
      impl)

/-! ## Questions -/

/-- `CQuestionAnswerImpl::getQuestions`. -/
def getQuestions (impl : CQuestionAnswerImpl) :
    Option (List CQuestionAnswerParam) :=
  if impl.strPath = [] then none
  else some (impl.lstQuestions.map fun item =>
    { strId := item.id, strGroup := item.group,
      strQuestion := item.question, strAnswer := item.answer })

/-- `CQuestionAnswerImpl::addQuestion`. -/
def addQuestion (qap : CQuestionAnswerParam) (impl : CQuestionAnswerImpl) :
    Bool × CQuestionAnswerImpl :=
  if impl.strPath = [] then impl.notOpened
  else
    match impl.lstQuestions.findIdx? fun qa => qa.id = qap.strId with
    | some _ => impl.refuse
        (formatted (utf8 "Repeated question id '" ++ cString qap.strId ++ utf8 "'"))
    | none =>
        (true,
          { impl with
            lstQuestions := impl.lstQuestions ++
              [{ id := qap.strId, group := qap.strGroup,
                 question := qap.strQuestion, answer := qap.strAnswer }] })

/-- `CQuestionAnswerImpl::deleteQuestion`. -/
def deleteQuestion (qid : String) (impl : CQuestionAnswerImpl) :
    Bool × CQuestionAnswerImpl :=
  if impl.strPath = [] then impl.notOpened
  else
    match impl.lstQuestions.findIdx? fun qa => qa.id = qid with
    | none => impl.refuse
        (formatted (utf8 "Get question by id '" ++ cString qid ++ utf8 "' failed"))
    | some index =>
        (true, { impl with lstQuestions := swapRemove index impl.lstQuestions })

/-- `CQuestionAnswerImpl::queryQuestion`. The second component is the answer
written to the caller, if any. -/
def queryQuestion (qid : String) (impl : CQuestionAnswerImpl) :
    (Bool × Option String) × CQuestionAnswerImpl :=
  if impl.strPath = [] then ((false, none), impl.notOpened.2)
  else
    match impl.lstQuestions.find? fun qa => qa.id = qid with
    | none => ((false, none), (impl.refuse
        (formatted (utf8 "Get question by id '" ++ cString qid ++ utf8 "' failed"))).2)
    | some found => ((true, some found.answer), impl)

/-- `CQuestionAnswerImpl::updateQuestion`. -/
def updateQuestion (qid : String) (dst : CQuestionAnswerParam)
    (impl : CQuestionAnswerImpl) : Bool × CQuestionAnswerImpl :=
  if impl.strPath = [] then impl.notOpened
  else if qid ≠ dst.strId then impl.refuse
    (formatted (utf8 "Src id '" ++ cString qid ++ utf8 "' and dst id '" ++
      cString dst.strId ++ utf8 "' is mismatch"))
  else
    match impl.lstQuestions.findIdx? fun qa => qa.id = qid with
    | none => impl.refuse
        (formatted (utf8 "Get question by id '" ++ cString qid ++ utf8 "' failed"))
    | some index =>
        (true,
          { impl with
            lstQuestions := impl.lstQuestions.modify index fun qa =>
              { qa with group := dst.strGroup, question := dst.strQuestion,
                        answer := dst.strAnswer } })

end CQuestionAnswerImpl

end Notebook
