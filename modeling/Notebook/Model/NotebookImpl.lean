import Notebook.Library.TreeSearch
import Notebook.Model.QuestionAnswerImpl

/-!
# `notebook_impl.cpp`: the question bank

A bank keeps the tree of groups, the map from group ids to names, the store of
`ids.dat` and the text of the last error. The private functions of the source
take a group by reference; here they take the subtree and return its new value
next to the other members, gathered in `Registers` with the disk they act on.

The answer of a call records whether it returned, left with an exception, or ran
into behaviour the language does not define: a null pointer, or an element read
outside a vector.
-/

namespace Notebook

/-- How a call ends. -/
inductive Outcome (β : Type u)
  | value (b : β)
  | threw
  | undefined
  deriving DecidableEq, Repr

/-- The members of `CQuestionGroupParam` other than `m_vecGroups`. -/
structure GroupMembers where
  strName : String := ""
  strId : String := ""
  strPath : Path := []
  vecQuestions : List CQuestionAnswerImpl := []
  deriving DecidableEq, Repr

/-- The members that identify a group and its place. -/
def GroupMembers.identity (grp : GroupMembers) : String × String × Path :=
  (grp.strId, grp.strName, grp.strPath)

/-- `CQuestionGroupParam`: the elements of `m_vecGroups` are the subtrees. -/
abbrev CQuestionGroupParam := RoseTree GroupMembers

/-- `GROUP_CTRL_TYPE`. -/
inductive GroupCtrlType
  | none
  | add
  | delete
  | update
  | max
  deriving DecidableEq, Repr

/-! ## The map of ids -/

/-- `std::unordered_map<std::string, std::string>`, entries in the order they were
inserted. -/
abbrev IdMap := List (String × String)

namespace IdMap

/-- Whether `find` reaches an entry. -/
def contains (map : IdMap) (id : String) : Bool :=
  map.any fun kv => kv.1 = id

/-- Whether some entry has a given value. -/
def hasName (map : IdMap) (name : String) : Bool :=
  map.any fun kv => kv.2 = name

/-- `emplace` keeps an entry that is already there. -/
def emplace (map : IdMap) (id name : String) : IdMap :=
  if map.contains id then map else map ++ [(id, name)]

/-- `erase`. -/
def erase (map : IdMap) (id : String) : IdMap :=
  map.filter fun kv => kv.1 ≠ id

/-- The id that a walk over the map meets first with a given name, or the empty
id. -/
def idOfName (rt : Runtime) (map : IdMap) (name : String) : String :=
  match (rt.walkOrder map).find? fun kv => kv.2 = name with
  | some kv => kv.1
  | none => ""

end IdMap

/-! ## Members next to the tree -/

/-- The members of a bank other than the tree, and the disk they act on. -/
structure Registers where
  strErrorMsg : Bytes := []
  ptrIds : Option CQuestionAnswerImpl := none
  mapIds : IdMap := []
  disk : Disk := FileSystem.empty
  refusals : Refusals := Refusals.never

/-- Close stores in turn. On an error the store at hand and the later ones
remain. -/
def closeAll (rt : Runtime) :
    List CQuestionAnswerImpl → Disk → Bool × List CQuestionAnswerImpl × Disk
  | [], disk => (true, [], disk)
  | ctx :: rest, disk =>
      match ctx.close rt disk with
      | none => (false, ctx :: rest, disk)
      | some disk => closeAll rt rest disk

namespace Registers

/-- `CQuestionBankImpl::addGroup(id, name, qgp)`. -/
def addGroup (id name : String) (qgp : CQuestionGroupParam) (r : Registers) :
    Outcome Bool × CQuestionGroupParam × Registers :=
  let r := { r with mapIds := r.mapIds.emplace id name }
  match r.ptrIds with
  | none => (.undefined, qgp, r)
  | some ids =>
      let r := { r with ptrIds := some (ids.addGroup id name).2 }
      let path := qgp.label.strPath.join name
      let grp : GroupMembers := { strId := id, strName := name, strPath := path }
      let qgp := RoseTree.node qgp.label (qgp.children ++ [.node grp []])
      if r.disk.isPresent path then (.value true, qgp, r)
      else
        match r.refusals.createDirectory r.disk path with
        | .created disk => (.value true, qgp, { r with disk := disk })
        | .notCreated =>
            (.value false, qgp,
              { r with
                strErrorMsg := formatted (utf8 "Create directory '" ++
                  cString qgp.label.strPath.toText ++ utf8 "' failed") })
        | .error => (.threw, qgp, r)

/-- The loop over `m_vecGroups` in `deleteGroup`. Begin and end of the vector are
taken once, so position `i` is read for each of the `count` elements the vector
had at the start, whatever the calls in the body erase. -/
def deleteEach
    (deleteGroup : String → CQuestionGroupParam → Registers →
      Outcome Bool × CQuestionGroupParam × Registers) :
    (count i : Nat) → CQuestionGroupParam → Registers →
      Outcome Unit × CQuestionGroupParam × Registers
  | 0, _, found, r => (.value (), found, r)
  | count + 1, i, found, r =>
      match found.children[i]? with
      | none => (.undefined, found, r)
      | some grp =>
          match deleteGroup grp.label.strId found r with
          | (.value _, found, r) => deleteEach deleteGroup count (i + 1) found r
          | (.threw, found, r) => (.threw, found, r)
          | (.undefined, found, r) => (.undefined, found, r)

/-- `CQuestionBankImpl::deleteGroup(id, qgp)` with a bound on the depth of the
recursion. -/
def deleteGroupWithin (rt : Runtime) :
    Nat → String → CQuestionGroupParam → Registers →
      Outcome Bool × CQuestionGroupParam × Registers
  | 0, _, qgp, r => (.undefined, qgp, r)
  | depth + 1, id, qgp, r =>
      let r := { r with mapIds := r.mapIds.erase id }
      match r.ptrIds with
      | none => (.undefined, qgp, r)
      | some ids =>
          let r := { r with ptrIds := some (ids.deleteGroup id).2 }
          match splitFirst (fun grp => grp.label.strId = id) qgp.children with
          | none =>
              (.value false, qgp,
                { r with
                  strErrorMsg := formatted
                    (utf8 "Found group by id '" ++ cString id ++ utf8 "' failed") })
          | some (before, found, after) =>
              let put := fun grp =>
                RoseTree.node qgp.label (before ++ grp :: after)
              match closeAll rt found.label.vecQuestions r.disk with
              | (false, stores, disk) =>
                  (.threw,
                    put (.node { found.label with vecQuestions := stores } found.children),
                    { r with disk := disk })
              | (true, _, disk) =>
                  let found :=
                    RoseTree.node { found.label with vecQuestions := [] } found.children
                  match deleteEach (deleteGroupWithin rt depth)
                      found.children.length 0 found { r with disk := disk } with
                  | (.threw, found, r) => (.threw, put found, r)
                  | (.undefined, found, r) => (.undefined, put found, r)
                  | (.value _, found, r) =>
                      let path := found.label.strPath
                      if r.disk.isPresent path ∧ r.disk.isDirectory path then
                        match r.refusals.removeAll r.disk path with
                        | none =>
                            (.value false, put found,
                              { r with
                                strErrorMsg := formatted (rt.what (.removeAll path)) })
                        | some disk =>
                            (.value true, .node qgp.label (before ++ after),
                              { r with disk := disk })
                      else (.value true, .node qgp.label (before ++ after), r)

/-- `CQuestionBankImpl::deleteGroup(id, qgp)`. The recursion goes down the tree
below `qgp`. -/
def deleteGroup (rt : Runtime) (id : String) (qgp : CQuestionGroupParam)
    (r : Registers) : Outcome Bool × CQuestionGroupParam × Registers :=
  deleteGroupWithin rt qgp.height id qgp r

/-- `CQuestionBankImpl::updateGroup(id, name, qgp)`. -/
def updateGroup (rt : Runtime) (id name : String) (qgp : CQuestionGroupParam)
    (r : Registers) : Outcome Bool × CQuestionGroupParam × Registers :=
  match splitFirst (fun grp => grp.label.strId = id) qgp.children with
  | none =>
      (.value false, qgp,
        { r with
          strErrorMsg := formatted
            (utf8 "Found group by id '" ++ cString id ++ utf8 "' failed") })
  | some (before, found, after) =>
      match r.ptrIds with
      | none => (.undefined, qgp, r)
      | some ids =>
          let r := { r with ptrIds := some (ids.updateGroup id name).2 }
          let qgp := RoseTree.node qgp.label
            (before ++ .node { found.label with strName := name } found.children :: after)
          let path := qgp.label.strPath.join name
          match r.refusals.rename r.disk found.label.strPath path with
          | none =>
              (.value false, qgp,
                { r with
                  strErrorMsg := formatted (rt.what (.rename found.label.strPath path)) })
          | some disk => (.value true, qgp, { r with disk := disk })

/-- The switch of `ctrlGroup`. -/
def ctrlHere (rt : Runtime) (gid name : String) (type : GroupCtrlType)
    (qgp : CQuestionGroupParam) (r : Registers) :
    Outcome Bool × CQuestionGroupParam × Registers :=
  match type with
  | .add => r.addGroup gid name qgp
  | .delete => r.deleteGroup rt gid qgp
  | .update => r.updateGroup rt gid name qgp
  | .none => (.value false, qgp, r)
  | .max => (.value false, qgp, r)

/-- `CQuestionBankImpl::ctrlGroup`: `std::find_if` goes on while the answer is
false. -/
def ctrlGroup (rt : Runtime) (pid gid name : String) (type : GroupCtrlType)
    (qgp : CQuestionGroupParam) (r : Registers) :
    Outcome Bool × CQuestionGroupParam × Registers :=
  RoseTree.search (fun grp => pid = "" ∨ pid = grp.strId)
    (fun grp r => ctrlHere rt gid name type grp r)
    (fun answer => answer = .value false) (.value false) qgp r

end Registers

/-! ## The bank -/

/-- `CQuestionBankImpl`. -/
structure CQuestionBankImpl where
  clsQuestionBank : CQuestionGroupParam := .node {} []
  strIdPath : Path := []
  regs : Registers := {}

namespace CQuestionBankImpl

/-- A default-constructed bank on a disk. -/
def fresh (disk : Disk) (refusals : Refusals) : CQuestionBankImpl :=
  { regs := { disk := disk, refusals := refusals } }

/-- `CQuestionBankImpl::getQuestionsBank`. -/
def getQuestionsBank (b : CQuestionBankImpl) : Bool × CQuestionGroupParam :=
  (true, b.clsQuestionBank)

/-- `notebook_format_string(m_strErrorMsg, ..)`. -/
def setError (b : CQuestionBankImpl) (message : Bytes) : CQuestionBankImpl :=
  { b with regs := { b.regs with strErrorMsg := formatted message } }

/-! ### Questions -/

/-- What `findQustionAnswerContext` does at the group with the id: open a store if
there is none, and hand out the first one. `use` is what the caller does with the
store; a null pointer is the answer `none`. -/
def contextHere (rt : Runtime) (disk : Disk)
    (use : CQuestionAnswerImpl → β × CQuestionAnswerImpl)
    (qgp : CQuestionGroupParam) : Option β × CQuestionGroupParam :=
  match qgp.label.vecQuestions with
  | [] =>
      let path := qgp.label.strPath.join (qgp.label.strId ++ ".dat")
      match CQuestionAnswerImpl.openFile rt disk path true {} with
      | (false, _) => (none, qgp)
      | (true, impl) =>
          (some (use impl).1,
            .node { qgp.label with vecQuestions := [(use impl).2] } qgp.children)
  | ctx :: rest =>
      (some (use ctx).1,
        .node { qgp.label with vecQuestions := (use ctx).2 :: rest } qgp.children)

/-- `CQuestionBankImpl::findQustionAnswerContext`: the loop over the sub-groups is
left at the first pointer that is not null. -/
def findQustionAnswerContext (rt : Runtime) (disk : Disk) (gid : String)
    (use : CQuestionAnswerImpl → β × CQuestionAnswerImpl)
    (qgp : CQuestionGroupParam) : Option β × CQuestionGroupParam :=
  let (answer, tree, _) := RoseTree.search (fun grp => grp.strId = gid)
    (fun grp (_ : Unit) =>
      let (answer, tree) := contextHere rt disk use grp
      (answer, tree, ()))
    Option.isNone none qgp ()
  (answer, tree)

/-- The registry check and the search that every question operation starts
with, followed by what the operation does with the store. -/
def withContext (rt : Runtime) (gid : String)
    (use : CQuestionAnswerImpl → β × CQuestionAnswerImpl)
    (b : CQuestionBankImpl) : Option β × CQuestionBankImpl :=
  if b.regs.mapIds.contains gid = false then
    (none, b.setError (utf8 "Found group id '" ++ cString gid ++ utf8 "' failed"))
  else
    match findQustionAnswerContext rt b.regs.disk gid use b.clsQuestionBank with
    | (none, tree) =>
        (none, { b with clsQuestionBank := tree }.setError
          (utf8 "Found context by group id '" ++ cString gid ++ utf8 "' failed"))
    | (some answer, tree) => (some answer, { b with clsQuestionBank := tree })

/-- `CQuestionBankImpl::addQuestion`. -/
def addQuestion (rt : Runtime) (gid id question answer : String)
    (b : CQuestionBankImpl) : Bool × CQuestionBankImpl :=
  let (result, b) := b.withContext rt gid fun ctx =>
    ctx.addQuestion
      { strGroup := gid, strId := id, strQuestion := question, strAnswer := answer }
  (result.getD false, b)

/-- `CQuestionBankImpl::deleteQuestion`. -/
def deleteQuestion (rt : Runtime) (gid id : String) (b : CQuestionBankImpl) :
    Bool × CQuestionBankImpl :=
  let (result, b) := b.withContext rt gid fun ctx => ctx.deleteQuestion id
  (result.getD false, b)

/-- `CQuestionBankImpl::queryQuestion`, with the answer written to the caller. -/
def queryQuestion (rt : Runtime) (gid id : String) (b : CQuestionBankImpl) :
    (Bool × Option String) × CQuestionBankImpl :=
  let (result, b) := b.withContext rt gid fun ctx => ctx.queryQuestion id
  (result.getD (false, none), b)

/-- `CQuestionBankImpl::updateQuestion`. -/
def updateQuestion (rt : Runtime) (gid id question answer : String)
    (b : CQuestionBankImpl) : Bool × CQuestionBankImpl :=
  let (result, b) := b.withContext rt gid fun ctx =>
    ctx.updateQuestion id
      { strGroup := gid, strId := id, strQuestion := question, strAnswer := answer }
  (result.getD false, b)

/-! ### Groups -/

/-- Run `ctrlGroup` on the root. -/
def ctrlRoot (rt : Runtime) (pid gid name : String) (type : GroupCtrlType)
    (b : CQuestionBankImpl) : Outcome Bool × CQuestionBankImpl :=
  let (answer, tree, r) := Registers.ctrlGroup rt pid gid name type b.clsQuestionBank b.regs
  (answer, { b with clsQuestionBank := tree, regs := r })

/-- `CQuestionBankImpl::addGroup(pid, name, id)`. -/
def addGroup (rt : Runtime) (pid name id : String) (b : CQuestionBankImpl) :
    Outcome Bool × CQuestionBankImpl :=
  if b.regs.mapIds.contains id then
    (.value false, b.setError (utf8 "Repeated group id '" ++ cString id ++ utf8 "'"))
  else if b.regs.mapIds.hasName name then
    (.value false, b.setError (utf8 "Repeated group name '" ++ cString name ++ utf8 "'"))
  else b.ctrlRoot rt pid id name .add

/-- `CQuestionBankImpl::deleteGroup(pid, id)`. -/
def deleteGroup (rt : Runtime) (pid id : String) (b : CQuestionBankImpl) :
    Outcome Bool × CQuestionBankImpl :=
  b.ctrlRoot rt pid id "" .delete

/-- `CQuestionBankImpl::updateGroup(pid, id, name)`. -/
def updateGroup (rt : Runtime) (pid id name : String) (b : CQuestionBankImpl) :
    Outcome Bool × CQuestionBankImpl :=
  b.ctrlRoot rt pid id name .update

/-! ### Initialisation -/

/-- What `initQuestionBank` does at the group with the name of the parent. -/
def placeHere (rt : Runtime) (disk : Disk) (mapIds : IdMap)
    (path : Path) (name : String) (isFile : Bool)
    (qgp : CQuestionGroupParam) : Bool × CQuestionGroupParam :=
  if isFile then
    match CQuestionAnswerImpl.openFile rt disk path true {} with
    | (false, _) => (false, qgp)
    | (true, impl) =>
        (true,
          .node { qgp.label with vecQuestions := qgp.label.vecQuestions ++ [impl] }
            qgp.children)
  else
    let tmp : GroupMembers :=
      { strName := name, strPath := path, strId := mapIds.idOfName rt name }
    (true, .node qgp.label (qgp.children ++ [.node tmp []]))

/-- `CQuestionBankImpl::initQuestionBank`: `std::find_if` goes on while the answer
is false. -/
def initQuestionBank (rt : Runtime) (disk : Disk) (mapIds : IdMap)
    (parentName : String) (path : Path) (name : String) (isFile : Bool)
    (qgp : CQuestionGroupParam) : Bool × CQuestionGroupParam :=
  let (answer, tree, _) := RoseTree.search (fun grp => grp.strName = parentName)
    (fun grp (_ : Unit) =>
      let (answer, tree) := placeHere rt disk mapIds path name isFile grp
      (answer, tree, ()))
    (fun answer => answer = false) false qgp ()
  (answer, tree)

/-- The body of the loop in `init`: one entry of the listing. -/
def initEntry (rt : Runtime) (disk : Disk) (mapIds : IdMap) (rootName : String)
    (entry : Path) (qgp : CQuestionGroupParam) : Bool × CQuestionGroupParam :=
  let parentName := Path.filename entry.dropLast
  let curName := entry.filename
  if disk.isFile entry then
    if curName = "ids.dat" then (true, qgp)
    else initQuestionBank rt disk mapIds parentName entry curName true qgp
  else if disk.isDirectory entry then
    if parentName = rootName then
      let grp : GroupMembers :=
        { strPath := entry, strName := curName, strId := mapIds.idOfName rt curName }
      (true, .node qgp.label (qgp.children ++ [.node grp []]))
    else initQuestionBank rt disk mapIds parentName entry curName false qgp
  else (true, qgp)

/-- The loop in `init`, which is left with the answer false at the first entry
that cannot be placed. -/
def initEntries (rt : Runtime) (disk : Disk) (mapIds : IdMap) (rootName : String) :
    List Path → CQuestionGroupParam → Bool × CQuestionGroupParam
  | [], qgp => (true, qgp)
  | entry :: entries, qgp =>
      match initEntry rt disk mapIds rootName entry qgp with
      | (false, qgp) => (false, qgp)
      | (true, qgp) => initEntries rt disk mapIds rootName entries qgp

/-- What the recursive directory iterator delivers: entries, and whether it then
raises an error. -/
structure Listing where
  entries : List Path
  failed : Bool := false

/-- Close the store of the ids and drop it, then answer false. -/
def abandonIds (rt : Runtime) (ids : CQuestionAnswerImpl) (b : CQuestionBankImpl) :
    Outcome Bool × CQuestionBankImpl :=
  match ids.close rt b.regs.disk with
  | none => (.threw, { b with regs := { b.regs with ptrIds := some ids } })
  | some disk =>
      (.value false, { b with regs := { b.regs with ptrIds := none, disk := disk } })

/-- The part of `init` after the root directory is there. -/
def initWithin (rt : Runtime) (path : Path) (listing : Listing)
    (b : CQuestionBankImpl) : Outcome Bool × CQuestionBankImpl :=
  let b := { b with strIdPath := path ++ ["ids.dat"] }
  match CQuestionAnswerImpl.openFile rt b.regs.disk b.strIdPath false {} with
  | (false, ids) =>
      (.value false,
        { b with regs := { b.regs with ptrIds := none } }.setError
          (ids.strErrorMsg.takeWhile (· ≠ 0)))
  | (true, ids) =>
      match ids.getGroups IdMap.emplace b.regs.mapIds with
      | (false, mapIds, ids) =>
          { b with regs := { b.regs with mapIds := mapIds } }.setError
            (ids.strErrorMsg.takeWhile (· ≠ 0)) |>.abandonIds rt ids
      | (true, mapIds, ids) =>
          let root := { b.clsQuestionBank.label with
            strName := path.filename, strPath := path }
          let b := { b with regs := { b.regs with mapIds := mapIds, ptrIds := some ids } }
          have isDirectory := b.regs.disk.isDirectory path
          let entries := if isDirectory then listing.entries else []
          match initEntries rt b.regs.disk mapIds path.filename entries
              (.node root b.clsQuestionBank.children) with
          | (false, tree) => (.value false, { b with clsQuestionBank := tree })
          | (true, tree) =>
              if listing.failed ∨ isDirectory = false then
                { b with clsQuestionBank := tree }.setError (rt.what (.iterate path))
                  |>.abandonIds rt ids
              else (.value true, { b with clsQuestionBank := tree })

/-- `CQuestionBankImpl::init`. -/
def init (rt : Runtime) (path : Path) (listing : Listing) (b : CQuestionBankImpl) :
    Outcome Bool × CQuestionBankImpl :=
  if b.regs.disk.isPresent path then b.initWithin rt path listing
  else
    match b.regs.refusals.createDirectory b.regs.disk path with
    | .error => (.threw, b)
    | .notCreated =>
        (.value false, b.setError
          (utf8 "Create directory '" ++ cString path.toText ++ utf8 "' failed"))
    | .created disk =>
        { b with regs := { b.regs with disk := disk } }.initWithin rt path listing

mutual

/-- `CQuestionBankImpl::uninitQuestionBank`. The first component tells whether it
returned without an exception. -/
def uninitQuestionBank (rt : Runtime) :
    CQuestionGroupParam → Disk → Bool × CQuestionGroupParam × Disk
  | .node grp groups, disk =>
      match closeAll rt grp.vecQuestions disk with
      | (false, stores, disk) =>
          (false, .node { grp with vecQuestions := stores } groups, disk)
      | (true, _, disk) =>
          let (ok, groups, disk) := uninitQuestionBanks rt groups disk
          (ok, .node { grp with vecQuestions := [] } groups, disk)

/-- The loop of `uninitQuestionBank` over the sub-groups. -/
def uninitQuestionBanks (rt : Runtime) :
    List CQuestionGroupParam → Disk → Bool × List CQuestionGroupParam × Disk
  | [], disk => (true, [], disk)
  | qgp :: groups, disk =>
      match uninitQuestionBank rt qgp disk with
      | (false, qgp, disk) => (false, qgp :: groups, disk)
      | (true, qgp, disk) =>
          let (ok, groups, disk) := uninitQuestionBanks rt groups disk
          (ok, qgp :: groups, disk)

end

/-- The second half of `uninit`. -/
def uninitTree (rt : Runtime) (b : CQuestionBankImpl) :
    Outcome Unit × CQuestionBankImpl :=
  let (ok, tree, disk) := uninitQuestionBank rt b.clsQuestionBank b.regs.disk
  (if ok then .value () else .threw,
    { b with clsQuestionBank := tree, regs := { b.regs with disk := disk } })

/-- `CQuestionBankImpl::uninit`. -/
def uninit (rt : Runtime) (b : CQuestionBankImpl) : Outcome Unit × CQuestionBankImpl :=
  match b.regs.ptrIds with
  | none => b.uninitTree rt
  | some ids =>
      match ids.close rt b.regs.disk with
      | none => (.threw, b)
      | some disk =>
          { b with regs := { b.regs with ptrIds := none, disk := disk } }.uninitTree rt

end CQuestionBankImpl

end Notebook
