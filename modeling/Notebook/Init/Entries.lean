import Notebook.Store.Closing

/-!
# One entry of the listing

`init` places every entry of the listing by a search for the bare name of its
parent. Whatever that search finds, a file that is placed adds exactly one store,
and the stores that are already there stay.
-/

namespace Notebook

open RoseTree

namespace CQuestionAnswerImpl

/-- The list of decoded records of the file at a path. No file counts as the empty
list; the answer is `none` when the file cannot be decoded. -/
def decodedAt (parse : Bytes → Option (List α)) (disk : Disk) (path : Path) :
    Option (List α) :=
  match disk.contentsAt path with
  | some contents => parse contents
  | none => some []

theorem decodedAt_congr (parse : Bytes → Option (List α)) {disk disk' : Disk}
    {path : Path}
    (same : disk'.contentsAt path = disk.contentsAt path) :
    decodedAt parse disk' path = decodedAt parse disk path := by
  unfold decodedAt
  rw [same]

/-- Records that were written to a path are decoded from it. -/
theorem decodedAt_of_recordsNode {parse : Bytes → Option (List α)}
    {serialize : List α → Bytes}
    (undoes : ∀ items, parse (serialize items) = some items)
    {disk : Disk}
    {path : Path}
    {items : List α}
    (node : disk.node path = recordsNode serialize items) :
    decodedAt parse disk path = some items := by
  unfold recordsNode at node
  split at node
  · rename_i empty
    rw [decodedAt, FileSystem.contentsAt_of_absent node, empty]
  · rw [decodedAt, FileSystem.contentsAt_of_node node]
    exact undoes items

/-- What opening a path on a new object gives. The records that are read are of the kind
of `parse`, and `holding` is the object that holds them. -/
def openRecords (parse : Bytes → Option (List α)) (holding : List α → CQuestionAnswerImpl)
    (disk : Disk) (path : Path) : Option CQuestionAnswerImpl :=
  if path = [] then none
  else if disk.isPresent path = false then some (holding [])
  else (parseFile parse disk path).map holding

/-- Opening a path succeeds exactly when it is absent or a file that can be decoded, and
reads its records. -/
theorem openRecords_eq_some_iff {parse : Bytes → Option (List α)}
    {holding : List α → CQuestionAnswerImpl}
    {disk : Disk}
    {path : Path}
    {impl : CQuestionAnswerImpl} :
    openRecords parse holding disk path = some impl ↔
      path ≠ [] ∧ disk.node path ≠ some .directory ∧
        ∃ items, decodedAt parse disk path = some items ∧ impl = holding items := by
  by_cases empty : path = []
  · simp [openRecords, empty]
  · unfold openRecords decodedAt parseFile FileSystem.isPresent FileSystem.contentsAt
    rw [if_neg empty]
    rcases disk.node path with _ | ⟨_⟩ | ⟨contents⟩
    · simp [empty, eq_comm]
    · simp
    · simp [empty, eq_comm]

theorem openFile_questions_iff {rt : Runtime} {disk : Disk} {path : Path}
    {impl : CQuestionAnswerImpl} :
    openFile rt disk path true {} = (true, impl) ↔
      path ≠ [] ∧ disk.node path ≠ some .directory ∧
        ∃ items, decodedAt rt.parseQuestions disk path = some items ∧
          impl = { strPath := path, lstQuestions := items } := by
  rw [← openRecords_eq_some_iff, openFile, openRecords]
  split
  · simp
  · split
    · simp
    · cases parseFile rt.parseQuestions disk path <;> simp

theorem openFile_groups_iff {rt : Runtime} {disk : Disk} {path : Path}
    {impl : CQuestionAnswerImpl} :
    openFile rt disk path false {} = (true, impl) ↔
      path ≠ [] ∧ disk.node path ≠ some .directory ∧
        ∃ items, decodedAt rt.parseGroups disk path = some items ∧
          impl = { strPath := path, lstGroups := items } := by
  rw [← openRecords_eq_some_iff, openFile, openRecords]
  split
  · simp
  · split
    · simp
    · cases parseFile rt.parseGroups disk path <;> simp

end CQuestionAnswerImpl

namespace CQuestionBankImpl

/-- Whether the loop of `init` opens an entry as a store. -/
def isStoreEntry (disk : Disk) (entry : Path) : Bool :=
  disk.isFile entry && entry.filename ≠ "ids.dat"

theorem isFile_of_isStoreEntry {disk : Disk} {entry : Path}
    (isStore : isStoreEntry disk entry = true) :
    disk.isFile entry = true ∧ entry.filename ≠ "ids.dat" := by
  simpa [isStoreEntry] using isStore

theorem hasParent_of_isFile {disk : Disk} {path : Path}
    (file : disk.isFile path = true) : disk.HasParent path := by
  obtain ⟨contents, node⟩ := FileSystem.isFile_iff.mp file
  apply FileSystem.hasParent_of_present
  simp [node]

/-- The store that is opened for an entry. -/
def storeOf (rt : Runtime) (disk : Disk) (entry : Path) : CQuestionAnswerImpl :=
  (CQuestionAnswerImpl.openFile rt disk entry true {}).2

/-- A placing that fails changes nothing. -/
theorem placeHere_inert {rt : Runtime} {disk : Disk} {mapIds : IdMap} {path : Path}
    {name : String} {isFile : Bool} {qgp : CQuestionGroupParam}
    (fails : (placeHere rt disk mapIds path name isFile qgp).1 = false) :
    placeHere rt disk mapIds path name isFile qgp = (false, qgp) := by
  unfold placeHere at fails ⊢
  cases isFile with
  | false => simp at fails
  | true =>
      rw [if_pos rfl] at fails ⊢
      split at fails
      · rfl
      · simp at fails

/-- `initQuestionBank` fails without effect or places the entry at one group with
the name of the parent. -/
theorem initQuestionBank_cases (rt : Runtime) (disk : Disk) (mapIds : IdMap)
    (parentName : String) (path : Path) (name : String) (isFile : Bool)
    (qgp : CQuestionGroupParam) :
    initQuestionBank rt disk mapIds parentName path name isFile qgp = (false, qgp) ∨
      ∃ c u, qgp = plug c u ∧ u.label.strName = parentName ∧
        (placeHere rt disk mapIds path name isFile u).1 = true ∧
        initQuestionBank rt disk mapIds parentName path name isFile qgp =
          (true, plug c (placeHere rt disk mapIds path name isFile u).2) := by
  have inert : ∀ (u : CQuestionGroupParam) (s : Unit),
      decide ((placeHere rt disk mapIds path name isFile u).1 = false) = true →
      ((placeHere rt disk mapIds path name isFile u).1,
        (placeHere rt disk mapIds path name isFile u).2, ()) = (false, u, s) := by
    intro u s fails
    rw [placeHere_inert (by simpa using fails)]
  have found := @search_of_inert _ _ _ (fun grp => decide (grp.strName = parentName))
    (fun u _ => ((placeHere rt disk mapIds path name isFile u).1,
      (placeHere rt disk mapIds path name isFile u).2, ()))
    (fun answer => decide (answer = false)) false inert rfl qgp ()
  unfold initQuestionBank
  rcases found with missed | ⟨c, u, split, hitThere, stops, placed⟩
  · exact Or.inl (by rw [missed])
  · have placedHere : (placeHere rt disk mapIds path name isFile u).1 = true := by
      simpa using stops
    refine Or.inr ⟨c, u, split, by simpa using hitThere, placedHere, ?_⟩
    rw [placed, placedHere]

/-- An entry is placed at the first group with the name of the parent. -/
theorem initQuestionBank_of_first {rt : Runtime} {disk : Disk} {mapIds : IdMap}
    {parentName : String} {path : Path} {name : String} {isFile : Bool}
    {c : Context GroupMembers} {u : CQuestionGroupParam}
    (named : u.label.strName = parentName)
    (notBefore : ∀ grp ∈ visited c, grp.strName ≠ parentName)
    (placed : (placeHere rt disk mapIds path name isFile u).1 = true) :
    initQuestionBank rt disk mapIds parentName path name isFile (plug c u) =
      (true, plug c (placeHere rt disk mapIds path name isFile u).2) := by
  unfold initQuestionBank
  rw [search_plug_of_stop ?goes (by simpa using named) (by simpa using notBefore)
    (by simp [placed])]
  case goes => rfl
  simp [placed]

/-- A new group without stores adds no store. -/
theorem stores_addGroup (qgp : CQuestionGroupParam) {grp : GroupMembers}
    (noStores : grp.vecQuestions = []) :
    stores (.node qgp.label (qgp.children ++ [.node grp []])) = stores qgp := by
  rw [← node_label_children qgp]
  simp [stores_node, noStores]

/-- Placing a file adds its store, placing a directory adds none. -/
theorem placeHere_stores {rt : Runtime} {disk : Disk} {mapIds : IdMap} {path : Path}
    {name : String} {isFile : Bool} {u : CQuestionGroupParam}
    (placed : (placeHere rt disk mapIds path name isFile u).1 = true) :
    (isFile = true → (CQuestionAnswerImpl.openFile rt disk path true {}).1 = true) ∧
      (stores (placeHere rt disk mapIds path name isFile u).2).Perm
        (stores u ++ if isFile then [storeOf rt disk path] else []) := by
  unfold placeHere at placed ⊢
  cases isFile with
  | false =>
      refine ⟨by simp, ?_⟩
      rw [if_neg (by simp), if_neg (by simp), List.append_nil, stores_addGroup u rfl]
  | true =>
      rw [if_pos rfl] at placed ⊢
      unfold storeOf
      rcases opened : CQuestionAnswerImpl.openFile rt disk path true {} with ⟨ok, impl⟩
      rw [opened] at placed
      cases ok with
      | false => simp at placed
      | true =>
          refine ⟨fun _ => rfl, ?_⟩
          cases u with
          | node grp groups =>
              simp only [label_node, children_node, stores_node, if_true]
              rw [List.append_assoc, List.append_assoc]
              exact List.perm_append_comm.append_left _

/-- What one entry that is placed does to the stores. -/
theorem initEntry_stores {rt : Runtime} {disk : Disk} {mapIds : IdMap}
    {rootName : String} {entry : Path} {qgp qgp' : CQuestionGroupParam}
    (placed : initEntry rt disk mapIds rootName entry qgp = (true, qgp')) :
    (isStoreEntry disk entry = true →
        (CQuestionAnswerImpl.openFile rt disk entry true {}).1 = true) ∧
      (stores qgp').Perm
        (stores qgp ++ if isStoreEntry disk entry then [storeOf rt disk entry] else []) := by
  have byName : ∀ isFile,
      initQuestionBank rt disk mapIds (Path.filename entry.dropLast) entry
        entry.filename isFile qgp = (true, qgp') →
      (isFile = true → (CQuestionAnswerImpl.openFile rt disk entry true {}).1 = true) ∧
        (stores qgp').Perm
          (stores qgp ++ if isFile then [storeOf rt disk entry] else []) := by
    intro isFile result
    rcases initQuestionBank_cases rt disk mapIds (Path.filename entry.dropLast) entry
        entry.filename isFile qgp with missed | ⟨c, u, rfl, _, placedHere, done⟩
    · rw [missed] at result
      cases result
    · rw [done] at result
      obtain rfl := (Prod.mk.inj result).2
      have here := placeHere_stores placedHere
      exact ⟨here.1, flatMap_preorder_plug_perm c here.2⟩
  dsimp only [initEntry] at placed
  split at placed
  · rename_i file
    split at placed
    · rename_i isIds
      obtain rfl := (Prod.mk.inj placed).2
      simp [isStoreEntry, isIds]
    · rename_i notIds
      have isStore : isStoreEntry disk entry = true := by
        simp [isStoreEntry, file, notIds]
      rw [isStore]
      exact byName true placed
  · rename_i notFile
    have notStore : isStoreEntry disk entry = false := by
      simp [isStoreEntry, notFile]
    rw [notStore]
    split at placed
    · split at placed
      · obtain rfl := (Prod.mk.inj placed).2
        simp [stores_addGroup]
      · exact byName false placed
    · obtain rfl := (Prod.mk.inj placed).2
      simp

/-- What a whole listing that is placed does to the stores. -/
theorem initEntries_stores {rt : Runtime} {disk : Disk} {mapIds : IdMap}
    {rootName : String} {entries : List Path} {qgp qgp' : CQuestionGroupParam}
    (placed : initEntries rt disk mapIds rootName entries qgp = (true, qgp')) :
    (∀ entry ∈ entries, isStoreEntry disk entry = true →
        (CQuestionAnswerImpl.openFile rt disk entry true {}).1 = true) ∧
      (stores qgp').Perm
        (stores qgp ++
          (entries.filter (isStoreEntry disk)).map (storeOf rt disk)) := by
  induction entries generalizing qgp with
  | nil =>
      obtain rfl := (Prod.mk.inj placed).2
      simp
  | cons entry entries inductionHypothesis =>
      rw [initEntries] at placed
      rcases first : initEntry rt disk mapIds rootName entry qgp with ⟨ok, middle⟩
      rw [first] at placed
      cases ok with
      | false => cases placed
      | true =>
          obtain ⟨opensFirst, permFirst⟩ := initEntry_stores first
          obtain ⟨opensRest, permRest⟩ := inductionHypothesis placed
          constructor
          · intro other present
            rcases List.mem_cons.mp present with rfl | inRest
            · exact opensFirst
            · exact opensRest other inRest
          · refine (permRest.trans (permFirst.append_right _)).trans ?_
            rw [List.append_assoc]
            apply List.Perm.append_left
            cases isStore : isStoreEntry disk entry <;> simp [isStore]

/-! ## The groups -/

/-- Identities of the groups of a tree. -/
def identities (qgp : CQuestionGroupParam) : List (String × String × Path) :=
  qgp.preorder.map GroupMembers.identity

theorem identities_eq_flatMap (qgp : CQuestionGroupParam) :
    identities qgp = qgp.preorder.flatMap fun grp => [grp.identity] := by
  rw [identities, List.map_eq_flatMap]

/-- The identity that `init` gives to the group of a directory. -/
def identityOf (rt : Runtime) (mapIds : IdMap) (dir : Path) : String × String × Path :=
  (mapIds.idOfName rt dir.filename, dir.filename, dir)

/-- A new group under the root of a tree adds its identity. -/
theorem identities_addGroup (qgp : CQuestionGroupParam) (grp : GroupMembers) :
    identities (.node qgp.label (qgp.children ++ [.node grp []])) =
      identities qgp ++ [grp.identity] := by
  cases qgp
  simp [identities]

/-- Placing a file keeps the identities, placing a directory adds that of its group. -/
theorem placeHere_identities {rt : Runtime} {disk : Disk} {mapIds : IdMap} {entry : Path}
    {isFile : Bool} (u : CQuestionGroupParam) :
    (placeHere rt disk mapIds entry entry.filename isFile u).2.label.identity =
        u.label.identity ∧
      identities (placeHere rt disk mapIds entry entry.filename isFile u).2 =
        identities u ++ if isFile then [] else [identityOf rt mapIds entry] := by
  unfold placeHere
  cases isFile with
  | false =>
      rw [if_neg (by simp), if_neg (by simp)]
      exact ⟨rfl, identities_addGroup u _⟩
  | true =>
      rw [if_pos rfl, if_pos rfl, List.append_nil]
      split
      · exact ⟨rfl, rfl⟩
      · cases u
        simp [identities, GroupMembers.identity]

/-- What one entry that is placed does to the identities. -/
theorem initEntry_identities {rt : Runtime} {disk : Disk} {mapIds : IdMap}
    {rootName : String} {entry : Path} {qgp qgp' : CQuestionGroupParam}
    (placed : initEntry rt disk mapIds rootName entry qgp = (true, qgp')) :
    qgp'.label.identity = qgp.label.identity ∧
      (identities qgp').Perm
        (identities qgp ++
          if disk.isDirectory entry then [identityOf rt mapIds entry] else []) := by
  have byName : ∀ isFile,
      initQuestionBank rt disk mapIds (Path.filename entry.dropLast) entry
        entry.filename isFile qgp = (true, qgp') →
      qgp'.label.identity = qgp.label.identity ∧
        (identities qgp').Perm
          (identities qgp ++ if isFile then [] else [identityOf rt mapIds entry]) := by
    intro isFile result
    rcases initQuestionBank_cases rt disk mapIds (Path.filename entry.dropLast) entry
        entry.filename isFile qgp with missed | ⟨c, u, rfl, _, _, done⟩
    · rw [missed] at result
      cases result
    · rw [done] at result
      obtain rfl := (Prod.mk.inj result).2
      obtain ⟨label, here⟩ := @placeHere_identities rt disk mapIds entry isFile u
      refine ⟨label_plug_congr c label, ?_⟩
      rw [identities_eq_flatMap, identities_eq_flatMap] at here ⊢
      exact flatMap_preorder_plug_perm c (List.Perm.of_eq here)
  dsimp only [initEntry] at placed
  split at placed
  · rename_i file
    have notDirectory : disk.isDirectory entry = false := by
      obtain ⟨contents, node⟩ := FileSystem.isFile_iff.mp file
      simp [FileSystem.isDirectory, node]
    rw [notDirectory]
    split at placed
    · obtain rfl := (Prod.mk.inj placed).2
      simp
    · exact byName true placed
  · split at placed
    · rename_i directory
      rw [directory, if_pos rfl]
      split at placed
      · obtain rfl := (Prod.mk.inj placed).2
        exact ⟨rfl, List.Perm.of_eq (identities_addGroup qgp _)⟩
      · exact byName false placed
    · rename_i notDirectory
      obtain rfl := (Prod.mk.inj placed).2
      simp [notDirectory]

/-- The groups after a whole listing are those before it and one for each directory
of the listing. -/
theorem initEntries_identities {rt : Runtime} {disk : Disk} {mapIds : IdMap}
    {rootName : String} {entries : List Path} {qgp qgp' : CQuestionGroupParam}
    (placed : initEntries rt disk mapIds rootName entries qgp = (true, qgp')) :
    qgp'.label.identity = qgp.label.identity ∧
      (identities qgp').Perm
        (identities qgp ++
          (entries.filter disk.isDirectory).map (identityOf rt mapIds)) := by
  induction entries generalizing qgp with
  | nil =>
      obtain rfl := (Prod.mk.inj placed).2
      simp
  | cons entry entries inductionHypothesis =>
      rw [initEntries] at placed
      rcases first : initEntry rt disk mapIds rootName entry qgp with ⟨ok, middle⟩
      rw [first] at placed
      cases ok with
      | false => cases placed
      | true =>
          obtain ⟨labelFirst, permFirst⟩ := initEntry_identities first
          obtain ⟨labelRest, permRest⟩ := inductionHypothesis placed
          refine ⟨labelRest.trans labelFirst, ?_⟩
          refine (permRest.trans (permFirst.append_right _)).trans ?_
          rw [List.append_assoc]
          apply List.Perm.append_left
          cases directory : disk.isDirectory entry <;> simp [directory]

end CQuestionBankImpl

end Notebook
