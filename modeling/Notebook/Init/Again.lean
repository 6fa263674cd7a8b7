import Notebook.Groups.Agreement
import Notebook.Init.Bank
import Notebook.Init.Insertion

/-!
# Initialising a bank again

`init` appends to the tree and to the map of ids that it finds, and `uninit` empties
neither. An object that was in use starts again like a new one exactly when nothing is
left over from the time before.
-/

namespace Notebook

open RoseTree CQuestionAnswerImpl

namespace CQuestionBankImpl

/-! ## Entries that can be placed -/

/-- The names of the groups of a tree. -/
def names (qgp : CQuestionGroupParam) : List String :=
  qgp.preorder.map GroupMembers.strName

/-- An entry of the listing can be placed among groups with given names: a file that is
not the registry has to be readable and needs a group with the name of its directory,
and so does a directory that is not in the root. -/
def CanPlace (rt : Runtime) (disk : Disk) (rootName : String) (names : List String)
    (entry : Path) : Prop :=
  (isStoreEntry disk entry = true →
    Path.filename entry.dropLast ∈ names ∧ (openFile rt disk entry true {}).1 = true) ∧
  (disk.isDirectory entry = true →
    Path.filename entry.dropLast = rootName ∨ Path.filename entry.dropLast ∈ names)

instance (rt : Runtime) (disk : Disk) (rootName : String) (names : List String)
    (entry : Path) : Decidable (CanPlace rt disk rootName names entry) :=
  inferInstanceAs (Decidable (_ ∧ _))

/-- The entries of a listing up to the first one that cannot be placed. -/
def placeable (rt : Runtime) (disk : Disk) (rootName : String) :
    List String → List Path → List Path
  | _, [] => []
  | names, entry :: entries =>
      if CanPlace rt disk rootName names entry then
        entry :: placeable rt disk rootName
          (names ++ if disk.isDirectory entry then [entry.filename] else []) entries
      else []

section Entries

variable {rt : Runtime} {disk : Disk} {rootName : String} {walk walk' : WalkOrder}

theorem CanPlace.mono {names names' : List String} {entry : Path}
    (canPlace : CanPlace rt disk rootName names entry) (subset : names ⊆ names') :
    CanPlace rt disk rootName names' entry :=
  ⟨fun isStore => ⟨subset (canPlace.1 isStore).1, (canPlace.1 isStore).2⟩,
    fun isDirectory => (canPlace.2 isDirectory).imp id fun member => subset member⟩

/-- With more names at least as many entries can be placed. -/
theorem placeable_mono {names names' : List String} (subset : names ⊆ names')
    (entries : List Path) :
    placeable rt disk rootName names entries <+:
      placeable rt disk rootName names' entries := by
  induction entries generalizing names names' with
  | nil => exact List.prefix_refl _
  | cons entry entries inductionHypothesis =>
      rw [placeable, placeable]
      by_cases canPlace : CanPlace rt disk rootName names entry
      · rw [if_pos canPlace, if_pos (canPlace.mono subset), List.prefix_cons_inj]
        apply inductionHypothesis
        exact List.append_subset.mpr
          ⟨List.Subset.trans subset (List.subset_append_left _ _),
            List.subset_append_right _ _⟩
      · rw [if_neg canPlace]
        exact List.nil_prefix

theorem placeable_congr {names names' : List String} (subset : names ⊆ names')
    (superset : names' ⊆ names) (entries : List Path) :
    placeable rt disk rootName names entries = placeable rt disk rootName names' entries :=
  (placeable_mono subset entries).eq_of_length_le
    (placeable_mono superset entries).length_le

/-- Placing an entry succeeds exactly when it can be placed among the groups that are
there, and changes nothing otherwise. -/
theorem initEntry_iff (mapIds : IdMap) (entry : Path) (qgp : CQuestionGroupParam) :
    ((initEntry rt disk mapIds rootName entry qgp).1 = true ↔
      CanPlace rt disk rootName (names qgp) entry) ∧
    ((initEntry rt disk mapIds rootName entry qgp).1 = false →
      initEntry rt disk mapIds rootName entry qgp = (false, qgp)) := by
  have named : (∃ grp ∈ qgp.preorder, grp.strName = Path.filename entry.dropLast) ↔
      Path.filename entry.dropLast ∈ names qgp := by
    rw [names, List.mem_map]
  have search := fun isFile => initQuestionBank_inserts_once rt disk mapIds
    (Path.filename entry.dropLast) entry entry.filename isFile qgp
  simp only [named] at search
  have missed : ∀ isFile, (initQuestionBank rt disk mapIds (Path.filename entry.dropLast)
      entry entry.filename isFile qgp).1 = false →
      initQuestionBank rt disk mapIds (Path.filename entry.dropLast) entry entry.filename
        isFile qgp = (false, qgp) :=
    fun isFile fails => Prod.ext fails ((search isFile).2.2 fails)
  unfold CanPlace
  dsimp only [initEntry]
  cases file : disk.isFile entry with
  | true =>
      have notDirectory : disk.isDirectory entry = false := by
        obtain ⟨contents, node⟩ := FileSystem.isFile_iff.mp file
        rw [FileSystem.isDirectory, node]
      rw [if_pos rfl]
      by_cases isIds : entry.filename = "ids.dat"
      · rw [if_pos isIds]
        simp [isStoreEntry, isIds, notDirectory]
      · rw [if_neg isIds]
        refine ⟨?_, missed true⟩
        rw [(search true).1]
        simp [isStoreEntry, isIds, file, notDirectory]
  | false =>
      rw [if_neg (by simp)]
      have notStore : isStoreEntry disk entry = false := by simp [isStoreEntry, file]
      cases directory : disk.isDirectory entry with
      | false =>
          rw [if_neg (by simp)]
          simp [notStore]
      | true =>
          rw [if_pos rfl]
          by_cases inRoot : Path.filename entry.dropLast = rootName
          · rw [if_pos inRoot]
            simp [notStore, inRoot]
          · rw [if_neg inRoot]
            refine ⟨?_, missed false⟩
            rw [(search false).1]
            simp [notStore, inRoot]

/-- Which groups an entry that is placed adds. -/
theorem names_initEntry {mapIds : IdMap} {entry : Path} {qgp qgp' : CQuestionGroupParam}
    (placed : initEntry rt disk mapIds rootName entry qgp = (true, qgp')) :
    (names qgp').Perm
      (names qgp ++ if disk.isDirectory entry then [entry.filename] else []) := by
  have perm := ((initEntry_identities placed).2.map fun parts => parts.2.1)
  rw [identities, identities, List.map_append, List.map_map, List.map_map] at perm
  refine perm.trans (List.Perm.of_eq ?_)
  rw [names]
  congr 1
  split <;> rfl

/-- The loop places the entries up to the first one that cannot be placed, and stops
there. -/
theorem initEntries_placeable (mapIds : IdMap) (entries : List Path)
    (qgp : CQuestionGroupParam) :
    initEntries rt disk mapIds rootName (placeable rt disk rootName (names qgp) entries) qgp =
        (true, (initEntries rt disk mapIds rootName entries qgp).2) ∧
      ((initEntries rt disk mapIds rootName entries qgp).1 = true ↔
        placeable rt disk rootName (names qgp) entries = entries) := by
  induction entries generalizing qgp with
  | nil => exact ⟨rfl, iff_of_true rfl rfl⟩
  | cons entry entries inductionHypothesis =>
      obtain ⟨placed, fails⟩ := @initEntry_iff rt disk rootName mapIds entry qgp
      rw [placeable]
      by_cases canPlace : CanPlace rt disk rootName (names qgp) entry
      · rw [if_pos canPlace]
        rcases first : initEntry rt disk mapIds rootName entry qgp with ⟨ok, next⟩
        rw [first] at placed
        obtain rfl : ok = true := placed.mpr canPlace
        have sameNames := names_initEntry first
        rw [← placeable_congr sameNames.subset sameNames.symm.subset, initEntries,
          initEntries, first]
        simpa using inductionHypothesis next
      · rw [if_neg canPlace]
        have notPlaced : (initEntry rt disk mapIds rootName entry qgp).1 = false := by
          simpa using fun isTrue => canPlace (placed.mp isTrue)
        rw [initEntries, initEntries, fails notPlaced]
        exact ⟨rfl, iff_of_false (by simp) (by simp)⟩

/-- Which entries can be placed does not depend on the order in which maps are walked. -/
theorem placeable_walking (walk : WalkOrder) (names : List String) (entries : List Path) :
    placeable (rt.walking walk) disk rootName names entries =
      placeable rt disk rootName names entries := by
  induction entries generalizing names with
  | nil => rfl
  | cons entry entries inductionHypothesis =>
      rw [placeable, placeable, inductionHypothesis]
      rfl

/-- An entry is placed alike with two maps that give the same id to its directory. -/
theorem initEntry_congr {mapIds mapIds' : IdMap} (entry : Path) (qgp : CQuestionGroupParam)
    (sameId : disk.isDirectory entry = true →
      mapIds.idOfName (rt.walking walk) entry.filename =
        mapIds'.idOfName (rt.walking walk') entry.filename) :
    initEntry (rt.walking walk) disk mapIds rootName entry qgp =
      initEntry (rt.walking walk') disk mapIds' rootName entry qgp := by
  dsimp only [initEntry]
  cases directory : disk.isDirectory entry with
  | false => rfl
  | true =>
      simp only [initQuestionBank, placeHere, sameId directory]
      rfl

/-- The loop places the same entries with two maps that give the same ids to their
directories. -/
theorem initEntries_congr {mapIds mapIds' : IdMap} (entries : List Path)
    (qgp : CQuestionGroupParam)
    (sameIds : ∀ entry ∈ placeable rt disk rootName (names qgp) entries,
      disk.isDirectory entry = true →
        mapIds.idOfName (rt.walking walk) entry.filename =
          mapIds'.idOfName (rt.walking walk') entry.filename) :
    initEntries (rt.walking walk) disk mapIds rootName entries qgp =
      initEntries (rt.walking walk') disk mapIds' rootName entries qgp := by
  induction entries generalizing qgp with
  | nil => rfl
  | cons entry entries inductionHypothesis =>
      obtain ⟨placed, fails⟩ := @initEntry_iff (rt.walking walk) disk rootName mapIds entry qgp
      obtain ⟨placed', fails'⟩ :=
        @initEntry_iff (rt.walking walk') disk rootName mapIds' entry qgp
      rw [placeable] at sameIds
      rw [initEntries, initEntries]
      by_cases canPlace : CanPlace rt disk rootName (names qgp) entry
      · rw [if_pos canPlace] at sameIds
        rw [← initEntry_congr entry qgp (sameIds entry List.mem_cons_self)]
        rcases first : initEntry (rt.walking walk) disk mapIds rootName entry qgp with ⟨ok, next⟩
        rw [first] at placed
        obtain rfl : ok = true := placed.mpr canPlace
        have sameNames := names_initEntry first
        apply inductionHypothesis next
        intro other member
        rw [placeable_congr sameNames.subset sameNames.symm.subset] at member
        exact sameIds other (List.mem_cons_of_mem entry member)
      · have notPlaced :
            (initEntry (rt.walking walk) disk mapIds rootName entry qgp).1 = false := by
          simpa using fun isTrue => canPlace (placed.mp isTrue)
        have notPlaced' :
            (initEntry (rt.walking walk') disk mapIds' rootName entry qgp).1 = false := by
          simpa using fun isTrue => canPlace (placed'.mp isTrue)
        rw [fails notPlaced, fails' notPlaced']

/-- The loop makes of a root without anything else what it makes of a new one. -/
theorem initEntries_of_nothing_left {mapIds mapIds' : IdMap} {root grp : GroupMembers}
    (sameRoot : grp.identity = root.identity)
    (sameStores : grp.vecQuestions = root.vecQuestions)
    {entries : List Path}
    (sameIds : ∀ entry ∈ placeable rt disk rootName [root.strName] entries,
      disk.isDirectory entry = true →
        mapIds.idOfName (rt.walking walk) entry.filename =
          mapIds'.idOfName (rt.walking walk') entry.filename) :
    initEntries (rt.walking walk) disk mapIds rootName entries (.node grp []) =
      initEntries (rt.walking walk') disk mapIds' rootName entries (.node root []) := by
  have sameLabel : grp = root := by
    obtain ⟨name, id, path, stores⟩ := grp
    obtain ⟨name', id', path', stores'⟩ := root
    simp only [GroupMembers.identity, Prod.mk.injEq] at sameRoot
    simp only at sameStores
    simp [sameRoot, sameStores]
  rw [sameLabel]
  apply initEntries_congr
  simpa [names] using sameIds

/-- When the loop makes the same tree of a root with groups and stores as of a new one,
there were no groups and no stores, and the ids of the directories are the same. -/
theorem nothing_left_of_initEntries {mapIds mapIds' : IdMap} {root grp : GroupMembers}
    {groups : List CQuestionGroupParam}
    (sameRoot : grp.identity = root.identity)
    (noStores : root.vecQuestions = [])
    {entries : List Path}
    (same : (initEntries (rt.walking walk) disk mapIds rootName entries (.node grp groups)).2 =
      (initEntries (rt.walking walk') disk mapIds' rootName entries (.node root [])).2) :
    groups = [] ∧ grp.vecQuestions = [] ∧
      ∀ entry ∈ placeable rt disk rootName [root.strName] entries,
        disk.isDirectory entry = true →
          mapIds.idOfName (rt.walking walk) entry.filename =
            mapIds'.idOfName (rt.walking walk') entry.filename := by
  have rootNames : names (.node root []) = [root.strName] := by simp [names]
  have sameName : grp.strName = root.strName := congrArg (fun parts => parts.2.1) sameRoot
  have used := (@initEntries_placeable (rt.walking walk) disk rootName mapIds entries
    (.node grp groups)).1
  have new := (@initEntries_placeable (rt.walking walk') disk rootName mapIds' entries
    (.node root [])).1
  rw [placeable_walking] at used new
  rw [← same] at new
  obtain ⟨_, usedIds⟩ := initEntries_identities used
  obtain ⟨_, newIds⟩ := initEntries_identities new
  -- at least as many directories were placed, so the tree had one group only
  have more : placeable rt disk rootName (names (.node root [])) entries <+:
      placeable rt disk rootName (names (.node grp groups)) entries := by
    apply placeable_mono
    rw [rootNames]
    simp [names, sameName]
  have lengths := (usedIds.symm.trans newIds).length_eq
  have atLeast := (more.sublist.filter disk.isDirectory).length_le
  have noGroups : groups = [] := by
    cases groups with
    | nil => rfl
    | cons first others =>
        exfalso
        cases first
        simp [identities] at lengths
        omega
  subst noGroups
  have sameNames : names (.node grp []) = names (.node root []) := by
    simp [names, sameName]
  have usedStores := (initEntries_stores used).2
  have newStores := (initEntries_stores new).2
  rw [sameNames, rootNames] at used usedIds usedStores
  rw [rootNames] at newIds newStores
  refine ⟨rfl, ?_, ?_⟩
  · have count := (usedStores.symm.trans newStores).length_eq
    rw [List.length_append, List.length_append, stores_node, stores_node, noStores] at count
    apply List.eq_nil_of_length_eq_zero
    simpa using count
  · intro entry member isDirectory
    have sameIds := usedIds.symm.trans newIds
    have heads : identities (.node grp []) = identities (.node root []) := by
      simp [identities, sameRoot]
    rw [heads, List.perm_append_left_iff] at sameIds
    have inUsed : identityOf (rt.walking walk) mapIds entry ∈
        ((placeable rt disk rootName [root.strName] entries).filter disk.isDirectory).map
          (identityOf (rt.walking walk) mapIds) :=
      List.mem_map_of_mem (List.mem_filter.mpr ⟨member, isDirectory⟩)
    obtain ⟨other, _, isSame⟩ := List.mem_map.mp (sameIds.mem_iff.mp inUsed)
    have samePath : other = entry := congrArg (fun parts => parts.2.2) isSame
    rw [samePath] at isSame
    exact (congrArg Prod.fst isSame).symm

end Entries

/-! ## What is left in the map of ids -/

/-- The name that the first record of an id gives it. -/
def IsFirstRecord (items : List QuestionAnswerGroup) (kv : String × String) : Prop :=
  (KeyedList.find QuestionAnswerGroup.id kv.1 items).map QuestionAnswerGroup.group = some kv.2

instance (items : List QuestionAnswerGroup) (kv : String × String) :
    Decidable (IsFirstRecord items kv) :=
  inferInstanceAs (Decidable (_ = _))

/-- Reading adds the first record of every id that is not there yet. -/
theorem mem_registryOf {items : List QuestionAnswerGroup} {mapIds : IdMap}
    {kv : String × String} :
    kv ∈ registryOf items mapIds ↔
      kv ∈ mapIds ∨ (mapIds.contains kv.1 = false ∧ IsFirstRecord items kv) := by
  induction items generalizing mapIds with
  | nil => simp [registryOf, IsFirstRecord, KeyedList.find]
  | cons item items inductionHypothesis =>
      have step : registryOf (item :: items) mapIds =
          registryOf items (mapIds.emplace item.id item.group) := rfl
      have first : IsFirstRecord (item :: items) kv ↔
          if item.id = kv.1 then item.group = kv.2 else IsFirstRecord items kv := by
        rw [IsFirstRecord, KeyedList.find, List.find?_cons]
        by_cases same : item.id = kv.1 <;> simp [same, IsFirstRecord, KeyedList.find]
      rw [step, inductionHypothesis, first]
      cases known : mapIds.contains item.id with
      | true =>
          rw [IdMap.emplace, if_pos known]
          by_cases same : item.id = kv.1
          · rw [same] at known
            simp [known]
          · rw [if_neg same]
      | false =>
          rw [IdMap.emplace_of_absent known, IdMap.contains_append_singleton, List.mem_append,
            List.mem_singleton]
          by_cases same : item.id = kv.1
          · rw [if_pos same, ← same, known]
            simp [Prod.ext_iff, same, eq_comm]
          · rw [if_neg same]
            simp [Prod.ext_iff, same, Ne.symm same]

/-- A new map holds the first record of every id. -/
theorem mem_registryOf_nil {items : List QuestionAnswerGroup} {kv : String × String} :
    kv ∈ registryOf items [] ↔ IsFirstRecord items kv := by
  rw [mem_registryOf]
  simp [IdMap.contains]

/-- What is left in a map adds nothing to what is read exactly when it is read too. -/
theorem registryOf_perm_iff {items : List QuestionAnswerGroup} {mapIds : IdMap}
    (distinct : (mapIds.map Prod.fst).Nodup) :
    (registryOf items mapIds).Perm (registryOf items []) ↔
      ∀ kv ∈ mapIds, IsFirstRecord items kv := by
  rw [List.perm_ext_iff_of_nodup ((nodup_keys_registryOf items distinct).of_map _)
    ((@nodup_keys_registryOf items [] List.nodup_nil).of_map _)]
  simp only [@mem_registryOf items mapIds, mem_registryOf_nil]
  constructor
  · intro same kv left
    exact (same kv).mp (Or.inl left)
  · intro first kv
    constructor
    · rintro (left | ⟨_, isFirst⟩)
      · exact first kv left
      · exact isFirst
    · intro isFirst
      cases known : IdMap.contains mapIds kv.1 with
      | false => exact Or.inr ⟨rfl, isFirst⟩
      | true =>
          left
          obtain ⟨other, member, sameId⟩ := List.mem_map.mp (IdMap.contains_iff.mp known)
          have otherFirst := first other member
          rw [IsFirstRecord, sameId, isFirst] at otherFirst
          rwa [Prod.ext sameId (Option.some.inj otherFirst).symm] at member

/-! ## One call of `init` -/

/-- The disk once `init` has looked for the root directory. -/
def rootDisk (path : Path) (r : Registers) : Option Disk :=
  if r.disk.isPresent path then some r.disk
  else
    match r.refusals.createDirectory r.disk path with
    | .created disk => some disk
    | _ => none

/-- The disk and the records of `ids.dat`, when `init` gets as far as reading them. -/
def registryRead (rt : Runtime) (path : Path) (r : Registers) :
    Option (Disk × List QuestionAnswerGroup) :=
  (rootDisk path r).bind fun disk =>
    match openFile rt disk (idsPath path) false {} with
    | (true, ids) => some (disk, ids.lstGroups)
    | (false, _) => none

/-- The entries that the loop of `init` goes through. -/
def entriesOf (disk : Disk) (path : Path) (listing : Listing) : List Path :=
  if disk.isDirectory path then listing.entries else []

/-- How `init` ends after its loop. -/
def ending (rt : Runtime) (path : Path) (listing : Listing) (disk : Disk)
    (items : List QuestionAnswerGroup) (placed : Bool) : Outcome Bool :=
  if placed = false then .value false
  else if listing.failed ∨ disk.isDirectory path = false then
    match close rt disk { strPath := idsPath path, lstGroups := items } with
    | none => .threw
    | some _ => .value false
  else .value true

/-- A rest of `init` that reads the registry. -/
theorem initWithin_of_read {rt : Runtime} {path : Path} {listing : Listing}
    {b : CQuestionBankImpl} {ids : CQuestionAnswerImpl}
    (opened : openFile rt b.regs.disk (idsPath path) false {} = (true, ids)) :
    let placed := initEntries rt b.regs.disk (registryOf ids.lstGroups b.regs.mapIds)
      path.filename (entriesOf b.regs.disk path listing) (withRoot path b.clsQuestionBank)
    (b.initWithin rt path listing).1 =
        ending rt path listing b.regs.disk ids.lstGroups placed.1 ∧
      (b.initWithin rt path listing).2.clsQuestionBank = placed.2 ∧
      (b.initWithin rt path listing).2.regs.mapIds =
        registryOf ids.lstGroups b.regs.mapIds := by
  intro placed
  obtain ⟨nonempty, _, items, _, rfl⟩ := openFile_groups_iff.mp opened
  rcases result : placed with ⟨ok, tree⟩
  have loop := result
  unfold placed entriesOf withRoot registryOf at loop
  unfold initWithin
  rw [idsPath] at opened nonempty
  simp only [opened, getGroups, nonempty, if_false, loop]
  cases ok with
  | false => exact ⟨rfl, rfl, rfl⟩
  | true =>
      simp only [ending, abandonIds, idsPath]
      split
      · rw [setError]
        simp only
        cases close rt b.regs.disk
            { strPath := path ++ ["ids.dat"], lstGroups := items } with
        | none => exact ⟨rfl, rfl, rfl⟩
        | some disk => exact ⟨rfl, rfl, rfl⟩
      · exact ⟨rfl, rfl, rfl⟩

/-- A call of `init` that reads the registry. -/
theorem init_of_read {rt : Runtime} {path : Path} {listing : Listing}
    {b : CQuestionBankImpl} {disk : Disk} {items : List QuestionAnswerGroup}
    (read : registryRead rt path b.regs = some (disk, items)) :
    let placed := initEntries rt disk (registryOf items b.regs.mapIds) path.filename
      (entriesOf disk path listing) (withRoot path b.clsQuestionBank)
    (b.init rt path listing).1 = ending rt path listing disk items placed.1 ∧
      (b.init rt path listing).2.clsQuestionBank = placed.2 ∧
      (b.init rt path listing).2.regs.mapIds = registryOf items b.regs.mapIds := by
  obtain ⟨ready, root, opens⟩ := Option.bind_eq_some_iff.mp read
  rcases opened : openFile rt ready (idsPath path) false {} with ⟨ok, ids⟩
  rw [opened] at opens
  cases ok with
  | false => cases opens
  | true =>
      obtain ⟨rfl, rfl⟩ := Prod.mk.inj (Option.some.inj opens)
      unfold rootDisk at root
      unfold init
      split at root
      · rename_i present
        rw [if_pos present]
        cases root
        exact initWithin_of_read opened
      · rename_i absent
        rw [if_neg absent]
        split at root
        · rename_i made created
          cases root
          rw [created]
          exact @initWithin_of_read rt path listing
            { b with regs := { b.regs with disk := ready } } ids opened
        · cases root

/-- A call of `init` that does not read the registry leaves the tree and the map of ids,
and ends alike on every bank with the same disk. -/
theorem init_of_not_read {rt : Runtime} {path : Path} {b : CQuestionBankImpl}
    (notRead : registryRead rt path b.regs = none) (walk walk' : WalkOrder)
    (listing : Listing) :
    (b.init (rt.walking walk) path listing).1 =
        ((fresh b.regs.disk b.regs.refusals).init (rt.walking walk') path listing).1 ∧
      (b.init (rt.walking walk) path listing).2.clsQuestionBank = b.clsQuestionBank ∧
      (b.init (rt.walking walk) path listing).2.regs.mapIds = b.regs.mapIds := by
  have closed : ∀ (walk : WalkOrder) (b : CQuestionBankImpl),
      (∀ ids, openFile rt b.regs.disk (idsPath path) false {} ≠ (true, ids)) →
      (b.initWithin (rt.walking walk) path listing).1 = .value false ∧
        (b.initWithin (rt.walking walk) path listing).2.clsQuestionBank = b.clsQuestionBank ∧
        (b.initWithin (rt.walking walk) path listing).2.regs.mapIds = b.regs.mapIds := by
    intro walk b fails
    rcases opened : openFile (rt.walking walk) b.regs.disk (idsPath path) false {} with ⟨ok, ids⟩
    cases ok with
    | true => exact absurd opened (fails ids)
    | false =>
        rw [idsPath] at opened
        unfold initWithin
        simp only [opened]
        exact ⟨trivial, rfl, rfl⟩
  have fails : ∀ disk, rootDisk path b.regs = some disk →
      ∀ ids, openFile rt disk (idsPath path) false {} ≠ (true, ids) := by
    intro disk root ids opened
    rw [registryRead, root, Option.bind_some, opened] at notRead
    cases notRead
  unfold rootDisk at fails
  unfold init
  cases present : b.regs.disk.isPresent path with
  | true =>
      rw [if_pos rfl, if_pos (show (fresh b.regs.disk b.regs.refusals).regs.disk.isPresent path =
        true from present)]
      rw [if_pos present] at fails
      have here := closed walk b (fails _ rfl)
      have there := closed walk' (fresh b.regs.disk b.regs.refusals) (fails _ rfl)
      exact ⟨here.1.trans there.1.symm, here.2⟩
  | false =>
      rw [if_neg (by simp), if_neg (show ¬ (fresh b.regs.disk b.regs.refusals).regs.disk.isPresent
        path = true by simpa [fresh] using present)]
      rw [if_neg (by simp [present])] at fails
      have sameDisk : (fresh b.regs.disk b.regs.refusals).regs.refusals.createDirectory
          (fresh b.regs.disk b.regs.refusals).regs.disk path =
            b.regs.refusals.createDirectory b.regs.disk path := rfl
      rw [sameDisk]
      cases created : b.regs.refusals.createDirectory b.regs.disk path with
      | error => exact ⟨rfl, rfl, rfl⟩
      | notCreated => exact ⟨rfl, rfl, rfl⟩
      | created disk =>
          rw [created] at fails
          have here := closed walk { b with regs := { b.regs with disk := disk } } (fails _ rfl)
          have there := closed walk'
            { fresh b.regs.disk b.regs.refusals with
              regs := { (fresh b.regs.disk b.regs.refusals).regs with disk := disk } }
            (fails _ rfl)
          exact ⟨here.1.trans there.1.symm, here.2⟩

/-! ## Two calls that start alike -/

/-- Two calls of `init` that give the same answer, the same groups with the same
questions, and the same map of ids. -/
structure SameStart (first second : Outcome Bool × CQuestionBankImpl) : Prop where
  answer : first.1 = second.1
  tree : first.2.clsQuestionBank = second.2.clsQuestionBank
  mapIds : first.2.regs.mapIds.Perm second.2.regs.mapIds

/-- Nothing from the time before gets in the way of a call of `init`. Where it does not
get as far as reading the registry, the tree and the map of ids are as in a new object.
Where it does, there are no groups and no stores, every id that is left has the name of its
first record, and no two records give the name of a directory that is placed to two ids,
unless the map of ids is one that has held nothing before. -/
structure NothingLeft (rt : Runtime) (path : Path) (listing : Listing) (unused : Prop)
    (b : CQuestionBankImpl) : Prop where
  givesUp : registryRead rt path b.regs = none →
    b.clsQuestionBank = .node {} [] ∧ b.regs.mapIds = []
  reads : ∀ disk items, registryRead rt path b.regs = some (disk, items) →
    b.clsQuestionBank.children = [] ∧ b.clsQuestionBank.label.vecQuestions = [] ∧
    (∀ kv ∈ b.regs.mapIds, IsFirstRecord items kv) ∧
    (¬ unused →
      ∀ entry ∈ placeable rt disk path.filename [path.filename] (entriesOf disk path listing),
        disk.isDirectory entry = true → ∀ id id', IsFirstRecord items (id, entry.filename) →
          IsFirstRecord items (id', entry.filename) → id = id')

/-- The root of the tree has no id, and every id has one entry in the map of ids. -/
structure Keyed (b : CQuestionBankImpl) : Prop where
  root : b.clsQuestionBank.label.strId = ""
  ids : (b.regs.mapIds.map Prod.fst).Nodup

/-- The walk that meets a given entry first. -/
def meetsFirst (kv : String × String) : WalkOrder where
  walkOrder entries := entries.filter (· = kv) ++ entries.filter (· ≠ kv)
  walkOrder_perm entries := by
    simpa using List.filter_append_perm (fun other => decide (other = kv)) entries

/-- It finds the id of this entry. -/
theorem idOfName_meetsFirst (rt : Runtime) {mapIds : IdMap} {kv : String × String}
    (member : kv ∈ mapIds) : mapIds.idOfName (rt.walking (meetsFirst kv)) kv.2 = kv.1 := by
  obtain ⟨rest, first⟩ : ∃ rest, mapIds.filter (· = kv) = kv :: rest := by
    rcases only : mapIds.filter (· = kv) with _ | ⟨other, rest⟩
    · have inFilter : kv ∈ mapIds.filter (· = kv) := List.mem_filter.mpr ⟨member, by simp⟩
      rw [only] at inFilter
      cases inFilter
    · have isKv : other ∈ mapIds.filter (· = kv) := by
        rw [only]
        exact List.mem_cons_self
      exact ⟨rest, by rw [of_decide_eq_true (List.mem_filter.mp isKv).2]⟩
  have walked : ((rt.walking (meetsFirst kv)).walkOrder mapIds).find?
      (fun other => other.2 = kv.2) = some kv := by
    change (mapIds.filter (· = kv) ++ mapIds.filter (· ≠ kv)).find? _ = some kv
    rw [first, List.cons_append, List.find?_cons_of_pos (by simp)]
  rw [IdMap.idOfName, walked]

/-- Two maps with the same entries, of which one is walked in any order, give a name the same
id exactly when it does not have two. -/
theorem idOfName_walking_iff (rt : Runtime) {mapIds mapIds' : IdMap}
    (same : mapIds.Perm mapIds') (name : String) :
    (∀ walk, mapIds.idOfName (rt.walking walk) name = mapIds'.idOfName rt name) ↔
      ∀ id id', (id, name) ∈ mapIds → (id', name) ∈ mapIds → id = id' := by
  constructor
  · intro alike id id' member member'
    have first := idOfName_meetsFirst rt member
    have second := idOfName_meetsFirst rt member'
    exact first.symm.trans ((alike _).trans ((alike _).symm.trans second))
  · intro unique walk
    rcases mapIds.isIdOf_idOfName (rt.walking walk) name with member | ⟨isEmpty, absent⟩
    · rcases mapIds'.isIdOf_idOfName rt name with member' | ⟨_, absent⟩
      · exact unique _ _ member (same.mem_iff.mpr member')
      · exact absurd rfl (absent _ (same.mem_iff.mp member))
    · rcases mapIds'.isIdOf_idOfName rt name with member' | ⟨isEmpty', _⟩
      · exact absurd rfl (absent _ (same.mem_iff.mpr member'))
      · rw [isEmpty, isEmpty']

/-- A call of `init` that does not read the registry is like one on a new object exactly
when the object is like a new one. -/
theorem sameStart_of_not_read {rt : Runtime} {path : Path} {listing : Listing}
    {b : CQuestionBankImpl} (notRead : registryRead rt path b.regs = none)
    (walk walk' : WalkOrder) :
    SameStart (b.init (rt.walking walk) path listing)
        ((fresh b.regs.disk b.regs.refusals).init (rt.walking walk') path listing) ↔
      b.clsQuestionBank = .node {} [] ∧ b.regs.mapIds = [] := by
  obtain ⟨answer, tree, mapIds⟩ := init_of_not_read notRead walk walk' listing
  obtain ⟨_, newTree, newIds⟩ := @init_of_not_read rt path (fresh b.regs.disk b.regs.refusals)
    notRead walk' walk' listing
  constructor
  · intro same
    refine ⟨tree.symm.trans (same.tree.trans newTree), List.Perm.eq_nil ?_⟩
    rw [← mapIds]
    exact same.mapIds.trans (List.Perm.of_eq newIds)
  · rintro ⟨noTree, noIds⟩
    refine ⟨answer, ?_, ?_⟩
    · rw [tree, newTree, noTree]
      rfl
    · rw [mapIds, newIds, noIds]
      exact List.Perm.refl _

/-- One that reads it is like one on a new object exactly when there are no groups and no
stores, and the two maps have the same entries and give the same ids to the directories. -/
theorem sameStart_of_read {rt : Runtime} {path : Path} {listing : Listing}
    {b : CQuestionBankImpl} (keyed : Keyed b) {disk : Disk} {items : List QuestionAnswerGroup}
    (read : registryRead rt path b.regs = some (disk, items)) (walk walk' : WalkOrder) :
    SameStart (b.init (rt.walking walk) path listing)
        ((fresh b.regs.disk b.regs.refusals).init (rt.walking walk') path listing) ↔
      b.clsQuestionBank.children = [] ∧ b.clsQuestionBank.label.vecQuestions = [] ∧
        (registryOf items b.regs.mapIds).Perm (registryOf items []) ∧
        ∀ entry ∈ placeable rt disk path.filename [path.filename]
            (entriesOf disk path listing), disk.isDirectory entry = true →
          (registryOf items b.regs.mapIds).idOfName (rt.walking walk) entry.filename =
            (registryOf items []).idOfName (rt.walking walk') entry.filename := by
  obtain ⟨answer, tree, mapIds⟩ := @init_of_read (rt.walking walk) path listing b disk items read
  obtain ⟨newAnswer, newTree, newIds⟩ := @init_of_read (rt.walking walk') path listing
    (fresh b.regs.disk b.regs.refusals) disk items read
  have sameRoot : ({ b.clsQuestionBank.label with
      strName := path.filename, strPath := path } : GroupMembers).identity =
        ({ strName := path.filename, strPath := path } : GroupMembers).identity := by
    rw [GroupMembers.identity, keyed.root]
    rfl
  constructor
  · intro same
    have sameTree := same.tree
    rw [tree, newTree] at sameTree
    obtain ⟨noGroups, noStores, sameIds⟩ :=
      nothing_left_of_initEntries sameRoot rfl sameTree
    have maps := same.mapIds
    rw [mapIds, newIds] at maps
    exact ⟨noGroups, noStores, maps, sameIds⟩
  · rintro ⟨noGroups, noStores, maps, sameIds⟩
    have sameLoop := @initEntries_of_nothing_left rt disk path.filename walk walk' _ _ _ _
      sameRoot noStores (entriesOf disk path listing) sameIds
    have usedRoot : withRoot path b.clsQuestionBank =
        .node { b.clsQuestionBank.label with
          strName := path.filename, strPath := path } [] := by
      rw [withRoot, noGroups]
    have newRoot : withRoot path (fresh b.regs.disk b.regs.refusals).clsQuestionBank =
        .node { strName := path.filename, strPath := path } [] := rfl
    rw [usedRoot, sameLoop] at answer tree
    rw [newRoot] at newAnswer newTree
    exact ⟨answer.trans newAnswer.symm, tree.trans newTree.symm,
      by rw [mapIds, newIds]; exact maps⟩

/-- An object starts like a new one, in whatever order its map of ids is walked, exactly when
nothing is left. A map that has held nothing is walked like that of a new object. -/
theorem init_same_iff (rt : Runtime) (path : Path) (listing : Listing)
    {b : CQuestionBankImpl} (keyed : Keyed b) {unused : Prop}
    (noIds : unused → b.regs.mapIds = []) :
    (∀ walk, (unused → walk = rt.toWalkOrder) →
        SameStart (b.init (rt.walking walk) path listing)
          ((fresh b.regs.disk b.regs.refusals).init rt path listing)) ↔
      NothingLeft rt path listing unused b := by
  cases read : registryRead rt path b.regs with
  | none =>
      have each := fun walk =>
        @sameStart_of_not_read rt path listing b read walk rt.toWalkOrder
      constructor
      · intro same
        have new := (each rt.toWalkOrder).mp (same _ fun _ => rfl)
        exact ⟨fun _ => new, fun disk items isRead => by rw [read] at isRead; cases isRead⟩
      · intro nothing walk _
        exact (each walk).mpr (nothing.givesUp read)
  | some result =>
      obtain ⟨disk, items⟩ := result
      have each := fun walk =>
        @sameStart_of_read rt path listing b keyed disk items read walk rt.toWalkOrder
      constructor
      · intro same
        refine ⟨fun notRead => absurd (read.symm.trans notRead) (by simp), ?_⟩
        intro disk' items' isRead
        rw [read] at isRead
        cases isRead
        obtain ⟨noGroups, noStores, maps, _⟩ :=
          (each rt.toWalkOrder).mp (same _ fun _ => rfl)
        refine ⟨noGroups, noStores, (registryOf_perm_iff keyed.ids).mp maps, ?_⟩
        intro used entry member isDirectory id id' first first'
        have alike := fun walk =>
          ((each walk).mp (same walk fun unused => absurd unused used)).2.2.2 entry member
            isDirectory
        exact (idOfName_walking_iff rt maps entry.filename).mp alike id id'
          (maps.mem_iff.mpr (mem_registryOf_nil.mpr first))
          (maps.mem_iff.mpr (mem_registryOf_nil.mpr first'))
      · intro nothing walk sameOrder
        obtain ⟨noGroups, noStores, left, unique⟩ := nothing.reads disk items read
        have maps := (registryOf_perm_iff keyed.ids).mpr left
        refine (each walk).mpr ⟨noGroups, noStores, maps, ?_⟩
        intro entry member isDirectory
        by_cases isUnused : unused
        · rw [sameOrder isUnused, noIds isUnused]
        · refine (idOfName_walking_iff rt maps entry.filename).mpr ?_ walk
          intro id id' isId isId'
          exact unique isUnused entry member isDirectory id id'
            (mem_registryOf_nil.mp (maps.mem_iff.mp isId))
            (mem_registryOf_nil.mp (maps.mem_iff.mp isId'))

end CQuestionBankImpl

open CQuestionBankImpl

/-! ## The id of the root and the keys of the map of ids -/

theorem keyed_init (rt : Runtime) (path : Path) (listing : Listing)
    {b : CQuestionBankImpl} (keyed : Keyed b) : Keyed (b.init rt path listing).2 := by
  cases read : registryRead rt path b.regs with
  | none =>
      have kept : (b.init rt path listing).2.clsQuestionBank = b.clsQuestionBank ∧
          (b.init rt path listing).2.regs.mapIds = b.regs.mapIds :=
        (init_of_not_read read rt.toWalkOrder rt.toWalkOrder listing).2
      constructor
      · rw [kept.1, keyed.root]
      · rw [kept.2]
        exact keyed.ids
  | some result =>
      obtain ⟨_, tree, mapIds⟩ := @init_of_read rt path listing b result.1 result.2 read
      constructor
      · rw [tree]
        have placed := (@initEntries_placeable rt result.1 path.filename
          (registryOf result.2 b.regs.mapIds) (entriesOf result.1 path listing)
          (withRoot path b.clsQuestionBank)).1
        exact (congrArg Prod.fst (initEntries_identities placed).1).trans keyed.root
      · rw [mapIds]
        exact nodup_keys_registryOf result.2 keyed.ids

theorem keyed_withContext (rt : Runtime) (gid : String)
    (use : CQuestionAnswerImpl → β × CQuestionAnswerImpl)
    {b : CQuestionBankImpl} (keyed : Keyed b) : Keyed (b.withContext rt gid use).2 := by
  have here : ∀ qgp : CQuestionGroupParam,
      (contextHere rt b.regs.disk use qgp).2.label.strId = qgp.label.strId :=
    fun qgp => congrArg Prod.fst (identity_contextHere rt b.regs.disk use qgp)
  have kept : (findQustionAnswerContext rt b.regs.disk gid use b.clsQuestionBank).2.label.strId =
      b.clsQuestionBank.label.strId :=
    label_search (fun qgp _ => here qgp) b.clsQuestionBank ()
  unfold withContext
  split
  · exact ⟨keyed.root, keyed.ids⟩
  · rcases search : findQustionAnswerContext rt b.regs.disk gid use b.clsQuestionBank
      with ⟨answer, tree⟩
    rw [search] at kept
    cases answer with
    | none => exact ⟨kept.trans keyed.root, keyed.ids⟩
    | some => exact ⟨kept.trans keyed.root, keyed.ids⟩

/-- No group operation makes two entries for one id. -/
theorem nodup_keys_ctrlHere (rt : Runtime) (gid name : String) (type : GroupCtrlType)
    (qgp : CQuestionGroupParam) {r : Registers}
    (distinct : (r.mapIds.map Prod.fst).Nodup) :
    ((Registers.ctrlHere rt gid name type qgp r).2.2.mapIds.map Prod.fst).Nodup := by
  have erasing : ∀ erased : List String,
      ((erased.foldl IdMap.erase r.mapIds).map Prod.fst).Nodup := by
    intro erased
    rw [IdMap.foldl_erase]
    exact distinct.sublist (List.filter_sublist.map Prod.fst)
  cases type with
  | none => exact distinct
  | max => exact distinct
  | add =>
      have emplaced : (r.addGroup gid name qgp).2.2.mapIds = r.mapIds.emplace gid name := by
        unfold Registers.addGroup
        dsimp only
        split
        · rfl
        · split
          · rfl
          · split <;> rfl
      rw [Registers.ctrlHere, emplaced]
      exact IdMap.nodup_keys_emplace distinct gid name
  | delete =>
      rw [Registers.ctrlHere]
      cases opened : r.ptrIds with
      | none =>
          obtain ⟨depth, height⟩ := Registers.exists_height qgp
          rw [Registers.deleteGroup, height, Registers.deleteGroupWithin]
          simp only [opened]
          exact erasing [gid]
      | some ids =>
          cases split : Registers.firstChild gid qgp with
          | none =>
              obtain ⟨message, missing⟩ := Registers.deleteGroup_of_missing rt opened split
              rw [missing]
              exact erasing [gid]
          | some parts =>
              obtain ⟨before, found, after⟩ := parts
              obtain ⟨_, _, frame⟩ := Registers.deleteGroup_frame rt opened split
              obtain ⟨erased, erases, _⟩ := frame.erased
              rw [erases.mapIds]
              exact erasing (gid :: erased)
  | update =>
      have same : (r.updateGroup rt gid name qgp).2.2.mapIds = r.mapIds := by
        unfold Registers.updateGroup
        split
        · rfl
        · split
          · rfl
          · dsimp only
            split <;> rfl
      rw [Registers.ctrlHere, same]
      exact distinct

theorem keyed_ctrlRoot (rt : Runtime) (pid gid name : String) (type : GroupCtrlType)
    {b : CQuestionBankImpl} (keyed : Keyed b) :
    Keyed (b.ctrlRoot rt pid gid name type).2 where
  root := by
    have kept := @label_search _ _ _ (fun grp : GroupMembers => pid = "" ∨ pid = grp.strId)
      (fun grp r => Registers.ctrlHere rt gid name type grp r)
      (fun answer : Outcome Bool => answer = .value false) (.value false) _
      GroupMembers.strId
      (fun grp r => congrArg GroupMembers.strId (Registers.label_ctrlHere rt gid name type grp r))
      b.clsQuestionBank b.regs
    exact kept.trans keyed.root
  ids := by
    apply @search_preserves _ _ _ _ _ _ _
      (fun r : Registers => (r.mapIds.map Prod.fst).Nodup) _ b.clsQuestionBank b.regs keyed.ids
    exact fun qgp r distinct => nodup_keys_ctrlHere rt gid name type qgp distinct

/-- No call gives the root an id, or makes two entries for one id. -/
theorem BankCall.keyed (rt : Runtime) (call : BankCall) {b : CQuestionBankImpl}
    (keyed : Keyed b) : Keyed (call.perform rt b).2 := by
  cases call with
  | question call => cases call <;> exact keyed_withContext rt _ _ keyed
  | group call =>
      cases call with
      | add pid name id =>
          rw [BankCall.perform, GroupCall.perform, CQuestionBankImpl.addGroup]
          split
          · exact ⟨keyed.root, keyed.ids⟩
          · split
            · exact ⟨keyed.root, keyed.ids⟩
            · exact keyed_ctrlRoot rt pid id name .add keyed
      | delete pid id => exact keyed_ctrlRoot rt pid id "" .delete keyed
      | update pid id name => exact keyed_ctrlRoot rt pid id name .update keyed

theorem label_uninitQuestionBank (rt : Runtime) (qgp : CQuestionGroupParam) (disk : Disk) :
    (uninitQuestionBank rt qgp disk).2.1.label.strId = qgp.label.strId := by
  cases qgp with
  | node grp groups =>
      rw [uninitQuestionBank]
      split <;> rfl

theorem mapIds_uninit (rt : Runtime) (b : CQuestionBankImpl) :
    (b.uninit rt).2.regs.mapIds = b.regs.mapIds := by
  unfold uninit
  split
  · rfl
  · split <;> rfl

theorem keyed_uninit (rt : Runtime) {b : CQuestionBankImpl} (keyed : Keyed b) :
    Keyed (b.uninit rt).2 := by
  have kept : ∀ b : CQuestionBankImpl, Keyed b → Keyed (b.uninitTree rt).2 :=
    fun b keyed =>
      ⟨(label_uninitQuestionBank rt b.clsQuestionBank b.regs.disk).trans keyed.root, keyed.ids⟩
  unfold uninit
  split
  · exact kept b keyed
  · split
    · exact keyed
    · exact kept _ ⟨keyed.root, keyed.ids⟩

/-! ## Histories -/

/-- What happens to an object between an `init` and the `uninit` that follows it, with the
order in which its `init` walks the map of ids. -/
structure Period where
  path : Path
  listing : Listing
  walk : WalkOrder
  calls : List BankCall

/-- Run a period on the object. The answer is that of its `init`. -/
def Period.perform (rt : Runtime) : Machine Period CQuestionBankImpl (Outcome Bool) :=
  fun period b =>
    let (answer, b) := b.init (rt.walking period.walk) period.path period.listing
    (answer, (((BankCall.perform rt).run period.calls b).2.uninit rt).2)

theorem Period.keyed (rt : Runtime) (period : Period) {b : CQuestionBankImpl}
    (keyed : Keyed b) : Keyed (period.perform rt b).2 := by
  apply keyed_uninit
  exact @Machine.run_invariant _ _ _ (BankCall.perform rt) Keyed
    (fun call b keyed => BankCall.keyed rt call keyed) period.calls _
    (keyed_init _ period.path period.listing keyed)

/-- The map of ids is empty after `init` and after every call of a period. -/
def Period.HoldsNoIds (rt : Runtime) (period : Period) (b : CQuestionBankImpl)
    (_ : Outcome Bool) : Prop :=
  Machine.Always (BankCall.perform rt) (fun b => b.regs.mapIds = []) period.calls
    (b.init (rt.walking period.walk) period.path period.listing).2

/-- A history in which the map of ids has held nothing. -/
def Period.IdsUnused (rt : Runtime) (history : List Period) (b : CQuestionBankImpl) : Prop :=
  Machine.Allowed (Period.perform rt) (Period.HoldsNoIds rt) history b

theorem Period.IdsUnused.mapIds_eq {rt : Runtime} {history : List Period}
    {b : CQuestionBankImpl} (unused : Period.IdsUnused rt history b)
    (start : b.regs.mapIds = []) :
    ((Period.perform rt).run history b).2.regs.mapIds = [] := by
  refine @Machine.run_preserves _ _ _ (Period.perform rt) (Period.HoldsNoIds rt)
    (fun b => b.regs.mapIds = []) ?_ history b start unused
  intro period b _ holdsNone
  rw [Period.perform, mapIds_uninit]
  exact holdsNone period.calls [] (List.append_nil _).symm

/-- After every history of an object, `init` does what it does on a new object, in whatever
order the map of ids is walked, exactly when nothing of that history is left. A map that has
held nothing in the history is walked like that of a new object. -/
theorem Period.reinit_same_iff (rt : Runtime) (disk : Disk) (refusals : Refusals)
    (history : List Period) (path : Path) (listing : Listing) :
    let b := ((Period.perform rt).run history (fresh disk refusals)).2
    let unused := Period.IdsUnused rt history (fresh disk refusals)
    (∀ walk, (unused → walk = rt.toWalkOrder) →
        SameStart (b.init (rt.walking walk) path listing)
          ((fresh b.regs.disk b.regs.refusals).init rt path listing)) ↔
      NothingLeft rt path listing unused b := by
  intro b unused
  refine init_same_iff rt path listing ?_ fun isUnused => isUnused.mapIds_eq rfl
  exact @Machine.run_invariant _ _ _ (Period.perform rt) Keyed
    (fun period b keyed => period.keyed rt keyed) history (fresh disk refusals)
    ⟨rfl, List.nodup_nil⟩

/-- After an `init` whose listing fails at once, the ids that it has read are left. They
are those of the same directory, so the next `init` starts like that of a new object. -/
theorem Period.reinit_same_iff_agreeingDisk :
    let period : Period :=
      { path := ["root"]
        listing := { entries := [], failed := true }
        walk := meetsFirst ("v", "Verbs")
        calls := [] }
    let b := ((Period.perform .wire).run [period] (fresh agreeingDisk Refusals.never)).2
    let listing : Listing :=
      { entries := [["root", "Words"], ["root", "Words", "Verbs"], ["root", "ids.dat"]] }
    b.regs.mapIds ≠ [] ∧
      ∀ walk, SameStart (b.init (Runtime.wire.walking walk) ["root"] listing)
        ((fresh b.regs.disk b.regs.refusals).init .wire ["root"] listing) := by
  intro period b listing
  have used : b.regs.mapIds ≠ [] := by decide +kernel
  refine ⟨used, fun walk => ?_⟩
  refine (Period.reinit_same_iff .wire agreeingDisk Refusals.never [period] ["root"]
    listing).mpr ?_ walk fun unused => absurd (unused.mapIds_eq rfl) used
  have records : (registryRead .wire ["root"] b.regs).map Prod.snd =
      some [{ id := "w", group := "Words" }, { id := "v", group := "Verbs" }] := by
    decide +kernel
  constructor
  · intro notRead
    rw [show registryRead .wire ["root"] b.regs = none from notRead] at records
    cases records
  · intro disk items read
    rw [show registryRead .wire ["root"] b.regs = some (disk, items) from read] at records
    obtain rfl := Option.some.inj records
    refine ⟨by decide +kernel, by decide +kernel, by decide +kernel, ?_⟩
    intro _ entry _ _ id id' first first'
    have names : ((registryOf [{ id := "w", group := "Words" }, { id := "v", group := "Verbs" }]
      []).map Prod.snd).Nodup := by decide
    exact congrArg Prod.fst (List.inj_on_of_nodup_map names (mem_registryOf_nil.mpr first)
      (mem_registryOf_nil.mpr first') rfl)

/-- `init` for the second time, on the same directory, shows every group twice. -/
theorem second_init_repeats :
    let entries : List Path :=
      [["root", "Words"], ["root", "Words", "Verbs"], ["root", "ids.dat"]]
    let period : Period :=
      { path := ["root"]
        listing := { entries := entries }
        walk := Runtime.wire.toWalkOrder
        calls := [] }
    let b := ((Period.perform .wire).run [period] (fresh agreeingDisk Refusals.never)).2
    let again := b.init .wire ["root"] { entries := entries }
    let new := (fresh b.regs.disk b.regs.refusals).init .wire ["root"] { entries := entries }
    again.1 = .value true ∧ new.1 = .value true ∧
      again.2.clsQuestionBank.children.map (fun grp => grp.label.strName) =
        ["Words", "Words"] ∧
      new.2.clsQuestionBank.children.map (fun grp => grp.label.strName) = ["Words"] ∧
      ¬ SameStart again new := by
  intro entries period b again new
  have runs : again.1 = .value true ∧ new.1 = .value true ∧
      again.2.clsQuestionBank.children.map (fun grp => grp.label.strName) =
        ["Words", "Words"] ∧
      new.2.clsQuestionBank.children.map (fun grp => grp.label.strName) = ["Words"] := by
    decide +kernel
  obtain ⟨again_ok, new_ok, twice, once⟩ := runs
  refine ⟨again_ok, new_ok, twice, once, ?_⟩
  intro same
  rw [same.tree, once] at twice
  exact absurd twice (by decide)

end Notebook
