import Notebook.Groups.Calls

/-!
# The three copies of the registry

The map of ids, the records of the store of ids and the tree each keep the names of the
groups. Adding and deleting keep them in agreement. Updating changes the records and
the tree but not the map of ids, so it keeps them in agreement only when the name stays.
-/

namespace Notebook

open RoseTree CQuestionAnswerImpl

/-- Id and name of a group. -/
def GroupMembers.pair (grp : GroupMembers) : String × String :=
  (grp.strId, grp.strName)

/-- Ids and names of the groups below the root. -/
def groupPairs (qgp : CQuestionGroupParam) : List (String × String) :=
  qgp.descendants.map GroupMembers.pair

/-- The three copies of the registry hold the same ids and names, each id once and each
name once. -/
structure Agrees (b : CQuestionBankImpl) : Prop where
  root : b.clsQuestionBank.label.strId = ""
  ids : ∃ ids, b.regs.ptrIds = some ids ∧ ids.strPath ≠ [] ∧
    (ids.lstGroups.map groupPair).Perm (groupPairs b.clsQuestionBank)
  mapIds : b.regs.mapIds.Perm (groupPairs b.clsQuestionBank)
  distinctIds : ((groupPairs b.clsQuestionBank).map Prod.fst).Nodup
  distinctNames : ((groupPairs b.clsQuestionBank).map Prod.snd).Nodup

namespace Agrees

variable {b : CQuestionBankImpl}

theorem nodup_ids (agrees : Agrees b) :
    (b.clsQuestionBank.descendants.map GroupMembers.strId).Nodup := by
  have distinct := agrees.distinctIds
  rw [groupPairs, List.map_map] at distinct
  exact distinct

theorem uniqueIds (agrees : Agrees b) : UniqueIds b.clsQuestionBank :=
  uniqueIds_of_nodup agrees.root agrees.nodup_ids

theorem record_ids (agrees : Agrees b) {ids : CQuestionAnswerImpl}
    (records : (ids.lstGroups.map groupPair).Perm (groupPairs b.clsQuestionBank)) :
    (ids.lstGroups.map QuestionAnswerGroup.id).Nodup := by
  have same := (records.map Prod.fst).nodup_iff.mpr agrees.distinctIds
  rw [List.map_map] at same
  exact same

theorem withMessage (agrees : Agrees b) (message : Bytes) :
    Agrees (b.withMessage message) :=
  ⟨agrees.root, agrees.ids, agrees.mapIds, agrees.distinctIds, agrees.distinctNames⟩

end Agrees

/-- Entries whose keys are apart from others are left when the keys of the others are
taken out. -/
theorem filter_keys_append {kept gone : List (String × String)}
    (distinct : ((kept ++ gone).map Prod.fst).Nodup) :
    ((kept ++ gone).filter fun kv => kv.1 ∉ gone.map Prod.fst) = kept := by
  rw [List.map_append, List.nodup_append] at distinct
  rw [List.filter_append, List.filter_eq_self.mpr, List.filter_eq_nil_iff.mpr,
    List.append_nil]
  · intro kv member
    simpa using ⟨kv.2, member⟩
  · intro kv member
    have apart : kv.1 ∉ gone.map Prod.fst := fun other =>
      distinct.2.2 kv.1 (List.mem_map_of_mem member) kv.1 other rfl
    simpa using apart

/-- Adding a group keeps the copies in agreement. -/
theorem Agrees.add {b : CQuestionBankImpl} (agrees : Agrees b) {pid name id : String}
    {result : Outcome Bool × CQuestionBankImpl}
    (way : b.AddResult pid name id result) :
    Agrees result.2 := by
  cases way with
  | refused message why => exact agrees.withMessage message
  | @added c parent groups ids answer disk message tree selects opened newId newName made =>
      obtain ⟨ids', opened', path, records⟩ := agrees.ids
      rw [opened] at opened'
      cases opened'
      have leaf := map_descendants_plug_addLeaf (f := GroupMembers.pair) c parent groups
        (Registers.newGroup parent id name)
      rw [← tree] at leaf
      have newPair : (Registers.newGroup parent id name).pair = (id, name) := rfl
      rw [newPair] at leaf
      have notId := IdMap.contains_eq_false_iff.mp newId
      have notName := IdMap.hasName_eq_false_iff.mp newName
      rw [(agrees.mapIds.map Prod.fst).mem_iff] at notId
      rw [(agrees.mapIds.map Prod.snd).mem_iff] at notName
      refine ⟨?_, ⟨_, rfl, ?_⟩, ?_, ?_, ?_⟩
      · have root := agrees.root
        rw [tree] at root
        rw [← root]
        exact label_plug_congr (f := GroupMembers.strId) c (by rfl)
      · rcases addGroup_cases path id name with ⟨⟨qag, found⟩, _⟩ | ⟨_, done⟩
        · -- the id of a record is the id of a group
          exfalso
          apply notId
          rw [← (records.map Prod.fst).mem_iff, List.map_map]
          exact List.mem_map.mpr ⟨qag, KeyedList.mem_of_find found, KeyedList.key_of_find found⟩
        · rw [done]
          refine ⟨path, ?_⟩
          rw [List.map_append]
          exact (records.append_right _).trans leaf.symm
      · exact (agrees.mapIds.append_right _).trans leaf.symm
      · apply ((leaf.map Prod.fst).nodup_iff).mpr
        rw [List.map_append, List.nodup_append]
        refine ⟨agrees.distinctIds, by simp, ?_⟩
        intro key member other isNew same
        simp only [List.map_cons, List.map_nil, List.mem_singleton] at isNew
        rw [same, isNew] at member
        exact notId member
      · apply ((leaf.map Prod.snd).nodup_iff).mpr
        rw [List.map_append, List.nodup_append]
        refine ⟨agrees.distinctNames, by simp, ?_⟩
        intro key member other isNew same
        simp only [List.map_cons, List.map_nil, List.mem_singleton] at isNew
        rw [same, isNew] at member
        exact notName member

/-- Deleting a group keeps the copies in agreement when the call returns true. -/
theorem Agrees.delete {rt : Runtime} {b : CQuestionBankImpl} (agrees : Agrees b)
    {pid id : String} {result : Outcome Bool × CQuestionBankImpl}
    (way : b.DeleteCallResult rt pid id result)
    (returnsTrue : result.1 = .value true) :
    Agrees result.2 := by
  cases way with
  | noTarget => cases returnsTrue
  | missing => cases returnsTrue
  | @reached c parent before after found rest answer r tree selects split call frame =>
      obtain ⟨ids, opened, path, records⟩ := agrees.ids
      simp only at returnsTrue
      subst returnsTrue
      obtain rfl : rest = none := frame.gone.mpr rfl
      simp only [Option.toList_none, List.append_nil] at call ⊢
      have pairs := map_descendants_plug_insert (f := GroupMembers.pair) c parent before
        found after
      rw [← tree] at pairs
      have ids_found : found.preorder.map GroupMembers.strId =
          (found.preorder.map GroupMembers.pair).map Prod.fst := by
        rw [List.map_map]
        rfl
      have distinct := (pairs.map Prod.fst).nodup_iff.mp agrees.distinctIds
      have distinctFound : (found.preorder.map GroupMembers.strId).Nodup := by
        rw [ids_found]
        rw [List.map_append, List.nodup_append] at distinct
        exact distinct.2.1
      have erases := Registers.deleteGroup_erases rt opened split distinctFound
        (by rw [call])
      rw [call, ids_found] at erases
      have left := filter_keys_append distinct
      have namesLeft := (pairs.map Prod.snd).nodup_iff.mp agrees.distinctNames
      rw [List.map_append, List.nodup_append] at namesLeft
      refine ⟨?_, ⟨_, erases.ptrIds.trans (by rw [opened]; rfl), ?_⟩, ?_, ?_, namesLeft.1⟩
      · have root := agrees.root
        rw [tree] at root
        rw [← root]
        exact label_plug_congr (f := GroupMembers.strId) c (by rfl)
      · obtain ⟨samePath, _, groups⟩ := foldl_deleteGroup path (agrees.record_ids records)
          ((found.preorder.map GroupMembers.pair).map Prod.fst)
        refine ⟨by rw [samePath]; exact path, ?_⟩
        have mapped := groups.map groupPair
        refine mapped.trans ?_
        have commute : (ids.lstGroups.filter fun qag =>
            qag.id ∉ (found.preorder.map GroupMembers.pair).map Prod.fst).map groupPair =
            (ids.lstGroups.map groupPair).filter fun kv =>
              kv.1 ∉ (found.preorder.map GroupMembers.pair).map Prod.fst := by
          rw [List.filter_map]
          rfl
        rw [commute]
        refine ((records.trans pairs).filter _).trans ?_
        rw [left]
        rfl
      · rw [erases.mapIds, IdMap.foldl_erase]
        refine ((agrees.mapIds.trans pairs).filter _).trans ?_
        rw [left]
        rfl
      · rw [List.map_append, List.nodup_append] at distinct
        exact distinct.1

/-- A call that does not change the name of a group. -/
def GroupCall.KeepsName (call : GroupCall) (b : CQuestionBankImpl) : Prop :=
  match call with
  | .update _ id name =>
      ∀ grp ∈ b.clsQuestionBank.descendants, grp.strId = id → grp.strName = name
  | _ => True

instance (call : GroupCall) (b : CQuestionBankImpl) : Decidable (call.KeepsName b) := by
  cases call <;> unfold GroupCall.KeepsName <;> infer_instance

/-- Updating a group keeps the copies in agreement exactly when the group has the name
already. -/
theorem Agrees.update_iff {b : CQuestionBankImpl} (agrees : Agrees b)
    {pid id name : String} {result : Outcome Bool × CQuestionBankImpl}
    (way : b.UpdateResult pid id name result)
    (returnsTrue : result.1 = .value true) :
    Agrees result.2 ↔ (GroupCall.update pid id name).KeepsName b := by
  cases way with
  | refused => cases returnsTrue
  | @updated c parent before after found ids answer disk message tree selects isFound opened
      moved =>
      clear moved returnsTrue
      obtain ⟨ids', opened', path, records⟩ := agrees.ids
      rw [opened] at opened'
      cases opened'
      have oldPairs := map_descendants_plug_lift (f := GroupMembers.pair) c parent before
        found.label found.children after
      have newPairs := map_descendants_plug_lift (f := GroupMembers.pair) c parent before
        { found.label with strName := name } found.children after
      rw [node_label_children, ← tree] at oldPairs
      have present : found.label ∈ b.clsQuestionBank.descendants := by
        rw [tree]
        exact mem_descendants_plug c parent before after found.label_mem_preorder
      constructor
      · intro next
        -- the map of ids still has the old name
        have same := next.mapIds.symm.trans agrees.mapIds
        have both := (newPairs.symm.trans same).trans oldPairs
        have single := (List.perm_append_left_iff _).mp both
        have equal := List.singleton_perm_singleton.mp single
        intro grp member isGrp
        have first : (id, grp.strName) ∈ groupPairs b.clsQuestionBank := by
          rw [← isGrp]
          exact List.mem_map_of_mem (f := GroupMembers.pair) member
        have second : (id, found.label.strName) ∈ groupPairs b.clsQuestionBank := by
          rw [← isFound]
          exact List.mem_map_of_mem (f := GroupMembers.pair) present
        rw [IdMap.name_unique agrees.distinctIds first second]
        exact (congrArg Prod.snd equal).symm
      · intro keeps
        have sameName := keeps found.label present isFound
        have sameGroup : RoseTree.node { found.label with strName := name } found.children =
            found := by
          rw [← sameName]
          exact node_label_children found
        simp only [sameGroup, ← tree]
        refine ⟨agrees.root, ⟨_, rfl, ?_⟩, agrees.mapIds, agrees.distinctIds,
          agrees.distinctNames⟩
        rcases updateGroup_cases path id name with
          ⟨_, same⟩ | ⟨front, x, back, split, isRecord, _, done⟩
        · rw [same.path, same.groups]
          exact ⟨path, records⟩
        · -- the record of the group has the name already
          have record : (id, x.group) ∈ groupPairs b.clsQuestionBank := by
            rw [← records.mem_iff, split, ← isRecord]
            exact List.mem_map_of_mem (f := groupPair)
              (List.mem_append_right front List.mem_cons_self)
          have group : (id, found.label.strName) ∈ groupPairs b.clsQuestionBank := by
            rw [← isFound]
            exact List.mem_map_of_mem (f := GroupMembers.pair) present
          have sameRecord : x.group = name :=
            (IdMap.name_unique agrees.distinctIds record group).trans sameName
          rw [done, ← sameRecord]
          refine ⟨path, ?_⟩
          rw [split] at records
          exact records

/-! ## Runs -/

/-- A call that is accepted. -/
def GroupCall.Accepted (_ : GroupCall) (_ : CQuestionBankImpl) (answer : Outcome Bool) :
    Prop :=
  answer = .value true

/-- An accepted call keeps the copies in agreement exactly when it keeps the names. -/
theorem GroupCall.perform_agrees_iff (rt : Runtime) {b : CQuestionBankImpl}
    (agrees : Agrees b) (call : GroupCall)
    (accepted : call.Accepted b (call.perform rt b).1) :
    Agrees (call.perform rt b).2 ↔ call.KeepsName b := by
  obtain ⟨ids, opened, _⟩ := agrees.ids
  cases call with
  | add pid name id =>
      exact iff_of_true (agrees.add (b.addGroup_result rt agrees.uniqueIds opened pid name id))
        trivial
  | delete pid id =>
      exact iff_of_true
        (agrees.delete (b.deleteGroup_result rt agrees.uniqueIds opened pid id) accepted)
        trivial
  | update pid id name =>
      exact agrees.update_iff (b.updateGroup_result rt agrees.uniqueIds opened pid id name)
        accepted

/-- Over any run of accepted group calls from a bank whose copies of the registry agree,
they agree in every state reached exactly when no call gives a group another name. -/
theorem GroupCall.run_agrees_iff (rt : Runtime) {b : CQuestionBankImpl}
    (agrees : Agrees b) {calls : List GroupCall}
    (accepted : Machine.Allowed (perform rt) Accepted calls b) :
    Machine.Always (perform rt) Agrees calls b ↔
      Machine.Allowed (perform rt) (fun call b _ => call.KeepsName b) calls b :=
  Machine.always_iff_allowed
    (fun call _ agrees accepted => call.perform_agrees_iff rt agrees accepted)
    agrees accepted

/-- A bank directory with a registered group below another one. -/
def agreeingDisk : Disk :=
  FileSystem.ofNodes
    [(["root"], .directory),
     (["root", "Words"], .directory),
     (["root", "Words", "Verbs"], .directory),
     (["root", "ids.dat"],
       .file (Runtime.wire.serializeGroups
         [{ id := "w", group := "Words" }, { id := "v", group := "Verbs" }]))]

/-- The bank that `init` makes of the directory. -/
def agreeingBank : CQuestionBankImpl :=
  ((CQuestionBankImpl.fresh agreeingDisk Refusals.never).init .wire ["root"]
    { entries := [["root", "Words"], ["root", "Words", "Verbs"], ["root", "ids.dat"]] }).2

theorem agreeingBank_agrees : Agrees agreeingBank where
  root := by decide +kernel
  ids :=
    ⟨{ strPath := ["root", "ids.dat"]
       lstGroups := [{ id := "w", group := "Words" }, { id := "v", group := "Verbs" }] },
      by decide +kernel, by decide, by decide +kernel⟩
  mapIds := by decide +kernel
  distinctIds := by decide +kernel
  distinctNames := by decide +kernel

/-- Calls that add a group, update one with the name it has, and delete groups. -/
def agreeingCalls : List GroupCall :=
  [.add "v" "Nouns" "n", .update "w" "v" "Verbs", .delete "v" "n", .delete "" "w"]

theorem GroupCall.run_agrees_iff_agreeingBank :
    Machine.Always (perform .wire) Agrees agreeingCalls agreeingBank := by
  have accepted : Machine.Allowed (perform .wire) Accepted agreeingCalls agreeingBank := by
    unfold Accepted
    refine ⟨?_, ?_, ?_, ?_, trivial⟩ <;> decide +kernel
  have keep : Machine.Allowed (perform .wire) (fun call b _ => call.KeepsName b)
      agreeingCalls agreeingBank :=
    ⟨trivial, by decide +kernel, trivial, trivial, trivial⟩
  exact (run_agrees_iff .wire agreeingBank_agrees accepted).mpr keep

/-- An accepted update leaves the old name in the map of ids, and a second group with
the new name is accepted after it. -/
theorem update_splits_registry :
    Agrees agreeingBank ∧
      (agreeingBank.updateGroup .wire "" "w" "Nouns").1 = .value true ∧
      ¬ Agrees (agreeingBank.updateGroup .wire "" "w" "Nouns").2 ∧
      ((agreeingBank.updateGroup .wire "" "w" "Nouns").2.addGroup .wire "" "Nouns" "n").1 =
        .value true := by
  refine ⟨agreeingBank_agrees, by decide +kernel, ?_, by decide +kernel⟩
  intro agrees
  exact absurd agrees.mapIds (by decide +kernel)

end Notebook
