import Notebook.Library.Runs
import Notebook.Questions.Context

/-!
# The question operations refine one finite map

Records are addressed by a group id and a question id. Every question call on
the bank is simulated by a call on a partial map with these pairs as keys: the
registry check, the search that opens stores on first use and the swap inside a
store do not show.
-/

namespace Notebook

open KeyedList

/-- A call of one of the four question operations. -/
inductive QuestionCall
  | add (gid qid question answer : String)
  | delete (gid qid : String)
  | query (gid qid : String)
  | update (gid qid question answer : String)
  deriving DecidableEq, Repr

/-- What a question call gives back: its result, and the answer a query wrote. -/
abbrev QuestionResult := Bool × Option String

/-- Records by group id and question id. -/
abbrev RecordMap := String × String → Option QuestionAnswer

namespace QuestionCall

/-- The group a call is addressed to. -/
def gid : QuestionCall → String
  | .add gid _ _ _ => gid
  | .delete gid _ => gid
  | .query gid _ => gid
  | .update gid _ _ _ => gid

/-- Run a call on the bank. -/
def perform (rt : Runtime) : Machine QuestionCall CQuestionBankImpl QuestionResult
  | .add gid qid question answer, b =>
      let (ok, b) := b.addQuestion rt gid qid question answer
      ((ok, none), b)
  | .delete gid qid, b =>
      let (ok, b) := b.deleteQuestion rt gid qid
      ((ok, none), b)
  | .query gid qid, b => b.queryQuestion rt gid qid
  | .update gid qid question answer, b =>
      let (ok, b) := b.updateQuestion rt gid qid question answer
      ((ok, none), b)

/-- Run a call on the map. -/
def onMap : Machine QuestionCall RecordMap QuestionResult
  | .add gid qid question answer, m =>
      let (ok, m) := PartialMap.insertIfAbsent m (gid, qid)
        { id := qid, group := gid, question := question, answer := answer }
      ((ok, none), m)
  | .delete gid qid, m =>
      let (ok, m) := PartialMap.deleteIfPresent m (gid, qid)
      ((ok, none), m)
  | .query gid qid, m =>
      match m (gid, qid) with
      | some qa => ((true, some qa.answer), m)
      | none => ((false, none), m)
  | .update gid qid question answer, m =>
      let (ok, m) := PartialMap.updateIfPresent m (gid, qid) fun qa =>
        { qa with group := gid, question := question, answer := answer }
      ((ok, none), m)

/-- The reference for a call: a group id outside a list always fails. -/
def reference (gids : List String) : Machine QuestionCall RecordMap QuestionResult :=
  fun call m => if call.gid ∈ gids then call.onMap m else ((false, none), m)

/-- What a call does with the store of its group. -/
def useStore : QuestionCall → CQuestionAnswerImpl → QuestionResult × CQuestionAnswerImpl
  | .add gid qid question answer, ctx =>
      let (ok, ctx) := ctx.addQuestion
        { strGroup := gid, strId := qid, strQuestion := question, strAnswer := answer }
      ((ok, none), ctx)
  | .delete _ qid, ctx =>
      let (ok, ctx) := ctx.deleteQuestion qid
      ((ok, none), ctx)
  | .query _ qid, ctx => ctx.queryQuestion qid
  | .update gid qid question answer, ctx =>
      let (ok, ctx) := ctx.updateQuestion qid
        { strGroup := gid, strId := qid, strQuestion := question, strAnswer := answer }
      ((ok, none), ctx)

/-- What a call does with the part of the map that belongs to its group. -/
def onPart : QuestionCall → (String → Option QuestionAnswer) →
    QuestionResult × (String → Option QuestionAnswer)
  | .add gid qid question answer, part =>
      let (ok, part) := PartialMap.insertIfAbsent part qid
        { id := qid, group := gid, question := question, answer := answer }
      ((ok, none), part)
  | .delete _ qid, part =>
      let (ok, part) := PartialMap.deleteIfPresent part qid
      ((ok, none), part)
  | .query _ qid, part =>
      match part qid with
      | some qa => ((true, some qa.answer), part)
      | none => ((false, none), part)
  | .update gid qid question answer, part =>
      let (ok, part) := PartialMap.updateIfPresent part qid fun qa =>
        { qa with group := gid, question := question, answer := answer }
      ((ok, none), part)

/-- A call changes only the part of the map that belongs to its group. -/
theorem onMap_eq_patch (call : QuestionCall) (m : RecordMap) :
    call.onMap m =
      ((call.onPart fun qid => m (call.gid, qid)).1,
        PartialMap.patch m call.gid (call.onPart fun qid => m (call.gid, qid)).2) := by
  cases call with
  | add gid qid question answer =>
      simp only [onMap, onPart, PartialMap.insertIfAbsent, PartialMap.alter_pair]
      rfl
  | delete gid qid =>
      simp only [onMap, onPart, PartialMap.deleteIfPresent, PartialMap.alter_pair]
      rfl
  | update gid qid question answer =>
      simp only [onMap, onPart, PartialMap.updateIfPresent, PartialMap.alter_pair]
      rfl
  | query gid qid =>
      have unchanged : PartialMap.patch m gid (fun qid => m (gid, qid)) = m := by
        funext address
        by_cases same : address.1 = gid
        · simp [PartialMap.patch, ← same]
        · simp [PartialMap.patch, same]
      simp only [onMap, onPart, QuestionCall.gid]
      cases m (gid, qid) <;> simp [unchanged]

/-- On an opened store with distinct record ids a call acts as on the part of the
map. -/
theorem useStore_refines (call : QuestionCall) {ctx : CQuestionAnswerImpl}
    (opened : ctx.strPath ≠ [])
    (distinct : DistinctKeys QuestionAnswer.id ctx.lstQuestions) :
    (call.useStore ctx).1 = (call.onPart ctx.questionMap).1 ∧
      (call.useStore ctx).2.questionMap = (call.onPart ctx.questionMap).2 ∧
      DistinctKeys QuestionAnswer.id (call.useStore ctx).2.lstQuestions ∧
      CQuestionAnswerImpl.SameFile ctx (call.useStore ctx).2 := by
  cases call with
  | add gid qid question answer =>
      obtain ⟨result, map, distinct', file⟩ :=
        CQuestionAnswerImpl.addQuestion_refines opened distinct
          { strGroup := gid, strId := qid, strQuestion := question, strAnswer := answer }
      exact ⟨congrArg (fun ok => (ok, none)) result, map, distinct', file⟩
  | delete gid qid =>
      obtain ⟨result, map, distinct', file⟩ :=
        CQuestionAnswerImpl.deleteQuestion_refines opened distinct qid
      exact ⟨congrArg (fun ok => (ok, none)) result, map, distinct', file⟩
  | update gid qid question answer =>
      obtain ⟨result, map, distinct', file⟩ :=
        CQuestionAnswerImpl.updateQuestion_refines opened distinct
          { strGroup := gid, strId := qid, strQuestion := question, strAnswer := answer }
      exact ⟨congrArg (fun ok => (ok, none)) result, map, distinct', file⟩
  | query gid qid =>
      have same := CQuestionAnswerImpl.queryQuestion_sameRecords ctx qid
      refine ⟨?_, ?_, ?_, same.sameFile⟩
      · rw [useStore, CQuestionAnswerImpl.queryQuestion_eq opened, onPart,
          CQuestionAnswerImpl.questionMap]
        cases find QuestionAnswer.id qid ctx.lstQuestions <;> rfl
      · rw [useStore, same.questionMap_eq, onPart]
        split <;> rfl
      · rw [useStore, same.questions]
        exact distinct

end QuestionCall

/-! ## States -/

/-- What the question operations rely on in one group. -/
structure GroupMembers.Usable (disk : Disk) (grp : GroupMembers) : Prop where
  single : grp.vecQuestions.length ≤ 1
  opened : ∀ ctx ∈ grp.vecQuestions, ctx.strPath ≠ []
  distinct : ∀ ctx ∈ grp.vecQuestions,
    DistinctKeys QuestionAnswer.id ctx.lstQuestions
  unopened : grp.vecQuestions = [] → disk.isPresent grp.datPath = false

namespace GroupMembers.Usable

variable {disk : Disk} {grp : GroupMembers}

theorem context_opened (usable : grp.Usable disk) : grp.context.strPath ≠ [] := by
  unfold context
  split
  · exact grp.datPath_ne_nil
  · rename_i ctx rest stores
    exact usable.opened ctx (by simp [stores])

theorem context_distinct (usable : grp.Usable disk) :
    DistinctKeys QuestionAnswer.id grp.context.lstQuestions := by
  unfold context
  split
  · simp [DistinctKeys]
  · rename_i ctx rest stores
    exact usable.distinct ctx (by simp [stores])

theorem records_withStore (usable : grp.Usable disk) (ctx : CQuestionAnswerImpl) :
    (grp.withStore ctx).records = ctx.lstQuestions := by
  have single := usable.single
  unfold records withStore
  cases stores : grp.vecQuestions with
  | nil => simp
  | cons other rest =>
      rw [stores, List.length_cons] at single
      have none : rest = [] := List.eq_nil_of_length_eq_zero (by omega)
      simp [none]

theorem records_eq (usable : grp.Usable disk) :
    grp.records = grp.context.lstQuestions := by
  have single := usable.single
  unfold records context
  cases stores : grp.vecQuestions with
  | nil => simp
  | cons other rest =>
      rw [stores, List.length_cons] at single
      have none : rest = [] := List.eq_nil_of_length_eq_zero (by omega)
      simp [none]

theorem withStore (usable : grp.Usable disk) {ctx : CQuestionAnswerImpl}
    (opened : ctx.strPath ≠ [])
    (distinct : DistinctKeys QuestionAnswer.id ctx.lstQuestions) :
    (grp.withStore ctx).Usable disk := by
  have single := usable.single
  have stores : (grp.withStore ctx).vecQuestions = [ctx] := by
    unfold GroupMembers.withStore
    cases rest : grp.vecQuestions with
    | nil => rfl
    | cons other rest' =>
        rw [rest, List.length_cons] at single
        have none : rest' = [] := List.eq_nil_of_length_eq_zero (by omega)
        simp [none]
  refine ⟨by simp [stores], ?_, ?_, by simp [stores]⟩
  · simpa [stores] using opened
  · simpa [stores] using distinct

end GroupMembers.Usable

namespace CQuestionBankImpl

/-- Groups of the tree other than the root. -/
def groups (b : CQuestionBankImpl) : List GroupMembers :=
  b.clsQuestionBank.descendants

/-- The records of all groups by group id and question id. -/
def recordMap (b : CQuestionBankImpl) : RecordMap := fun key =>
  (find GroupMembers.strId key.1 b.groups).bind fun grp =>
    find QuestionAnswer.id key.2 grp.records

/-- The states on which every group of the tree can be addressed. -/
structure QuestionsReady (b : CQuestionBankImpl) : Prop where
  root_id : b.clsQuestionBank.label.strId = ""
  empty_id : b.regs.mapIds.contains "" = false
  id_ne_empty : ∀ grp ∈ b.groups, grp.strId ≠ ""
  distinct_ids : DistinctKeys GroupMembers.strId b.groups
  registered : ∀ grp ∈ b.groups, b.regs.mapIds.contains grp.strId = true
  usable : ∀ grp ∈ b.groups, grp.Usable b.regs.disk

/-- The records of all groups are the contents of a map, each exactly once. -/
structure Holds (b : CQuestionBankImpl) (m : RecordMap) : Prop where
  mem_iff : ∀ gid qid qa, m (gid, qid) = some qa ↔
    ∃ grp ∈ b.groups, grp.strId = gid ∧ qa ∈ grp.records ∧ qa.id = qid
  once : (b.groups.flatMap fun grp =>
    grp.records.map fun qa => (grp.strId, qa.id)).Nodup

/-- Two states with the same registry, the same disk, and the same ids, names,
paths and parents of groups. -/
structure SameOutline (b b' : CQuestionBankImpl) : Prop where
  tree : b'.clsQuestionBank.map GroupMembers.identity =
    b.clsQuestionBank.map GroupMembers.identity
  mapIds : b'.regs.mapIds = b.regs.mapIds
  ptrIds : b'.regs.ptrIds = b.regs.ptrIds
  disk : b'.regs.disk = b.regs.disk
  refusals : b'.regs.refusals = b.regs.refusals
  strIdPath : b'.strIdPath = b.strIdPath

/-- Two states that agree in every group other than those with a given id. -/
def SameApartFrom (gid : String) (b b' : CQuestionBankImpl) : Prop :=
  b'.clsQuestionBank.preorder.filter (·.strId ≠ gid) =
    b.clsQuestionBank.preorder.filter (·.strId ≠ gid)

theorem SameOutline.refl (b : CQuestionBankImpl) : SameOutline b b :=
  ⟨rfl, rfl, rfl, rfl, rfl, rfl⟩

theorem SameOutline.trans {b b' b'' : CQuestionBankImpl}
    (first : SameOutline b b') (second : SameOutline b' b'') : SameOutline b b'' where
  tree := second.tree.trans first.tree
  mapIds := second.mapIds.trans first.mapIds
  ptrIds := second.ptrIds.trans first.ptrIds
  disk := second.disk.trans first.disk
  refusals := second.refusals.trans first.refusals
  strIdPath := second.strIdPath.trans first.strIdPath

theorem SameOutline.ids {b b' : CQuestionBankImpl} (same : SameOutline b b') :
    b'.groups.map GroupMembers.strId = b.groups.map GroupMembers.strId := by
  have outline := congrArg RoseTree.descendants same.tree
  rw [RoseTree.descendants_map, RoseTree.descendants_map] at outline
  have ids := congrArg (List.map Prod.fst) outline
  rwa [List.map_map, List.map_map] at ids

/-! ## The store of a group -/

/-- The bank after an operation on the store of one group. -/
def putStore (gid : String) (ctx : CQuestionAnswerImpl) (b : CQuestionBankImpl) :
    CQuestionBankImpl :=
  { b with clsQuestionBank := b.clsQuestionBank.map (replaceStore gid ctx) }

@[simp] theorem replaceStore_strId (gid : String) (ctx : CQuestionAnswerImpl)
    (grp : GroupMembers) : (replaceStore gid ctx grp).strId = grp.strId := by
  unfold replaceStore
  split <;> rfl

@[simp] theorem replaceStore_identity (gid : String) (ctx : CQuestionAnswerImpl)
    (grp : GroupMembers) : (replaceStore gid ctx grp).identity = grp.identity := by
  unfold replaceStore
  split <;> rfl

/-- Rewriting the store of one group keeps the outline and the other groups. -/
theorem sameOutline_putStore (b : CQuestionBankImpl) (gid : String)
    (ctx : CQuestionAnswerImpl) :
    SameOutline b (b.putStore gid ctx) := by
  refine ⟨?_, rfl, rfl, rfl, rfl, rfl⟩
  rw [putStore, RoseTree.map_map]
  exact RoseTree.map_congr fun grp _ => replaceStore_identity gid ctx grp

theorem sameApartFrom_putStore (b : CQuestionBankImpl) (gid : String)
    (ctx : CQuestionAnswerImpl) :
    SameApartFrom gid b (b.putStore gid ctx) := by
  rw [SameApartFrom, putStore, RoseTree.preorder_map]
  induction b.clsQuestionBank.preorder with
  | nil => rfl
  | cons grp rest inductionHypothesis =>
      by_cases here : grp.strId = gid
      · simpa [here] using inductionHypothesis
      · simpa [here, replaceStore] using inductionHypothesis

namespace QuestionsReady

variable {b : CQuestionBankImpl}

theorem preorder_eq (b : CQuestionBankImpl) :
    b.clsQuestionBank.preorder = b.clsQuestionBank.label :: b.groups :=
  b.clsQuestionBank.preorder_eq_label_cons

theorem distinct_all (ready : b.QuestionsReady) :
    (b.clsQuestionBank.preorder.map GroupMembers.strId).Nodup := by
  rw [preorder_eq, List.map_cons, List.nodup_cons]
  refine ⟨?_, ready.distinct_ids⟩
  intro present
  obtain ⟨grp, member, equal⟩ := List.mem_map.mp present
  exact ready.id_ne_empty grp member (equal.trans ready.root_id)

/-- The states reached by an operation on the store of one group. -/
theorem putStore (ready : b.QuestionsReady) {gid : String}
    {ctx : CQuestionAnswerImpl}
    (opened : ctx.strPath ≠ [])
    (distinct : DistinctKeys QuestionAnswer.id ctx.lstQuestions) :
    (b.putStore gid ctx).QuestionsReady := by
  have below : ∀ grp ∈ (b.putStore gid ctx).groups,
      ∃ old ∈ b.groups, replaceStore gid ctx old = grp := by
    intro grp present
    rw [groups, CQuestionBankImpl.putStore, RoseTree.descendants_map] at present
    exact List.mem_map.mp present
  refine ⟨?_, ready.empty_id, ?_, ?_, ?_, ?_⟩
  · simp [CQuestionBankImpl.putStore, RoseTree.label_map, ready.root_id]
  · intro grp present
    obtain ⟨old, member, rfl⟩ := below grp present
    simpa using ready.id_ne_empty old member
  · have ids := (sameOutline_putStore b gid ctx).ids
    rw [DistinctKeys, ids]
    exact ready.distinct_ids
  · intro grp present
    obtain ⟨old, member, rfl⟩ := below grp present
    simpa [CQuestionBankImpl.putStore] using ready.registered old member
  · intro grp present
    obtain ⟨old, member, rfl⟩ := below grp present
    unfold replaceStore
    split
    · exact (ready.usable old member).withStore opened distinct
    · exact ready.usable old member

/-- The part of the map that belongs to a group is the map of its store. -/
theorem recordMap_of_mem (ready : b.QuestionsReady) {grp : GroupMembers}
    (present : grp ∈ b.groups) (qid : String) :
    b.recordMap (grp.strId, qid) = grp.context.questionMap qid := by
  have found : find GroupMembers.strId grp.strId b.groups = some grp :=
    (find_eq_some_iff ready.distinct_ids).mpr ⟨present, rfl⟩
  rw [recordMap, found, Option.bind_some, (ready.usable grp present).records_eq]
  rfl

/-- Rewriting the store of a group replaces the part of the map that belongs to
it. -/
theorem recordMap_putStore (ready : b.QuestionsReady) {grp : GroupMembers}
    (present : grp ∈ b.groups) (ctx : CQuestionAnswerImpl) :
    (b.putStore grp.strId ctx).recordMap =
      PartialMap.patch b.recordMap grp.strId ctx.questionMap := by
  funext ⟨gid, qid⟩
  simp only [recordMap, groups, CQuestionBankImpl.putStore, RoseTree.descendants_map, find,
    List.find?_map, Function.comp_def, replaceStore_strId, PartialMap.patch]
  by_cases same : gid = grp.strId
  · subst same
    have found : find GroupMembers.strId grp.strId b.groups = some grp :=
      (find_eq_some_iff ready.distinct_ids).mpr ⟨present, rfl⟩
    rw [find, groups] at found
    rw [found, if_pos rfl, Option.map_some, Option.bind_some,
      replaceStore, if_pos rfl,
      (ready.usable grp present).records_withStore]
    rfl
  · rw [if_neg same]
    cases found : b.clsQuestionBank.descendants.find?
        (fun other => decide (other.strId = gid)) with
    | none => rfl
    | some other =>
        have key : other.strId = gid := key_of_find found
        rw [Option.map_some, Option.bind_some, Option.bind_some,
          replaceStore, if_neg (key.symm ▸ same)]

/-- The map holds the records of all groups, each exactly once. -/
theorem holds (ready : b.QuestionsReady) : b.Holds b.recordMap where
  mem_iff gid qid qa := by
    constructor
    · intro value
      obtain ⟨grp, found, record⟩ := Option.bind_eq_some_iff.mp value
      exact ⟨grp, mem_of_find found, key_of_find found, mem_of_find record,
        key_of_find record⟩
    · rintro ⟨grp, present, rfl, member, rfl⟩
      have usable := ready.usable grp present
      rw [ready.recordMap_of_mem present, CQuestionAnswerImpl.questionMap]
      rw [usable.records_eq] at member
      exact (find_eq_some_iff usable.context_distinct).mpr ⟨member, rfl⟩
  once := by
    rw [List.nodup_flatMap]
    constructor
    · intro grp present
      have usable := ready.usable grp present
      have ids := usable.context_distinct
      rw [← usable.records_eq, DistinctKeys] at ids
      have pairs := ids.map (f := fun qid => (grp.strId, qid)) fun _ _ equal =>
        (Prod.mk.inj equal).2
      rwa [List.map_map] at pairs
    · have apart := ready.distinct_ids
      rw [DistinctKeys, List.nodup_iff_pairwise_ne, List.pairwise_map] at apart
      refine apart.imp ?_
      intro grp other different key inGrp inOther
      obtain ⟨_, _, rfl⟩ := List.mem_map.mp inGrp
      obtain ⟨_, _, equal⟩ := List.mem_map.mp inOther
      exact different (Prod.mk.inj equal).1.symm

end QuestionsReady

/-! ## One call -/

/-- The two ways the way to a store ends: no group has the id, or the caller acts
on the store of that group. -/
theorem withContext_cases (rt : Runtime) {b : CQuestionBankImpl}
    (ready : b.QuestionsReady)
    (gid : String)
    (use : CQuestionAnswerImpl → β × CQuestionAnswerImpl) :
    ((∀ grp ∈ b.groups, grp.strId ≠ gid) ∧
        ∃ message, b.withContext rt gid use = (none, b.setError message)) ∨
      ∃ grp ∈ b.groups, grp.strId = gid ∧
        b.withContext rt gid use =
          (some (use grp.context).1, b.putStore gid (use grp.context).2) := by
  by_cases known : b.regs.mapIds.contains gid = false
  · left
    constructor
    · rintro grp present rfl
      rw [ready.registered grp present] at known
      cases known
    · exact ⟨_, by rw [withContext, if_pos known]⟩
  · by_cases isGroup : ∃ grp ∈ b.groups, grp.strId = gid
    · right
      obtain ⟨grp, present, rfl⟩ := isGroup
      refine ⟨grp, present, rfl, ?_⟩
      rw [withContext, if_neg known,
        findQustionAnswerContext_eq rt ready.distinct_all
          (RoseTree.mem_preorder_of_mem_descendants present)
          (ready.usable grp present).unopened]
      rfl
    · left
      have noGroup : ∀ grp ∈ b.groups, grp.strId ≠ gid := fun grp present equal =>
        isGroup ⟨grp, present, equal⟩
      refine ⟨noGroup, ?_⟩
      have nowhere : ∀ grp ∈ b.clsQuestionBank.preorder, grp.strId ≠ gid := by
        rw [QuestionsReady.preorder_eq]
        simp only [List.mem_cons, forall_eq_or_imp, ready.root_id]
        refine ⟨?_, noGroup⟩
        rintro rfl
        exact known ready.empty_id
      rw [withContext, if_neg known, findQustionAnswerContext_of_absent rt nowhere]
      exact ⟨_, rfl⟩

end CQuestionBankImpl

namespace QuestionCall

open CQuestionBankImpl

/-- A call fails on an id that no group has, and otherwise acts on the store of
that group. -/
theorem perform_cases (rt : Runtime) {b : CQuestionBankImpl}
    (ready : b.QuestionsReady)
    (call : QuestionCall) :
    ((∀ grp ∈ b.groups, grp.strId ≠ call.gid) ∧
        ∃ message, call.perform rt b = ((false, none), b.setError message)) ∨
      ∃ grp ∈ b.groups, grp.strId = call.gid ∧
        call.perform rt b =
          ((call.useStore grp.context).1,
            b.putStore call.gid (call.useStore grp.context).2) := by
  cases call with
  | add gid qid question answer =>
      rcases withContext_cases rt ready gid (fun ctx => ctx.addQuestion
        { strGroup := gid, strId := qid, strQuestion := question, strAnswer := answer })
        with ⟨none, message, failed⟩ | ⟨grp, present, rfl, done⟩
      · exact Or.inl ⟨none, message, by simp [perform, addQuestion, failed]⟩
      · exact Or.inr ⟨grp, present, rfl, by
          simp [perform, addQuestion, done, useStore, QuestionCall.gid]⟩
  | delete gid qid =>
      rcases withContext_cases rt ready gid (fun ctx => ctx.deleteQuestion qid)
        with ⟨none, message, failed⟩ | ⟨grp, present, rfl, done⟩
      · exact Or.inl ⟨none, message, by simp [perform, deleteQuestion, failed]⟩
      · exact Or.inr ⟨grp, present, rfl, by
          simp [perform, deleteQuestion, done, useStore, QuestionCall.gid]⟩
  | query gid qid =>
      rcases withContext_cases rt ready gid (fun ctx => ctx.queryQuestion qid)
        with ⟨none, message, failed⟩ | ⟨grp, present, rfl, done⟩
      · exact Or.inl ⟨none, message, by simp [perform, queryQuestion, failed]⟩
      · exact Or.inr ⟨grp, present, rfl, by
          simp [perform, queryQuestion, done, useStore, QuestionCall.gid]⟩
  | update gid qid question answer =>
      rcases withContext_cases rt ready gid (fun ctx => ctx.updateQuestion qid
        { strGroup := gid, strId := qid, strQuestion := question, strAnswer := answer })
        with ⟨none, message, failed⟩ | ⟨grp, present, rfl, done⟩
      · exact Or.inl ⟨none, message, by simp [perform, updateQuestion, failed]⟩
      · exact Or.inr ⟨grp, present, rfl, by
          simp [perform, updateQuestion, done, useStore, QuestionCall.gid]⟩

/-- One call answers as the reference and keeps the map in step, the outline and
all other groups. -/
theorem perform_refines (rt : Runtime) {b : CQuestionBankImpl}
    (ready : b.QuestionsReady)
    (call : QuestionCall) :
    (call.perform rt b).1 =
        (call.reference (b.groups.map GroupMembers.strId) b.recordMap).1 ∧
      (call.perform rt b).2.recordMap =
        (call.reference (b.groups.map GroupMembers.strId) b.recordMap).2 ∧
      (call.perform rt b).2.QuestionsReady ∧
      SameOutline b (call.perform rt b).2 ∧
      SameApartFrom call.gid b (call.perform rt b).2 := by
  rcases perform_cases rt ready call with
    ⟨noGroup, message, failed⟩ | ⟨grp, present, equal, done⟩
  · have outside : call.gid ∉ b.groups.map GroupMembers.strId := by
      intro inside
      obtain ⟨grp, present, equal⟩ := List.mem_map.mp inside
      exact noGroup grp present equal
    rw [failed, reference, if_neg outside]
    refine ⟨rfl, rfl, ?_, ⟨rfl, rfl, rfl, rfl, rfl, rfl⟩, rfl⟩
    exact ⟨ready.root_id, ready.empty_id, ready.id_ne_empty, ready.distinct_ids,
      ready.registered, ready.usable⟩
  · have inside : call.gid ∈ b.groups.map GroupMembers.strId :=
      List.mem_map.mpr ⟨grp, present, equal⟩
    have usable := ready.usable grp present
    obtain ⟨result, map, distinct, file⟩ :=
      call.useStore_refines usable.context_opened usable.context_distinct
    have part : (fun qid => b.recordMap (call.gid, qid)) = grp.context.questionMap := by
      funext qid
      rw [← equal, ready.recordMap_of_mem present]
    rw [done, reference, if_pos inside, onMap_eq_patch, part, ← result, ← map]
    refine ⟨rfl, ?_, ?_, sameOutline_putStore b _ _, sameApartFrom_putStore b _ _⟩
    · rw [← equal]
      exact ready.recordMap_putStore present _
    · exact ready.putStore (file.path ▸ usable.context_opened) distinct

/-- Records written by the reference carry the id of their group. -/
theorem group_of_reference (gids : List String) (call : QuestionCall) (m : RecordMap)
    {gid qid : String} {qa : QuestionAnswer}
    (value : (call.reference gids m).2 (gid, qid) = some qa) :
    qa.group = gid ∨ m (gid, qid) = some qa := by
  unfold reference at value
  split at value
  · cases call <;>
      simp only [onMap, PartialMap.insertIfAbsent, PartialMap.deleteIfPresent,
        PartialMap.updateIfPresent, PartialMap.alter] at value <;>
      repeat' split at value
    all_goals grind
  · exact Or.inr value

/-! ## Runs -/

/-- Records that were written since a given map carry the id of their group. -/
def WrittenSince (start m : RecordMap) : Prop :=
  ∀ gid qid qa, m (gid, qid) = some qa → qa.group = gid ∨ start (gid, qid) = some qa

/-- A state reached from another one, with the map that belongs to it. -/
def InStep (start b : CQuestionBankImpl) (m : RecordMap) : Prop :=
  b.QuestionsReady ∧ b.recordMap = m ∧ SameOutline start b

/-- Over any sequence of question calls, from any state in which every group can
be addressed, the answers are those of the map, the records of all groups are
its contents, records that were written name their group, and no call changes the
outline of the bank or another group. -/
theorem run_refines_map (rt : Runtime) {b : CQuestionBankImpl}
    (ready : b.QuestionsReady)
    (calls : List QuestionCall) :
    let bank := Machine.run (perform rt) calls b
    let map := Machine.run (reference (b.groups.map GroupMembers.strId)) calls b.recordMap
    b.Holds b.recordMap ∧
      bank.1 = map.1 ∧
      bank.2.Holds map.2 ∧
      WrittenSince b.recordMap map.2 ∧
      SameOutline b bank.2 ∧
      ∀ call : QuestionCall, SameApartFrom call.gid bank.2 (call.perform rt bank.2).2 := by
  have simulates : ∀ (call : QuestionCall) c m, InStep b c m →
      (call.perform rt c).1 =
          (call.reference (b.groups.map GroupMembers.strId) m).1 ∧
        InStep b (call.perform rt c).2
          (call.reference (b.groups.map GroupMembers.strId) m).2 := by
    rintro call c m ⟨ready', rfl, outline⟩
    obtain ⟨result, map, next, outline', _⟩ := perform_refines rt ready' call
    rw [outline.ids] at result map
    exact ⟨result, next, map, outline.trans outline'⟩
  have keepsWritten : ∀ (call : QuestionCall) m, WrittenSince b.recordMap m →
      WrittenSince b.recordMap
        (call.reference (b.groups.map GroupMembers.strId) m).2 := by
    intro call m before gid qid qa value
    exact (group_of_reference _ call m value).elim Or.inl (before gid qid qa)
  obtain ⟨answers, final, equal, outline⟩ :=
    Machine.run_simulates simulates calls ⟨ready, rfl, SameOutline.refl b⟩
  have written := Machine.run_invariant keepsWritten calls
    (fun _ _ _ value => Or.inr value)
  refine ⟨ready.holds, answers, ?_, written, outline, fun call => ?_⟩
  · rw [← equal]
    exact final.holds
  · exact (perform_refines rt final call).2.2.2.2

/-- A bank with a group that has a store and a sub-group that has none. -/
def sampleBank : CQuestionBankImpl where
  clsQuestionBank :=
    .node { strName := "root", strPath := ["root"] }
      [.node
        { strName := "Words", strId := "w", strPath := ["root", "Words"],
          vecQuestions :=
            [{ strPath := ["root", "Words", "w.dat"],
               lstQuestions := [{ id := "1", question := "hund", answer := "dog" }] }] }
        [.node
          { strName := "Verbs", strId := "v", strPath := ["root", "Words", "Verbs"] } []]]
  regs := { mapIds := [("w", "Words"), ("v", "Verbs"), ("gone", "Gone")] }

theorem sampleBank_ready : sampleBank.QuestionsReady where
  root_id := by decide
  empty_id := by decide
  id_ne_empty := by decide
  distinct_ids := by unfold DistinctKeys; decide
  registered := by decide
  usable := by
    intro grp present
    have cases : grp ∈ sampleBank.groups := present
    simp only [sampleBank, groups, RoseTree.descendants, RoseTree.children_node,
      List.flatMap_cons, List.flatMap_nil, RoseTree.preorder_node, List.append_nil,
      List.mem_cons, List.not_mem_nil, or_false] at cases
    rcases cases with rfl | rfl
    · exact ⟨by decide, by decide, by unfold DistinctKeys; decide, by decide⟩
    · exact ⟨by decide, by decide, by unfold DistinctKeys; decide, by decide⟩

theorem run_refines_map_sampleBank :
    (Machine.run (perform .wire)
        [.add "v" "1" "gehen" "to go", .add "w" "1" "katze" "cat", .query "v" "1",
          .update "gone" "1" "" "", .delete "w" "1", .query "w" "1"] sampleBank).1 =
      [(true, none), (false, none), (true, some "to go"),
        (false, none), (true, none), (false, none)] := by
  rw [(run_refines_map .wire sampleBank_ready _).2.1]
  decide

end QuestionCall

end Notebook
