import Mathlib.Data.List.Basic

/-!
# Runs of a deterministic machine with answers

A machine takes a state and an input to an answer and a next state. The rules
below lift facts about one step to facts about a run: an invariant, an invariant
under a condition on every input in the state it meets, and a simulation between
two machines that are fed the same inputs.
-/

namespace Notebook

/-- One step of a machine: an input and a state give an answer and a state. -/
abbrev Machine (ι : Type u) (σ : Type v) (ο : Type w) := ι → σ → ο × σ

namespace Machine

/-- Answers and final state of a run. -/
def run (step : Machine ι σ ο) : List ι → σ → List ο × σ
  | [], s => ([], s)
  | i :: is, s =>
      let (answer, s) := step i s
      let (answers, s) := run step is s
      (answer :: answers, s)

@[simp] theorem run_nil (step : Machine ι σ ο) (s : σ) :
    run step [] s = ([], s) := rfl

@[simp] theorem run_cons (step : Machine ι σ ο) (i : ι) (is : List ι) (s : σ) :
    run step (i :: is) s =
      ((step i s).1 :: (run step is (step i s).2).1, (run step is (step i s).2).2) := rfl

theorem run_append (step : Machine ι σ ο) (is js : List ι) (s : σ) :
    run step (is ++ js) s =
      ((run step is s).1 ++ (run step js (run step is s).2).1,
        (run step js (run step is s).2).2) := by
  induction is generalizing s with
  | nil => rfl
  | cons i is inductionHypothesis => simp [inductionHypothesis]

/-- Every input of a run is allowed in the state it meets, given its answer. -/
def Allowed (step : Machine ι σ ο) (ok : ι → σ → ο → Prop) : List ι → σ → Prop
  | [], _ => True
  | i :: is, s => ok i s (step i s).1 ∧ Allowed step ok is (step i s).2

instance decidableAllowed (step : Machine ι σ ο) (ok : ι → σ → ο → Prop)
    [∀ i s o, Decidable (ok i s o)] :
    (is : List ι) → (s : σ) → Decidable (Allowed step ok is s)
  | [], _ => .isTrue trivial
  | i :: is, s =>
      @instDecidableAnd (ok i s (step i s).1) _ _ (decidableAllowed step ok is (step i s).2)

@[simp] theorem allowed_nil (step : Machine ι σ ο) (ok : ι → σ → ο → Prop) (s : σ) :
    Allowed step ok [] s := trivial

@[simp] theorem allowed_cons (step : Machine ι σ ο) (ok : ι → σ → ο → Prop)
    (i : ι) (is : List ι) (s : σ) :
    Allowed step ok (i :: is) s ↔
      ok i s (step i s).1 ∧ Allowed step ok is (step i s).2 := Iff.rfl

theorem allowed_append (step : Machine ι σ ο) (ok : ι → σ → ο → Prop)
    (is js : List ι) (s : σ) :
    Allowed step ok (is ++ js) s ↔
      Allowed step ok is s ∧ Allowed step ok js (run step is s).2 := by
  induction is generalizing s with
  | nil => simp
  | cons i is inductionHypothesis => simp [inductionHypothesis, and_assoc]

/-- A machine that goes through the same states allows the same inputs. -/
theorem Allowed.transfer {ο' : Type*} {step : Machine ι σ ο} {step' : Machine ι σ ο'}
    {ok : ι → σ → ο → Prop} {ok' : ι → σ → ο' → Prop}
    (same : ∀ i s, (step' i s).2 = (step i s).2)
    (weaker : ∀ i s, ok i s (step i s).1 → ok' i s (step' i s).1)
    {is : List ι}
    {s : σ}
    (allowed : Allowed step ok is s) :
    Allowed step' ok' is s := by
  induction is generalizing s with
  | nil => trivial
  | cons i is inductionHypothesis =>
      refine ⟨weaker i s allowed.1, ?_⟩
      rw [same]
      exact inductionHypothesis allowed.2

/-- Such a machine ends in the same state. -/
theorem run_state_congr {ο' : Type*} {step : Machine ι σ ο} {step' : Machine ι σ ο'}
    (same : ∀ i s, (step' i s).2 = (step i s).2)
    (is : List ι)
    (s : σ) :
    (run step' is s).2 = (run step is s).2 := by
  induction is generalizing s with
  | nil => rfl
  | cons i is inductionHypothesis =>
      rw [run_cons, run_cons, same]
      exact inductionHypothesis _

theorem allowed_of_forall {step : Machine ι σ ο} {ok : ι → σ → ο → Prop}
    (always : ∀ i s o, ok i s o)
    (is : List ι)
    (s : σ) :
    Allowed step ok is s := by
  induction is generalizing s with
  | nil => trivial
  | cons i is inductionHypothesis => exact ⟨always _ _ _, inductionHypothesis _⟩

/-- An allowed run is allowed with the knowledge of its inputs. -/
theorem Allowed.with_mem {step : Machine ι σ ο} {ok : ι → σ → ο → Prop} {is : List ι} {s : σ}
    (allowed : Allowed step ok is s) :
    Allowed step (fun i s o => i ∈ is ∧ ok i s o) is s := by
  have whole : ∀ js : List ι, (∀ j ∈ js, j ∈ is) → ∀ s, Allowed step ok js s →
      Allowed step (fun i s o => i ∈ is ∧ ok i s o) js s := by
    intro js
    induction js with
    | nil => exact fun _ _ _ => trivial
    | cons j js inductionHypothesis =>
        intro inside s allowed
        rw [List.forall_mem_cons] at inside
        exact ⟨⟨inside.1, allowed.1⟩, inductionHypothesis inside.2 _ allowed.2⟩
  exact whole is (fun _ member => member) s allowed

/-- A condition on the inputs alone is met in whatever state they find. -/
theorem allowed_of_mem (step : Machine ι σ ο) {ok : ι → Prop} {is : List ι}
    (each : ∀ i ∈ is, ok i)
    (s : σ) :
    Allowed step (fun i _ _ => ok i) is s := by
  induction is generalizing s with
  | nil => trivial
  | cons i is inductionHypothesis =>
      rw [List.forall_mem_cons] at each
      exact ⟨each.1, inductionHypothesis each.2 _⟩

/-- A property that every allowed step preserves holds after every allowed
run. -/
theorem run_preserves {step : Machine ι σ ο} {ok : ι → σ → ο → Prop}
    {invariant : σ → Prop}
    (preserved : ∀ i s, invariant s → ok i s (step i s).1 → invariant (step i s).2)
    {is : List ι}
    {s : σ}
    (start : invariant s)
    (allowed : Allowed step ok is s) :
    invariant (run step is s).2 := by
  induction is generalizing s with
  | nil => exact start
  | cons i is inductionHypothesis =>
      exact inductionHypothesis (preserved i s start allowed.1) allowed.2

/-- Every answer of an allowed run has a property that the answers of allowed steps have. -/
theorem run_answers {step : Machine ι σ ο} {ok : ι → σ → ο → Prop}
    {invariant : σ → Prop}
    {good : ο → Prop}
    (steps : ∀ i s, invariant s → ok i s (step i s).1 →
      good (step i s).1 ∧ invariant (step i s).2)
    {is : List ι}
    {s : σ}
    (start : invariant s)
    (allowed : Allowed step ok is s) :
    (∀ answer ∈ (run step is s).1, good answer) ∧ invariant (run step is s).2 := by
  induction is generalizing s with
  | nil => exact ⟨by simp, start⟩
  | cons i is inductionHypothesis =>
      obtain ⟨here, next⟩ := steps i s start allowed.1
      obtain ⟨later, final⟩ := inductionHypothesis next allowed.2
      refine ⟨?_, final⟩
      rw [run_cons, List.forall_mem_cons]
      exact ⟨here, later⟩

/-- A property that every step preserves holds after every run. -/
theorem run_invariant {step : Machine ι σ ο} {invariant : σ → Prop}
    (preserved : ∀ i s, invariant s → invariant (step i s).2)
    (is : List ι)
    {s : σ}
    (start : invariant s) :
    invariant (run step is s).2 := by
  have allowed : Allowed step (fun _ _ _ => True) is s :=
    allowed_of_forall (fun _ _ _ => trivial) is s
  exact run_preserves (fun i s before _ => preserved i s before) start allowed

/-- Two machines whose steps keep related states related and give equal answers
give equal answers over every run. -/
theorem run_simulates {step : Machine ι σ ο} {reference : Machine ι τ ο}
    {relation : σ → τ → Prop}
    (simulates : ∀ i s t, relation s t →
      (step i s).1 = (reference i t).1 ∧ relation (step i s).2 (reference i t).2)
    (is : List ι)
    {s : σ}
    {t : τ}
    (start : relation s t) :
    (run step is s).1 = (run reference is t).1 ∧
      relation (run step is s).2 (run reference is t).2 := by
  induction is generalizing s t with
  | nil => exact ⟨rfl, start⟩
  | cons i is inductionHypothesis =>
      obtain ⟨answer, next⟩ := simulates i s t start
      obtain ⟨answers, final⟩ := inductionHypothesis next
      exact ⟨by rw [run_cons, run_cons, answer, answers], final⟩

/-- Two machines give equal answers over every run whose steps are allowed, when allowed
steps keep related states related and give equal answers. -/
theorem run_simulates_allowed {step : Machine ι σ ο} {reference : Machine ι τ ο}
    {ok : ι → σ → ο → Prop}
    {relation : σ → τ → Prop}
    (simulates : ∀ i s t, relation s t → ok i s (step i s).1 →
      (step i s).1 = (reference i t).1 ∧ relation (step i s).2 (reference i t).2)
    {is : List ι}
    {s : σ}
    {t : τ}
    (start : relation s t)
    (allowed : Allowed step ok is s) :
    (run step is s).1 = (run reference is t).1 ∧
      relation (run step is s).2 (run reference is t).2 := by
  induction is generalizing s t with
  | nil => exact ⟨rfl, start⟩
  | cons i is inductionHypothesis =>
      obtain ⟨answer, next⟩ := simulates i s t start allowed.1
      obtain ⟨answers, final⟩ := inductionHypothesis next allowed.2
      exact ⟨by rw [run_cons, run_cons, answer, answers], final⟩

/-! ## Inputs made from the state -/

/-- The inputs of a run whose inputs are made in the states that they meet. -/
def translated (translate : κ → σ → ι) (step : Machine ι σ ο) : List κ → σ → List ι
  | [], _ => []
  | k :: ks, s => translate k s :: translated translate step ks (step (translate k s) s).2

/-- A run whose inputs are made on the way is a run of these inputs. -/
theorem run_translated (translate : κ → σ → ι) (step : Machine ι σ ο) (ks : List κ) (s : σ) :
    run step (translated translate step ks s) s =
      run (fun k s => step (translate k s) s) ks s := by
  induction ks generalizing s with
  | nil => rfl
  | cons k ks inductionHypothesis =>
      rw [translated, run_cons, run_cons, inductionHypothesis]

/-- It is allowed when these inputs are. -/
theorem allowed_translated {translate : κ → σ → ι} {step : Machine ι σ ο}
    {ok : ι → σ → ο → Prop} {ok' : κ → σ → ο → Prop}
    (weaker : ∀ k s, ok' k s (step (translate k s) s).1 →
      ok (translate k s) s (step (translate k s) s).1)
    {ks : List κ}
    {s : σ}
    (allowed : Allowed (fun k s => step (translate k s) s) ok' ks s) :
    Allowed step ok (translated translate step ks s) s := by
  induction ks generalizing s with
  | nil => trivial
  | cons k ks inductionHypothesis =>
      exact ⟨weaker k s allowed.1, inductionHypothesis allowed.2⟩

theorem exists_of_mem_translated {translate : κ → σ → ι} {step : Machine ι σ ο}
    {ks : List κ}
    {s : σ}
    {i : ι}
    (made : i ∈ translated translate step ks s) :
    ∃ k s, i = translate k s := by
  induction ks generalizing s with
  | nil => cases made
  | cons k ks inductionHypothesis =>
      rcases List.mem_cons.mp made with rfl | later
      · exact ⟨k, s, rfl⟩
      · exact inductionHypothesis later

/-! ## All the time -/

/-- A property of states holds at the start of a run and after every part of it. -/
def Always (step : Machine ι σ ο) (holds : σ → Prop) (is : List ι) (s : σ) : Prop :=
  ∀ done later, is = done ++ later → holds (run step done s).2

theorem always_nil (step : Machine ι σ ο) (holds : σ → Prop) (s : σ) :
    Always step holds [] s ↔ holds s := by
  constructor
  · intro always
    exact always [] [] rfl
  · intro now done later split
    rw [(List.append_eq_nil_iff.mp split.symm).1]
    exact now

theorem always_cons (step : Machine ι σ ο) (holds : σ → Prop) (i : ι) (is : List ι)
    (s : σ) :
    Always step holds (i :: is) s ↔ holds s ∧ Always step holds is (step i s).2 := by
  constructor
  · intro always
    refine ⟨always [] (i :: is) rfl, fun done later split => ?_⟩
    exact always (i :: done) later (by rw [split]; rfl)
  · rintro ⟨now, always⟩ done later split
    cases done with
    | nil => exact now
    | cons first done =>
        rw [List.cons_append, List.cons.injEq] at split
        obtain ⟨rfl, rest⟩ := split
        exact always done later rest

/-- When a condition on a step decides whether an invariant survives it, the invariant
holds throughout a run exactly when every step meets the condition. -/
theorem always_iff_allowed {step : Machine ι σ ο} {holds : σ → Prop}
    {possible ok : ι → σ → ο → Prop}
    (decides : ∀ i s, holds s → possible i s (step i s).1 →
      (holds (step i s).2 ↔ ok i s (step i s).1))
    {is : List ι}
    {s : σ}
    (start : holds s)
    (allowed : Allowed step possible is s) :
    Always step holds is s ↔ Allowed step ok is s := by
  induction is generalizing s with
  | nil =>
      rw [always_nil]
      exact ⟨fun _ => trivial, fun _ => start⟩
  | cons i is inductionHypothesis =>
      rw [always_cons, allowed_cons]
      have here := decides i s start allowed.1
      constructor
      · rintro ⟨_, always⟩
        have next := ((always_cons step holds i is s).mpr ⟨start, always⟩) [i] is rfl
        exact ⟨here.mp next, (inductionHypothesis next allowed.2).mp always⟩
      · rintro ⟨now, later⟩
        exact ⟨start, (inductionHypothesis (here.mpr now) allowed.2).mpr later⟩

end Machine

end Notebook
