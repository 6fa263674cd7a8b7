import Mathlib.Logic.Basic

/-!
# Loops that may not end

A loop is given by its body, which either leaves the loop with an answer or goes on in
another state. Running it for a number of iterations gives an answer when the loop was
left by then.
-/

namespace Notebook

/-- The body of a loop. -/
abbrev Loop (σ : Type u) (β : Type v) := σ → β ⊕ σ

namespace Loop

variable {σ : Type u} {β : Type v} {body : Loop σ β}

/-- Run a loop for at most a number of iterations. -/
def run (body : Loop σ β) : Nat → σ → Option β
  | 0, _ => none
  | fuel + 1, s =>
      match body s with
      | .inl answer => some answer
      | .inr s => run body fuel s

/-- A loop ends with an answer. -/
def Returns (body : Loop σ β) (s : σ) (answer : β) : Prop :=
  ∃ fuel, run body fuel s = some answer

/-- What is left to do after an iteration ends with an answer. -/
def Continues (body : Loop σ β) : β ⊕ σ → β → Prop
  | .inl done, answer => done = answer
  | .inr s, answer => Returns body s answer

/-- A loop ends with an answer when what is left after the first iteration does. -/
theorem returns_iff_continues {s : σ} {answer : β} :
    Returns body s answer ↔ Continues body (body s) answer := by
  constructor
  · rintro ⟨fuel, ended⟩
    cases fuel with
    | zero => cases ended
    | succ fuel =>
        rw [run] at ended
        cases first : body s with
        | inl done =>
            rw [first] at ended
            exact Option.some.inj ended
        | inr next =>
            rw [first] at ended
            exact ⟨fuel, ended⟩
  · intro continues
    cases first : body s with
    | inl done =>
        rw [first] at continues
        exact ⟨1, by rw [run, first]; exact congrArg some continues⟩
    | inr next =>
        rw [first] at continues
        obtain ⟨fuel, ended⟩ := continues
        exact ⟨fuel + 1, by rw [run, first]; exact ended⟩

@[simp] theorem continues_inl {done answer : β} :
    Continues body (.inl done) answer ↔ done = answer := Iff.rfl

theorem continues_inr {s : σ} {answer : β} :
    Continues body (.inr s) answer ↔ Continues body (body s) answer :=
  returns_iff_continues

/-- A loop whose body stays in a state never ends. -/
theorem run_of_fixed {s : σ} (fixed : body s = .inr s) (fuel : Nat) :
    run body fuel s = none := by
  induction fuel with
  | zero => rfl
  | succ fuel inductionHypothesis =>
      rw [run, fixed]
      exact inductionHypothesis

theorem not_returns_of_fixed {s : σ} (fixed : body s = .inr s) (answer : β) :
    ¬ Returns body s answer := by
  rintro ⟨fuel, ended⟩
  rw [run_of_fixed fixed] at ended
  cases ended

/-- An answer stays the same with more iterations. -/
theorem run_mono {s : σ} {answer : β} {fuel more : Nat} (le : fuel ≤ more)
    (ended : run body fuel s = some answer) : run body more s = some answer := by
  induction fuel generalizing s more with
  | zero => cases ended
  | succ fuel inductionHypothesis =>
      cases more with
      | zero => exact absurd le (Nat.not_succ_le_zero fuel)
      | succ more =>
          rw [run] at ended ⊢
          cases step : body s with
          | inl done =>
              rw [step] at ended
              exact ended
          | inr next =>
              rw [step] at ended
              exact inductionHypothesis (Nat.le_of_succ_le_succ le) ended

end Loop

end Notebook
