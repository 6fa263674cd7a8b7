import Mathlib.Data.List.Basic
import Mathlib.Data.List.Nodup

/-!
# A part of a list and the elements next to it

A span is a part of a list, with what lies before and after it. Going on from a span leads
to the element after it, or before it on the way back. The whole list stays the same, and
in a list without repetitions an element determines its span.
-/

namespace Notebook

/-- A part of a list, with what lies before and after it. -/
@[ext] structure Span (α : Type u) where
  before : List α
  here : List α
  after : List α
  deriving DecidableEq, Repr

namespace Span

/-- The list. -/
def whole (s : Span α) : List α :=
  s.before ++ (s.here ++ s.after)

/-- The element after a part, or before it on the way back. -/
def neighbour (backward : Bool) (s : Span α) : Option α :=
  if backward then s.before.getLast? else s.after.head?

/-- The element after a part, or before it on the way back, with its span. -/
def step (backward : Bool) (s : Span α) : Option (α × Span α) :=
  (s.neighbour backward).map fun x =>
    (x,
      if backward then ⟨s.before.dropLast, [x], s.here ++ s.after⟩
      else ⟨s.before ++ s.here, [x], s.after.tail⟩)

/-- The ways a step goes. -/
theorem step_cases (backward : Bool) (s : Span α) :
    (s.neighbour backward = none ∧ s.step backward = none) ∨
      ∃ x t, s.neighbour backward = some x ∧ s.step backward = some (x, t) ∧
        t.here = [x] ∧ t.whole = s.whole := by
  cases found : s.neighbour backward with
  | none => exact Or.inl ⟨rfl, by rw [step, found, Option.map_none]⟩
  | some x =>
      refine Or.inr ⟨x, _, rfl, by rw [step, found, Option.map_some], ?_⟩
      cases backward with
      | false =>
          obtain ⟨rest, after⟩ := List.head?_eq_some_iff.mp found
          exact ⟨rfl, by simp [whole, after]⟩
      | true =>
          obtain ⟨front, before⟩ := List.getLast?_eq_some_iff.mp found
          exact ⟨rfl, by simp [whole, before]⟩

/-- In a list without repetitions an element determines its span. -/
theorem eq_of_whole {s t : Span α} {x : α} (nodup : s.whole.Nodup)
    (same : t.whole = s.whole) (here : s.here = [x]) (here' : t.here = [x]) : t = s := by
  obtain ⟨before, _, after⟩ := s
  obtain ⟨before', _, after'⟩ := t
  subst here here'
  simp only [whole, List.singleton_append] at nodup same
  have apart := (List.nodup_cons.mp (List.perm_middle.nodup_iff.mp nodup)).1
  rw [List.mem_append, not_or] at apart
  obtain ⟨rfl, _, rfl⟩ := (List.append_cons_inj_of_notMem apart.1 apart.2).mp same.symm
  rfl

end Span

end Notebook
