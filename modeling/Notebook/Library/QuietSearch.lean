import Mathlib.Algebra.GroupWithZero.Nat
import Notebook.Library.TreeSearch

/-!
# Searches that change nothing

A search acts at the topmost nodes that are hit, one after the other. When an action
either changes nothing that can be seen or makes a measure smaller, the same is true of
the search: it changes nothing exactly when the actions at the topmost hits change
nothing up to the one that stops it.
-/

namespace Notebook
namespace RoseTree

/-! ## Actions in turn -/

/-- The actions at a list of places are calm in turn, up to one that does not ask to go
on; the answer is its answer, or a miss. -/
def CalmThrough (calm : α → ρ → Prop) (goOn : ρ → Bool) (miss : ρ) : List α → ρ → Prop
  | [], answer => answer = miss
  | x :: xs, answer => ∃ here, calm x here ∧
      if goOn here = true then CalmThrough calm goOn miss xs answer else answer = here

section CalmThrough

variable {calm : α → ρ → Prop} {goOn : ρ → Bool} {miss : ρ}

theorem calmThrough_cons_of_goes {x : α} {xs : List α} {here answer : ρ}
    (calmHere : calm x here)
    (goes : goOn here = true)
    (rest : CalmThrough calm goOn miss xs answer) :
    CalmThrough calm goOn miss (x :: xs) answer :=
  ⟨here, calmHere, by rw [if_pos goes]; exact rest⟩

theorem calmThrough_cons_of_stops {x : α} {xs : List α} {here : ρ}
    (calmHere : calm x here)
    (stops : goOn here = false) :
    CalmThrough calm goOn miss (x :: xs) here :=
  ⟨here, calmHere, by rw [if_neg (by simp [stops])]⟩

/-- Two lists in turn: the second one counts when the first one asks to go on. -/
theorem calmThrough_append (missGoesOn : goOn miss = true) (xs ys : List α) (answer : ρ) :
    CalmThrough calm goOn miss (xs ++ ys) answer ↔
      ∃ first, CalmThrough calm goOn miss xs first ∧
        if goOn first = true then CalmThrough calm goOn miss ys answer
        else answer = first := by
  induction xs with
  | nil => simp [CalmThrough, missGoesOn]
  | cons x xs inductionHypothesis =>
      rw [List.cons_append, CalmThrough]
      constructor
      · rintro ⟨here, calmHere, rest⟩
        by_cases goes : goOn here = true
        · rw [if_pos goes, inductionHypothesis] at rest
          obtain ⟨first, calmFirst, later⟩ := rest
          exact ⟨first, calmThrough_cons_of_goes calmHere goes calmFirst, later⟩
        · rw [if_neg goes] at rest
          exact ⟨here, ⟨here, calmHere, by rw [if_neg goes]⟩, by rw [if_neg goes]; exact rest⟩
      · rintro ⟨first, ⟨here, calmHere, front⟩, later⟩
        refine ⟨here, calmHere, ?_⟩
        by_cases goes : goOn here = true
        · rw [if_pos goes] at front ⊢
          exact inductionHypothesis.mpr ⟨first, front, later⟩
        · rw [if_neg goes] at front ⊢
          rw [front, if_neg goes] at later
          exact later

/-- An answer of calm actions is a miss or one of theirs. -/
theorem CalmThrough.exists_calm {xs : List α} {answer : ρ}
    (through : CalmThrough calm goOn miss xs answer) :
    answer = miss ∨ ∃ x ∈ xs, calm x answer := by
  induction xs with
  | nil => exact Or.inl through
  | cons x xs inductionHypothesis =>
      obtain ⟨here, calmHere, rest⟩ := through
      split at rest
      · rcases inductionHypothesis rest with isMiss | ⟨y, member, calmThere⟩
        · exact Or.inl isMiss
        · exact Or.inr ⟨y, List.mem_cons_of_mem x member, calmThere⟩
      · exact Or.inr ⟨x, List.mem_cons_self, rest ▸ calmHere⟩

end CalmThrough

/-! ## Topmost hits -/

mutual

/-- The subtrees at which a search acts when every action asks to go on. -/
def topHits (hit : α → Bool) : RoseTree α → List (RoseTree α)
  | .node a ts => if hit a then [.node a ts] else topHitsAll hit ts

/-- The same for a list of trees. -/
def topHitsAll (hit : α → Bool) : List (RoseTree α) → List (RoseTree α)
  | [] => []
  | t :: ts => topHits hit t ++ topHitsAll hit ts

end

/-! ## Weights -/

/-- Sum of the weights of all labels of a tree. -/
def weigh (weight : α → Nat) (t : RoseTree α) : Nat :=
  (t.preorder.map weight).sum

/-- Sum of the weights of all labels of a list of trees. -/
def weighAll (weight : α → Nat) (ts : List (RoseTree α)) : Nat :=
  (ts.map (weigh weight)).sum

@[simp] theorem weighAll_nil (weight : α → Nat) :
    weighAll weight ([] : List (RoseTree α)) = 0 := rfl

@[simp] theorem weighAll_cons (weight : α → Nat) (t : RoseTree α) (ts : List (RoseTree α)) :
    weighAll weight (t :: ts) = weigh weight t + weighAll weight ts := by
  simp [weighAll]

@[simp] theorem weighAll_append (weight : α → Nat) (ts us : List (RoseTree α)) :
    weighAll weight (ts ++ us) = weighAll weight ts + weighAll weight us := by
  simp [weighAll]

@[simp] theorem weigh_node (weight : α → Nat) (a : α) (ts : List (RoseTree α)) :
    weigh weight (.node a ts) = weight a + weighAll weight ts := by
  rw [weigh, preorder_node, List.map_cons, List.sum_cons]
  congr 1
  induction ts with
  | nil => rfl
  | cons t ts inductionHypothesis =>
      rw [List.flatMap_cons, List.map_append, List.sum_append, inductionHypothesis,
        weighAll_cons, weigh]

/-! ## Quiet or less -/

section Search

variable {hit : α → Bool} {act : RoseTree α → σ → ρ × RoseTree α × σ}
variable {goOn : ρ → Bool} {miss : ρ}
variable {ready : σ → Prop} {view : σ → τ} {calm : τ → RoseTree α → ρ → Prop}
variable {weight : α → Nat} {measure : τ → Nat} {success : ρ → Prop}

/-- An action that is calm at a place changes nothing that can be seen, and one that is
not calm succeeds or makes the measure smaller. -/
structure QuietOrLess (act : RoseTree α → σ → ρ × RoseTree α × σ) (ready : σ → Prop)
    (view : σ → τ) (calm : τ → RoseTree α → ρ → Prop) (weight : α → Nat)
    (measure : τ → Nat) (success : ρ → Prop) : Prop where
  staysReady : ∀ t s, ready s → ready (act t s).2.2
  quiet : ∀ t s answer, ready s → calm (view s) t answer →
    ∃ s', act t s = (answer, t, s') ∧ view s' = view s
  less : ∀ t s, ready s → (¬ ∃ answer, calm (view s) t answer) →
    success (act t s).1 ∨
      weigh weight (act t s).2.1 + measure (view (act t s).2.2) <
        weigh weight t + measure (view s)

/-- An action that is quiet or makes the measure smaller never makes it larger. -/
theorem QuietOrLess.le (acts : QuietOrLess act ready view calm weight measure success)
    (t : RoseTree α) {s : σ} (isReady : ready s) :
    success (act t s).1 ∨
      weigh weight (act t s).2.1 + measure (view (act t s).2.2) ≤
        weigh weight t + measure (view s) := by
  by_cases isCalm : ∃ answer, calm (view s) t answer
  · obtain ⟨answer, here⟩ := isCalm
    obtain ⟨s', done, same⟩ := acts.quiet t s answer isReady here
    right
    exact Nat.le_of_eq (by rw [done, same])
  · rcases acts.less t s isReady isCalm with succeeds | smaller
    · exact Or.inl succeeds
    · exact Or.inr (Nat.le_of_lt smaller)

/-- What is known about the search of a list of trees when it is known about the search
of each. -/
private theorem searchAll_quietOrLess (missGoesOn : goOn miss = true)
    (stops : ∀ answer, success answer → goOn answer = false)
    {ts : List (RoseTree α)}
    (staysReady : ∀ t s, ready s → ready (search hit act goOn miss t s).2.2)
    (each : ∀ t ∈ ts, ∀ s, ready s →
      (∀ answer, CalmThrough (calm (view s)) goOn miss (topHits hit t) answer →
        ∃ s', search hit act goOn miss t s = (answer, t, s') ∧ view s' = view s) ∧
      ((¬ ∃ answer, CalmThrough (calm (view s)) goOn miss (topHits hit t) answer) →
        success (search hit act goOn miss t s).1 ∨
          weigh weight (search hit act goOn miss t s).2.1 +
              measure (view (search hit act goOn miss t s).2.2) <
            weigh weight t + measure (view s)))
    {s : σ} (isReady : ready s) :
    (∀ answer, CalmThrough (calm (view s)) goOn miss (topHitsAll hit ts) answer →
      ∃ s', searchAll hit act goOn miss ts s = (answer, ts, s') ∧ view s' = view s) ∧
    ((¬ ∃ answer, CalmThrough (calm (view s)) goOn miss (topHitsAll hit ts) answer) →
      success (searchAll hit act goOn miss ts s).1 ∨
        weighAll weight (searchAll hit act goOn miss ts s).2.1 +
            measure (view (searchAll hit act goOn miss ts s).2.2) <
          weighAll weight ts + measure (view s)) := by
  induction ts generalizing s with
  | nil =>
      refine ⟨?_, ?_⟩
      · intro answer through
        obtain rfl : answer = miss := through
        exact ⟨s, rfl, rfl⟩
      · intro loud
        exact absurd ⟨miss, rfl⟩ loud
  | cons t ts tailHypothesis =>
      have readyHere := staysReady t s isReady
      obtain ⟨quietHere, lessHere⟩ := each t List.mem_cons_self s isReady
      have later := fun {s} (isReady : ready s) => @tailHypothesis
        (fun u member => each u (List.mem_cons_of_mem t member)) s isReady
      rw [searchAll_cons, topHitsAll]
      refine ⟨?_, ?_⟩
      · intro answer through
        rw [calmThrough_append missGoesOn] at through
        obtain ⟨first, calmFirst, rest⟩ := through
        obtain ⟨s', done, same⟩ := quietHere first calmFirst
        rw [done] at readyHere ⊢
        by_cases goes : goOn first = true
        · rw [if_pos goes] at rest ⊢
          rw [← same] at rest
          obtain ⟨s'', doneLater, sameLater⟩ := (later readyHere).1 answer rest
          rw [doneLater]
          exact ⟨s'', rfl, sameLater.trans same⟩
        · rw [if_neg goes] at rest ⊢
          exact ⟨s', by rw [rest], same⟩
      · intro loud
        by_cases calmHere :
            ∃ first, CalmThrough (calm (view s)) goOn miss (topHits hit t) first
        · obtain ⟨first, calmFirst⟩ := calmHere
          obtain ⟨s', done, same⟩ := quietHere first calmFirst
          have goes : goOn first = true := by
            by_contra stopsHere
            apply loud
            refine ⟨first, (calmThrough_append missGoesOn _ _ _).mpr ⟨first, calmFirst, ?_⟩⟩
            rw [if_neg stopsHere]
          rw [done] at readyHere ⊢
          rw [if_pos goes]
          have loudLater : ¬ ∃ answer, CalmThrough (calm (view s')) goOn miss
              (topHitsAll hit ts) answer := by
            rintro ⟨answer, rest⟩
            apply loud
            refine ⟨answer, (calmThrough_append missGoesOn _ _ _).mpr ⟨first, calmFirst, ?_⟩⟩
            rw [if_pos goes, ← same]
            exact rest
          rcases (later readyHere).2 loudLater with succeeds | smaller
          · exact Or.inl succeeds
          · right
            rw [same] at smaller
            simp only [weighAll_cons] at smaller ⊢
            omega
        · rcases lessHere calmHere with succeeds | smaller
          · left
            rw [if_neg (by simp [stops _ succeeds])]
            exact succeeds
          · by_cases goes : goOn (search hit act goOn miss t s).1 = true
            · rw [if_pos goes]
              have notMore : success (searchAll hit act goOn miss ts
                    (search hit act goOn miss t s).2.2).1 ∨
                  weighAll weight (searchAll hit act goOn miss ts
                      (search hit act goOn miss t s).2.2).2.1 +
                    measure (view (searchAll hit act goOn miss ts
                      (search hit act goOn miss t s).2.2).2.2) ≤
                    weighAll weight ts + measure (view (search hit act goOn miss t s).2.2) := by
                by_cases calmLater : ∃ answer, CalmThrough
                    (calm (view (search hit act goOn miss t s).2.2)) goOn miss
                    (topHitsAll hit ts) answer
                · obtain ⟨answer, rest⟩ := calmLater
                  obtain ⟨s'', done, same⟩ := (later readyHere).1 answer rest
                  right
                  exact Nat.le_of_eq (by rw [done, same])
                · rcases (later readyHere).2 calmLater with succeeds | less
                  · exact Or.inl succeeds
                  · exact Or.inr (Nat.le_of_lt less)
              rcases notMore with succeeds | less
              · exact Or.inl succeeds
              · right
                simp only [weighAll_cons]
                omega
            · rw [if_neg goes]
              right
              simp only [weighAll_cons]
              omega

/-- A search with such actions is quiet exactly when the actions at the topmost hits are
calm in turn; otherwise it succeeds or makes the measure smaller. -/
theorem search_quietOrLess
    (acts : QuietOrLess act ready view calm weight measure success)
    (missGoesOn : goOn miss = true)
    (missOnly : ∀ answer, goOn answer = true → answer = miss)
    (stops : ∀ answer, success answer → goOn answer = false)
    (t : RoseTree α) {s : σ} (isReady : ready s) :
    (∀ answer, CalmThrough (calm (view s)) goOn miss (topHits hit t) answer →
      ∃ s', search hit act goOn miss t s = (answer, t, s') ∧ view s' = view s) ∧
    ((¬ ∃ answer, CalmThrough (calm (view s)) goOn miss (topHits hit t) answer) →
      success (search hit act goOn miss t s).1 ∨
        weigh weight (search hit act goOn miss t s).2.1 +
            measure (view (search hit act goOn miss t s).2.2) <
          weigh weight t + measure (view s)) := by
  induction t generalizing s with
  | node a ts inductionHypothesis =>
      cases hitHere : hit a with
      | true =>
          rw [search_node_of_hit hitHere, topHits, if_pos hitHere]
          refine ⟨?_, ?_⟩
          · rintro answer ⟨here, calmHere, rest⟩
            obtain ⟨s', done, same⟩ := acts.quiet _ s here isReady calmHere
            refine ⟨s', ?_, same⟩
            have equal : answer = here := by
              split at rest
              · rename_i goes
                exact rest.trans (missOnly here goes).symm
              · exact rest
            rw [done, equal]
          · intro loud
            apply acts.less _ s isReady
            rintro ⟨here, calmHere⟩
            apply loud
            by_cases goes : goOn here = true
            · exact ⟨miss, calmThrough_cons_of_goes calmHere goes rfl⟩
            · exact ⟨here, calmThrough_cons_of_stops calmHere (by simpa using goes)⟩
      | false =>
          have all := @searchAll_quietOrLess _ _ _ _ hit act goOn miss ready view calm weight
            measure success missGoesOn stops ts
            (fun t s isReady => search_preserves acts.staysReady t isReady)
            (fun t member s isReady => inductionHypothesis t member isReady) s isReady
          obtain ⟨quietAll, lessAll⟩ := all
          rw [search_node_of_not_hit hitHere, topHits, if_neg (by simp [hitHere])]
          refine ⟨?_, ?_⟩
          · intro answer through
            obtain ⟨s', done, same⟩ := quietAll answer through
            exact ⟨s', by rw [done], same⟩
          · intro loud
            rcases lessAll loud with succeeds | smaller
            · exact Or.inl succeeds
            · right
              simp only [weigh_node]
              omega

end Search

/-! ## Searches that stop at the first success -/

section Finds

variable {hit : α → Bool} {act : RoseTree α → σ → ρ × RoseTree α × σ} {goOn : ρ → Bool}
  {miss : ρ} {find : RoseTree α → Option γ} {before : σ → Prop} {done : γ → σ → Prop}

/-- What an answer and a state are like when there was nothing to find, or something
was found. -/
def FoundOrNot (goOn : ρ → Bool) (before : σ → Prop) (done : γ → σ → Prop)
    (found : Option γ) (answer : ρ) (s : σ) : Prop :=
  match found with
  | none => goOn answer = true ∧ before s
  | some x => goOn answer = false ∧ done x s

/-- When an action asks to go on exactly where there is nothing to find, the search stops
at the first of the topmost hits where there is something. -/
theorem search_finds
    (missGoesOn : goOn miss = true)
    (acts : ∀ t s, before s →
      FoundOrNot goOn before done (find t) (act t s).1 (act t s).2.2)
    (t : RoseTree α) {s : σ} (start : before s) :
    FoundOrNot goOn before done ((topHits hit t).findSome? find)
      (search hit act goOn miss t s).1 (search hit act goOn miss t s).2.2 := by
  induction t generalizing s with
  | node a ts inductionHypothesis =>
      cases hitHere : hit a with
      | true =>
          have here := acts (.node a ts) s start
          rw [search_node_of_hit hitHere, topHits, if_pos hitHere, List.findSome?_cons]
          cases found : find (.node a ts) with
          | none =>
              rw [found] at here
              exact here
          | some x =>
              rw [found] at here
              exact here
      | false =>
          rw [search_node_of_not_hit hitHere, topHits, if_neg (by simp [hitHere])]
          simp only
          induction ts generalizing s with
          | nil => exact ⟨missGoesOn, start⟩
          | cons t ts tailHypothesis =>
              have here := inductionHypothesis t List.mem_cons_self start
              have later := fun {s} (start : before s) => @tailHypothesis
                (fun u member => inductionHypothesis u (List.mem_cons_of_mem t member)) s start
              rw [searchAll_cons, topHitsAll, List.findSome?_append]
              cases found : (topHits hit t).findSome? find with
              | none =>
                  rw [found] at here
                  obtain ⟨goes, still⟩ := here
                  rw [if_pos goes]
                  exact later still
              | some x =>
                  rw [found] at here
                  obtain ⟨stops, isDone⟩ := here
                  rw [if_neg (by simp [stops])]
                  exact ⟨stops, isDone⟩

end Finds

end RoseTree
end Notebook
