import Notebook.Library.RoseTree

/-!
# Depth-first search with a mutating predicate

A search walks a tree in preorder. At a node that is hit it runs an action on
the whole subtree instead of going below it, and the action may rewrite the
subtree and a state. The search stops at the first action whose answer does not
ask it to go on; when every action asks it to go on, the answer is a fixed miss.

The rules below describe a search by the context of the node it stops at, and
by the list of its topmost hits.
-/

namespace Notebook
namespace RoseTree

section Search

variable (hit : α → Bool)
variable (act : RoseTree α → σ → ρ × RoseTree α × σ)
variable (goOn : ρ → Bool)
variable (miss : ρ)

mutual

/-- Search a tree, threading the state and the rewritten subtrees. -/
def search : RoseTree α → σ → ρ × RoseTree α × σ
  | .node a ts, s =>
      if hit a then act (.node a ts) s
      else
        let (answer, us, s) := searchAll ts s
        (answer, .node a us, s)

/-- Search a list of trees from left to right. -/
def searchAll : List (RoseTree α) → σ → ρ × List (RoseTree α) × σ
  | [], s => (miss, [], s)
  | t :: ts, s =>
      let (answer, u, s) := search t s
      if goOn answer then
        let (answer, us, s) := searchAll ts s
        (answer, u :: us, s)
      else (answer, u :: ts, s)

end

variable {hit act goOn miss}

theorem search_node_of_hit
    {a : α}
    (hitHere : hit a = true)
    (ts : List (RoseTree α))
    (s : σ) :
    search hit act goOn miss (.node a ts) s = act (.node a ts) s := by
  rw [search, if_pos hitHere]

/-- At a hit the search is the action. -/
theorem search_of_hit
    {t : RoseTree α}
    (hitHere : hit t.label = true)
    (s : σ) :
    search hit act goOn miss t s = act t s := by
  cases t with
  | node a ts => exact search_node_of_hit hitHere ts s

theorem search_node_of_not_hit
    {a : α}
    (notHere : hit a = false)
    (ts : List (RoseTree α))
    (s : σ) :
    search hit act goOn miss (.node a ts) s =
      ((searchAll hit act goOn miss ts s).1,
        .node a (searchAll hit act goOn miss ts s).2.1,
        (searchAll hit act goOn miss ts s).2.2) := by
  simp [search, notHere]

theorem searchAll_cons
    (t : RoseTree α)
    (ts : List (RoseTree α))
    (s : σ) :
    searchAll hit act goOn miss (t :: ts) s =
      if goOn (search hit act goOn miss t s).1 then
        ((searchAll hit act goOn miss ts (search hit act goOn miss t s).2.2).1,
          (search hit act goOn miss t s).2.1 ::
            (searchAll hit act goOn miss ts (search hit act goOn miss t s).2.2).2.1,
          (searchAll hit act goOn miss ts (search hit act goOn miss t s).2.2).2.2)
      else
        ((search hit act goOn miss t s).1,
          (search hit act goOn miss t s).2.1 :: ts,
          (search hit act goOn miss t s).2.2) := by
  rw [searchAll]

/-- A list of trees whose searches all miss and change nothing is searched
without effect. -/
theorem searchAll_of_forall_miss
    (missGoesOn : goOn miss = true)
    {ts : List (RoseTree α)}
    {s : σ}
    (misses : ∀ t ∈ ts, search hit act goOn miss t s = (miss, t, s)) :
    searchAll hit act goOn miss ts s = (miss, ts, s) := by
  induction ts with
  | nil => rfl
  | cons t ts inductionHypothesis =>
      have tail := inductionHypothesis fun u member =>
        misses u (List.mem_cons_of_mem t member)
      rw [searchAll_cons, misses t List.mem_cons_self, if_pos missGoesOn, tail]

/-- A tree without a hit is searched without effect. -/
theorem search_of_no_hit
    (missGoesOn : goOn miss = true)
    {t : RoseTree α}
    (noHit : ∀ a ∈ t.preorder, hit a = false)
    (s : σ) :
    search hit act goOn miss t s = (miss, t, s) := by
  induction t with
  | node a ts inductionHypothesis =>
      simp only [preorder_node, List.mem_cons, List.mem_flatMap,
        forall_eq_or_imp, forall_exists_index, and_imp] at noHit
      have below : searchAll hit act goOn miss ts s = (miss, ts, s) :=
        searchAll_of_forall_miss missGoesOn fun t member =>
          inductionHypothesis t member fun b present =>
            noHit.2 b t member present
      rw [search_node_of_not_hit noHit.1, below]

theorem searchAll_of_no_hit
    (missGoesOn : goOn miss = true)
    {ts : List (RoseTree α)}
    (noHit : ∀ a ∈ ts.flatMap preorder, hit a = false)
    (s : σ) :
    searchAll hit act goOn miss ts s = (miss, ts, s) :=
  searchAll_of_forall_miss missGoesOn fun t member =>
    search_of_no_hit missGoesOn
      (fun a present => noHit a (List.mem_flatMap.mpr ⟨t, member, present⟩)) s

/-- Trees without a hit in front of a list are passed over. -/
theorem searchAll_append_of_no_hit
    (missGoesOn : goOn miss = true)
    {before : List (RoseTree α)}
    (noHit : ∀ a ∈ before.flatMap preorder, hit a = false)
    (ts : List (RoseTree α))
    (s : σ) :
    searchAll hit act goOn miss (before ++ ts) s =
      ((searchAll hit act goOn miss ts s).1,
        before ++ (searchAll hit act goOn miss ts s).2.1,
        (searchAll hit act goOn miss ts s).2.2) := by
  induction before with
  | nil => rfl
  | cons t before inductionHypothesis =>
      simp only [List.flatMap_cons, List.mem_append] at noHit
      have here : search hit act goOn miss t s = (miss, t, s) :=
        search_of_no_hit missGoesOn (fun a present => noHit a (Or.inl present)) s
      have tail := inductionHypothesis fun a present => noHit a (Or.inr present)
      rw [List.cons_append, searchAll_cons, here, if_pos missGoesOn, tail]
      rfl

/-- The search reaches the first hit and stops there when its action does not
ask to go on. -/
theorem search_plug_of_stop
    (missGoesOn : goOn miss = true)
    {c : Context α}
    {u : RoseTree α}
    {s : σ}
    (hitHere : hit u.label = true)
    (noneBefore : ∀ a ∈ visited c, hit a = false)
    (stops : goOn (act u s).1 = false) :
    search hit act goOn miss (plug c u) s =
      ((act u s).1, plug c (act u s).2.1, (act u s).2.2) := by
  induction c with
  | nil => exact search_of_hit hitHere s
  | cons f c inductionHypothesis =>
      simp only [visited_cons, List.mem_cons, List.mem_append,
        forall_eq_or_imp] at noneBefore
      have inner := inductionHypothesis fun a present =>
        noneBefore.2 a (Or.inr present)
      rw [plug_cons, search_node_of_not_hit noneBefore.1,
        searchAll_append_of_no_hit missGoesOn
          (fun a present => noneBefore.2 a (Or.inl present)),
        searchAll_cons, inner, if_neg (by simp [stops])]
      rfl

/-- When the only hit answers with a miss, the search misses but keeps what the
action wrote. -/
theorem search_plug_of_miss
    (missGoesOn : goOn miss = true)
    {c : Context α}
    {u : RoseTree α}
    {s : σ}
    (hitHere : hit u.label = true)
    (noneBefore : ∀ a ∈ visited c, hit a = false)
    (noneAfter : ∀ a ∈ unvisited c, hit a = false)
    (answer : (act u s).1 = miss) :
    search hit act goOn miss (plug c u) s =
      (miss, plug c (act u s).2.1, (act u s).2.2) := by
  induction c with
  | nil =>
      rw [plug_nil, search_of_hit hitHere, ← answer]
      rfl
  | cons f c inductionHypothesis =>
      simp only [visited_cons, unvisited_cons, List.mem_cons, List.mem_append,
        forall_eq_or_imp] at noneBefore noneAfter
      have inner := inductionHypothesis
        (fun a present => noneBefore.2 a (Or.inr present))
        (fun a present => noneAfter a (Or.inl present))
      rw [plug_cons, search_node_of_not_hit noneBefore.1,
        searchAll_append_of_no_hit missGoesOn
          (fun a present => noneBefore.2 a (Or.inl present)),
        searchAll_cons, inner, if_pos missGoesOn,
        searchAll_of_no_hit missGoesOn fun a present =>
          noneAfter a (Or.inr present)]
      rfl

/-- A search with a single hit is the action of that hit, when every answer that
asks to go on is a miss. -/
theorem search_plug_of_unique
    (missGoesOn : goOn miss = true)
    {c : Context α}
    {u : RoseTree α}
    {s : σ}
    (hitHere : hit u.label = true)
    (noneBefore : ∀ a ∈ visited c, hit a = false)
    (noneAfter : ∀ a ∈ unvisited c, hit a = false)
    (answer : goOn (act u s).1 = true → (act u s).1 = miss) :
    search hit act goOn miss (plug c u) s =
      ((act u s).1, plug c (act u s).2.1, (act u s).2.2) := by
  cases goes : goOn (act u s).1 with
  | false => exact search_plug_of_stop missGoesOn hitHere noneBefore goes
  | true =>
      rw [search_plug_of_miss missGoesOn hitHere noneBefore noneAfter
        (answer goes), answer goes]

/-- A tree with a hit splits at its first one. -/
theorem exists_first_hit
    {t : RoseTree α}
    (someHit : ∃ a ∈ t.preorder, hit a = true) :
    ∃ c u, t = plug c u ∧ hit u.label = true ∧
      ∀ a ∈ visited c, hit a = false := by
  induction t with
  | node a ts inductionHypothesis =>
      cases hitHere : hit a with
      | true => exact ⟨[], .node a ts, rfl, hitHere, by simp⟩
      | false =>
          simp only [preorder_node, List.mem_cons, List.mem_flatMap] at someHit
          have someTree : ∃ t ∈ ts, ∃ b ∈ t.preorder, hit b = true := by
            obtain ⟨b, rfl | ⟨t, member, present⟩, hitThere⟩ := someHit
            · simp [hitHere] at hitThere
            · exact ⟨t, member, b, present, hitThere⟩
          obtain ⟨before, t, after, rfl, someInside, noneBefore⟩ :
              ∃ before t after, ts = before ++ t :: after ∧
                (∃ b ∈ t.preorder, hit b = true) ∧
                ∀ u ∈ before, ∀ b ∈ u.preorder, hit b = false := by
            clear inductionHypothesis someHit
            induction ts with
            | nil => simp at someTree
            | cons t ts tailHypothesis =>
                by_cases inside : ∃ b ∈ t.preorder, hit b = true
                · exact ⟨[], t, ts, rfl, inside, by simp⟩
                · have further : ∃ u ∈ ts, ∃ b ∈ u.preorder, hit b = true := by
                    obtain ⟨u, member, witness⟩ := someTree
                    rcases List.mem_cons.mp member with rfl | inTail
                    · exact absurd witness inside
                    · exact ⟨u, inTail, witness⟩
                  obtain ⟨before, v, after, equal, found, none⟩ :=
                    tailHypothesis further
                  refine ⟨t :: before, v, after, by rw [equal]; rfl, found, ?_⟩
                  intro u member b present
                  rcases List.mem_cons.mp member with rfl | inTail
                  · cases value : hit b with
                    | false => rfl
                    | true => exact absurd ⟨b, present, value⟩ inside
                  · exact none u inTail b present
          obtain ⟨c, u, rfl, hitThere, noneInside⟩ :=
            inductionHypothesis t (by simp) someInside
          refine ⟨⟨a, before, after⟩ :: c, u, rfl, hitThere, ?_⟩
          simp only [visited_cons, List.mem_cons, List.mem_append,
            List.mem_flatMap]
          rintro b (rfl | ⟨v, member, present⟩ | present)
          · exact hitHere
          · exact noneBefore v member b present
          · exact noneInside b present

/-- The first label in preorder that is hit is the label of the first subtree that
is hit. -/
theorem exists_plug_of_find?
    {t : RoseTree α}
    {a : α}
    (first : t.preorder.find? hit = some a) :
    ∃ c ts, t = plug c (.node a ts) ∧ ∀ b ∈ visited c, hit b = false := by
  obtain ⟨c, u, rfl, hitHere, noneBefore⟩ :=
    exists_first_hit ⟨a, List.mem_of_find?_eq_some first, List.find?_some first⟩
  have absent : (visited c).find? hit = none := by simpa using noneBefore
  rw [preorder_plug, List.find?_append, List.find?_append, absent,
    preorder_eq_label_cons, List.find?_cons_of_pos hitHere] at first
  cases first
  exact ⟨c, u.children, by rw [node_label_children], noneBefore⟩

/-- A first hit is still first after its subtree is replaced by one whose label is
hit. -/
theorem find?_preorder_plug
    {c : Context α}
    (noneBefore : ∀ b ∈ visited c, hit b = false)
    {a : α}
    (hitHere : hit a = true)
    (ts : List (RoseTree α)) :
    (plug c (.node a ts)).preorder.find? hit = some a := by
  have absent : (visited c).find? hit = none := by simpa using noneBefore
  rw [preorder_plug, List.find?_append, List.find?_append, absent,
    preorder_node, List.find?_cons_of_pos hitHere]
  rfl

/-- When an action that asks to go on changes nothing, the search either misses
without effect or acts at one subtree. -/
theorem search_of_inert
    (inert : ∀ u s, goOn (act u s).1 = true → act u s = (miss, u, s))
    (missGoesOn : goOn miss = true)
    (t : RoseTree α)
    (s : σ) :
    search hit act goOn miss t s = (miss, t, s) ∨
      ∃ c u, t = plug c u ∧ hit u.label = true ∧ goOn (act u s).1 = false ∧
        search hit act goOn miss t s =
          ((act u s).1, plug c (act u s).2.1, (act u s).2.2) := by
  induction t with
  | node a ts inductionHypothesis =>
      cases hitHere : hit a with
      | true =>
          cases goes : goOn (act (.node a ts) s).1 with
          | true =>
              left
              rw [search_node_of_hit hitHere, inert _ _ goes]
          | false =>
              right
              exact ⟨[], .node a ts, rfl, hitHere, goes, search_node_of_hit hitHere ts s⟩
      | false =>
          have below : searchAll hit act goOn miss ts s = (miss, ts, s) ∨
              ∃ before c u after, ts = before ++ plug c u :: after ∧
                hit u.label = true ∧ goOn (act u s).1 = false ∧
                searchAll hit act goOn miss ts s =
                  ((act u s).1, before ++ plug c (act u s).2.1 :: after,
                    (act u s).2.2) := by
            clear hitHere
            induction ts with
            | nil => exact Or.inl rfl
            | cons t ts tailHypothesis =>
                rw [searchAll_cons]
                rcases inductionHypothesis t List.mem_cons_self with
                  missed | ⟨c, u, rfl, hitThere, stops, found⟩
                · rw [missed, if_pos missGoesOn]
                  rcases tailHypothesis fun v member =>
                      inductionHypothesis v (List.mem_cons_of_mem t member) with
                    missedAll | ⟨before, c, u, after, rfl, hitThere, stops, found⟩
                  · exact Or.inl (by rw [missedAll])
                  · exact Or.inr ⟨t :: before, c, u, after, rfl, hitThere, stops,
                      by rw [found]; rfl⟩
                · exact Or.inr ⟨[], c, u, ts, rfl, hitThere, stops,
                    by rw [found, if_neg (by simp [stops])]; rfl⟩
          rw [search_node_of_not_hit hitHere]
          rcases below with missed | ⟨before, c, u, after, rfl, hitThere, stops, found⟩
          · exact Or.inl (by rw [missed])
          · exact Or.inr ⟨⟨a, before, after⟩ :: c, u, rfl, hitThere, stops,
              by rw [found]; rfl⟩

/-- What every action keeps of the label of its tree, the search keeps. -/
theorem label_search {f : α → β}
    (keeps : ∀ t s, f (act t s).2.1.label = f t.label)
    (t : RoseTree α) (s : σ) :
    f (search hit act goOn miss t s).2.1.label = f t.label := by
  cases t with
  | node a ts =>
      cases hitHere : hit a with
      | true =>
          rw [search_node_of_hit hitHere]
          exact keeps (.node a ts) s
      | false =>
          rw [search_node_of_not_hit hitHere]
          rfl

/-- A property of trees that survives changes of subtrees is kept by a search whose
actions keep it. -/
theorem search_keeps {good : RoseTree α → Prop} {f : α → β}
    (child : ∀ {a ts}, good (node a ts) → ∀ t ∈ ts, good t)
    (replace : ∀ {a ts us}, good (node a ts) → (∀ t ∈ us, good t) →
      us.map (fun t => f t.label) = ts.map (fun t => f t.label) → good (node a us))
    (label : ∀ t s, f (act t s).2.1.label = f t.label)
    (keeps : ∀ t s, hit t.label = true → good t → good (act t s).2.1)
    {t : RoseTree α} (start : good t) (s : σ) :
    good (search hit act goOn miss t s).2.1 := by
  induction t generalizing s with
  | node a ts inductionHypothesis =>
      cases hitHere : hit a with
      | true =>
          rw [search_node_of_hit hitHere]
          exact keeps _ s hitHere start
      | false =>
          have all : ∀ us : List (RoseTree α), (∀ t ∈ us, t ∈ ts) → ∀ s,
              (∀ t ∈ (searchAll hit act goOn miss us s).2.1, good t) ∧
                (searchAll hit act goOn miss us s).2.1.map (fun t => f t.label) =
                  us.map (fun t => f t.label) := by
            intro us members
            induction us with
            | nil => exact fun s => ⟨by simp [searchAll], rfl⟩
            | cons t us tailHypothesis =>
                intro s
                have member := members t List.mem_cons_self
                have others := fun u later => members u (List.mem_cons_of_mem t later)
                have here := inductionHypothesis t member (child start t member) s
                have sameLabel := @label_search _ _ _ hit act goOn miss _ f label t s
                rw [searchAll_cons]
                split
                · obtain ⟨later, sameLabels⟩ := tailHypothesis others
                    (search hit act goOn miss t s).2.2
                  exact ⟨List.forall_mem_cons.mpr ⟨here, later⟩,
                    by rw [List.map_cons, List.map_cons, sameLabel, sameLabels]⟩
                · refine ⟨List.forall_mem_cons.mpr ⟨here, fun u later => ?_⟩, ?_⟩
                  · exact child start u (others u later)
                  · rw [List.map_cons, List.map_cons, sameLabel]
          obtain ⟨below, sameLabels⟩ := all ts (fun _ member => member) s
          rw [search_node_of_not_hit hitHere]
          exact replace start below sameLabels

/-- What every action keeps, the search of a list of trees keeps when the search of each
does. -/
private theorem searchAll_preserves {invariant : σ → Prop} {ts : List (RoseTree α)}
    (each : ∀ t ∈ ts, ∀ s, invariant s → invariant (search hit act goOn miss t s).2.2)
    {s : σ} (start : invariant s) :
    invariant (searchAll hit act goOn miss ts s).2.2 := by
  induction ts generalizing s with
  | nil => exact start
  | cons t ts inductionHypothesis =>
      have here := each t List.mem_cons_self s start
      rw [searchAll_cons]
      split
      · exact inductionHypothesis (fun u member => each u (List.mem_cons_of_mem t member)) here
      · exact here

/-- What every action keeps, the search keeps. -/
theorem search_preserves {invariant : σ → Prop}
    (keeps : ∀ t s, invariant s → invariant (act t s).2.2)
    (t : RoseTree α) {s : σ} (start : invariant s) :
    invariant (search hit act goOn miss t s).2.2 := by
  induction t generalizing s with
  | node a ts inductionHypothesis =>
      cases hitHere : hit a with
      | true =>
          rw [search_node_of_hit hitHere]
          exact keeps _ s start
      | false =>
          rw [search_node_of_not_hit hitHere]
          exact searchAll_preserves (fun t member s start => inductionHypothesis t member start)
            start

private theorem searchAll_maintains {good : α → Prop} {invariant : σ → Prop}
    {ts : List (RoseTree α)}
    (each : ∀ t ∈ ts, ∀ s, (∀ a ∈ t.preorder, good a) → invariant s →
      (∀ a ∈ (search hit act goOn miss t s).2.1.preorder, good a) ∧
        invariant (search hit act goOn miss t s).2.2)
    {s : σ} (labels : ∀ a ∈ ts.flatMap preorder, good a) (start : invariant s) :
    (∀ a ∈ (searchAll hit act goOn miss ts s).2.1.flatMap preorder, good a) ∧
      invariant (searchAll hit act goOn miss ts s).2.2 := by
  induction ts generalizing s with
  | nil => exact ⟨labels, start⟩
  | cons t ts inductionHypothesis =>
      rw [List.flatMap_cons, List.forall_mem_append] at labels
      have first := each t List.mem_cons_self s labels.1 start
      rw [searchAll_cons]
      split
      · have rest := inductionHypothesis
          (fun u member => each u (List.mem_cons_of_mem t member)) labels.2 first.2
        rw [List.flatMap_cons, List.forall_mem_append]
        exact ⟨⟨first.1, rest.1⟩, rest.2⟩
      · rw [List.flatMap_cons, List.forall_mem_append]
        exact ⟨⟨first.1, labels.2⟩, first.2⟩

/-- A search keeps a property of every label together with a property of the state, when
its action does. -/
theorem search_maintains {good : α → Prop} {invariant : σ → Prop}
    (acts : ∀ t s, (∀ a ∈ t.preorder, good a) → invariant s →
      (∀ a ∈ (act t s).2.1.preorder, good a) ∧ invariant (act t s).2.2)
    {t : RoseTree α} (labels : ∀ a ∈ t.preorder, good a) {s : σ} (start : invariant s) :
    (∀ a ∈ (search hit act goOn miss t s).2.1.preorder, good a) ∧
      invariant (search hit act goOn miss t s).2.2 := by
  induction t using RoseTree.induction generalizing s with
  | node a ts inductionHypothesis =>
      cases hitHere : hit a with
      | true =>
          rw [search_node_of_hit hitHere]
          exact acts (.node a ts) s labels start
      | false =>
          rw [search_node_of_not_hit hitHere]
          rw [preorder_node, List.forall_mem_cons] at labels
          have below := searchAll_maintains
            (fun u member s labels start => inductionHypothesis u member labels start)
            labels.2 start
          simp only [preorder_node, List.forall_mem_cons]
          exact ⟨⟨labels.1, below.1⟩, below.2⟩

/-- A search keeps a property of every label that its action keeps. -/
theorem search_labels {good : α → Prop}
    (acts : ∀ t s, (∀ a ∈ t.preorder, good a) → ∀ a ∈ (act t s).2.1.preorder, good a)
    {t : RoseTree α} (labels : ∀ a ∈ t.preorder, good a) (s : σ) :
    ∀ a ∈ (search hit act goOn miss t s).2.1.preorder, good a := by
  have both := @search_maintains _ _ _ hit act goOn miss good (fun _ => True)
    (fun t s labels _ => ⟨acts t s labels, trivial⟩) t labels s trivial
  exact both.1

/-- What every action brings about holds after a search with a hit. -/
theorem search_establishes {outcome : σ → Prop}
    (missGoesOn : goOn miss = true)
    (acts : ∀ t s, outcome (act t s).2.2)
    {t : RoseTree α}
    (someHit : ∃ a ∈ t.preorder, hit a = true)
    (s : σ) :
    outcome (search hit act goOn miss t s).2.2 := by
  induction t generalizing s with
  | node a ts inductionHypothesis =>
      cases hitHere : hit a with
      | true =>
          rw [search_node_of_hit hitHere]
          exact acts _ s
      | false =>
          rw [search_node_of_not_hit hitHere]
          have someTree : ∃ t ∈ ts, ∃ b ∈ t.preorder, hit b = true := by
            obtain ⟨b, present, hitThere⟩ := someHit
            rw [preorder_node, List.mem_cons, List.mem_flatMap] at present
            rcases present with rfl | ⟨t, member, inside⟩
            · rw [hitHere] at hitThere
              cases hitThere
            · exact ⟨t, member, b, inside, hitThere⟩
          clear someHit
          induction ts generalizing s with
          | nil => simp at someTree
          | cons t ts tailHypothesis =>
              have keepsOn := fun (u : RoseTree α) (s : σ) (before : outcome s) =>
                @search_preserves _ _ _ hit act goOn miss outcome (fun t s _ => acts t s) u s
                  before
              rw [searchAll_cons]
              obtain ⟨u, member, inside⟩ := someTree
              by_cases inFirst : ∃ b ∈ t.preorder, hit b = true
              · have here := inductionHypothesis t List.mem_cons_self inFirst s
                split
                · exact searchAll_preserves (fun u _ s before => keepsOn u s before) here
                · exact here
              · have noHit : ∀ b ∈ t.preorder, hit b = false := by
                  intro b present
                  cases value : hit b with
                  | false => rfl
                  | true => exact absurd ⟨b, present, value⟩ inFirst
                rw [search_of_no_hit missGoesOn noHit, if_pos missGoesOn]
                apply tailHypothesis
                  (fun u member => inductionHypothesis u (List.mem_cons_of_mem t member))
                rcases List.mem_cons.mp member with rfl | inTail
                · exact absurd inside inFirst
                · exact ⟨u, inTail, inside⟩

/-- Searching for a key that only one label has, with an action that only rewrites
that label, is a relabelling. -/
theorem search_eq_map_of_unique
    [DecidableEq κ]
    {key : α → κ}
    (missGoesOn : goOn miss = true)
    {t : RoseTree α}
    {a : α}
    (unique : t.preorder.filter (fun b => key b = key a) = [a])
    {f : α → α}
    {answer : ρ}
    {s s' : σ}
    (acts : ∀ ts, act (.node a ts) s = (answer, .node (f a) ts, s'))
    (missed : goOn answer = true → answer = miss) :
    search (fun b => key b = key a) act goOn miss t s =
      (answer, t.map (fun b => if key b = key a then f b else b), s') := by
  have present : a ∈ t.preorder := by
    have isOnly : a ∈ t.preorder.filter (fun b => key b = key a) := by simp [unique]
    exact (List.mem_filter.mp isOnly).1
  obtain ⟨c, ts, rfl⟩ := exists_plug_of_mem_preorder present
  obtain ⟨_, noneBefore, noneBelow, noneAfter⟩ := apart_of_filter_eq_singleton unique
  have found : search (fun b => decide (key b = key a)) act goOn miss
      (plug c (.node a ts)) s =
        ((act (.node a ts) s).1, plug c (act (.node a ts) s).2.1,
          (act (.node a ts) s).2.2) :=
    search_plug_of_unique missGoesOn (by simp) noneBefore noneAfter
      (by rw [acts ts]; exact missed)
  simp only [decide_eq_false_iff_not] at noneBefore noneBelow noneAfter
  rw [found, acts ts, map_plug _ _ _
    (fun b member => if_neg (noneBefore b member))
    (fun b member => if_neg (noneAfter b member)), map_node, if_pos rfl]
  have below : ts.map (map fun b => if key b = key a then f b else b) = ts := by
    conv_rhs => rw [← List.map_id ts]
    exact List.map_congr_left fun t member => map_eq_self fun b inside =>
      if_neg (noneBelow b (List.mem_flatMap.mpr ⟨t, member, inside⟩))
  rw [below]

/-! ## Two searches -/

/-- Searches with related actions, from related states, give related answers and related
states. -/
theorem search_related {σ' : Type*} {ρ' : Type*}
    {act' : RoseTree α → σ' → ρ' × RoseTree α × σ'} {goOn' : ρ' → Bool} {miss' : ρ'}
    {answers : ρ → ρ' → Prop} {states : σ → σ' → Prop}
    (misses : answers miss miss')
    (goTogether : ∀ answer answer', answers answer answer' → goOn answer = goOn' answer')
    (acts : ∀ t s s', states s s' →
      answers (act t s).1 (act' t s').1 ∧ states (act t s).2.2 (act' t s').2.2)
    (t : RoseTree α) {s : σ} {s' : σ'} (related : states s s') :
    answers (search hit act goOn miss t s).1 (search hit act' goOn' miss' t s').1 ∧
      states (search hit act goOn miss t s).2.2 (search hit act' goOn' miss' t s').2.2 := by
  induction t generalizing s s' with
  | node a ts inductionHypothesis =>
      cases hitHere : hit a with
      | true =>
          rw [search_node_of_hit hitHere, search_node_of_hit hitHere]
          exact acts _ s s' related
      | false =>
          rw [search_node_of_not_hit hitHere, search_node_of_not_hit hitHere]
          simp only
          induction ts generalizing s s' with
          | nil => exact ⟨misses, related⟩
          | cons t ts tailHypothesis =>
              obtain ⟨answer, next⟩ := inductionHypothesis t List.mem_cons_self related
              have later := tailHypothesis
                (fun u member => inductionHypothesis u (List.mem_cons_of_mem t member)) next
              rw [searchAll_cons, searchAll_cons, goTogether _ _ answer]
              split
              · exact later
              · exact ⟨answer, next⟩

/-- After its first hit a search depends only on what that action answers and leaves. -/
theorem search_congr_first
    (missGoesOn : goOn miss = true)
    {c : Context α}
    {u : RoseTree α}
    {s s' : σ}
    (hitHere : hit u.label = true)
    (noneBefore : ∀ a ∈ visited c, hit a = false)
    (answer : (act u s).1 = (act u s').1)
    (state : (act u s).2.2 = (act u s').2.2) :
    (search hit act goOn miss (plug c u) s).1 = (search hit act goOn miss (plug c u) s').1 ∧
      (search hit act goOn miss (plug c u) s).2.2 =
        (search hit act goOn miss (plug c u) s').2.2 := by
  induction c with
  | nil =>
      rw [plug_nil, search_of_hit hitHere, search_of_hit hitHere]
      exact ⟨answer, state⟩
  | cons f c inductionHypothesis =>
      simp only [visited_cons, List.mem_cons, List.mem_append,
        forall_eq_or_imp] at noneBefore
      obtain ⟨answers, states⟩ := inductionHypothesis fun a present =>
        noneBefore.2 a (Or.inr present)
      have passed := fun s => @searchAll_append_of_no_hit _ _ _ hit act goOn miss missGoesOn
        f.before (fun a present => noneBefore.2 a (Or.inl present)) (plug c u :: f.after) s
      rw [plug_cons, search_node_of_not_hit noneBefore.1, search_node_of_not_hit noneBefore.1,
        passed, passed, searchAll_cons, searchAll_cons, answers, states]
      split <;> exact ⟨rfl, rfl⟩

/-! ## Where the action ran -/

/-- An action that also records the subtrees it ran on. -/
def recorded (act : RoseTree α → σ → ρ × RoseTree α × σ) (t : RoseTree α)
    (s : σ × List (RoseTree α)) : ρ × RoseTree α × σ × List (RoseTree α) :=
  ((act t s.1).1, (act t s.1).2.1, (act t s.1).2.2, s.2 ++ [t])

/-- A search is not changed by recording where its action ran. -/
theorem search_recorded (t : RoseTree α) (s : σ × List (RoseTree α)) :
    search hit act goOn miss t s.1 =
      ((search hit (recorded act) goOn miss t s).1,
        (search hit (recorded act) goOn miss t s).2.1,
        (search hit (recorded act) goOn miss t s).2.2.1) := by
  induction t generalizing s with
  | node a ts inductionHypothesis =>
      cases hitHere : hit a with
      | true =>
          rw [search_node_of_hit hitHere, search_node_of_hit hitHere]
          rfl
      | false =>
          have all : searchAll hit act goOn miss ts s.1 =
              ((searchAll hit (recorded act) goOn miss ts s).1,
                (searchAll hit (recorded act) goOn miss ts s).2.1,
                (searchAll hit (recorded act) goOn miss ts s).2.2.1) := by
            induction ts generalizing s with
            | nil => rfl
            | cons t ts tailHypothesis =>
                have here := inductionHypothesis t List.mem_cons_self s
                have later := tailHypothesis
                  (fun u member => inductionHypothesis u (List.mem_cons_of_mem t member))
                  (search hit (recorded act) goOn miss t s).2.2
                rw [searchAll_cons, searchAll_cons, here]
                simp only [later]
                split <;> rfl
          rw [search_node_of_not_hit hitHere, search_node_of_not_hit hitHere, all]

end Search

end RoseTree
end Notebook
