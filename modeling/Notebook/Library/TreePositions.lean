import Notebook.Library.KeyedList
import Notebook.Library.RoseTree

/-!
# Positions in rose trees

A position is the list of child indices that leads to a node from the root.
-/

namespace Notebook

/-- Child indices from the root down to a node. -/
abbrev Position := List Nat

namespace RoseTree

/-- The subtree at a position, if the position is in the tree. -/
def subtreeAt : Position → RoseTree α → Option (RoseTree α)
  | [], t => some t
  | i :: p, t => t.children[i]?.bind (subtreeAt p)

/-- Rewrite the subtree at a position. -/
def modifyAt (f : RoseTree α → RoseTree α) : Position → RoseTree α → RoseTree α
  | [], t => f t
  | i :: p, t => .node t.label (t.children.modify i (modifyAt f p))

@[simp] theorem subtreeAt_nil (t : RoseTree α) : subtreeAt [] t = some t := rfl

@[simp] theorem subtreeAt_cons (i : Nat) (p : Position) (t : RoseTree α) :
    subtreeAt (i :: p) t = t.children[i]?.bind (subtreeAt p) := rfl

@[simp] theorem modifyAt_nil (f : RoseTree α → RoseTree α) (t : RoseTree α) :
    modifyAt f [] t = f t := rfl

@[simp] theorem modifyAt_cons (f : RoseTree α → RoseTree α) (i : Nat) (p : Position)
    (t : RoseTree α) :
    modifyAt f (i :: p) t = .node t.label (t.children.modify i (modifyAt f p)) := rfl

theorem subtreeAt_append (p q : Position) (t : RoseTree α) :
    subtreeAt (p ++ q) t = (subtreeAt p t).bind (subtreeAt q) := by
  induction p generalizing t with
  | nil => rfl
  | cons i p inductionHypothesis =>
      rw [List.cons_append, subtreeAt_cons, subtreeAt_cons]
      cases t.children[i]? with
      | none => rfl
      | some u => exact inductionHypothesis u

theorem modifyAt_append (f : RoseTree α → RoseTree α) (p q : Position)
    (t : RoseTree α) :
    modifyAt f (p ++ q) t = modifyAt (modifyAt f q) p t := by
  induction p generalizing t with
  | nil => rfl
  | cons i p inductionHypothesis =>
      rw [List.cons_append, modifyAt_cons, modifyAt_cons]
      congr 2
      funext u
      exact inductionHypothesis u

/-- The rewritten subtree is found where the old one was. -/
theorem subtreeAt_modifyAt {p : Position} {t u : RoseTree α}
    (found : subtreeAt p t = some u) (f : RoseTree α → RoseTree α) :
    subtreeAt p (modifyAt f p t) = some (f u) := by
  induction p generalizing t with
  | nil =>
      cases found
      rfl
  | cons i p inductionHypothesis =>
      obtain ⟨child, here, below⟩ := Option.bind_eq_some_iff.mp found
      rw [modifyAt_cons, subtreeAt_cons, children_node, List.getElem?_modify, here]
      simpa using inductionHypothesis below

/-- The position of the hole of a context. -/
def holePosition (c : Context α) : Position :=
  c.map fun f => f.before.length

theorem subtreeAt_plug (c : Context α) (t : RoseTree α) :
    subtreeAt (holePosition c) (plug c t) = some t := by
  induction c with
  | nil => rfl
  | cons f c inductionHypothesis =>
      rw [holePosition, List.map_cons, plug_cons, subtreeAt_cons, children_node,
        List.getElem?_append_right (Nat.le_refl _), Nat.sub_self]
      exact inductionHypothesis

/-- The subtree at a position fills the hole of a context. -/
theorem exists_plug_of_subtreeAt {p : Position} {t u : RoseTree α}
    (found : subtreeAt p t = some u) : ∃ c, t = plug c u ∧ holePosition c = p := by
  induction p generalizing t with
  | nil => exact ⟨[], Option.some.inj found, rfl⟩
  | cons i p inductionHypothesis =>
      obtain ⟨child, here, below⟩ := Option.bind_eq_some_iff.mp found
      obtain ⟨c, rfl, rfl⟩ := inductionHypothesis below
      obtain ⟨before, after, children, rfl⟩ := exists_split_of_getElem? here
      refine ⟨⟨t.label, before, after⟩ :: c, ?_, rfl⟩
      rw [plug_cons, ← children, node_label_children]

/-- Rewriting the subtree at the hole refills the context. -/
theorem modifyAt_plug (f : RoseTree α → RoseTree α) (c : Context α) (t : RoseTree α) :
    modifyAt f (holePosition c) (plug c t) = plug c (f t) := by
  induction c with
  | nil => rfl
  | cons frame c inductionHypothesis =>
      rw [holePosition, List.map_cons, plug_cons, modifyAt_cons, plug_cons, children_node,
        label_node, KeyedList.modify_append_cons, ← inductionHypothesis]
      rfl

/-- A property of the labels below the root survives a rewriting that keeps it and keeps the
label of the subtree. -/
theorem forall_descendants_modifyAt {P : α → Prop} (f : RoseTree α → RoseTree α)
    (label : ∀ u, (f u).label = u.label)
    (keeps : ∀ u, (∀ a ∈ u.descendants, P a) → ∀ a ∈ (f u).descendants, P a)
    (p : Position) {t : RoseTree α} (all : ∀ a ∈ t.descendants, P a) :
    (modifyAt f p t).label = t.label ∧ ∀ a ∈ (modifyAt f p t).descendants, P a := by
  induction p generalizing t with
  | nil => exact ⟨label t, keeps t all⟩
  | cons i p inductionHypothesis =>
      refine ⟨rfl, fun a below => ?_⟩
      obtain ⟨child, isChild, inChild⟩ := List.mem_flatMap.mp below
      obtain ⟨j, read⟩ := List.getElem?_of_mem isChild
      rw [modifyAt_cons, children_node, List.getElem?_modify] at read
      obtain ⟨old, readOld, rfl⟩ := Option.map_eq_some_iff.mp read
      have member := List.mem_of_getElem? readOld
      have inOld : ∀ b ∈ old.preorder, P b := fun b inside =>
        all b (List.mem_flatMap.mpr ⟨old, member, inside⟩)
      split at inChild
      · obtain ⟨sameLabel, further⟩ := inductionHypothesis
          fun b below => inOld b (mem_preorder_of_mem_descendants below)
        rw [preorder_eq_label_cons, List.mem_cons, sameLabel] at inChild
        rcases inChild with rfl | below
        · exact inOld _ old.label_mem_preorder
        · exact further a below
      · exact inOld a inChild

/-! ## Places of labels -/

variable {hit : α → Bool}

mutual

/-- Positions of the nodes whose labels are hit, in preorder. -/
def places (hit : α → Bool) : RoseTree α → List Position
  | .node a ts => (if hit a then [[]] else []) ++ placesFrom hit 0 ts

/-- Positions of the nodes that are hit in a list of subtrees, counted from a given
index. -/
def placesFrom (hit : α → Bool) : Nat → List (RoseTree α) → List Position
  | _, [] => []
  | i, t :: ts => (places hit t).map (i :: ·) ++ placesFrom hit (i + 1) ts

end

theorem places_node (a : α) (ts : List (RoseTree α)) :
    places hit (.node a ts) = (if hit a then [[]] else []) ++ placesFrom hit 0 ts := by
  rw [places]

/-- A position occurs among the places exactly when its label is hit. -/
theorem mem_places_iff {p : Position} {t : RoseTree α} :
    p ∈ places hit t ↔ ∃ u, subtreeAt p t = some u ∧ hit u.label = true := by
  induction t generalizing p with
  | node a ts inductionHypothesis =>
      have inChildren : ∀ i, p ∈ placesFrom hit i ts ↔
          ∃ j q t, p = (i + j) :: q ∧ ts[j]? = some t ∧ q ∈ places hit t := by
        intro i
        clear inductionHypothesis
        induction ts generalizing i with
        | nil => simp [placesFrom]
        | cons t ts inductionHypothesis =>
            rw [placesFrom, List.mem_append, inductionHypothesis, List.mem_map]
            constructor
            · rintro (⟨q, member, rfl⟩ | ⟨j, q, u, rfl, read, member⟩)
              · exact ⟨0, q, t, rfl, rfl, member⟩
              · exact ⟨j + 1, q, u, by rw [Nat.add_assoc, Nat.add_comm 1 j], read, member⟩
            · rintro ⟨j, q, u, rfl, read, member⟩
              cases j with
              | zero =>
                  cases read
                  exact Or.inl ⟨q, member, rfl⟩
              | succ j =>
                  exact Or.inr ⟨j, q, u, by rw [Nat.add_assoc, Nat.add_comm 1 j], read, member⟩
      rw [places_node, List.mem_append, inChildren 0]
      cases p with
      | nil => cases hitHere : hit a <;> simp [hitHere]
      | cons i p =>
          rw [subtreeAt_cons, children_node]
          have notRoot : i :: p ∉ (if hit a = true then [[]] else []) := by
            split <;> simp
          simp only [notRoot, false_or, Nat.zero_add, List.cons.injEq]
          constructor
          · rintro ⟨j, q, t, ⟨rfl, rfl⟩, read, member⟩
            obtain ⟨u, found, hitThere⟩ :=
              (inductionHypothesis t (List.mem_of_getElem? read)).mp member
            exact ⟨u, by rw [read]; exact found, hitThere⟩
          · rintro ⟨u, found, hitThere⟩
            obtain ⟨t, read, inside⟩ := Option.bind_eq_some_iff.mp found
            exact ⟨i, p, t, ⟨rfl, rfl⟩, read,
              (inductionHypothesis t (List.mem_of_getElem? read)).mpr ⟨u, inside, hitThere⟩⟩

/-- No position occurs twice among the places. -/
theorem nodup_places (t : RoseTree α) : (places hit t).Nodup := by
  induction t with
  | node a ts inductionHypothesis =>
      have fromChildren : ∀ i, (placesFrom hit i ts).Nodup ∧
          ∀ p ∈ placesFrom hit i ts, ∃ j q, i ≤ j ∧ p = j :: q := by
        intro i
        induction ts generalizing i with
        | nil => simp [placesFrom]
        | cons t ts listHypothesis =>
            obtain ⟨nodup, later⟩ := listHypothesis
              (fun u member => inductionHypothesis u (List.mem_cons_of_mem t member)) (i + 1)
            rw [placesFrom, List.nodup_append]
            refine ⟨⟨?_, nodup, ?_⟩, ?_⟩
            · exact (inductionHypothesis t List.mem_cons_self).map
                (fun p q equal => (List.cons.inj equal).2)
            · rintro p first q second rfl
              obtain ⟨r, _, rfl⟩ := List.mem_map.mp first
              obtain ⟨j, s, bound, equal⟩ := later _ second
              have sameIndex := (List.cons.inj equal).1
              omega
            · intro p member
              rcases List.mem_append.mp member with first | second
              · obtain ⟨q, _, rfl⟩ := List.mem_map.mp first
                exact ⟨i, q, Nat.le_refl i, rfl⟩
              · obtain ⟨j, q, bound, rfl⟩ := later p second
                exact ⟨j, q, by omega, rfl⟩
      obtain ⟨nodup, below⟩ := fromChildren 0
      rw [places_node]
      split
      · rw [List.singleton_append, List.nodup_cons]
        refine ⟨?_, nodup⟩
        intro member
        obtain ⟨j, q, _, equal⟩ := below [] member
        cases equal
      · exact nodup

/-- The children of a node with their positions, counted from a given index. -/
def placed (i : Nat) (ts : List (RoseTree α)) : List (Position × RoseTree α) :=
  (ts.zipIdx i).map fun entry => ([entry.2], entry.1)

theorem placed_cons (i : Nat) (t : RoseTree α) (ts : List (RoseTree α)) :
    placed i (t :: ts) = ([i], t) :: placed (i + 1) ts := rfl

theorem placed_append (i : Nat) (ts us : List (RoseTree α)) :
    placed i (ts ++ us) = placed i ts ++ placed (i + ts.length) us := by
  rw [placed, List.zipIdx_append, List.map_append]
  rfl

/-- The positions of the nodes that are hit in a subtree with its position. -/
def placesAt (hit : α → Bool) (entry : Position × RoseTree α) : List Position :=
  (places hit entry.2).map (entry.1 ++ ·)

theorem placesFrom_eq_flatMap (i : Nat) (ts : List (RoseTree α)) :
    placesFrom hit i ts = (placed i ts).flatMap (placesAt hit) := by
  induction ts generalizing i with
  | nil => rfl
  | cons t ts inductionHypothesis =>
      rw [placesFrom, inductionHypothesis]
      rfl

/-- The siblings on one side of the child at an index, from the child away. -/
def siblings (backward : Bool) (i : Nat) (ts : List (RoseTree α)) :
    List (Position × RoseTree α) :=
  if backward then ((placed 0 ts).take i).reverse else (placed 0 ts).drop (i + 1)

/-- A subtree with its position, seen from above a position. -/
def under (p : Position) (entry : Position × RoseTree α) : Position × RoseTree α :=
  (p ++ entry.1, entry.2)

theorem placesAt_under (p : Position) (entry : Position × RoseTree α) :
    placesAt hit (under p entry) = (placesAt hit entry).map (p ++ ·) := by
  rw [placesAt, placesAt, List.map_map]
  apply List.map_congr_left
  intro q _
  exact List.append_assoc _ _ _

/-- The subtrees beside the path to a position on one side, with their positions, from
the innermost level outwards and from the path away. -/
def beside (backward : Bool) : Position → RoseTree α → List (Position × RoseTree α)
  | [], _ => []
  | i :: p, t =>
      (match t.children[i]? with
        | some u => (beside backward p u).map (under [i])
        | none => []) ++ siblings backward i t.children

theorem beside_append_singleton (backward : Bool) {p : Position} {t u : RoseTree α}
    (found : subtreeAt p t = some u) (i : Nat) :
    beside backward (p ++ [i]) t =
      (siblings backward i u.children).map (under p) ++ beside backward p t := by
  induction p generalizing t with
  | nil =>
      cases found
      have noPrefix : (under [] : Position × RoseTree α → Position × RoseTree α) = id := rfl
      rw [List.nil_append, noPrefix, List.map_id, beside, List.append_nil, beside]
      split <;> simp [beside]
  | cons j p inductionHypothesis =>
      obtain ⟨child, here, deeper⟩ := Option.bind_eq_some_iff.mp found
      rw [List.cons_append, beside, beside, here]
      simp only [inductionHypothesis deeper, List.map_append, List.map_map,
        List.append_assoc]
      rfl

@[simp] theorem length_placed (i : Nat) (ts : List (RoseTree α)) :
    (placed i ts).length = ts.length := by
  simp [placed]

theorem getElem?_placed (j : Nat) (ts : List (RoseTree α)) :
    (placed 0 ts)[j]? = ts[j]?.map fun t => ([j], t) := by
  rw [placed, List.getElem?_map, List.getElem?_zipIdx, Option.map_map]
  simp [Function.comp_def]

/-- One side of a child is empty when the next index is outside the vector, and starts
with the child at this index otherwise. -/
theorem siblings_cases (backward : Bool) {i : Nat} {ts : List (RoseTree α)}
    (inside : i < ts.length) :
    (siblings backward i ts = [] ∧
        ((i : Int) + (if backward then -1 else 1) < 0 ∨
          (ts.length : Int) ≤ i + (if backward then -1 else 1))) ∨
      ∃ (j : Nat) (t : RoseTree α), (i : Int) + (if backward then -1 else 1) = j ∧ ts[j]? = some t ∧
        siblings backward i ts = ([j], t) :: siblings backward j ts := by
  cases backward with
  | false =>
      by_cases last : i + 1 < ts.length
      · right
        refine ⟨i + 1, ts[i + 1], by simp, List.getElem?_eq_getElem last, ?_⟩
        have read : (placed 0 ts)[i + 1]? = some ([i + 1], ts[i + 1]) := by
          rw [getElem?_placed, List.getElem?_eq_getElem last]
          rfl
        obtain ⟨inPlaced, isEntry⟩ := List.getElem?_eq_some_iff.mp read
        simp only [siblings, Bool.false_eq_true, if_false]
        rw [List.drop_eq_getElem_cons inPlaced, isEntry]
      · left
        refine ⟨List.drop_eq_nil_of_le (by rw [length_placed]; omega), Or.inr ?_⟩
        simp only [Bool.false_eq_true, if_false]
        omega
  | true =>
      cases i with
      | zero =>
          left
          exact ⟨rfl, Or.inl (by simp)⟩
      | succ j =>
          right
          have before : j < ts.length := by omega
          have oneBefore : ((j + 1 : Nat) : Int) + (if true then -1 else 1) = j := by
            rw [if_pos rfl]
            omega
          refine ⟨j, ts[j], oneBefore, List.getElem?_eq_getElem before, ?_⟩
          have read : (placed 0 ts)[j]? = some ([j], ts[j]) := by
            rw [getElem?_placed, List.getElem?_eq_getElem before]
            rfl
          simp only [siblings, if_true]
          rw [List.take_add_one, read, List.reverse_append]
          rfl

/-- The nodes that are hit, around a subtree below nodes that are not: first those beside
the path to the left, then those in the subtree, then those to the right. -/
theorem places_split {p : Position} {t u : RoseTree α}
    (found : subtreeAt p t = some u)
    (notAbove : ∀ q r v, p = q ++ r → r ≠ [] → subtreeAt q t = some v →
      hit v.label = false) :
    places hit t =
      ((beside true p t).flatMap fun entry => (placesAt hit entry).reverse).reverse ++
        ((places hit u).map (p ++ ·) ++ (beside false p t).flatMap (placesAt hit)) := by
  induction p generalizing t with
  | nil =>
      cases found
      simp [beside]
  | cons i p inductionHypothesis =>
      obtain ⟨child, here, deeper⟩ := Option.bind_eq_some_iff.mp found
      have inner := inductionHypothesis deeper (by
        intro q r v split nonempty at_q
        apply notAbove (i :: q) r v (by rw [split]; rfl) nonempty
        rw [subtreeAt_cons, here]
        exact at_q)
      have notHere := notAbove [] (i :: p) t rfl (by simp) rfl
      obtain ⟨inside, isChild⟩ := List.getElem?_eq_some_iff.mp here
      have read : (placed 0 t.children)[i]? = some ([i], child) := by
        rw [getElem?_placed, here]
        rfl
      obtain ⟨inPlaced, isEntry⟩ := List.getElem?_eq_some_iff.mp read
      have whole : placed 0 t.children =
          (placed 0 t.children).take i ++ ([i], child) ::
            (placed 0 t.children).drop (i + 1) := by
        rw [← isEntry, List.getElem_cons_drop, List.take_append_drop]
      conv_lhs => rw [← node_label_children t]
      rw [places_node, notHere, placesFrom_eq_flatMap, whole, beside, beside, here]
      simp only [siblings, Bool.false_eq_true, if_false, if_true, List.nil_append,
        List.flatMap_append, List.flatMap_cons, List.reverse_append, List.flatMap_map]
      have here' : placesAt hit ([i], child) = (places hit child).map ([i] ++ ·) := rfl
      have leftOut : (((placed 0 t.children).take i).reverse.flatMap fun entry =>
          (placesAt hit entry).reverse).reverse =
            ((placed 0 t.children).take i).flatMap (placesAt hit) := by
        rw [List.flatMap_reverse, List.reverse_reverse]
        simp [Function.comp_def]
      rw [here', inner, leftOut]
      simp only [placesAt_under, List.map_append, List.map_reverse, List.map_flatMap,
        List.map_map, List.append_assoc]
      rfl

/-- The labels at the places are those that are hit, in preorder. -/
theorem map_label_places (t : RoseTree α) :
    (places hit t).map (fun p => (subtreeAt p t).map label) =
      (t.preorder.filter hit).map some := by
  induction t with
  | node a ts inductionHypothesis =>
      have fromChildren : ∀ front rest, ts = front ++ rest →
          (placesFrom hit front.length rest).map
              (fun p => (subtreeAt p (.node a ts)).map label) =
            ((rest.flatMap preorder).filter hit).map some := by
        intro front rest
        induction rest generalizing front with
        | nil => exact fun _ => rfl
        | cons t rest restHypothesis =>
            intro split
            have further := restHypothesis (front ++ [t]) (by simp [split])
            have here := inductionHypothesis t (by simp [split])
            have read : ts[front.length]? = some t := by simp [split]
            rw [List.length_append, List.length_singleton] at further
            rw [placesFrom, List.map_append, further, List.map_map, List.flatMap_cons,
              List.filter_append, List.map_append, ← here]
            congr 1
            apply List.map_congr_left
            intro p _
            simp [read]
      have below := fromChildren [] ts rfl
      rw [List.length_nil] at below
      rw [places_node, List.map_append, below, preorder_node, List.filter_cons]
      cases hit a <;> rfl

end RoseTree

end Notebook
