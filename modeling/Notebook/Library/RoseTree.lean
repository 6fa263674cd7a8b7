import Mathlib.Data.List.Basic
import Mathlib.Data.List.Nodup

/-!
# Rose trees, inherited attributes and one-hole contexts

A rose tree carries a label and an ordered list of subtrees at every node.
Two flat views of a tree are used to state facts about it: the preorder list of
its labels, and the list of its labels paired with an attribute that every node
hands down to its children. A one-hole context splits both lists around the
subtree plugged into the hole, so that a change at one node is a change in the
middle of a list.
-/

namespace Notebook

/-- A finite tree with a label and an ordered list of subtrees at every node. -/
inductive RoseTree (α : Type u)
  | node (label : α) (children : List (RoseTree α))

namespace RoseTree

/-- Label of the root. -/
def label : RoseTree α → α
  | .node a _ => a

/-- Subtrees directly below the root. -/
def children : RoseTree α → List (RoseTree α)
  | .node _ ts => ts

@[simp] theorem label_node (a : α) (ts : List (RoseTree α)) :
    (node a ts).label = a := rfl

@[simp] theorem children_node (a : α) (ts : List (RoseTree α)) :
    (node a ts).children = ts := rfl

theorem node_label_children (t : RoseTree α) :
    node t.label t.children = t := by
  cases t
  rfl

/-- Induction with the hypothesis for every direct subtree. -/
@[elab_as_elim, induction_eliminator]
theorem induction {motive : RoseTree α → Prop}
    (node : ∀ (a : α) (ts : List (RoseTree α)),
      (∀ t ∈ ts, motive t) → motive (.node a ts))
    (t : RoseTree α) : motive t :=
  @RoseTree.rec α motive (fun ts => ∀ t ∈ ts, motive t)
    node
    (fun _ present => absurd present List.not_mem_nil)
    (fun _ _ headHolds tailHolds _ present => by
      rcases List.mem_cons.mp present with rfl | inTail
      · exact headHolds
      · exact tailHolds _ inTail)
    t

/-! ## Equality -/

section Equality

variable [DecidableEq α]

mutual

/-- Whether two trees are equal, decided label by label. -/
def decideEq : (t u : RoseTree α) → Decidable (t = u)
  | .node a ts, .node b us =>
      match decEq a b, decideEqAll ts us with
      | .isTrue sameLabel, .isTrue sameTrees => .isTrue (by rw [sameLabel, sameTrees])
      | .isFalse different, _ => .isFalse fun equal => different (congrArg label equal)
      | _, .isFalse different => .isFalse fun equal => different (congrArg children equal)

/-- Whether two lists of trees are equal. -/
def decideEqAll : (ts us : List (RoseTree α)) → Decidable (ts = us)
  | [], [] => .isTrue rfl
  | [], _ :: _ => .isFalse nofun
  | _ :: _, [] => .isFalse nofun
  | t :: ts, u :: us =>
      match decideEq t u, decideEqAll ts us with
      | .isTrue sameHead, .isTrue sameTail => .isTrue (by rw [sameHead, sameTail])
      | .isFalse different, _ => .isFalse fun equal => different (List.cons.inj equal).1
      | _, .isFalse different => .isFalse fun equal => different (List.cons.inj equal).2

end

instance : DecidableEq (RoseTree α) := decideEq

end Equality

/-! ## Preorder -/

mutual

/-- Labels in depth-first, left-to-right order, a node before its subtrees. -/
def preorder : RoseTree α → List α
  | .node a ts => a :: preorderAll ts

/-- Labels of a list of trees, one tree after the other. -/
def preorderAll : List (RoseTree α) → List α
  | [] => []
  | t :: ts => preorder t ++ preorderAll ts

end

theorem preorderAll_eq_flatMap (ts : List (RoseTree α)) :
    preorderAll ts = ts.flatMap preorder := by
  induction ts with
  | nil => simp [preorderAll]
  | cons t ts inductionHypothesis =>
      simp [preorderAll, inductionHypothesis]

@[simp] theorem preorder_node (a : α) (ts : List (RoseTree α)) :
    (node a ts).preorder = a :: ts.flatMap preorder := by
  rw [preorder, preorderAll_eq_flatMap]

theorem label_mem_preorder (t : RoseTree α) : t.label ∈ t.preorder := by
  cases t
  simp

/-- Labels strictly below the root, in preorder. -/
def descendants (t : RoseTree α) : List α :=
  t.children.flatMap preorder

theorem preorder_eq_label_cons (t : RoseTree α) :
    t.preorder = t.label :: t.descendants := by
  cases t
  simp [descendants]

theorem mem_preorder_of_mem_descendants {t : RoseTree α} {a : α}
    (present : a ∈ t.descendants) : a ∈ t.preorder := by
  rw [preorder_eq_label_cons]
  exact List.mem_cons_of_mem _ present

/-- Keys that are distinct below a root are distinct in each subtree. -/
theorem nodup_map_preorder_of_mem {key : α → κ} {t u : RoseTree α}
    (distinct : (t.descendants.map key).Nodup)
    (member : u ∈ t.children) :
    (u.preorder.map key).Nodup := by
  obtain ⟨before, after, split⟩ := List.append_of_mem member
  rw [descendants, split, List.flatMap_append, List.flatMap_cons, List.map_append,
    List.map_append] at distinct
  exact (List.nodup_append.mp (List.nodup_append.mp distinct).2.1).1

/-! ## Inherited attributes -/

mutual

/-- Every label paired with the attribute its node inherits: the root inherits
`k`, and a node labelled `a` that inherits `k` hands down `step k a`. -/
def inherited (step : κ → α → κ) : κ → RoseTree α → List (κ × α)
  | k, .node a ts => (k, a) :: inheritedAll step (step k a) ts

/-- The pairs of a list of trees that all inherit the same attribute. -/
def inheritedAll (step : κ → α → κ) : κ → List (RoseTree α) → List (κ × α)
  | _, [] => []
  | k, t :: ts => inherited step k t ++ inheritedAll step k ts

end

theorem inheritedAll_eq_flatMap
    (step : κ → α → κ)
    (k : κ)
    (ts : List (RoseTree α)) :
    inheritedAll step k ts = ts.flatMap (inherited step k) := by
  induction ts with
  | nil => simp [inheritedAll]
  | cons t ts inductionHypothesis =>
      simp [inheritedAll, inductionHypothesis]

@[simp] theorem inherited_node
    (step : κ → α → κ)
    (k : κ)
    (a : α)
    (ts : List (RoseTree α)) :
    (node a ts).inherited step k =
      (k, a) :: ts.flatMap (inherited step (step k a)) := by
  rw [inherited, inheritedAll_eq_flatMap]

/-- Forgetting the attributes leaves the preorder. -/
theorem map_snd_inherited
    (step : κ → α → κ)
    (k : κ)
    (t : RoseTree α) :
    (t.inherited step k).map Prod.snd = t.preorder := by
  induction t generalizing k with
  | node a ts inductionHypothesis =>
      simp only [inherited_node, List.map_cons, preorder_node,
        List.map_flatMap, List.cons.injEq, true_and]
      exact List.flatMap_congr fun t present =>
        inductionHypothesis t present (step k a)

theorem snd_mem_preorder_of_mem_inherited
    {step : κ → α → κ}
    {k : κ}
    {t : RoseTree α}
    {row : κ × α}
    (present : row ∈ t.inherited step k) :
    row.2 ∈ t.preorder := by
  rw [← map_snd_inherited step k t]
  exact List.mem_map_of_mem present

/-- Inherited attributes can be replaced by what a function makes of them. -/
theorem map_inherited
    {step : κ → α → κ}
    {step' : ι → α → ι}
    {f : κ → ι}
    (agree : ∀ k a, f (step k a) = step' (f k) a)
    (k : κ)
    (t : RoseTree α) :
    (t.inherited step k).map (fun row => (f row.1, row.2)) =
      t.inherited step' (f k) := by
  induction t generalizing k with
  | node a ts inductionHypothesis =>
      simp only [inherited_node, List.map_cons, List.map_flatMap, List.cons.injEq,
        true_and, ← agree]
      exact List.flatMap_congr fun t present =>
        inductionHypothesis t present (step k a)

/-! ## Relabelling -/

mutual

/-- Apply a function to every label. -/
def map (f : α → β) : RoseTree α → RoseTree β
  | .node a ts => .node (f a) (mapAll f ts)

/-- Apply a function to every label of a list of trees. -/
def mapAll (f : α → β) : List (RoseTree α) → List (RoseTree β)
  | [] => []
  | t :: ts => map f t :: mapAll f ts

end

theorem mapAll_eq_map (f : α → β) (ts : List (RoseTree α)) :
    mapAll f ts = ts.map (map f) := by
  induction ts with
  | nil => rfl
  | cons t ts inductionHypothesis =>
      simp [mapAll, inductionHypothesis]

@[simp] theorem map_node (f : α → β) (a : α) (ts : List (RoseTree α)) :
    (node a ts).map f = node (f a) (ts.map (map f)) := by
  rw [map, mapAll_eq_map]

theorem label_map (f : α → β) (t : RoseTree α) :
    (t.map f).label = f t.label := by
  cases t
  simp

theorem preorder_map (f : α → β) (t : RoseTree α) :
    (t.map f).preorder = t.preorder.map f := by
  induction t with
  | node a ts inductionHypothesis =>
      simp only [map_node, preorder_node, List.map_cons, List.map_flatMap,
        List.flatMap_map, List.cons.injEq, true_and]
      exact List.flatMap_congr inductionHypothesis

theorem descendants_map (f : α → β) (t : RoseTree α) :
    (t.map f).descendants = t.descendants.map f := by
  have whole := preorder_map f t
  rw [preorder_eq_label_cons, preorder_eq_label_cons, label_map,
    List.map_cons] at whole
  exact List.tail_eq_of_cons_eq whole

/-- A relabelling that fixes every label of a tree fixes the tree. -/
theorem map_eq_self
    {f : α → α}
    {t : RoseTree α}
    (fixed : ∀ a ∈ t.preorder, f a = a) :
    t.map f = t := by
  induction t with
  | node a ts inductionHypothesis =>
      simp only [preorder_node, List.mem_cons, List.mem_flatMap,
        forall_eq_or_imp, forall_exists_index, and_imp] at fixed
      obtain ⟨rootFixed, belowFixed⟩ := fixed
      rw [map_node, rootFixed]
      congr 1
      conv_rhs => rw [← List.map_id ts]
      apply List.map_congr_left
      intro t present
      exact inductionHypothesis t present fun b member =>
        belowFixed b t present member

theorem map_map (g : β → γ) (f : α → β) (t : RoseTree α) :
    (t.map f).map g = t.map (g ∘ f) := by
  induction t with
  | node a ts inductionHypothesis =>
      simp only [map_node, List.map_map, Function.comp]
      congr 1
      exact List.map_congr_left inductionHypothesis

theorem map_congr
    {f g : α → β}
    {t : RoseTree α}
    (agree : ∀ a ∈ t.preorder, f a = g a) :
    t.map f = t.map g := by
  induction t with
  | node a ts inductionHypothesis =>
      simp only [preorder_node, List.mem_cons, List.mem_flatMap,
        forall_eq_or_imp, forall_exists_index, and_imp] at agree
      rw [map_node, map_node, agree.1]
      congr 1
      apply List.map_congr_left
      intro t present
      exact inductionHypothesis t present fun b member =>
        agree.2 b t present member

/-- Relabelling commutes with inheritance when the attributes handed down do not
change. -/
theorem inherited_map
    {step : κ → β → κ}
    {step' : κ → α → κ}
    {f : α → β}
    (agree : ∀ k a, step k (f a) = step' k a)
    (k : κ)
    (t : RoseTree α) :
    (t.map f).inherited step k =
      (t.inherited step' k).map fun row => (row.1, f row.2) := by
  induction t generalizing k with
  | node a ts inductionHypothesis =>
      simp only [map_node, inherited_node, List.map_cons, List.map_flatMap,
        List.flatMap_map, agree, List.cons.injEq, true_and]
      exact List.flatMap_congr fun t present =>
        inductionHypothesis t present (step' k a)

/-! ## One-hole contexts -/

/-- One level of a context: the label of a node and its subtrees to the left and
to the right of the one that holds the hole. -/
structure Frame (α : Type u) where
  /-- Label of the node. -/
  label : α
  /-- Subtrees to the left of the hole. -/
  before : List (RoseTree α)
  /-- Subtrees to the right of the hole. -/
  after : List (RoseTree α)

/-- A tree with one subtree taken out, outermost level first. -/
abbrev Context (α : Type u) := List (Frame α)

/-- Put a tree into the hole. -/
def plug : Context α → RoseTree α → RoseTree α
  | [], t => t
  | f :: c, t => .node f.label (f.before ++ plug c t :: f.after)

@[simp] theorem plug_nil (t : RoseTree α) : plug [] t = t := rfl

@[simp] theorem plug_cons
    (f : Frame α)
    (c : Context α)
    (t : RoseTree α) :
    plug (f :: c) t = .node f.label (f.before ++ plug c t :: f.after) := rfl

theorem plug_append
    (c d : Context α)
    (t : RoseTree α) :
    plug (c ++ d) t = plug c (plug d t) := by
  induction c with
  | nil => rfl
  | cons f c inductionHypothesis => simp [inductionHypothesis]

/-- Labels that precede the hole in preorder. -/
def visited : Context α → List α
  | [] => []
  | f :: c => f.label :: (f.before.flatMap preorder ++ visited c)

/-- Labels that follow the plugged subtree in preorder. -/
def unvisited : Context α → List α
  | [] => []
  | f :: c => unvisited c ++ f.after.flatMap preorder

@[simp] theorem visited_nil : visited ([] : Context α) = [] := rfl

@[simp] theorem visited_cons (f : Frame α) (c : Context α) :
    visited (f :: c) = f.label :: (f.before.flatMap preorder ++ visited c) := rfl

@[simp] theorem unvisited_nil : unvisited ([] : Context α) = [] := rfl

@[simp] theorem unvisited_cons (f : Frame α) (c : Context α) :
    unvisited (f :: c) = unvisited c ++ f.after.flatMap preorder := rfl

theorem visited_append (c d : Context α) :
    visited (c ++ d) = visited c ++ visited d := by
  induction c with
  | nil => rfl
  | cons f c inductionHypothesis => simp [inductionHypothesis]

theorem preorder_plug (c : Context α) (t : RoseTree α) :
    (plug c t).preorder = visited c ++ t.preorder ++ unvisited c := by
  induction c with
  | nil => simp
  | cons f c inductionHypothesis =>
      simp [inductionHypothesis, List.append_assoc]

/-- The attribute inherited at the hole. -/
def holeAttribute (step : κ → α → κ) (k : κ) (c : Context α) : κ :=
  c.foldl (fun current f => step current f.label) k

@[simp] theorem holeAttribute_nil (step : κ → α → κ) (k : κ) :
    holeAttribute step k [] = k := rfl

@[simp] theorem holeAttribute_cons
    (step : κ → α → κ)
    (k : κ)
    (f : Frame α)
    (c : Context α) :
    holeAttribute step k (f :: c) = holeAttribute step (step k f.label) c := rfl

/-- Rows of the inherited list that precede the hole. -/
def inheritedBefore (step : κ → α → κ) : κ → Context α → List (κ × α)
  | _, [] => []
  | k, f :: c => (k, f.label) ::
      (f.before.flatMap (inherited step (step k f.label)) ++
        inheritedBefore step (step k f.label) c)

/-- Rows of the inherited list that follow the plugged subtree. -/
def inheritedAfter (step : κ → α → κ) : κ → Context α → List (κ × α)
  | _, [] => []
  | k, f :: c => inheritedAfter step (step k f.label) c ++
      f.after.flatMap (inherited step (step k f.label))

theorem inherited_plug
    (step : κ → α → κ)
    (k : κ)
    (c : Context α)
    (t : RoseTree α) :
    (plug c t).inherited step k =
      inheritedBefore step k c ++
        t.inherited step (holeAttribute step k c) ++
        inheritedAfter step k c := by
  induction c generalizing k with
  | nil => simp [inheritedBefore, inheritedAfter]
  | cons f c inductionHypothesis =>
      simp [inheritedBefore, inheritedAfter, inductionHypothesis,
        List.append_assoc]

/-- A new leaf under the plugged node adds one row. -/
theorem inherited_plug_addLeaf
    (step : κ → α → κ)
    (k : κ)
    (c : Context α)
    (a : α)
    (ts : List (RoseTree α))
    (b : α) :
    ((plug c (.node a (ts ++ [.node b []]))).inherited step k).Perm
      ((plug c (.node a ts)).inherited step k ++
        [(step (holeAttribute step k c) a, b)]) := by
  rw [inherited_plug, inherited_plug]
  simp only [inherited_node, List.flatMap_append, List.flatMap_cons, List.flatMap_nil,
    List.append_nil, List.append_assoc, List.cons_append]
  apply List.Perm.append_left
  apply List.Perm.cons
  apply List.Perm.append_left
  exact (List.perm_append_singleton _ _).symm

/-- A subtree of the plugged node adds its rows. -/
theorem inherited_plug_insert
    (step : κ → α → κ)
    (k : κ)
    (c : Context α)
    (a : α)
    (before : List (RoseTree α))
    (t : RoseTree α)
    (after : List (RoseTree α)) :
    ((plug c (.node a (before ++ t :: after))).inherited step k).Perm
      ((plug c (.node a (before ++ after))).inherited step k ++
        t.inherited step (step (holeAttribute step k c) a)) := by
  rw [inherited_plug, inherited_plug]
  simp only [inherited_node, List.flatMap_append, List.flatMap_cons, List.append_assoc,
    List.cons_append]
  apply List.Perm.append_left
  apply List.Perm.cons
  apply List.Perm.append_left
  rw [← List.append_assoc _ _ (inherited step _ t)]
  exact List.perm_append_comm

/-- A new label that hands down the same attribute changes one row. -/
theorem inherited_plug_relabel
    {step : κ → α → κ}
    {k : κ}
    {c : Context α}
    {a b : α}
    (same : step (holeAttribute step k c) b = step (holeAttribute step k c) a)
    (ts : List (RoseTree α)) :
    ∃ before after,
      (plug c (.node a ts)).inherited step k =
        before ++ (holeAttribute step k c, a) :: after ∧
      (plug c (.node b ts)).inherited step k =
        before ++ (holeAttribute step k c, b) :: after := by
  refine ⟨inheritedBefore step k c,
    ts.flatMap (inherited step (step (holeAttribute step k c) a)) ++
      inheritedAfter step k c, ?_, ?_⟩
  · rw [inherited_plug, inherited_node, List.append_assoc, List.cons_append]
  · rw [inherited_plug, inherited_node, same, List.append_assoc, List.cons_append]

/-- Every label of a tree is the root label of some subtree. -/
theorem exists_plug_of_mem_preorder
    {t : RoseTree α}
    {a : α}
    (present : a ∈ t.preorder) :
    ∃ c ts, t = plug c (node a ts) := by
  induction t with
  | node b ts inductionHypothesis =>
      rw [preorder_node, List.mem_cons, List.mem_flatMap] at present
      rcases present with rfl | ⟨t, member, below⟩
      · exact ⟨[], ts, rfl⟩
      · obtain ⟨before, after, rfl⟩ := List.append_of_mem member
        obtain ⟨c, us, rfl⟩ := inductionHypothesis t member below
        exact ⟨⟨b, before, after⟩ :: c, us, rfl⟩

/-- Every inherited pair is that of the root or that of a child of some node. -/
theorem exists_plug_of_mem_inherited
    {step : κ → α → κ}
    {k : κ}
    {t : RoseTree α}
    {row : κ × α}
    (present : row ∈ t.inherited step k) :
    row = (k, t.label) ∨ ∃ c parent before child after,
      t = plug c (node parent (before ++ child :: after)) ∧
        row = (step (holeAttribute step k c) parent, child.label) := by
  induction t generalizing k with
  | node a ts inductionHypothesis =>
      rw [inherited_node, List.mem_cons, List.mem_flatMap] at present
      rcases present with rfl | ⟨t, member, below⟩
      · exact Or.inl rfl
      · right
        obtain ⟨before, after, rfl⟩ := List.append_of_mem member
        rcases inductionHypothesis t member below with rfl |
          ⟨c, parent, left, child, right, rfl, rfl⟩
        · exact ⟨[], a, before, t, after, rfl, rfl⟩
        · exact ⟨⟨a, before, after⟩ :: c, parent, left, child, right, rfl, rfl⟩

/-- A label that is the only one with a property has no other such label before,
below or after its node. -/
theorem apart_of_filter_eq_singleton
    {p : α → Bool}
    {c : Context α}
    {a : α}
    {ts : List (RoseTree α)}
    (unique : (plug c (node a ts)).preorder.filter p = [a]) :
    p a = true ∧ (∀ b ∈ visited c, p b = false) ∧
      (∀ b ∈ ts.flatMap preorder, p b = false) ∧
      ∀ b ∈ unvisited c, p b = false := by
  have holds : p a = true := by
    have present : a ∈ (plug c (node a ts)).preorder.filter p := by simp [unique]
    exact (List.mem_filter.mp present).2
  rw [preorder_plug, preorder_node, List.filter_append, List.filter_append,
    List.filter_cons_of_pos holds] at unique
  have lengths := congrArg List.length unique
  simp only [List.length_append, List.length_cons, List.length_nil] at lengths
  have noneBefore : (visited c).filter p = [] := List.eq_nil_of_length_eq_zero (by omega)
  have noneBelow : (ts.flatMap preorder).filter p = [] :=
    List.eq_nil_of_length_eq_zero (by omega)
  have noneAfter : (unvisited c).filter p = [] := List.eq_nil_of_length_eq_zero (by omega)
  simp only [List.filter_eq_nil_iff, Bool.not_eq_true] at noneBefore noneBelow noneAfter
  exact ⟨holds, noneBefore, noneBelow, noneAfter⟩

/-- Relabelling commutes with plugging. -/
theorem map_plug (f : α → α) (c : Context α) (t : RoseTree α)
    (fixedBefore : ∀ a ∈ visited c, f a = a)
    (fixedAfter : ∀ a ∈ unvisited c, f a = a) :
    (plug c t).map f = plug c (t.map f) := by
  induction c with
  | nil => rfl
  | cons frame c inductionHypothesis =>
      simp only [visited_cons, unvisited_cons, List.mem_cons, List.mem_append,
        List.mem_flatMap, forall_eq_or_imp] at fixedBefore fixedAfter
      have left : frame.before.map (map f) = frame.before := by
        conv_rhs => rw [← List.map_id frame.before]
        exact List.map_congr_left fun t present => map_eq_self fun a member =>
          fixedBefore.2 a (Or.inl ⟨t, present, member⟩)
      have right : frame.after.map (map f) = frame.after := by
        conv_rhs => rw [← List.map_id frame.after]
        exact List.map_congr_left fun t present => map_eq_self fun a member =>
          fixedAfter a (Or.inr ⟨t, present, member⟩)
      have inner := inductionHypothesis
        (fun a member => fixedBefore.2 a (Or.inr member))
        (fun a member => fixedAfter a (Or.inl member))
      simp only [plug_cons, map_node, fixedBefore.1, List.map_append,
        List.map_cons, left, right, inner]

theorem label_plug_congr {f : α → β} (c : Context α) {t u : RoseTree α}
    (same : f u.label = f t.label) :
    f (plug c u).label = f (plug c t).label := by
  cases c with
  | nil => exact same
  | cons frame c => rfl

/-- Rearranging what a subtree holds rearranges what the tree holds. -/
theorem flatMap_preorder_plug_perm {f : α → List β} (c : Context α) {t u : RoseTree α}
    {more : List β}
    (perm : (u.preorder.flatMap f).Perm (t.preorder.flatMap f ++ more)) :
    ((plug c u).preorder.flatMap f).Perm ((plug c t).preorder.flatMap f ++ more) := by
  rw [preorder_plug, preorder_plug]
  simp only [List.flatMap_append]
  have inner := perm.append_left ((visited c).flatMap f)
  have outer := inner.append_right ((unvisited c).flatMap f)
  refine outer.trans ?_
  simp only [List.append_assoc]
  exact (List.perm_append_comm.append_left _).append_left _

/-- The same below the root, for subtrees whose roots agree. -/
theorem map_descendants_plug_perm {f : α → β} (c : Context α) {t u : RoseTree α}
    {more : List β}
    (label : f u.label = f t.label)
    (perm : (u.descendants.map f).Perm (t.descendants.map f ++ more)) :
    ((plug c u).descendants.map f).Perm ((plug c t).descendants.map f ++ more) := by
  have inner : (u.preorder.flatMap fun a => [f a]).Perm
      ((t.preorder.flatMap fun a => [f a]) ++ more) := by
    rw [← List.map_eq_flatMap, ← List.map_eq_flatMap, preorder_eq_label_cons u,
      preorder_eq_label_cons t, List.map_cons, List.map_cons, label]
    exact perm.cons _
  have outer := flatMap_preorder_plug_perm c inner
  rw [← List.map_eq_flatMap, ← List.map_eq_flatMap, preorder_eq_label_cons,
    preorder_eq_label_cons (plug c t), List.map_cons, List.map_cons,
    label_plug_congr c label, List.cons_append] at outer
  exact outer.cons_inv

/-- A new leaf under the plugged node adds its label. -/
theorem map_descendants_plug_addLeaf {f : α → β} (c : Context α) (a : α)
    (ts : List (RoseTree α)) (b : α) :
    ((plug c (.node a (ts ++ [.node b []]))).descendants.map f).Perm
      ((plug c (.node a ts)).descendants.map f ++ [f b]) := by
  refine map_descendants_plug_perm c (by rfl) ?_
  simp [descendants]

/-- A subtree of the plugged node adds its labels. -/
theorem map_descendants_plug_insert {f : α → β} (c : Context α) (a : α)
    (before : List (RoseTree α)) (t : RoseTree α) (after : List (RoseTree α)) :
    ((plug c (.node a (before ++ t :: after))).descendants.map f).Perm
      ((plug c (.node a (before ++ after))).descendants.map f ++ t.preorder.map f) := by
  refine map_descendants_plug_perm c (by rfl) ?_
  simp only [descendants, children_node, List.flatMap_append, List.flatMap_cons,
    List.map_append, List.append_assoc]
  exact (List.perm_append_comm).append_left _

theorem mem_descendants_plug (c : Context α) (a : α) (before : List (RoseTree α))
    {t : RoseTree α} (after : List (RoseTree α)) {b : α} (present : b ∈ t.preorder) :
    b ∈ (plug c (.node a (before ++ t :: after))).descendants := by
  have perm := map_descendants_plug_insert (f := id) c a before t after
  rw [List.map_id, List.map_id, List.map_id] at perm
  exact perm.mem_iff.mpr (List.mem_append_right _ present)

/-- A subtree of the plugged node adds its root to those of its subtrees. -/
theorem map_descendants_plug_lift {f : α → β} (c : Context α) (a : α)
    (before : List (RoseTree α)) (b : α) (ts after : List (RoseTree α)) :
    ((plug c (.node a (before ++ .node b ts :: after))).descendants.map f).Perm
      ((plug c (.node a (before ++ (ts ++ after)))).descendants.map f ++ [f b]) := by
  refine map_descendants_plug_perm c (by rfl) ?_
  simp only [descendants, children_node, List.flatMap_append, List.flatMap_cons,
    preorder_node, List.map_append, List.map_cons, List.append_assoc, List.cons_append]
  apply List.Perm.append_left
  rw [← List.append_assoc]
  exact (List.perm_append_singleton _ _).symm

/-! ## Height -/

mutual

/-- Number of nodes on a longest branch. -/
def height : RoseTree α → Nat
  | .node _ ts => heightAll ts + 1

/-- Largest height in a list of trees. -/
def heightAll : List (RoseTree α) → Nat
  | [] => 0
  | t :: ts => max (height t) (heightAll ts)

end

@[simp] theorem height_node (a : α) (ts : List (RoseTree α)) :
    (node a ts).height = heightAll ts + 1 := by
  rw [height]

theorem heightAll_le_iff (ts : List (RoseTree α)) (bound : Nat) :
    heightAll ts ≤ bound ↔ ∀ t ∈ ts, t.height ≤ bound := by
  induction ts with
  | nil => simp [heightAll]
  | cons t ts inductionHypothesis =>
      rw [heightAll, Nat.max_le, inductionHypothesis]
      simp

/-- A tree in which no node has more than one subtree. -/
inductive IsChain : RoseTree α → Prop
  | leaf (a : α) : IsChain (.node a [])
  | link (a : α) {t : RoseTree α} (below : IsChain t) : IsChain (.node a [t])

theorem height_le_heightAll
    {t : RoseTree α}
    {ts : List (RoseTree α)}
    (present : t ∈ ts) :
    t.height ≤ heightAll ts :=
  (heightAll_le_iff ts _).mp (Nat.le_refl _) t present

end RoseTree

end Notebook
