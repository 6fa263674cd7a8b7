import Notebook.Library.RoseTree

/-!
# Trees whose labels carry paths

Every label of a tree carries a path, and the path of a child extends the path of
its parent by one component. Then the labels of a subtree have paths below the path
of its root, and a label whose path is below that of a given node is not met before
that node in preorder.
-/

namespace Notebook
namespace RoseTree

variable {path : α → List γ}

/-- Every path in a tree extends the path it inherits by one component. -/
def ExtendsPaths (path : α → List γ) (k : Option (List γ)) (t : RoseTree α) : Prop :=
  ∀ row ∈ t.inherited (fun _ a => some (path a)) k,
    ∀ parent, row.1 = some parent → ∃ x, path row.2 = parent ++ [x]

theorem ExtendsPaths.child {k : Option (List γ)} {a : α} {ts : List (RoseTree α)}
    (extend : ExtendsPaths path k (.node a ts))
    {t : RoseTree α}
    (member : t ∈ ts) :
    ExtendsPaths path (some (path a)) t := by
  intro row present
  apply extend
  rw [inherited_node]
  exact List.mem_cons_of_mem _ (List.mem_flatMap.mpr ⟨t, member, present⟩)

theorem ExtendsPaths.label {parent : List γ} {t : RoseTree α}
    (extend : ExtendsPaths path (some parent) t) :
    ∃ x, path t.label = parent ++ [x] := by
  cases t with
  | node a ts =>
      exact extend (some parent, a) (by simp) parent rfl

/-- The path of the root is a prefix of every path in the tree. -/
theorem ExtendsPaths.prefix_label {k : Option (List γ)} {t : RoseTree α}
    (extend : ExtendsPaths path k t) :
    ∀ a ∈ t.preorder, path t.label <+: path a := by
  induction t generalizing k with
  | node b ts inductionHypothesis =>
      intro a present
      rw [preorder_node, List.mem_cons, List.mem_flatMap] at present
      rcases present with rfl | ⟨t, member, below⟩
      · exact List.prefix_rfl
      · have childExtends := extend.child member
        obtain ⟨x, equal⟩ := childExtends.label
        have above : path b <+: path t.label := by
          rw [equal]
          exact List.prefix_append _ _
        exact above.trans (inductionHypothesis t member childExtends a below)

/-- With distinct paths, no label before a node in preorder has a path below that of
the node. -/
theorem not_prefix_of_mem_visited {k : Option (List γ)} {c : Context α}
    {u : RoseTree α}
    (extend : ExtendsPaths path k (plug c u))
    (distinct : ((plug c u).preorder.map path).Nodup) :
    ∀ a ∈ visited c, ¬ path u.label <+: path a := by
  induction c generalizing k with
  | nil => simp
  | cons f c inductionHypothesis =>
      rw [plug_cons] at extend
      have inner : ExtendsPaths path (some (path f.label)) (plug c u) :=
        extend.child (by simp)
      have reached : path (plug c u).label <+: path u.label := by
        apply inner.prefix_label
        rw [preorder_plug]
        exact List.mem_append_left _ (List.mem_append_right _ u.label_mem_preorder)
      obtain ⟨x, innerLabel⟩ := inner.label
      rw [plug_cons, preorder_node, List.flatMap_append, List.flatMap_cons,
        List.map_cons, List.map_append, List.map_append] at distinct
      have rest := (List.nodup_cons.mp distinct).2
      intro a present below
      rw [visited_cons, List.mem_cons, List.mem_append, List.mem_flatMap] at present
      rcases present with rfl | ⟨t, member, inTree⟩ | inside
      · -- the path of a node above is shorter
        have lengths := (reached.trans below).length_le
        rw [innerLabel, List.length_append, List.length_singleton] at lengths
        omega
      · -- a tree to the left has another path of the same length at its root
        have left : ExtendsPaths path (some (path f.label)) t :=
          extend.child (by simp [member])
        obtain ⟨y, leftLabel⟩ := left.label
        have same : path t.label = path (plug c u).label := by
          apply List.prefix_of_prefix_length_le _ (reached.trans below) _ |>.eq_of_length
          · rw [leftLabel, innerLabel, List.length_append, List.length_append]
            rfl
          · exact left.prefix_label a inTree
          · rw [leftLabel, innerLabel, List.length_append, List.length_append]
            simp
        refine (List.nodup_append.mp rest).2.2 (path t.label) ?_ (path (plug c u).label) ?_ same
        · exact List.mem_map_of_mem
            (List.mem_flatMap.mpr ⟨t, member, t.label_mem_preorder⟩)
        · exact List.mem_append_left _ (List.mem_map_of_mem (label_mem_preorder _))
      · exact inductionHypothesis inner
          (List.nodup_append.mp (List.nodup_append.mp rest).2.1).1 a inside below

end RoseTree
end Notebook
