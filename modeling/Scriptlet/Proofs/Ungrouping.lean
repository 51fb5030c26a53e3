import Scriptlet.Proofs.CallStack
import Scriptlet.Proofs.RewrittenRuns

/-!
# Trees without parentheses

`Node.ungrouped` replaces every group of a tree by the expression in it.  A tree that was made by hand
may have a statement in a group, or an expression without a place; there the group matters.  So the
groups that are left out are those that `Node.isValueInPlace` holds of, which is a faithful rewriting
(`Rewriting.cautious`).  In the trees of sources these are all groups (`Node.HasSource.cautious_eq`).
-/

namespace Scriptlet

set_option autoImplicit false

variable {ε : Type}

/-! ## Leaving out groups -/

mutual

/-- A tree in which every group gives way to the expression in it, if `p` holds of the expression. -/
def Node.ungroupedWhere (p : Node → Bool) : Node → Node
  | ⟨loc, .group expr⟩ =>
    if p expr then expr.ungroupedWhere p else ⟨loc, .group (expr.ungroupedWhere p)⟩
  | ⟨loc, form⟩ => ⟨loc, form.ungroupedWhere p⟩

/-- A form in which groups give way to the expressions in them, the form itself apart. -/
def Form.ungroupedWhere (p : Node → Bool) : Form → Form
  | .bare => .bare
  | .number text => .number text
  | .string text => .string text
  | .boolean text => .boolean text
  | .null => .null
  | .ident name => .ident name
  | .member object tail => .member (object.ungroupedWhere p) (tail.ungroupedWhere p)
  | .group expr => .group (expr.ungroupedWhere p)
  | .call callee args => .call (callee.ungroupedWhere p) (Node.ungroupedAllWhere p args)
  | .ternary condition thenBranch elseBranch =>
    .ternary (condition.ungroupedWhere p) (thenBranch.ungroupedWhere p) (elseBranch.ungroupedWhere p)
  | .assign target op value => .assign (target.ungroupedWhere p) op (value.ungroupedWhere p)
  | .chain kind first rest => .chain kind (first.ungroupedWhere p) (Node.ungroupedOperandsWhere p rest)
  | .unary op operand => .unary op (operand.ungroupedWhere p)
  | .expression expr => .expression (expr.ungroupedWhere p)
  | .block statements => .block (Node.ungroupedAllWhere p statements)
  | .function name params ⟨loc, statements⟩ source =>
    .function name params ⟨loc, Node.ungroupedAllWhere p statements⟩ source
  | .declaration name value isMutable => .declaration name (value.ungroupedWhere p) isMutable
  | .ret none => .ret none
  | .ret (some expr) => .ret (some (expr.ungroupedWhere p))
  | .script statements => .script (Node.ungroupedAllWhere p statements)

/-- Trees in which groups give way to the expressions in them. -/
def Node.ungroupedAllWhere (p : Node → Bool) : List Node → List Node
  | [] => []
  | node :: rest => node.ungroupedWhere p :: Node.ungroupedAllWhere p rest

/-- Operands in which groups give way to the expressions in them. -/
def Node.ungroupedOperandsWhere (p : Node → Bool) : List (String × Node) → List (String × Node)
  | [] => []
  | (op, node) :: rest => (op, node.ungroupedWhere p) :: Node.ungroupedOperandsWhere p rest

end

/-- A tree without parentheses: every group is replaced by the expression in it, in function bodies
too.  The places of all other nodes stay. -/
def Node.ungrouped (node : Node) : Node :=
  node.ungroupedWhere fun _ => true

namespace Node

variable {p : Node → Bool}

theorem ungroupedAllWhere_eq_map (nodes : List Node) :
    ungroupedAllWhere p nodes = nodes.map (ungroupedWhere p) := by
  induction nodes with
  | nil => rfl
  | cons node rest ih => rw [ungroupedAllWhere, ih, List.map_cons]

theorem ungroupedOperandsWhere_eq_map (operands : List (String × Node)) :
    ungroupedOperandsWhere p operands = operands.map (Prod.map id (ungroupedWhere p)) := by
  induction operands with
  | nil => rfl
  | cons operand rest ih =>
    obtain ⟨op, node⟩ := operand
    rw [ungroupedOperandsWhere, ih, List.map_cons, Prod.map_apply, id_eq]

end Node

variable {p : Node → Bool}

theorem Form.ungroupedWhere_eq_map (form : Form) :
    form.ungroupedWhere p = form.map id (Node.ungroupedWhere p) := by
  cases form with
  | ret expr => cases expr <;> simp only [ungroupedWhere, map]
  | function name params body source =>
    obtain ⟨loc, statements⟩ := body
    rw [ungroupedWhere, map, Node.ungroupedAllWhere_eq_map, Option.map_id_fun, id_eq]
  | _ =>
    simp only [ungroupedWhere, map, Node.ungroupedAllWhere_eq_map, Node.ungroupedOperandsWhere_eq_map]

/-- Whether a form is that of a group. -/
def Form.isGroup : Form → Bool
  | .group _ => true
  | _ => false

theorem Form.isGroup_map (form : Form) (place : Location → Location) (f : Node → Node) :
    (form.map place f).isGroup = form.isGroup := by
  cases form with
  | ret expr => cases expr <;> rfl
  | _ => rfl

theorem Form.exists_group {form : Form} (h : form.isGroup) : ∃ expr, form = .group expr := by
  cases form with
  | group expr => exact ⟨expr, rfl⟩
  | _ => exact absurd h Bool.false_ne_true

namespace Node

/-- What is not a group keeps its form. -/
theorem ungroupedWhere_of_not_isGroup (loc : Option Location) {form : Form} (h : ¬ form.isGroup) :
    ungroupedWhere p ⟨loc, form⟩ = ⟨loc, form.map id (ungroupedWhere p)⟩ := by
  rw [← Form.ungroupedWhere_eq_map]
  cases form with
  | group expr => exact absurd rfl h
  | _ => rw [ungroupedWhere]; simp

theorem ungrouped_group (loc : Option Location) (expr : Node) :
    ungrouped ⟨loc, .group expr⟩ = expr.ungrouped := by
  rw [ungrouped, ungroupedWhere, if_pos rfl]
  rfl

/-- Groups that are left out at first need not be left out afterwards. -/
theorem ungrouped_ungroupedWhere (node : Node) :
    (node.ungroupedWhere p).ungrouped = node.ungrouped := by
  induction node using Node.induction with
  | step loc form ih =>
    by_cases hgroup : form.isGroup
    · obtain ⟨expr, rfl⟩ := Form.exists_group hgroup
      have hexpr : (expr.ungroupedWhere p).ungrouped = expr.ungrouped :=
        ih expr (List.mem_singleton.2 rfl)
      rw [ungrouped_group, ungroupedWhere]
      split
      · exact hexpr
      · rw [ungrouped_group, hexpr]
    · have hform : form.map id (ungrouped ∘ ungroupedWhere p) = form.map id ungrouped :=
        Form.map_congr ih
      rw [ungroupedWhere_of_not_isGroup loc hgroup, ungrouped, ungrouped,
        ungroupedWhere_of_not_isGroup loc hgroup,
        ungroupedWhere_of_not_isGroup loc (by rwa [Form.isGroup_map]), Form.map_map]
      exact congrArg (Node.mk loc) hform

/-- Where there are no groups left, none is left out. -/
theorem ungroupedWhere_ungrouped (node : Node) :
    node.ungrouped.ungroupedWhere p = node.ungrouped := by
  induction node using Node.induction with
  | step loc form ih =>
    by_cases hgroup : form.isGroup
    · obtain ⟨expr, rfl⟩ := Form.exists_group hgroup
      rw [ungrouped_group]
      exact ih expr (List.mem_singleton.2 rfl)
    · have hform : form.map id (ungroupedWhere p ∘ ungrouped) = form.map id ungrouped :=
        Form.map_congr ih
      rw [ungrouped, ungroupedWhere_of_not_isGroup loc hgroup,
        ungroupedWhere_of_not_isGroup loc (by rwa [Form.isGroup_map]), Form.map_map]
      exact congrArg (Node.mk loc) hform

end Node

/-! ## Leaving out groups with care -/

/-- Whether a node stands for a value and has a place. -/
def Node.isValueInPlace (node : Node) : Bool :=
  node.loc.isSome && node.form.isEvaluable

namespace Rewriting

/-- The rewriting that leaves out all groups. -/
def ungrouping : Rewriting :=
  ⟨id, Node.ungrouped⟩

/-- The rewriting that leaves out the groups around what stands for a value and has a place. -/
def cautious : Rewriting :=
  ⟨id, Node.ungroupedWhere Node.isValueInPlace⟩

theorem cautious_faithful : cautious.Faithful where
  text _ := rfl
  node loc form := by
    show Node.ungroupedWhere _ _ = Node.mk (loc.map id) _ ∨
      ∃ expr, _ ∧ _ ∧ _ ∧ Node.ungroupedWhere _ _ = _
    by_cases hgroup : form.isGroup
    · obtain ⟨expr, rfl⟩ := Form.exists_group hgroup
      by_cases hexpr : expr.isValueInPlace
      · obtain ⟨hloc, hform⟩ := Bool.and_eq_true_iff.1 hexpr
        refine .inr ⟨expr, rfl, hloc, hform, ?_⟩
        rw [Node.ungroupedWhere, if_pos hexpr]
        rfl
      · left
        rw [Node.ungroupedWhere, if_neg hexpr, Option.map_id_fun]
        rfl
    · left
      rw [Node.ungroupedWhere_of_not_isGroup loc hgroup, Option.map_id_fun]
      rfl

theorem ungrouping_comp_cautious : ungrouping.comp cautious = ungrouping :=
  congrArg (Rewriting.mk id) (funext Node.ungrouped_ungroupedWhere)

theorem cautious_comp_ungrouping : cautious.comp ungrouping = ungrouping :=
  congrArg (Rewriting.mk id) (funext Node.ungroupedWhere_ungrouped)

theorem ungrouping_comp_ungrouping : ungrouping.comp ungrouping = ungrouping :=
  congrArg (Rewriting.mk id) (funext Node.ungroupedWhere_ungrouped)

end Rewriting

/-! ## Trees of sources -/

theorem Form.IsExpression.isEvaluable {form : Form} (h : form.IsExpression) : form.isEvaluable := by
  cases form <;> first | rfl | exact h.elim

/-- The parts of a form are the nodes that it is written with; those of a function are what its body is
written with. -/
theorem Form.mem_parts {form : Form} {c : Node} (h : c ∈ form.parts) :
    c ∈ form.nodes ∨ ∃ body : Block, body.node ∈ form.nodes ∧ c ∈ body.node.form.nodes := by
  cases form with
  | function name params body source => exact .inr ⟨body, List.mem_singleton.2 rfl, h⟩
  | ret expr => cases expr <;> exact .inl h
  | _ => exact .inl h

namespace Node.HasSource

variable {node : Node}

theorem part (h : node.HasSource) {c : Node} (hc : c ∈ node.form.parts) : c.HasSource := by
  rcases Form.mem_parts hc with hc | ⟨body, hbody, hc⟩
  · exact h.child (Form.node_mem_items.2 hc)
  · exact (h.child (Form.node_mem_items.2 hbody)).child (Form.node_mem_items.2 hc)

/-- What stands in a group of a source stands for a value and has a place. -/
theorem isValueInPlace {loc : Option Location} {expr : Node}
    (h : Node.HasSource ⟨loc, .group expr⟩) : expr.isValueInPlace := by
  have hexpr : expr.IsExpression := by
    obtain ⟨rule, source, root, i, hp, hstands⟩ := h
    exact (hstands.isGrammatical (Parser.fits_of_parse hp).isGrammatical).group rfl
  have hform := (expr.isExpression_iff.1 hexpr).isEvaluable
  have hloc : expr.loc.isSome := by
    refine (h.part (List.mem_singleton.2 rfl)).located.resolve_right fun hscript => ?_
    rw [hscript] at hform
    exact Bool.false_ne_true hform
  rw [Node.isValueInPlace, hloc, hform]
  rfl

/-- In the tree of a source all groups are left out with care. -/
theorem cautious_eq (h : node.HasSource) : Rewriting.cautious.node node = node.ungrouped := by
  show node.ungroupedWhere Node.isValueInPlace = node.ungrouped
  induction node using Node.induction with
  | step loc form ih =>
    by_cases hgroup : form.isGroup
    · obtain ⟨expr, rfl⟩ := Form.exists_group hgroup
      rw [ungrouped_group, ungroupedWhere, if_pos h.isValueInPlace]
      exact ih expr (List.mem_singleton.2 rfl) (h.part (List.mem_singleton.2 rfl))
    · have hform : form.map id (ungroupedWhere Node.isValueInPlace) = form.map id ungrouped :=
        Form.map_congr fun c hc => ih c hc (h.part hc)
      rw [ungrouped, ungroupedWhere_of_not_isGroup loc hgroup, ungroupedWhere_of_not_isGroup loc hgroup]
      exact congrArg (Node.mk loc) hform

end Node.HasSource

end Scriptlet
