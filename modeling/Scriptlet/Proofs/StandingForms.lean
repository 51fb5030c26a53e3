import Scriptlet.Proofs.NodeSpans

/-!
# What stands where in a program

Every node of a program is an expression, what is left of a path behind a dot, a statement, or the
whole script (`Node.IsGrammatical`), and so are the nodes that it is written with.  So a group in a
program has an expression in it, and a function declaration a body of statements.
-/

namespace Scriptlet

set_option autoImplicit false

/-- A node that has a place in a program. -/
def Node.IsGrammatical (node : Node) : Prop :=
  node.IsExpression ∨ node.IsMember ∨ node.IsStatement ∨ node.Fits .script

theorem Node.Fits.isGrammatical {node : Node} {rule : Rule} (h : node.Fits rule) :
    node.IsGrammatical := by
  cases rule with
  | expression => exact .inl h
  | script => exact .inr (.inr (.inr h))

theorem Node.isExpression_iff (node : Node) : node.IsExpression ↔ node.form.IsExpression := by
  obtain ⟨loc, form⟩ := node
  rw [IsExpression]

theorem Node.isMember_iff (node : Node) : node.IsMember ↔ node.form.IsMember := by
  obtain ⟨loc, form⟩ := node
  rw [IsMember]

theorem Node.isStatement_iff (node : Node) : node.IsStatement ↔ node.form.IsStatement := by
  obtain ⟨loc, form⟩ := node
  rw [IsStatement]

theorem Node.IsName.isMember {node : Node} (h : node.IsName) : node.IsMember := by
  obtain ⟨name, hform, hname⟩ := h.eq_ident
  rw [node.isMember_iff, hform]
  exact hname

theorem Block.isBody_node {body : Block} (h : body.IsBody) : body.node.IsStatement := by
  obtain ⟨loc, statements⟩ := body
  rw [node, Node.IsStatement, Form.IsStatement]
  exact h

/-! ## Children -/

theorem Item.mem_of_nodes {i j : Nat} {node : Node} {items : List Item}
    (h : (j, node) ∈ nodes i items) : .node node ∈ items := by
  fun_induction nodes i items with
  | case1 i => exact absurd h List.not_mem_nil
  | case2 i text rest ih => exact List.mem_cons_of_mem _ (ih h)
  | case3 i first rest ih =>
    rcases List.mem_cons.1 h with heq | hrest
    · obtain ⟨-, rfl⟩ := Prod.mk.inj heq
      exact List.mem_cons_self
    · exact List.mem_cons_of_mem _ (ih hrest)

theorem Item.exists_mem_nodes {node : Node} {items : List Item} (h : .node node ∈ items) (i : Nat) :
    ∃ j, (j, node) ∈ nodes i items := by
  fun_induction nodes i items with
  | case1 i => cases h
  | case2 i text rest ih =>
    rcases List.mem_cons.1 h with htoken | hrest
    · cases htoken
    · exact ih hrest
  | case3 i first rest ih =>
    rcases List.mem_cons.1 h with hfirst | hrest
    · obtain rfl := Item.node.inj hfirst
      exact ⟨i, List.mem_cons_self⟩
    · obtain ⟨j, hj⟩ := ih hrest
      exact ⟨j, List.mem_cons_of_mem _ hj⟩

/-- The nodes that a form is written with, from left to right. -/
def Form.nodes : Form → List Node
  | .member object tail => [object, tail]
  | .group expr | .unary _ expr | .expression expr | .declaration _ expr _ | .ret (some expr) => [expr]
  | .call callee args => callee :: args
  | .ternary condition thenBranch elseBranch => [condition, thenBranch, elseBranch]
  | .assign target _ value => [target, value]
  | .chain _ first rest => first :: rest.map (·.2)
  | .block statements | .script statements => statements
  | .function _ _ body _ => [body.node]
  | .bare | .number _ | .string _ | .boolean _ | .null | .ident _ | .ret none => []

/-- The text that a function declaration keeps of its body. -/
def Form.source? : Form → Option String
  | .function _ _ _ source => some source
  | _ => none

theorem Form.source?_eq_some {form : Form} {kept : String} :
    form.source? = some kept ↔ ∃ name params body, form = .function name params body kept := by
  cases form with
  | function name params body source => simp [source?]
  | _ => exact iff_of_false nofun (by simp)

theorem Item.filterMap_separated (nodes : List Node) (text : String) :
    ((nodes.map Item.node).intersperse (.token text)).filterMap node? = nodes := by
  induction nodes with
  | nil => rfl
  | cons node rest ih => cases rest <;> simp_all [List.filterMap_cons]

theorem Item.filterMap_names (names : List String) (text : String) :
    ((names.map Item.token).intersperse (.token text)).filterMap node? = [] := by
  induction names with
  | nil => rfl
  | cons name rest ih => cases rest <;> simp_all [List.filterMap_cons]

theorem Item.filterMap_operands (operands : List (String × Node)) :
    (operands.flatMap fun p => [Item.token p.1, .node p.2]).filterMap node? = operands.map (·.2) := by
  induction operands with
  | nil => rfl
  | cons p rest ih => simp [List.filterMap_cons, ih]

theorem Form.filterMap_items (form : Form) : form.items.filterMap Item.node? = form.nodes := by
  have hnode : ∀ nodes : List Node, (nodes.map Item.node).filterMap Item.node? = nodes := by
    intro nodes
    rw [List.filterMap_map]
    exact List.filterMap_some
  cases form with
  | ret expr => cases expr <;> rfl
  | call callee args => simp [items, nodes, List.filterMap_cons, Item.filterMap_separated]
  | chain kind first rest => simp [items, nodes, Item.filterMap_operands]
  | block statements => simp [items, nodes, List.filterMap_cons, hnode]
  | script statements => simp [items, nodes, hnode]
  | function name params body source => simp [items, nodes, List.filterMap_cons, Item.filterMap_names]
  | _ => rfl

theorem Form.node_mem_items {form : Form} {c : Node} : .node c ∈ form.items ↔ c ∈ form.nodes := by
  rw [← form.filterMap_items, List.mem_filterMap]
  constructor
  · exact fun h => ⟨.node c, h, rfl⟩
  · rintro ⟨item, hitem, hc⟩
    cases item with
    | token text => exact nomatch hc
    | node n => exact Option.some.inj hc ▸ hitem

namespace Form

theorem mem_items_arg {callee arg : Node} {args : List Node} (h : arg ∈ args) :
    .node arg ∈ (call callee args).items :=
  node_mem_items.2 (List.mem_cons_of_mem _ h)

theorem mem_items_operand {kind : String} {first : Node} {rest : List (String × Node)}
    {p : String × Node} (h : p ∈ rest) : .node p.2 ∈ (chain kind first rest).items :=
  node_mem_items.2 (List.mem_cons_of_mem _ (List.mem_map_of_mem h))

theorem mem_items_block {node : Node} {statements : List Node} (h : node ∈ statements) :
    .node node ∈ (block statements).items :=
  node_mem_items.2 h

theorem mem_items_body {name source : String} {params : List String} {body : Block} :
    .node body.node ∈ (function name params body source).items :=
  node_mem_items.2 (List.mem_singleton.2 rfl)

variable {form : Form} {c : Node}

/-- The nodes that an expression is written with are expressions, or the rest of a path. -/
theorem IsExpression.child (h : form.IsExpression) (hc : c ∈ form.nodes) :
    c.IsExpression ∨ c.IsMember := by
  cases form <;> simp only [nodes, List.mem_cons, List.not_mem_nil, or_false] at hc
  case member object member =>
    obtain ⟨-, hobject, hmember⟩ := h
    rcases hc with rfl | rfl
    · exact .inl hobject
    · exact .inr hmember
  case group expr => exact .inl (hc ▸ h)
  case call callee args =>
    obtain ⟨-, hcallee, hargs⟩ := h
    rcases hc with rfl | hc
    · exact .inl hcallee
    · exact .inl (Node.areExpressions_iff.1 hargs c hc)
  case ternary condition thenBranch elseBranch =>
    obtain ⟨-, hcondition, hthen, helse⟩ := h
    rcases hc with rfl | rfl | rfl
    · exact .inl hcondition
    · exact .inl hthen
    · exact .inl helse
  case assign target op value =>
    obtain ⟨-, htarget, -, hvalue⟩ := h
    rcases hc with rfl | rfl
    · exact .inl htarget
    · exact .inl hvalue
  case chain kind first rest =>
    obtain ⟨level, -, -, hfirst, -, hrest⟩ := h
    rcases hc with rfl | hc
    · exact .inl hfirst
    · obtain ⟨p, hp, rfl⟩ := List.mem_map.1 hc
      exact .inl (Node.areOperands_iff.1 hrest p hp).2.2
  case unary op operand => exact .inl (hc ▸ h.2.2)
  all_goals exact h.elim

theorem IsMember.child (h : form.IsMember) (hc : c ∈ form.nodes) : c.IsMember := by
  cases form <;> simp only [nodes, List.mem_cons, List.not_mem_nil, or_false] at hc
  case member object member =>
    rcases hc with rfl | rfl
    · exact h.1.isMember
    · exact h.2
  all_goals exact h.elim

/-- The nodes that a statement is written with are expressions or statements. -/
theorem IsStatement.child (h : form.IsStatement) (hc : c ∈ form.nodes) :
    c.IsExpression ∨ c.IsStatement := by
  cases form
  case ret expr =>
    cases expr with
    | none => exact nomatch hc
    | some expr => exact .inl (List.mem_singleton.1 hc ▸ h)
  all_goals simp only [nodes, List.mem_cons, List.not_mem_nil, or_false] at hc
  case expression expr => exact .inl (hc ▸ h.1)
  case block statements => exact .inr (Node.areStatements_iff.1 h c hc)
  case function name params body source => exact .inr (hc ▸ Block.isBody_node h.2.2)
  case declaration name value isMutable => exact .inl (hc ▸ h.2)
  all_goals exact h.elim

end Form

namespace Node

variable {root node : Node}

/-- What a node is written with has a place in a program if the node does. -/
theorem IsGrammatical.child (h : node.IsGrammatical) {c : Node} (hc : c ∈ node.form.nodes) :
    c.IsGrammatical := by
  rcases h with h | h | h | ⟨statements, hform, h⟩
  · exact (((node.isExpression_iff.1 h).child hc).imp_right .inl)
  · exact .inr (.inl ((node.isMember_iff.1 h).child hc))
  · exact ((node.isStatement_iff.1 h).child hc).imp_right fun h => .inr (.inl h)
  · rw [hform] at hc
    exact .inr (.inr (.inl (areStatements_iff.1 h c hc)))

theorem Stands.exists_child {i : Nat} (h : root.Stands i node) {c : Node} (hc : c ∈ node.form.nodes) :
    ∃ j, root.Stands j c := by
  obtain ⟨j, hj⟩ := Item.exists_mem_nodes (Form.node_mem_items.2 hc) i
  exact ⟨j, .child h hj⟩

/-- Every node of a program has its place there. -/
theorem Stands.isGrammatical {i : Nat} (h : root.Stands i node) (hroot : root.IsGrammatical) :
    node.IsGrammatical := by
  induction h with
  | root => exact hroot
  | child _ hc ih => exact ih.child (Form.node_mem_items.1 (Item.mem_of_nodes hc))

/-- A group has an expression in it. -/
theorem IsGrammatical.group (h : node.IsGrammatical) {expr : Node} (hform : node.form = .group expr) :
    expr.IsExpression := by
  rcases h with h | h | h | ⟨statements, hscript, -⟩
  · rw [node.isExpression_iff, hform] at h
    exact h
  · rw [node.isMember_iff, hform] at h
    exact h.elim
  · rw [node.isStatement_iff, hform] at h
    exact h.elim
  · exact nomatch hform.symm.trans hscript

/-- A function declaration has a body of statements. -/
theorem IsGrammatical.body (h : node.IsGrammatical) {name source : String} {params : List String}
    {body : Block} (hform : node.form = .function name params body source) : body.IsBody := by
  rcases h with h | h | h | ⟨statements, hscript, -⟩
  · rw [node.isExpression_iff, hform] at h
    exact h.elim
  · rw [node.isMember_iff, hform] at h
    exact h.elim
  · rw [node.isStatement_iff, hform] at h
    exact h.2.2
  · exact nomatch hform.symm.trans hscript

end Node

end Scriptlet
