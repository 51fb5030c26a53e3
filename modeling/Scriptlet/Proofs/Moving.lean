import Scriptlet.Proofs.TreeMaps

/-!
# Trees with other locations

`Node.moved` gives every location of a tree, those in function bodies included, another one.
`Node.spots` lists the locations of a tree that belong to its own code: what stands in a function
body is left to the calls of the function.
-/

namespace Scriptlet

set_option autoImplicit false

/-! ## Moving a tree -/

mutual

/-- A tree whose locations are moved. -/
def Node.moved (move : Location → Location) : Node → Node
  | ⟨loc, form⟩ => ⟨loc.map move, form.moved move⟩

/-- A form whose locations are moved. -/
def Form.moved (move : Location → Location) : Form → Form
  | .bare => .bare
  | .number text => .number text
  | .string text => .string text
  | .boolean text => .boolean text
  | .null => .null
  | .ident name => .ident name
  | .member object member => .member (object.moved move) (member.moved move)
  | .group expr => .group (expr.moved move)
  | .call callee args => .call (callee.moved move) (Node.movedAll move args)
  | .ternary condition thenBranch elseBranch =>
    .ternary (condition.moved move) (thenBranch.moved move) (elseBranch.moved move)
  | .assign target op value => .assign (target.moved move) op (value.moved move)
  | .chain kind first rest => .chain kind (first.moved move) (Node.movedOperands move rest)
  | .unary op operand => .unary op (operand.moved move)
  | .expression expr => .expression (expr.moved move)
  | .block statements => .block (Node.movedAll move statements)
  | .function name params body source => .function name params (body.moved move) source
  | .declaration name value isMutable => .declaration name (value.moved move) isMutable
  | .ret none => .ret none
  | .ret (some expr) => .ret (some (expr.moved move))
  | .script statements => .script (Node.movedAll move statements)

/-- A function body whose locations are moved. -/
def Block.moved (move : Location → Location) : Block → Block
  | ⟨loc, statements⟩ => ⟨loc.map move, Node.movedAll move statements⟩

/-- Trees whose locations are moved. -/
def Node.movedAll (move : Location → Location) : List Node → List Node
  | [] => []
  | node :: rest => node.moved move :: Node.movedAll move rest

/-- Operands whose locations are moved. -/
def Node.movedOperands (move : Location → Location) : List (String × Node) → List (String × Node)
  | [] => []
  | (op, node) :: rest => (op, node.moved move) :: Node.movedOperands move rest

end

variable {move move' : Location → Location}

theorem Node.movedAll_eq_map (nodes : List Node) :
    Node.movedAll move nodes = nodes.map (·.moved move) := by
  induction nodes with
  | nil => rfl
  | cons node rest ih => rw [Node.movedAll, ih, List.map_cons]

theorem Node.movedOperands_eq_map (operands : List (String × Node)) :
    Node.movedOperands move operands = operands.map (Prod.map id (Node.moved move)) := by
  induction operands with
  | nil => rfl
  | cons p rest ih =>
    obtain ⟨op, node⟩ := p
    rw [Node.movedOperands, ih, List.map_cons, Prod.map_apply, id_eq]

theorem Form.moved_eq_map (form : Form) : form.moved move = form.map move (Node.moved move) := by
  cases form with
  | ret expr => cases expr <;> simp only [moved, map]
  | function name params body source =>
    obtain ⟨loc, statements⟩ := body
    rw [moved, map, Block.moved, Node.movedAll_eq_map]
  | _ => simp only [moved, map, Node.movedAll_eq_map, Node.movedOperands_eq_map]

/-- A tree that is moved twice is moved by both moves in turn. -/
theorem Node.moved_moved (node : Node) :
    (node.moved move).moved move' = node.moved (move' ∘ move) := by
  induction node using Node.induction with
  | step loc form ih =>
    have hform : form.map (move' ∘ move) (moved move' ∘ moved move) =
        form.map (move' ∘ move) (moved (move' ∘ move)) := Form.map_congr ih
    rw [moved, moved, moved, Option.map_map, Form.moved_eq_map, Form.moved_eq_map, Form.moved_eq_map,
      Form.map_map, hform]

/-- A tree whose locations stay is the same tree. -/
theorem Node.moved_id (node : Node) : node.moved id = node := by
  induction node using Node.induction with
  | step loc form ih =>
    have hform : form.map id (moved id) = form.map id id := Form.map_congr ih
    rw [moved, Option.map_id_fun, id_eq, Form.moved_eq_map, hform, Form.map_id]

/-! ## The locations of a tree -/

mutual

/-- The locations in a tree; those in function bodies do not count. -/
@[simp] def Node.spots : Node → List Location
  | ⟨loc, form⟩ => loc.toList ++ form.spots

/-- The locations in a form; those in function bodies do not count. -/
@[simp] def Form.spots : Form → List Location
  | .bare | .number _ | .string _ | .boolean _ | .null | .ident _ => []
  | .function _ _ _ _ | .ret none => []
  | .member object member => object.spots ++ member.spots
  | .group expr | .unary _ expr | .expression expr | .declaration _ expr _ | .ret (some expr) =>
    expr.spots
  | .call callee args => callee.spots ++ Node.allSpots args
  | .ternary condition thenBranch elseBranch =>
    condition.spots ++ (thenBranch.spots ++ elseBranch.spots)
  | .assign target _ value => target.spots ++ value.spots
  | .chain _ first rest => first.spots ++ Node.operandSpots rest
  | .block statements | .script statements => Node.allSpots statements

/-- The locations in trees. -/
@[simp] def Node.allSpots : List Node → List Location
  | [] => []
  | node :: rest => node.spots ++ Node.allSpots rest

/-- The locations in operands. -/
@[simp] def Node.operandSpots : List (String × Node) → List Location
  | [] => []
  | (_, node) :: rest => node.spots ++ Node.operandSpots rest

end

theorem Node.forall_mem_allSpots {P : Location → Prop} {nodes : List Node} :
    (∀ l ∈ Node.allSpots nodes, P l) ↔ ∀ node ∈ nodes, ∀ l ∈ node.spots, P l := by
  induction nodes with
  | nil => exact iff_of_true (List.forall_mem_nil _) (List.forall_mem_nil _)
  | cons node rest ih => rw [Node.allSpots, List.forall_mem_append, ih, List.forall_mem_cons]

theorem Node.forall_mem_operandSpots {P : Location → Prop} {rest : List (String × Node)} :
    (∀ l ∈ Node.operandSpots rest, P l) ↔ ∀ p ∈ rest, ∀ l ∈ p.2.spots, P l := by
  induction rest with
  | nil => exact iff_of_true (List.forall_mem_nil _) (List.forall_mem_nil _)
  | cons p rest ih => rw [Node.operandSpots, List.forall_mem_append, ih, List.forall_mem_cons]

end Scriptlet
