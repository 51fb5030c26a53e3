import Scriptlet.Syntax

/-!
# Maps and inductions on trees

`Form.parts` are the nodes right below a form; those of a function declaration are the statements of its
body.  `Form.map` replaces them.  What holds of a node as soon as it holds of the parts of its form holds
of every node (`Node.induction`).
-/

namespace Scriptlet

set_option autoImplicit false

namespace Form

/-- The nodes right below a form. -/
def parts : Form → List Node
  | .bare | .number _ | .string _ | .boolean _ | .null | .ident _ | .ret none => []
  | .member object tail => [object, tail]
  | .group expr | .unary _ expr | .expression expr | .declaration _ expr _ | .ret (some expr) => [expr]
  | .call callee args => callee :: args
  | .ternary condition thenBranch elseBranch => [condition, thenBranch, elseBranch]
  | .assign target _ value => [target, value]
  | .chain _ first rest => first :: rest.map (·.2)
  | .block statements | .script statements => statements
  | .function _ _ body _ => body.statements

/-- A form in which every part is replaced, and the place of a function body moved. -/
def map (place : Location → Location) (f : Node → Node) : Form → Form
  | .bare => .bare
  | .number text => .number text
  | .string text => .string text
  | .boolean text => .boolean text
  | .null => .null
  | .ident name => .ident name
  | .member object tail => .member (f object) (f tail)
  | .group expr => .group (f expr)
  | .call callee args => .call (f callee) (args.map f)
  | .ternary condition thenBranch elseBranch => .ternary (f condition) (f thenBranch) (f elseBranch)
  | .assign target op value => .assign (f target) op (f value)
  | .chain kind first rest => .chain kind (f first) (rest.map (Prod.map id f))
  | .unary op operand => .unary op (f operand)
  | .expression expr => .expression (f expr)
  | .block statements => .block (statements.map f)
  | .function name params body source =>
    .function name params ⟨body.loc.map place, body.statements.map f⟩ source
  | .declaration name value isMutable => .declaration name (f value) isMutable
  | .ret none => .ret none
  | .ret (some expr) => .ret (some (f expr))
  | .script statements => .script (statements.map f)

variable {place place' : Location → Location} {f f' : Node → Node} {form : Form} {c : Node}

theorem map_map (form : Form) :
    (form.map place f).map place' f' = form.map (place' ∘ place) (f' ∘ f) := by
  cases form with
  | ret expr => cases expr <;> rfl
  | _ => simp only [map, List.map_map, Option.map_map, Prod.map_comp_map, Function.comp_apply,
      Function.comp_id]

theorem map_congr (h : ∀ c ∈ form.parts, f c = f' c) : form.map place f = form.map place f' := by
  cases form with
  | ret expr => cases expr <;> simp_all [map, parts]
  | chain kind first rest =>
    obtain ⟨hfirst, hrest⟩ := List.forall_mem_cons.1 h
    have hoperands : rest.map (Prod.map id f) = rest.map (Prod.map id f') :=
      List.map_congr_left fun p hp => Prod.ext rfl (hrest p.2 (List.mem_map_of_mem hp))
    rw [map, map, hfirst, hoperands]
  | _ => simp_all [map, parts]

theorem map_id (form : Form) : form.map id id = form := by
  cases form with
  | ret expr => cases expr <;> rfl
  | function name params body source =>
    obtain ⟨loc, statements⟩ := body
    simp [map]
  | _ => simp [map]

end Form

/-! ## Induction -/

variable {P : Node → Prop}

mutual

/-- An induction on trees: what holds of a node if it holds of the parts of its form holds of every
node. -/
theorem Node.induction (step : ∀ loc form, (∀ c ∈ form.parts, P c) → P ⟨loc, form⟩) :
    (node : Node) → P node
  | ⟨loc, form⟩ => step loc form (Form.induction step form)

theorem Form.induction (step : ∀ loc form, (∀ c ∈ form.parts, P c) → P ⟨loc, form⟩) :
    (form : Form) → ∀ c ∈ form.parts, P c
  | .bare | .number _ | .string _ | .boolean _ | .null | .ident _ | .ret none => List.forall_mem_nil P
  | .group a | .unary _ a | .expression a | .declaration _ a _ | .ret (some a) =>
    List.forall_mem_singleton.2 (Node.induction step a)
  | .member a b | .assign a _ b =>
    List.forall_mem_cons.2 ⟨Node.induction step a,
      List.forall_mem_singleton.2 (Node.induction step b)⟩
  | .ternary a b c =>
    List.forall_mem_cons.2 ⟨Node.induction step a, List.forall_mem_cons.2
      ⟨Node.induction step b, List.forall_mem_singleton.2 (Node.induction step c)⟩⟩
  | .call a args => List.forall_mem_cons.2 ⟨Node.induction step a, Node.inductionAll step args⟩
  | .chain _ a rest =>
    List.forall_mem_cons.2 ⟨Node.induction step a,
      List.forall_mem_map.2 (Node.inductionOperands step rest)⟩
  | .block statements | .script statements | .function _ _ ⟨_, statements⟩ _ =>
    Node.inductionAll step statements

theorem Node.inductionAll (step : ∀ loc form, (∀ c ∈ form.parts, P c) → P ⟨loc, form⟩) :
    (nodes : List Node) → ∀ c ∈ nodes, P c
  | [] => List.forall_mem_nil P
  | node :: rest => List.forall_mem_cons.2 ⟨Node.induction step node, Node.inductionAll step rest⟩

theorem Node.inductionOperands (step : ∀ loc form, (∀ c ∈ form.parts, P c) → P ⟨loc, form⟩) :
    (operands : List (String × Node)) → ∀ p ∈ operands, P p.2
  | [] => List.forall_mem_nil _
  | (_, node) :: rest =>
    List.forall_mem_cons.2 ⟨Node.induction step node, Node.inductionOperands step rest⟩

end

attribute [elab_as_elim] Node.induction

end Scriptlet
