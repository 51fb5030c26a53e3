import Scriptlet.Syntax
import Scriptlet.Token

/-!
# Reading a syntax tree token by token

A `State` holds everything read so far: the statements and expressions that are still open,
each with the parts it already has, and what may come next.  `State.feed` takes one token to
the next state, or to none where the token cannot continue the program; `State.finish` gives
the tree if the program may end.

Expressions nest as ternary, assignment, comparison, sum, product, unary, primary.  Operators
that wait for their next operand are kept by level in `Pending`, so precedence is the order in
which its levels are closed.  The branch after `:` and the value after an assignment operator
take in everything up to the next closing mark; a `?` therefore always belongs to the nearest
expression before it.
-/

namespace Scriptlet.Reader

set_option autoImplicit false

/-- A finished node and the part of the source that it covers. -/
structure Part where
  node : Node
  start : Cursor
  stop : Nat

namespace Part

/-- The node of a form that covers the source from `start` to `stop`. -/
def build (form : Form) (start : Cursor) (stop : Nat) : Part :=
  ⟨⟨some (start.locate stop), form⟩, start, stop⟩

/-- The node of a form that a single token stands for. -/
def ofToken (form : Form) (t : Token) : Part :=
  build form t.start t.stop

/-- A name. -/
def ident (t : Token) : Part :=
  ofToken (.ident t.text) t

/-- The path of names, nested to the right. -/
def path : Token → List Token → Part
  | t, [] => ident t
  | t, u :: us =>
    let tail := path u us
    build (.member (ident t).node tail.node) t.start tail.stop

end Part

/-- A run of operators of one level that waits for the operand after `op`. -/
structure OpenChain where
  first : Part
  rest : List (String × Part)
  op : String

namespace OpenChain

/-- The operators read so far, with the operand `e` after the last one. -/
def operands (run : OpenChain) (e : Part) : List (String × Part) :=
  run.rest ++ [(run.op, e)]

/-- The finished run, whose last operand is `e`. -/
def close (kind : String) (run : OpenChain) (e : Part) : Part :=
  .build (.chain kind run.first.node ((run.operands e).map fun p => (p.1, p.2.node)))
    run.first.start e.stop

/-- The run that goes on with `op` after the operand `e`, opened if there is none. -/
def extend (op : String) (e : Part) : Option OpenChain → OpenChain
  | none => ⟨e, [], op⟩
  | some run => ⟨run.first, run.operands e, op⟩

end OpenChain

/-- The operators in front of an operand, by level; unary ones innermost first. -/
structure Pending where
  comparison : Option OpenChain
  sum : Option OpenChain
  product : Option OpenChain
  unary : List Token

namespace Pending

/-- No operator waits. -/
def empty : Pending := ⟨none, none, none, []⟩

/-- Whether no operator waits. -/
def isEmpty (p : Pending) : Bool :=
  p.comparison.isNone && p.sum.isNone && p.product.isNone && p.unary.isEmpty

/-- Closes a level around an operand. -/
def closeLevel (kind : String) (level : Option OpenChain) (e : Part) : Part :=
  match level with
  | none => e
  | some run => run.close kind e

/-- The operand with its unary operators. -/
def toUnary (p : Pending) (e : Part) : Part :=
  p.unary.foldl (fun e op => .build (.unary op.text e.node) op.start e.stop) e

/-- The product that ends with the operand. -/
def toProduct (p : Pending) (e : Part) : Part :=
  closeLevel "product" p.product (p.toUnary e)

/-- The sum that ends with the operand. -/
def toSum (p : Pending) (e : Part) : Part :=
  closeLevel "sum" p.sum (p.toProduct e)

/-- The comparison that ends with the operand. -/
def toComparison (p : Pending) (e : Part) : Part :=
  closeLevel "comparison" p.comparison (p.toSum e)

/-- The waiting operators after the operand `e` and the binary operator `t`, if it is one. -/
def binary? (p : Pending) (e : Part) (t : Token) : Option Pending :=
  match t.terminal with
  | .star | .slash | .percent =>
    some { p with product := some (.extend t.text (p.toUnary e) p.product), unary := [] }
  | .plus | .minus =>
    some { p with sum := some (.extend t.text (p.toProduct e) p.sum), product := none, unary := [] }
  | .equalEqual | .identical | .bangEqual | .notIdentical | .less | .more | .lessEqual
  | .moreEqual =>
    some ⟨some (.extend t.text (p.toSum e) p.comparison), none, none, []⟩
  | _ => none

end Pending

/-- The head of a function declaration, up to its parameters. -/
structure Header where
  keyword : Token
  name : Token
  params : List Token

/-- The open statement lists around a statement, with the statements already read. -/
inductive Place where
  | script (done : List Part)
  | block (lbrace : Token) (done : List Part) (outer : Place)
  | body (header : Header) (lbrace : Token) (done : List Part) (outer : Place)

namespace Place

/-- Adds a finished statement. -/
def push (statement : Part) : Place → Place
  | script done => script (done ++ [statement])
  | block lbrace done outer => block lbrace (done ++ [statement]) outer
  | body header lbrace done outer => body header lbrace (done ++ [statement]) outer

/-- Closes the innermost list with a brace; the script itself has none. -/
def close? (rbrace : Token) : Place → Option Place
  | script _ => none
  | block lbrace done outer =>
    some (outer.push (.build (.block (done.map (·.node))) lbrace.start rbrace.stop))
  | body header lbrace done outer =>
    let loc := lbrace.start.locate rbrace.stop
    let form := .function header.name.text (header.params.map (·.text))
      ⟨some loc, done.map (·.node)⟩ (loc.text.getD "")
    some (outer.push (.build form header.keyword.start rbrace.stop))

end Place

mutual

/-- Where an expression stands. -/
inductive Context where
  /-- It is the whole program. -/
  | whole
  | statement (place : Place)
  /-- It is the value of a declaration. -/
  | initial (keyword name : Token) (isMutable : Bool) (place : Place)
  | ret (keyword : Token) (place : Place)
  | group (lpar : Token) (outer : Hole)
  | arg (callee : Part) (done : List Part) (outer : Hole)
  | thenBranch (condition : Part) (outer : Context)
  | elseBranch (condition thenBranch : Part) (outer : Context)
  /-- It is the value of an assignment. -/
  | value (target : Part) (op : String) (outer : Context)

/-- The place of an operand: the operators in front of it and the expression around them. -/
structure Hole where
  pending : Pending
  context : Context

end

namespace Context

/-- The place of the first operand of an expression. -/
def hole (context : Context) : Hole :=
  ⟨.empty, context⟩

/-- Ends the assignments and else branches that an expression is the last part of. -/
def settle (e : Part) : Context → Part × Context
  | value target op outer =>
    settle (.build (.assign target.node op e.node) target.start e.stop) outer
  | elseBranch c t outer =>
    settle (.build (.ternary c.node t.node e.node) c.start e.stop) outer
  | context => (e, context)

end Context

/-- What has been read and what may come next. -/
inductive State where
  /-- Before a statement, or the end of a statement list. -/
  | statement (place : Place)
  /-- Before an operand. -/
  | operand (hole : Hole)
  /-- After an operand that no `.` or `(` can extend. -/
  | after (e : Part) (hole : Hole)
  /-- After a name or a path of names. -/
  | path (first : Token) (rest : List Token) (hole : Hole)
  /-- After the `.` of a path. -/
  | dot (first : Token) (rest : List Token) (hole : Hole)
  | functionName (keyword : Token) (place : Place)
  | functionParen (keyword name : Token) (place : Place)
  /-- After the `(` of a parameter list. -/
  | firstParam (keyword name : Token) (place : Place)
  | afterParam (header : Header) (place : Place)
  /-- After a `,` of a parameter list. -/
  | nextParam (header : Header) (place : Place)
  | functionBrace (header : Header) (place : Place)
  | declaredName (keyword : Token) (isMutable : Bool) (place : Place)
  | declaredEqual (keyword name : Token) (isMutable : Bool) (place : Place)

namespace State

/-- After the expression `e`, a token that ends it. -/
def closeWith (t : Token) (e : Part) (context : Context) : Option State :=
  match context, t.terminal with
  | .thenBranch c outer, .colon => some (.operand (Context.elseBranch c e outer).hole)
  | .group lpar outer, .rpar => some (.after (.build (.group e.node) lpar.start t.stop) outer)
  | .arg callee done outer, .comma =>
    some (.operand (Context.arg callee (done ++ [e]) outer).hole)
  | .arg callee done outer, .rpar =>
    let form := .call callee.node ((done ++ [e]).map (·.node))
    some (.after (.build form callee.start t.stop) outer)
  | .statement place, .semicolon =>
    some (.statement (place.push (.build (.expression e.node) e.start t.stop)))
  | .initial keyword name isMutable place, .semicolon =>
    let form := .declaration name.text e.node isMutable
    some (.statement (place.push (.build form keyword.start t.stop)))
  | .ret keyword place, .semicolon =>
    some (.statement (place.push (.build (.ret (some e.node)) keyword.start t.stop)))
  | _, _ => none

/-- After the operand `e`, a token that does not belong to it. -/
def feedAfter (e : Part) (hole : Hole) (t : Token) : Option State :=
  match t.terminal with
  | .equal | .plusEqual | .minusEqual | .starEqual | .slashEqual =>
    if hole.pending.isEmpty then
      some (.operand (Context.value e t.text hole.context).hole)
    else none
  | .qmark =>
    some (.operand (Context.thenBranch (hole.pending.toComparison e) hole.context).hole)
  | _ =>
    match hole.pending.binary? e t with
    | some pending => some (.operand ⟨pending, hole.context⟩)
    | none =>
      let settled := hole.context.settle (hole.pending.toComparison e)
      closeWith t settled.1 settled.2

/-- Before an operand, a token that ends an empty list of arguments or an empty return. -/
def closeEmpty (t : Token) (hole : Hole) : Option State :=
  if hole.pending.isEmpty then
    match hole.context, t.terminal with
    | .arg callee [] outer, .rpar =>
      some (.after (.build (.call callee.node []) callee.start t.stop) outer)
    | .ret keyword place, .semicolon =>
      some (.statement (place.push (.build (.ret none) keyword.start t.stop)))
    | _, _ => none
  else none

/-- Before an operand, the next token. -/
def feedOperand (hole : Hole) (t : Token) : Option State :=
  match t.terminal with
  | .minus | .bang =>
    some (.operand { hole with pending := { hole.pending with unary := t :: hole.pending.unary } })
  | .number => some (.after (.ofToken (.number t.text) t) hole)
  | .string => some (.after (.ofToken (.string t.text) t) hole)
  | .trueWord | .falseWord => some (.after (.ofToken (.boolean t.text) t) hole)
  | .nullWord => some (.after (.ofToken .null t) hole)
  | .ident => some (.path t [] hole)
  | .lpar => some (.operand (Context.group t hole).hole)
  | _ => closeEmpty t hole

/-- The state after one more token, unless the token cannot stand here. -/
def feed (state : State) (t : Token) : Option State :=
  match state with
  | statement place =>
    match t.terminal with
    | .lbrace => some (.statement (.block t [] place))
    | .rbrace => (place.close? t).map .statement
    | .functionWord => some (.functionName t place)
    | .letWord => some (.declaredName t true place)
    | .constWord => some (.declaredName t false place)
    | .returnWord => some (.operand (Context.ret t place).hole)
    | _ => feedOperand (Context.statement place).hole t
  | operand hole => feedOperand hole t
  | after e hole => feedAfter e hole t
  | path first rest hole =>
    match t.terminal with
    | .dot => some (.dot first rest hole)
    | .lpar => some (.operand (Context.arg (.path first rest) [] hole).hole)
    | _ => feedAfter (.path first rest) hole t
  | dot first rest hole =>
    match t.terminal with
    | .ident => some (.path first (rest ++ [t]) hole)
    | _ => none
  | functionName keyword place =>
    match t.terminal with
    | .ident => some (.functionParen keyword t place)
    | _ => none
  | functionParen keyword name place =>
    match t.terminal with
    | .lpar => some (.firstParam keyword name place)
    | _ => none
  | firstParam keyword name place =>
    match t.terminal with
    | .ident => some (.afterParam ⟨keyword, name, [t]⟩ place)
    | .rpar => some (.functionBrace ⟨keyword, name, []⟩ place)
    | _ => none
  | afterParam header place =>
    match t.terminal with
    | .comma => some (.nextParam header place)
    | .rpar => some (.functionBrace header place)
    | _ => none
  | nextParam header place =>
    match t.terminal with
    | .ident => some (.afterParam { header with params := header.params ++ [t] } place)
    | _ => none
  | functionBrace header place =>
    match t.terminal with
    | .lbrace => some (.statement (.body header t [] place))
    | _ => none
  | declaredName keyword isMutable place =>
    match t.terminal with
    | .ident => some (.declaredEqual keyword t isMutable place)
    | _ => none
  | declaredEqual keyword name isMutable place =>
    match t.terminal with
    | .equal => some (.operand (Context.initial keyword name isMutable place).hole)
    | _ => none

/-- The script made of the statements read; it has a location only if there is one. -/
def scriptNode (done : List Part) : Node :=
  match done.head?, done.getLast? with
  | some first, some last =>
    ⟨some (first.start.locate last.stop), .script (done.map (·.node))⟩
  | _, _ => ⟨none, .script []⟩

/-- After the expression `e`, the end of the program. -/
def finishAfter (e : Part) (hole : Hole) : Option Node :=
  let settled := hole.context.settle (hole.pending.toComparison e)
  match settled.2 with
  | .whole => some settled.1.node
  | _ => none

/-- The tree of the program, if it may end here. -/
def finish : State → Option Node
  | statement (.script done) => some (scriptNode done)
  | after e hole => finishAfter e hole
  | path first rest hole => finishAfter (.path first rest) hole
  | _ => none

end State

end Scriptlet.Reader
