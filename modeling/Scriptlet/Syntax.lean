import Scriptlet.Location

/-!
# Syntax trees

A program is a tree of nodes.  Expressions and statements share one type, because a host may
build a tree by hand and hand it to the evaluator, which says what it makes of a node in an
unexpected place.  Literals keep their source text and operators their spelling; both are
interpreted when the node is evaluated.
-/

namespace Scriptlet

set_option autoImplicit false

mutual

/-- A node: what it says and where it stands in the source, if it comes from one. -/
structure Node where
  loc : Option Location
  form : Form

/-- What a node says. -/
inductive Form where
  /-- A node that says nothing. -/
  | bare
  | number (text : String)
  | string (text : String)
  | boolean (text : String)
  | null
  | ident (name : String)
  /-- `object.member`; longer paths nest to the right. -/
  | member (object member : Node)
  /-- A parenthesised expression. -/
  | group (expr : Node)
  | call (callee : Node) (args : List Node)
  | ternary (condition thenBranch elseBranch : Node)
  | assign (target : Node) (op : String) (value : Node)
  /-- A run of operators of one precedence, applied from left to right. -/
  | chain (kind : String) (first : Node) (rest : List (String × Node))
  | unary (op : String) (operand : Node)
  | expression (expr : Node)
  | block (statements : List Node)
  /-- A function declaration; `source` is the text of its body, braces included. -/
  | function (name : String) (params : List String) (body : Block) (source : String)
  | declaration (name : String) (value : Node) (isMutable : Bool)
  | ret (expr : Option Node)
  | script (statements : List Node)

/-- The braced statements of a function body. -/
structure Block where
  loc : Option Location
  statements : List Node

end

instance : Inhabited Node := ⟨⟨none, .bare⟩⟩

namespace Form

/-- The name of a form in error messages. -/
def label : Form → String
  | bare => "Node"
  | number _ => "NumberLiteral"
  | string _ => "StringLiteral"
  | boolean _ => "BooleanLiteral"
  | null => "NullLiteral"
  | ident _ => "Identifier"
  | member _ _ => "MemberAccess"
  | group _ => "Group"
  | call _ _ => "Call"
  | ternary _ _ _ => "Ternary"
  | assign _ _ _ => "Assignment"
  | chain _ _ _ => "BinaryChain"
  | unary _ _ => "Unary"
  | expression _ => "ExpressionStatement"
  | block _ => "Block"
  | function _ _ _ _ => "FunctionDeclaration"
  | declaration _ _ _ => "Declaration"
  | ret _ => "ReturnStatement"
  | script _ => "Script"

end Form

end Scriptlet
