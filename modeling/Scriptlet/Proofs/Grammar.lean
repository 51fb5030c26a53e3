import Scriptlet.Parser

/-!
# The grammar

Which trees are programs, and the texts that they are written with.  `Node.IsExpression` and
`Node.IsStatement` follow the rules of the grammar: an operand binds tighter than the operator it
belongs to, and a literal has the shape of its terminal.  `Node.texts` writes a tree out token by
token, and `Node.render` puts one blank between the tokens.
-/

namespace Scriptlet

set_option autoImplicit false

/-! ## Words and literals -/

/-- A letter or an underscore, and then letters, underscores and digits. -/
def IsWord : List Char → Prop
  | [] => False
  | c :: rest => Lexer.isWordStart c ∧ ∀ d ∈ rest, Lexer.isWordPart d

/-- One digit or more. -/
def IsNumeral (cs : List Char) : Prop :=
  cs ≠ [] ∧ ∀ d ∈ cs, Numeral.isDigit d

/-- What may stand between two quotes `q`: a backslash goes with the character after it. -/
inductive IsStringBody (q : Char) : List Char → Prop where
  | nil : IsStringBody q []
  | plain {c : Char} {rest : List Char} (hq : c ≠ q) (hs : c ≠ '\\') (hn : c ≠ '\n')
      (h : IsStringBody q rest) : IsStringBody q (c :: rest)
  | escaped {c : Char} {rest : List Char} (hn : c ≠ '\n') (h : IsStringBody q rest) :
      IsStringBody q ('\\' :: c :: rest)

/-- A body between two quotes of one kind. -/
def IsQuoted (cs : List Char) : Prop :=
  ∃ q body, (q = '"' ∨ q = '\'') ∧ cs = q :: (body ++ [q]) ∧ IsStringBody q body

/-- The words that are literals. -/
def literalWords : List String := ["true", "false", "null"]

/-- The words that open a statement. -/
def openingWords : List String := ["function", "let", "const", "return"]

instance (cs : List Char) : Decidable (IsWord cs) :=
  match cs with
  | [] => isFalse id
  | c :: rest =>
    decidable_of_iff (Lexer.isWordStart c && rest.all Lexer.isWordPart) (by simp [IsWord])

instance (cs : List Char) : Decidable (IsNumeral cs) :=
  decidable_of_iff (!cs.isEmpty && cs.all Numeral.isDigit) (by simp [IsNumeral])

/-! ## Levels -/

/-- How tight an expression binds, from tight to loose. -/
inductive Level where
  | primary | unary | product | sum | comparison | expression
deriving DecidableEq, Repr

namespace Level

/-- The place of a level among them all. -/
def rank : Level → Nat
  | primary => 0
  | unary => 1
  | product => 2
  | sum => 3
  | comparison => 4
  | expression => 5

instance : LE Level := ⟨fun a b => a.rank ≤ b.rank⟩

instance : LT Level := ⟨fun a b => a.rank < b.rank⟩

theorem le_def {a b : Level} : a ≤ b ↔ a.rank ≤ b.rank := Iff.rfl

instance (a b : Level) : Decidable (a ≤ b) := inferInstanceAs (Decidable (a.rank ≤ b.rank))

instance (a b : Level) : Decidable (a < b) := inferInstanceAs (Decidable (a.rank < b.rank))

theorem le_of_lt {a b : Level} (h : a < b) : a ≤ b := Nat.le_of_lt h

theorem le_expression (a : Level) : a ≤ expression := by
  cases a <;> decide

theorem eq_primary {a : Level} (h : a ≤ primary) : a = primary := by
  cases a with
  | primary => rfl
  | _ => exact absurd h (by decide)

/-- The operators of a level. -/
def operators : Level → List String
  | primary => []
  | unary => ["-", "!"]
  | product => ["*", "/", "%"]
  | sum => ["+", "-"]
  | comparison => ["==", "===", "!=", "!==", "<", ">", "<=", ">="]
  | expression => ["=", "+=", "-=", "*=", "/="]

/-- The level of the runs of operators of a kind. -/
def ofKind? (kind : String) : Option Level :=
  if kind = "product" then some product
  else if kind = "sum" then some sum
  else if kind = "comparison" then some comparison
  else none

theorem ofKind?_cases {kind : String} {level : Level} (h : ofKind? kind = some level) :
    kind = "product" ∧ level = product ∨ kind = "sum" ∧ level = sum ∨
      kind = "comparison" ∧ level = comparison := by
  unfold ofKind? at h
  split at h
  · next hk => exact .inl ⟨hk, (Option.some.inj h).symm⟩
  · split at h
    · next hk => exact .inr (.inl ⟨hk, (Option.some.inj h).symm⟩)
    · split at h
      · next hk => exact .inr (.inr ⟨hk, (Option.some.inj h).symm⟩)
      · exact nomatch h

end Level

/-- How tight a form binds. -/
def Form.level : Form → Level
  | .number _ | .string _ | .boolean _ | .null | .ident _ | .member _ _ | .group _ | .call _ _ =>
    .primary
  | .unary _ _ => .unary
  | .chain kind _ _ => (Level.ofKind? kind).getD .expression
  | _ => .expression

/-- How tight a node binds. -/
def Node.level (node : Node) : Level :=
  node.form.level

/-! ## Token texts -/

mutual

/-- The texts of the tokens that a node is written with. -/
def Node.texts : Node → List String
  | ⟨_, form⟩ => form.texts

/-- The texts of the tokens that a form is written with. -/
def Form.texts : Form → List String
  | .bare => []
  | .number text | .string text | .boolean text => [text]
  | .null => ["null"]
  | .ident name => [name]
  | .member object member => object.texts ++ "." :: member.texts
  | .group expr => "(" :: expr.texts ++ [")"]
  | .call callee args => callee.texts ++ "(" :: Node.argTexts args ++ [")"]
  | .ternary condition thenBranch elseBranch =>
    condition.texts ++ "?" :: thenBranch.texts ++ ":" :: elseBranch.texts
  | .assign target op value => target.texts ++ op :: value.texts
  | .chain _ first rest => first.texts ++ Node.operandTexts rest
  | .unary op operand => op :: operand.texts
  | .expression expr => expr.texts ++ [";"]
  | .block statements => "\x7b" :: Node.allTexts statements ++ ["\x7d"]
  | .function name params body _ =>
    "function" :: name :: "(" :: params.intersperse "," ++ ")" :: body.texts
  | .declaration name value isMutable =>
    (if isMutable then "let" else "const") :: name :: "=" :: value.texts ++ [";"]
  | .ret none => ["return", ";"]
  | .ret (some expr) => "return" :: expr.texts ++ [";"]
  | .script statements => Node.allTexts statements

/-- The texts of a function body. -/
def Block.texts : Block → List String
  | ⟨_, statements⟩ => "\x7b" :: Node.allTexts statements ++ ["\x7d"]

/-- The texts of nodes one after the other. -/
def Node.allTexts : List Node → List String
  | [] => []
  | node :: rest => node.texts ++ Node.allTexts rest

/-- The texts of arguments, with commas between them. -/
def Node.argTexts : List Node → List String
  | [] => []
  | [node] => node.texts
  | node :: next :: rest => node.texts ++ "," :: Node.argTexts (next :: rest)

/-- The texts of operands, each with its operator in front of it. -/
def Node.operandTexts : List (String × Node) → List String
  | [] => []
  | (op, node) :: rest => op :: node.texts ++ Node.operandTexts rest

end

/-- A tree as text, with one blank between its tokens. -/
def Node.render (node : Node) : String :=
  " ".intercalate node.texts

/-- A function body as text, with one blank between its tokens. -/
def Block.render (body : Block) : String :=
  " ".intercalate body.texts

/-- A text with separators in it, character by character. -/
theorem toList_intercalate (separator text : String) (texts : List String) :
    (String.intercalate separator (text :: texts)).toList =
      text.toList ++ texts.flatMap fun t => separator.toList ++ t.toList := by
  induction texts generalizing text with
  | nil => simp
  | cons next texts ih =>
    rw [String.intercalate_cons_cons, String.toList_append, String.toList_append, ih,
      List.flatMap_cons, List.append_assoc, List.append_assoc]

/-! ## Trees up to their places -/

mutual

/-- A tree with no locations, in which `source` gives each function its source text. -/
def Node.stripped (source : Block → String → String) : Node → Node
  | ⟨_, form⟩ => ⟨none, form.stripped source⟩

/-- A form with no locations, in which `source` gives each function its source text. -/
def Form.stripped (source : Block → String → String) : Form → Form
  | .bare => .bare
  | .number text => .number text
  | .string text => .string text
  | .boolean text => .boolean text
  | .null => .null
  | .ident name => .ident name
  | .member object member => .member (object.stripped source) (member.stripped source)
  | .group expr => .group (expr.stripped source)
  | .call callee args => .call (callee.stripped source) (Node.strippedAll source args)
  | .ternary condition thenBranch elseBranch =>
    .ternary (condition.stripped source) (thenBranch.stripped source) (elseBranch.stripped source)
  | .assign target op value => .assign (target.stripped source) op (value.stripped source)
  | .chain kind first rest =>
    .chain kind (first.stripped source) (Node.strippedOperands source rest)
  | .unary op operand => .unary op (operand.stripped source)
  | .expression expr => .expression (expr.stripped source)
  | .block statements => .block (Node.strippedAll source statements)
  | .function name params body text =>
    .function name params (body.stripped source) (source body text)
  | .declaration name value isMutable => .declaration name (value.stripped source) isMutable
  | .ret none => .ret none
  | .ret (some expr) => .ret (some (expr.stripped source))
  | .script statements => .script (Node.strippedAll source statements)

/-- A function body with no locations. -/
def Block.stripped (source : Block → String → String) : Block → Block
  | ⟨_, statements⟩ => ⟨none, Node.strippedAll source statements⟩

/-- Trees with no locations. -/
def Node.strippedAll (source : Block → String → String) : List Node → List Node
  | [] => []
  | node :: rest => node.stripped source :: Node.strippedAll source rest

/-- Operands with no locations. -/
def Node.strippedOperands (source : Block → String → String) :
    List (String × Node) → List (String × Node)
  | [] => []
  | (op, node) :: rest => (op, node.stripped source) :: Node.strippedOperands source rest

end

theorem Node.strippedAll_eq_map (source : Block → String → String) (nodes : List Node) :
    Node.strippedAll source nodes = nodes.map (·.stripped source) := by
  induction nodes with
  | nil => rfl
  | cons node rest ih => rw [Node.strippedAll, ih, List.map_cons]

theorem Node.strippedOperands_eq_map (source : Block → String → String)
    (operands : List (String × Node)) :
    Node.strippedOperands source operands = operands.map fun q => (q.1, q.2.stripped source) := by
  induction operands with
  | nil => rfl
  | cons q rest ih =>
    obtain ⟨op, node⟩ := q
    rw [Node.strippedOperands, ih, List.map_cons]

/-- A tree with no locations. -/
def Node.unplaced (node : Node) : Node :=
  node.stripped fun _ source => source

/-- A tree with no locations, in which the source text of a function is its body as text. -/
def Node.rendered (node : Node) : Node :=
  node.stripped fun body _ => body.render

/-- A tree with no locations, in which no function has a source text. -/
def Node.bare (node : Node) : Node :=
  node.stripped fun _ _ => ""

section Bare

variable {source : Block → String → String}

mutual

/-- The source texts that a tree was given do not show in the bare tree. -/
theorem Node.bare_stripped : (node : Node) →
    (node.stripped source).stripped (fun _ _ => "") = node.stripped fun _ _ => ""
  | ⟨_, form⟩ => by simp only [Node.stripped, Form.bare_stripped form]

theorem Form.bare_stripped : (form : Form) →
    (form.stripped source).stripped (fun _ _ => "") = form.stripped fun _ _ => ""
  | .bare | .number _ | .string _ | .boolean _ | .null | .ident _ | .ret none => by
    simp only [Form.stripped]
  | .member a b => by simp only [Form.stripped, Node.bare_stripped a, Node.bare_stripped b]
  | .group a | .unary _ a | .expression a | .declaration _ a _ | .ret (some a) => by
    simp only [Form.stripped, Node.bare_stripped a]
  | .call a args => by
    simp only [Form.stripped, Node.bare_stripped a, Node.bare_strippedAll args]
  | .ternary a b c => by
    simp only [Form.stripped, Node.bare_stripped a, Node.bare_stripped b, Node.bare_stripped c]
  | .assign a _ b => by simp only [Form.stripped, Node.bare_stripped a, Node.bare_stripped b]
  | .chain _ a rest => by
    simp only [Form.stripped, Node.bare_stripped a, Node.bare_strippedOperands rest]
  | .function _ _ body _ => by simp only [Form.stripped, Block.bare_stripped body]
  | .block statements | .script statements => by
    simp only [Form.stripped, Node.bare_strippedAll statements]

theorem Block.bare_stripped : (body : Block) →
    (body.stripped source).stripped (fun _ _ => "") = body.stripped fun _ _ => ""
  | ⟨_, statements⟩ => by simp only [Block.stripped, Node.bare_strippedAll statements]

theorem Node.bare_strippedAll : (nodes : List Node) →
    Node.strippedAll (fun _ _ => "") (Node.strippedAll source nodes) =
      Node.strippedAll (fun _ _ => "") nodes
  | [] => rfl
  | node :: rest => by
    simp only [Node.strippedAll, Node.bare_stripped node, Node.bare_strippedAll rest]

theorem Node.bare_strippedOperands : (operands : List (String × Node)) →
    Node.strippedOperands (fun _ _ => "") (Node.strippedOperands source operands) =
      Node.strippedOperands (fun _ _ => "") operands
  | [] => rfl
  | (_, node) :: rest => by
    simp only [Node.strippedOperands, Node.bare_stripped node, Node.bare_strippedOperands rest]

end

theorem Node.bare_rendered (node : Node) : node.rendered.bare = node.bare :=
  node.bare_stripped

end Bare

/-! ## Programs -/

/-- A node that is a single word. -/
def Node.IsName (node : Node) : Prop :=
  match node.form with
  | .ident name => IsWord name.toList
  | _ => False

theorem Node.IsName.eq_ident {node : Node} (h : node.IsName) :
    ∃ name, node.form = .ident name ∧ IsWord name.toList := by
  unfold Node.IsName at h
  split at h
  · exact ⟨_, ‹_›, h⟩
  · exact h.elim

mutual

/-- What may stand after the `.` of a path: words with `.` between them. -/
def Node.IsMember : Node → Prop
  | ⟨_, form⟩ => form.IsMember

/-- A form that may stand after the `.` of a path. -/
def Form.IsMember : Form → Prop
  | .ident name => IsWord name.toList
  | .member object member => object.IsName ∧ member.IsMember
  | _ => False

end

/-- Whether a form is a name or a path of names. -/
def Form.isPath : Form → Bool
  | .ident _ | .member _ _ => true
  | _ => false

mutual

/-- A node that is an expression of the grammar. -/
def Node.IsExpression : Node → Prop
  | ⟨_, form⟩ => form.IsExpression

/-- A form that is an expression of the grammar. -/
def Form.IsExpression : Form → Prop
  | .number text => IsNumeral text.toList
  | .string text => IsQuoted text.toList
  | .boolean text => text = "true" ∨ text = "false"
  | .null => True
  | .ident name => IsWord name.toList ∧ name ∉ literalWords
  | .member object member =>
    (∃ name, object.form = .ident name) ∧ object.IsExpression ∧ member.IsMember
  | .group expr => expr.IsExpression
  | .call callee args => callee.form.isPath ∧ callee.IsExpression ∧ Node.AreExpressions args
  | .ternary condition thenBranch elseBranch =>
    condition.level ≤ .comparison ∧ condition.IsExpression ∧ thenBranch.IsExpression ∧
      elseBranch.IsExpression
  | .assign target op value =>
    target.level = .primary ∧ target.IsExpression ∧ op ∈ Level.expression.operators ∧
      value.IsExpression
  | .chain kind first rest =>
    ∃ level, Level.ofKind? kind = some level ∧ first.level < level ∧ first.IsExpression ∧
      rest ≠ [] ∧ Node.AreOperands level rest
  | .unary op operand =>
    op ∈ Level.unary.operators ∧ operand.level ≤ .unary ∧ operand.IsExpression
  | _ => False

/-- Nodes that are expressions. -/
def Node.AreExpressions : List Node → Prop
  | [] => True
  | node :: rest => node.IsExpression ∧ Node.AreExpressions rest

/-- Operators of one level, each with an operand that binds tighter. -/
def Node.AreOperands (level : Level) : List (String × Node) → Prop
  | [] => True
  | (op, node) :: rest =>
    op ∈ level.operators ∧ node.level < level ∧ node.IsExpression ∧ Node.AreOperands level rest

end

/-- Texts that do not start with a word that opens a statement. -/
def OpensExpression (texts : List String) : Prop :=
  ∀ text ∈ texts.head?, text ∉ openingWords

mutual

/-- A node that is a statement of the grammar. -/
def Node.IsStatement : Node → Prop
  | ⟨_, form⟩ => form.IsStatement

/-- A form that is a statement of the grammar. -/
def Form.IsStatement : Form → Prop
  | .expression expr => expr.IsExpression ∧ OpensExpression expr.texts
  | .block statements => Node.AreStatements statements
  | .function name params body _ =>
    IsWord name.toList ∧ (∀ p ∈ params, IsWord p.toList) ∧ body.IsBody
  | .declaration name value _ => IsWord name.toList ∧ value.IsExpression
  | .ret none => True
  | .ret (some expr) => expr.IsExpression
  | _ => False

/-- A block that is a function body. -/
def Block.IsBody : Block → Prop
  | ⟨_, statements⟩ => Node.AreStatements statements

/-- Nodes that are statements. -/
def Node.AreStatements : List Node → Prop
  | [] => True
  | node :: rest => node.IsStatement ∧ Node.AreStatements rest

end

/-- A node that is a program of a rule. -/
def Node.Fits (node : Node) : Rule → Prop
  | .expression => node.IsExpression
  | .script => ∃ statements, node.form = .script statements ∧ Node.AreStatements statements

end Scriptlet
