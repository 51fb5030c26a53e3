import Scriptlet.Proofs.Lexical
import Scriptlet.Proofs.ReaderSteps

/-!
# The parser is sound

`State.texts` writes out what a state of the reader holds, and `State.Sound` says that its parts are
of the grammar.  One token more adds its text at the end and keeps the parts sound (`feed_sound`), so
the tree that is read is a program, and it is written with the tokens of the source.
-/

namespace Scriptlet

set_option autoImplicit false

/-! ## Lists of nodes -/

namespace Node

theorem allTexts_append (xs ys : List Node) : allTexts (xs ++ ys) = allTexts xs ++ allTexts ys := by
  induction xs with
  | nil => rfl
  | cons x xs ih => rw [List.cons_append, allTexts, allTexts, ih, List.append_assoc]

theorem operandTexts_append (xs ys : List (String × Node)) :
    operandTexts (xs ++ ys) = operandTexts xs ++ operandTexts ys := by
  induction xs with
  | nil => rfl
  | cons x xs ih =>
    obtain ⟨op, node⟩ := x
    rw [List.cons_append, operandTexts, operandTexts, ih, List.append_assoc]

/-- The texts of arguments that another one follows. -/
def openArgTexts : List Node → List String
  | [] => []
  | node :: rest => node.texts ++ "," :: openArgTexts rest

theorem openArgTexts_append (xs ys : List Node) :
    openArgTexts (xs ++ ys) = openArgTexts xs ++ openArgTexts ys := by
  induction xs with
  | nil => rfl
  | cons x xs ih => rw [List.cons_append, openArgTexts, openArgTexts, ih]; simp

theorem argTexts_concat (xs : List Node) (node : Node) :
    argTexts (xs ++ [node]) = openArgTexts xs ++ node.texts := by
  induction xs with
  | nil => rfl
  | cons x xs ih =>
    cases xs with
    | nil => simp [argTexts, openArgTexts]
    | cons y ys =>
      rw [List.cons_append, List.cons_append, argTexts, openArgTexts, ← List.cons_append, ih]
      simp

theorem areExpressions_iff {nodes : List Node} :
    AreExpressions nodes ↔ ∀ node ∈ nodes, node.IsExpression := by
  induction nodes with
  | nil => simp [AreExpressions]
  | cons node nodes ih => simp [AreExpressions, ih]

theorem areStatements_iff {nodes : List Node} :
    AreStatements nodes ↔ ∀ node ∈ nodes, node.IsStatement := by
  induction nodes with
  | nil => simp [AreStatements]
  | cons node nodes ih => simp [AreStatements, ih]

theorem areOperands_iff {level : Level} {operands : List (String × Node)} :
    AreOperands level operands ↔ ∀ p ∈ operands, p.1 ∈ level.operators ∧ p.2.level < level ∧
      p.2.IsExpression := by
  induction operands with
  | nil => simp [AreOperands]
  | cons p operands ih =>
    obtain ⟨op, node⟩ := p
    simp [AreOperands, ih, and_assoc]

end Node

/-- What is separated, and one element more. -/
theorem intersperse_concat {α : Type} {xs : List α} (h : xs ≠ []) (sep last : α) :
    (xs ++ [last]).intersperse sep = xs.intersperse sep ++ [sep, last] := by
  induction xs with
  | nil => exact (h rfl).elim
  | cons first rest ih =>
    cases rest with
    | nil => rfl
    | cons second rest =>
      have := ih (List.cons_ne_nil _ _)
      rw [List.cons_append] at this
      simp [this]

namespace Reader

/-! ## What has been read -/

namespace Part

@[simp] theorem build_node (form : Form) (start : Cursor) (stop : Nat) :
    (build form start stop).node = ⟨some (start.locate stop), form⟩ := rfl

theorem texts_path (first : Token) (rest : List Token) :
    (path first rest).node.texts = ((first :: rest).map (·.text)).intersperse "." := by
  induction rest generalizing first with
  | nil => rfl
  | cons second rest ih =>
    rw [path, build_node, Node.texts, Form.texts, ih]
    rfl

end Part

/-- The texts of the nodes of parts. -/
def Part.allTexts (parts : List Part) : List String :=
  Node.allTexts (parts.map (·.node))

/-- The operators and operands of a run, with their nodes. -/
def OpenChain.nodes (run : OpenChain) : List (String × Node) :=
  run.rest.map fun p => (p.1, p.2.node)

/-- The texts of a run that waits for an operand. -/
def OpenChain.texts (run : OpenChain) : List String :=
  run.first.node.texts ++ Node.operandTexts run.nodes ++ [run.op]

/-- The texts of a level. -/
def Pending.levelTexts (level : Option OpenChain) : List String :=
  level.elim [] OpenChain.texts

/-- The texts of unary operators. -/
def Pending.unaryTexts (p : Pending) : List String :=
  p.unary.reverse.map (·.text)

/-- The texts of waiting operators and of the operands between them. -/
def Pending.texts (p : Pending) : List String :=
  levelTexts p.comparison ++ levelTexts p.sum ++ levelTexts p.product ++ p.unaryTexts

/-- The texts of the head of a function declaration. -/
def Header.texts (header : Header) : List String :=
  "function" :: header.name.text :: "(" ::
    (header.params.map (·.text)).intersperse "," ++ [")"]

/-- The texts of open statement lists. -/
def Place.texts : Place → List String
  | .script done => Part.allTexts done
  | .block _ done outer => outer.texts ++ "\x7b" :: Part.allTexts done
  | .body header _ done outer => outer.texts ++ header.texts ++ "\x7b" :: Part.allTexts done

/-- The texts up to the outermost expression around a place. -/
def Context.base : Context → List String
  | .whole => []
  | .statement place => place.texts
  | .initial _ name isMutable place =>
    place.texts ++ [if isMutable then "let" else "const", name.text, "="]
  | .ret _ place => place.texts ++ ["return"]
  | .group _ ⟨_, outer⟩ | .arg _ _ ⟨_, outer⟩ => outer.base
  | .thenBranch _ outer | .elseBranch _ _ outer | .value _ _ outer => outer.base

/-- The texts of the outermost expression around a place, up to that place. -/
def Context.inner : Context → List String
  | .whole | .statement _ | .initial _ _ _ _ | .ret _ _ => []
  | .group _ ⟨pending, outer⟩ => outer.inner ++ pending.texts ++ ["("]
  | .arg callee done ⟨pending, outer⟩ =>
    outer.inner ++ pending.texts ++ callee.node.texts ++
      "(" :: Node.openArgTexts (done.map (·.node))
  | .thenBranch condition outer => outer.inner ++ condition.node.texts ++ ["?"]
  | .elseBranch condition yes outer =>
    outer.inner ++ condition.node.texts ++ "?" :: yes.node.texts ++ [":"]
  | .value target op outer => outer.inner ++ target.node.texts ++ [op]

/-- Whether the outermost expression around a place is a statement. -/
def Context.inStatement : Context → Prop
  | .statement _ => True
  | .whole | .initial _ _ _ _ | .ret _ _ => False
  | .group _ ⟨_, outer⟩ | .arg _ _ ⟨_, outer⟩ => outer.inStatement
  | .thenBranch _ outer | .elseBranch _ _ outer | .value _ _ outer => outer.inStatement

/-- The texts of the outermost expression around an operand, up to the operand. -/
def Hole.inner (hole : Hole) : List String :=
  hole.context.inner ++ hole.pending.texts

/-- The texts that a state has read. -/
def State.texts : State → List String
  | .statement place => place.texts
  | .operand hole => hole.context.base ++ hole.inner
  | .after e hole => hole.context.base ++ (hole.inner ++ e.node.texts)
  | .path first rest hole => hole.context.base ++ (hole.inner ++ (Part.path first rest).node.texts)
  | .dot first rest hole =>
    hole.context.base ++ (hole.inner ++ (Part.path first rest).node.texts) ++ ["."]
  | .functionName _ place => place.texts ++ ["function"]
  | .functionParen _ name place => place.texts ++ ["function", name.text]
  | .firstParam _ name place => place.texts ++ ["function", name.text, "("]
  | .afterParam header place =>
    place.texts ++ "function" :: header.name.text :: "(" ::
      (header.params.map (·.text)).intersperse ","
  | .nextParam header place =>
    place.texts ++ "function" :: header.name.text :: "(" ::
      (header.params.map (·.text)).intersperse "," ++ [","]
  | .functionBrace header place => place.texts ++ header.texts
  | .declaredName _ isMutable place => place.texts ++ [if isMutable then "let" else "const"]
  | .declaredEqual _ name isMutable place =>
    place.texts ++ [if isMutable then "let" else "const", name.text]

namespace OpenChain

theorem nodes_extend (op : String) (e : Part) (run : OpenChain) :
    (extend op e (some run)).nodes = run.nodes ++ [(run.op, e.node)] := by
  simp [extend, nodes, operands]

@[simp] theorem texts_extend (op : String) (e : Part) (level : Option OpenChain) :
    (extend op e level).texts = Pending.levelTexts level ++ e.node.texts ++ [op] := by
  cases level with
  | none => simp [texts, extend, nodes, Pending.levelTexts, Node.operandTexts]
  | some run =>
    rw [texts, nodes_extend, Node.operandTexts_append]
    simp [extend, Pending.levelTexts, texts, Node.operandTexts]

end OpenChain

namespace Pending

@[simp] theorem levelTexts_none : levelTexts none = [] := rfl

@[simp] theorem levelTexts_some (run : OpenChain) : levelTexts (some run) = run.texts := rfl

@[simp] theorem texts_empty : empty.texts = [] := rfl

@[simp] theorem texts_closeLevel (kind : String) (level : Option OpenChain) (e : Part) :
    (closeLevel kind level e).node.texts = levelTexts level ++ e.node.texts := by
  cases level with
  | none => rfl
  | some run =>
    simp [closeLevel, OpenChain.close, OpenChain.operands, Node.texts, Form.texts,
      Node.operandTexts_append, Node.operandTexts, OpenChain.texts, OpenChain.nodes]

@[simp] theorem texts_toUnary (p : Pending) (e : Part) :
    (p.toUnary e).node.texts = p.unaryTexts ++ e.node.texts := by
  obtain ⟨comparison, sum, product, unary⟩ := p
  simp only [toUnary, unaryTexts]
  induction unary generalizing e with
  | nil => rfl
  | cons op rest ih =>
    rw [List.foldl_cons, ih]
    simp [Node.texts, Form.texts]

@[simp] theorem texts_toComparison (p : Pending) (e : Part) :
    (p.toComparison e).node.texts = p.texts ++ e.node.texts := by
  simp [toComparison, toSum, toProduct, texts]

/-- A binary operator is added after the operand. -/
theorem texts_binary {p q : Pending} {e : Part} {t : Token} (h : p.binary? e t = some q) :
    q.texts = p.texts ++ e.node.texts ++ [t.text] := by
  unfold binary? at h
  split at h
  case h_14 => exact nomatch h
  all_goals
    obtain rfl := Option.some.inj h
    simp [texts, unaryTexts, toSum, toProduct]

end Pending

namespace Place

@[simp] theorem texts_push (place : Place) (statement : Part) :
    (place.push statement).texts = place.texts ++ statement.node.texts := by
  cases place <;> simp [push, texts, Part.allTexts, Node.allTexts_append, Node.allTexts]

theorem texts_close {place outer : Place} {t : Token} (h : place.close? t = some outer) :
    outer.texts = place.texts ++ ["\x7d"] := by
  cases place with
  | script done => exact nomatch h
  | block lbrace done outer =>
    obtain rfl := Option.some.inj h
    simp [texts, Part.allTexts, Node.texts, Form.texts]
  | body header lbrace done outer =>
    obtain rfl := Option.some.inj h
    simp [texts, Part.allTexts, Node.texts, Form.texts, Header.texts, Block.texts]

end Place

namespace Context

@[simp] theorem base_settle (e : Part) (context : Context) :
    (context.settle e).2.base = context.base := by
  fun_induction settle e context with
  | case1 e target op outer ih => exact ih
  | case2 e condition yes outer ih => exact ih
  | case3 e context => rfl

theorem inner_settle (e : Part) (context : Context) :
    (context.settle e).2.inner ++ (context.settle e).1.node.texts = context.inner ++ e.node.texts := by
  fun_induction settle e context with
  | case1 e target op outer ih => rw [ih]; simp [inner, Node.texts, Form.texts]
  | case2 e condition yes outer ih => rw [ih]; simp [inner, Node.texts, Form.texts]
  | case3 e context => rfl

end Context

/-! ## Sound states -/

/-- An expression that binds at least as tight as a level. -/
structure Part.At (level : Level) (e : Part) : Prop where
  isExpression : e.node.IsExpression
  level_le : e.node.level ≤ level

/-- A run whose operands bind tighter than its operators. -/
structure OpenChain.Sound (level : Level) (run : OpenChain) : Prop where
  first_lt : run.first.node.level < level
  first : run.first.node.IsExpression
  rest : Node.AreOperands level run.nodes
  op : run.op ∈ level.operators

/-- Waiting operators, each on its level. -/
structure Pending.Sound (p : Pending) : Prop where
  comparison : ∀ run ∈ p.comparison, run.Sound .comparison
  sum : ∀ run ∈ p.sum, run.Sound .sum
  product : ∀ run ∈ p.product, run.Sound .product
  unary : ∀ op ∈ p.unary, op.text ∈ Level.unary.operators

/-- A head of which the names are words. -/
structure Header.Sound (header : Header) : Prop where
  name : IsWord header.name.text.toList
  params : ∀ p ∈ header.params, IsWord p.text.toList

/-- Open lists of statements. -/
def Place.Sound : Place → Prop
  | .script done => ∀ part ∈ done, part.node.IsStatement
  | .block _ done outer => (∀ part ∈ done, part.node.IsStatement) ∧ outer.Sound
  | .body header _ done outer =>
    header.Sound ∧ (∀ part ∈ done, part.node.IsStatement) ∧ outer.Sound

/-- A place in a program of a rule, with parts of the right levels around it. -/
def Context.Sound (rule : Rule) : Context → Prop
  | .whole => rule = .expression
  | .statement place | .ret _ place => rule = .script ∧ place.Sound
  | .initial _ name _ place => rule = .script ∧ IsWord name.text.toList ∧ place.Sound
  | .group _ ⟨pending, outer⟩ => pending.Sound ∧ outer.Sound rule
  | .arg callee done ⟨pending, outer⟩ =>
    callee.node.form.isPath ∧ callee.node.IsExpression ∧ (∀ e ∈ done, e.node.IsExpression) ∧
      pending.Sound ∧ outer.Sound rule
  | .thenBranch condition outer => condition.At .comparison ∧ outer.Sound rule
  | .elseBranch condition yes outer =>
    condition.At .comparison ∧ yes.node.IsExpression ∧ outer.Sound rule
  | .value target op outer =>
    target.At .primary ∧ op ∈ Level.expression.operators ∧ outer.Sound rule

/-- Texts that start with a word that opens no statement. -/
def Opened : List String → Prop
  | [] => False
  | text :: _ => text ∉ openingWords

/-- A place of an operand, where `more` has been read of the operand. -/
structure Hole.Sound (rule : Rule) (hole : Hole) (more : List String) : Prop where
  pending : hole.pending.Sound
  context : hole.context.Sound rule
  opened : hole.context.inStatement → Opened (hole.inner ++ more)

/-- A path of which the first name is no literal. -/
structure PathSound (first : Token) (rest : List Token) : Prop where
  word : IsWord first.text.toList
  notLiteral : first.text ∉ literalWords
  words : ∀ t ∈ rest, IsWord t.text.toList

/-- A state in a program of a rule, whose parts are of the grammar. -/
def State.Sound (rule : Rule) : State → Prop
  | .statement place | .functionName _ place | .declaredName _ _ place =>
    rule = .script ∧ place.Sound
  | .operand hole => hole.Sound rule []
  | .after e hole => e.At .primary ∧ hole.Sound rule e.node.texts
  | .path first rest hole | .dot first rest hole =>
    PathSound first rest ∧ hole.Sound rule (Part.path first rest).node.texts
  | .functionParen _ name place | .firstParam _ name place | .declaredEqual _ name _ place =>
    rule = .script ∧ IsWord name.text.toList ∧ place.Sound
  | .afterParam header place | .nextParam header place =>
    rule = .script ∧ header.Sound ∧ header.params ≠ [] ∧ place.Sound
  | .functionBrace header place => rule = .script ∧ header.Sound ∧ place.Sound

theorem Opened.append {texts : List String} (h : Opened texts) (more : List String) :
    Opened (texts ++ more) := by
  cases texts with
  | nil => exact h.elim
  | cons text rest => exact h

theorem Opened.opensExpression {texts : List String} (h : Opened texts) : OpensExpression texts := by
  cases texts with
  | nil => exact h.elim
  | cons text rest =>
    rintro _ ⟨⟩
    exact h

theorem Part.At.lt {tight loose : Level} {e : Part} (h : e.At tight) (hl : tight < loose) :
    e.node.level < loose :=
  Nat.lt_of_le_of_lt h.level_le hl

theorem OpenChain.extend_sound {level : Level} {run? : Option OpenChain}
    (hr : ∀ run ∈ run?, run.Sound level) {e : Part} (he : e.node.IsExpression)
    (hlt : e.node.level < level) {op : String} (hop : op ∈ level.operators) :
    (extend op e run?).Sound level := by
  cases run? with
  | none => exact ⟨hlt, he, trivial, hop⟩
  | some run =>
    have hrun := hr run rfl
    refine ⟨hrun.first_lt, hrun.first, ?_, hop⟩
    rw [nodes_extend, Node.areOperands_iff]
    intro p hp
    rcases List.mem_append.1 hp with hp | hp
    · exact Node.areOperands_iff.1 hrun.rest p hp
    · rw [List.mem_singleton.1 hp]
      exact ⟨hrun.op, hlt, he⟩

namespace Pending

theorem Sound.empty : Sound empty := by
  constructor <;> simp [Pending.empty]

theorem closeLevel_at {kind : String} {level : Level} (hk : Level.ofKind? kind = some level)
    {run? : Option OpenChain} (hr : ∀ run ∈ run?, run.Sound level) {e : Part}
    (he : e.node.IsExpression) (hlt : e.node.level < level) : (closeLevel kind run? e).At level := by
  cases run? with
  | none => exact ⟨he, Level.le_of_lt hlt⟩
  | some run =>
    have hrun := hr run rfl
    refine ⟨⟨level, hk, hrun.first_lt, hrun.first, by simp [OpenChain.operands], ?_⟩, ?_⟩
    · rw [Node.areOperands_iff]
      intro p hp
      simp only [OpenChain.operands, List.map_append, List.mem_append, List.map_cons, List.map_nil,
        List.mem_singleton] at hp
      rcases hp with hp | rfl
      · exact Node.areOperands_iff.1 hrun.rest p hp
      · exact ⟨hrun.op, hlt, he⟩
    · simp [closeLevel, OpenChain.close, Node.level, Form.level, hk, Level.le_def]

variable {p q : Pending} {e : Part}

theorem Sound.toUnary (h : p.Sound) (he : e.At .primary) : (p.toUnary e).At .unary := by
  have hops := h.unary
  replace he : e.At .unary := ⟨he.isExpression, Nat.le_succ_of_le he.level_le⟩
  rw [Pending.toUnary]
  generalize p.unary = ops at hops
  induction ops generalizing e with
  | nil => exact he
  | cons op rest ih =>
    rw [List.foldl_cons]
    refine ih ?_ fun op hop => hops op (List.mem_cons_of_mem _ hop)
    exact ⟨⟨hops op List.mem_cons_self, he.level_le, he.isExpression⟩, Nat.le_refl _⟩

theorem Sound.toProduct (h : p.Sound) (he : e.At .primary) : (p.toProduct e).At .product :=
  closeLevel_at rfl h.product (h.toUnary he).isExpression ((h.toUnary he).lt (by decide))

theorem Sound.toSum (h : p.Sound) (he : e.At .primary) : (p.toSum e).At .sum :=
  closeLevel_at rfl h.sum (h.toProduct he).isExpression ((h.toProduct he).lt (by decide))

theorem Sound.toComparison (h : p.Sound) (he : e.At .primary) : (p.toComparison e).At .comparison :=
  closeLevel_at rfl h.comparison (h.toSum he).isExpression ((h.toSum he).lt (by decide))

/-- An operator waits on its own level, and the tighter levels are closed. -/
theorem Sound.binary {mode : Lexer.Mode} {t : Token} (h : p.Sound) (he : e.At .primary)
    (ht : t.Fits mode) (hq : p.binary? e t = some q) : q.Sound := by
  unfold binary? at hq
  split at hq
  case h_14 => exact nomatch hq
  case h_1 hk | h_2 hk | h_3 hk =>
    obtain rfl := Option.some.inj hq
    refine ⟨h.comparison, h.sum, ?_, by simp⟩
    rintro _ ⟨⟩
    refine OpenChain.extend_sound h.product (h.toUnary he).isExpression
      ((h.toUnary he).lt (by decide)) ?_
    rw [ht.text_eq hk (by decide)]
    decide
  case h_4 hk | h_5 hk =>
    obtain rfl := Option.some.inj hq
    refine ⟨h.comparison, ?_, by simp, by simp⟩
    rintro _ ⟨⟩
    refine OpenChain.extend_sound h.sum (h.toProduct he).isExpression
      ((h.toProduct he).lt (by decide)) ?_
    rw [ht.text_eq hk (by decide)]
    decide
  all_goals
    rename_i hk
    obtain rfl := Option.some.inj hq
    refine ⟨?_, by simp, by simp, by simp⟩
    rintro _ ⟨⟩
    refine OpenChain.extend_sound h.comparison (h.toSum he).isExpression
      ((h.toSum he).lt (by decide)) ?_
    rw [ht.text_eq hk (by decide)]
    decide

end Pending

namespace Place

theorem Sound.push {place : Place} (h : place.Sound) {statement : Part}
    (hs : statement.node.IsStatement) : (place.push statement).Sound := by
  have hall : ∀ {done : List Part}, (∀ part ∈ done, part.node.IsStatement) →
      ∀ part ∈ done ++ [statement], part.node.IsStatement := by
    intro done hd part hp
    rcases List.mem_append.1 hp with hp | hp
    · exact hd part hp
    · rwa [List.mem_singleton.1 hp]
  cases place with
  | script done => exact hall h
  | block lbrace done outer => exact ⟨hall h.1, h.2⟩
  | body header lbrace done outer => exact ⟨h.1, hall h.2.1, h.2.2⟩

theorem Sound.close {place outer : Place} (h : place.Sound) {t : Token}
    (hc : place.close? t = some outer) : outer.Sound := by
  have hall : ∀ {done : List Part}, (∀ part ∈ done, part.node.IsStatement) →
      Node.AreStatements (done.map (·.node)) := by
    intro done hd
    rw [Node.areStatements_iff]
    simpa using hd
  cases place with
  | script done => exact nomatch hc
  | block lbrace done outer =>
    obtain rfl := Option.some.inj hc
    exact h.2.push (hall h.1)
  | body header lbrace done outer =>
    obtain rfl := Option.some.inj hc
    refine h.2.2.push ⟨h.1.name, ?_, hall h.2.1⟩
    simpa using h.1.params

end Place

namespace Context

theorem inStatement_settle (e : Part) (context : Context) :
    (context.settle e).2.inStatement ↔ context.inStatement := by
  fun_induction settle e context with
  | case1 e target op outer ih => exact ih
  | case2 e condition yes outer ih => exact ih
  | case3 e context => exact Iff.rfl

theorem Sound.settle {rule : Rule} {context : Context} (h : context.Sound rule) {e : Part}
    (he : e.node.IsExpression) :
    (context.settle e).1.node.IsExpression ∧ (context.settle e).2.Sound rule := by
  fun_induction Context.settle e context with
  | case1 e target op outer ih =>
    exact ih h.2.2 ⟨Level.eq_primary h.1.level_le, h.1.isExpression, h.2.1, he⟩
  | case2 e condition yes outer ih =>
    exact ih h.2.2 ⟨h.1.level_le, h.1.isExpression, h.2.1, he⟩
  | case3 e context => exact ⟨he, h⟩

end Context

theorem PathSound.members {first : Token} {rest : List Token} (hw : IsWord first.text.toList)
    (h : ∀ t ∈ rest, IsWord t.text.toList) : (Part.path first rest).node.IsMember := by
  induction rest generalizing first with
  | nil => exact hw
  | cons second rest ih =>
    exact ⟨hw, ih (h second List.mem_cons_self) fun t ht => h t (List.mem_cons_of_mem _ ht)⟩

/-- A path is a primary expression, and it may be called. -/
theorem PathSound.at {first : Token} {rest : List Token} (h : PathSound first rest) :
    (Part.path first rest).At .primary ∧ (Part.path first rest).node.form.isPath := by
  cases rest with
  | nil => exact ⟨⟨⟨h.word, h.notLiteral⟩, Nat.le_refl _⟩, rfl⟩
  | cons second rest =>
    have hm := PathSound.members (h.words second List.mem_cons_self)
      fun t ht => h.words t (List.mem_cons_of_mem _ ht)
    exact ⟨⟨⟨⟨_, rfl⟩, ⟨h.word, h.notLiteral⟩, hm⟩, Nat.le_refl _⟩, rfl⟩

theorem PathSound.concat {first t : Token} {rest : List Token} (h : PathSound first rest)
    (ht : IsWord t.text.toList) : PathSound first (rest ++ [t]) := by
  refine ⟨h.word, h.notLiteral, ?_⟩
  intro u hu
  rcases List.mem_append.1 hu with hu | hu
  · exact h.words u hu
  · rwa [List.mem_singleton.1 hu]

theorem Part.texts_path_concat (first t : Token) (rest : List Token) :
    (path first (rest ++ [t])).node.texts = (path first rest).node.texts ++ [".", t.text] := by
  rw [texts_path, texts_path, ← List.cons_append, List.map_append]
  exact intersperse_concat (List.cons_ne_nil _ _) "." t.text

/-! ## One token more -/

namespace State

variable {rule : Rule} {mode : Lexer.Mode} {t : Token} {next : State} {e : Part} {hole : Hole}

theorem Closes.sound {context : Context} (h : Closes t e context next) (he : e.node.IsExpression)
    (hc : context.Sound rule) (ho : context.inStatement → Opened (context.inner ++ e.node.texts))
    (ht : t.Fits mode) :
    next.Sound rule ∧ next.texts = context.base ++ (context.inner ++ e.node.texts) ++ [t.text] := by
  cases h with
  | colon hk =>
    rw [ht.text_eq hk (by decide)]
    constructor
    · refine ⟨.empty, ⟨hc.1, he, hc.2⟩, ?_⟩
      intro hi
      simpa [Hole.inner, Context.hole, Context.inner] using (ho hi).append [":"]
    · simp [texts, Hole.inner, Context.hole, Context.inner, Context.base, Terminal.mark]
  | @group lpar outer hk =>
    obtain ⟨pending, outer⟩ := outer
    rw [ht.text_eq hk (by decide)]
    constructor
    · refine ⟨⟨he, Nat.le_refl _⟩, hc.1, hc.2, ?_⟩
      intro hi
      simpa [Hole.inner, Context.inner, Node.texts, Form.texts] using (ho hi).append [")"]
    · simp [texts, Hole.inner, Context.inner, Context.base, Node.texts, Form.texts, Terminal.mark]
  | @comma callee done outer hk =>
    obtain ⟨pending, outer⟩ := outer
    rw [ht.text_eq hk (by decide)]
    have hargs : ∀ part ∈ done ++ [e], part.node.IsExpression := by
      simpa [or_imp, forall_and] using ⟨hc.2.2.1, he⟩
    constructor
    · refine ⟨.empty, ⟨hc.1, hc.2.1, hargs, hc.2.2.2⟩, ?_⟩
      intro hi
      simpa [Hole.inner, Context.hole, Context.inner, Node.openArgTexts_append, Node.openArgTexts]
        using (ho hi).append [","]
    · simp [texts, Hole.inner, Context.hole, Context.inner, Context.base, Node.openArgTexts_append,
        Node.openArgTexts, Terminal.mark]
  | @call callee done outer hk =>
    obtain ⟨pending, outer⟩ := outer
    rw [ht.text_eq hk (by decide)]
    have hargs : Node.AreExpressions ((done ++ [e]).map (·.node)) := by
      rw [Node.areExpressions_iff]
      simpa [or_imp, forall_and] using ⟨hc.2.2.1, he⟩
    constructor
    · refine ⟨⟨⟨hc.1, hc.2.1, hargs⟩, Nat.le_refl _⟩, hc.2.2.2.1, hc.2.2.2.2, ?_⟩
      intro hi
      simpa [Hole.inner, Context.inner, Node.texts, Form.texts, Node.argTexts_concat]
        using (ho hi).append [")"]
    · simp [texts, Hole.inner, Context.inner, Context.base, Node.texts, Form.texts,
        Node.argTexts_concat, Terminal.mark]
  | statement hk =>
    rw [ht.text_eq hk (by decide)]
    refine ⟨⟨hc.1, hc.2.push ⟨he, (ho trivial).opensExpression⟩⟩, ?_⟩
    simp [texts, Context.inner, Context.base, Node.texts, Form.texts, Terminal.mark]
  | initial hk =>
    rw [ht.text_eq hk (by decide)]
    refine ⟨⟨hc.1, hc.2.2.push ⟨hc.2.1, he⟩⟩, ?_⟩
    simp [texts, Context.inner, Context.base, Node.texts, Form.texts, Terminal.mark]
  | ret hk =>
    rw [ht.text_eq hk (by decide)]
    refine ⟨⟨hc.1, hc.2.push he⟩, ?_⟩
    simp [texts, Context.inner, Context.base, Node.texts, Form.texts, Terminal.mark]

theorem FeedsAfter.sound (h : FeedsAfter t e hole next) (he : e.At .primary)
    (hh : hole.Sound rule e.node.texts) (ht : t.Fits mode) :
    next.Sound rule ∧ next.texts = hole.context.base ++ (hole.inner ++ e.node.texts) ++ [t.text] := by
  obtain ⟨pending, context⟩ := hole
  obtain ⟨hp, hc, ho⟩ := hh
  cases h with
  | assign hk hempty =>
    obtain rfl : pending = .empty := hempty
    have hmarks : ∀ kind ∈ [Terminal.equal, .plusEqual, .minusEqual, .starEqual, .slashEqual],
        kind.mark ≠ "" ∧ kind.mark ∈ Level.expression.operators := by decide
    have hop : t.text ∈ Level.expression.operators := by
      rw [ht.text_eq rfl (hmarks _ hk).1]
      exact (hmarks _ hk).2
    constructor
    · refine ⟨.empty, ⟨he, hop, hc⟩, ?_⟩
      intro hi
      simpa [Hole.inner, Context.hole, Context.inner] using (ho hi).append [t.text]
    · simp [texts, Hole.inner, Context.hole, Context.inner, Context.base]
  | condition hk =>
    rw [ht.text_eq hk (by decide)]
    constructor
    · refine ⟨.empty, ⟨hp.toComparison he, hc⟩, ?_⟩
      intro hi
      simpa [Hole.inner, Context.hole, Context.inner] using (ho hi).append ["?"]
    · simp [texts, Hole.inner, Context.hole, Context.inner, Context.base, Terminal.mark]
  | operator hq =>
    have htexts := Pending.texts_binary hq
    constructor
    · refine ⟨hp.binary he ht hq, hc, ?_⟩
      intro hi
      simpa [Hole.inner, htexts] using (ho hi).append [t.text]
    · simp [texts, Hole.inner, htexts]
  | close hcloses =>
    have hs := hc.settle (hp.toComparison he).isExpression
    have hi := Context.inner_settle (pending.toComparison e) context
    rw [Pending.texts_toComparison, ← List.append_assoc] at hi
    have hclose := hcloses.sound hs.1 hs.2 (fun hst => by
      rw [hi]
      exact ho ((Context.inStatement_settle _ _).1 hst)) ht
    rwa [hi, Context.base_settle] at hclose

theorem FeedsOperand.sound (h : FeedsOperand t hole next) (hh : hole.Sound rule [t.text])
    (ht : t.Fits mode) (hm : mode ≠ .name) :
    next.Sound rule ∧ next.texts = hole.context.base ++ (hole.inner ++ [t.text]) := by
  obtain ⟨hp, hc, ho⟩ := hh
  -- What a token that is a whole operand leads to.
  have hleaf : ∀ {form : Form}, form.texts = [t.text] → form.IsExpression → form.level = .primary →
      (after (.ofToken form t) hole).Sound rule ∧
        (after (.ofToken form t) hole).texts = hole.context.base ++ (hole.inner ++ [t.text]) := by
    intro form htexts hform hlevel
    have hnode : (Part.ofToken form t).node.texts = [t.text] := htexts
    refine ⟨⟨⟨hform, Nat.le_of_eq (congrArg Level.rank hlevel)⟩, hp, hc, ?_⟩, ?_⟩
    · rwa [hnode]
    · rw [texts, hnode]
  have hs := ht.spells
  cases h with
  | sign hk =>
    have hmarks : ∀ kind ∈ [Terminal.minus, .bang],
        kind.mark ≠ "" ∧ kind.mark ∈ Level.unary.operators := by decide
    refine ⟨⟨⟨hp.comparison, hp.sum, hp.product, ?_⟩, hc, ?_⟩, ?_⟩
    · intro op hop
      rcases List.mem_cons.1 hop with rfl | hop
      · rw [ht.text_eq rfl (hmarks _ hk).1]
        exact (hmarks _ hk).2
      · exact hp.unary op hop
    · simpa [Hole.inner, Pending.texts, Pending.unaryTexts] using ho
    · simp [texts, Hole.inner, Pending.texts, Pending.unaryTexts]
  | number hk | string hk =>
    rw [hk] at hs
    exact hleaf rfl hs rfl
  | boolean hk =>
    have hmarks : ∀ kind ∈ [Terminal.trueWord, .falseWord],
        kind.mark ≠ "" ∧ (kind.mark = "true" ∨ kind.mark = "false") := by decide
    have hword := (hmarks _ hk).2
    rw [← ht.text_eq rfl (hmarks _ hk).1] at hword
    exact hleaf rfl hword rfl
  | null hk => exact hleaf (by rw [ht.text_eq hk (by decide)]; rfl) trivial rfl
  | name hk => exact ⟨⟨⟨ht.word hk, ht.notLiteral hm hk, by simp⟩, hp, hc, ho⟩, rfl⟩
  | group hk =>
    obtain ⟨pending, context⟩ := hole
    rw [ht.text_eq hk (by decide)] at ho ⊢
    constructor
    · refine ⟨.empty, ⟨hp, hc⟩, ?_⟩
      intro hi
      simpa [Hole.inner, Context.hole, Context.inner, Terminal.mark] using ho hi
    · simp [texts, Hole.inner, Context.hole, Context.inner, Context.base, Terminal.mark]
  | @noArgument callee outer hk =>
    obtain ⟨pending, outer⟩ := outer
    rw [ht.text_eq hk (by decide)] at ho ⊢
    constructor
    · refine ⟨⟨⟨hc.1, hc.2.1, trivial⟩, Nat.le_refl _⟩, hc.2.2.2.1, hc.2.2.2.2, ?_⟩
      intro hi
      simpa [Hole.inner, Context.hole, Context.inner, Node.texts, Form.texts, Node.argTexts,
        Node.openArgTexts, Terminal.mark] using ho hi
    · simp [texts, Hole.inner, Context.hole, Context.inner, Context.base, Node.texts, Form.texts,
        Node.argTexts, Node.openArgTexts, Terminal.mark]
  | noValue hk =>
    rw [ht.text_eq hk (by decide)]
    refine ⟨⟨hc.1, hc.2.push trivial⟩, ?_⟩
    simp [texts, Hole.inner, Context.hole, Context.inner, Context.base, Node.texts, Form.texts,
      Terminal.mark]

theorem Feeds.sound {state : State} (h : Feeds t state next) (hs : state.Sound rule)
    (ht : t.Fits state.mode) : next.Sound rule ∧ next.texts = state.texts ++ [t.text] := by
  cases h with
  | @operand hole _ h =>
    have hh : hole.Sound rule [t.text] := ⟨hs.pending, hs.context, fun hi => by
      simpa using (hs.opened hi).append [t.text]⟩
    rw [texts, List.append_assoc]
    exact h.sound hh ht (by rintro ⟨⟩)
  | after h => exact h.sound hs.1 hs.2 ht
  | lbrace hk =>
    rw [ht.text_eq hk (by decide)]
    exact ⟨⟨hs.1, by simp, hs.2⟩, rfl⟩
  | rbrace hk hclose =>
    rw [ht.text_eq hk (by decide)]
    exact ⟨⟨hs.1, hs.2.close hclose⟩, Place.texts_close hclose⟩
  | function hk | letWord hk | constWord hk =>
    rw [ht.text_eq hk (by decide)]
    exact ⟨hs, rfl⟩
  | ret hk =>
    rw [ht.text_eq hk (by decide)]
    refine ⟨⟨.empty, hs, False.elim⟩, ?_⟩
    simp [texts, Hole.inner, Context.hole, Context.inner, Context.base, Terminal.mark]
  | @expression place _ hk h =>
    have hopens : ∀ kind : Terminal, kind.mark ∈ openingWords → kind ∈ openings := by
      intro kind
      cases kind <;> decide
    have hword : t.text ∉ openingWords := ht.notOpening (mt (hopens _) hk)
    exact h.sound ⟨.empty, hs, fun _ => hword⟩ ht (by rintro ⟨⟩)
  | dot hk =>
    rw [ht.text_eq hk (by decide)]
    exact ⟨hs, rfl⟩
  | @call first rest hole hk =>
    obtain ⟨pending, context⟩ := hole
    rw [ht.text_eq hk (by decide)]
    obtain ⟨hpath, hp, hc, ho⟩ := hs
    constructor
    · refine ⟨.empty, ⟨hpath.at.2, hpath.at.1.isExpression, by simp, hp, hc⟩, ?_⟩
      intro hi
      simpa [Hole.inner, Context.hole, Context.inner, Node.openArgTexts] using (ho hi).append ["("]
    · simp [texts, Hole.inner, Context.hole, Context.inner, Context.base, Node.openArgTexts,
        Terminal.mark]
  | path h => exact h.sound hs.1.at.1 hs.2 ht
  | member hk =>
    constructor
    · refine ⟨hs.1.concat (ht.word hk), hs.2.pending, hs.2.context, ?_⟩
      intro hi
      simpa [Part.texts_path_concat] using (hs.2.opened hi).append [".", t.text]
    · simp [texts, Part.texts_path_concat]
  | functionName hk => exact ⟨⟨hs.1, ht.word hk, hs.2⟩, by simp [texts]⟩
  | params hk =>
    rw [ht.text_eq hk (by decide)]
    exact ⟨hs, by simp [texts, Terminal.mark]⟩
  | firstParam hk =>
    exact ⟨⟨hs.1, ⟨hs.2.1, by simpa using ht.word hk⟩, by simp, hs.2.2⟩, by simp [texts]⟩
  | noParam hk =>
    rw [ht.text_eq hk (by decide)]
    exact ⟨⟨hs.1, ⟨hs.2.1, by simp⟩, hs.2.2⟩, by simp [texts, Header.texts, Terminal.mark]⟩
  | comma hk =>
    rw [ht.text_eq hk (by decide)]
    exact ⟨hs, by simp [texts, Terminal.mark]⟩
  | paramsEnd hk =>
    rw [ht.text_eq hk (by decide)]
    exact ⟨⟨hs.1, hs.2.1, hs.2.2.2⟩, by simp [texts, Header.texts, Terminal.mark]⟩
  | @nextParam header place hk =>
    have hne : header.params.map (·.text) ≠ [] := by simpa using hs.2.2.1
    refine ⟨⟨hs.1, ⟨hs.2.1.name, ?_⟩, by simp, hs.2.2.2⟩, ?_⟩
    · simpa [or_imp, forall_and] using ⟨hs.2.1.params, ht.word hk⟩
    · simp [texts, intersperse_concat hne]
  | body hk =>
    rw [ht.text_eq hk (by decide)]
    exact ⟨⟨hs.1, hs.2.1, by simp, hs.2.2⟩, rfl⟩
  | declaredName hk => exact ⟨⟨hs.1, ht.word hk, hs.2⟩, by simp [texts]⟩
  | declaredEqual hk =>
    rw [ht.text_eq hk (by decide)]
    refine ⟨⟨.empty, hs, False.elim⟩, ?_⟩
    simp [texts, Hole.inner, Context.hole, Context.inner, Context.base, Terminal.mark]

/-- A sound state stays sound with one token more, and the text of the token is added. -/
theorem feed_sound {state : State} (hs : state.Sound rule) (ht : t.Fits state.mode)
    (h : state.feed t = some next) : next.Sound rule ∧ next.texts = state.texts ++ [t.text] :=
  (feed_eq_some.1 h).sound hs ht

theorem scriptNode_form (done : List Part) : (scriptNode done).form = .script (done.map (·.node)) := by
  cases done with
  | nil => rfl
  | cons first rest =>
    rw [scriptNode, List.head?_cons, List.getLast?_cons]

theorem finishAfter_sound {node : Node} (he : e.At .primary) (hh : hole.Sound rule e.node.texts)
    (h : finishAfter e hole = some node) :
    node.Fits rule ∧ node.texts = hole.context.base ++ (hole.inner ++ e.node.texts) := by
  have hs := hh.context.settle (hh.pending.toComparison he).isExpression
  have hi := Context.inner_settle (hole.pending.toComparison e) hole.context
  have hb := Context.base_settle (hole.pending.toComparison e) hole.context
  unfold finishAfter at h
  dsimp only at h
  split at h
  · next hw =>
    obtain rfl := Option.some.inj h
    rw [hw] at hs hi hb
    obtain ⟨hexpr, rfl⟩ := hs
    refine ⟨hexpr, ?_⟩
    simpa [Context.inner, Context.base, Hole.inner, ← hb] using hi
  · exact nomatch h

/-- The tree of a sound state is a program, written with all that was read. -/
theorem finish_sound {state : State} {node : Node} (hs : state.Sound rule)
    (h : state.finish = some node) : node.Fits rule ∧ node.texts = state.texts := by
  unfold finish at h
  split at h
  · next done =>
    obtain rfl := Option.some.inj h
    obtain ⟨rfl, hs⟩ := hs
    have hform := scriptNode_form done
    refine ⟨⟨_, hform, Node.areStatements_iff.2 (by simpa [Place.Sound] using hs)⟩, ?_⟩
    generalize scriptNode done = node at hform
    obtain ⟨loc, form⟩ := node
    dsimp only at hform
    subst hform
    rfl
  · exact finishAfter_sound hs.1 hs.2 h
  · exact finishAfter_sound hs.1.at.1 hs.2 h
  · exact nomatch h

/-- After a `-`, a `!` or an `=` an operand has to follow. -/
theorem feed_sign {state : State} (hk : t.terminal = .minus ∨ t.terminal = .bang ∨ t.terminal = .equal)
    (h : state.feed t = some next) : ∃ hole, next = operand hole := by
  rcases hk with hk | hk | hk <;> cases state <;>
    simp [feed, hk, feedOperand, feedAfter, Pending.binary?, closeEmpty, closeWith] at h
  all_goals first | exact ⟨_, h.symm⟩ | exact ⟨_, h.2.symm⟩

/-- No operand starts with an equals sign. -/
theorem feedOperand_equals
    (hk : t.terminal = .equal ∨ t.terminal = .equalEqual ∨ t.terminal = .identical) :
    feedOperand hole t = none := by
  rcases hk with hk | hk | hk <;> simp [feedOperand, closeEmpty, hk]

end State

end Reader

/-! ## Whole texts -/

namespace Parser

open Reader Lexer

/-- Where an operand has to follow, a text that starts with an equals sign is not read. -/
theorem readFrom_equals {hole : Hole} {last : Option Token} {place : Cursor} {rest : List Char}
    (h : place.rest = '=' :: rest) (node : Node) : readFrom (.operand hole) last place ≠ .ok node := by
  have hskip : skip place = place := by
    rw [skip, gapLength_eq_zero (by rw [h]; rfl)]
    rfl
  intro hok
  rw [readFrom] at hok
  dsimp only at hok
  rw [hskip] at hok
  split at hok
  · next hr => cases h.symm.trans hr
  · split at hok
    · cases hok
    · next t n hl =>
      have hs := lexeme_spells hl
      have hpos := lexeme_pos hl
      obtain ⟨m, rfl⟩ := Nat.exists_eq_succ_of_ne_zero (Nat.ne_of_gt hpos)
      rw [h, List.take_succ_cons] at hs
      have hnone : (State.operand hole).feed (tokenAt place t (m + 1)) = none :=
        State.feedOperand_equals (spells_equals hs)
      rw [hnone] at hok
      cases hok

/-- The tree is a program, and after what the state has read it is written with the tokens of the
text, each as long as it can be. -/
theorem readFrom_sound {rule : Rule} {state : State} {last : Option Token} {place : Cursor}
    {node : Node} (hs : state.Sound rule) (h : readFrom state last place = .ok node) :
    node.Fits rule ∧ ∃ texts, cut place.rest = some texts ∧ node.texts = state.texts ++ texts := by
  fun_induction readFrom state last place with
  | case1 state last place here hr found hf =>
    obtain rfl := Except.ok.inj h
    obtain ⟨hfits, htexts⟩ := State.finish_sound hs hf
    have hend : place.rest.drop (gapLength place.rest) = [] := (Cursor.rest_advance _ _).symm.trans hr
    exact ⟨hfits, [], cut_end hend, by rw [htexts, List.append_nil]⟩
  | case2 => exact nomatch h
  | case3 => exact nomatch h
  | case4 => exact nomatch h
  | case5 state last place here c rest hr terminal n hl t next hf ih =>
    obtain ⟨hnext, htexts⟩ := State.feed_sound hs (tokenAt_fits hl) hf
    rcases lexeme_any hl with ⟨t', hany⟩ | ⟨hsign, after, hafter⟩
    · obtain ⟨hfits, texts, hcut, hnode⟩ := ih hnext h
      refine ⟨hfits, t.text :: texts, ?_, by rw [hnode, htexts, List.append_assoc]; rfl⟩
      have hrest : here.rest = place.rest.drop (gapLength place.rest) := Cursor.rest_advance _ _
      rw [hrest] at hany
      rw [Cursor.rest_advance, hrest] at hcut
      rw [cut_token hany, hcut, Option.map_some, ← hrest]
      rfl
    · -- The next token would have to open an operand with an equals sign.
      obtain ⟨hole, rfl⟩ := State.feed_sign hsign hf
      exact (readFrom_equals ((Cursor.rest_advance n here).trans hafter) node h).elim

/-- Before its first token a reading is sound. -/
theorem initial_sound (rule : Rule) : (State.initial rule).Sound rule := by
  cases rule with
  | script => exact ⟨rfl, by simp [Place.Sound]⟩
  | expression => exact ⟨.empty, rfl, False.elim⟩

variable {rule : Rule} {source : String} {node : Node}

/-- What is read from a source is a program. -/
theorem fits_of_parse (h : parse rule source = .ok node) : node.Fits rule :=
  (readFrom_sound (initial_sound rule) h).1

/-- The texts of what is read from a source are those of its tokens. -/
theorem texts_of_parse (h : parse rule source = .ok node) : cut source.toList = some node.texts := by
  obtain ⟨-, texts, hcut, hnode⟩ := readFrom_sound (initial_sound rule) h
  have hnone : (State.initial rule).texts = [] := by
    cases rule <;> rfl
  rw [hnode, hnone]
  exact hcut

end Parser

/-- **The parser is sound.**  A tree that is read from a source is a program of the grammar, and its
tokens from left to right are the tokens of the source. -/
theorem parse_sound {rule : Rule} {source : String} {node : Node}
    (h : Parser.parse rule source = .ok node) :
    node.Fits rule ∧ Lexer.cut source.toList = some node.texts :=
  ⟨Parser.fits_of_parse h, Parser.texts_of_parse h⟩

/-- `a = b ? 1 : c` is an assignment, and the comment after it is left out. -/
theorem parse_sound_ternary :
    ∃ node, Parser.parse .expression "a = b ? 1 : c // rest" = .ok node ∧
      node.IsExpression ∧ node.texts = ["a", "=", "b", "?", "1", ":", "c"] := by
  have hok : (Parser.parse .expression "a = b ? 1 : c // rest").isOk := by decide +kernel
  have hcut : Lexer.cut "a = b ? 1 : c // rest".toList =
      some ["a", "=", "b", "?", "1", ":", "c"] := by decide +kernel
  cases h : Parser.parse .expression "a = b ? 1 : c // rest" with
  | error m => rw [h] at hok; exact nomatch hok
  | ok node =>
    obtain ⟨hfits, htexts⟩ := parse_sound h
    exact ⟨node, rfl, hfits, Option.some.inj (htexts.symm.trans hcut)⟩

end Scriptlet
