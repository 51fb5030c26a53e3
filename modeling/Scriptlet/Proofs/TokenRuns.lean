import Scriptlet.Proofs.ScriptConcatenation

/-!
# The tokens of a node

`Form.items` says which tokens and which nodes a form is written with, and `Covers` that a run of
tokens is one of such items, in which every node has the location of its own tokens.

A run of tokens is read as a list of pieces: tokens and finished nodes (`Read`).  What may be put in
the place of pieces at no loss is said by `Reduces`; pieces that a form is written with become one
node of it (`Reduces.build`).
-/

namespace Scriptlet

set_option autoImplicit false

/-! ## What a form is written with -/

/-- A token of a given text, or a node. -/
inductive Item where
  | token (text : String)
  | node (node : Node)

namespace Item

/-- The node that an item is, if it is one. -/
def node? : Item → Option Node
  | token _ => none
  | node n => some n

/-- The texts of the tokens of an item. -/
def texts : Item → List String
  | token text => [text]
  | node n => n.texts

@[simp] theorem node?_token (text : String) : (token text).node? = none := rfl

@[simp] theorem node?_node (n : Node) : (node n).node? = some n := rfl

@[simp] theorem texts_token (text : String) : (token text).texts = [text] := rfl

@[simp] theorem texts_node (n : Node) : (node n).texts = n.texts := rfl

end Item

/-- A function body as a node. -/
def Block.node (body : Block) : Node :=
  ⟨body.loc, .block body.statements⟩

@[simp] theorem Block.texts_node (body : Block) : body.node.texts = body.texts := by
  obtain ⟨loc, statements⟩ := body
  rw [node, Node.texts, Form.texts, texts]

/-- The tokens and nodes that a form is written with, from left to right. -/
def Form.items : Form → List Item
  | .bare => []
  | .number text | .string text | .boolean text => [.token text]
  | .null => [.token "null"]
  | .ident name => [.token name]
  | .member object tail => [.node object, .token ".", .node tail]
  | .group expr => [.token "(", .node expr, .token ")"]
  | .call callee args =>
    .node callee :: .token "(" :: (args.map Item.node).intersperse (.token ",") ++ [.token ")"]
  | .ternary condition thenBranch elseBranch =>
    [.node condition, .token "?", .node thenBranch, .token ":", .node elseBranch]
  | .assign target op value => [.node target, .token op, .node value]
  | .chain _ first rest => .node first :: rest.flatMap fun p => [.token p.1, .node p.2]
  | .unary op operand => [.token op, .node operand]
  | .expression expr => [.node expr, .token ";"]
  | .block statements => .token "\x7b" :: statements.map .node ++ [.token "\x7d"]
  | .function name params body _ =>
    .token "function" :: .token name :: .token "(" ::
      (params.map Item.token).intersperse (.token ",") ++ [.token ")", .node body.node]
  | .declaration name value isMutable =>
    [.token (if isMutable then "let" else "const"), .token name, .token "=", .node value, .token ";"]
  | .ret none => [.token "return", .token ";"]
  | .ret (some expr) => [.token "return", .node expr, .token ";"]
  | .script statements => statements.map .node

/-- A function may be applied before a separator is put in. -/
theorem map_intersperse {α β : Type} (f : α → β) (sep : α) (xs : List α) :
    (xs.intersperse sep).map f = (xs.map f).intersperse (f sep) := by
  induction xs with
  | nil => rfl
  | cons x xs ih => cases xs <;> simp_all

/-- What is separated, up to its last element. -/
theorem intersperse_eq_flatMap {α : Type} (sep last : α) (xs : List α) :
    (xs ++ [last]).intersperse sep = (xs.flatMap fun x => [x, sep]) ++ [last] := by
  induction xs with
  | nil => rfl
  | cons x xs ih => cases xs <;> simp_all

namespace Node

theorem allTexts_eq_items (nodes : List Node) :
    allTexts nodes = (nodes.map Item.node).flatMap Item.texts := by
  induction nodes with
  | nil => rfl
  | cons node rest ih => simp [allTexts, ih]

theorem operandTexts_eq_items (operands : List (String × Node)) :
    operandTexts operands =
      (operands.flatMap fun p => [Item.token p.1, .node p.2]).flatMap Item.texts := by
  induction operands with
  | nil => rfl
  | cons p rest ih => simp [operandTexts, ih]

theorem argTexts_eq_items (args : List Node) :
    argTexts args = ((args.map Item.node).intersperse (.token ",")).flatMap Item.texts := by
  induction args with
  | nil => rfl
  | cons node rest ih => cases rest <;> simp_all [argTexts]

end Node

theorem intersperse_eq_items (params : List String) :
    params.intersperse "," = ((params.map Item.token).intersperse (.token ",")).flatMap Item.texts := by
  induction params with
  | nil => rfl
  | cons param rest ih => cases rest <;> simp_all

/-- The items of a form have its texts. -/
theorem Form.texts_eq_items (form : Form) : form.texts = form.items.flatMap Item.texts := by
  cases form with
  | ret expr => cases expr <;> simp [texts, items]
  | call callee args => simp [texts, items, Node.argTexts_eq_items]
  | chain kind first rest => simp [texts, items, Node.operandTexts_eq_items]
  | block statements => simp [texts, items, Node.allTexts_eq_items]
  | script statements => simp [texts, items, Node.allTexts_eq_items]
  | function name params body source => simp [texts, items, intersperse_eq_items]
  | _ => simp [texts, items]

theorem Node.texts_eq_items (node : Node) : node.texts = node.form.items.flatMap Item.texts := by
  rw [← Form.texts_eq_items]
  obtain ⟨loc, form⟩ := node
  rw [Node.texts]

/-! ## Runs of tokens -/

/-- The location from the first of the tokens to the last one. -/
def Token.extent (us : List Token) : Option Location := do
  let first ← us.head?
  let last ← us.getLast?
  return first.start.locate last.stop

/-- A function declaration has the text of its body for its source. -/
def Form.KeepsSource : Form → Prop
  | .function _ _ body source => body.loc.bind (·.text) = some source
  | _ => True

/-- The tokens are those of the items, one after the other, and every node among the items, and every
node in it, has the location of its own tokens, of which there is at least one, and keeps the source of
a function. -/
inductive Covers : List Token → List Item → Prop where
  | nil : Covers [] []
  | token (t : Token) (text : String) {us : List Token} {items : List Item} :
      Covers us items → Covers (t :: us) (.token text :: items)
  | node {vs us : List Token} {node : Node} {items : List Item} : vs ≠ [] →
      node.loc = Token.extent vs → node.form.KeepsSource → Covers vs node.form.items →
      Covers us items → Covers (vs ++ us) (.node node :: items)

theorem Covers.length_eq {us : List Token} {items : List Item} (h : Covers us items) :
    us.length = (items.flatMap Item.texts).length := by
  induction h with
  | nil => rfl
  | token t text _ ih => simp [ih]
  | @node vs us node items _ _ _ _ _ ihnode ih =>
    have hnode : vs.length = node.texts.length := by
      rw [ihnode, Node.texts_eq_items]
    simp [hnode, ih]

/-- The tokens are those that a node is written with: it has their location, and only a script without
statements has none. -/
structure Node.WrittenWith (us : List Token) (node : Node) : Prop where
  loc : node.loc = Token.extent us
  items : Covers us node.form.items
  empty : us = [] → node.form = .script []
  source : node.form.KeepsSource

theorem Node.WrittenWith.length_eq {us : List Token} {node : Node} (h : node.WrittenWith us) :
    us.length = node.texts.length := by
  rw [h.items.length_eq, Node.texts_eq_items]

namespace Reader

/-! ## Pieces -/

/-- A piece of what has been read: a token, a token of which the place is not kept, or a node. -/
inductive Piece where
  | token (t : Token)
  | mark
  | part (p : Part)

namespace Piece

/-- The node that a piece is, if it is one. -/
def node? : Piece → Option Node
  | token _ | mark => none
  | part p => some p.node

/-- Where a piece starts, if that is kept. -/
def start? : Piece → Option Cursor
  | token t => some t.start
  | mark => none
  | part p => some p.start

/-- Where a piece ends, if that is kept. -/
def stop? : Piece → Option Nat
  | token t => some t.stop
  | mark => none
  | part p => some p.stop

@[simp] theorem node?_token (t : Token) : (token t).node? = none := rfl

@[simp] theorem node?_mark : mark.node? = none := rfl

@[simp] theorem node?_part (p : Part) : (part p).node? = some p.node := rfl

@[simp] theorem start?_part (p : Part) : (part p).start? = some p.start := rfl

@[simp] theorem stop?_part (p : Part) : (part p).stop? = some p.stop := rfl

end Piece

/-- The part is the one that the tokens are read as. -/
structure Part.Made (us : List Token) (p : Part) : Prop where
  start : us.head?.map (·.start) = some p.start
  stop : us.getLast?.map (·.stop) = some p.stop
  loc : p.node.loc = some (p.start.locate p.stop)
  items : Covers us p.node.form.items
  source : p.node.form.KeepsSource

theorem Part.Made.ne_nil {us : List Token} {p : Part} (h : p.Made us) : us ≠ [] := by
  rintro rfl
  exact nomatch h.start

theorem Part.Made.extent {us : List Token} {p : Part} (h : p.Made us) :
    p.node.loc = Token.extent us := by
  obtain ⟨first, hfirst, hstart⟩ := Option.map_eq_some_iff.1 h.start
  obtain ⟨last, hlast, hstop⟩ := Option.map_eq_some_iff.1 h.stop
  rw [h.loc, Token.extent, hfirst, hlast, ← hstart, ← hstop]
  rfl

/-- The tokens are read as the pieces. -/
inductive Read : List Token → List Piece → Prop where
  | nil : Read [] []
  | token (t : Token) {us : List Token} {ys : List Piece} : Read us ys → Read (t :: us) (.token t :: ys)
  | mark (t : Token) {us : List Token} {ys : List Piece} : Read us ys → Read (t :: us) (.mark :: ys)
  | part {vs us : List Token} {p : Part} {ys : List Piece} : p.Made vs → Read us ys →
      Read (vs ++ us) (.part p :: ys)

namespace Read

variable {us vs : List Token} {ys zs : List Piece}

theorem append (h : Read us ys) (h' : Read vs zs) : Read (us ++ vs) (ys ++ zs) := by
  induction h with
  | nil => exact h'
  | token t _ ih => exact .token t ih
  | mark t _ ih => exact .mark t ih
  | part hp _ ih =>
    rw [List.append_assoc]
    exact .part hp ih

theorem of_append (h : Read us (ys ++ zs)) :
    ∃ us₁ us₂, us = us₁ ++ us₂ ∧ Read us₁ ys ∧ Read us₂ zs := by
  induction ys generalizing us with
  | nil => exact ⟨[], us, rfl, .nil, h⟩
  | cons y ys ih =>
    cases h with
    | token t h =>
      obtain ⟨us₁, us₂, rfl, h₁, h₂⟩ := ih h
      exact ⟨t :: us₁, us₂, rfl, .token t h₁, h₂⟩
    | mark t h =>
      obtain ⟨us₁, us₂, rfl, h₁, h₂⟩ := ih h
      exact ⟨t :: us₁, us₂, rfl, .mark t h₁, h₂⟩
    | @part vs _ _ _ hp h =>
      obtain ⟨us₁, us₂, rfl, h₁, h₂⟩ := ih h
      exact ⟨vs ++ us₁, us₂, (List.append_assoc vs us₁ us₂).symm, .part hp h₁, h₂⟩

theorem of_token {t : Token} (h : Read us [.token t]) : us = [t] := by
  cases h with
  | token t h => cases h; rfl

theorem of_part {p : Part} (h : Read us [.part p]) : p.Made us := by
  cases h with
  | part hp h =>
    cases h
    rwa [List.append_nil]

/-- The tokens of pieces are those of items with the same nodes at the same places. -/
theorem covers (h : Read us ys) {items : List Item}
    (hi : items.map Item.node? = ys.map Piece.node?) : Covers us items := by
  induction h generalizing items with
  | nil =>
    rw [List.map_eq_nil_iff.1 hi]
    exact .nil
  | token t _ ih | mark t _ ih =>
    obtain ⟨item, items, rfl, hitem, hitems⟩ := List.map_eq_cons_iff.1 hi
    cases item with
    | token text => exact .token t text (ih hitems)
    | node n => cases hitem
  | part hp _ ih =>
    obtain ⟨item, items, rfl, hitem, hitems⟩ := List.map_eq_cons_iff.1 hi
    cases item with
    | token text => cases hitem
    | node n =>
      obtain rfl := Option.some.inj hitem
      exact .node hp.ne_nil hp.extent hp.source hp.items (ih hitems)

theorem start (h : Read us ys) {c : Cursor} (hc : ys.head?.bind Piece.start? = some c) :
    us.head?.map (·.start) = some c := by
  cases h with
  | nil | mark => cases hc
  | token t => exact hc
  | part hp =>
    obtain rfl := Option.some.inj hc
    rw [List.head?_append_of_ne_nil _ hp.ne_nil]
    exact hp.start

theorem stop (h : Read us ys) {k : Nat} (hk : ys.getLast?.bind Piece.stop? = some k) :
    us.getLast?.map (·.stop) = some k := by
  rcases List.eq_nil_or_concat ys with rfl | ⟨front, last, rfl⟩
  · cases hk
  · rw [List.concat_eq_append] at h hk
    obtain ⟨us₁, us₂, rfl, -, h₂⟩ := h.of_append
    rw [List.getLast?_concat] at hk
    cases last with
    | token t =>
      rw [h₂.of_token, List.getLast?_concat]
      exact hk
    | mark => cases hk
    | part p =>
      obtain rfl := Option.some.inj hk
      have hp := h₂.of_part
      rw [List.getLast?_append_of_ne_nil _ hp.ne_nil]
      exact hp.stop

end Read

/-- Whatever is read as some pieces is read as others too. -/
def Reduces (ys zs : List Piece) : Prop :=
  ∀ us, Read us ys → Read us zs

namespace Reduces

variable {xs ys zs : List Piece}

theorem refl (ys : List Piece) : Reduces ys ys :=
  fun _ h => h

theorem of_eq (h : ys = zs) : Reduces ys zs :=
  h ▸ refl ys

theorem trans (h : Reduces xs ys) (h' : Reduces ys zs) : Reduces xs zs :=
  fun us hus => h' us (h us hus)

theorem append {ys' zs' : List Piece} (h : Reduces ys zs) (h' : Reduces ys' zs') :
    Reduces (ys ++ ys') (zs ++ zs') := by
  intro us hus
  obtain ⟨us₁, us₂, rfl, h₁, h₂⟩ := hus.of_append
  exact (h us₁ h₁).append (h' us₂ h₂)

/-- Pieces in front stay as they are. -/
theorem behind (xs : List Piece) (h : Reduces ys zs) : Reduces (xs ++ ys) (xs ++ zs) :=
  (refl xs).append h

/-- Pieces behind stay as they are. -/
theorem before (xs : List Piece) (h : Reduces ys zs) : Reduces (ys ++ xs) (zs ++ xs) :=
  h.append (refl xs)

theorem mark (t : Token) : Reduces [.token t] [.mark] := by
  intro us hus
  rw [hus.of_token]
  exact .mark t .nil

/-- **A reduction.**  Pieces that a form is written with become a node of the form, which is located
from the start of the first piece to the end of the last one. -/
theorem build {form : Form} {start : Cursor} {stop : Nat}
    (hi : form.items.map Item.node? = ys.map Piece.node?)
    (hstart : ys.head?.bind Piece.start? = some start)
    (hstop : ys.getLast?.bind Piece.stop? = some stop) (hsource : form.KeepsSource := by trivial) :
    Reduces ys [.part (.build form start stop)] := by
  intro us hus
  have hp : (Part.build form start stop).Made us :=
    ⟨hus.start hstart, hus.stop hstop, rfl, hus.covers hi, hsource⟩
  have h := Read.part hp .nil
  rwa [List.append_nil] at h

end Reduces

end Reader

end Scriptlet
