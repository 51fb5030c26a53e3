import Scriptlet.Proofs.Failures
import Scriptlet.Proofs.Layout

/-!
# Arithmetic from text to value

`Arithmetic` is an expression over numerals, a minus in front, sums, differences and products, taken
by itself.  It has an exact integer value, and `Arithmetic.texts` writes it with parentheses only
where precedence and association to the left ask for them.  `Arithmetic.tree` is the tree that the
grammar has for it, in which operators of one level that follow one another are a single run.  Run
from any source of these texts, it comes to its exact value, or to an error if a part of it is out of
the range of the language (`arithmetic_exact`).
-/

namespace Scriptlet

set_option autoImplicit false

/-! ## Expressions -/

/-- A natural number as it is written: at least one digit, and no more than a conversion accepts. -/
structure Digits where
  text : String
  isNumeral : IsNumeral text.toList
  short : text.toList.length ≤ Numeral.digitLimit

/-- The number that is written. -/
def Digits.value (d : Digits) : Int :=
  Numeral.value d.text.toList

/-- The binary operations. -/
inductive Operation where
  | plus | minus | times
deriving DecidableEq, Repr

namespace Operation

def symbol : Operation → String
  | plus => "+"
  | minus => "-"
  | times => "*"

def apply : Operation → Int → Int → Int
  | plus => (· + ·)
  | minus => (· - ·)
  | times => (· * ·)

/-- The kind of run that an operation belongs to. -/
def kind : Operation → String
  | plus | minus => "sum"
  | times => "product"

/-- How loose the left operand may bind: as loose as the operation itself, which is applied later. -/
def level : Operation → Level
  | plus | minus => .sum
  | times => .product

/-- How loose the right operand may bind. -/
def rightLevel : Operation → Level
  | plus | minus => .product
  | times => .unary

end Operation

/-- An arithmetic expression. -/
inductive Arithmetic where
  | literal (d : Digits)
  | opposite (operand : Arithmetic)
  | binary (op : Operation) (left right : Arithmetic)

/-- Texts in parentheses, unless they bind as tight as is asked for. -/
def enclose (asked own : Level) (texts : List String) : List String :=
  if own ≤ asked then texts else "(" :: texts ++ [")"]

namespace Arithmetic

/-- The exact value. -/
def value : Arithmetic → Int
  | literal d => d.value
  | opposite operand => -operand.value
  | binary op left right => op.apply left.value right.value

/-- The expression and all expressions in it. -/
def parts : Arithmetic → List Arithmetic
  | literal d => [literal d]
  | opposite operand => opposite operand :: operand.parts
  | binary op left right => binary op left right :: (left.parts ++ right.parts)

/-- Every literal and the value of every part is a number of the language. -/
def InRange (t : Arithmetic) : Prop :=
  ∀ part ∈ t.parts, IsNumber part.value

instance (t : Arithmetic) : Decidable t.InRange :=
  inferInstanceAs (Decidable (∀ part ∈ t.parts, IsNumber part.value))

/-- How tight an expression binds. -/
def level : Arithmetic → Level
  | literal _ => .primary
  | opposite _ => .unary
  | binary op _ _ => op.level

/-- The texts of the tokens, with parentheses where they are needed. -/
def texts : Arithmetic → List String
  | literal d => [d.text]
  | opposite operand => "-" :: enclose .unary operand.level operand.texts
  | binary op left right =>
    enclose op.level left.level left.texts ++
      op.symbol :: enclose op.rightLevel right.level right.texts

/-- The expression as text, with nothing between its tokens. -/
def text (t : Arithmetic) : String :=
  String.join t.texts

end Arithmetic

/-! ## Checked steps -/

namespace Arithmetic

variable {d : Digits} {op : Operation} {t left right : Arithmetic}

theorem inRange_literal : (literal d).InRange ↔ IsNumber d.value := by
  simp [InRange, parts, value]

theorem inRange_opposite : (opposite t).InRange ↔ IsNumber (-t.value) ∧ t.InRange := by
  simp [InRange, parts, value]

theorem inRange_binary : (binary op left right).InRange ↔
    IsNumber (op.apply left.value right.value) ∧ left.InRange ∧ right.InRange := by
  simp [InRange, parts, value, or_imp, forall_and]

/-- A number, if it is one of the language. -/
def checked (n : Int) : Except Cause Int :=
  if Literal.inRange n then .ok n else .error .overflow

/-- What the steps of a calculation come to, each of them checked. -/
def result : Arithmetic → Except Cause Int
  | literal d => if Literal.inRange d.value then .ok d.value else .error (.outOfRange d.text)
  | opposite operand => do checked (-(← operand.result))
  | binary op left right => do
    let m ← left.result
    let n ← right.result
    checked (op.apply m n)

/-- An error about a number out of range: of a step, or of a literal among the texts. -/
def IsRangeError (texts : List String) (cause : Cause) : Prop :=
  cause = .overflow ∨ ∃ text ∈ texts, cause = .outOfRange text

theorem IsRangeError.mono {texts texts' : List String} {cause : Cause} (h : IsRangeError texts cause)
    (hsub : texts ⊆ texts') : IsRangeError texts' cause :=
  h.imp id fun ⟨text, hmem, hcause⟩ => ⟨text, hsub hmem, hcause⟩

theorem subset_enclose (asked own : Level) (texts : List String) :
    texts ⊆ enclose asked own texts := by
  unfold enclose
  split
  · exact List.Subset.refl _
  · exact fun text h => List.mem_cons_of_mem _ (List.mem_append_left _ h)

/-- A checked step is exact if its value is in range, and an overflow if not. -/
theorem checked_cases (n : Int) :
    (IsNumber n ∧ checked n = .ok n) ∨ (¬ IsNumber n ∧ checked n = .error .overflow) := by
  rw [← Literal.inRange_iff, checked]
  by_cases h : Literal.inRange n
  · exact .inl ⟨h, if_pos h⟩
  · exact .inr ⟨h, if_neg h⟩

/-- Checked steps come to the exact value if all parts are in range, and to an error if not. -/
theorem result_cases (t : Arithmetic) :
    (t.InRange ∧ t.result = .ok t.value) ∨
      (¬ t.InRange ∧ ∃ cause, t.result = .error cause ∧ IsRangeError t.texts cause) := by
  induction t with
  | literal d =>
    rw [inRange_literal, ← Literal.inRange_iff]
    by_cases h : Literal.inRange d.value
    · exact .inl ⟨h, if_pos h⟩
    · exact .inr ⟨h, _, if_neg h, .inr ⟨d.text, List.mem_singleton_self _, rfl⟩⟩
  | opposite operand ih =>
    rw [inRange_opposite, result]
    rcases ih with ⟨hin, hr⟩ | ⟨hout, cause, hr, hcause⟩
    · rw [hr]
      rcases checked_cases (-operand.value) with ⟨hn, hc⟩ | ⟨hn, hc⟩
      · exact .inl ⟨⟨hn, hin⟩, hc⟩
      · exact .inr ⟨fun h => hn h.1, _, hc, .inl rfl⟩
    · rw [hr]
      refine .inr ⟨fun h => hout h.2, cause, rfl, hcause.mono ?_⟩
      exact fun text h => List.mem_cons_of_mem _ (subset_enclose _ _ _ h)
  | binary op left right ihl ihr =>
    rw [inRange_binary, result]
    rcases ihl with ⟨hleft, hl⟩ | ⟨hout, cause, hl, hcause⟩
    · rw [hl]
      rcases ihr with ⟨hright, hr⟩ | ⟨hout, cause, hr, hcause⟩
      · rw [hr]
        rcases checked_cases (op.apply left.value right.value) with ⟨hn, hc⟩ | ⟨hn, hc⟩
        · exact .inl ⟨⟨hn, hleft, hright⟩, hc⟩
        · exact .inr ⟨fun h => hn h.1, _, hc, .inl rfl⟩
      · rw [hr]
        refine .inr ⟨fun h => hout h.2.2, cause, rfl, hcause.mono ?_⟩
        exact fun text h => List.mem_append_right _ (List.mem_cons_of_mem _ (subset_enclose _ _ _ h))
    · rw [hl]
      refine .inr ⟨fun h => hout h.2.1, cause, rfl, hcause.mono ?_⟩
      exact fun text h => List.mem_append_left _ (subset_enclose _ _ _ h)

end Arithmetic

/-! ## Tokens -/

/-- The end of a text, or a character that makes no token of arithmetic longer. -/
def AtMark (rest : List Char) : Prop :=
  ∀ c ∈ rest.head?, ¬ Numeral.isDigit c ∧ c ≠ '='

/-- Texts that are cut out of a source again. -/
structure Spelled (texts : List String) : Prop where
  /-- They may stand behind an operator. -/
  starts : ∃ c more, texts.flatMap String.toList = c :: more ∧ c ≠ '='
  cuts : ∀ rest, AtMark rest →
    Lexer.cut (texts.flatMap String.toList ++ rest) = (Lexer.cut rest).map (texts ++ ·)

namespace Lexer

/-- The marks of arithmetic. -/
def arithmeticMarks : List Char := ['(', ')', '+', '-', '*']

theorem forall_arithmeticMarks {P : Char → Prop} :
    (∀ c ∈ arithmeticMarks, P c) ↔ P '(' ∧ P ')' ∧ P '+' ∧ P '-' ∧ P '*' := by
  simp [arithmeticMarks]

theorem symbol?_mark {c : Char} (hc : c ∈ arithmeticMarks) {rest : List Char}
    (hr : ∀ d ∈ rest.head?, d ≠ '=') : ∃ t, symbol? (c :: rest) = some (t, 1) := by
  cases rest with
  | nil =>
    have halone : ∀ c ∈ arithmeticMarks, ∃ t, symbol? [c] = some (t, 1) := by
      simp [arithmeticMarks, symbol?, symbols, List.find?, List.isPrefixOf]
    exact halone c hc
  | cons d rest =>
    have hd : ('=' == d) = false := beq_eq_false_iff_ne.2 (hr d rfl).symm
    simp only [arithmeticMarks, List.mem_cons, List.not_mem_nil, or_false] at hc
    rcases hc with rfl | rfl | rfl | rfl | rfl <;>
      simp [symbol?, symbols, List.find?, List.isPrefixOf, hd]

/-- Nothing is skipped in front of a character that is no blank and no slash. -/
theorem gapLength_visible {c : Char} (hs : isSpace c = false) (hc : c ≠ '/') (rest : List Char) :
    gapLength (c :: rest) = 0 := by
  refine gapLength_eq_zero ?_
  rw [gapPiece]
  · rw [hs]
    rfl
  · exact fun _ h _ => hc h
  · exact fun _ h _ => hc h

/-- A mark of arithmetic is a token of its own, unless an equals sign follows it. -/
theorem cut_mark {c : Char} (hc : c ∈ arithmeticMarks) {rest : List Char}
    (hr : ∀ d ∈ rest.head?, d ≠ '=') :
    cut (c :: rest) = (cut rest).map (String.ofList [c] :: ·) := by
  have hmark : ∀ c ∈ arithmeticMarks, isWordStart c = false ∧ Numeral.isDigit c = false ∧
      (c = '"' || c = '\'') = false ∧ isSpace c = false ∧ c ≠ '/' :=
    forall_arithmeticMarks.2 (by decide)
  obtain ⟨hword, hdigit, hquote, hspace, hslash⟩ := hmark c hc
  have hgap := gapLength_visible hspace hslash rest
  obtain ⟨t, hsymbol⟩ := symbol?_mark hc hr
  have hlex : lexeme .any ((c :: rest).drop (gapLength (c :: rest))) = some (t, 1) := by
    rw [hgap, List.drop_zero, lexeme, if_neg (by simp [hword]), if_neg (by simp [hdigit]),
      if_neg (by simp [hquote])]
    exact hsymbol
  rw [cut_token hlex, hgap]
  rfl

/-- A numeral is a token, unless another digit follows it. -/
theorem cut_numeral {digits : List Char} (h : IsNumeral digits) {rest : List Char}
    (hr : ∀ d ∈ rest.head?, ¬ Numeral.isDigit d) :
    cut (digits ++ rest) = (cut rest).map (String.ofList digits :: ·) := by
  cases digits with
  | nil => exact (h.1 rfl).elim
  | cons c digits =>
    have hd : Numeral.isDigit c := h.2 c List.mem_cons_self
    have hspace : isSpace c = false := by
      rw [Bool.eq_false_iff]
      intro hs
      simp only [isSpace, Bool.or_eq_true, beq_iff_eq, or_assoc] at hs
      rcases hs with rfl | rfl | rfl | rfl | rfl <;> exact absurd hd (by decide)
    have hslash : c ≠ '/' := by
      rintro rfl
      exact absurd hd (by decide)
    have hgap := gapLength_visible hspace hslash (digits ++ rest)
    have hend : rest.takeWhile Numeral.isDigit = [] := by
      cases rest with
      | nil => rfl
      | cons d rest => rw [List.takeWhile_cons, if_neg (hr d rfl)]
    have hlex : lexeme .any ((c :: (digits ++ rest)).drop (gapLength (c :: (digits ++ rest)))) =
        some (.number, (c :: digits).length) := by
      rw [hgap, List.drop_zero, lexeme, if_neg (not_isWordStart_of_isDigit hd), if_pos hd,
        List.takeWhile_append_of_pos fun d hmem => h.2 d (List.mem_cons_of_mem _ hmem), hend,
        List.append_nil, Nat.add_comm]
      rfl
    rw [List.cons_append, cut_token hlex, hgap, List.drop_zero, ← List.cons_append, List.take_left,
      List.drop_left]

end Lexer

namespace Spelled

open Lexer

variable {texts more : List String}

theorem numeral {text : String} (h : IsNumeral text.toList) : Spelled [text] := by
  have hchars : [text].flatMap String.toList = text.toList := by simp
  refine ⟨?_, ?_⟩
  · obtain ⟨hne, hdigits⟩ := h
    rw [hchars]
    cases hc : text.toList with
    | nil => exact (hne hc).elim
    | cons c rest =>
      refine ⟨c, rest, rfl, ?_⟩
      rintro rfl
      exact absurd (hdigits '=' (by rw [hc]; exact List.mem_cons_self)) (by decide)
  · intro rest hr
    rw [hchars, cut_numeral h fun d hd => (hr d hd).1, String.ofList_toList]
    rfl

/-- What stands in front of texts does not see an equals sign. -/
theorem head_ne (h : Spelled texts) (rest : List Char) :
    ∀ d ∈ (texts.flatMap String.toList ++ rest).head?, d ≠ '=' := by
  obtain ⟨c, tail, hc, hne⟩ := h.starts
  rw [hc]
  rintro _ ⟨⟩
  exact hne

theorem atMark {c : Char} (hc : c ∈ arithmeticMarks) (rest : List Char) : AtMark (c :: rest) := by
  have hmark : ∀ c ∈ arithmeticMarks, ¬ Numeral.isDigit c ∧ c ≠ '=' :=
    forall_arithmeticMarks.2 (by decide)
  rintro _ ⟨⟩
  exact hmark c hc

/-- A mark in front of texts. -/
theorem cut_cons (h : Spelled texts) {c : Char} (hc : c ∈ arithmeticMarks) {rest : List Char}
    (hr : AtMark rest) :
    cut (c :: (texts.flatMap String.toList ++ rest)) =
      (cut rest).map (String.ofList [c] :: texts ++ ·) := by
  rw [cut_mark hc (h.head_ne rest), h.cuts rest hr, Option.map_map]
  rfl

theorem minus (h : Spelled texts) : Spelled ("-" :: texts) :=
  ⟨⟨'-', _, rfl, by decide⟩, fun _ hr => h.cut_cons (c := '-') (by decide) hr⟩

theorem parentheses (h : Spelled texts) : Spelled ("(" :: texts ++ [")"]) := by
  refine ⟨⟨'(', _, rfl, by decide⟩, ?_⟩
  intro rest hr
  have hchars : ("(" :: texts ++ [")"]).flatMap String.toList ++ rest =
      '(' :: (texts.flatMap String.toList ++ ')' :: rest) := by
    simp
  rw [hchars, h.cut_cons (by decide) (atMark (by decide) rest),
    cut_mark (by decide) fun d hd => (hr d hd).2, Option.map_map]
  refine congrArg (Option.map · _) (funext fun ts => ?_)
  simp

theorem operation (h : Spelled texts) (hmore : Spelled more) (op : Operation) :
    Spelled (texts ++ op.symbol :: more) := by
  obtain ⟨c, hc, hsymbol⟩ : ∃ c ∈ arithmeticMarks, op.symbol = String.ofList [c] := by
    cases op with
    | plus => exact ⟨'+', by decide, rfl⟩
    | minus => exact ⟨'-', by decide, rfl⟩
    | times => exact ⟨'*', by decide, rfl⟩
  have hchars : (texts ++ op.symbol :: more).flatMap String.toList =
      texts.flatMap String.toList ++ c :: more.flatMap String.toList := by
    simp [hsymbol]
  refine ⟨?_, ?_⟩
  · obtain ⟨first, rest, hfirst, hne⟩ := h.starts
    rw [hchars, hfirst]
    exact ⟨first, _, rfl, hne⟩
  · intro rest hr
    rw [hchars, List.append_assoc, List.cons_append, h.cuts _ (atMark hc _), hmore.cut_cons hc hr,
      Option.map_map, hsymbol]
    refine congrArg (Option.map · _) (funext fun ts => ?_)
    simp

theorem enclose {asked own : Level} (h : Spelled texts) : Spelled (enclose asked own texts) := by
  unfold Scriptlet.enclose
  split
  · exact h
  · exact h.parentheses

end Spelled

theorem Arithmetic.spelled (t : Arithmetic) : Spelled t.texts := by
  induction t with
  | literal d => exact .numeral d.isNumeral
  | opposite operand ih => exact ih.enclose.minus
  | binary op left right ihl ihr => exact ihl.enclose.operation ihr.enclose op

/-- The text of an expression has its tokens. -/
theorem Arithmetic.cut_text (t : Arithmetic) : Lexer.cut t.text.toList = some t.texts := by
  have hchars : t.text.toList = t.texts.flatMap String.toList ++ [] := by
    simp [text]
  rw [hchars, t.spelled.cuts [] nofun, Lexer.cut_end List.drop_nil, Option.map_some, List.append_nil]

/-! ## Trees -/

/-- A node in parentheses, unless it binds as tight as is asked for. -/
def Node.enclose (asked : Level) (node : Node) : Node :=
  if node.level ≤ asked then node else ⟨none, .group node⟩

/-- A run of operators that goes on with one operand more; it starts with `left` if `left` is no such
run itself. -/
def Form.joined (kind : String) (left : Node) (op : String) (right : Node) : Form :=
  match left.form with
  | .chain own first rest =>
    if own = kind then .chain kind first (rest ++ [(op, right)]) else .chain kind left [(op, right)]
  | _ => .chain kind left [(op, right)]

/-- The tree of an expression. -/
def Arithmetic.tree : Arithmetic → Node
  | literal d => ⟨none, .number d.text⟩
  | opposite operand => ⟨none, .unary "-" (operand.tree.enclose .unary)⟩
  | binary op left right =>
    ⟨none, .joined op.kind (left.tree.enclose op.level) op.symbol (right.tree.enclose op.rightLevel)⟩

theorem Level.lt_or_eq {a b : Level} (h : a ≤ b) : a < b ∨ a = b := by
  revert h
  cases a <;> cases b <;> decide

/-- A run of operators is the only form of its level. -/
theorem Form.eq_chain {kind : String} {level : Level} (hk : Level.ofKind? kind = some level)
    {form : Form} (h : form.level = level) : ∃ first rest, form = .chain kind first rest := by
  obtain ⟨rfl, rfl⟩ | ⟨rfl, rfl⟩ | ⟨rfl, rfl⟩ := Level.ofKind?_cases hk
  all_goals
    cases form with
    | chain own first rest =>
      rw [Form.level, Option.getD_eq_iff] at h
      rcases h with h | ⟨_, h⟩
      · rcases Level.ofKind?_cases h with ⟨rfl, h⟩ | ⟨rfl, h⟩ | ⟨rfl, h⟩ <;> cases h
        exact ⟨first, rest, rfl⟩
      · cases h
    | _ => cases h

namespace Form

variable {kind op : String} {level : Level} {left right : Node}

/-- A run goes on, or a new one starts with an operand that binds tighter. -/
theorem joined_cases (op : String) (right : Node) (hk : Level.ofKind? kind = some level)
    (hl : left.level ≤ level) :
    (∃ first rest, left.form = .chain kind first rest ∧
        joined kind left op right = .chain kind first (rest ++ [(op, right)])) ∨
      (left.level < level ∧ joined kind left op right = .chain kind left [(op, right)]) := by
  obtain ⟨loc, form⟩ := left
  rcases Level.lt_or_eq hl with hlt | heq
  · refine .inr ⟨hlt, ?_⟩
    unfold joined
    split
    · next own first rest hform =>
      rw [if_neg]
      rintro rfl
      dsimp only at hform
      subst hform
      rw [Node.level, Form.level, hk] at hlt
      exact Nat.lt_irrefl _ hlt
    · rfl
  · obtain ⟨first, rest, rfl⟩ := Form.eq_chain hk heq
    exact .inl ⟨first, rest, rfl, if_pos rfl⟩

theorem joined_level (hk : Level.ofKind? kind = some level) (hl : left.level ≤ level) :
    (joined kind left op right).level = level := by
  rcases joined_cases op right hk hl with ⟨first, rest, -, hj⟩ | ⟨-, hj⟩
  · rw [hj, Form.level, hk]
    rfl
  · rw [hj, Form.level, hk]
    rfl

theorem joined_texts (hk : Level.ofKind? kind = some level) (hl : left.level ≤ level) :
    (joined kind left op right).texts = left.texts ++ op :: right.texts := by
  obtain ⟨loc, form⟩ := left
  rcases joined_cases op right hk hl with ⟨first, rest, hf, hj⟩ | ⟨-, hj⟩
  · dsimp only at hf
    subst hf
    rw [hj]
    simp [Form.texts, Node.texts, Node.operandTexts_append, Node.operandTexts]
  · rw [hj]
    simp [Form.texts, Node.operandTexts]

theorem joined_isExpression (hk : Level.ofKind? kind = some level) (hl : left.level ≤ level)
    (hleft : left.IsExpression) (hop : op ∈ level.operators) (hr : right.level < level)
    (hright : right.IsExpression) : (joined kind left op right).IsExpression := by
  obtain ⟨loc, form⟩ := left
  have hlast : Node.AreOperands level [(op, right)] := ⟨hop, hr, hright, trivial⟩
  rcases joined_cases op right hk hl with ⟨first, rest, hf, hj⟩ | ⟨hlt, hj⟩
  · dsimp only at hf
    subst hf
    obtain ⟨own, hown, hfirst, hexpr, -, hrest⟩ := hleft
    obtain rfl := Option.some.inj (hk.symm.trans hown)
    rw [hj]
    refine ⟨level, hk, hfirst, hexpr, by simp, Node.areOperands_iff.2 ?_⟩
    intro q hq
    rcases List.mem_append.1 hq with hq | hq
    · exact Node.areOperands_iff.1 hrest q hq
    · exact Node.areOperands_iff.1 hlast q hq
  · rw [hj]
    exact ⟨level, hk, hlt, hleft, List.cons_ne_nil _ _, hlast⟩

end Form

namespace Operation

variable (op : Operation)

theorem ofKind?_kind : Level.ofKind? op.kind = some op.level := by
  cases op <;> rfl

theorem rightLevel_lt : op.rightLevel < op.level := by
  cases op <;> decide

theorem symbol_mem : op.symbol ∈ op.level.operators := by
  cases op <;> decide

end Operation

namespace Node

variable {asked : Level} {node : Node}

theorem enclose_level (asked : Level) (node : Node) : (node.enclose asked).level ≤ asked := by
  unfold Node.enclose
  split
  · assumption
  · exact Nat.zero_le _

theorem enclose_isExpression (h : node.IsExpression) : (node.enclose asked).IsExpression := by
  unfold Node.enclose
  split
  · exact h
  · exact h

end Node

namespace Arithmetic

theorem tree_level (t : Arithmetic) : t.tree.level = t.level := by
  cases t with
  | literal d => rfl
  | opposite operand => rfl
  | binary op left right => exact Form.joined_level op.ofKind?_kind (Node.enclose_level _ _)

/-- The tree of an expression has its tokens. -/
theorem tree_texts (t : Arithmetic) : t.tree.texts = t.texts := by
  have henclosed : ∀ {asked : Level} {x : Arithmetic}, x.tree.texts = x.texts →
      (x.tree.enclose asked).texts = enclose asked x.level x.texts := by
    intro asked x hx
    rw [Node.enclose, Scriptlet.enclose, tree_level]
    split
    · exact hx
    · rw [Node.texts, Form.texts, hx]
  induction t with
  | literal d => rfl
  | opposite operand ih => rw [tree, Node.texts, Form.texts, henclosed ih, texts]
  | binary op left right ihl ihr =>
    rw [tree, Node.texts, Form.joined_texts op.ofKind?_kind (Node.enclose_level _ _), henclosed ihl,
      henclosed ihr, texts]

/-- The tree of an expression is one of the grammar. -/
theorem tree_isExpression (t : Arithmetic) : t.tree.IsExpression := by
  induction t with
  | literal d => exact d.isNumeral
  | opposite operand ih =>
    exact ⟨by decide, Node.enclose_level _ _, Node.enclose_isExpression ih⟩
  | binary op left right ihl ihr =>
    exact Form.joined_isExpression op.ofKind?_kind (Node.enclose_level _ _)
      (Node.enclose_isExpression ihl) op.symbol_mem
      (Nat.lt_of_le_of_lt (Node.enclose_level _ _) op.rightLevel_lt) (Node.enclose_isExpression ihr)

end Arithmetic

/-! ## Runs -/

section Runs

variable {ε σ : Type}

/-- A computation comes to a number, or to an error outside of all calls. -/
def Exec.Yields (x : Exec ε σ (Value ε)) (r : Except Cause Int) : Prop :=
  ∀ w, (∃ n, r = .ok n ∧ (x.outcome w).1 = .ok (.number n)) ∨
    ∃ cause loc, r = .error cause ∧ (x.outcome w).1 = .error (.error ⟨cause, loc, []⟩)

namespace Exec.Yields

variable {x y : Exec ε σ (Value ε)} {r q : Except Cause Int}

theorem ofFailing {v : Except Failure (Value ε)} (h : v = (r.map .number).mapError .error) :
    Yields (Exec.ofFailing v : Exec ε σ (Value ε)) r := by
  intro w
  rw [h, outcome_ofFailing]
  cases r with
  | ok n => exact .inl ⟨n, rfl, rfl⟩
  | error cause => exact .inr ⟨cause, none, rfl, rfl⟩

theorem number (r : Except Cause Int) :
    Yields (do return .number (← Exec.ofFailing (r.mapError .error)) : Exec ε σ (Value ε)) r := by
  intro w
  cases r with
  | ok n => exact .inl ⟨n, rfl, rfl⟩
  | error cause => exact .inr ⟨cause, none, rfl, rfl⟩

/-- A number is gone on with, and an error is passed on. -/
theorem bind {f : Value ε → Exec ε σ (Value ε)} {g : Int → Except Cause Int} (hx : x.Yields r)
    (hf : ∀ n, (f (.number n)).Yields (g n)) : (x >>= f).Yields (r >>= g) := by
  intro w
  rw [outcome_bind]
  have hw := hx w
  generalize x.outcome w = out at hw
  obtain ⟨value, after⟩ := out
  rcases hw with ⟨n, rfl, rfl⟩ | ⟨cause, loc, rfl, rfl⟩
  · exact hf n after
  · exact .inr ⟨cause, loc, rfl, rfl⟩

end Exec.Yields

namespace Eval

variable [BEq ε] (call : Caller ε σ)

/-- An expression comes to what its form comes to. -/
theorem evaluate_yields {form : Form} {loc : Option Location} {r : Except Cause Int}
    (h : (evaluateForm call loc form).Yields r) : (evaluate call ⟨loc, form⟩).Yields r := by
  intro w
  rw [outcome_evaluate]
  rcases h { w with visited := some ⟨loc, form⟩ } with ⟨n, hr, hn⟩ | ⟨cause, own, hr, he⟩
  · exact .inl ⟨n, hr, by rw [hn]; rfl⟩
  · exact .inr ⟨cause, own.or loc, hr, by rw [he]; rfl⟩

/-- What follows the value of a left operand. -/
def applyTo (op : String) (node : Node) (v : Value ε) : Exec ε σ (Value ε) := do
  let operand ← evaluate call node
  Exec.ofFailing (v.applyOperator op operand)

/-- The last operand of a run is applied last. -/
theorem evaluateRest_concat (v : Value ε) (rest : List (String × Node)) (op : String) (node : Node) :
    evaluateRest call v (rest ++ [(op, node)]) =
      evaluateRest call v rest >>= applyTo call op node := by
  induction rest generalizing v with
  | nil => simp [evaluateRest, applyTo]
  | cons q rest ih =>
    obtain ⟨op', node'⟩ := q
    simp [evaluateRest, ih]

theorem evaluateForm_concat (loc : Option Location) (kind : String) (first : Node)
    (rest : List (String × Node)) (op : String) (node : Node) :
    evaluateForm call loc (.chain kind first (rest ++ [(op, node)])) =
      evaluateForm call loc (.chain kind first rest) >>= applyTo call op node := by
  simp [evaluateForm, evaluateRest_concat]

theorem evaluateForm_pair (loc : Option Location) (kind : String) (first : Node) (op : String)
    (node : Node) : evaluateForm call loc (.chain kind first [(op, node)]) =
      evaluate call first >>= applyTo call op node := by
  simp only [evaluateForm, evaluateRest, bind_pure]
  rfl

end Eval

namespace Form

variable {source : Block → String → String} {form : Form} {node first : Node} {op kind text : String}
  {rest : List (String × Node)}

theorem eq_number (h : form.stripped source = .number text) : form = .number text := by
  cases form with
  | number own => exact h
  | ret expr => cases expr <;> cases h
  | _ => cases h

theorem eq_group (h : form.stripped source = .group node) :
    ∃ inner, form = .group inner ∧ inner.stripped source = node := by
  cases form with
  | group inner =>
    cases h
    exact ⟨inner, rfl, rfl⟩
  | ret expr => cases expr <;> cases h
  | _ => cases h

theorem eq_unary (h : form.stripped source = .unary op node) :
    ∃ inner, form = .unary op inner ∧ inner.stripped source = node := by
  cases form with
  | unary own inner =>
    cases h
    exact ⟨inner, rfl, rfl⟩
  | ret expr => cases expr <;> cases h
  | _ => cases h

theorem eq_run (h : form.stripped source = .chain kind first rest) :
    ∃ first' rest', form = .chain kind first' rest' ∧ first'.stripped source = first ∧
      Node.strippedOperands source rest' = rest := by
  cases form with
  | chain own first' rest' =>
    cases h
    exact ⟨first', rest', rfl, rfl, rfl⟩
  | ret expr => cases expr <;> cases h
  | _ => cases h

/-- A run that ends with an operand, up to its places. -/
theorem eq_run_concat
    (h : form.stripped source = stripped source (.chain kind first (rest ++ [(op, node)]))) :
    ∃ first' rest' node', form = .chain kind first' (rest' ++ [(op, node')]) ∧
      first'.stripped source = first.stripped source ∧
      Node.strippedOperands source rest' = Node.strippedOperands source rest ∧
      node'.stripped source = node.stripped source := by
  obtain ⟨first', all, rfl, hfirst, hall⟩ := eq_run h
  rw [Node.strippedOperands_eq_map, Node.strippedOperands_eq_map, List.map_append,
    List.map_eq_append_iff] at hall
  obtain ⟨rest', last, rfl, hrest, hlast⟩ := hall
  rw [List.map_singleton, List.map_eq_singleton_iff] at hlast
  obtain ⟨⟨op', node'⟩, rfl, hq⟩ := hlast
  obtain ⟨rfl, hnode⟩ := Prod.mk.inj hq
  refine ⟨first', rest', node', rfl, hfirst, ?_, hnode⟩
  rw [Node.strippedOperands_eq_map, Node.strippedOperands_eq_map, hrest]

end Form

namespace Arithmetic

theorem checked_number (n : Int) :
    (Value.checked n : Except Cause (Value ε)) = (checked n).map .number := by
  unfold Value.checked checked
  split <;> rfl

theorem applyOperator_symbol [BEq ε] (op : Operation) (m n : Int) :
    (Value.number m : Value ε).applyOperator op.symbol (.number n) =
      ((checked (op.apply m n)).map Value.number).mapError .error := by
  rw [← checked_number]
  cases op <;> rfl

theorem applyUnary_minus (n : Int) :
    (Value.number n : Value ε).applyUnary "-" =
      ((checked (-n)).map Value.number).mapError .error := by
  rw [← checked_number]
  rfl

theorem number_literal (d : Digits) :
    Literal.number d.text = (literal d).result.mapError .error := by
  rw [Literal.number, Literal.integer_numeral d.isNumeral, if_neg (Nat.not_lt.2 d.short), result]
  show (if Literal.inRange d.value then _ else _) = _
  split <;> rfl

variable [BEq ε] (call : Caller ε σ)

theorem applyTo_yields (op : Operation) {node : Node} {r : Except Cause Int}
    (h : (Eval.evaluate call node).Yields r) (m : Int) :
    (Eval.applyTo call op.symbol node (.number m)).Yields (do checked (op.apply m (← r))) :=
  h.bind fun n => .ofFailing (applyOperator_symbol op m n)

/-- Forms that differ from the tree of an expression in their places come to its result. -/
def FormsYield (node : Node) (r : Except Cause Int) : Prop :=
  ∀ (form : Form) (loc : Option Location), Node.rendered ⟨loc, form⟩ = node.rendered →
    (Eval.evaluateForm call loc form).Yields r

variable {call} {node : Node} {r : Except Cause Int}

theorem FormsYield.evaluate (h : FormsYield call node r) {found : Node}
    (hf : found.rendered = node.rendered) : (Eval.evaluate call found).Yields r := by
  obtain ⟨loc, form⟩ := found
  exact Eval.evaluate_yields call (h form loc hf)

/-- Parentheses change nothing. -/
theorem FormsYield.enclose (h : FormsYield call node r) (asked : Level) :
    FormsYield call (node.enclose asked) r := by
  unfold Node.enclose
  split
  · exact h
  · intro form loc hf
    obtain ⟨inner, rfl, hinner⟩ := Form.eq_group (congrArg Node.form hf)
    rw [Eval.evaluateForm]
    exact h.evaluate hinner

/-- **The run of a tree.**  Forms that differ from the tree in their places only come to the result of
the checked steps. -/
theorem tree_yields (call : Caller ε σ) (t : Arithmetic) : FormsYield call t.tree t.result := by
  induction t with
  | literal d =>
    intro form loc hf
    obtain rfl := Form.eq_number (congrArg Node.form hf)
    rw [Eval.evaluateForm, number_literal]
    exact .number _
  | opposite operand ih =>
    intro form loc hf
    obtain ⟨inner, rfl, hinner⟩ := Form.eq_unary (congrArg Node.form hf)
    rw [Eval.evaluateForm]
    exact ((ih.enclose .unary).evaluate hinner).bind fun n => .ofFailing (applyUnary_minus n)
  | binary op left right ihl ihr =>
    intro form loc hf
    have hleft := ihl.enclose op.level
    have hright := ihr.enclose op.rightLevel
    have hform := congrArg Node.form hf
    rw [tree] at hform
    generalize hl : left.tree.enclose op.level = l at hform hleft
    have hlevel : l.level ≤ op.level := hl ▸ Node.enclose_level _ _
    rcases Form.joined_cases op.symbol (right.tree.enclose op.rightLevel) op.ofKind?_kind hlevel
      with ⟨first, rest, hrun, hj⟩ | ⟨-, hj⟩
    · -- The run of the left operand goes on.
      obtain ⟨first', rest', node', rfl, hfirst, hrest, hnode⟩ := Form.eq_run_concat (hj ▸ hform)
      rw [Eval.evaluateForm_concat]
      refine (hleft _ loc ?_).bind (applyTo_yields call op (hright.evaluate hnode))
      obtain ⟨place, own⟩ := l
      dsimp only at hrun
      subst hrun
      show Node.mk none (.chain op.kind (first'.stripped _) (Node.strippedOperands _ rest')) = _
      rw [hfirst, hrest]
      rfl
    · -- A run starts here.
      rw [hj, ← List.nil_append [_]] at hform
      obtain ⟨first', rest', node', rfl, hfirst, hrest, hnode⟩ := Form.eq_run_concat hform
      obtain rfl : rest' = [] := by
        rwa [Node.strippedOperands_eq_map, Node.strippedOperands, List.map_eq_nil_iff] at hrest
      rw [List.nil_append, Eval.evaluateForm_pair]
      exact (hleft.evaluate hfirst).bind (applyTo_yields call op (hright.evaluate hnode))

end Arithmetic

/-- **Arithmetic is exact.**  An expression is written with the tokens of its text.  Run from any source
of these tokens, it comes to its exact value if every literal and every part of it is a number of 64
bits, and else to an error about a literal out of range or about an overflow. -/
theorem arithmetic_exact [BEq ε] (host : Host ε σ) (t : Arithmetic) (w : World ε σ) :
    Lexer.cut t.text.toList = some t.texts ∧
      ∀ source : String, Lexer.cut source.toList = some t.texts →
        (t.InRange → ((Session.runExpression host source).outcome w).1 = .ok (.number t.value)) ∧
        (¬ t.InRange → ∃ e, ((Session.runExpression host source).outcome w).1 = .error (.error e) ∧
          (e.cause = .overflow ∨ ∃ text ∈ t.texts, e.cause = .outOfRange text)) := by
  refine ⟨t.cut_text, ?_⟩
  intro source hs
  rw [← t.tree_texts] at hs
  obtain ⟨found, hparse, hfound⟩ := Parser.parse_layout t.tree_isExpression hs
  rw [Session.runExpression_eq host hparse]
  rcases t.result_cases with ⟨hin, hr⟩ | ⟨hout, cause, hr, hcause⟩
  all_goals
    have hrun := (t.tree_yields (Session.caller host)).evaluate hfound w
    rw [hr] at hrun
  · rcases hrun with ⟨n, hn, hv⟩ | ⟨_, _, he, _⟩
    · obtain rfl := Except.ok.inj hn
      exact ⟨fun _ => hv, fun hout => (hout hin).elim⟩
    · cases he
  · rcases hrun with ⟨_, hn, _⟩ | ⟨cause', loc, he, hv⟩
    · cases hn
    · obtain rfl := Except.error.inj he
      exact ⟨fun hin => (hout hin).elim, fun _ => ⟨_, hv, hcause⟩⟩

end Runs

/-- Parentheses, a comment and a line break change nothing, and the least number has no literal. -/
theorem arithmetic_exact_layout :
    let two : Arithmetic := .literal ⟨"2", by decide, by decide⟩
    let five : Arithmetic := .literal ⟨"5", by decide, by decide⟩
    let bound : Arithmetic := .literal ⟨"9223372036854775808", by decide, by decide⟩
    let t : Arithmetic := .binary .minus (.binary .times two (.binary .minus two five)) (.opposite five)
    let run (source : String) := ((Session.runExpression Host.none source).outcome (.initial ())).1
    t.text = "2*(2-5)--5" ∧ run "2 * (2 - /* five */ 5)\n- -5" = .ok (.number (-1)) ∧
      ∃ e, run (Arithmetic.opposite bound).text = .error (.error e) ∧
        (e.cause = .overflow ∨ ∃ text ∈ ["-", "9223372036854775808"], e.cause = .outOfRange text) := by
  intro two five bound t run
  refine ⟨by decide +kernel, ?_, ?_⟩
  · exact ((arithmetic_exact Host.none t (.initial ())).2 _ (by decide +kernel)).1 (by decide +kernel)
  · obtain ⟨hcut, hruns⟩ := arithmetic_exact Host.none (.opposite bound) (.initial ())
    exact (hruns _ hcut).2 (by decide +kernel)

end Scriptlet
