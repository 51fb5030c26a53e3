import Scriptlet.Token
import Scriptlet.Numeral

/-!
# Cutting a source text into tokens

Which token a text starts with depends on what may stand there: a keyword is a plain name where
only a name fits, `!=` opens with the operator `!` where an operand is expected, and after the
name of a declaration only `=` is looked for.  `Mode` names these situations, `lexeme` gives
the terminal and the length of the token at the start of a text, and `gapLength` the length of
the blanks and comments in front of it, which are the same in every mode.
-/

namespace Scriptlet.Lexer

set_option autoImplicit false

/-- What the surrounding program allows at a place. -/
inductive Mode where
  /-- Every terminal is looked for, keywords before names and longer operators first. -/
  | any
  /-- A statement starts: `-` and `!` stand alone. -/
  | statement
  /-- An operand starts: `-` and `!` stand alone and only literal words are reserved. -/
  | operand
  /-- A name stands here, and every word is one. -/
  | name
  /-- An equals sign stands here, alone. -/
  | equals
deriving DecidableEq, Repr, Inhabited

/-- A character that separates tokens. -/
def isSpace (c : Char) : Bool :=
  c == ' ' || c == '\t' || c == '\x0c' || c == '\r' || c == '\n'

/-- The first character of a word. -/
def isWordStart (c : Char) : Bool :=
  ('A' ≤ c && c ≤ 'Z') || ('a' ≤ c && c ≤ 'z') || c == '_'

/-- A further character of a word. -/
def isWordPart (c : Char) : Bool :=
  isWordStart c || Numeral.isDigit c

/-- The number of characters of a comment's body and its closing mark. -/
def commentTail : List Char → Option Nat
  | [] => none
  | '*' :: '/' :: _ => some 2
  | _ :: rest => (commentTail rest).map (· + 1)

/-- The number of characters of the blank or comment that a text starts with.  A comment that
is never closed is none. -/
def gapPiece : List Char → Nat
  | '/' :: '/' :: rest => 2 + (rest.takeWhile fun c => c != '\n').length
  | '/' :: '*' :: rest =>
    match commentTail rest with
    | some n => 2 + n
    | none => 0
  | c :: _ => if isSpace c then 1 else 0
  | [] => 0

/-- The number of characters of the blanks and comments that a text starts with. -/
def gapLength (cs : List Char) : Nat :=
  match gapPiece cs, cs with
  | n + 1, _ :: rest => n + 1 + gapLength (rest.drop n)
  | _, _ => 0
termination_by cs.length
decreasing_by
  simp only [List.length_drop, List.length_cons]
  omega

/-- The number of characters of a string's body and its closing quote `q`. -/
def stringTail (q : Char) : List Char → Option Nat
  | [] => none
  | '\\' :: c :: rest => if c = '\n' then none else (stringTail q rest).map (· + 2)
  | c :: rest =>
    if c = q then some 1
    else if c = '\\' || c = '\n' then none
    else (stringTail q rest).map (· + 1)

/-- The operators and punctuation marks, longer ones before their beginnings. -/
def symbols : List (List Char × Terminal) := [
  (['=', '=', '='], .identical), (['!', '=', '='], .notIdentical),
  (['=', '='], .equalEqual), (['!', '='], .bangEqual),
  (['+', '='], .plusEqual), (['-', '='], .minusEqual), (['*', '='], .starEqual),
  (['/', '='], .slashEqual), (['<', '='], .lessEqual), (['>', '='], .moreEqual),
  (['{'], .lbrace), (['}'], .rbrace), (['('], .lpar), ([')'], .rpar), ([','], .comma),
  ([';'], .semicolon), (['?'], .qmark), ([':'], .colon), (['.'], .dot), (['='], .equal),
  (['+'], .plus), (['-'], .minus), (['*'], .star), (['/'], .slash), (['%'], .percent),
  (['!'], .bang), (['<'], .less), (['>'], .more)]

/-- The operator or mark that a text starts with, the longest one. -/
def symbol? (cs : List Char) : Option (Terminal × Nat) :=
  (symbols.find? fun s => s.1.isPrefixOf cs).map fun s => (s.2, s.1.length)

/-- The literal that a word is, or else a name. -/
def literalWord (w : List Char) : Terminal :=
  if w = "true".toList then .trueWord
  else if w = "false".toList then .falseWord
  else if w = "null".toList then .nullWord
  else .ident

/-- The keyword or literal that a word is, or else a name. -/
def reservedWord (w : List Char) : Terminal :=
  if w = "function".toList then .functionWord
  else if w = "let".toList then .letWord
  else if w = "const".toList then .constWord
  else if w = "return".toList then .returnWord
  else literalWord w

/-- How a word is classified in a mode. -/
def Mode.classify : Mode → List Char → Terminal
  | .operand => literalWord
  | .name => fun _ => .ident
  | _ => reservedWord

/-- The operator or mark that a text starts with in a mode. -/
def Mode.symbol? : Mode → List Char → Option (Terminal × Nat)
  | .statement, '-' :: _ | .operand, '-' :: _ => some (.minus, 1)
  | .statement, '!' :: _ | .operand, '!' :: _ => some (.bang, 1)
  | .equals, '=' :: _ => some (.equal, 1)
  | _, cs => Lexer.symbol? cs

/-- The terminal and the length of the token that a text starts with. -/
def lexeme (mode : Mode) : List Char → Option (Terminal × Nat)
  | [] => none
  | c :: rest =>
    if isWordStart c then
      let word := c :: rest.takeWhile isWordPart
      some (mode.classify word, word.length)
    else if Numeral.isDigit c then
      some (.number, 1 + (rest.takeWhile Numeral.isDigit).length)
    else if c = '"' || c = '\'' then
      (stringTail c rest).map fun n => (.string, n + 1)
    else mode.symbol? (c :: rest)

/-- An operator or mark has at least one character. -/
theorem symbol?_pos {cs : List Char} {t : Terminal} {n : Nat} (h : symbol? cs = some (t, n)) :
    0 < n := by
  obtain ⟨s, hs, hn⟩ := Option.map_eq_some_iff.1 h
  have : ∀ s ∈ symbols, 0 < s.1.length := by decide
  have := this s (List.mem_of_find?_eq_some hs)
  simp only [Prod.mk.injEq] at hn
  omega

/-- An operator or mark has at least one character in every mode. -/
theorem Mode.symbol?_pos {mode : Mode} {cs : List Char} {t : Terminal} {n : Nat}
    (h : mode.symbol? cs = some (t, n)) : 0 < n := by
  unfold Mode.symbol? at h
  split at h
  case h_6 => exact Lexer.symbol?_pos h
  all_goals simp only [Option.some.injEq, Prod.mk.injEq] at h; omega

/-- A token has at least one character. -/
theorem lexeme_pos {mode : Mode} {cs : List Char} {t : Terminal} {n : Nat}
    (h : lexeme mode cs = some (t, n)) : 0 < n := by
  unfold lexeme at h
  split at h
  · simp at h
  · split at h
    · simp at h; omega
    · split at h
      · simp at h; omega
      · split at h
        · simp at h; omega
        · exact Mode.symbol?_pos h

/-- The place of the next token: past the blanks and comments. -/
def skip (place : Cursor) : Cursor :=
  place.advance (gapLength place.rest)

/-- The token of `n` characters at a place. -/
def tokenAt (place : Cursor) (terminal : Terminal) (n : Nat) : Token :=
  { terminal, text := String.ofList (place.rest.take n), start := place,
    stop := place.offset + n }

end Scriptlet.Lexer
