import Scriptlet.Location

/-!
# Tokens

The terminals of the language, their labels in error messages, and the tokens that a source
text is cut into.
-/

namespace Scriptlet

set_option autoImplicit false

/-- The kinds of token. -/
inductive Terminal where
  | lbrace | rbrace | lpar | rpar | comma | semicolon | qmark | colon | dot
  | equal | plusEqual | minusEqual | starEqual | slashEqual
  | equalEqual | identical | bangEqual | notIdentical | less | more | lessEqual | moreEqual
  | plus | minus | star | slash | percent | bang
  | functionWord | letWord | constWord | returnWord
  | trueWord | falseWord | nullWord
  | ident | number | string
deriving DecidableEq, Repr, Inhabited

namespace Terminal

/-- The name of a terminal in error messages. -/
def label : Terminal → String
  | lbrace => "LBRACE"
  | rbrace => "RBRACE"
  | lpar => "LPAR"
  | rpar => "RPAR"
  | comma => "COMMA"
  | semicolon => "SEMICOLON"
  | qmark => "QMARK"
  | colon => "COLON"
  | dot => "DOT"
  | equal => "EQUAL"
  | plusEqual => "__ANON_0"
  | minusEqual => "__ANON_1"
  | starEqual => "__ANON_2"
  | slashEqual => "__ANON_3"
  | equalEqual => "__ANON_4"
  | identical => "__ANON_5"
  | bangEqual => "__ANON_6"
  | notIdentical => "__ANON_7"
  | less => "LESSTHAN"
  | more => "MORETHAN"
  | lessEqual => "__ANON_8"
  | moreEqual => "__ANON_9"
  | plus => "PLUS"
  | minus => "MINUS"
  | star => "STAR"
  | slash => "SLASH"
  | percent => "PERCENT"
  | bang => "BANG"
  | functionWord => "FUNCTION"
  | letWord => "LET"
  | constWord => "CONST"
  | returnWord => "RETURN"
  | trueWord => "TRUE"
  | falseWord => "FALSE"
  | nullWord => "NULL"
  | ident => "IDENT"
  | number => "NUMBER"
  | string => "STRING"

end Terminal

/-- A piece of the source text with the place where it starts. -/
structure Token where
  terminal : Terminal
  text : String
  start : Cursor
  stop : Nat
deriving DecidableEq, Repr, Inhabited

end Scriptlet
