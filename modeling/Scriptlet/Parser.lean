import Scriptlet.Error
import Scriptlet.Syntax.Reader
import Scriptlet.Token.Lexer

/-!
# From source text to syntax tree

The reader's state decides how the next token is cut, the token takes the reader to its next
state, and so on to the end of the text.  The first token that cannot continue the program is
reported where it stands.
-/

namespace Scriptlet

set_option autoImplicit false

/-- What a source text is read as. -/
inductive Rule where
  | script | expression
deriving DecidableEq, Repr, Inhabited

/-- The rule of a given name. -/
def Rule.named (name : String) : Except Breakdown Rule :=
  if name = "script" then .ok .script
  else if name = "expression" then .ok .expression
  else .error (.unknownRule name)

namespace Reader

/-- How the next token is cut. -/
def State.mode : State → Lexer.Mode
  | statement _ => .statement
  | operand _ => .operand
  | dot _ _ _ | functionName _ _ | firstParam _ _ _ | nextParam _ _ | declaredName _ _ _ => .name
  | declaredEqual _ _ _ _ => .equals
  | _ => .any

/-- The state before the first token. -/
def State.initial : Rule → State
  | .script => statement (.script [])
  | .expression => operand Context.whole.hole

end Reader

namespace Parser

open Reader

/-- Where the program ends too early: at its last token, or at the very start. -/
def ending : Option Token → Malformed
  | none => .ending 1 1
  | some t => .ending t.start.line t.start.col

/-- Reads the tokens from a place on, in a given state.  `last` is the token read before. -/
def readFrom (state : State) (last : Option Token) (place : Cursor) : Except Malformed Node :=
  let here := Lexer.skip place
  match _hr : here.rest with
  | [] =>
    match state.finish with
    | some node => .ok node
    | none => .error (ending last)
  | c :: _ =>
    match _hl : Lexer.lexeme state.mode here.rest with
    | none => .error (.character c here.line here.col)
    | some (terminal, n) =>
      let t := Lexer.tokenAt here terminal n
      match state.feed t with
      | none => .error (.token terminal t.text here.line here.col)
      | some next => readFrom next (some t) (here.advance n)
termination_by place.rest.length
decreasing_by
  have hn := Lexer.lexeme_pos _hl
  have hp : 0 < here.rest.length := by simp [_hr]
  simp only [here, Lexer.skip, Cursor.rest_advance, List.length_drop] at hp ⊢
  omega

/-- The syntax tree of a source text. -/
def parse (rule : Rule) (source : String) : Except Malformed Node :=
  readFrom (State.initial rule) none (Cursor.start source.toList)

end Parser

end Scriptlet
