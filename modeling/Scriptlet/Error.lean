import Scriptlet.Location
import Scriptlet.Numeral
import Scriptlet.Text.Lines
import Scriptlet.Text.Quoted
import Scriptlet.Token

/-!
# Why a program fails

A `Cause` is an error of the language itself: it has a kind and a message, and a script author
is meant to read it.  A `Breakdown` is a failure outside the language: a feature that is
missing, a limit of the machine, or an exception that the host lets escape.
-/

namespace Scriptlet

set_option autoImplicit false

/-- The kinds of error that a script author sees. -/
inductive Kind where
  | parse | type | reference | arguments | definition | thrown
deriving DecidableEq, Repr, Inhabited

/-- The label in front of an error message. -/
def Kind.label : Kind → String
  | .parse => "ParseError"
  | .type => "TypeError"
  | .reference => "ReferenceError"
  | .arguments => "InvalidArgumentsError"
  | .definition => "DoubleDefinitionError"
  | .thrown => "Uncaught exception"

/-- Why a source text is not a program. -/
inductive Malformed where
  /-- A token that cannot continue the program. -/
  | token (terminal : Terminal) (text : String) (line col : Nat)
  /-- The program ends too early; the place is that of the last token. -/
  | ending (line col : Nat)
  /-- A character that starts no token. -/
  | character (c : Char) (line col : Nat)
deriving DecidableEq, Repr

namespace Malformed

/-- The words for a token that cannot stand where it does. -/
def unexpected (label text : String) (line col : Nat) : String :=
  "Unexpected token Token(" ++ Text.quoted label ++ ", " ++ Text.quoted text ++ ") at line " ++
    Numeral.ofNat line ++ ", column " ++ Numeral.ofNat col ++ "."

/-- The message: one line, so it stops short at a character that ends a line. -/
def message : Malformed → String
  | token terminal text line col => unexpected terminal.label text line col
  | ending line col => unexpected "$END" "" line col
  | character c line col =>
    String.ofList (Text.firstLine ("No terminal matches '" ++ c.toString ++
      "' in the current parser context, at line " ++ Numeral.ofNat line ++ " col " ++
      Numeral.ofNat col).toList)

/-- Where the program went wrong. -/
def loc : Malformed → Location
  | token _ _ line col => ⟨line, col, none⟩
  | ending line col => ⟨line, col, none⟩
  | character _ line col => ⟨line, col, none⟩

end Malformed

/-- An error of the language. -/
inductive Cause where
  -- text that is not a program, a literal or a document
  | malformed (m : Malformed)
  | notQuoted
  | earlyTerminator
  | unknownEscape
  | cutShort
  | invalidDigit (text : String)
  | outOfRange (text : String)
  | notBooleanLiteral (text : String)
  | notLvalue (text : String)
  | invalidJson (message : String)
  | invalidYaml
  -- values of the wrong sort
  | expectedNumber
  | expectedString
  | overflow
  | notBoolean
  | differentTypes
  | comparedNulls
  | incomparable
  | notTwoNumbers (op : String)
  | conditionNotBoolean
  | notFunction
  | notObject
  | typeMismatch
  | constantBinding
  | cannotImport (type : String)
  | cannotExport (shown : String)
  | globalsNotMapping (type : String)
  -- names and calls
  | unbound (name : String)
  | wrongCount (expected got : Nat)
  | tooFew (required got : Nat)
  | alreadyDefined (name : String)
  | repeatedParameter (function : String)
  | thrown (message : String)
  /-- An error that host code raises in its own words. -/
  | raised (kind : Kind) (message : String)
deriving DecidableEq, Repr

namespace Cause

/-- The kind of an error. -/
def kind : Cause → Kind
  | malformed _ | notQuoted | earlyTerminator | unknownEscape | cutShort | invalidDigit _
  | outOfRange _ | notBooleanLiteral _ | notLvalue _ | invalidJson _ | invalidYaml => .parse
  | unbound _ => .reference
  | wrongCount _ _ | tooFew _ _ => .arguments
  | alreadyDefined _ | repeatedParameter _ => .definition
  | thrown _ => .thrown
  | raised k _ => k
  | _ => .type

/-- The message of an error, without its kind. -/
def message : Cause → String
  | malformed m => m.message
  | notQuoted => "Attempted to unquote an already unquoted string"
  | earlyTerminator => "While parsing string, met terminator before end of string"
  | unknownEscape => "Found unknown escaped sequence while parsing string"
  | cutShort => "String parsing unexpectedly cut short"
  | invalidDigit text => "Invalid digit found in numeric literal '" ++ text ++ "'"
  | outOfRange text => "Numeric literal '" ++ text ++ "' is out of range"
  | notBooleanLiteral text => "Couldn't form boolean literal from '" ++ text ++ "'"
  | notLvalue text => "Cannot make out lvalue expression: " ++ text
  | invalidJson message => "Invalid json data: " ++ message
  | invalidYaml => "Invalid yaml data"
  | expectedNumber => "Expected number"
  | expectedString => "Expected string"
  | overflow => "Number overflow"
  | notBoolean => "Cannot inverse a non-boolean"
  | differentTypes => "Cannot compare between values of different types. Try using '===' or '!=='"
  | comparedNulls => "Can't compare null values. Use '===' or '!=='"
  | incomparable => "Cannot compare values of this type"
  | notTwoNumbers op => "Operator '" ++ op ++ "' requires two numbers"
  | conditionNotBoolean => "Ternary condition must be boolean"
  | notFunction => "Not a function"
  | notObject => "Not an object"
  | typeMismatch => "Type mismatch in binding assignment"
  | constantBinding => "Cannot mutably access binding because it is constant"
  | cannotImport type => "Cannot convert " ++ type ++ " to a Sable value"
  | cannotExport shown => "Cannot convert " ++ shown ++ " to Python data"
  | globalsNotMapping type => "Globals file must contain a mapping, not " ++ type
  | unbound name => "'" ++ name ++ "' does not exist"
  | wrongCount expected got =>
    "Incorrect number of arguments: expected " ++ Numeral.ofNat expected ++ ", got " ++
      Numeral.ofNat got
  | tooFew required got =>
    "Incorrect number of arguments: expected at least " ++ Numeral.ofNat required ++ ", got " ++
      Numeral.ofNat got
  | alreadyDefined name => "Cannot define '" ++ name ++ "' because it has already been defined"
  | repeatedParameter function => "Function '" ++ function ++ "' declares the same parameter twice"
  | thrown message => message
  | raised _ message => message

/-- The message of an error after its kind. -/
def describe (c : Cause) : String :=
  c.kind.label ++ ": " ++ c.message

end Cause

/-- A feature that the language does not have. -/
inductive Unsupported where
  | unary (op : String)
  | comparison (op : String)
  | assignment (op : String)
  | operator (op : String)
  | expression (label : String)
  | statement (label : String)
deriving DecidableEq, Repr

/-- The message that names a missing feature. -/
def Unsupported.message : Unsupported → String
  | unary op => "Unimplemented unary operator: " ++ op
  | comparison op => "Unimplemented comparison operator: " ++ op
  | assignment op => "Unimplemented assignment operator: " ++ op
  | operator op => "Unimplemented operator: " ++ op
  | expression label => "Unimplemented expression node: " ++ label
  | statement label => "Unimplemented statement node: " ++ label

/-- A failure outside the language. -/
inductive Breakdown where
  | unsupported (what : Unsupported)
  /-- More digits than a conversion accepts. -/
  | digitLimit (digits : Nat)
  /-- An integer with more digits than a conversion to text accepts. -/
  | wideInteger
  /-- Calls nested too deeply. -/
  | callDepth
  | unknownRule (name : String)
  | unknownFormat (name : Option String)
  /-- Data that has no JSON form. -/
  | notJson (type : String)
  /-- Data that cannot be a key in JSON. -/
  | notJsonKey (type : String)
  /-- Data that has no YAML form. -/
  | notYaml
  /-- Bytes that are not text. -/
  | notText
  /-- Any other exception: of the host, of a scalar in a document, or of printing. -/
  | exception (kind message : String)
deriving DecidableEq, Repr

/-- A half of a surrogate pair that stands in a document by itself. -/
def Breakdown.loneSurrogate : Breakdown :=
  .exception "UnicodeEncodeError" "surrogates not allowed"

/-- A text with a character that the encoding of the output lacks. -/
def Breakdown.notEncodable : Breakdown :=
  .exception "UnicodeEncodeError" "ordinal not in range"

/-- The message of a failure outside the language. -/
def Breakdown.message : Breakdown → String
  | unsupported what => what.message
  | digitLimit n =>
    "Exceeds the limit (" ++ Numeral.ofNat Numeral.digitLimit ++
      " digits) for integer string conversion: value has " ++ Numeral.ofNat n ++
      " digits; use sys.set_int_max_str_digits() to increase the limit"
  | wideInteger =>
    "Exceeds the limit (" ++ Numeral.ofNat Numeral.digitLimit ++
      " digits) for integer string conversion; use sys.set_int_max_str_digits() to increase the limit"
  | callDepth => "maximum recursion depth exceeded"
  | unknownRule name => "Unknown start rule: " ++ Text.quoted name
  | unknownFormat none => "Unsupported serialization format: None"
  | unknownFormat (some name) => "Unsupported serialization format: " ++ Text.quoted name
  | notJson type => "Object of type " ++ type ++ " is not JSON serializable"
  | notJsonKey type => "keys must be str, int, float, bool or None, not " ++ type
  | notYaml => ""
  | notText => ""
  | exception _ message => message

/-- A failure of one operation, before it is known where in a program it happened. -/
inductive Failure where
  | error (cause : Cause)
  | breakdown (b : Breakdown)
deriving DecidableEq, Repr

end Scriptlet
