import Scriptlet.Value

/-!
# Printed values

A value is printed the way a program would write it: strings between double quotes, objects
over several lines with one field a line.  `describe` is the other view of a value, for those
who look at the bindings themselves: it names the sort of every value and tells constants from
variables.  The fields of a shared object are not at hand: whoever wants to see them prints a copy.
-/

namespace Scriptlet

set_option autoImplicit false

variable {ε : Type}

namespace Value

/-- A character of a printed string. -/
def printChar (c : Char) : List Char :=
  if c = '\\' then ['\\', '\\']
  else if c = '"' then ['\\', '"']
  else if c = '\n' then ['\\', 'n']
  else if c = '\t' then ['\\', 't']
  else if c = '\r' then ['\\', 'r']
  else [c]

/-- A string between double quotes. -/
def printString (s : String) : String :=
  String.ofList ('"' :: s.toList.flatMap printChar ++ ['"'])

end Value

/-- A printed function: the head of its declaration, or the name of a native one. -/
def Function.print (f : Function ε) : String :=
  match f.callback with
  | .script _ s => "function " ++ s.name ++ "(" ++ String.intercalate ", " s.params ++ ")"
  | _ => "[native function " ++ (if f.name = "" then "<anonymous>" else f.name) ++ "]"

namespace Value

/-- The spaces in front of a line at a level of nesting; there are none below level one. -/
def indent (width : Nat) (level : Int) : String :=
  String.ofList (List.replicate (width * level.toNat) ' ')

mutual

/-- A printed value whose fields, if any, stand one level further in than `level`. -/
def print (width : Nat) : Int → Value ε → String
  | _, number n => Numeral.ofInt n
  | _, boolean b => if b then "true" else "false"
  | _, null => "null"
  | _, string s => printString s
  | _, object [] => "\x7b\x7d"
  | level, object (f :: fs) =>
    "\x7b\n" ++ String.intercalate ",\n" (printFields width (level + 1) (f :: fs)) ++ "\n" ++
      indent width level ++ "\x7d"
  | _, function f => f.print
  | _, shared _ _ => "[object]"

/-- The lines of the fields of an object. -/
def printFields (width : Nat) (level : Int) : List (Slot ε) → List String
  | [] => []
  | ⟨name, _, value⟩ :: rest =>
    (indent width level ++ name ++ ": " ++ print width level value) :: printFields width level rest

end

/-- A printed value, indented by two spaces a level. -/
def pretty (v : Value ε) : String :=
  v.print 2 0

end Value

/-- A function as its name and number of parameters. -/
def Function.describe (f : Function ε) : String :=
  "<Subroutine " ++ (if f.name = "" then "<anonymous>" else f.name) ++ "/" ++
    (match f.arity with
      | none => "*"
      | some n => Numeral.ofNat n) ++ ">"

/-- The listing of a scope: how many frames it has and its visible slots. -/
def describeScope (depth : Nat) (slots : List String) : String :=
  "<ScopeMap depth=" ++ Numeral.ofNat depth ++ " \x7b" ++ String.intercalate ", " slots ++ "\x7d>"

/-- A slot's value marked as that of a variable or a constant. -/
def describeSlot (isMutable : Bool) (value : String) : String :=
  (if isMutable then "<var " else "<const ") ++ value ++ ">"

namespace Value

mutual

/-- A value with its sort and, for objects, the flags of its fields. -/
def describe : Value ε → String
  | number n => "Number(value=" ++ Numeral.ofInt n ++ ")"
  | boolean b => "Boolean(value=" ++ (if b then "True" else "False") ++ ")"
  | string s => "String(value=" ++ Text.quoted s ++ ")"
  | null => "Null()"
  | object fields => "Object(" ++ describeScope 1 (describeFields fields) ++ ")"
  | function f => f.describe
  | shared _ _ => "[object]"

/-- The fields of an object, each as its name and slot. -/
def describeFields : List (Slot ε) → List String
  | [] => []
  | ⟨name, isMutable, value⟩ :: rest =>
    (name ++ ": " ++ describeSlot isMutable (describe value)) :: describeFields rest

end

end Value

/-- A slot as its flag and its value. -/
def Slot.describe (s : Slot ε) : String :=
  describeSlot s.isMutable s.value.describe

end Scriptlet
