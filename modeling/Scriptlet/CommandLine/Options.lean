import Scriptlet.Text.Digit
import Scriptlet.Text.Quoted

/-!
# Options of the command line

The arguments name a script file and may set two options, each of which takes a value: the next
argument, or what is attached to the option.  Long options may be shortened as long as one option
fits, and the letters of short ones may be joined.  Behind `--` every argument is a file.
-/

namespace Scriptlet.CommandLine

set_option autoImplicit false

/-- An option that takes a value. -/
inductive Setting where
  | globals | expression
deriving DecidableEq, Repr

/-- What the arguments ask for. -/
structure Options where
  globals : Option String
  /-- The text to evaluate, if there is to be one; it may still be left out. -/
  expression : Option (Option String)
  file : Option String
deriving DecidableEq, Repr

/-- What is wrong with the arguments. -/
inductive Misuse where
  | unrecognized (arguments : List String)
  | missingValue (s : Setting)
  /-- The request for help takes no value. -/
  | needlessValue (value : String)
  | ambiguous (argument : String) (candidates : List String)
deriving DecidableEq, Repr

/-- What a run without options to follow comes to. -/
inductive Stop where
  | help
  | misuse (m : Misuse)
deriving DecidableEq, Repr

/-- The line that shows how the program is called. -/
def usage : String :=
  "usage: sable [-h] [--globals PATH] [--expression TEXT] [file]\n"

/-- The description of the program and its options. -/
def help : String :=
  usage ++
    "\nRun Sable scripts or start a REPL.\n" ++
    "\npositional arguments:\n" ++
    "  file                  script file to run\n" ++
    "\noptions:\n" ++
    "  -h, --help            show this help message and exit\n" ++
    "  --globals PATH        JSON or YAML file whose entries are defined as\n" ++
    "                        constants\n" ++
    "  --expression TEXT, -e TEXT\n" ++
    "                        evaluate a single expression\n"

/-- The names of an option that takes a value. -/
def Setting.label : Setting → String
  | globals => "--globals"
  | expression => "--expression/-e"

/-- The words for what is wrong with the arguments. -/
def Misuse.message : Misuse → String
  | unrecognized arguments => "unrecognized arguments: " ++ String.intercalate " " arguments
  | missingValue s => "argument " ++ s.label ++ ": expected one argument"
  | needlessValue value =>
    "argument -h/--help: ignored explicit argument " ++ Text.quoted value
  | ambiguous argument candidates =>
    "ambiguous option: " ++ argument ++ " could match " ++ String.intercalate ", " candidates

/-- Sets an option.  The value `--` counts as left out. -/
def Options.assign (o : Options) (s : Setting) (value : String) : Options :=
  let given := if value = "--" then none else some value
  match s with
  | .globals => { o with globals := given }
  | .expression => { o with expression := some given }

/-- An argument, by its form alone. -/
inductive Item where
  /-- The argument `--`. -/
  | separator
  | argument (text : String)
  | unknown (text : String)
  /-- An option with the value that is attached to it. -/
  | valued (s : Setting) (value : String)
  /-- An option whose value is the next argument. -/
  | awaiting (s : Setting)
  | help
  /-- A request for help joined with an option whose value is the next argument. -/
  | helpAwaiting (s : Setting)
  | refused (value : String)
deriving DecidableEq, Repr

namespace Item

/-- What the long options do; nothing stands for the request for help. -/
def longNames : List (String × Option Setting) :=
  [("--help", none), ("--globals", some .globals), ("--expression", some .expression)]

/-- The item of a known option and the value that is attached to it. -/
def ofOption (s : Option Setting) (value : Option String) : Item :=
  match s, value with
  | some s, some v => valued s v
  | some s, none => awaiting s
  | none, some v => refused v
  | none, none => help

/-- A text split at its first equals sign. -/
def splitValue (text : List Char) : List Char × Option String :=
  match text.dropWhile (· != '=') with
  | [] => (text, none)
  | _ :: value => (text.takeWhile (· != '='), some (String.ofList value))

/-- What follows the letter `h` of joined options: further letters of options, of which `e` takes a
value. -/
def joinedHelp : List Char → Item
  | [] => help
  | c :: rest =>
    if c = 'h' then joinedHelp rest
    else if c = 'e' then (if rest.isEmpty then helpAwaiting .expression else help)
    else refused (String.ofList (c :: rest))

/-- What follows the letter `e`, which takes the rest as its value. -/
def joinedExpression : List Char → Item
  | [] => awaiting .expression
  | '=' :: value => valued .expression (String.ofList value)
  | value => valued .expression (String.ofList value)

/-- A minus sign and a decimal number, maybe with a newline behind it. -/
def isNegativeNumber (text : List Char) : Bool :=
  match text with
  | '-' :: rest =>
    let rest := if rest.getLast? == some '\n' then rest.dropLast else rest
    let whole := rest.takeWhile Text.isDigit
    match rest.drop whole.length with
    | [] => !whole.isEmpty
    | '.' :: fraction => !fraction.isEmpty && fraction.all Text.isDigit
    | _ => false
  | _ => false

/-- An argument with a dash in front that is no known option: still an argument if it looks like
a number or holds a space. -/
def dashed (text : String) : Item :=
  if isNegativeNumber text.toList || text.toList.contains ' ' then argument text else unknown text

/-- The item of an argument with two dashes in front. -/
def long (text : String) : Except Misuse Item :=
  let (name, value) := splitValue text.toList
  let known := longNames.map fun n => (n.1, ofOption n.2 value)
  let fitting := known.filter fun n => name.isPrefixOf n.1.toList
  match known.find? (fun n => n.1.toList == name), fitting with
  | some n, _ => .ok n.2
  | none, [n] => .ok n.2
  | none, [] => .ok (dashed text)
  | none, _ => .error (.ambiguous text (fitting.map (·.1)))

/-- The item of an argument in front of `--`. -/
def ofArgument (text : String) : Except Misuse Item :=
  match text.toList with
  | '-' :: '-' :: _ => long text
  | ['-', 'h', '='] => .ok (refused "")
  | '-' :: 'h' :: '=' :: rest => .ok (joinedHelp rest)
  | '-' :: 'h' :: rest => .ok (joinedHelp rest)
  | '-' :: 'e' :: rest => .ok (joinedExpression rest)
  | '-' :: _ :: _ => .ok (dashed text)
  | _ => .ok (argument text)

/-- The items of all arguments. -/
def ofArguments : List String → Except Misuse (List Item)
  | [] => .ok []
  | text :: rest =>
    if text = "--" then .ok (separator :: rest.map argument)
    else do
      let item ← ofArgument text
      return item :: (← ofArguments rest)

end Item

namespace Options

/-- Follows the items from left to right.  A separator is dropped in front of the file and directly
behind it; `extras` are the arguments that had no use so far. -/
def collect (o : Options) (extras : List String) : List Item → Except Stop Options
  | [] =>
    if extras.isEmpty then .ok o else .error (.misuse (.unrecognized extras))
  | .argument text :: .separator :: rest =>
    match o.file with
    | none => collect { o with file := some text } extras rest
    | some _ => collect o (extras ++ [text, "--"]) rest
  | .argument text :: rest =>
    match o.file with
    | none => collect { o with file := some text } extras rest
    | some _ => collect o (extras ++ [text]) rest
  | .separator :: rest =>
    match o.file with
    | none => collect o extras rest
    | some _ => collect o (extras ++ ["--"]) rest
  | .unknown text :: rest => collect o (extras ++ [text]) rest
  | .valued s value :: rest => collect (o.assign s value) extras rest
  | .awaiting s :: .argument value :: rest => collect (o.assign s value) extras rest
  | .awaiting s :: _ => .error (.misuse (.missingValue s))
  | .help :: _ => .error .help
  | .helpAwaiting _ :: .argument _ :: _ => .error .help
  | .helpAwaiting s :: _ => .error (.misuse (.missingValue s))
  | .refused value :: _ => .error (.misuse (.needlessValue value))

/-- The options that the arguments set. -/
def ofArguments (arguments : List String) : Except Stop Options := do
  let items ← (Item.ofArguments arguments).mapError .misuse
  collect ⟨none, none, none⟩ [] items

end Options

end Scriptlet.CommandLine
