/-!
# Regular expressions

Patterns over characters and the words that they match, by taking the derivative of a pattern with
respect to each character in turn.
-/

namespace Scriptlet.Text

set_option autoImplicit false

/-- A pattern. -/
inductive Regex where
  | none
  | empty
  | char (accepts : Char → Bool)
  | seq (r s : Regex)
  | alt (r s : Regex)
  | star (r : Regex)

namespace Regex

/-- One after the other, without parts that match nothing or only the empty word. -/
def andThen : Regex → Regex → Regex
  | none, _ => none
  | _, none => none
  | empty, s => s
  | r, empty => r
  | r, s => seq r s

/-- Either, without a part that matches nothing. -/
def orElse : Regex → Regex → Regex
  | none, s => s
  | r, none => r
  | r, s => alt r s

/-- Whether a pattern matches the empty word. -/
def nullable : Regex → Bool
  | none => false
  | empty => true
  | char _ => false
  | seq r s => r.nullable && s.nullable
  | alt r s => r.nullable || s.nullable
  | star _ => true

/-- What is left to match after a character. -/
def derive (c : Char) : Regex → Regex
  | none => none
  | empty => none
  | char accepts => if accepts c then empty else none
  | seq r s =>
    if r.nullable then ((derive c r).andThen s).orElse (derive c s) else (derive c r).andThen s
  | alt r s => (derive c r).orElse (derive c s)
  | star r => (derive c r).andThen (star r)

/-- Whether a pattern matches a whole word. -/
def accepts (r : Regex) (word : List Char) : Bool :=
  (word.foldl (fun r c => derive c r) r).nullable

/-- One of some characters. -/
def oneOf (cs : String) : Regex :=
  char fun c => cs.toList.contains c

/-- A character in a range. -/
def range (lo hi : Char) : Regex :=
  char fun c => lo ≤ c && c ≤ hi

/-- A fixed word. -/
def word (w : String) : Regex :=
  w.toList.foldr (fun c r => andThen (char (· == c)) r) empty

/-- One of some words. -/
def words (ws : List String) : Regex :=
  ws.foldr (fun w r => orElse (word w) r) none

/-- At least once. -/
def plus (r : Regex) : Regex :=
  andThen r (star r)

/-- At most once. -/
def opt (r : Regex) : Regex :=
  orElse r empty

/-- All in order. -/
def all (rs : List Regex) : Regex :=
  rs.foldr andThen empty

/-- Any of them. -/
def any (rs : List Regex) : Regex :=
  rs.foldr orElse none

end Regex

end Scriptlet.Text
