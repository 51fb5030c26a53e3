import Scriptlet.Proofs.Outcome
import Scriptlet.Proofs.ParserCompleteness

/-!
# Printed strings read back

A printed string stands between double quotes, with an escape for each quote, backslash and character
that would end its line.  So it is a string of the grammar (`Value.isQuoted_printString`) and a program
by itself (`Parser.parse_quoted`), and what its escapes stand for is the string that was printed
(`Literal.string_printString`).
-/

namespace Scriptlet

set_option autoImplicit false

/-! ## The escapes -/

namespace Value

/-- A character is printed as it is, or as a backslash and a character that stands for it. -/
theorem printChar_cases (c : Char) :
    (∃ e, printChar c = ['\\', e] ∧ Literal.escape? e = some c ∧ e ≠ '\n') ∨
      (printChar c = [c] ∧ c ≠ '"' ∧ c ≠ '\\' ∧ c ≠ '\n') := by
  unfold printChar
  split_ifs with hs hq hn ht hr
  · exact .inl ⟨'\\', rfl, by rw [hs]; rfl, by decide⟩
  · exact .inl ⟨'"', rfl, by rw [hq]; rfl, by decide⟩
  · exact .inl ⟨'n', rfl, by rw [hn]; rfl, by decide⟩
  · exact .inl ⟨'t', rfl, by rw [ht]; rfl, by decide⟩
  · exact .inl ⟨'r', rfl, by rw [hr]; rfl, by decide⟩
  · exact .inr ⟨rfl, hq, hs, hn⟩

/-- Printed characters may stand between double quotes. -/
theorem isStringBody_print (cs : List Char) : IsStringBody '"' (cs.flatMap printChar) := by
  induction cs with
  | nil => exact .nil
  | cons c cs ih =>
    rw [List.flatMap_cons]
    rcases printChar_cases c with ⟨e, hc, _, hn⟩ | ⟨hc, hq, hs, hn⟩
    · rw [hc]
      exact .escaped hn ih
    · rw [hc]
      exact .plain hq hs hn ih

/-- A printed string is a string of the grammar. -/
theorem isQuoted_printString (s : String) : IsQuoted (printString s).toList := by
  refine ⟨'"', s.toList.flatMap printChar, .inl rfl, ?_, isStringBody_print s.toList⟩
  rw [printString, String.toList_ofList]
  rfl

end Value

namespace Literal

/-- Printed characters denote themselves. -/
theorem contents_print (cs : List Char) :
    contents '"' (cs.flatMap Value.printChar ++ ['"']) = .ok cs := by
  induction cs with
  | nil => rfl
  | cons c cs ih =>
    rw [List.flatMap_cons, List.append_assoc]
    rcases Value.printChar_cases c with ⟨e, hc, he, _⟩ | ⟨hc, hq, hs, _⟩
    · rw [hc, List.cons_append, List.singleton_append, contents, if_pos rfl, ih, he]
      rfl
    · rw [hc, List.singleton_append, contents.eq_def]
      simp only [hs, hq, if_false, ih]
      rfl

/-- A printed string denotes the string that was printed. -/
theorem string_printString (s : String) : string (Value.printString s) = .ok s := by
  have hcontents := contents_print s.toList
  rw [string, Value.printString, String.toList_ofList, List.cons_append]
  generalize s.toList.flatMap Value.printChar ++ ['"'] = body at hcontents ⊢
  cases body with
  | nil => cases hcontents
  | cons c rest =>
    show (contents '"' (c :: rest)).map String.ofList = .ok s
    rw [hcontents, Except.map, String.ofList_toList]

end Literal

/-! ## The program -/

/-- A quoted text is a program that is one string. -/
theorem Parser.parse_quoted {text : String} (h : IsQuoted text.toList) :
    ∃ loc, parse .expression text = .ok ⟨some loc, .string text⟩ :=
  ⟨_, parse_alone (Lexer.lexeme_quoted h) rfl rfl⟩

/-- **Printed strings read back.**  What a string is printed as is an expression that consists of one
string literal, and running it gives the string and changes nothing. -/
theorem printed_string_reads_back {ε σ : Type} [BEq ε] (host : Host ε σ) (s : String)
    (w : World ε σ) :
    let text := (Value.string s : Value ε).pretty
    ∃ loc, Parser.parse .expression text = .ok ⟨some loc, .string text⟩ ∧
      (Session.runExpression host text).outcome w =
        (.ok (.string s), { w with visited := some ⟨some loc, .string text⟩ }) := by
  intro text
  obtain ⟨loc, hparse⟩ := Parser.parse_quoted (Value.isQuoted_printString s)
  refine ⟨loc, hparse, ?_⟩
  rw [show text = Value.printString s from rfl, Session.runExpression_eq host hparse,
    Eval.outcome_evaluate, Eval.evaluateForm,
    Literal.string_printString]
  rfl

end Scriptlet
