import Mathlib.Data.List.Induction
import Mathlib.Data.Nat.Digits.Defs
import Scriptlet.Proofs.Outcome
import Scriptlet.Proofs.ParserCompleteness
import Scriptlet.Proofs.Literals

/-!
# Number literals

A run of decimal digits is a program that is one number literal.  It denotes the number whose digits
they are, whatever zeros are in front (`Numeral.value_eq_ofDigits`).  Running it gives this number or
says that it is out of range, unless the run of digits is longer than the conversion of numerals
admits; the zeros in front count there.
-/

namespace Scriptlet

set_option autoImplicit false

namespace Numeral

theorem value_concat (cs : List Char) (c : Char) : value (cs ++ [c]) = value cs * 10 + digitValue c := by
  rw [value, List.foldl_append]
  rfl

/-- The value of a run of digits by the places of its digits. -/
theorem value_eq_ofDigits (cs : List Char) :
    value cs = Nat.ofDigits 10 (cs.reverse.map digitValue) := by
  induction cs using List.reverseRecOn with
  | nil => rfl
  | append_singleton cs c ih =>
    rw [value_concat, ih, List.reverse_concat, List.map_cons, Nat.ofDigits_cons]
    omega

/-- Zeros in front do not count. -/
theorem value_zeros (k : Nat) (cs : List Char) : value (List.replicate k '0' ++ cs) = value cs := by
  rw [value_eq_ofDigits, value_eq_ofDigits, List.reverse_append, List.map_append,
    List.reverse_replicate, List.map_replicate]
  exact Nat.ofDigits_append_replicate_zero _

end Numeral

/-- A run of digits is a program that is one number literal. -/
theorem Parser.parse_numeral {text : String} (h : IsNumeral text.toList) :
    ∃ loc, parse .expression text = .ok ⟨some loc, .number text⟩ :=
  ⟨_, parse_alone (Lexer.lexeme_numeral h) rfl rfl⟩

namespace Session

variable {ε σ : Type} [BEq ε]

/-- Running a number literal converts it, and changes nothing. -/
theorem outcome_numeral (host : Host ε σ) {text : String} {loc : Location}
    (hparse : Parser.parse .expression text = .ok ⟨some loc, .number text⟩) (w : World ε σ) :
    (runExpression host text).outcome w =
      (((Literal.number text).map Value.number).mapError
          fun failure => (Fault.ofFailure failure).attach loc,
        { w with visited := some ⟨some loc, .number text⟩ }) := by
  rw [runExpression_eq host hparse, Eval.outcome_evaluate, Eval.evaluateForm, Exec.outcome_bind,
    Exec.outcome_ofFailing]
  cases Literal.number text <;> rfl

/-- **Number literals.**  A run of decimal digits with the value `n`, of any length and with any zeros in
front, is an expression that consists of one literal.  If it is short enough to be converted, running
it gives `n`, if that is a number of the language, and else fails with an error of parsing at the
literal, which says that it is out of range.  If it is longer, the conversion breaks down. -/
theorem number_literal_outcome (host : Host ε σ) {text : String} (h : IsNumeral text.toList)
    (w : World ε σ) :
    let n : Nat := Nat.ofDigits 10 (text.toList.reverse.map Numeral.digitValue)
    ∃ loc result, Parser.parse .expression text = .ok ⟨some loc, .number text⟩ ∧
      (runExpression host text).outcome w =
        (result, { w with visited := some ⟨some loc, .number text⟩ }) ∧
      (text.length ≤ Numeral.digitLimit → n ≤ 2 ^ 63 - 1 → result = .ok (.number n)) ∧
      (text.length ≤ Numeral.digitLimit → 2 ^ 63 - 1 < n →
        (Cause.outOfRange text).kind = .parse ∧
          result = .error (.error ⟨.outOfRange text, some loc, []⟩)) ∧
      (Numeral.digitLimit < text.length →
        result = .error (.breakdown (.digitLimit text.length))) := by
  intro n
  obtain ⟨loc, hparse⟩ := Parser.parse_numeral h
  refine ⟨loc, _, hparse, outcome_numeral host hparse w, ?_⟩
  have hvalue : Numeral.value text.toList = n := Numeral.value_eq_ofDigits text.toList
  rw [Literal.number_numeral h, hvalue, String.length_toList]
  refine ⟨fun hshort hin => ?_, fun hshort hout => ⟨rfl, ?_⟩, fun hlong => ?_⟩
  · rw [if_neg (Nat.not_lt.2 hshort), if_pos (show n ≤ 0x7fffffffffffffff from hin)]
    rfl
  · rw [if_neg (Nat.not_lt.2 hshort), if_neg (show ¬ n ≤ 0x7fffffffffffffff from Nat.not_le.2 hout)]
    rfl
  · rw [if_pos hlong]
    rfl

/-- Zeros in front of the greatest number, and of the one after it. -/
theorem number_literal_outcome_greatest :
    IsNumeral "009223372036854775807".toList ∧ IsNumeral "009223372036854775808".toList ∧
      ((runExpression Host.none "009223372036854775807").outcome (.initial ())).1 =
        .ok (.number (2 ^ 63 - 1) : Value Empty) ∧
      ∃ loc, ((runExpression Host.none "009223372036854775808").outcome (.initial ())).1 =
        .error (.error ⟨.outOfRange "009223372036854775808", some loc, []⟩ : Fault Empty) := by
  have hmost : IsNumeral "009223372036854775807".toList := by decide
  have hmore : IsNumeral "009223372036854775808".toList := by decide
  obtain ⟨_, _, _, hrun, hnumber, _⟩ := number_literal_outcome Host.none hmost (.initial ())
  obtain ⟨loc, _, _, hrun', _, herror, _⟩ := number_literal_outcome Host.none hmore (.initial ())
  refine ⟨hmost, hmore, ?_, loc, ?_⟩
  · rw [hrun, hnumber (by decide) (by decide)]
    rfl
  · rw [hrun', (herror (by decide) (by decide)).2]

/-- With zeros enough in front of it, the literal of the number one is not converted. -/
theorem long_literal_breaks_down :
    let text := String.ofList (List.replicate 4300 '0' ++ ['1'])
    IsNumeral text.toList ∧ Nat.ofDigits 10 (text.toList.reverse.map Numeral.digitValue) = 1 ∧
      ((runExpression Host.none text).outcome (.initial ())).1 =
        .error (.breakdown (.digitLimit 4301) : Fault Empty) := by
  intro text
  have htext : text.toList = List.replicate 4300 '0' ++ ['1'] := String.toList_ofList
  have hnumeral : IsNumeral text.toList := by
    rw [htext]
    refine ⟨List.append_ne_nil_of_right_ne_nil _ (List.cons_ne_nil _ _), fun c hc => ?_⟩
    rcases List.mem_append.1 hc with hc | hc
    · rw [List.eq_of_mem_replicate hc]
      decide
    · rw [List.mem_singleton.1 hc]
      decide
  have hlength : text.toList.length = 4301 := by
    rw [htext, List.length_append, List.length_replicate]
    rfl
  refine ⟨hnumeral, ?_, ?_⟩
  · rw [← Numeral.value_eq_ofDigits, htext, Numeral.value_zeros]
    rfl
  · obtain ⟨loc, hparse⟩ := Parser.parse_numeral hnumeral
    rw [outcome_numeral Host.none hparse, Literal.number_numeral hnumeral, hlength]
    rfl

end Session

end Scriptlet
