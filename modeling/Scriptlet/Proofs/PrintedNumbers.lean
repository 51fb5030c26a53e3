import Scriptlet.Proofs.Arithmetic

/-!
# Printed numbers read back

A number is printed as its digits, with a minus in front of them if it is negative.  To the grammar
this is an expression of arithmetic, a literal or the opposite of one (`Arithmetic.ofNumber`), and
each step of it is checked by itself.  The digits of the least number are out of range before the
minus is looked at, so what it is printed as is refused; every other number reads back
(`printed_number_reads_back`).
-/

namespace Scriptlet

set_option autoImplicit false

variable {n : Int}

/-- The digits of a number without its sign. -/
def Digits.ofNumber (h : IsNumber n) : Digits where
  text := Numeral.ofNat n.natAbs
  isNumeral := by
    rw [Numeral.ofNat, String.toList_ofList]
    obtain ⟨c, cs, hcs, _⟩ := Numeral.exists_digits_cons n.natAbs
    exact ⟨hcs ▸ List.cons_ne_nil c cs, fun _ hd => Numeral.isDigit_of_mem_digits hd⟩
  short := by
    rw [Numeral.ofNat, String.toList_ofList, Numeral.digitLimit]
    exact Nat.le_trans (Numeral.length_digits_natAbs h) (by decide)

theorem Digits.value_ofNumber (h : IsNumber n) : (ofNumber h).value = n.natAbs := by
  show ((Numeral.value (String.ofList (Numeral.digits n.natAbs)).toList : Nat) : Int) = n.natAbs
  rw [String.toList_ofList, Numeral.value_digits]

namespace Arithmetic

/-- What a number is printed as: a literal, or the opposite of one. -/
def ofNumber (h : IsNumber n) : Arithmetic :=
  if n < 0 then opposite (literal (.ofNumber h)) else literal (.ofNumber h)

theorem text_ofNumber {ε : Type} (h : IsNumber n) :
    (ofNumber h).text = (Value.number n : Value ε).pretty := by
  show _ = String.ofList (Numeral.chars n)
  rw [text, ofNumber, ← String.toList_inj, String.toList_ofList]
  cases n with
  | ofNat m =>
    have hsign : ¬ Int.ofNat m < 0 := Int.not_lt.2 (Int.natCast_nonneg m)
    rw [if_neg hsign]
    simp [texts, Digits.ofNumber, Numeral.ofNat, Numeral.chars, String.join]
  | negSucc m =>
    have hbare : ∀ texts, Scriptlet.enclose .unary .primary texts = texts :=
      fun _ => if_pos (Nat.zero_le _)
    rw [if_pos (Int.negSucc_lt_zero m)]
    simp [texts, level, Digits.ofNumber, hbare, Numeral.ofNat, Numeral.chars, String.join]

/-- The digits are checked before the minus is applied to them. -/
theorem result_ofNumber (h : IsNumber n) :
    (ofNumber h).result =
      if n = Literal.numberMin then .error (.outOfRange (Numeral.ofNat n.natAbs)) else .ok n := by
  have hliteral : (literal (.ofNumber h)).result =
      if Literal.inRange n.natAbs then .ok (n.natAbs : Int)
      else .error (.outOfRange (Numeral.ofNat n.natAbs)) := by
    rw [result, Digits.value_ofNumber]
    rfl
  have hwithin : Literal.inRange n := Literal.inRange_iff.2 h
  by_cases hleast : n = Literal.numberMin
  · have hout : ¬ Literal.inRange n.natAbs := by rw [hleast]; decide
    have hneg : n < 0 := by rw [hleast]; decide
    rw [if_pos hleast, ofNumber, if_pos hneg, result, hliteral, if_neg hout]
    rfl
  · have hdigits : Literal.inRange n.natAbs := by
      rw [Literal.inRange_iff]
      rw [Literal.numberMin] at hleast
      obtain ⟨hmin, hmax⟩ := h
      constructor <;> omega
    rw [if_pos hdigits] at hliteral
    rw [if_neg hleast, ofNumber]
    by_cases hneg : n < 0
    · have hopposite : -(n.natAbs : Int) = n := by omega
      rw [if_pos hneg, result, hliteral]
      show checked (-(n.natAbs : Int)) = .ok n
      rw [hopposite, checked, if_pos hwithin]
    · rw [if_neg hneg, hliteral, Int.natAbs_of_nonneg (Int.not_lt.1 hneg)]

variable {ε σ : Type} [BEq ε]

/-- A source of the texts of an expression comes to the result of the checked steps. -/
theorem run_yields (host : Host ε σ) (t : Arithmetic) {source : String}
    (hs : Lexer.cut source.toList = some t.texts) :
    (Session.runExpression host source).Yields t.result := by
  rw [← t.tree_texts] at hs
  obtain ⟨found, hparse, hfound⟩ := Parser.parse_layout t.tree_isExpression hs
  rw [Session.runExpression_eq host hparse]
  exact (t.tree_yields (Session.caller host)).evaluate hfound

end Arithmetic

section Runs

variable {ε σ : Type} [BEq ε]

/-- What a number is printed as is run with the checks that its digits and its sign are due. -/
theorem Value.pretty_number_yields (host : Host ε σ) (h : IsNumber n) :
    (Session.runExpression host (Value.number n : Value ε).pretty).Yields
      (if n = Literal.numberMin then .error (.outOfRange (Numeral.ofNat n.natAbs)) else .ok n) := by
  rw [← Arithmetic.result_ofNumber h, ← Arithmetic.text_ofNumber h]
  exact Arithmetic.run_yields host (.ofNumber h) (Arithmetic.ofNumber h).cut_text

/-- **Printed numbers read back.**  In every state, what a number of 64 bits is printed as comes to
that number, unless it is the least one: then its digits are refused as a literal out of range. -/
theorem printed_number_reads_back (host : Host ε σ) (h : IsNumber n) (w : World ε σ) :
    let run := ((Session.runExpression host (Value.number n : Value ε).pretty).outcome w).1
    (n ≠ Literal.numberMin → run = .ok (.number n)) ∧
      (n = Literal.numberMin →
        ∃ loc, run = .error (.error ⟨.outOfRange "9223372036854775808", loc, []⟩)) := by
  have hrun := Value.pretty_number_yields host h w
  constructor
  · intro hn
    rw [if_neg hn] at hrun
    rcases hrun with ⟨m, hm, hvalue⟩ | ⟨cause, loc, he, hvalue⟩
    · rw [hvalue, Except.ok.inj hm]
    · cases he
  · intro hn
    rw [if_pos hn] at hrun
    rcases hrun with ⟨m, hm, hvalue⟩ | ⟨cause, loc, he, hvalue⟩
    · cases hm
    · have hdigits : Numeral.ofNat Literal.numberMin.natAbs = "9223372036854775808" := by
        decide +kernel
      exact ⟨loc, by rw [hvalue, ← Except.error.inj he, hn, hdigits]⟩

end Runs

/-- The least number that reads back. -/
theorem printed_number_reads_back_lowest :
    ((Session.runExpression Host.none (Value.number (-0x7fffffffffffffff) : Value Empty).pretty).outcome
      (.initial ())).1 = .ok (.number (-0x7fffffffffffffff)) :=
  (printed_number_reads_back Host.none (by decide) (.initial ())).1 (by decide)

/-- The least number of the language does not read back. -/
theorem least_number_unread :
    IsNumber (-0x8000000000000000) ∧
      ((Session.runExpression Host.none (Value.number (-0x8000000000000000) : Value Empty).pretty).outcome
        (.initial ())).1 ≠ .ok (.number (-0x8000000000000000)) := by
  have hnumber : IsNumber (-0x8000000000000000) := by decide
  refine ⟨hnumber, ?_⟩
  intro hread
  have hrun := Value.pretty_number_yields Host.none hnumber (.initial ())
  rw [if_pos (show -0x8000000000000000 = Literal.numberMin from rfl)] at hrun
  rcases hrun with ⟨m, hm, _⟩ | ⟨cause, loc, _, hvalue⟩
  · cases hm
  · rw [hread] at hvalue
    cases hvalue

end Scriptlet
