import Mathlib.Computability.Language
import Scriptlet.Text.Regex

/-!
# The language of a pattern

A pattern is matched by derivatives, one character after the other.  Here it denotes a set of words,
built by union, concatenation and closure, and the matching decides that set (`Regex.accepts_iff`).
-/

namespace Scriptlet.Text.Regex

set_option autoImplicit false

open Computability

/-- The words of one character. -/
def oneCharacter (accepts : Char → Bool) : Language Char :=
  {word | ∃ c, accepts c ∧ word = [c]}

/-- The words that a pattern stands for. -/
def language : Regex → Language Char
  | none => 0
  | empty => 1
  | char accepts => oneCharacter accepts
  | seq r s => r.language * s.language
  | alt r s => r.language + s.language
  | star r => r.language∗

theorem language_char (accepts : Char → Bool) (word : List Char) :
    word ∈ (char accepts).language ↔ ∃ c, accepts c ∧ word = [c] := Iff.rfl

theorem language_alt (r s : Regex) (word : List Char) :
    word ∈ (alt r s).language ↔ word ∈ r.language ∨ word ∈ s.language := Iff.rfl

theorem language_seq (r s : Regex) (word : List Char) :
    word ∈ (seq r s).language ↔ ∃ x ∈ r.language, ∃ y ∈ s.language, x ++ y = word :=
  Language.mem_mul

/-- Leaving out what matches nothing, or only the empty word, changes no concatenation. -/
theorem language_andThen (r s : Regex) : (r.andThen s).language = r.language * s.language := by
  cases r <;> cases s <;> simp [andThen, language]

/-- Leaving out what matches nothing changes no union. -/
theorem language_orElse (r s : Regex) : (r.orElse s).language = r.language + s.language := by
  cases r <;> cases s <;> simp [orElse, language]

theorem nullable_iff (r : Regex) : r.nullable ↔ [] ∈ r.language := by
  induction r with
  | none => simp [nullable, language]
  | empty => simp [nullable, language]
  | char accepts => simp [nullable, language_char]
  | seq r s hr hs => simp [nullable, hr, hs, language_seq]
  | alt r s hr hs => simp [nullable, hr, hs, language_alt]
  | star r => simp [nullable, language, Language.nil_mem_kstar]

section Quotients

variable (L M : Language Char) (c : Char) (word : List Char)

/-- The first character of a concatenation is in its first part, or that part is empty. -/
theorem cons_mem_mul : c :: word ∈ L * M ↔
    (∃ x y, c :: x ∈ L ∧ y ∈ M ∧ x ++ y = word) ∨ [] ∈ L ∧ c :: word ∈ M := by
  rw [Language.mem_mul]
  constructor
  · rintro ⟨x, hx, y, hy, heq⟩
    cases x with
    | nil => exact .inr ⟨hx, heq ▸ hy⟩
    | cons d x =>
      obtain ⟨rfl, rfl⟩ := List.cons.inj heq
      exact .inl ⟨x, y, hx, hy, rfl⟩
  · rintro (⟨x, y, hx, hy, rfl⟩ | ⟨hx, hy⟩)
    · exact ⟨c :: x, hx, y, hy, rfl⟩
    · exact ⟨[], hx, c :: word, hy, rfl⟩

/-- The first character of a repetition is in its first round that is not empty. -/
theorem cons_mem_kstar : c :: word ∈ L∗ ↔ ∃ x y, c :: x ∈ L ∧ y ∈ L∗ ∧ x ++ y = word := by
  constructor
  · rw [Language.mem_kstar_iff_exists_nonempty]
    rintro ⟨rounds, heq, hrounds⟩
    cases rounds with
    | nil => exact nomatch heq
    | cons first rest =>
      obtain ⟨hfirst, hne⟩ := hrounds first List.mem_cons_self
      cases first with
      | nil => exact (hne rfl).elim
      | cons d x =>
        obtain ⟨rfl, rfl⟩ := List.cons.inj heq
        exact ⟨x, rest.flatten, hfirst,
          Language.join_mem_kstar fun y hy => (hrounds y (List.mem_cons_of_mem _ hy)).1, rfl⟩
  · rintro ⟨x, y, hx, hy, rfl⟩
    obtain ⟨rounds, rfl, hrounds⟩ := Language.mem_kstar.1 hy
    exact Language.mem_kstar.2 ⟨(c :: x) :: rounds, rfl, List.forall_mem_cons.2 ⟨hx, hrounds⟩⟩

end Quotients

/-- What is left to match after a character are the words that go on from it. -/
theorem mem_derive (r : Regex) (c : Char) (word : List Char) :
    word ∈ (r.derive c).language ↔ c :: word ∈ r.language := by
  induction r generalizing word with
  | none => simp [derive, language]
  | empty => simp [derive, language]
  | char accepts =>
    rw [derive, language_char]
    split
    · next hc => exact ⟨fun h => ⟨c, hc, congrArg (c :: ·) h⟩, fun ⟨_, _, h⟩ => (List.cons.inj h).2⟩
    · next hc => exact ⟨fun h => h.elim, fun ⟨_, hd, h⟩ => hc ((List.cons.inj h).1 ▸ hd)⟩
  | seq r s hr hs =>
    have hfirst : word ∈ ((r.derive c).andThen s).language ↔
        ∃ x y, c :: x ∈ r.language ∧ y ∈ s.language ∧ x ++ y = word := by
      rw [language_andThen, Language.mem_mul]
      simp only [hr]
      grind
    rw [derive, language, cons_mem_mul, ← nullable_iff, ← hfirst]
    split
    · next hnull => rw [language_orElse, Language.mem_add, hs, and_iff_right hnull]
    · next hnull => rw [or_iff_left fun h => hnull h.1]
  | alt r s hr hs =>
    rw [derive, language_orElse, language_alt, Language.mem_add, hr, hs]
  | star r hr =>
    rw [derive, language_andThen, language, cons_mem_kstar, Language.mem_mul]
    simp only [hr]
    grind [language]

/-- Matching by derivatives decides the language of a pattern. -/
theorem accepts_iff (r : Regex) (word : List Char) : r.accepts word ↔ word ∈ r.language := by
  induction word generalizing r with
  | nil => exact nullable_iff r
  | cons c word ih => exact (ih (r.derive c)).trans (mem_derive r c word)

end Scriptlet.Text.Regex
