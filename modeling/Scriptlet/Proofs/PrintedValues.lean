import Scriptlet.Proofs.Literals
import Scriptlet.Proofs.PrintedStrings

/-!
# Printed values are unambiguous

A printed value tells which value it is: its first character tells the sort, and wherever it stands its
text ends by itself, a number in front of the next character that is no digit, a string with its second
bare quote, an object with its brace.  Between them the names of the fields end with a colon, and the
character behind a field's value tells whether another field follows.  So two values that are printed
the same differ in the flags of their fields at most (`printed_values_unambiguous`).

The induction is on both values at once, with a text behind each of them
(`Value.print_unambiguous`).
-/

namespace Scriptlet

set_option autoImplicit false

variable {ε : Type} {width : Nat}

/-! ## Texts that end by themselves -/

/-- Two runs of characters of one class are the same if what stands behind them is not of the class. -/
theorem append_inj_of_all {p : Char → Bool} {xs ys r r' : List Char} (hx : ∀ c ∈ xs, p c = true)
    (hy : ∀ c ∈ ys, p c = true) (hr : ∀ c ∈ r.head?, p c = false) (hr' : ∀ c ∈ r'.head?, p c = false)
    (h : xs ++ r = ys ++ r') : xs = ys ∧ r = r' := by
  have hrun : ∀ {zs t : List Char}, (∀ c ∈ zs, p c = true) → (∀ c ∈ t.head?, p c = false) →
      (zs ++ t).takeWhile p = zs := by
    intro zs t hz ht
    rw [List.takeWhile_append_of_pos hz]
    cases t with
    | nil => simp
    | cons c t => simp [ht c rfl]
  obtain rfl : xs = ys := by rw [← hrun hx hr, h, hrun hy hr']
  exact ⟨rfl, List.append_cancel_left h⟩

theorem IsWord.isWordPart {word : List Char} (h : IsWord word) :
    ∀ c ∈ word, Lexer.isWordPart c = true := by
  cases word with
  | nil => exact h.elim
  | cons c rest =>
    refine List.forall_mem_cons.2 ⟨?_, h.2⟩
    rw [Lexer.isWordPart, h.1, Bool.true_or]

/-- A text that does not go on with a digit. -/
def EndsDigits (r : List Char) : Prop :=
  ∀ c ∈ r.head?, Numeral.isDigit c = false

namespace Numeral

theorem digits_unambiguous {m n : Nat} {r r' : List Char} (hr : EndsDigits r) (hr' : EndsDigits r')
    (h : digits m ++ r = digits n ++ r') : m = n ∧ r = r' := by
  obtain ⟨hdigits, hrest⟩ := append_inj_of_all (fun _ => isDigit_of_mem_digits)
    (fun _ => isDigit_of_mem_digits) hr hr' h
  exact ⟨by rw [← value_digits m, hdigits, value_digits], hrest⟩

/-- No numeral starts with a minus but that of a negative number. -/
theorem digits_ne_minus {m : Nat} {r cs : List Char} : digits m ++ r ≠ '-' :: cs := by
  obtain ⟨c, rest, hdigits, hc⟩ := exists_digits_cons m
  rw [hdigits]
  intro h
  rw [(List.cons.inj h).1] at hc
  exact absurd hc (by decide)

/-- A numeral tells its number. -/
theorem chars_unambiguous {m n : Int} {r r' : List Char} (hr : EndsDigits r) (hr' : EndsDigits r')
    (h : chars m ++ r = chars n ++ r') : m = n ∧ r = r' := by
  cases m with
  | ofNat m =>
    cases n with
    | ofNat n =>
      obtain ⟨rfl, hrest⟩ := digits_unambiguous hr hr' h
      exact ⟨rfl, hrest⟩
    | negSucc n => exact (digits_ne_minus h).elim
  | negSucc m =>
    cases n with
    | ofNat n => exact (digits_ne_minus h.symm).elim
    | negSucc n =>
      obtain ⟨hn, hrest⟩ := digits_unambiguous hr hr' (List.cons.inj h).2
      exact ⟨by rw [Nat.succ.inj hn], hrest⟩

end Numeral

/-- A printed string tells its string: it ends with the first quote that no backslash goes with. -/
theorem Value.printString_unambiguous {s t : String} {r r' : List Char}
    (h : (printString s).toList ++ r = (printString t).toList ++ r') : s = t ∧ r = r' := by
  have htext : ∀ (s : String) (r : List Char),
      (printString s).toList ++ r = '"' :: (s.toList.flatMap printChar ++ '"' :: r) := by
    intro s r
    rw [printString, String.toList_ofList]
    simp
  have htail : ∀ (s : String) (r : List Char),
      Lexer.stringTail '"' (s.toList.flatMap printChar ++ '"' :: r) =
        some ((s.toList.flatMap printChar).length + 1) := fun s r =>
    Lexer.stringTail_body (.inl rfl) (isStringBody_print s.toList) r
  rw [htext, htext] at h
  have hbody := (List.cons.inj h).2
  have hlength : (s.toList.flatMap printChar).length = (t.toList.flatMap printChar).length := by
    have := (htail s r).symm.trans ((congrArg _ hbody).trans (htail t r'))
    simpa using this
  obtain ⟨hchars, hrest⟩ := List.append_inj hbody hlength
  have hcontents := Literal.contents_print s.toList
  rw [hchars, Literal.contents_print] at hcontents
  exact ⟨String.toList_inj.1 (Except.ok.inj hcontents).symm, (List.cons.inj hrest).2⟩

namespace Value

/-! ## Values that are told apart -/

mutual

/-- A value without functions in which each field has a word for its name. -/
def IsLegible : Value ε → Prop
  | number _ | boolean _ | string _ | null => True
  | object fields => FieldsAreLegible fields
  | function _ | shared _ _ => False

/-- Fields with words for their names and without functions in them. -/
def FieldsAreLegible : List (Slot ε) → Prop
  | [] => True
  | ⟨name, _, v⟩ :: rest => IsWord name.toList ∧ v.IsLegible ∧ FieldsAreLegible rest

end

mutual

/-- A value with a constant for each of its fields, at every depth. -/
def unflagged : Value ε → Value ε
  | object fields => object (unflaggedFields fields)
  | v => v

/-- Fields with a constant for each of them, at every depth. -/
def unflaggedFields : List (Slot ε) → List (Slot ε)
  | [] => []
  | ⟨name, _, v⟩ :: rest => ⟨name, false, unflagged v⟩ :: unflaggedFields rest

end

/-! ## The first character -/

/-- The sort of a printed value that starts with a character. -/
def sortOf (c : Char) : Variant :=
  if c = '"' then .string
  else if c = '{' then .object
  else if c = 'n' then .null
  else if c = 't' || c = 'f' then .boolean
  else .number

theorem sortOf_digit {c : Char} (h : Numeral.isDigit c = true) : sortOf c = .number := by
  have hmarks : ∀ d ∈ ['"', '{', 'n', 't', 'f'], Numeral.isDigit d = false := by
    simp only [List.forall_mem_cons, List.not_mem_nil, false_implies, implies_true, and_true]
    decide
  have hne : ∀ d ∈ ['"', '{', 'n', 't', 'f'], c ≠ d := by
    rintro d hd rfl
    exact absurd h (by rw [hmarks c hd]; decide)
  simp [sortOf, hne]

/-- A printed value starts with a character that tells its sort. -/
theorem print_opens (width : Nat) {v : Value ε} (h : v.IsLegible) (level : Int) :
    ∃ c cs, (v.print width level).toList = c :: cs ∧ sortOf c = v.variant := by
  cases v with
  | number n =>
    rw [print, Numeral.ofInt, String.toList_ofList]
    cases n with
    | ofNat n =>
      obtain ⟨c, cs, hcs, hc⟩ := Numeral.exists_digits_cons n
      exact ⟨c, cs, hcs, sortOf_digit hc⟩
    | negSucc n => exact ⟨'-', _, rfl, rfl⟩
  | boolean b =>
    rw [print]
    cases b with
    | false => exact ⟨'f', "alse".toList, rfl, rfl⟩
    | true => exact ⟨'t', "rue".toList, rfl, rfl⟩
  | string s =>
    rw [print, printString, String.toList_ofList]
    exact ⟨'"', _, rfl, rfl⟩
  | null =>
    rw [print]
    exact ⟨'n', "ull".toList, rfl, rfl⟩
  | object fields =>
    cases fields with
    | nil =>
      rw [print]
      exact ⟨'{', ['}'], rfl, rfl⟩
    | cons f fs =>
      simp only [print, String.toList_append]
      exact ⟨'{', _, rfl, rfl⟩
  | function f => exact h.elim
  | shared holder place => exact h.elim

/-- Values that start with the same character are of one sort. -/
theorem variant_eq_of_print {v w : Value ε} (hv : v.IsLegible) (hw : w.IsLegible) {level : Int}
    {r r' : List Char}
    (h : (v.print width level).toList ++ r = (w.print width level).toList ++ r') :
    v.variant = w.variant := by
  obtain ⟨c, cs, hc, hsort⟩ := print_opens width hv level
  obtain ⟨d, ds, hd, hsort'⟩ := print_opens width hw level
  rw [hc, hd] at h
  rw [← hsort, ← hsort', (List.cons.inj h).1]

/-! ## Fields -/

/-- The lines of fields, each with the end of the line in front of it. -/
def fieldLines (width : Nat) (level : Int) (fields : List (Slot ε)) : List Char :=
  (printFields width level fields).flatMap fun line => ",\n".toList ++ line.toList

theorem fieldLines_cons (level : Int) (name : String) (isMutable : Bool) (v : Value ε)
    (rest : List (Slot ε)) : fieldLines width level (⟨name, isMutable, v⟩ :: rest) =
      ",\n".toList ++ ((indent width level).toList ++ (name.toList ++ (": ".toList ++
        ((v.print width level).toList ++ fieldLines width level rest)))) := by
  simp only [fieldLines, printFields, List.flatMap_cons, String.toList_append, List.append_assoc]

/-- An object with fields is printed as their lines between its braces. -/
theorem print_object (width : Nat) (level : Int) (f : Slot ε) (fs : List (Slot ε)) : ∃ lines,
    (print width level (object (f :: fs))).toList = '{' :: '\n' :: lines ∧
      fieldLines width (level + 1) (f :: fs) ++ '\n' :: ((indent width level).toList ++ ['}']) =
        ',' :: '\n' :: lines := by
  obtain ⟨name, isMutable, v⟩ := f
  simp only [print, printFields, String.toList_append, toList_intercalate, fieldLines,
    List.flatMap_cons, List.append_assoc]
  exact ⟨_, rfl, rfl⟩

theorem print_empty_ne (level : Int) (f : Slot ε) (fs : List (Slot ε)) (r r' : List Char) :
    (print width level (object [] : Value ε)).toList ++ r ≠
      (print width level (object (f :: fs))).toList ++ r' := by
  obtain ⟨lines, hprint, -⟩ := print_object width level f fs
  rw [hprint, print]
  exact fun h => nomatch (List.cons.inj (List.cons.inj h).2).1

/-- Behind the value of a field the line ends, with a comma or without one. -/
theorem endsDigits_fieldLines (level : Int) (fields : List (Slot ε)) (r : List Char) :
    EndsDigits (fieldLines width level fields ++ '\n' :: r) := by
  cases fields with
  | nil =>
    rintro c ⟨⟩
    rfl
  | cons f fs =>
    obtain ⟨name, isMutable, v⟩ := f
    rw [fieldLines_cons]
    rintro c ⟨⟩
    rfl

/-! ## Both values at once -/

mutual

/-- Printed values with more text behind them are the same up to their flags if the texts are the same,
and so is what stands behind them. -/
theorem print_unambiguous (v w : Value ε) (hv : v.IsLegible) (hw : w.IsLegible) (level : Int)
    {r r' : List Char} (hr : EndsDigits r) (hr' : EndsDigits r')
    (h : (v.print width level).toList ++ r = (w.print width level).toList ++ r') :
    v.unflagged = w.unflagged ∧ r = r' := by
  have hsort := variant_eq_of_print hv hw h
  cases v with
  | number m =>
    cases w with
    | number n =>
      simp only [print, Numeral.ofInt, String.toList_ofList] at h
      obtain ⟨rfl, hrest⟩ := Numeral.chars_unambiguous hr hr' h
      exact ⟨rfl, hrest⟩
    | _ => exact nomatch hsort
  | boolean b =>
    cases w with
    | boolean c =>
      simp only [print] at h
      cases b with
      | false =>
        cases c with
        | false => exact ⟨rfl, List.append_cancel_left h⟩
        | true => exact nomatch (List.cons.inj h).1
      | true =>
        cases c with
        | false => exact nomatch (List.cons.inj h).1
        | true => exact ⟨rfl, List.append_cancel_left h⟩
    | _ => exact nomatch hsort
  | string s =>
    cases w with
    | string t =>
      simp only [print] at h
      obtain ⟨rfl, hrest⟩ := printString_unambiguous h
      exact ⟨rfl, hrest⟩
    | _ => exact nomatch hsort
  | null =>
    cases w with
    | null => exact ⟨rfl, List.append_cancel_left h⟩
    | _ => exact nomatch hsort
  | object fs =>
    cases w with
    | object gs =>
      cases fs with
      | nil =>
        cases gs with
        | nil => exact ⟨rfl, List.append_cancel_left h⟩
        | cons g gs => exact (print_empty_ne level g gs r r' h).elim
      | cons f fs =>
        cases gs with
        | nil => exact (print_empty_ne level f fs r' r h.symm).elim
        | cons g gs =>
          obtain ⟨lines, hprint, hlines⟩ := print_object width level f fs
          obtain ⟨lines', hprint', hlines'⟩ := print_object width level g gs
          rw [hprint, hprint'] at h
          have hboth : (',' :: '\n' :: lines) ++ r = (',' :: '\n' :: lines') ++ r' :=
            congrArg (',' :: ·) (List.cons.inj h).2
          rw [← hlines, ← hlines', List.append_assoc, List.append_assoc] at hboth
          obtain ⟨hfields, hrest⟩ := fieldLines_unambiguous (f :: fs) (g :: gs) hv hw _ hboth
          exact ⟨congrArg object hfields, List.append_cancel_left hrest⟩
    | shared _ _ => exact hw.elim
    | _ => exact nomatch hsort
  | function _ => exact hv.elim
  | shared _ _ => exact hv.elim

/-- The lines of fields tell the fields up to their flags. -/
theorem fieldLines_unambiguous (fs gs : List (Slot ε)) (hfs : FieldsAreLegible fs)
    (hgs : FieldsAreLegible gs) (level : Int) {r r' : List Char}
    (h : fieldLines width level fs ++ '\n' :: r = fieldLines width level gs ++ '\n' :: r') :
    unflaggedFields fs = unflaggedFields gs ∧ r = r' := by
  match fs, gs with
  | [], [] => exact ⟨rfl, (List.cons.inj h).2⟩
  | [], ⟨_, _, _⟩ :: _ =>
    rw [fieldLines_cons] at h
    exact nomatch (List.cons.inj h).1
  | ⟨_, _, _⟩ :: _, [] =>
    rw [fieldLines_cons] at h
    exact nomatch (List.cons.inj h).1
  | ⟨n, _, v⟩ :: fs, ⟨m, _, w⟩ :: gs =>
    obtain ⟨hn, hv, hfs⟩ := hfs
    obtain ⟨hm, hw, hgs⟩ := hgs
    simp only [fieldLines_cons, List.append_assoc] at h
    have hname := List.append_cancel_left (List.append_cancel_left h)
    obtain ⟨hnames, hvalue⟩ := append_inj_of_all hn.isWordPart hm.isWordPart (by rintro c ⟨⟩; rfl)
      (by rintro c ⟨⟩; rfl) hname
    obtain ⟨hvw, hrest⟩ := print_unambiguous v w hv hw level (endsDigits_fieldLines level fs r)
      (endsDigits_fieldLines level gs r') (List.append_cancel_left hvalue)
    obtain ⟨hfields, hbehind⟩ := fieldLines_unambiguous fs gs hfs hgs level hrest
    refine ⟨?_, hbehind⟩
    rw [unflaggedFields, unflaggedFields, hvw, hfields, String.toList_inj.1 hnames]

end

end Value

/-- **Printed values are unambiguous.**  Two values without functions, with words for the names of their
fields, that are printed the same at some width and level are the same but for the flags of their
fields: numbers, booleans or strings that are equal, null both, or objects with the same names in the same
order and, field by field, values that are the same in this sense. -/
theorem printed_values_unambiguous (width : Nat) (level : Int) {v w : Value ε} (hv : v.IsLegible)
    (hw : w.IsLegible) (h : v.print width level = w.print width level) :
    v.unflagged = w.unflagged :=
  have hends : EndsDigits [] := fun _ hc => nomatch hc
  (Value.print_unambiguous v w hv hw level hends hends (by rw [h])).1

/-- Two objects with other flags, one of them in the other's field, and a string that looks like the end
of a field, all without indentation. -/
theorem printed_values_unambiguous_nested :
    let inner (isMutable : Bool) : Slot Empty := ⟨"text", isMutable, .string "1,\n\"b: \\"⟩
    let outer (isMutable : Bool) : Value Empty :=
      .object [⟨"a", isMutable, .number (-1)⟩, ⟨"b", true, .object [inner (!isMutable)]⟩]
    (outer true).IsLegible ∧ (outer true).print 0 0 = (outer false).print 0 0 ∧
      (outer true).unflagged = (outer false).unflagged := by
  intro inner outer
  have hlegible : ∀ isMutable, (outer isMutable).IsLegible := fun isMutable =>
    ⟨by decide, trivial, by decide, ⟨by decide, trivial, trivial⟩, trivial⟩
  have hprint : (outer true).print 0 0 = (outer false).print 0 0 := rfl
  exact ⟨hlegible true, hprint,
    printed_values_unambiguous 0 0 (hlegible true) (hlegible false) hprint⟩

end Scriptlet
