import Scriptlet.Proofs.Outcome
import Scriptlet.Proofs.ParserSoundness

/-!
# Literals and their lengths

A number of the language has 64 bits (`IsNumber`); every other integer is refused where it is read.
A numeral denotes the number that it is written for (`Numeral.value_digits`).
A string is short if its length is such a number.  The numeral of a number is short, and a string is
no longer than the literal that denotes it.  So the strings that a program writes out are short, in
the bodies of its functions too, if its source is (`shortLiterals_of_parse`).
-/

namespace Scriptlet

set_option autoImplicit false

/-! ## Numbers -/

/-- An integer of 64 bits with a sign, from `-2 ^ 63` to `2 ^ 63 - 1`. -/
def IsNumber (n : Int) : Prop :=
  -0x8000000000000000 ≤ n ∧ n ≤ 0x7fffffffffffffff

instance (n : Int) : Decidable (IsNumber n) :=
  inferInstanceAs (Decidable (-0x8000000000000000 ≤ n ∧ n ≤ 0x7fffffffffffffff))

namespace Literal

theorem inRange_iff {n : Int} : inRange n ↔ IsNumber n := by
  rw [inRange, Bool.and_eq_true, decide_eq_true_eq, decide_eq_true_eq]
  rfl

theorem isNumber_of_number {text : String} {n : Int} (h : number text = .ok n) : IsNumber n := by
  rw [number] at h
  obtain ⟨m, _, h⟩ := except_bind_eq_ok.1 h
  split at h
  · next hr => exact Except.ok.inj h ▸ inRange_iff.1 hr
  · cases h

theorem splitSign_numeral {cs : List Char} (h : IsNumeral cs) : splitSign cs = (false, cs) := by
  obtain ⟨hne, hdigits⟩ := h
  unfold splitSign
  split
  · exact absurd (hdigits '-' List.mem_cons_self) (by decide)
  · exact absurd (hdigits '+' List.mem_cons_self) (by decide)
  · rfl

/-- A numeral denotes an integer, unless it is too long. -/
theorem integer_numeral {text : String} (h : IsNumeral text.toList) :
    integer text = if Numeral.digitLimit < text.toList.length
      then .error (.breakdown (.digitLimit text.toList.length))
      else .ok (Numeral.value text.toList) := by
  have hdigits : (text.toList.isEmpty || !text.toList.all Numeral.isDigit) = false := by
    simpa [IsNumeral] using h
  simp only [integer, splitSign_numeral h, hdigits]
  rfl

/-- A numeral denotes a number, unless it is too long or its value is too great. -/
theorem number_numeral {text : String} (h : IsNumeral text.toList) :
    number text = if Numeral.digitLimit < text.toList.length
      then .error (.breakdown (.digitLimit text.toList.length))
      else if Numeral.value text.toList ≤ 0x7fffffffffffffff then .ok (Numeral.value text.toList)
      else .error (.error (.outOfRange text)) := by
  rw [number, integer_numeral h]
  split
  · rfl
  · have hrange : inRange (Numeral.value text.toList) = true ↔
        Numeral.value text.toList ≤ 0x7fffffffffffffff := by
      rw [inRange_iff, IsNumber]
      omega
    simp only [bind, Except.bind, hrange]

end Literal

/-! ## Short strings -/

/-- A string whose length is a number of the language: fewer than `2 ^ 63` characters. -/
def IsShort (s : String) : Prop :=
  s.length < 0x8000000000000000

instance (s : String) : Decidable (IsShort s) :=
  inferInstanceAs (Decidable (s.length < 0x8000000000000000))

theorem IsShort.isNumber {s : String} (h : IsShort s) : IsNumber s.length := by
  rw [IsShort] at h
  constructor
  · omega
  · omega

/-! ## Numerals -/

namespace Numeral

theorem isDigit_digit : ∀ n < 10, isDigit (digit n) = true := by decide

theorem digitValue_digit : ∀ n < 10, digitValue (digit n) = n := by decide

theorem toNat_of_isDigit {c : Char} (h : isDigit c = true) : 48 ≤ c.toNat ∧ c.toNat ≤ 57 := by
  simpa [isDigit, Char.le_def, UInt32.le_iff_toNat_le] using h

theorem isDigit_of_mem_digits {n : Nat} {c : Char} (h : c ∈ digits n) : isDigit c = true := by
  fun_induction digits n with
  | case1 n hn =>
    obtain rfl := List.mem_singleton.1 h
    exact isDigit_digit n hn
  | case2 n _ ih =>
    rcases List.mem_append.1 h with h | h
    · exact ih h
    · obtain rfl := List.mem_singleton.1 h
      exact isDigit_digit _ (Nat.mod_lt n (by decide))

theorem exists_digits_cons (n : Nat) : ∃ c cs, digits n = c :: cs ∧ isDigit c = true := by
  have hne : digits n ≠ [] := by
    rw [digits]
    split
    · simp
    · simp
  obtain ⟨c, cs, hcs⟩ := List.exists_cons_of_ne_nil hne
  exact ⟨c, cs, hcs, isDigit_of_mem_digits (n := n) (hcs ▸ List.mem_cons_self)⟩

/-- A numeral denotes the number that it is written for. -/
theorem value_digits (n : Nat) : value (digits n) = n := by
  fun_induction digits n with
  | case1 n hn => simp [value, digitValue_digit n hn]
  | case2 n _ ih =>
    have hlast := digitValue_digit (n % 10) (Nat.mod_lt n (by decide))
    rw [value, List.foldl_append, ← value, ih, List.foldl_cons, List.foldl_nil, hlast]
    omega

/-- The larger number has the longer numeral. -/
theorem length_digits_le {m n : Nat} (h : m ≤ n) : (digits m).length ≤ (digits n).length := by
  fun_induction digits n generalizing m with
  | case1 n hn =>
    rw [digits, if_pos (Nat.lt_of_le_of_lt h hn)]
    exact Nat.le_refl 1
  | case2 n hn ih =>
    have hdiv := ih (Nat.div_le_div_right h)
    rw [List.length_append, List.length_singleton]
    rw [digits]
    split
    · exact Nat.le_add_left _ _
    · rw [List.length_append, List.length_singleton]
      exact Nat.add_le_add_right hdiv 1

/-- The numeral of a number has at most nineteen digits. -/
theorem length_digits_natAbs {n : Int} (h : IsNumber n) : (digits n.natAbs).length ≤ 19 := by
  have hwidest : (digits 0x8000000000000000).length = 19 := by simp [digits]
  obtain ⟨hmin, hmax⟩ := h
  exact hwidest ▸ length_digits_le (by omega)

theorem ofInt_short {n : Int} (h : IsNumber n) : IsShort (ofInt n) := by
  have hlength := length_digits_natAbs h
  rw [IsShort, ofInt, String.length_ofList]
  cases n with
  | ofNat m =>
    have : (digits m).length ≤ 19 := hlength
    rw [chars]
    omega
  | negSucc m =>
    have : (digits (m + 1)).length ≤ 19 := hlength
    rw [chars, List.length_cons]
    omega

end Numeral

namespace Literal

/-- Escapes only make a string shorter. -/
theorem length_contents {q : Char} {cs contained : List Char} (h : contents q cs = .ok contained) :
    contained.length ≤ cs.length := by
  fun_induction contents q cs generalizing contained with
  | case1 | case2 | case3 | case6 => cases h
  | case4 e rest d hd ih =>
    obtain ⟨more, hmore, rfl⟩ := except_map_eq_ok.1 h
    have hrest := ih hmore
    simp only [List.length_cons]
    omega
  | case5 =>
    obtain rfl := Except.ok.inj h
    exact Nat.zero_le _
  | case7 c rest _ _ ih =>
    obtain ⟨more, hmore, rfl⟩ := except_map_eq_ok.1 h
    exact Nat.succ_le_succ (ih hmore)

/-- A string is no longer than the literal that denotes it. -/
theorem length_string {text s : String} (h : string text = .ok s) : s.length ≤ text.length := by
  rw [string] at h
  split at h
  · next q c rest htext =>
    split at h
    · obtain ⟨contained, hc, rfl⟩ := except_map_eq_ok.1 h
      have hlength := length_contents hc
      rw [String.length_ofList, ← String.length_toList, htext, List.length_cons]
      omega
    · cases h
  · cases h

end Literal

/-! ## String literals of a program -/

mutual

/-- The texts of the string literals in a node, function bodies included. -/
def Node.strings : Node → List String
  | ⟨_, form⟩ => form.strings

/-- The texts of the string literals in a form, function bodies included. -/
def Form.strings : Form → List String
  | .string text => [text]
  | .bare | .number _ | .boolean _ | .null | .ident _ | .ret none => []
  | .member object member => object.strings ++ member.strings
  | .group expr | .unary _ expr | .expression expr | .declaration _ expr _ | .ret (some expr) =>
    expr.strings
  | .call callee args => callee.strings ++ Node.allStrings args
  | .ternary condition thenBranch elseBranch =>
    condition.strings ++ (thenBranch.strings ++ elseBranch.strings)
  | .assign target _ value => target.strings ++ value.strings
  | .chain _ first rest => first.strings ++ Node.operandStrings rest
  | .block statements | .script statements => Node.allStrings statements
  | .function _ _ body _ => body.strings

/-- The texts of the string literals in a function body. -/
def Block.strings : Block → List String
  | ⟨_, statements⟩ => Node.allStrings statements

/-- The texts of the string literals in nodes. -/
def Node.allStrings : List Node → List String
  | [] => []
  | node :: rest => node.strings ++ Node.allStrings rest

/-- The texts of the string literals in operands. -/
def Node.operandStrings : List (String × Node) → List String
  | [] => []
  | (_, node) :: rest => node.strings ++ Node.operandStrings rest

end

theorem Block.strings_eq (body : Block) : body.strings = Node.allStrings body.statements := by
  cases body
  rfl

mutual

/-- A string literal is one of the tokens that a node is written with. -/
theorem Node.mem_texts {text : String} :
    (node : Node) → text ∈ node.strings → text ∈ node.texts
  | ⟨_, form⟩, h => Form.mem_texts form h

theorem Form.mem_texts {text : String} :
    (form : Form) → text ∈ form.strings → text ∈ form.texts
  | .string _, h => h
  | .bare, h | .number _, h | .boolean _, h | .null, h | .ident _, h | .ret none, h => nomatch h
  | .member object member, h => by
    simp only [Form.strings, Form.texts, List.mem_append, List.mem_cons] at h ⊢
    exact h.imp object.mem_texts fun h => .inr (member.mem_texts h)
  | .group expr, h => by
    simp only [Form.texts, List.mem_append, List.mem_cons]
    exact .inl (.inr (expr.mem_texts h))
  | .call callee args, h => by
    simp only [Form.strings, Form.texts, List.mem_append, List.mem_cons] at h ⊢
    rcases h with h | h
    · exact .inl (.inl (callee.mem_texts h))
    · exact .inl (.inr (.inr (Node.mem_argTexts args h)))
  | .ternary condition thenBranch elseBranch, h => by
    simp only [Form.strings, Form.texts, List.mem_append, List.mem_cons] at h ⊢
    rcases h with h | h | h
    · exact .inl (.inl (condition.mem_texts h))
    · exact .inl (.inr (.inr (thenBranch.mem_texts h)))
    · exact .inr (.inr (elseBranch.mem_texts h))
  | .assign target _ value, h => by
    simp only [Form.strings, Form.texts, List.mem_append, List.mem_cons] at h ⊢
    exact h.imp target.mem_texts fun h => .inr (value.mem_texts h)
  | .chain _ first rest, h => by
    simp only [Form.strings, Form.texts, List.mem_append] at h ⊢
    exact h.imp first.mem_texts (Node.mem_operandTexts rest)
  | .unary _ operand, h => List.mem_cons_of_mem _ (operand.mem_texts h)
  | .expression expr, h => List.mem_append_left _ (expr.mem_texts h)
  | .block statements, h => by
    simp only [Form.texts, List.mem_append, List.mem_cons]
    exact .inl (.inr (Node.mem_allTexts statements h))
  | .function _ _ body _, h => by
    simp only [Form.texts, List.mem_append, List.mem_cons]
    exact .inr (.inr (body.mem_texts h))
  | .declaration _ value _, h => by
    simp only [Form.texts, List.mem_append, List.mem_cons]
    exact .inl (.inr (.inr (.inr (value.mem_texts h))))
  | .ret (some expr), h => by
    simp only [Form.texts, List.mem_append, List.mem_cons]
    exact .inl (.inr (expr.mem_texts h))
  | .script statements, h => Node.mem_allTexts statements h

theorem Block.mem_texts {text : String} :
    (body : Block) → text ∈ body.strings → text ∈ body.texts
  | ⟨_, statements⟩, h => by
    simp only [Block.texts, List.mem_append, List.mem_cons]
    exact .inl (.inr (Node.mem_allTexts statements h))

theorem Node.mem_allTexts {text : String} :
    (nodes : List Node) → text ∈ Node.allStrings nodes → text ∈ Node.allTexts nodes
  | [], h => nomatch h
  | node :: rest, h => by
    simp only [Node.allStrings, Node.allTexts, List.mem_append] at h ⊢
    exact h.imp node.mem_texts (Node.mem_allTexts rest)

theorem Node.mem_argTexts {text : String} :
    (nodes : List Node) → text ∈ Node.allStrings nodes → text ∈ Node.argTexts nodes
  | [], h => nomatch h
  | [node], h => by
    simp only [Node.allStrings, List.append_nil] at h
    exact node.mem_texts h
  | node :: next :: rest, h => by
    rw [Node.allStrings, List.mem_append] at h
    simp only [Node.argTexts, List.mem_append, List.mem_cons]
    exact h.imp node.mem_texts fun h => .inr (Node.mem_argTexts (next :: rest) h)

theorem Node.mem_operandTexts {text : String} :
    (rest : List (String × Node)) → text ∈ Node.operandStrings rest →
      text ∈ Node.operandTexts rest
  | [], h => nomatch h
  | (_, node) :: rest, h => by
    simp only [Node.operandStrings, Node.operandTexts, List.mem_append, List.mem_cons] at h ⊢
    exact h.imp (fun h => .inr (node.mem_texts h)) (Node.mem_operandTexts rest)

end

/-- Literals that denote short strings, as far as they denote strings at all. -/
def ShortLiterals (texts : List String) : Prop :=
  ∀ text ∈ texts, ∀ s, Literal.string text = .ok s → IsShort s

theorem shortLiterals_append {texts more : List String} :
    ShortLiterals (texts ++ more) ↔ ShortLiterals texts ∧ ShortLiterals more :=
  List.forall_mem_append

theorem shortLiterals_allStrings {nodes : List Node} :
    ShortLiterals (Node.allStrings nodes) ↔ ∀ node ∈ nodes, ShortLiterals node.strings := by
  induction nodes with
  | nil => exact iff_of_true (List.forall_mem_nil _) (List.forall_mem_nil _)
  | cons node rest ih => rw [Node.allStrings, shortLiterals_append, ih, List.forall_mem_cons]

theorem shortLiterals_operandStrings {rest : List (String × Node)} :
    ShortLiterals (Node.operandStrings rest) ↔ ∀ p ∈ rest, ShortLiterals p.2.strings := by
  induction rest with
  | nil => exact iff_of_true (List.forall_mem_nil _) (List.forall_mem_nil _)
  | cons p rest ih => rw [Node.operandStrings, shortLiterals_append, ih, List.forall_mem_cons]

/-- The literals of a source that is short are short themselves. -/
theorem shortLiterals_of_parse {rule : Rule} {source : String} {node : Node}
    (hp : Parser.parse rule source = .ok node) (hs : IsShort source) :
    ShortLiterals node.strings := by
  intro text htext s hstring
  have htoken : text.length ≤ source.toList.length :=
    Lexer.length_le_of_cut (Parser.texts_of_parse hp) text (node.mem_texts htext)
  rw [String.length_toList] at htoken
  calc s.length ≤ text.length := Literal.length_string hstring
    _ ≤ source.length := htoken
    _ < 0x8000000000000000 := hs

end Scriptlet
