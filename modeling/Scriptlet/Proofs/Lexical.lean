import Mathlib.Tactic.SplitIfs
import Scriptlet.Proofs.Grammar

/-!
# What the lexer reads

`Terminal.Spells` says which texts a terminal stands for, and every token that the lexer reads has
such a text.  `Lexer.cut` cuts a source with no regard for the grammar, each token as long as it can
be; `lexeme_any` says where the lexer of a parser differs from it.  A text that is one token is
still read as that token where a blank follows it.
-/

namespace Scriptlet

set_option autoImplicit false

namespace Terminal

/-- The text of a terminal that has only one. -/
def mark : Terminal → String
  | lbrace => "\x7b"
  | rbrace => "\x7d"
  | lpar => "("
  | rpar => ")"
  | comma => ","
  | semicolon => ";"
  | qmark => "?"
  | colon => ":"
  | dot => "."
  | equal => "="
  | plusEqual => "+="
  | minusEqual => "-="
  | starEqual => "*="
  | slashEqual => "/="
  | equalEqual => "=="
  | identical => "==="
  | bangEqual => "!="
  | notIdentical => "!=="
  | less => "<"
  | more => ">"
  | lessEqual => "<="
  | moreEqual => ">="
  | plus => "+"
  | minus => "-"
  | star => "*"
  | slash => "/"
  | percent => "%"
  | bang => "!"
  | functionWord => "function"
  | letWord => "let"
  | constWord => "const"
  | returnWord => "return"
  | trueWord => "true"
  | falseWord => "false"
  | nullWord => "null"
  | ident | number | string => ""

/-- The texts that a terminal stands for. -/
def Spells : Terminal → List Char → Prop
  | ident, cs => IsWord cs
  | number, cs => IsNumeral cs
  | string, cs => IsQuoted cs
  | t, cs => cs = t.mark.toList

end Terminal

/-- A token of a mode: its text has the shape of its terminal, and a name is a word that the mode
takes for one. -/
structure Token.Fits (mode : Lexer.Mode) (t : Token) : Prop where
  spells : t.terminal.Spells t.text.toList
  name : t.terminal = .ident → mode.classify t.text.toList = .ident

/-- The text of a token whose terminal has only one. -/
theorem Token.Fits.text_eq {mode : Lexer.Mode} {t : Token} (h : t.Fits mode) {k : Terminal}
    (hk : t.terminal = k) (hm : k.mark ≠ "") : t.text = k.mark := by
  have hs := h.spells
  rw [hk] at hs
  unfold Terminal.Spells at hs
  split at hs
  · exact (hm rfl).elim
  · exact (hm rfl).elim
  · exact (hm rfl).elim
  · exact String.toList_inj.1 hs

theorem Token.Fits.word {mode : Lexer.Mode} {t : Token} (h : t.Fits mode)
    (hk : t.terminal = .ident) : IsWord t.text.toList := by
  have hs := h.spells
  rwa [hk] at hs

namespace Lexer

variable {mode : Mode} {cs : List Char} {t : Terminal} {n : Nat}

/-! ## The shape of what is read -/

/-- A string's body is read up to the first quote that no backslash goes with. -/
theorem stringTail_spec {q : Char} (h : stringTail q cs = some n) :
    ∃ body rest, cs = body ++ q :: rest ∧ n = body.length + 1 ∧ IsStringBody q body := by
  fun_induction stringTail q cs generalizing n with
  | case1 => exact nomatch h
  | case2 rest => exact nomatch h
  | case3 c rest hc ih =>
    obtain ⟨m, hm, rfl⟩ := Option.map_eq_some_iff.1 h
    obtain ⟨body, after, rfl, rfl, hbody⟩ := ih hm
    exact ⟨'\\' :: c :: body, after, rfl, rfl, .escaped hc hbody⟩
  | case4 rest =>
    obtain rfl := Option.some.inj h
    exact ⟨[], rest, rfl, rfl, .nil⟩
  | case5 c rest => exact nomatch h
  | case6 c rest _ hq hs ih =>
    obtain ⟨m, hm, rfl⟩ := Option.map_eq_some_iff.1 h
    obtain ⟨body, after, rfl, rfl, hbody⟩ := ih hm
    simp only [Bool.or_eq_true, decide_eq_true_eq, not_or] at hs
    exact ⟨c :: body, after, rfl, rfl, .plain hq hs.1 hs.2 hbody⟩

/-- A body and its closing quote are read to their end. -/
theorem stringTail_body {q : Char} (hq : q = '"' ∨ q = '\'') {body : List Char}
    (h : IsStringBody q body) (rest : List Char) :
    stringTail q (body ++ q :: rest) = some (body.length + 1) := by
  induction h with
  | nil =>
    rcases hq with rfl | rfl
    · simp [stringTail]
    · simp [stringTail]
  | @plain c body hc hs hn _ ih =>
    rw [List.cons_append, stringTail]
    · simp [hc, hs, hn, ih]
    · exact fun _ _ h => (hs h).elim
  | @escaped c body hn _ ih => simp [stringTail, hn, ih]

/-- The text of an operator or mark. -/
theorem symbol?_spells (h : symbol? cs = some (t, n)) : t.Spells (cs.take n) := by
  obtain ⟨s, hs, he⟩ := Option.map_eq_some_iff.1 h
  obtain ⟨rfl, rfl⟩ := Prod.mk.inj he
  have hmark : ∀ s ∈ symbols, s.2.mark.toList = s.1 ∧ s.2 ≠ .ident ∧ s.2 ≠ .number ∧
      s.2 ≠ .string := by decide
  have hpre := List.find?_some hs
  obtain ⟨hm, hi, hn, hq⟩ := hmark s (List.mem_of_find?_eq_some hs)
  rw [← List.prefix_iff_eq_take.1 (List.isPrefixOf_iff_prefix.1 hpre)]
  unfold Terminal.Spells
  split
  · exact (hi ‹_›).elim
  · exact (hn ‹_›).elim
  · exact (hq ‹_›).elim
  · exact hm.symm

theorem Mode.symbol?_spells (h : mode.symbol? cs = some (t, n)) : t.Spells (cs.take n) := by
  unfold Mode.symbol? at h
  split at h
  case h_6 => exact Lexer.symbol?_spells h
  all_goals
    obtain ⟨rfl, rfl⟩ := Prod.mk.inj (Option.some.inj h)
    simp [Terminal.Spells, Terminal.mark]

/-- The text of a word. -/
theorem classify_spells (mode : Mode) {word : List Char} (h : IsWord word) :
    (mode.classify word).Spells word := by
  unfold Mode.classify
  split
  · unfold literalWord
    split_ifs <;> assumption
  · exact h
  · unfold reservedWord literalWord
    split_ifs <;> assumption

/-- The text of a token has the shape of its terminal. -/
theorem lexeme_spells (h : lexeme mode cs = some (t, n)) : t.Spells (cs.take n) := by
  unfold lexeme at h
  split at h
  · cases h
  · next c rest =>
    split_ifs at h with hw hd hq
    · obtain ⟨rfl, rfl⟩ := Prod.mk.inj (Option.some.inj h)
      have hword : IsWord (c :: rest.takeWhile isWordPart) :=
        ⟨hw, fun d hd => List.all_eq_true.1 List.all_takeWhile d hd⟩
      rw [List.length_cons, List.take_succ_cons,
        ← List.prefix_iff_eq_take.1 (List.takeWhile_prefix isWordPart)]
      exact classify_spells mode hword
    · obtain ⟨rfl, rfl⟩ := Prod.mk.inj (Option.some.inj h)
      rw [Nat.add_comm, List.take_succ_cons,
        ← List.prefix_iff_eq_take.1 (List.takeWhile_prefix Numeral.isDigit)]
      refine ⟨List.cons_ne_nil _ _, ?_⟩
      intro d hmem
      rcases List.mem_cons.1 hmem with rfl | hmem
      · exact hd
      · exact List.all_eq_true.1 List.all_takeWhile d hmem
    · obtain ⟨m, hm, he⟩ := Option.map_eq_some_iff.1 h
      obtain ⟨rfl, rfl⟩ := Prod.mk.inj he
      obtain ⟨body, after, rfl, rfl, hbody⟩ := stringTail_spec hm
      refine ⟨c, body, by simpa using hq, ?_, hbody⟩
      simp [List.take_append, List.take_of_length_le]
    · exact Mode.symbol?_spells h

/-- A name is a word that the mode takes for a name. -/
theorem lexeme_ident (h : lexeme mode cs = some (.ident, n)) :
    mode.classify (cs.take n) = .ident := by
  have hs : IsWord (cs.take n) := lexeme_spells h
  have hn := lexeme_pos h
  unfold lexeme at h
  split at h
  · cases h
  · next c rest =>
    have hw : isWordStart c := by
      obtain ⟨m, rfl⟩ := Nat.exists_eq_succ_of_ne_zero (Nat.ne_of_gt hn)
      exact hs.1
    rw [if_pos hw] at h
    obtain ⟨ht, rfl⟩ := Prod.mk.inj (Option.some.inj h)
    rwa [List.length_cons, List.take_succ_cons,
      ← List.prefix_iff_eq_take.1 (List.takeWhile_prefix isWordPart)]

theorem literalWord_ident {word : List Char} :
    literalWord word = .ident ↔ String.ofList word ∉ literalWords := by
  unfold literalWord literalWords
  split_ifs with h1 h2 h3
  · subst h1; decide
  · subst h2; decide
  · subst h3; decide
  · apply iff_of_true rfl
    intro h
    simp only [List.mem_cons, List.not_mem_nil, or_false, ← String.toList_inj,
      String.toList_ofList] at h
    exact h.elim h1 (·.elim h2 h3)

theorem reservedWord_ident {word : List Char} :
    reservedWord word = .ident ↔
      String.ofList word ∉ literalWords ∧ String.ofList word ∉ openingWords := by
  unfold reservedWord openingWords
  split_ifs with h1 h2 h3 h4
  · subst h1; decide
  · subst h2; decide
  · subst h3; decide
  · subst h4; decide
  · rw [literalWord_ident]
    refine (and_iff_left fun h => ?_).symm
    simp only [List.mem_cons, List.not_mem_nil, or_false, ← String.toList_inj,
      String.toList_ofList] at h
    exact h.elim h1 (·.elim h2 (·.elim h3 h4))

theorem tokenAt_fits {here : Cursor} (h : lexeme mode here.rest = some (t, n)) :
    (tokenAt here t n).Fits mode := by
  refine ⟨?_, ?_⟩
  · rw [tokenAt, String.toList_ofList]
    exact lexeme_spells h
  · rintro rfl
    rw [tokenAt, String.toList_ofList]
    exact lexeme_ident h

/-! ## Blanks and comments -/

/-- A comment that is closed ends with its closing mark. -/
theorem take_commentTail (h : commentTail cs = some n) :
    ∃ body, cs.take n = body ++ ['*', '/'] := by
  fun_induction commentTail cs generalizing n with
  | case1 => exact nomatch h
  | case2 rest =>
    obtain rfl := Option.some.inj h
    exact ⟨[], rfl⟩
  | case3 c rest _ ih =>
    obtain ⟨m, hm, rfl⟩ := Option.map_eq_some_iff.1 h
    obtain ⟨body, htake⟩ := ih hm
    exact ⟨c :: body, by rw [List.take_succ_cons, htake]; rfl⟩

theorem gapLength_eq_zero (h : gapPiece cs = 0) : gapLength cs = 0 := by
  unfold gapLength
  split
  · next heq => cases h.symm.trans heq
  · rfl

theorem gapLength_succ {c : Char} {rest : List Char} (h : gapPiece (c :: rest) = n + 1) :
    gapLength (c :: rest) = n + 1 + gapLength (rest.drop n) := by
  rw [gapLength.eq_def]
  simp only [h]

/-! ## Cutting with no regard for the grammar -/

/-- The texts of the tokens in a source, each as long as it can be, with the blanks and comments
between them left out; none if a character starts no token. -/
def cut (cs : List Char) : Option (List String) :=
  let here := cs.drop (gapLength cs)
  match _hr : here with
  | [] => some []
  | _ :: _ =>
    match _hl : lexeme .any here with
    | none => none
    | some (_, n) => (cut (here.drop n)).map (String.ofList (here.take n) :: ·)
termination_by cs.length
decreasing_by
  have hn := lexeme_pos _hl
  have hp : 0 < here.length := by simp [_hr]
  simp only [here, List.length_drop] at hp ⊢
  omega

theorem cut_end (h : cs.drop (gapLength cs) = []) : cut cs = some [] := by
  rw [cut]
  split
  · rfl
  · next hr => exact nomatch h.symm.trans hr

theorem cut_token (h : lexeme .any (cs.drop (gapLength cs)) = some (t, n)) :
    cut cs = (cut ((cs.drop (gapLength cs)).drop n)).map
      (String.ofList ((cs.drop (gapLength cs)).take n) :: ·) := by
  rw [cut]
  split
  · next hr => rw [hr] at h; exact nomatch h
  · split
    · next hl => exact nomatch h.symm.trans hl
    · next hl =>
      obtain ⟨rfl, rfl⟩ := Prod.mk.inj (Option.some.inj (h.symm.trans hl))
      rfl

theorem cut_none (hne : cs.drop (gapLength cs) ≠ []) (h : lexeme .any (cs.drop (gapLength cs)) = none) :
    cut cs = none := by
  rw [cut]
  split
  · next hr => exact (hne hr).elim
  · split
    · rfl
    · next hl => exact nomatch h.symm.trans hl

/-- A source is cut by what stands behind its first gap. -/
theorem cut_congr {ds : List Char} (h : cs.drop (gapLength cs) = ds.drop (gapLength ds)) :
    cut cs = cut ds := by
  by_cases hend : ds.drop (gapLength ds) = []
  · rw [cut_end (h.trans hend), cut_end hend]
  · cases hl : lexeme .any (ds.drop (gapLength ds)) with
    | none => rw [cut_none (h.symm ▸ hend) (h.symm ▸ hl), cut_none hend hl]
    | some token =>
      obtain ⟨t, n⟩ := token
      rw [cut_token (h.symm ▸ hl), cut_token hl, h]

/-- A token is no longer than the source. -/
theorem length_le_of_cut {texts : List String} (h : cut cs = some texts) :
    ∀ text ∈ texts, text.length ≤ cs.length := by
  induction texts generalizing cs with
  | nil => exact List.forall_mem_nil _
  | cons first more ih =>
    rw [cut] at h
    split at h
    · exact nomatch h
    · split at h
      · exact nomatch h
      · next _ n _ =>
        obtain ⟨_, hmore, hcons⟩ := Option.map_eq_some_iff.1 h
        obtain ⟨rfl, rfl⟩ := List.cons.inj hcons
        rw [List.forall_mem_cons, String.length_ofList, List.length_take, List.length_drop]
        refine ⟨by omega, fun text htext => ?_⟩
        have htail := ih hmore text htext
        rw [List.length_drop, List.length_drop] at htail
        omega

/-- The terminals whose texts start with an equals sign. -/
theorem spells_equals {rest : List Char} (h : t.Spells ('=' :: rest)) :
    t = .equal ∨ t = .equalEqual ∨ t = .identical := by
  cases t <;> simp [Terminal.Spells, Terminal.mark, IsWord, IsNumeral, IsQuoted] at h ⊢
  all_goals exact absurd h.1 (by decide)

/-- A sign that may open a longer one is read alone, or an equals sign follows it. -/
theorem symbol?_alone {c : Char} (hc : c = '-' ∨ c = '!' ∨ c = '=') (rest : List Char) :
    (∃ t, symbol? (c :: rest) = some (t, 1)) ∨ ∃ after, rest = '=' :: after := by
  cases rest with
  | nil => rcases hc with rfl | rfl | rfl <;> exact .inl ⟨_, rfl⟩
  | cons d after =>
    by_cases hd : d = '='
    · exact .inr ⟨after, by rw [hd]⟩
    · have hb : ('=' == d) = false := beq_eq_false_iff_ne.2 (Ne.symm hd)
      refine .inl ?_
      rcases hc with rfl | rfl | rfl
      · exact ⟨.minus, by simp [symbol?, symbols, List.find?, List.isPrefixOf, hb]⟩
      · exact ⟨.bang, by simp [symbol?, symbols, List.find?, List.isPrefixOf, hb]⟩
      · exact ⟨.equal, by simp [symbol?, symbols, List.find?, List.isPrefixOf, hb]⟩

/-- Every token is as long as it can be, unless an equals sign follows a `-`, a `!` or an `=`. -/
theorem lexeme_any (h : lexeme mode cs = some (t, n)) :
    (∃ t', lexeme .any cs = some (t', n)) ∨
      (t = .minus ∨ t = .bang ∨ t = .equal) ∧ ∃ after, cs.drop n = '=' :: after := by
  unfold lexeme at h ⊢
  split at h
  · cases h
  · next c rest =>
    dsimp only
    split_ifs at h ⊢ with hw hd hq
    · obtain ⟨rfl, rfl⟩ := Prod.mk.inj (Option.some.inj h)
      exact .inl ⟨_, rfl⟩
    · exact .inl ⟨_, h⟩
    · exact .inl ⟨_, h⟩
    · unfold Mode.symbol? at h
      split at h
      case h_6 => exact .inl ⟨t, h⟩
      all_goals
        obtain ⟨rfl, rfl⟩ := Prod.mk.inj (Option.some.inj h)
        injections
        subst_vars
        exact (symbol?_alone (by simp) _).imp_right fun ha => ⟨by simp, ha⟩

/-! ## A token in front of a blank -/

/-- The end of a text, or a blank and whatever follows it. -/
def AtBlank (rest : List Char) : Prop :=
  ∀ c ∈ rest.head?, isSpace c

/-- The sign that stands alone in a mode. -/
def Mode.sign? : Mode → Char → Option Terminal
  | .statement, '-' | .operand, '-' => some .minus
  | .statement, '!' | .operand, '!' => some .bang
  | .equals, '=' => some .equal
  | _, _ => none

theorem Mode.symbol?_cons (mode : Mode) (c : Char) (rest : List Char) :
    mode.symbol? (c :: rest) = ((mode.sign? c).map (·, 1)).or (Lexer.symbol? (c :: rest)) := by
  cases mode with
  | any | name => rfl
  | statement | operand =>
    by_cases hm : c = '-'
    · subst hm; rfl
    · by_cases hb : c = '!'
      · subst hb; rfl
      · simp [Mode.symbol?, Mode.sign?, hm, hb]
  | equals =>
    by_cases he : c = '='
    · subst he; rfl
    · simp [Mode.symbol?, Mode.sign?, he]

/-- A token starts with no blank and no comment. -/
theorem gapPiece_token {rest : List Char} (hr : AtBlank rest)
    (h : lexeme mode cs = some (t, cs.length)) : gapPiece (cs ++ rest) = 0 := by
  have hcomment : ∀ d tail, d = '/' ∨ d = '*' → cs ++ rest ≠ '/' :: d :: tail := by
    intro d tail hd he
    match cs, h, he with
    | [_], _, he =>
      obtain ⟨rfl, rfl⟩ := List.cons.inj he
      exact absurd (hr d rfl) (by rcases hd with rfl | rfl <;> decide)
    | _ :: e :: cs, h, he =>
      obtain ⟨rfl, htail⟩ := List.cons.inj he
      obtain ⟨rfl, -⟩ := List.cons.inj htail
      have hslash : lexeme mode ('/' :: e :: cs) = some (.slash, 1) := by
        rcases hd with rfl | rfl <;> cases mode <;> rfl
      exact absurd (Prod.mk.inj (Option.some.inj (hslash.symm.trans h))).2 (by simp)
  unfold gapPiece
  split
  · next tail he => exact (hcomment _ tail (.inl rfl) he).elim
  · next tail he => exact (hcomment _ tail (.inr rfl) he).elim
  · next c tail _ _ he =>
    split_ifs with hc
    · cases cs with
      | nil => exact nomatch h
      | cons d cs =>
        obtain ⟨rfl, -⟩ := List.cons.inj he
        have hnone : lexeme mode (d :: cs) = none := by
          simp only [isSpace, Bool.or_eq_true, beq_iff_eq, or_assoc] at hc
          rcases hc with rfl | rfl | rfl | rfl | rfl <;> cases mode <;> rfl
        exact nomatch hnone.symm.trans h
    · rfl
  · rfl

/-! ## The texts of single tokens -/

theorem lexeme_word {word : List Char} (h : IsWord word) :
    lexeme mode word = some (mode.classify word, word.length) := by
  cases word with
  | nil => exact h.elim
  | cons c rest =>
    have hall : rest.takeWhile isWordPart = rest := by
      rw [← List.append_nil rest, List.takeWhile_append_of_pos h.2, List.takeWhile_nil]
    rw [lexeme, if_pos h.1, hall]

theorem lexeme_name {name : String} (h : IsWord name.toList) :
    lexeme .name name.toList = some (.ident, name.length) := by
  rw [← String.length_toList]
  exact lexeme_word h

theorem not_isWordStart_of_isDigit {c : Char} (h : Numeral.isDigit c) : ¬ isWordStart c := by
  intro hw
  simp only [Numeral.isDigit, isWordStart, Bool.and_eq_true, Bool.or_eq_true, decide_eq_true_eq,
    beq_iff_eq, Char.le_def, UInt32.le_iff_toNat_le] at h hw
  rcases hw with (hw | hw) | rfl
  · exact absurd (Nat.le_trans hw.1 h.2) (by decide)
  · exact absurd (Nat.le_trans hw.1 h.2) (by decide)
  · exact absurd h.2 (by decide)

theorem lexeme_numeral {digits : List Char} (h : IsNumeral digits) :
    lexeme mode digits = some (.number, digits.length) := by
  cases digits with
  | nil => exact (h.1 rfl).elim
  | cons c rest =>
    have hd : Numeral.isDigit c := h.2 c List.mem_cons_self
    have hw : ¬ isWordStart c := not_isWordStart_of_isDigit hd
    have hall : rest.takeWhile Numeral.isDigit = rest := by
      rw [← List.append_nil rest, List.takeWhile_append_of_pos fun d hd =>
        h.2 d (List.mem_cons_of_mem _ hd), List.takeWhile_nil]
    rw [lexeme, if_neg hw, if_pos hd, hall, Nat.add_comm]
    rfl

theorem lexeme_quoted {quoted : List Char} (h : IsQuoted quoted) :
    lexeme mode quoted = some (.string, quoted.length) := by
  obtain ⟨q, body, hq, rfl, hbody⟩ := h
  have htail := stringTail_body hq hbody []
  rcases hq with rfl | rfl
  · rw [lexeme, if_neg (by decide), if_neg (by decide), if_pos (by decide), htail]
    simp
  · rw [lexeme, if_neg (by decide), if_neg (by decide), if_pos (by decide), htail]
    simp

end Lexer

/-- Only where every word is a name can a name be a literal. -/
theorem Token.Fits.notLiteral {mode : Lexer.Mode} {t : Token} (h : t.Fits mode) (hm : mode ≠ .name)
    (hk : t.terminal = .ident) : t.text ∉ literalWords := by
  have hc := h.name hk
  rw [← String.ofList_toList (s := t.text)]
  cases mode with
  | operand => exact Lexer.literalWord_ident.1 hc
  | name => exact (hm rfl).elim
  | any | statement | equals => exact (Lexer.reservedWord_ident.1 hc).1

/-- A token at the start of a statement that does not open a statement of its own. -/
theorem Token.Fits.notOpening {t : Token} (h : t.Fits .statement)
    (hk : t.terminal.mark ∉ openingWords) : t.text ∉ openingWords := by
  have hs := h.spells
  unfold Terminal.Spells at hs
  split at hs
  · next heq =>
    rw [← String.ofList_toList (s := t.text)]
    exact (Lexer.reservedWord_ident.1 (h.name heq)).2
  · intro hm
    have hnot : ∀ w ∈ openingWords, ¬ IsNumeral w.toList := by decide
    exact hnot _ hm hs
  · intro hm
    obtain ⟨q, body, hq, he, -⟩ := hs
    have hnot : ∀ w ∈ openingWords, w.toList.head? ≠ some '"' ∧ w.toList.head? ≠ some '\'' := by
      decide
    rcases hq with rfl | rfl
    · exact (hnot _ hm).1 (by rw [he]; rfl)
    · exact (hnot _ hm).2 (by rw [he]; rfl)
  · rwa [String.toList_inj.1 hs]

end Scriptlet
