import Scriptlet.Literal
import Scriptlet.Proofs.Lexical
import Scriptlet.Proofs.Outcome
import Scriptlet.Proofs.PatternLanguages

/-!
# String literals

Two scans go over the text of a string literal: the lexer looks for the quote that ends it, by the
pattern `Literal.quotedPattern`, and the decoder replaces its escapes.  Both cut the text between the
quotes into the same pieces, single characters and pairs of a backslash and a character
(`Literal.Piece.split`), so they agree on where the literal ends, and the decoder fails only where a
pair is not an escape.
-/

namespace Scriptlet.Literal

set_option autoImplicit false

open Text

/-! ## The pattern -/

/-- A character that stands for itself between quotes `q`. -/
def isPlain (q c : Char) : Bool :=
  c ≠ q && c ≠ '\\' && c ≠ '\n'

/-- What may stand between quotes `q`: characters that stand for themselves, and pairs of a backslash
and a character on the same line. -/
def bodyPattern (q : Char) : Regex :=
  .star (.alt (.char (isPlain q)) (.seq (.char (· = '\\')) (.char (· ≠ '\n'))))

/-- A text between quotes `q`. -/
def betweenQuotes (q : Char) : Regex :=
  .seq (.char (· = q)) (.seq (bodyPattern q) (.char (· = q)))

/-- The texts of string literals. -/
def quotedPattern : Regex :=
  .alt (betweenQuotes '"') (betweenQuotes '\'')

/-- The pattern for what stands between quotes goes over a text like the grammar. -/
theorem language_bodyPattern (q : Char) (body : List Char) :
    body ∈ (bodyPattern q).language ↔ IsStringBody q body := by
  constructor
  · intro h
    obtain ⟨rounds, rfl, hrounds⟩ := Language.mem_kstar.1 h
    clear h
    induction rounds with
    | nil => exact .nil
    | cons round rounds ih =>
      obtain ⟨hround, hrest⟩ := List.forall_mem_cons.1 hrounds
      rcases hround with ⟨c, hc, rfl⟩ | hpair
      · simp only [isPlain, Bool.and_eq_true, decide_eq_true_eq] at hc
        exact .plain hc.1.1 hc.1.2 hc.2 (ih hrest)
      · obtain ⟨_, ⟨s, hs, rfl⟩, _, ⟨c, hc, rfl⟩, rfl⟩ := Language.mem_mul.1 hpair
        obtain rfl := of_decide_eq_true hs
        exact .escaped (of_decide_eq_true hc) (ih hrest)
  · intro h
    induction h with
    | nil => exact Language.nil_mem_kstar _
    | @plain c rest hq hs hn _ ih =>
      refine (Regex.cons_mem_kstar _ _ _).2 ⟨[], rest, .inl ⟨c, ?_, rfl⟩, ih, rfl⟩
      simp [isPlain, hq, hs, hn]
    | @escaped c rest hn _ ih =>
      refine (Regex.cons_mem_kstar _ _ _).2 ⟨[c], rest, .inr ?_, ih, rfl⟩
      exact Language.mem_mul.2 ⟨['\\'], ⟨'\\', by simp, rfl⟩, [c], ⟨c, by simpa using hn, rfl⟩, rfl⟩

theorem language_betweenQuotes (q : Char) (cs : List Char) :
    cs ∈ (betweenQuotes q).language ↔ ∃ body, cs = q :: (body ++ [q]) ∧ IsStringBody q body := by
  simp only [betweenQuotes, Regex.language_seq, Regex.language_char, language_bodyPattern]
  grind

/-- The pattern matches the strings of the grammar. -/
theorem quotedPattern_accepts (cs : List Char) : quotedPattern.accepts cs ↔ IsQuoted cs := by
  rw [Regex.accepts_iff, quotedPattern, Regex.language_alt, language_betweenQuotes,
    language_betweenQuotes]
  unfold IsQuoted
  grind

/-- The lexer reads a text as one string literal, in whatever mode, if the pattern matches it. -/
theorem quotedPattern_lexeme (cs : List Char) : quotedPattern.accepts cs ↔
    ∀ mode, Lexer.lexeme mode cs = some (.string, cs.length) := by
  rw [quotedPattern_accepts]
  constructor
  · exact fun h mode => Lexer.lexeme_quoted h
  · intro h
    have hspells := Lexer.lexeme_spells (h .any)
    rwa [List.take_length] at hspells

/-! ## The decoder -/

/-- A piece of what stands between quotes: a character, or a backslash and the character after it. -/
inductive Piece where
  | plain (c : Char)
  | pair (e : Char)
  deriving DecidableEq

namespace Piece

/-- The pieces of a text, from its start on. -/
def split : List Char → List Piece
  | [] => []
  | '\\' :: e :: rest => pair e :: split rest
  | c :: rest => plain c :: split rest

/-- The characters that a backslash may go with. -/
def escapes : List Char := ['n', 't', 'r', '\\', '\'', '"']

/-- Whether a piece is no pair, or a pair that is an escape. -/
def isKnown : Piece → Bool
  | plain _ => true
  | pair e => escapes.contains e

/-- The character that a piece stands for. -/
def denoted : Piece → Char
  | plain c => c
  | pair 'n' => '\n'
  | pair 't' => '\t'
  | pair 'r' => '\r'
  | pair e => e

theorem split_plain {c : Char} (hc : c ≠ '\\') (rest : List Char) :
    split (c :: rest) = plain c :: split rest := by
  rw [split]
  exact fun _ _ h => (hc h).elim

theorem all_isKnown (pieces : List Piece) :
    pieces.all isKnown ↔ ∀ e, pair e ∈ pieces → e ∈ escapes := by
  rw [List.all_eq_true]
  constructor
  · exact fun h e he => List.contains_iff_mem.1 (h (pair e) he)
  · intro h p hp
    cases p with
    | plain c => rfl
    | pair e => exact List.contains_iff_mem.2 (h e hp)

end Piece

/-- The decoder knows the escapes, and what they stand for. -/
theorem escape?_eq (e : Char) : escape? e =
    if (Piece.pair e).isKnown then some (Piece.pair e).denoted else none := by
  by_cases hn : e = 'n'
  · rw [hn]
    rfl
  by_cases ht : e = 't'
  · rw [ht]
    rfl
  by_cases hr : e = 'r'
  · rw [hr]
    rfl
  -- the other three stand for themselves
  have hdenoted : (Piece.pair e).denoted = e := Piece.denoted.eq_5 e hn ht hr
  simp [escape?, hn, ht, hr, Piece.isKnown, Piece.escapes, hdenoted, or_assoc]

/-- Decoding goes over a text between quotes piece by piece. -/
theorem contents_body {q : Char} (hq : q ≠ '\\') {body : List Char} (h : IsStringBody q body) :
    contents q (body ++ [q]) =
      if (Piece.split body).all Piece.isKnown then .ok ((Piece.split body).map Piece.denoted)
      else .error .unknownEscape := by
  induction h with
  | nil => simp [contents.eq_def, hq, Piece.split]
  | @plain c rest hc hs _ _ ih =>
    rw [List.cons_append, contents.eq_def, Piece.split_plain hs]
    have hplain : (Piece.plain c).isKnown = true := rfl
    simp only [hs, hc, if_false, ih, List.all_cons, hplain, Bool.true_and]
    split_ifs <;> rfl
  | @escaped e rest _ _ ih =>
    rw [List.cons_append, List.cons_append, contents, if_pos rfl, escape?_eq, Piece.split]
    by_cases he : (Piece.pair e).isKnown
    · rw [if_pos he, ih, List.all_cons, he, Bool.true_and]
      split_ifs <;> rfl
    · rw [if_neg he, List.all_cons, Bool.eq_false_of_not_eq_true he, Bool.false_and]
      rfl

/-- What can be decoded ends with the first quote that no backslash goes with. -/
theorem isStringBody_of_contents {q : Char} {cs s : List Char} (h : contents q cs = .ok s)
    (hline : '\n' ∉ cs) : ∃ body, cs = body ++ [q] ∧ IsStringBody q body := by
  fun_induction contents q cs generalizing s with
  | case1 => exact nomatch h
  | case2 => exact nomatch h
  | case3 => exact nomatch h
  | case4 e rest d _ ih =>
    obtain ⟨s', hs, -⟩ := except_map_eq_ok.1 h
    obtain ⟨body, rfl, hbody⟩ := ih hs (by grind)
    exact ⟨'\\' :: e :: body, rfl, .escaped (by grind) hbody⟩
  | case5 rest hempty _ =>
    obtain rfl := List.isEmpty_iff.1 hempty
    exact ⟨[], rfl, .nil⟩
  | case6 => exact nomatch h
  | case7 c rest hs hq ih =>
    obtain ⟨s', hs', -⟩ := except_map_eq_ok.1 h
    obtain ⟨body, rfl, hbody⟩ := ih hs' (by grind)
    exact ⟨c :: body, rfl, .plain hq hs (by grind) hbody⟩

/-- The decoder takes a quote off each end. -/
theorem string_quoted {text : String} {q : Char} {body : List Char} (hq : q = '"' ∨ q = '\'')
    (htext : text.toList = q :: (body ++ [q])) :
    string text = (contents q (body ++ [q])).map String.ofList := by
  obtain ⟨c, rest, hrest⟩ := List.exists_cons_of_ne_nil (List.concat_ne_nil q body)
  rw [string, htext, hrest]
  exact if_pos (by simpa using hq)

/-- A text that is decoded is its opening quote and what that quote closes. -/
theorem string_eq_ok {text s : String} (h : string text = .ok s) :
    ∃ q rest cs, (q = '"' ∨ q = '\'') ∧ text.toList = q :: rest ∧ contents q rest = .ok cs := by
  unfold string at h
  split at h
  · next q c rest htext =>
    split at h
    · next hq =>
      obtain ⟨cs, hcs, -⟩ := except_map_eq_ok.1 h
      exact ⟨q, c :: rest, cs, by simpa using hq, htext, hcs⟩
    · exact nomatch h
  · exact nomatch h

/-! ## Both scans -/

/-- **The lexer and the decoder agree on string literals.**  In a text that the pattern of string
literals matches, decoding succeeds just if each backslash goes with a character that it may go with,
and then gives the characters that the pieces between the quotes stand for; else it fails on an unknown
escape.  A text on one line that can be decoded is matched by the pattern.  And the lexer reads just the
texts that the pattern matches as one string literal. -/
theorem lexer_and_decoder_agree (text : String) :
    let pieces := Piece.split text.toList.tail.dropLast
    let known := ∀ e, Piece.pair e ∈ pieces → e ∈ ['n', 't', 'r', '\\', '\'', '"']
    (quotedPattern.accepts text.toList →
      ((∃ s, string text = .ok s) ↔ known) ∧
      (known → string text = .ok (String.ofList (pieces.map Piece.denoted))) ∧
      (¬ known → ∃ cause, string text = .error cause ∧ cause.kind = .parse ∧
        cause.message = "Found unknown escaped sequence while parsing string")) ∧
    ((∃ s, string text = .ok s) → '\n' ∉ text.toList → quotedPattern.accepts text.toList) ∧
    (quotedPattern.accepts text.toList ↔
      ∀ mode, Lexer.lexeme mode text.toList = some (.string, text.length)) := by
  intro pieces known
  refine ⟨fun hmatch => ?_, fun ⟨s, hs⟩ hline => ?_, quotedPattern_lexeme text.toList⟩
  · obtain ⟨q, body, hq, htext, hbody⟩ := (quotedPattern_accepts _).1 hmatch
    have hpieces : pieces = Piece.split body := by
      show Piece.split text.toList.tail.dropLast = _
      rw [htext, List.tail_cons, List.dropLast_concat]
    have hstring := string_quoted hq htext
    rw [contents_body (by rcases hq with rfl | rfl <;> decide) hbody, ← hpieces] at hstring
    by_cases hknown : pieces.all Piece.isKnown
    · have hk : known := (Piece.all_isKnown pieces).1 hknown
      rw [if_pos hknown] at hstring
      exact ⟨iff_of_true ⟨_, hstring⟩ hk, fun _ => hstring, fun h => (h hk).elim⟩
    · have hk : ¬ known := fun h => hknown ((Piece.all_isKnown pieces).2 h)
      rw [if_neg hknown] at hstring
      exact ⟨iff_of_false (fun ⟨s, hs⟩ => nomatch hstring.symm.trans hs) hk, fun h => (hk h).elim,
        fun _ => ⟨.unknownEscape, hstring, rfl, rfl⟩⟩
  · obtain ⟨q, rest, cs, hq, htext, hcs⟩ := string_eq_ok hs
    rw [htext, List.mem_cons, not_or] at hline
    obtain ⟨body, rfl, hbody⟩ := isStringBody_of_contents hcs hline.2
    exact (quotedPattern_accepts _).2 ⟨q, body, hq, htext, hbody⟩

/-- Two literals of one shape: two backslashes before a quote that ends the text, and a backslash that
goes with a quote of the other kind or with a letter that is no escape. -/
theorem lexer_and_decoder_agree_samples :
    (string "'\\\"\\\\'" = .ok "\"\\" ∧ quotedPattern.accepts "'\\\"\\\\'".toList) ∧
      ∃ cause, string "'\\q\\\\'" = .error cause ∧ cause.kind = .parse ∧
        cause.message = "Found unknown escaped sequence while parsing string" := by
  have hmatch : ∀ text ∈ ["'\\\"\\\\'", "'\\q\\\\'"], quotedPattern.accepts text.toList := by decide
  have hgood := hmatch _ List.mem_cons_self
  have hbad := hmatch _ (List.mem_cons_of_mem _ List.mem_cons_self)
  refine ⟨⟨((lexer_and_decoder_agree "'\\\"\\\\'").1 hgood).2.1 ?_, hgood⟩,
    ((lexer_and_decoder_agree "'\\q\\\\'").1 hbad).2.2 ?_⟩
  · exact (Piece.all_isKnown _).1 (by decide)
  · exact fun h => absurd ((Piece.all_isKnown _).2 h) (by decide)

end Scriptlet.Literal
