import Scriptlet.Proofs.Continuation
import Scriptlet.Proofs.Layout

/-!
# Gaps inserted between tokens

Blanks and comments may be inserted at the start of a program and behind each of its tokens: the
changed source is read as the same program (`parse_inserted`).  It is cut into the same texts, since
every token in front of the place ends there or before it, and a blank does not make it longer
(`Reaches.cut_inserted`).  A `/` in front of a `*` would matter, because a comment that is inserted behind
them may close theirs; but nothing is read behind such a `/`.
-/

namespace Scriptlet

set_option autoImplicit false

/-! ## Fillings -/

namespace Lexer

/-- Blanks, comments up to the end of their line, with the newline there, and comments up to their
first closing mark. -/
inductive IsFilling : List Char → Prop where
  | nil : IsFilling []
  | blank {c : Char} {rest : List Char} (hc : isSpace c) (h : IsFilling rest) : IsFilling (c :: rest)
  | line {body rest : List Char} (hb : '\n' ∉ body) (h : IsFilling rest) :
      IsFilling ('/' :: '/' :: (body ++ '\n' :: rest))
  | block {body rest : List Char} (hb : ¬ ['*', '/'] <:+: body ++ ['*']) (h : IsFilling rest) :
      IsFilling ('/' :: '*' :: (body ++ '*' :: '/' :: rest))

variable {filling body rest : List Char}

/-- A comment ends at its first closing mark. -/
theorem commentTail_body (hb : ¬ ['*', '/'] <:+: body ++ ['*']) :
    commentTail (body ++ '*' :: '/' :: rest) = some (body.length + 2) := by
  induction body with
  | nil => rfl
  | cons c body ih =>
    rw [List.cons_append, List.infix_cons_iff, not_or] at hb
    rw [List.cons_append, commentTail, ih hb.2]
    · rfl
    · rintro tail rfl heq
      refine hb.1 (List.cons_prefix_cons.2 ⟨rfl, ?_⟩)
      cases body with
      | nil => cases heq
      | cons d body =>
        obtain rfl := (List.cons.inj heq).1
        exact List.cons_prefix_cons.2 ⟨rfl, List.nil_prefix⟩

theorem takeWhile_line (hb : '\n' ∉ body) :
    (body ++ '\n' :: rest).takeWhile (fun c => c != '\n') = body := by
  have hline : ∀ c ∈ body, (c != '\n') = true := by
    intro c hc
    refine bne_iff_ne.2 ?_
    rintro rfl
    exact hb hc
  rw [List.takeWhile_append_of_pos hline, List.takeWhile_cons_of_neg (by decide), List.append_nil]

/-- A filling is skipped as a whole, and then the gap behind it. -/
theorem IsFilling.gapLength_append (h : IsFilling filling) (rest : List Char) :
    gapLength (filling ++ rest) = filling.length + gapLength rest := by
  induction h with
  | nil => exact (Nat.zero_add _).symm
  | @blank c more hc _ ih =>
    rw [List.cons_append, gapLength_succ (gapPiece_space hc _), List.drop_zero, ih, List.length_cons]
    omega
  | @line body more hb _ ih =>
    have hpiece : gapPiece ('/' :: '/' :: (body ++ '\n' :: (more ++ rest))) = body.length + 1 + 1 := by
      rw [gapPiece, takeWhile_line hb]
      omega
    have hnewline : gapPiece ('\n' :: (more ++ rest)) = 0 + 1 := rfl
    have hdrop : ('/' :: (body ++ '\n' :: (more ++ rest))).drop (body.length + 1) =
        '\n' :: (more ++ rest) := by
      rw [List.drop_succ_cons, List.drop_left]
    simp only [List.cons_append, List.append_assoc]
    rw [gapLength_succ hpiece, hdrop, gapLength_succ hnewline, List.drop_zero, ih]
    simp only [List.length_cons, List.length_append]
    omega
  | @block body more hb _ ih =>
    have hpiece : gapPiece ('/' :: '*' :: (body ++ '*' :: '/' :: (more ++ rest))) =
        body.length + 3 + 1 := by
      simp only [gapPiece, commentTail_body hb]
      omega
    have hdrop : ('*' :: (body ++ '*' :: '/' :: (more ++ rest))).drop (body.length + 3) =
        more ++ rest := by
      rw [List.drop_succ_cons, List.drop_append, List.drop_of_length_le (Nat.le_add_right _ 2),
        Nat.add_sub_cancel_left]
      rfl
    simp only [List.cons_append, List.append_assoc]
    rw [gapLength_succ hpiece, hdrop, ih]
    simp only [List.length_cons, List.length_append]
    omega

/-- A filling in front of a source leaves the texts as they are. -/
theorem IsFilling.cut_append (h : IsFilling filling) (rest : List Char) :
    cut (filling ++ rest) = cut rest := by
  apply cut_congr
  rw [h.gapLength_append, List.drop_length_add_append]

/-- A token of a source is cut out of it as before, if what follows some way behind it is replaced by a
text that starts with a blank. -/
theorem cut_local {gap token front ys rest : List Char} {t : Terminal} (hr : AtBlank rest)
    (hgap : gapLength (gap ++ (token ++ front) ++ ys) = gap.length)
    (hlex : lexeme .any (token ++ front ++ ys) = some (t, token.length))
    (hc : ∀ more, token ++ front ≠ '/' :: '*' :: more) :
    cut (gap ++ (token ++ front) ++ rest) = (cut (front ++ rest)).map (String.ofList token :: ·) := by
  have hpos := lexeme_pos hlex
  have hzero : gapPiece (token ++ front ++ ys) = 0 := by
    have hpiece := gapPiece_drop_gapLength (gap ++ (token ++ front) ++ ys)
    rwa [hgap, List.append_assoc, List.drop_left] at hpiece
  have hne : token ++ front ≠ [] := by
    intro hnil
    rw [(List.append_eq_nil_iff.1 hnil).1] at hpos
    exact Nat.lt_irrefl 0 hpos
  have hlt : gap.length < (gap ++ (token ++ front)).length := by
    rw [List.length_append]
    exact Nat.lt_add_of_pos_right (List.length_pos_of_ne_nil hne)
  have hsame : gapLength (gap ++ (token ++ front) ++ rest) = gap.length := by
    rw [← hgap] at hlt
    rw [gapLength_local (fun h => absurd h (Nat.ne_of_lt hlt)) (Nat.le_of_lt hlt), hgap, List.drop_left,
      gapLength_token hr hzero hne hc, Nat.add_zero]
  have hbehind : (gap ++ (token ++ front) ++ rest).drop gap.length = token ++ (front ++ rest) := by
    rw [List.append_assoc, List.drop_left, List.append_assoc]
  have htoken : lexeme .any (token ++ (front ++ rest)) = some (t, token.length) := by
    rw [← List.append_assoc]
    refine lexeme_local hr hlex ?_
    rw [List.length_append]
    exact Nat.le_add_right _ _
  rw [cut_token (by rw [hsame, hbehind]; exact htoken), hsame, hbehind, List.drop_left, List.take_left]

end Lexer

/-! ## The tokens in front of a place -/

namespace Parser

open Reader Lexer

namespace Reading

variable {r goal : Reading} {filling : List Char}

/-- What is accepted is accepted from every point of its reading on. -/
theorem Reaches.cut_inserted (h : r.Reaches goal) {node : Node} (hok : r.result = .ok node)
    (hf : IsFilling filling) (hblank : ∀ rest, AtBlank (filling ++ rest)) :
    ∃ front, r.place.rest = front ++ goal.place.rest ∧
      cut (front ++ (filling ++ goal.place.rest)) = cut r.place.rest := by
  induction h with
  | refl r => exact ⟨[], rfl, hf.cut_append _⟩
  | @token r goal terminal n next hl hfeed hreach ih =>
    have hstep : (r.after terminal n next).result = .ok node :=
      (Reaches.token hl hfeed (.refl _)).result_eq.symm.trans hok
    obtain ⟨front, hrest, hcut⟩ := ih hstep
    have hhere : (skip r.place).rest = r.place.rest.drop (gapLength r.place.rest) :=
      Cursor.rest_advance _ _
    have hafter : (r.after terminal n next).place.rest = (skip r.place).rest.drop n :=
      Cursor.rest_advance _ _
    -- As the source is accepted, the token is one in every mode.
    obtain ⟨t, hany⟩ : ∃ t, lexeme .any (skip r.place).rest = some (t, n) := by
      rcases lexeme_any hl with hany | ⟨hsign, tail, htail⟩
      · exact hany
      · obtain ⟨hole, rfl⟩ := State.feed_sign hsign hfeed
        exact (readFrom_equals (hafter.trans htail) node hstep).elim
    obtain ⟨gap, hgap, hgaplen⟩ : ∃ gap, r.place.rest = gap ++ (skip r.place).rest ∧
        gapLength r.place.rest = gap.length := by
      refine ⟨r.place.rest.take (gapLength r.place.rest), ?_, ?_⟩
      · rw [hhere, List.take_append_drop]
      · rw [List.length_take_of_le (gapLength_le _)]
    obtain ⟨token, htoken, rfl⟩ : ∃ token, (skip r.place).rest = token ++ (front ++ goal.place.rest) ∧
        n = token.length := by
      refine ⟨(skip r.place).rest.take n, ?_, ?_⟩
      · rw [← hrest, hafter, List.take_append_drop]
      · rw [List.length_take_of_le (lexeme_le hl)]
    have hwhole : gap ++ (token ++ front) ++ goal.place.rest = r.place.rest := by
      rw [hgap, htoken, List.append_assoc, List.append_assoc]
    -- Behind a `/` in front of a `*` nothing is read, so that the place is directly behind it.
    have hslash : ∀ more, token ++ front ≠ '/' :: '*' :: more := by
      intro more heq
      rw [← List.append_assoc, heq] at htoken
      obtain ⟨hone, rfl, -⟩ := hreach.eq_of_slash_star hl hfeed htoken
      obtain rfl : front = [] := List.self_eq_append_left.1 hrest
      rw [List.append_nil] at heq
      rw [heq] at hone
      cases hone
    have hsource := cut_token (hhere ▸ hany)
    rw [← hhere, htoken, List.drop_left, List.take_left] at hsource
    rw [htoken, ← List.append_assoc] at hany
    have hlocal := cut_local (hblank goal.place.rest) (hwhole ▸ hgaplen) hany hslash
    refine ⟨gap ++ (token ++ front), hwhole.symm, ?_⟩
    rw [hlocal, hcut, hrest, hsource]

end Reading

namespace Reading

/-- The point behind the next token, if there is one that may stand there. -/
def next? (r : Reading) : Option Reading :=
  (lexeme r.state.mode (skip r.place).rest).bind fun token =>
    (r.state.feed (r.token token.1 token.2)).map (r.after token.1 token.2)

/-- The point behind some more tokens. -/
def ahead? : Nat → Reading → Option Reading
  | 0, r => some r
  | k + 1, r => r.next?.bind (ahead? k)

theorem reaches_ahead {k : Nat} {r goal : Reading} (h : ahead? k r = some goal) : r.Reaches goal := by
  induction k generalizing r with
  | zero => exact Option.some.inj h ▸ .refl r
  | succ k ih =>
    obtain ⟨after, hafter, hgoal⟩ := Option.bind_eq_some_iff.1 h
    obtain ⟨⟨terminal, n⟩, hl, hnext⟩ := Option.bind_eq_some_iff.1 hafter
    obtain ⟨next, hf, rfl⟩ := Option.map_eq_some_iff.1 hnext
    exact .token hl hf (ih hgoal)

end Reading

/-- A source parts in two at its start, or directly behind one of the tokens that are read from it. -/
def PartsAtToken (rule : Rule) (before after : String) : Prop :=
  ∃ r, (Reading.start rule (before ++ after).toList).Reaches r ∧ r.place.rest = after.toList

theorem PartsAtToken.of_ahead {rule : Rule} {before after : String} (k : Nat)
    (h : (Reading.ahead? k (.start rule (before ++ after).toList)).any (·.place.rest == after.toList)) :
    PartsAtToken rule before after := by
  obtain ⟨r, hr, hrest⟩ := (Option.any_eq_true _ _).1 h
  exact ⟨r, Reading.reaches_ahead hr, beq_iff_eq.1 hrest⟩

/-- **Layout is free.**  A text of blanks and closed comments that starts with a blank may be inserted into
an accepted source, at its start or directly behind any of its tokens: the changed source is accepted
too, as the same tree up to the locations and the source texts of functions. -/
theorem parse_inserted {rule : Rule} {before after : String} {node : Node}
    (h : parse rule (before ++ after) = .ok node) (hplace : PartsAtToken rule before after)
    {filling : String} (hf : IsFilling filling.toList)
    (hblank : ∃ c ∈ filling.toList.head?, isSpace c) :
    ∃ found, parse rule (before ++ filling ++ after) = .ok found ∧ found.bare = node.bare := by
  obtain ⟨r, hreaches, hafter⟩ := hplace
  have hfilling : ∀ rest, AtBlank (filling.toList ++ rest) := by
    obtain ⟨c, hhead, hc⟩ := hblank
    obtain ⟨tail, htail⟩ := List.head?_eq_some_iff.1 hhead
    rw [htail]
    rintro rest _ ⟨⟩
    exact hc
  obtain ⟨front, hfront, hcut⟩ := hreaches.cut_inserted h hf hfilling
  rw [hafter] at hfront hcut
  have hsource : (Reading.start rule (before ++ after).toList).place.rest = (before ++ after).toList := rfl
  rw [hsource, String.toList_append] at hfront
  obtain rfl := List.append_cancel_right hfront
  have htexts : cut (before ++ filling ++ after).toList = some node.texts := by
    rw [String.toList_append, String.toList_append, List.append_assoc, hcut]
    exact texts_of_parse h
  obtain ⟨found, hfound, hrendered⟩ := parse_of_cut (fits_of_parse h) htexts
  refine ⟨found, hfound, ?_⟩
  rw [← found.bare_rendered, hrendered, node.bare_rendered]

/-- A comment with a quote in it, and one that holds the opening mark of a comment, in the body of a
function behind a `/`. -/
theorem parse_inserted_comments :
    let filling := " /* \" // */\t// '/*\n"
    Lexer.IsFilling filling.toList ∧ ∃ node found,
      parse .script "function f()\x7ba/b;\x7d" = .ok node ∧
      parse .script ("function f()\x7ba/" ++ filling ++ "b;\x7d") = .ok found ∧
      found.bare = node.bare := by
  intro filling
  have hparts : PartsAtToken .script "function f()\x7ba/" "b;\x7d" :=
    PartsAtToken.of_ahead 7 (by decide +kernel)
  have hhead : ∃ c ∈ filling.toList.head?, isSpace c :=
    ⟨' ', by decide, rfl⟩
  have hfilling : IsFilling filling.toList := by
    have htext : filling.toList = ' ' :: '/' :: '*' :: ([' ', '"', ' ', '/', '/', ' '] ++ '*' :: '/' ::
        '\t' :: '/' :: '/' :: ([' ', '\'', '/', '*'] ++ ['\n'])) := by decide
    have hblank : isSpace ' ' := rfl
    have htab : isSpace '\t' := rfl
    rw [htext]
    exact .blank hblank (.block (by decide) (.blank htab (.line (by decide) .nil)))
  have hok : (parse .script ("function f()\x7ba/" ++ "b;\x7d")).isOk := by decide +kernel
  cases hparse : parse .script ("function f()\x7ba/" ++ "b;\x7d") with
  | error m => rw [hparse] at hok; exact nomatch hok
  | ok node =>
    obtain ⟨found, hfound⟩ := parse_inserted hparse hparts hfilling hhead
    exact ⟨hfilling, node, found, hparse, hfound⟩

end Parser

end Scriptlet
