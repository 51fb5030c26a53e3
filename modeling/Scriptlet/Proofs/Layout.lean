import Scriptlet.Proofs.ReadingCourse

/-!
# The layout of a source

A program is read from its tokens, whatever stands between them: every source that is cut into the
texts of a program is read as it (`parse_of_cut`).  Two facts carry this.  A text that is one
token is read as that token wherever the source is cut around it (`lexeme_of_cut`).  And whether a
token can follow depends on the outline of the reader's state alone, in which all places and parts
are left blank (`feed_outline`), so what is accepted with one blank between the tokens is accepted
with any other layout.  The tree is the same because the tokens allow no other one.
-/

namespace Scriptlet

set_option autoImplicit false

/-! ## Tokens of a source -/

namespace Lexer

variable {mode : Mode} {cs rest : List Char} {t : Terminal} {text : String} {texts : List String}

theorem takeWhile_of_length {p : Char → Bool}
    (h : ((cs ++ rest).takeWhile p).length = cs.length) : (cs ++ rest).takeWhile p = cs := by
  rw [List.prefix_iff_eq_take.1 (List.takeWhile_prefix (l := cs ++ rest) p), h, List.take_left]

/-- An operator or mark that is cut out of a source is an entry of the table. -/
theorem mem_symbols (h : symbol? (cs ++ rest) = some (t, cs.length)) : (cs, t) ∈ symbols := by
  obtain ⟨⟨mark, k⟩, hs, hpair⟩ := Option.map_eq_some_iff.1 h
  obtain ⟨rfl, hlength⟩ := Prod.mk.inj hpair
  have hfront : mark <+: cs ++ rest := by simpa using List.find?_some hs
  have hmark : mark = cs := by
    rw [List.prefix_iff_eq_take.1 hfront, hlength, List.take_left]
  rw [← hmark]
  exact List.mem_of_find?_eq_some hs

/-- It is the one that its text is by itself. -/
theorem symbol?_of_cut {t' : Terminal} (h : symbol? cs = some (t, cs.length))
    (hcut : symbol? (cs ++ rest) = some (t', cs.length)) : t' = t := by
  have hunique : ∀ s ∈ symbols, ∀ s' ∈ symbols, s.1 = s'.1 → s'.2 = s.2 := by decide
  have halone : symbol? (cs ++ []) = some (t, cs.length) := by rwa [List.append_nil]
  exact hunique _ (mem_symbols halone) _ (mem_symbols hcut) rfl

/-- A text that is one token is read as that token where the source is cut behind it. -/
theorem lexeme_of_cut {t' : Terminal} (h : lexeme mode cs = some (t, cs.length))
    (hcut : lexeme .any (cs ++ rest) = some (t', cs.length)) :
    lexeme mode (cs ++ rest) = some (t, cs.length) := by
  cases cs with
  | nil => cases h
  | cons c cs =>
    rw [lexeme] at h
    rw [List.cons_append, lexeme] at hcut ⊢
    split_ifs at h hcut ⊢ with hw hd hq
    · obtain ⟨rfl, hlen⟩ := Prod.mk.inj (Option.some.inj h)
      obtain ⟨-, hlen'⟩ := Prod.mk.inj (Option.some.inj hcut)
      have halone : cs.takeWhile isWordPart = cs :=
        (List.takeWhile_prefix _).eq_of_length (Nat.succ.inj hlen)
      rw [takeWhile_of_length (Nat.succ.inj hlen'), halone]
    · obtain ⟨rfl, -⟩ := Prod.mk.inj (Option.some.inj h)
      obtain ⟨-, hlen⟩ := Prod.mk.inj (Option.some.inj hcut)
      rw [hlen]
    · obtain ⟨m, hm, he⟩ := Option.map_eq_some_iff.1 h
      obtain ⟨rfl, -⟩ := Prod.mk.inj he
      obtain ⟨n, hn, he'⟩ := Option.map_eq_some_iff.1 hcut
      obtain ⟨-, hlen⟩ := Prod.mk.inj he'
      rw [hn, Option.map_some, hlen]
    · rw [Mode.symbol?_cons] at h hcut ⊢
      cases hs : mode.sign? c with
      | some k =>
        rw [hs] at h
        rw [← h]
        rfl
      | none =>
        rw [hs] at h
        have hlong : symbol? (c :: cs ++ rest) = some (t', (c :: cs).length) := hcut
        have hone := symbol?_of_cut h hlong
        rw [← hone]
        exact hcut

/-- A source of no tokens is a gap. -/
theorem cut_eq_nil (h : cut cs = some []) : cs.drop (gapLength cs) = [] := by
  rw [cut] at h
  split at h
  · assumption
  · split at h
    · cases h
    · obtain ⟨_, _, hnil⟩ := Option.map_eq_some_iff.1 h
      cases hnil

/-- A source of some tokens starts with the first one, behind a gap. -/
theorem cut_eq_cons (h : cut cs = some (text :: texts)) :
    ∃ t rest, cs.drop (gapLength cs) = text.toList ++ rest ∧
      lexeme .any (text.toList ++ rest) = some (t, text.toList.length) ∧ cut rest = some texts := by
  rw [cut] at h
  split at h
  · cases h
  · split at h
    · cases h
    · next t n hl =>
      obtain ⟨more, hmore, hcons⟩ := Option.map_eq_some_iff.1 h
      obtain ⟨rfl, rfl⟩ := List.cons.inj hcons
      refine ⟨t, (cs.drop (gapLength cs)).drop n, ?_, ?_, hmore⟩
      · rw [String.toList_ofList, List.take_append_drop]
      · rw [String.toList_ofList, List.take_append_drop, List.length_take_of_le (lexeme_le hl)]
        exact hl

end Lexer

namespace Reader

/-! ## Outlines of states -/

/-- A token of which nothing is known. -/
def blankToken : Token := ⟨.ident, "", .start [], 0⟩

/-- A node of which nothing is known. -/
def Part.blank : Part := .build .bare (.start []) 0

/-- Whether operators wait on each level. -/
def Pending.outline (p : Pending) : Pending where
  comparison := p.comparison.map fun _ => ⟨.blank, [], ""⟩
  sum := p.sum.map fun _ => ⟨.blank, [], ""⟩
  product := p.product.map fun _ => ⟨.blank, [], ""⟩
  unary := p.unary.map fun _ => blankToken

/-- The kinds of the open lists. -/
def Place.outline : Place → Place
  | script _ => script []
  | block _ _ outer => block blankToken [] outer.outline
  | body _ _ _ outer => body ⟨blankToken, blankToken, []⟩ blankToken [] outer.outline

mutual

/-- What is open around an expression. -/
def Context.outline : Context → Context
  | .whole => .whole
  | .statement place => .statement place.outline
  | .initial _ _ _ place => .initial blankToken blankToken true place.outline
  | .ret _ place => .ret blankToken place.outline
  | .group _ outer => .group blankToken outer.outline
  | .arg _ done outer => .arg .blank (done.map fun _ => .blank) outer.outline
  | .thenBranch _ outer => .thenBranch .blank outer.outline
  | .elseBranch _ _ outer => .elseBranch .blank .blank outer.outline
  | .value _ _ outer => .value .blank "" outer.outline

/-- What is open around an operand. -/
def Hole.outline : Hole → Hole
  | ⟨pending, context⟩ => ⟨pending.outline, context.outline⟩

end

/-- What decides which tokens may follow. -/
def State.outline : State → State
  | statement place => statement place.outline
  | operand hole => operand hole.outline
  | after _ hole => after .blank hole.outline
  | path _ _ hole => path blankToken [] hole.outline
  | dot _ _ hole => dot blankToken [] hole.outline
  | functionName _ place => functionName blankToken place.outline
  | functionParen _ _ place => functionParen blankToken blankToken place.outline
  | firstParam _ _ place => firstParam blankToken blankToken place.outline
  | afterParam _ place => afterParam ⟨blankToken, blankToken, []⟩ place.outline
  | nextParam _ place => nextParam ⟨blankToken, blankToken, []⟩ place.outline
  | functionBrace _ place => functionBrace ⟨blankToken, blankToken, []⟩ place.outline
  | declaredName _ _ place => declaredName blankToken true place.outline
  | declaredEqual _ _ _ place => declaredEqual blankToken blankToken true place.outline

theorem Pending.outline_outline (p : Pending) : p.outline.outline = p.outline := by
  obtain ⟨comparison, sum, product, unary⟩ := p
  simp [outline, Function.comp_def]

theorem Pending.isEmpty_outline (p : Pending) : p.outline.isEmpty = p.isEmpty := by
  obtain ⟨comparison, sum, product, unary⟩ := p
  cases comparison <;> cases sum <;> cases product <;> cases unary <;> rfl

theorem Place.outline_outline (place : Place) : place.outline.outline = place.outline := by
  induction place with
  | script done => rfl
  | block lbrace done outer ih => rw [outline, outline, ih]
  | body header lbrace done outer ih => rw [outline, outline, ih]

theorem Place.outline_push (part : Part) (place : Place) : (place.push part).outline = place.outline := by
  cases place <;> rfl

mutual

theorem Context.outline_outline : (context : Context) → context.outline.outline = context.outline
  | .whole => rfl
  | .statement place | .initial _ _ _ place | .ret _ place => by
    simp only [Context.outline, place.outline_outline]
  | .group _ outer => by simp only [Context.outline, outer.outline_outline]
  | .arg _ done outer => by
    simp only [Context.outline, outer.outline_outline, List.map_map, Function.comp_def]
  | .thenBranch _ outer | .elseBranch _ _ outer | .value _ _ outer => by
    simp only [Context.outline, outer.outline_outline]

theorem Hole.outline_outline : (hole : Hole) → hole.outline.outline = hole.outline
  | ⟨pending, context⟩ => by
    simp only [Hole.outline, pending.outline_outline, context.outline_outline]

end

/-- What an expression is the last part of shows in the outline. -/
theorem Context.settle_outline (e e' : Part) (context : Context) :
    (context.outline.settle e').2 = (context.settle e).2.outline := by
  fun_induction Context.settle e context generalizing e' with
  | case1 e target op outer ih => exact ih _
  | case2 e condition yes outer ih => exact ih _
  | case3 e context hvalue helse =>
    cases context with
    | value target op outer => exact (hvalue target op outer rfl).elim
    | elseBranch condition yes outer => exact (helse condition yes outer rfl).elim
    | _ => rfl

namespace State

variable {t t' : Token}

theorem closeWith_outline (ht : t'.terminal = t.terminal) (e e' : Part) (context : Context) :
    (closeWith t' e' context.outline).map outline = (closeWith t e context).map outline := by
  unfold closeWith
  rw [ht]
  generalize t.terminal = kind
  cases context with
  | whole | value | elseBranch => rfl
  | statement place | initial keyword name isMutable place | ret keyword place =>
    cases kind with
    | semicolon => simp [outline, Context.outline, Place.outline_push, Place.outline_outline]
    | _ => rfl
  | group lpar outer =>
    cases kind with
    | rpar => simp [outline, Context.outline, Hole.outline_outline]
    | _ => rfl
  | arg callee done outer =>
    cases kind with
    | rpar => simp [outline, Context.outline, Hole.outline_outline]
    | comma => simp [outline, Context.outline, Context.hole, Hole.outline, Hole.outline_outline]
    | _ => rfl
  | thenBranch condition outer =>
    cases kind with
    | colon => simp [outline, Context.outline, Context.hole, Hole.outline, Context.outline_outline]
    | _ => rfl

theorem closeEmpty_outline (ht : t'.terminal = t.terminal) (hole : Hole) :
    (closeEmpty t' hole.outline).map outline = (closeEmpty t hole).map outline := by
  obtain ⟨pending, context⟩ := hole
  simp only [closeEmpty, Hole.outline, Pending.isEmpty_outline, ht]
  generalize t.terminal = kind
  split
  · cases context with
    | arg callee done outer =>
      cases done with
      | nil =>
        cases kind with
        | rpar => simp [outline, Context.outline, Hole.outline_outline]
        | _ => rfl
      | cons e done => rfl
    | ret keyword place =>
      cases kind with
      | semicolon => simp [outline, Context.outline, Place.outline_push, Place.outline_outline]
      | _ => rfl
    | _ => rfl
  · rfl

theorem binary_outline (ht : t'.terminal = t.terminal) (p : Pending) (e e' : Part) :
    (p.outline.binary? e' t').map Pending.outline = (p.binary? e t).map Pending.outline := by
  obtain ⟨comparison, sum, product, unary⟩ := p
  simp only [Pending.binary?, ht]
  generalize t.terminal = kind
  cases kind with
  | star | slash | percent | plus | minus | equalEqual | identical | bangEqual | notIdentical | less
  | more | lessEqual | moreEqual => simp [Pending.outline, Function.comp_def]
  | _ => rfl

/-- After an operand, a token that is no assignment operator and no question mark. -/
def feedOn (e : Part) (hole : Hole) (t : Token) : Option State :=
  match hole.pending.binary? e t with
  | some pending => some (.operand ⟨pending, hole.context⟩)
  | none =>
    let settled := hole.context.settle (hole.pending.toComparison e)
    closeWith t settled.1 settled.2

theorem feedOn_outline (ht : t'.terminal = t.terminal) (e e' : Part) (hole : Hole) :
    (feedOn e' hole.outline t').map outline = (feedOn e hole t).map outline := by
  obtain ⟨pending, context⟩ := hole
  have hbinary := binary_outline ht pending e e'
  simp only [feedOn, Hole.outline]
  cases hb : pending.binary? e t with
  | none =>
    rw [hb, Option.map_none, Option.map_eq_none_iff] at hbinary
    rw [hbinary]
    dsimp only
    rw [Context.settle_outline (pending.toComparison e)]
    exact closeWith_outline ht _ _ _
  | some p =>
    rw [hb] at hbinary
    obtain ⟨p', hp', heq⟩ := Option.map_eq_some_iff.1 hbinary
    rw [hp']
    simp only [Option.map_some, outline, Hole.outline, heq, Context.outline_outline]

theorem feedAfter_outline (ht : t'.terminal = t.terminal) (e e' : Part) (hole : Hole) :
    (feedAfter e' hole.outline t').map outline = (feedAfter e hole t).map outline := by
  have hother := feedOn_outline ht e e' hole
  obtain ⟨pending, context⟩ := hole
  simp only [feedAfter, Hole.outline, Pending.isEmpty_outline, ht]
  generalize t.terminal = kind
  cases kind with
  | equal | plusEqual | minusEqual | starEqual | slashEqual =>
    dsimp only
    split
    · simp only [Option.map_some, outline, Context.hole, Hole.outline, Context.outline,
        Context.outline_outline]
    · rfl
  | qmark =>
    simp only [Option.map_some, outline, Context.hole, Hole.outline, Context.outline,
      Context.outline_outline]
  | _ => exact hother

theorem feedOperand_outline (ht : t'.terminal = t.terminal) (hole : Hole) :
    (feedOperand hole.outline t').map outline = (feedOperand hole t).map outline := by
  have hempty := closeEmpty_outline ht hole
  rw [feedOperand, feedOperand, ht]
  generalize t.terminal = kind
  cases kind with
  | minus | bang =>
    obtain ⟨pending, context⟩ := hole
    simp [outline, Hole.outline, Pending.outline, Context.outline_outline, Function.comp_def]
  | number | string | trueWord | falseWord | nullWord | ident =>
    simp only [Option.map_some, outline, Hole.outline_outline]
  | lpar =>
    simp only [Option.map_some, outline, Context.hole, Hole.outline, Context.outline,
      Hole.outline_outline]
  | _ => exact hempty

theorem close_outline (t t' : Token) (place : Place) :
    (place.outline.close? t').map Place.outline = (place.close? t).map Place.outline := by
  cases place with
  | script done => rfl
  | block lbrace done outer | body header lbrace done outer =>
    simp only [Place.outline, Place.close?, Option.map_some, Place.outline_push, Place.outline_outline]

/-- **The step.**  Whether a token may follow, and the outline that it leads to, depend on the outline
of the state and on the terminal alone. -/
theorem feed_outline (ht : t'.terminal = t.terminal) (s : State) :
    (s.outline.feed t').map outline = (s.feed t).map outline := by
  cases s with
  | operand hole => exact feedOperand_outline ht hole
  | after e hole => exact feedAfter_outline ht e _ hole
  | statement place =>
    have hoperand := feedOperand_outline ht (Context.statement place).hole
    have hclose := congrArg (Option.map statement) (close_outline t t' place)
    dsimp only [outline, feed]
    rw [ht]
    generalize t.terminal = kind
    cases kind with
    | rbrace =>
      rw [Option.map_map, Option.map_map] at hclose ⊢
      exact hclose
    | lbrace | functionWord | letWord | constWord | returnWord =>
      simp only [Option.map_some, outline, Context.hole, Hole.outline, Context.outline, Place.outline,
        Place.outline_outline]
    | _ => exact hoperand
  | path first rest hole =>
    have hafter := feedAfter_outline ht (.path first rest) (.path blankToken []) hole
    dsimp only [outline, feed]
    rw [ht]
    generalize t.terminal = kind
    cases kind with
    | dot => simp only [Option.map_some, outline, Hole.outline_outline]
    | lpar =>
      simp only [Option.map_some, outline, Context.hole, Hole.outline, Context.outline,
        Hole.outline_outline, List.map_nil]
    | _ => exact hafter
  | dot first rest hole =>
    dsimp only [outline, feed]
    rw [ht]
    cases t.terminal with
    | ident => simp only [Option.map_some, outline, Hole.outline_outline]
    | _ => rfl
  | declaredEqual keyword name isMutable place =>
    dsimp only [outline, feed]
    rw [ht]
    cases t.terminal with
    | equal =>
      simp only [Option.map_some, outline, Context.hole, Hole.outline, Context.outline,
        Place.outline_outline]
    | _ => rfl
  | functionName keyword place | functionParen keyword name place | firstParam keyword name place
  | afterParam header place | nextParam header place | functionBrace header place
  | declaredName keyword isMutable place =>
    dsimp only [outline, feed]
    rw [ht]
    cases t.terminal with
    | ident | lpar | rpar | comma | lbrace =>
      simp only [Option.map_some, Option.map_none, outline, Place.outline, Place.outline_outline]
    | _ => rfl

theorem mode_outline (s : State) : s.outline.mode = s.mode := by
  cases s <;> rfl

theorem finishAfter_outline (e e' : Part) (hole : Hole) :
    (finishAfter e' hole.outline).isSome = (finishAfter e hole).isSome := by
  obtain ⟨pending, context⟩ := hole
  have hsettle := Context.settle_outline (pending.toComparison e) (pending.outline.toComparison e') context
  simp only [finishAfter, Hole.outline]
  rw [hsettle]
  cases (context.settle (pending.toComparison e)).2 <;> rfl

/-- Whether a program may end depends on the outline. -/
theorem finish_outline (s : State) : s.outline.finish.isSome = s.finish.isSome := by
  cases s with
  | statement place => cases place <;> rfl
  | after e hole => exact finishAfter_outline e _ hole
  | path first rest hole => exact finishAfter_outline _ _ hole
  | _ => rfl

variable {s s' next : State}

/-- States of one outline take a token alike. -/
theorem feed_alike (t' : Token) (hs : s'.outline = s.outline) (h : s.feed t = some next)
    (ht : t'.terminal = t.terminal) : ∃ next', s'.feed t' = some next' ∧ next'.outline = next.outline := by
  have hmap : (s'.feed t').map outline = (s.feed t).map outline := by
    rw [← feed_outline ht.symm s', hs, feed_outline rfl]
  rw [h] at hmap
  exact Option.map_eq_some_iff.1 hmap

end State

end Reader

/-! ## Texts -/

namespace Parser

open Reader Lexer

variable {s s' last : State} {place : Cursor} {texts : List String}

/-- **The run.**  Texts that are read with one blank between them are read from every source that is
cut into them. -/
theorem readFrom_of_cut (h : Reads s place texts last) (hf : last.finish.isSome)
    (hs : s'.outline = s.outline) {before : Option Token} {here : Cursor}
    (hc : cut here.rest = some texts) : ∃ node, readFrom s' before here = .ok node := by
  induction h generalizing s' before here with
  | nil =>
    have hend : (skip here).rest = [] := by
      rw [skip, Cursor.rest_advance]
      exact cut_eq_nil hc
    rw [← State.finish_outline, ← hs, State.finish_outline] at hf
    obtain ⟨node, hnode⟩ := Option.isSome_iff_exists.1 hf
    exact ⟨node, Reading.result_done (r := ⟨s', before, here⟩) hend hnode⟩
  | @cons s next last place t text texts hl hfeed _ ih =>
    obtain ⟨t', rest, hrest, hany, hmore⟩ := cut_eq_cons hc
    have hhere : (skip here).rest = text.toList ++ rest := (Cursor.rest_advance _ _).trans hrest
    have hmode : s'.mode = s.mode := by
      rw [← State.mode_outline, hs, State.mode_outline]
    have hlex : lexeme s'.mode (skip here).rest = some (t, text.toList.length) := by
      rw [← String.length_toList] at hl
      rw [hmode, hhere]
      exact lexeme_of_cut hl hany
    let token := tokenAt (skip here) t text.toList.length
    obtain ⟨next', hfeed', hnext⟩ := State.feed_alike token hs hfeed rfl
    have hcut : cut ((skip here).advance text.toList.length).rest = some texts := by
      rw [Cursor.rest_advance, hhere, List.drop_left]
      exact hmore
    obtain ⟨node, hnode⟩ : ∃ node, readFrom next' (some token) ((skip here).advance _) = .ok node :=
      ih hf hnext hcut
    have hstep : (⟨s', before, here⟩ : Reading).Reaches _ := .token hlex hfeed' (.refl _)
    exact ⟨node, hstep.result_eq.trans hnode⟩

/-- A program is read from its texts, with one blank between them. -/
theorem exists_reads {rule : Rule} {node : Node} (h : node.Fits rule) : ∃ s read,
    Reads (State.initial rule) (.start (" ".intercalate node.texts).toList) node.texts s ∧
      s.finish = some read ∧ read.unplaced = node.rendered := by
  cases rule with
  | expression =>
    obtain ⟨s, e, hreads, hgoes, he⟩ := Reader.Node.isRead node h Context.whole.hole _ (.empty _)
    exact ⟨s, e.node, hreads, hgoes.finish, he⟩
  | script =>
    obtain ⟨loc, form⟩ := node
    obtain ⟨statements, hform, hstatements⟩ := h
    dsimp only at hform
    subst hform
    obtain ⟨parts, hreads, hparts⟩ := reads_statements
      (Reader.Node.areReadStatements statements hstatements) (.script [])
      (.start (" ".intercalate (Node.allTexts statements)).toList) []
      (by rw [List.append_nil]; rfl)
    rw [Place.pushAll_open .script fun _ _ => rfl, List.nil_append] at hreads
    refine ⟨.statement (.script parts), State.scriptNode parts, hreads, rfl, ?_⟩
    have hscript := State.scriptNode_form parts
    generalize State.scriptNode parts = found at hscript ⊢
    obtain ⟨place, form⟩ := found
    dsimp only at hscript
    subst hscript
    exact congrArg (fun nodes => Node.mk none (.script nodes)) hparts

/-- **Programs are read whatever their layout.**  A source that is cut into the texts of a program is
read as this program, up to its locations and the sources of its functions. -/
theorem parse_of_cut {rule : Rule} {node : Node} (h : node.Fits rule) {source : String}
    (hc : cut source.toList = some node.texts) :
    ∃ found, parse rule source = .ok found ∧ found.rendered = node.rendered := by
  obtain ⟨s, read, hreads, hfinish, hread⟩ := exists_reads h
  obtain ⟨found, hfound⟩ : ∃ found, parse rule source = .ok found :=
    readFrom_of_cut hreads (by rw [hfinish]; rfl) rfl hc
  refine ⟨found, hfound, ?_⟩
  -- Both trees are what the parser makes of their common texts with one blank between them.
  obtain ⟨s', read', hreads', hfinish', hread'⟩ := exists_reads (fits_of_parse hfound)
  have hsame : found.texts = node.texts := Option.some.inj ((texts_of_parse hfound).symm.trans hc)
  rw [hsame] at hreads'
  have hone := (parse_reads hreads hfinish).symm.trans (parse_reads hreads' hfinish')
  rw [← hread, ← hread', Except.ok.inj hone]

/-- An expression is read from every source that is cut into its texts. -/
theorem parse_layout {node : Node} (h : node.IsExpression) {source : String}
    (hc : cut source.toList = some node.texts) :
    ∃ found, parse .expression source = .ok found ∧ found.rendered = node.rendered :=
  parse_of_cut (show node.Fits .expression from h) hc

end Parser

end Scriptlet
