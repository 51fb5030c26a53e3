import Scriptlet.Proofs.ExpressionReading
import Scriptlet.Proofs.Locality

/-!
# The parser is complete

Every program of the grammar is read back from its tokens with one blank between them, up to its
locations.  Statements are read by induction over the tree.  The source of a function is cut out of
the text between its braces, so there the places of the tokens are followed as well.
-/

namespace Scriptlet

set_option autoImplicit false

/-! ## Places in a text -/

namespace Cursor

theorem advance_add (m n : Nat) (place : Cursor) :
    place.advance (m + n) = (place.advance m).advance n := by
  induction m generalizing place with
  | zero => rw [Nat.zero_add]; rfl
  | succ m ih =>
    obtain ⟨o, l, k, _ | ⟨c, rest⟩⟩ := place
    · rw [Nat.succ_add]
      cases n with
      | zero => rfl
      | succ n => rfl
    · rw [Nat.succ_add, advance, advance]
      split
      · exact ih _
      · exact ih _

theorem offset_advance {n : Nat} {place : Cursor} (h : n ≤ place.rest.length) :
    (place.advance n).offset = place.offset + n := by
  induction n generalizing place with
  | zero => rfl
  | succ n ih =>
    obtain ⟨o, l, k, _ | ⟨c, rest⟩⟩ := place
    · exact absurd h (Nat.not_succ_le_zero n)
    · have hn : n ≤ rest.length := Nat.le_of_succ_le_succ h
      rw [advance]
      split
      · exact (ih hn).trans (Nat.succ_add o n)
      · exact (ih hn).trans (Nat.succ_add o n)

/-- What is left to read are texts with one blank between them. -/
def Holds (place : Cursor) (texts : List String) : Prop :=
  place.rest = (" ".intercalate texts).toList

theorem Holds.advance {place : Cursor} {text : String} {texts : List String}
    (h : place.Holds (text :: texts)) : (place.advance (text.length + 1)).Holds texts := by
  rw [Holds] at h ⊢
  rw [rest_advance, h, ← String.length_toList]
  cases texts with
  | nil => simp
  | cons next texts =>
    rw [String.intercalate_cons_cons, String.append_assoc, String.toList_append,
      String.toList_append, ← List.drop_drop, List.drop_left]
    rfl

theorem Holds.after {place : Cursor} (xs : List String) {ys : List String}
    (h : place.Holds (xs ++ ys)) :
    (place.after xs).Holds ys := by
  induction xs generalizing place with
  | nil => exact h
  | cons x xs ih => exact ih h.advance

/-- The end of a text that stands behind others. -/
theorem Holds.offset_after {place : Cursor} {xs ys : List String} {y : String}
    (h : place.Holds (xs ++ y :: ys)) :
    (place.after xs).offset + y.length = place.offset + (" ".intercalate (xs ++ [y])).length := by
  induction xs generalizing place with
  | nil => rw [List.nil_append, String.intercalate_singleton]; rfl
  | cons x xs ih =>
    have hlength : (" ".intercalate (x :: (xs ++ y :: ys))).length =
        x.length + 1 + (" ".intercalate (xs ++ y :: ys)).length := by
      rw [String.intercalate_cons_of_ne_nil (by simp), String.length_append, String.length_append]
      rfl
    have hlong : x.length + 1 ≤ place.rest.length := by
      rw [h, String.length_toList, List.cons_append, hlength]
      exact Nat.le_add_right _ _
    have hrest := ih h.advance
    rw [offset_advance hlong] at hrest
    rw [List.cons_append, String.intercalate_cons_of_ne_nil (by simp), String.length_append,
      String.length_append]
    exact hrest.trans (Nat.add_assoc _ _ _)

/-- The text from a place up to the end of some of the texts there. -/
theorem Holds.locate {place : Cursor} {xs ys : List String} (h : place.Holds (xs ++ ys))
    (hne : xs ≠ []) :
    (place.locate (place.offset + (" ".intercalate xs).length)).text = some (" ".intercalate xs) := by
  have htake : place.rest.take (" ".intercalate xs).length = (" ".intercalate xs).toList := by
    rw [h, ← String.length_toList]
    by_cases hys : ys = []
    · rw [hys, List.append_nil, List.take_length]
    · rw [String.intercalate_append_of_ne_nil hne hys, String.append_assoc, String.toList_append,
        List.take_left]
  rw [Cursor.locate, Nat.add_sub_cancel_left, htake, String.ofList_toList]

end Cursor

namespace Lexer

theorem reservedWord_eq {word : List Char} (h : String.ofList word ∉ openingWords) :
    reservedWord word = literalWord word := by
  have hne : ∀ text ∈ openingWords, word ≠ text.toList := by
    rintro text hmem rfl
    rw [String.ofList_toList] at h
    exact h hmem
  unfold reservedWord
  rw [if_neg (hne "function" (by decide)), if_neg (hne "let" (by decide)),
    if_neg (hne "const" (by decide)), if_neg (hne "return" (by decide))]

theorem Mode.sign?_statement (c : Char) : Mode.statement.sign? c = Mode.operand.sign? c := by
  by_cases hm : c = '-'
  · rw [hm]; rfl
  · by_cases hb : c = '!'
    · rw [hb]; rfl
    · simp [Mode.sign?, hm, hb]

/-- At the start of a statement only the words that open one are read in another way. -/
theorem lexeme_statement {cs : List Char} {t : Terminal} {n : Nat}
    (h : lexeme .operand cs = some (t, n)) (hne : String.ofList (cs.take n) ∉ openingWords) :
    lexeme .statement cs = some (t, n) := by
  cases cs with
  | nil => exact nomatch h
  | cons c rest =>
    rw [lexeme] at h ⊢
    by_cases hw : isWordStart c
    · rw [if_pos hw] at h ⊢
      obtain ⟨rfl, rfl⟩ := Prod.mk.inj (Option.some.inj h)
      rw [List.length_cons, List.take_succ_cons,
        ← List.prefix_iff_eq_take.1 (List.takeWhile_prefix isWordPart)] at hne
      exact congrArg (fun k => some (k, _)) (reservedWord_eq hne)
    · rw [if_neg hw] at h ⊢
      rw [Mode.symbol?_cons] at h ⊢
      rwa [Mode.sign?_statement]

end Lexer

namespace Reader

/-! ## Statements -/

/-- A statement that starts like no other one is read as an expression. -/
theorem Reads.statement {list : Place} {place : Cursor} {texts : List String} {s : State}
    (h : Reads (.operand (Context.statement list).hole) place texts s) (hne : texts ≠ [])
    (ho : OpensExpression texts) : Reads (.statement list) place texts s := by
  cases h with
  | nil => exact (hne rfl).elim
  | @cons _ next _ _ t text rest hl hf h =>
    have hword : String.ofList (text.toList.take text.toList.length) ∉ openingWords := by
      rw [List.take_length, String.ofList_toList]
      exact ho text rfl
    rw [← String.length_toList] at hl
    refine .cons (t := t) ?_ ?_ h
    · rw [← String.length_toList]
      exact Lexer.lexeme_statement hl hword
    · change State.feedOperand _ _ = some next at hf
      rw [State.feed]
      dsimp only
      split
      case h_7 => exact hf
      all_goals cases hf

/-- A node is read as one statement of a list. -/
def IsReadStatement (node : Node) : Prop :=
  ∀ (list : Place) (place : Cursor) (more : List String), place.Holds (node.texts ++ more) →
    ∃ part, Reads (.statement list) place node.texts (.statement (list.push part)) ∧
      part.node.unplaced = node.rendered

/-- A list with more statements. -/
def Place.pushAll (list : Place) (parts : List Part) : Place :=
  parts.foldl (fun list part => list.push part) list

/-- An open list gets the statements after those that it has, whatever kind of list it is. -/
theorem Place.pushAll_open (opened : List Part → Place)
    (h : ∀ done part, (opened done).push part = opened (done ++ [part])) (done parts : List Part) :
    (opened done).pushAll parts = opened (done ++ parts) := by
  induction parts generalizing done with
  | nil => rw [List.append_nil]; rfl
  | cons part parts ih =>
    rw [List.append_cons, ← ih, ← h]
    rfl

/-- Statements are read one after the other. -/
theorem reads_statements {nodes : List Node} (h : ∀ node ∈ nodes, IsReadStatement node)
    (list : Place) (place : Cursor) (more : List String)
    (hp : place.Holds (Node.allTexts nodes ++ more)) :
    ∃ parts, Reads (.statement list) place (Node.allTexts nodes) (.statement (list.pushAll parts)) ∧
      Node.strippedAll (fun _ source => source) (parts.map (·.node)) =
        Node.strippedAll (fun body _ => body.render) nodes := by
  induction nodes generalizing list place with
  | nil => exact ⟨[], .nil, rfl⟩
  | cons node nodes ih =>
    rw [Node.allTexts, List.append_assoc] at hp
    obtain ⟨part, hreads, hpart⟩ := h node List.mem_cons_self list place _ hp
    obtain ⟨parts, hrest, hparts⟩ := ih (fun n hn => h n (List.mem_cons_of_mem _ hn))
      (list.push part) (place.after node.texts) (hp.after _)
    refine ⟨part :: parts, hreads.append hrest, ?_⟩
    rw [List.map_cons, Node.strippedAll, Node.strippedAll, hparts]
    exact congrArg (· :: _) hpart

namespace IsReadStatement

variable {loc : Option Location}

theorem expression {expr : Node} (h : expr.IsExpression) (ho : OpensExpression expr.texts) :
    IsReadStatement ⟨loc, .expression expr⟩ := by
  intro list place _ _
  obtain ⟨s, e, hreads, hgoes, he⟩ := Node.isRead expr h (Context.statement list).hole place (.empty _)
  have hne : expr.texts ≠ [] := by
    intro hnil
    rw [hnil] at hreads
    cases hreads
    exact nomatch hgoes.mode
  have hend := hgoes.reads (hreads.statement hne ho) .semicolon ";" rfl (Level.le_expression _) nofun
    nofun rfl
  exact ⟨_, hend, congrArg (fun n => Node.mk none (.expression n)) he⟩

theorem declaration {name : String} {value : Node} (isMutable : Bool) (hname : IsWord name.toList)
    (h : value.IsExpression) : IsReadStatement ⟨loc, .declaration name value isMutable⟩ := by
  intro list place _ _
  have hkeyword : ∃ keyword, Reads (.statement list) place [if isMutable then "let" else "const"]
      (.declaredName keyword isMutable list) := by
    cases isMutable with
    | true => exact ⟨_, .cons (t := .letWord) rfl rfl .nil⟩
    | false => exact ⟨_, .cons (t := .constWord) rfl rfl .nil⟩
  obtain ⟨keyword, hkeyword⟩ := hkeyword
  have hequal := (hkeyword.concat .ident name (Lexer.lexeme_name hname) rfl).concat .equal "=" rfl rfl
  obtain ⟨s, e, hreads, hgoes, he⟩ := Node.isRead value h (Context.initial keyword _ isMutable list).hole
    _ (.empty _)
  have hend := hgoes.reads (hequal.append hreads) .semicolon ";" rfl (Level.le_expression _) nofun
    nofun rfl
  exact ⟨_, hend, congrArg (fun n => Node.mk none (.declaration name n isMutable)) he⟩

theorem ret {expr : Option Node} (h : ∀ e ∈ expr, e.IsExpression) :
    IsReadStatement ⟨loc, .ret expr⟩ := by
  intro list place _ _
  cases expr with
  | none =>
    have hall : Reads (.statement list) place ["return", ";"] _ :=
      .cons (t := .returnWord) rfl rfl (.cons (t := .semicolon) rfl rfl .nil)
    exact ⟨_, hall, rfl⟩
  | some expr =>
    obtain ⟨s, e, hreads, hgoes, he⟩ := Node.isRead expr (h expr rfl)
      (Context.ret ⟨.returnWord, "return", place, place.offset + 6⟩ list).hole (place.after ["return"])
      (.empty _)
    have hopened : Reads (.statement list) place ("return" :: expr.texts) s := .cons rfl rfl hreads
    have hend := hgoes.reads hopened .semicolon ";" rfl (Level.le_expression _) nofun nofun rfl
    exact ⟨_, hend, congrArg (fun n => Node.mk none (.ret (some n))) he⟩

/-- What stands behind an opening brace. -/
theorem holds_braced {place : Cursor} {statements : List Node} {more : List String}
    (hp : place.Holds (("\x7b" :: Node.allTexts statements ++ ["\x7d"]) ++ more)) :
    (place.after ["\x7b"]).Holds (Node.allTexts statements ++ "\x7d" :: more) := by
  rw [List.append_assoc] at hp
  exact hp.after ["\x7b"]

theorem block {statements : List Node} (h : ∀ node ∈ statements, IsReadStatement node) :
    IsReadStatement ⟨loc, .block statements⟩ := by
  intro list place more hp
  have hlbrace : Reads (.statement list) place ["\x7b"] _ := .cons (t := .lbrace) rfl rfl .nil
  obtain ⟨parts, hreads, hparts⟩ := reads_statements h _ _ _ (holds_braced hp)
  rw [Place.pushAll_open (.block _ · list) fun _ _ => rfl] at hreads
  have hrbrace := (hlbrace.append hreads).concat .rbrace "\x7d" rfl rfl
  exact ⟨_, hrbrace, congrArg (fun ns => Node.mk none (.block ns)) hparts⟩

/-- Parameters are read up to the last one. -/
theorem params {names : List String} (h : ∀ name ∈ names, IsWord name.toList) (header : Header)
    (list : Place) (place : Cursor) :
    ∃ tokens, Reads (.afterParam header list) place (names.flatMap fun name => [",", name])
        (.afterParam { header with params := header.params ++ tokens } list) ∧
      tokens.map (·.text) = names := by
  induction names generalizing header place with
  | nil => exact ⟨[], by rw [List.append_nil]; exact .nil, rfl⟩
  | cons name names ih =>
    obtain ⟨tokens, hreads, htokens⟩ := ih (fun n hn => h n (List.mem_cons_of_mem _ hn))
      { header with params := header.params ++ [nameToken name (place.after [","])] }
      (place.after [",", name])
    refine ⟨nameToken name (place.after [","]) :: tokens, ?_, by rw [List.map_cons, htokens]; rfl⟩
    rw [List.append_cons]
    exact .cons (t := .comma) rfl rfl
      (.cons (Lexer.lexeme_name (h name List.mem_cons_self)) rfl hreads)

theorem intersperse_cons (name : String) (names : List String) :
    (name :: names).intersperse "," = name :: names.flatMap fun name => [",", name] := by
  induction names generalizing name with
  | nil => rfl
  | cons next names ih => rw [List.intersperse_cons_cons, ih]; rfl

/-- The head of a function is read up to its closing parenthesis. -/
theorem functionHead {name : String} {names : List String} (hname : IsWord name.toList)
    (h : ∀ p ∈ names, IsWord p.toList) (list : Place) (place : Cursor) :
    ∃ header, Reads (.statement list) place
        ("function" :: name :: "(" :: names.intersperse "," ++ [")"]) (.functionBrace header list) ∧
      header.name.text = name ∧ header.params.map (·.text) = names := by
  have hopened : Reads (.statement list) place ["function", name, "("] _ :=
    .cons (t := .functionWord) rfl rfl (.cons (Lexer.lexeme_name hname) rfl
      (.cons (t := .lpar) rfl rfl .nil))
  cases names with
  | nil => exact ⟨_, hopened.concat .rpar ")" rfl rfl, rfl, rfl⟩
  | cons first rest =>
    have hfirst := hopened.concat .ident first (Lexer.lexeme_name (h first List.mem_cons_self)) rfl
    obtain ⟨tokens, hreads, htokens⟩ := params (fun n hn => h n (List.mem_cons_of_mem _ hn)) _ list _
    have hend := (hfirst.append hreads).concat .rpar ")" rfl rfl
    rw [intersperse_cons]
    exact ⟨_, hend, rfl, congrArg (first :: ·) htokens⟩

/-- The body of a function is read, and its source is the text between its braces. -/
theorem functionBody {body : Block} (h : ∀ node ∈ body.statements, IsReadStatement node) (head : Header)
    (list : Place) (place : Cursor) (more : List String) (hp : place.Holds (body.texts ++ more)) :
    ∃ part, Reads (.functionBrace head list) place body.texts (.statement (list.push part)) ∧
      part.node.unplaced = ⟨none, .function head.name.text (head.params.map (·.text))
        (body.stripped fun body _ => body.render) body.render⟩ := by
  obtain ⟨loc, statements⟩ := body
  have hlbrace : Reads (.functionBrace head list) place ["\x7b"] _ :=
    .cons (t := .lbrace) rfl rfl .nil
  obtain ⟨parts, hreads, hparts⟩ := reads_statements h _ _ _ (holds_braced hp)
  rw [Place.pushAll_open (.body head _ · list) fun _ _ => rfl] at hreads
  have hrbrace := (hlbrace.append hreads).concat .rbrace "\x7d" rfl rfl
  refine ⟨_, hrbrace, ?_⟩
  have hopen : place.Holds ("\x7b" :: Node.allTexts statements ++ "\x7d" :: more) := by
    rw [Block.texts, List.append_assoc] at hp
    exact hp
  have hsource : ((place.locate ((place.after ("\x7b" :: Node.allTexts statements)).offset +
      "\x7d".length)).text.getD "") = (Block.mk loc statements).render := by
    rw [hopen.offset_after]
    exact congrArg (Option.getD · "") (hp.locate (List.cons_ne_nil _ _))
  show Node.mk none (.function _ _ ⟨none, Node.strippedAll _ (parts.map (·.node))⟩ _) = _
  rw [hparts]
  exact congrArg (fun text => Node.mk none (.function _ _ (Block.stripped _ ⟨loc, statements⟩) text))
    hsource

theorem function {name : String} {names : List String} {body : Block} {source : String}
    (hname : IsWord name.toList) (hnames : ∀ p ∈ names, IsWord p.toList)
    (h : ∀ node ∈ body.statements, IsReadStatement node) :
    IsReadStatement ⟨loc, .function name names body source⟩ := by
  intro list place more hp
  obtain ⟨head, hhead, rfl, rfl⟩ := functionHead hname hnames list place
  rw [Node.texts, Form.texts, List.append_cons] at hp ⊢
  rw [List.append_assoc] at hp
  obtain ⟨part, hbody, hpart⟩ := functionBody h head list _ more (hp.after _)
  exact ⟨part, hhead.append hbody, hpart⟩

end IsReadStatement

mutual

/-- A statement of the grammar is read back. -/
theorem Node.isReadStatement : (node : Node) → node.IsStatement → IsReadStatement node
  | ⟨loc, form⟩, h => Form.isReadStatement loc form h

theorem Form.isReadStatement (loc : Option Location) : (form : Form) → form.IsStatement →
    IsReadStatement ⟨loc, form⟩
  | .expression _, h => .expression h.1 h.2
  | .block statements, h => .block (Node.areReadStatements statements h)
  | .function _ _ ⟨_, statements⟩ _, h =>
    .function h.1 h.2.1 (Node.areReadStatements statements h.2.2)
  | .declaration _ _ isMutable, h => .declaration isMutable h.1 h.2
  | .ret none, _ => .ret nofun
  | .ret (some expr), h => .ret (by rintro _ ⟨⟩; exact h)
  | .bare, h | .number _, h | .string _, h | .boolean _, h | .null, h | .ident _, h
  | .member _ _, h | .group _, h | .call _ _, h | .ternary _ _ _, h | .assign _ _ _, h
  | .chain _ _ _, h | .unary _ _, h | .script _, h => h.elim

theorem Node.areReadStatements : (nodes : List Node) → Node.AreStatements nodes →
    ∀ node ∈ nodes, IsReadStatement node
  | [], _ => nofun
  | node :: rest, h => by
    rintro _ (_ | ⟨_, hmem⟩)
    · exact Node.isReadStatement node h.1
    · exact Node.areReadStatements rest h.2 _ hmem

end

end Reader

/-! ## Whole texts -/

namespace Parser

open Reader Lexer

variable {s s' : State} {place : Cursor} {texts : List String}

/-- Texts behind one another start with a text, and then comes a blank or the end. -/
theorem exists_atBlank (text : String) (texts : List String) :
    ∃ rest, (" ".intercalate (text :: texts)).toList = text.toList ++ rest ∧ AtBlank rest := by
  cases texts with
  | nil => exact ⟨[], by simp, nofun⟩
  | cons next texts =>
    refine ⟨' ' :: (" ".intercalate (next :: texts)).toList, ?_, ?_⟩
    · rw [String.intercalate_cons_cons, String.append_assoc, String.toList_append,
        String.toList_append]
      rfl
    · rintro c ⟨⟩
      rfl

/-- Texts that are read start with no blank and no comment. -/
theorem gapLength_reads (h : Reads s place texts s') (hp : place.Holds texts) :
    gapLength place.rest = 0 := by
  refine gapLength_eq_zero ?_
  cases h with
  | nil => rw [hp]; rfl
  | @cons _ _ _ _ t text rest hl _ _ =>
    obtain ⟨tail, htail, hblank⟩ := exists_atBlank text rest
    rw [hp, htail]
    rw [← String.length_toList] at hl
    exact gapPiece_token hblank hl

/-- The blank behind a text is skipped, and nothing more. -/
theorem skip_atBlank (hb : AtBlank place.rest) (hgap : gapLength (place.advance 1).rest = 0) :
    skip place = place.advance 1 := by
  rw [Cursor.rest_advance] at hgap
  rw [skip]
  cases hrest : place.rest with
  | nil =>
    obtain ⟨o, l, k, rest⟩ := place
    subst hrest
    rw [gapLength_eq_zero rfl]
    rfl
  | cons c rest =>
    rw [hrest] at hb hgap
    rw [gapLength_succ (gapPiece_space (hb c rfl) rest)]
    exact congrArg (fun n => place.advance (0 + 1 + n)) hgap

/-- The parser reads texts like the reader, and comes to the tree of its last state. -/
theorem readFrom_reads {node : Node} (h : Reads s place texts s') (hf : s'.finish = some node)
    (hp : place.Holds texts) {last : Option Token} {before : Cursor} (hskip : skip before = place) :
    readFrom s last before = .ok node := by
  induction h generalizing last before with
  | nil =>
    rw [readFrom]
    dsimp only
    rw [hskip]
    split
    · rw [hf]
    · next hr => cases hr.symm.trans hp
  | @cons s next s' place t text texts hl hfeed h ih =>
    obtain ⟨tail, htail, hblank⟩ := exists_atBlank text texts
    have hrest : place.rest = text.toList ++ tail := Eq.trans hp htail
    have hlex : lexeme s.mode place.rest = some (t, text.length) := by
      rw [← String.length_toList] at hl ⊢
      rw [hrest]
      exact lexeme_atBlank hblank hl
    have htoken : tokenAt place t text.length = ⟨t, text, place, place.offset + text.length⟩ := by
      rw [tokenAt, hrest, ← String.length_toList, List.take_left, String.ofList_toList]
    have hend : (place.advance text.length).rest = tail := by
      rw [Cursor.rest_advance, hrest, ← String.length_toList, List.drop_left]
    have hnext : skip (place.advance text.length) = place.advance (text.length + 1) := by
      rw [Cursor.advance_add]
      refine skip_atBlank (by rwa [hend]) ?_
      rw [← Cursor.advance_add]
      exact gapLength_reads h hp.advance
    rw [readFrom]
    dsimp only
    rw [hskip]
    split
    · next hr => rw [hr] at hlex; cases hlex
    · split
      · next hl' => cases hlex.symm.trans hl'
      · next terminal n hl' =>
        obtain ⟨rfl, rfl⟩ := Prod.mk.inj (Option.some.inj (hlex.symm.trans hl'))
        rw [htoken, hfeed]
        exact ih hf hp.advance hnext

/-- The parser reads a whole text like the reader. -/
theorem parse_reads {rule : Rule} {node : Node}
    (h : Reads (State.initial rule) (Cursor.start (" ".intercalate texts).toList) texts s')
    (hf : s'.finish = some node) : parse rule (" ".intercalate texts) = .ok node := by
  refine readFrom_reads h hf rfl ?_
  rw [skip, gapLength_reads h rfl]
  rfl

/-- A text that is one token is read in one step. -/
theorem parse_alone {text : String} {t : Terminal} {node : Node}
    (hlex : Lexer.lexeme .operand text.toList = some (t, text.toList.length))
    (hfeed : (State.initial .expression).feed
      ⟨t, text, .start text.toList, (Cursor.start text.toList).offset + text.length⟩ = some s')
    (hfinish : s'.finish = some node) : parse .expression text = .ok node := by
  rw [String.length_toList] at hlex
  have hreads : Reads (.initial .expression) (.start (" ".intercalate [text]).toList) [text] s' := by
    rw [String.intercalate_singleton]
    exact .cons hlex hfeed .nil
  have hparse := parse_reads hreads hfinish
  rwa [String.intercalate_singleton] at hparse

end Parser

/-- **The parser is complete.**  A program of the grammar, written with one blank between its tokens,
is read back as the same tree, up to its locations, and the source of each function is its body as
it is written. -/
theorem parse_complete {rule : Rule} {node : Node} (h : node.Fits rule) :
    ∃ found, Parser.parse rule node.render = .ok found ∧ found.unplaced = node.rendered := by
  cases rule with
  | expression =>
    obtain ⟨s, e, hreads, hgoes, he⟩ := Reader.Node.isRead node h Reader.Context.whole.hole
      (Cursor.start node.render.toList) (.empty _)
    exact ⟨e.node, Parser.parse_reads hreads hgoes.finish, he⟩
  | script =>
    obtain ⟨loc, form⟩ := node
    obtain ⟨statements, hform, hstatements⟩ := h
    dsimp only at hform
    subst hform
    obtain ⟨parts, hreads, hparts⟩ := Reader.reads_statements
      (Reader.Node.areReadStatements statements hstatements) (.script [])
      (Cursor.start (" ".intercalate (Node.allTexts statements)).toList) []
      (by rw [List.append_nil]; rfl)
    rw [Reader.Place.pushAll_open .script fun _ _ => rfl] at hreads
    refine ⟨_, Parser.parse_reads hreads rfl, ?_⟩
    have hfound := Reader.State.scriptNode_form parts
    rw [List.nil_append]
    generalize Reader.State.scriptNode parts = found at hfound ⊢
    obtain ⟨place, form⟩ := found
    dsimp only at hfound
    subst hfound
    exact congrArg (fun ns => Node.mk none (.script ns)) hparts

/-- A script in which keywords stand as names, and a function holds a sum in a condition. -/
def sampleScript : Node :=
  let a : Node := ⟨none, .ident "a"⟩
  let sum : Node := ⟨none, .chain "sum" ⟨none, .unary "-" a⟩ [("+", ⟨none, .number "2"⟩)]⟩
  let body : Block := ⟨none, [⟨none, .ret (some ⟨none, .ternary sum a ⟨none, .null⟩⟩)⟩]⟩
  ⟨none, .script [
    ⟨none, .function "let" ["return", "a"] body ""⟩,
    ⟨none, .expression ⟨none, .assign ⟨none, .member a ⟨none, .ident "const"⟩⟩ "="
      ⟨none, .call ⟨none, .ident "let"⟩ [⟨none, .boolean "true"⟩, a]⟩⟩⟩]⟩

/-- The sample is read back from its text, and the source of its function is the text of the body. -/
theorem parse_complete_sample :
    sampleScript.render =
      "function let ( return , a ) \x7b return - a + 2 ? a : null ; \x7d a . const = let ( true , a ) ;" ∧
    ∃ found, Parser.parse .script sampleScript.render = .ok found ∧
      found.unplaced = sampleScript.rendered := by
  refine ⟨by decide +kernel, parse_complete ⟨_, rfl, ?_⟩⟩
  simp [Node.AreStatements, Node.IsStatement, Form.IsStatement, Block.IsBody, Node.IsExpression,
    Form.IsExpression, Node.AreExpressions, Node.AreOperands, Node.IsMember, Form.IsMember,
    Node.level, Form.level, Level.ofKind?, OpensExpression, Node.texts, Form.texts, Form.isPath]
  decide

end Scriptlet
