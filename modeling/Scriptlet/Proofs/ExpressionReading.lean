import Scriptlet.Proofs.ParserSoundness

/-!
# Expressions are read back

`Reads` runs the reader over texts with one blank between them.  What follows a finished operand
depends only on the levels that it leaves open (`Hole.closed`), so an expression of the grammar is
read like a single operand in its place (`Node.isRead`), by induction over the tree.
-/

namespace Scriptlet

set_option autoImplicit false

/-- The place after texts, with one blank after each of them. -/
def Cursor.after (place : Cursor) (texts : List String) : Cursor :=
  texts.foldl (fun place text => place.advance (text.length + 1)) place

/-- The levels that a token closes when it follows an operand. -/
def Terminal.closes : Terminal → Level
  | .star | .slash | .percent => .unary
  | .plus | .minus => .product
  | .equalEqual | .identical | .bangEqual | .notIdentical | .less | .more | .lessEqual
  | .moreEqual => .sum
  | .qmark => .comparison
  | .colon | .rpar | .comma | .semicolon => .expression
  | _ => .primary

namespace Reader

/-! ## Reading texts -/

/-- From a state and a place, texts with one blank between them lead to another state. -/
inductive Reads : State → Cursor → List String → State → Prop where
  | nil {s : State} {place : Cursor} : Reads s place [] s
  | cons {s next last : State} {place : Cursor} {t : Terminal} {text : String} {rest : List String}
      (hl : Lexer.lexeme s.mode text.toList = some (t, text.length))
      (hf : s.feed ⟨t, text, place, place.offset + text.length⟩ = some next)
      (h : Reads next (place.advance (text.length + 1)) rest last) :
      Reads s place (text :: rest) last

namespace Reads

variable {s t u : State} {place : Cursor} {xs ys : List String}

theorem append (h : Reads s place xs t) (h' : Reads t (place.after xs) ys u) :
    Reads s place (xs ++ ys) u := by
  induction h with
  | nil => exact h'
  | cons hl hf _ ih => exact .cons hl hf (ih h')

/-- One text more. -/
theorem concat (h : Reads s place xs t) (k : Terminal) (text : String)
    (hl : Lexer.lexeme t.mode text.toList = some (k, text.length))
    (hf : t.feed ⟨k, text, place.after xs, (place.after xs).offset + text.length⟩ = some u) :
    Reads s place (xs ++ [text]) u :=
  h.append (.cons hl hf .nil)

end Reads

/-! ## What follows an operand -/

/-- The operand and its place once the levels up to `level` are closed. -/
def Hole.closed (level : Level) (e : Part) (hole : Hole) : Part × Hole :=
  let p := hole.pending
  match level with
  | .primary => (e, hole)
  | .unary => (p.toUnary e, { hole with pending := { p with unary := [] } })
  | .product => (p.toProduct e, { hole with pending := { p with product := none, unary := [] } })
  | .sum => (p.toSum e, { hole with pending := ⟨p.comparison, none, none, []⟩ })
  | .comparison => (p.toComparison e, hole.context.hole)
  | .expression =>
    let settled := hole.context.settle (p.toComparison e)
    (settled.1, settled.2.hole)

namespace Hole

theorem closed_closed {tight loose : Level} (h : tight < loose) (e : Part) (hole : Hole) :
    closed loose (closed tight e hole).1 (closed tight e hole).2 = closed loose e hole := by
  cases tight <;> cases loose <;> first | rfl | exact absurd h (by decide)

/-- Where a level closes alike, every looser one does. -/
theorem closed_mono {tight loose : Level} (h : tight ≤ loose) {e e' : Part} {hole hole' : Hole}
    (hc : closed tight e hole = closed tight e' hole') :
    closed loose e hole = closed loose e' hole' := by
  rcases Nat.lt_or_eq_of_le h with hlt | heq
  · rw [← closed_closed hlt e, hc, closed_closed hlt]
  · have : tight = loose := by
      cases tight <;> cases loose <;> first | rfl | exact absurd heq (by decide)
    rwa [← this]

end Hole

theorem Context.settle_settle (e : Part) (context : Context) :
    (context.settle e).2.settle (context.settle e).1 = context.settle e := by
  fun_induction settle e context with
  | case1 e target op outer ih => exact ih
  | case2 e condition yes outer ih => exact ih
  | case3 e context hv he =>
    cases context with
    | value target op outer => exact (hv target op outer rfl).elim
    | elseBranch condition yes outer => exact (he condition yes outer rfl).elim
    | _ => rfl

namespace State

theorem feedAfter_closed (e : Part) (hole : Hole) (t : Token) :
    feedAfter (Hole.closed t.terminal.closes e hole).1 (Hole.closed t.terminal.closes e hole).2 t =
      feedAfter e hole t := by
  cases hk : t.terminal with
  | star | slash | percent | plus | minus | equalEqual | identical | bangEqual | notIdentical
  | less | more | lessEqual | moreEqual =>
    simp only [feedAfter, hk, Pending.binary?]
    rfl
  | qmark =>
    simp only [feedAfter, hk]
    rfl
  | colon | rpar | comma | semicolon =>
    simp only [feedAfter, hk, Pending.binary?]
    exact congrArg (fun x : Part × Context => closeWith t x.1 x.2) (Context.settle_settle _ _)
  | _ => rfl

/-- A token that closes a level goes on alike after operands that close it alike. -/
theorem feedAfter_congr {level : Level} {e e' : Part} {hole hole' : Hole} {t : Token}
    (hc : Hole.closed level e hole = Hole.closed level e' hole') (ht : level ≤ t.terminal.closes) :
    feedAfter e hole t = feedAfter e' hole' t := by
  rw [← feedAfter_closed e, Hole.closed_mono ht hc, feedAfter_closed]

theorem finishAfter_congr {level : Level} {e e' : Part} {hole hole' : Hole}
    (hc : Hole.closed level e hole = Hole.closed level e' hole') :
    finishAfter e hole = finishAfter e' hole' := by
  have hx : Hole.closed .expression e hole = Hole.closed .expression e' hole' :=
    Hole.closed_mono (by cases level <;> decide) hc
  obtain ⟨he, hh⟩ := Prod.mk.inj hx
  have hcontext := congrArg Hole.context hh
  unfold finishAfter
  dsimp only [Context.hole] at he hcontext ⊢
  rw [he, hcontext]

/-- The state goes on like the state after the operand `e`, with tokens that close `level`. -/
structure GoesOn (level : Level) (s : State) (e : Part) (hole : Hole) : Prop where
  mode : s.mode = .any
  feed : ∀ t : Token, level ≤ t.terminal.closes → t.terminal ≠ .dot → t.terminal ≠ .lpar →
    s.feed t = feedAfter e hole t
  finish : s.finish = finishAfter e hole

namespace GoesOn

variable {level loose : Level} {s : State} {e e' : Part} {hole hole' : Hole}

theorem after (level : Level) (e : Part) (hole : Hole) : GoesOn level (.after e hole) e hole :=
  ⟨rfl, fun _ _ _ _ => rfl, rfl⟩

theorem path (level : Level) (first : Token) (rest : List Token) (hole : Hole) :
    GoesOn level (.path first rest hole) (.path first rest) hole := by
  refine ⟨rfl, fun t _ hd hl => ?_, rfl⟩
  rw [State.feed]
  split
  · exact (hd ‹_›).elim
  · exact (hl ‹_›).elim
  · rfl

theorem loosen (h : GoesOn level s e hole) (hl : level ≤ loose) : GoesOn loose s e hole :=
  ⟨h.mode, fun t ht => h.feed t (Nat.le_trans hl ht), h.finish⟩

/-- Operands that close a level alike stand for each other. -/
theorem congr (h : GoesOn level s e hole)
    (hc : Hole.closed level e hole = Hole.closed level e' hole') : GoesOn level s e' hole' :=
  ⟨h.mode, fun t ht hd hl => (h.feed t ht hd hl).trans (feedAfter_congr hc ht),
    h.finish.trans (finishAfter_congr hc)⟩

/-- One token more, which closes the level. -/
theorem reads (h : GoesOn level s e hole) {start next : State} {place : Cursor} {xs : List String}
    (hr : Reads start place xs s) (t : Terminal) (text : String)
    (hlex : Lexer.lexeme .any text.toList = some (t, text.length)) (hl : level ≤ t.closes)
    (hd : t ≠ .dot) (hp : t ≠ .lpar)
    (hf : feedAfter e hole ⟨t, text, place.after xs, (place.after xs).offset + text.length⟩ =
      some next) : Reads start place (xs ++ [text]) next := by
  refine hr.concat t text ?_ ?_
  · rw [h.mode]
    exact hlex
  · rw [h.feed _ hl hd hp]
    exact hf

end GoesOn

end State

/-! ## Runs of operators -/

namespace Pending

/-- Nothing waits on a level that an operand of it would close. -/
def OpenAt (p : Pending) : Level → Prop
  | .primary | .unary => True
  | .product => p.product = none ∧ p.unary = []
  | .sum => p.sum = none ∧ p.product = none ∧ p.unary = []
  | .comparison | .expression => p = .empty

/-- The run of a level is replaced. -/
def withRun (p : Pending) (run : Option OpenChain) : Level → Pending
  | .product => { p with product := run }
  | .sum => { p with sum := run }
  | .comparison => { p with comparison := run }
  | _ => p

theorem OpenAt.tighten {p : Pending} {tight loose : Level} (h : p.OpenAt loose) (hl : tight ≤ loose) :
    p.OpenAt tight := by
  cases loose <;> cases tight <;> first
    | exact trivial
    | exact h
    | exact h.2
    | exact absurd hl (by decide)
    | (subst h; exact ⟨rfl, rfl⟩)
    | (subst h; exact ⟨rfl, rfl, rfl⟩)

theorem OpenAt.empty (level : Level) : Pending.empty.OpenAt level :=
  OpenAt.tighten (show Pending.empty.OpenAt .expression from rfl) (by cases level <;> decide)

variable {kind : String} {level : Level} {p : Pending}

theorem withRun_none (hk : Level.ofKind? kind = some level) (hp : p.OpenAt level) :
    p.withRun none level = p := by
  obtain ⟨comparison, sum, product, unary⟩ := p
  rcases Level.ofKind?_cases hk with ⟨rfl, rfl⟩ | ⟨rfl, rfl⟩ | ⟨rfl, rfl⟩
  · obtain ⟨rfl, rfl⟩ := hp
    rfl
  · obtain ⟨rfl, rfl, rfl⟩ := hp
    rfl
  · obtain ⟨rfl, rfl, rfl, rfl⟩ := Pending.mk.inj hp
    rfl

/-- Tighter levels are open behind an operator. -/
theorem OpenAt.withRun (hk : Level.ofKind? kind = some level) (hp : p.OpenAt level) {tight : Level}
    (hl : tight < level) (run : OpenChain) : (p.withRun (some run) level).OpenAt tight := by
  obtain ⟨comparison, sum, product, unary⟩ := p
  rcases Level.ofKind?_cases hk with ⟨rfl, rfl⟩ | ⟨rfl, rfl⟩ | ⟨rfl, rfl⟩
  · obtain ⟨rfl, rfl⟩ := hp
    cases tight <;> first | exact trivial | exact absurd hl (by decide)
  · obtain ⟨rfl, rfl, rfl⟩ := hp
    cases tight <;> first | exact trivial | exact ⟨rfl, rfl⟩ | exact absurd hl (by decide)
  · obtain ⟨rfl, rfl, rfl, rfl⟩ := Pending.mk.inj hp
    cases tight <;> first
      | exact trivial | exact ⟨rfl, rfl⟩ | exact ⟨rfl, rfl, rfl⟩ | exact absurd hl (by decide)

/-- A run closes to one operand of its level. -/
theorem closed_withRun (hk : Level.ofKind? kind = some level) (hp : p.OpenAt level) (run : OpenChain)
    (e : Part) (context : Context) :
    Hole.closed level e ⟨p.withRun (some run) level, context⟩ =
      Hole.closed level (run.close kind e) ⟨p, context⟩ := by
  obtain ⟨comparison, sum, product, unary⟩ := p
  rcases Level.ofKind?_cases hk with ⟨rfl, rfl⟩ | ⟨rfl, rfl⟩ | ⟨rfl, rfl⟩
  · obtain ⟨rfl, rfl⟩ := hp
    rfl
  · obtain ⟨rfl, rfl, rfl⟩ := hp
    rfl
  · obtain ⟨rfl, rfl, rfl, rfl⟩ := Pending.mk.inj hp
    rfl

end Pending

/-- An operator after an operand of a tighter level opens a run or makes it longer. -/
theorem State.GoesOn.operator {kind : String} {tight level : Level}
    (hk : Level.ofKind? kind = some level) (hl : tight < level) {s : State} {e : Part} {p : Pending}
    {run : Option OpenChain} {context : Context}
    (h : GoesOn tight s e ⟨p.withRun run level, context⟩) (hp : p.OpenAt level) {op : String}
    (hop : op ∈ level.operators) :
    ∃ t, Lexer.lexeme s.mode op.toList = some (t, op.length) ∧ ∀ place stop,
      s.feed ⟨t, op, place, stop⟩ =
        some (.operand ⟨p.withRun (some (.extend op e run)) level, context⟩) := by
  obtain ⟨comparison, sum, product, unary⟩ := p
  rw [h.mode]
  have hle : ∀ {l : Level}, level.rank = l.rank + 1 → tight ≤ l := fun hr =>
    Nat.le_of_lt_succ (Nat.lt_of_lt_of_eq hl hr)
  rcases Level.ofKind?_cases hk with ⟨rfl, rfl⟩ | ⟨rfl, rfl⟩ | ⟨rfl, rfl⟩
  · obtain ⟨rfl, rfl⟩ := hp
    have hlex : ∀ op ∈ Level.product.operators, ∃ t ∈ [Terminal.star, .slash, .percent],
        Lexer.lexeme .any op.toList = some (t, op.length) := by decide
    obtain ⟨t, ht, hlex⟩ := hlex op hop
    refine ⟨t, hlex, fun place stop => ?_⟩
    simp only [List.mem_cons, List.not_mem_nil, or_false] at ht
    rcases ht with rfl | rfl | rfl <;> exact h.feed _ (hle rfl) nofun nofun
  · obtain ⟨rfl, rfl, rfl⟩ := hp
    have hlex : ∀ op ∈ Level.sum.operators, ∃ t ∈ [Terminal.plus, .minus],
        Lexer.lexeme .any op.toList = some (t, op.length) := by decide
    obtain ⟨t, ht, hlex⟩ := hlex op hop
    refine ⟨t, hlex, fun place stop => ?_⟩
    simp only [List.mem_cons, List.not_mem_nil, or_false] at ht
    rcases ht with rfl | rfl <;> exact h.feed _ (hle rfl) nofun nofun
  · obtain ⟨rfl, rfl, rfl, rfl⟩ := Pending.mk.inj hp
    have hlex : ∀ op ∈ Level.comparison.operators, ∃ t ∈ [Terminal.equalEqual, .identical,
        .bangEqual, .notIdentical, .less, .more, .lessEqual, .moreEqual],
        Lexer.lexeme .any op.toList = some (t, op.length) := by decide
    obtain ⟨t, ht, hlex⟩ := hlex op hop
    refine ⟨t, hlex, fun place stop => ?_⟩
    simp only [List.mem_cons, List.not_mem_nil, or_false] at ht
    rcases ht with rfl | rfl | rfl | rfl | rfl | rfl | rfl | rfl <;>
      exact h.feed _ (hle rfl) nofun nofun

/-! ## Expressions -/

/-- A node is read like a single operand, wherever its level is open. -/
def IsRead (node : Node) : Prop :=
  ∀ (hole : Hole) (place : Cursor), hole.pending.OpenAt node.level →
    ∃ s e, Reads (.operand hole) place node.texts s ∧ State.GoesOn node.level s e hole ∧
      e.node.unplaced = node.rendered

/-- Some words are read as a path that stands for a node. -/
def IsPathOf (node : Node) (first : Token) (rest : List Token) : Prop :=
  (Part.path first rest).node.unplaced = node.rendered

/-- The token of a name at a place. -/
def nameToken (name : String) (place : Cursor) : Token :=
  ⟨.ident, name, place, place.offset + name.length⟩

theorem reads_member_name {name : String} (h : IsWord name.toList) (first : Token)
    (rest : List Token) (hole : Hole) (place : Cursor) :
    Reads (.dot first rest hole) place [name]
      (.path first (rest ++ [nameToken name place]) hole) :=
  .cons (Lexer.lexeme_name h) rfl .nil

mutual

/-- What stands after the `.` of a path is read to its end. -/
theorem Node.reads_member : (node : Node) → node.IsMember → ∀ first rest hole place,
    ∃ u us, Reads (.dot first rest hole) place node.texts (.path first (rest ++ u :: us) hole) ∧
      IsPathOf node u us
  | ⟨loc, form⟩, h => Form.reads_member loc form h

theorem Form.reads_member (loc : Option Location) : (form : Form) → form.IsMember →
    ∀ first rest hole place, ∃ u us,
      Reads (.dot first rest hole) place form.texts (.path first (rest ++ u :: us) hole) ∧
        IsPathOf ⟨loc, form⟩ u us
  | .ident name, h => fun first rest hole place =>
    ⟨_, [], reads_member_name h first rest hole place, rfl⟩
  | .member ⟨place, object⟩ member, h => by
    intro first rest hole place
    obtain ⟨name, rfl, hname⟩ := h.1.eq_ident
    have hdot := (reads_member_name hname first rest hole place).concat .dot "." rfl rfl
    obtain ⟨u, us, hmember, hpath⟩ := Node.reads_member member h.2 first
      (rest ++ [nameToken name place]) hole (place.after [name, "."])
    rw [List.append_assoc] at hmember
    refine ⟨_, u :: us, hdot.append hmember, ?_⟩
    exact congrArg (fun n => Node.mk none (.member ⟨none, .ident name⟩ n)) hpath

end

/-- A name or a path of names is read to its end. -/
theorem reads_path {node : Node} (hp : node.form.isPath) (h : node.IsExpression) (hole : Hole)
    (place : Cursor) : ∃ first rest,
      Reads (.operand hole) place node.texts (.path first rest hole) ∧ IsPathOf node first rest := by
  have hname : ∀ {name : String}, IsWord name.toList → name ∉ literalWords →
      Reads (.operand hole) place [name] (.path (nameToken name place) [] hole) := by
    intro name hw hne
    have hident : Lexer.Mode.operand.classify name.toList = .ident :=
      Lexer.literalWord_ident.2 (by rwa [String.ofList_toList])
    refine .cons (t := .ident) ?_ rfl .nil
    rw [← String.length_toList, ← hident]
    exact Lexer.lexeme_word hw
  obtain ⟨loc, form⟩ := node
  cases form with
  | ident name => exact ⟨_, [], hname h.1 h.2, rfl⟩
  | member object member =>
    obtain ⟨objectLoc, object⟩ := object
    obtain ⟨⟨name, hobject⟩, hword, hmember⟩ := h
    dsimp only at hobject
    subst hobject
    have hdot := (hname hword.1 hword.2).concat .dot "." rfl rfl
    obtain ⟨u, us, hreads, hpath⟩ := Node.reads_member member hmember (nameToken name place) []
      hole (place.after [name, "."])
    refine ⟨_, u :: us, hdot.append hreads, ?_⟩
    exact congrArg (fun n => Node.mk none (.member ⟨none, .ident name⟩ n)) hpath
  | _ => exact nomatch hp

namespace IsRead

variable {loc : Option Location}

theorem path {node : Node} (hp : node.form.isPath) (h : node.IsExpression) : IsRead node := by
  intro hole place _
  obtain ⟨first, rest, hreads, hpath⟩ := reads_path hp h hole place
  exact ⟨_, _, hreads, .path _ first rest hole, hpath⟩

/-- A literal is read as it stands. -/
theorem literal {form : Form} {t : Terminal} {text : String} (htexts : form.texts = [text])
    (hl : Lexer.lexeme .operand text.toList = some (t, text.length))
    (hf : ∀ hole place stop, State.feedOperand hole ⟨t, text, place, stop⟩ =
      some (.after (.ofToken form ⟨t, text, place, stop⟩) hole))
    (hs : ∀ source, form.stripped source = form) : IsRead ⟨loc, form⟩ := by
  intro hole place _
  refine ⟨_, .ofToken form ⟨t, text, place, place.offset + text.length⟩, ?_, .after _ _ hole, ?_⟩
  · rw [Node.texts, htexts]
    exact .cons hl (hf hole place _) .nil
  · exact congrArg (Node.mk none) ((hs _).trans (hs _).symm)

theorem unary {op : String} {operand : Node} (hop : op ∈ Level.unary.operators)
    (hl : operand.level ≤ .unary) (h : IsRead operand) : IsRead ⟨loc, .unary op operand⟩ := by
  intro hole place _
  have hlex : ∀ op ∈ Level.unary.operators, ∃ t ∈ [Terminal.minus, .bang],
      Lexer.lexeme .operand op.toList = some (t, op.length) := by decide
  obtain ⟨t, ht, hlex⟩ := hlex op hop
  have hopen : ∀ p : Pending, p.OpenAt operand.level := fun p =>
    (show p.OpenAt .unary from trivial).tighten hl
  let token : Token := ⟨t, op, place, place.offset + op.length⟩
  obtain ⟨s, e, hreads, hgoes, he⟩ := h
    { hole with pending := { hole.pending with unary := token :: hole.pending.unary } }
    (place.after [op]) (hopen _)
  refine ⟨s, .build (.unary op e.node) place e.stop, .cons hlex ?_ hreads,
    (hgoes.loosen hl).congr rfl, ?_⟩
  · simp only [List.mem_cons, List.not_mem_nil, or_false] at ht
    rcases ht with rfl | rfl <;> rfl
  · exact congrArg (fun n => Node.mk none (.unary op n)) he

/-- The operators and operands after a run are read to their end. -/
theorem operands {kind : String} {level : Level} (hk : Level.ofKind? kind = some level)
    {p : Pending} (hp : p.OpenAt level) (context : Context) (rest : List (String × Node))
    (hrest : Node.AreOperands level rest) (hread : ∀ q ∈ rest, IsRead q.2) {tight : Level}
    (hl : tight < level) {s : State} {run : OpenChain} {e : Part} (place : Cursor)
    (h : State.GoesOn tight s e ⟨p.withRun (some run) level, context⟩) :
    ∃ s' e', Reads s place (Node.operandTexts rest) s' ∧ State.GoesOn level s' e' ⟨p, context⟩ ∧
      e'.node.unplaced = ⟨none, .chain kind run.first.node.unplaced
        ((run.operands e).map (fun q => (q.1, q.2.node.unplaced)) ++
          rest.map fun q => (q.1, q.2.rendered))⟩ := by
  induction rest generalizing tight s run e place with
  | nil =>
    refine ⟨s, run.close kind e, .nil, ?_, ?_⟩
    · exact (h.loosen (Level.le_of_lt hl)).congr (Pending.closed_withRun hk hp run e context)
    · rw [OpenChain.close, Part.build_node, Node.unplaced, Node.stripped, Form.stripped,
        Node.strippedOperands_eq_map, List.map_map, List.map_nil, List.append_nil]
      rfl
  | cons q rest ih =>
    obtain ⟨op, node⟩ := q
    obtain ⟨hop, hlevel, -, hrest⟩ := hrest
    obtain ⟨t, hlex, hfeed⟩ := h.operator hk hl hp hop
    obtain ⟨s₁, e₁, hreads, hgoes, he⟩ := hread (op, node) List.mem_cons_self
      ⟨p.withRun (some (.extend op e (some run))) level, context⟩ (place.after [op])
      (hp.withRun hk hlevel _)
    obtain ⟨s₂, e₂, hreads', hgoes', he'⟩ := ih hrest
      (fun q hq => hread q (List.mem_cons_of_mem _ hq)) hlevel ((place.after [op]).after node.texts) hgoes
    refine ⟨s₂, e₂, .cons hlex (hfeed _ _) (hreads.append hreads'), hgoes', he'.trans ?_⟩
    simp [OpenChain.extend, OpenChain.operands, he]

theorem chain {kind : String} {level : Level} (hk : Level.ofKind? kind = some level) {first : Node}
    (hl : first.level < level) (hfirst : IsRead first) {rest : List (String × Node)}
    (hne : rest ≠ []) (hrest : Node.AreOperands level rest) (hread : ∀ q ∈ rest, IsRead q.2) :
    IsRead ⟨loc, .chain kind first rest⟩ := by
  intro hole place hopen
  obtain ⟨p, context⟩ := hole
  have hlevel : (⟨loc, .chain kind first rest⟩ : Node).level = level := by
    simp [Node.level, Form.level, hk]
  rw [hlevel] at hopen ⊢
  obtain ⟨s, e, hreads, hgoes, he⟩ := hfirst ⟨p, context⟩ place (hopen.tighten (Level.le_of_lt hl))
  cases rest with
  | nil => exact (hne rfl).elim
  | cons q rest =>
    obtain ⟨op, node⟩ := q
    obtain ⟨hop, hnode, -, hrest⟩ := hrest
    have hnone : State.GoesOn first.level s e ⟨p.withRun none level, context⟩ := by
      rwa [Pending.withRun_none hk hopen]
    obtain ⟨t, hlex, hfeed⟩ := hnone.operator hk hl hopen hop
    obtain ⟨s₁, e₁, hreads₁, hgoes₁, he₁⟩ := hread (op, node) List.mem_cons_self
      ⟨p.withRun (some (.extend op e none)) level, context⟩ ((place.after first.texts).after [op])
      (hopen.withRun hk hnode _)
    obtain ⟨s₂, e₂, hreads₂, hgoes₂, he₂⟩ := operands hk hopen context rest hrest
      (fun q hq => hread q (List.mem_cons_of_mem _ hq)) hnode
      (((place.after first.texts).after [op]).after node.texts) hgoes₁
    refine ⟨s₂, e₂, hreads.append (.cons hlex (hfeed _ _) (hreads₁.append hreads₂)), hgoes₂,
      he₂.trans ?_⟩
    simp [OpenChain.extend, OpenChain.operands, he, he₁, Node.rendered, Node.stripped, Form.stripped,
      Node.strippedOperands_eq_map]

theorem group {expr : Node} (h : IsRead expr) : IsRead ⟨loc, .group expr⟩ := by
  intro hole place _
  obtain ⟨s, e, hreads, hgoes, he⟩ := h
    (Context.group ⟨.lpar, "(", place, place.offset + 1⟩ hole).hole (place.after ["("]) (.empty _)
  have hopened : Reads (.operand hole) place ("(" :: expr.texts) s := .cons rfl rfl hreads
  have hclosed := hgoes.reads hopened .rpar ")" rfl (Level.le_expression _) nofun nofun rfl
  exact ⟨_, _, hclosed, .after _ _ hole, congrArg (fun n => Node.mk none (.group n)) he⟩

/-- Arguments are read up to the last one, which is still open. -/
theorem args (callee : Part) (hole : Hole) {args : List Node} (hne : args ≠ [])
    (h : ∀ a ∈ args, IsRead a) (done : List Part) (place : Cursor) :
    ∃ s e more, Reads (.operand (Context.arg callee done hole).hole) place (Node.argTexts args) s ∧
      State.GoesOn .expression s e (Context.arg callee (done ++ more) hole).hole ∧
      (more ++ [e]).map (·.node.unplaced) = args.map (·.rendered) := by
  induction args generalizing done place with
  | nil => exact (hne rfl).elim
  | cons a rest ih =>
    obtain ⟨s, e, hreads, hgoes, he⟩ := h a List.mem_cons_self (Context.arg callee done hole).hole
      place (.empty _)
    cases rest with
    | nil =>
      refine ⟨s, e, [], hreads, ?_, by simp [he]⟩
      rw [List.append_nil]
      exact hgoes.loosen (Level.le_expression _)
    | cons b rest =>
      have hcomma := hgoes.reads hreads .comma "," rfl (Level.le_expression _) nofun nofun rfl
      obtain ⟨s', e', more, hreads', hgoes', he'⟩ := ih (List.cons_ne_nil _ _)
        (fun a ha => h a (List.mem_cons_of_mem _ ha)) (done ++ [e]) (place.after (a.texts ++ [","]))
      refine ⟨s', e', e :: more, ?_, ?_, ?_⟩
      · rw [Node.argTexts, List.append_cons]
        exact hcomma.append hreads'
      · rwa [List.append_cons]
      · rw [List.cons_append, List.map_cons, he', he]
        rfl

theorem call {callee : Node} (hp : callee.form.isPath) (hc : callee.IsExpression) {args : List Node}
    (h : ∀ a ∈ args, IsRead a) : IsRead ⟨loc, .call callee args⟩ := by
  intro hole place _
  obtain ⟨first, rest, hreads, hpath⟩ := reads_path hp hc hole place
  have hopened := hreads.concat .lpar "(" rfl rfl
  by_cases hne : args = []
  · subst hne
    have hclosed := hopened.concat .rpar ")" rfl rfl
    exact ⟨_, _, hclosed, .after _ _ hole, congrArg (fun n => Node.mk none (.call n [])) hpath⟩
  · obtain ⟨s, e, done, hargs, hgoes, he⟩ := IsRead.args (.path first rest) hole hne h [] _
    have hclosed := hgoes.reads (hopened.append hargs) .rpar ")" rfl (Level.le_expression _) nofun
      nofun rfl
    rw [← List.append_cons] at hclosed
    refine ⟨_, _, hclosed, .after _ _ hole, ?_⟩
    have hall : Node.strippedAll (fun _ source => source) ((done ++ [e]).map (·.node)) =
        Node.strippedAll (fun body _ => body.render) args := by
      rw [Node.strippedAll_eq_map, Node.strippedAll_eq_map, List.map_map]
      exact he
    show Node.mk none (.call (Part.path first rest).node.unplaced (Node.strippedAll _ _)) =
      Node.mk none (.call callee.rendered (Node.strippedAll _ args))
    rw [hpath, ← hall]
    rfl

theorem assign {target value : Node} {op : String} (hl : target.level = .primary)
    (htarget : IsRead target) (hop : op ∈ Level.expression.operators) (hvalue : IsRead value) :
    IsRead ⟨loc, .assign target op value⟩ := by
  intro hole place hopen
  obtain ⟨p, context⟩ := hole
  obtain rfl : p = .empty := hopen
  obtain ⟨s, e, hreads, hgoes, he⟩ := htarget context.hole place (.empty _)
  rw [hl] at hgoes
  have hlex : ∀ op ∈ Level.expression.operators, ∃ t ∈ [Terminal.equal, .plusEqual, .minusEqual,
      .starEqual, .slashEqual], Lexer.lexeme .any op.toList = some (t, op.length) := by decide
  obtain ⟨t, ht, hlex⟩ := hlex op hop
  have hopened : Reads (.operand context.hole) place (target.texts ++ [op])
      (.operand (Context.value e op context).hole) := by
    simp only [List.mem_cons, List.not_mem_nil, or_false] at ht
    rcases ht with rfl | rfl | rfl | rfl | rfl <;>
      exact hgoes.reads hreads _ op hlex (Nat.le_refl _) nofun nofun rfl
  obtain ⟨s', e', hreads', hgoes', he'⟩ := hvalue (Context.value e op context).hole
    (place.after (target.texts ++ [op])) (.empty _)
  refine ⟨s', .build (.assign e.node op e'.node) e.start e'.stop, ?_, ?_, ?_⟩
  · rw [Node.texts, Form.texts, List.append_cons]
    exact hopened.append hreads'
  · exact (hgoes'.loosen (Level.le_expression _)).congr rfl
  · show Node.mk none (.assign e.node.unplaced op e'.node.unplaced) =
      Node.mk none (.assign target.rendered op value.rendered)
    rw [he, he']

theorem ternary {condition yes no : Node} (hl : condition.level ≤ .comparison)
    (hcondition : IsRead condition) (hyes : IsRead yes) (hno : IsRead no) :
    IsRead ⟨loc, .ternary condition yes no⟩ := by
  intro hole place hopen
  obtain ⟨p, context⟩ := hole
  obtain rfl : p = .empty := hopen
  obtain ⟨s, e, hreads, hgoes, he⟩ := hcondition context.hole place (.empty _)
  have hqmark := hgoes.reads hreads .qmark "?" rfl hl nofun nofun rfl
  obtain ⟨s₁, e₁, hreads₁, hgoes₁, he₁⟩ := hyes (Context.thenBranch e context).hole
    (place.after (condition.texts ++ ["?"])) (.empty _)
  have hcolon := hgoes₁.reads (hqmark.append hreads₁) .colon ":" rfl (Level.le_expression _) nofun
    nofun rfl
  obtain ⟨s₂, e₂, hreads₂, hgoes₂, he₂⟩ := hno (Context.elseBranch e e₁ context).hole
    (place.after (condition.texts ++ ["?"] ++ yes.texts ++ [":"])) (.empty _)
  refine ⟨s₂, .build (.ternary e.node e₁.node e₂.node) e.start e₂.stop, ?_, ?_, ?_⟩
  · have hall := hcolon.append hreads₂
    rw [← List.append_cons, ← List.append_cons] at hall
    exact hall
  · exact (hgoes₂.loosen (Level.le_expression _)).congr rfl
  · show Node.mk none (.ternary e.node.unplaced e₁.node.unplaced e₂.node.unplaced) =
      Node.mk none (.ternary condition.rendered yes.rendered no.rendered)
    rw [he, he₁, he₂]

end IsRead

mutual

/-- An expression of the grammar is read like a single operand. -/
theorem Node.isRead : (node : Node) → node.IsExpression → IsRead node
  | ⟨loc, form⟩, h => Form.isRead loc form h

theorem Form.isRead (loc : Option Location) : (form : Form) → form.IsExpression → IsRead ⟨loc, form⟩
  | .number text, h =>
    .literal rfl (by rw [← String.length_toList]; exact Lexer.lexeme_numeral h)
      (fun _ _ _ => rfl) fun _ => rfl
  | .string text, h =>
    .literal rfl (by rw [← String.length_toList]; exact Lexer.lexeme_quoted h)
      (fun _ _ _ => rfl) fun _ => rfl
  | .boolean text, h => by
    rcases h with rfl | rfl
    · exact .literal (t := .trueWord) rfl (by decide) (fun _ _ _ => rfl) fun _ => rfl
    · exact .literal (t := .falseWord) rfl (by decide) (fun _ _ _ => rfl) fun _ => rfl
  | .null, _ => .literal (t := .nullWord) rfl (by decide) (fun _ _ _ => rfl) fun _ => rfl
  | .ident name, h => .path rfl h
  | .member object member, h => .path rfl h
  | .group expr, h => .group (Node.isRead expr h)
  | .call callee args, h => .call h.1 h.2.1 (Node.areRead args h.2.2)
  | .ternary condition yes no, h =>
    .ternary h.1 (Node.isRead condition h.2.1) (Node.isRead yes h.2.2.1) (Node.isRead no h.2.2.2)
  | .assign target op value, h =>
    .assign h.1 (Node.isRead target h.2.1) h.2.2.1 (Node.isRead value h.2.2.2)
  | .chain kind first rest, ⟨level, hk, hl, hfirst, hne, hrest⟩ =>
    .chain hk hl (Node.isRead first hfirst) hne hrest (Node.operandsAreRead rest hrest)
  | .unary op operand, h => .unary h.1 h.2.1 (Node.isRead operand h.2.2)
  | .bare, h | .expression _, h | .block _, h | .function _ _ _ _, h | .declaration _ _ _, h
  | .ret _, h | .script _, h => h.elim

theorem Node.areRead : (nodes : List Node) → Node.AreExpressions nodes → ∀ node ∈ nodes, IsRead node
  | [], _ => nofun
  | node :: rest, h => by
    rintro _ (_ | ⟨_, hmem⟩)
    · exact Node.isRead node h.1
    · exact Node.areRead rest h.2 _ hmem

theorem Node.operandsAreRead {level : Level} : (operands : List (String × Node)) →
    Node.AreOperands level operands → ∀ q ∈ operands, IsRead q.2
  | [], _ => nofun
  | (op, node) :: rest, h => by
    rintro _ (_ | ⟨_, hmem⟩)
    · exact Node.isRead node h.2.2.1
    · exact Node.operandsAreRead rest h.2.2.2 _ hmem

end

end Reader

end Scriptlet
