import Scriptlet.Proofs.Outcome
import Scriptlet.Proofs.ScriptConcatenation

/-!
# Expressions as statements

A text that is an expression becomes a script of one statement by a semicolon in a new line, unless
it starts with a word that opens another statement.  Both readings go on side by side: the states
differ only in the outermost context, where the one has the whole program and the other a list of
statements (`feed_asStatement`).  The statement and the script around the expression add nothing to
what a run of it does, because the expression has a place of its own that its errors keep
(`expression_runs_as_script`).
-/

namespace Scriptlet

set_option autoImplicit false

namespace Reader

/-! ## The whole program as a statement -/

mutual

/-- The context in which the whole program is a statement of a list instead. -/
def Context.asStatement (list : Place) : Context → Context
  | .whole => .statement list
  | .group lpar outer => .group lpar (outer.asStatement list)
  | .arg callee done outer => .arg callee done (outer.asStatement list)
  | .thenBranch condition outer => .thenBranch condition (outer.asStatement list)
  | .elseBranch condition yes outer => .elseBranch condition yes (outer.asStatement list)
  | .value target op outer => .value target op (outer.asStatement list)
  | .statement place => .statement place
  | .initial keyword name isMutable place => .initial keyword name isMutable place
  | .ret keyword place => .ret keyword place

/-- The place of an operand, where the whole program is a statement of a list. -/
def Hole.asStatement (list : Place) : Hole → Hole
  | ⟨pending, context⟩ => ⟨pending, context.asStatement list⟩

end

variable {list : Place}

theorem Hole.asStatement_pending (hole : Hole) : (hole.asStatement list).pending = hole.pending := by
  obtain ⟨pending, context⟩ := hole
  rfl

theorem Hole.asStatement_context (hole : Hole) :
    (hole.asStatement list).context = hole.context.asStatement list := by
  obtain ⟨pending, context⟩ := hole
  rfl

/-- What an expression is the last part of ends, whatever is around it. -/
theorem Context.settle_asStatement (e : Part) (context : Context) :
    (context.asStatement list).settle e =
      ((context.settle e).1, (context.settle e).2.asStatement list) := by
  fun_induction Context.settle e context with
  | case1 e target op outer ih => exact ih
  | case2 e condition yes outer ih => exact ih
  | case3 e context hvalue helse =>
    cases context with
    | value target op outer => exact (hvalue target op outer rfl).elim
    | elseBranch condition yes outer => exact (helse condition yes outer rfl).elim
    | _ => rfl

namespace State

/-- The state where the whole program is a statement of a list instead. -/
def asStatement (list : Place) : State → State
  | operand hole => operand (hole.asStatement list)
  | after e hole => after e (hole.asStatement list)
  | path first rest hole => path first rest (hole.asStatement list)
  | dot first rest hole => dot first rest (hole.asStatement list)
  | s => s

theorem mode_asStatement (s : State) : (s.asStatement list).mode = s.mode := by
  cases s <;> rfl

variable {t : Token} {next : State}

theorem Closes.asStatement {e : Part} {context : Context} (h : Closes t e context next) :
    Closes t e (context.asStatement list) (next.asStatement list) := by
  cases h <;> constructor <;> assumption

theorem FeedsOperand.asStatement {hole : Hole} (h : FeedsOperand t hole next) :
    FeedsOperand t (hole.asStatement list) (next.asStatement list) := by
  cases h with
  | @sign hole hk =>
    obtain ⟨pending, context⟩ := hole
    exact .sign hk
  | noArgument hk => exact .noArgument hk
  | noValue hk => exact .noValue hk
  | _ => constructor; assumption

theorem FeedsAfter.asStatement {e : Part} {hole : Hole} (h : FeedsAfter t e hole next) :
    FeedsAfter t e (hole.asStatement list) (next.asStatement list) := by
  obtain ⟨pending, context⟩ := hole
  cases h with
  | assign hk hp => exact .assign hk hp
  | condition hk => exact .condition hk
  | operator hq => exact .operator hq
  | close hcloses =>
    refine .close ?_
    dsimp only [Hole.asStatement]
    rw [Context.settle_asStatement]
    exact hcloses.asStatement

theorem Feeds.asStatement {s : State} (h : Feeds t s next) :
    Feeds t (s.asStatement list) (next.asStatement list) := by
  cases h with
  | operand h => exact .operand h.asStatement
  | after h => exact .after h.asStatement
  | expression hk h => exact .expression hk h.asStatement
  | path h => exact .path h.asStatement
  | rbrace hk hclose => exact .rbrace hk hclose
  | _ => constructor; assumption

/-- **The step.**  A token leads to the same state, whether the program is an expression or its
statement. -/
theorem feed_asStatement {s : State} (h : s.feed t = some next) :
    (s.asStatement list).feed t = some (next.asStatement list) :=
  feed_eq_some.2 (feed_eq_some.1 h).asStatement

/-- Where an expression may end, a semicolon ends its statement, also in a reading at other places. -/
theorem feedAfter_semicolon {τ : Tie} {k : Nat} {e e' : Part} {hole hole' : Hole} {node : Node}
    (he : LastPart τ k e e') (hh : TiedHole τ k (hole.asStatement (.script [])) hole')
    (hf : finishAfter e hole = some node) (ht : t.terminal = .semicolon) :
    ∃ start, feedAfter e' hole' t = some (.statement (.script
      (τ.before ++ [.build (.expression (node.moved τ.move)) start t.stop]))) := by
  have hsettle := hh.context.settle (hh.pending.toComparison he)
  rw [Hole.asStatement_pending, Hole.asStatement_context, Context.settle_asStatement] at hsettle
  unfold finishAfter at hf
  dsimp only at hf
  split at hf
  case h_2 => cases hf
  next hwhole =>
  obtain rfl := Option.some.inj hf
  rw [hwhole] at hsettle
  obtain ⟨hlast, hcontext⟩ := hsettle
  have hbinary : hole'.pending.binary? e' t = none := by rw [Pending.binary?, ht]
  generalize hs : hole'.context.settle (hole'.pending.toComparison e') = settled at hlast hcontext
  obtain ⟨last, context⟩ := settled
  cases hcontext with
  | statement hplace =>
    cases hplace with
    | script hdone _ =>
      cases hdone
      refine ⟨last.start, ?_⟩
      rw [feedAfter, ht]
      dsimp only
      rw [hbinary, hs]
      dsimp only
      rw [closeWith, Place.push, List.append_nil, hlast.node]
      exact ht

/-- Where an expression may end, a semicolon ends its statement, also in a reading at other places. -/
theorem feed_semicolon {τ : Tie} {k : Nat} {s s' : State} {node : Node} (hs : s.Sound .expression)
    (h : TiedState τ k (s.asStatement (.script [])) s') (hf : s.finish = some node)
    (ht : t.terminal = .semicolon) :
    s'.mode = .any ∧ ∃ start, s'.feed t = some (.statement (.script
      (τ.before ++ [.build (.expression (node.moved τ.move)) start t.stop]))) := by
  cases s with
  | after e hole =>
    cases h with
    | after he hh => exact ⟨rfl, feedAfter_semicolon he hh hf ht⟩
  | path first rest hole =>
    cases h with
    | path hp hstop hstop' hh =>
      refine ⟨rfl, ?_⟩
      dsimp only [feed]
      rw [ht]
      exact feedAfter_semicolon (hp.last hstop hstop') hh hf ht
  | statement place => exact nomatch hs.1
  | _ => cases hf

/-! ## Expressions have places -/

/-- An operand that has just been read has a place. -/
def Placed : State → Prop
  | after e _ => e.node.loc.isSome
  | _ => True

theorem Closes.placed {e : Part} {context : Context} (h : Closes t e context next) :
    next.Placed := by
  cases h <;> trivial

theorem FeedsOperand.placed {hole : Hole} (h : FeedsOperand t hole next) : next.Placed := by
  cases h <;> trivial

theorem FeedsAfter.placed {e : Part} {hole : Hole} (h : FeedsAfter t e hole next) : next.Placed := by
  cases h with
  | close hcloses => exact hcloses.placed
  | _ => trivial

/-- Whatever token is read, the operand that it ends has a place. -/
theorem feed_placed {s : State} (h : s.feed t = some next) : next.Placed := by
  cases feed_eq_some.1 h with
  | operand h => exact h.placed
  | after h => exact h.placed
  | expression _ h => exact h.placed
  | path h => exact h.placed
  | _ => trivial

end State

theorem Part.path_placed (first : Token) (rest : List Token) : (path first rest).node.loc.isSome := by
  cases rest <;> rfl

theorem Pending.toComparison_placed (p : Pending) {e : Part} (h : e.node.loc.isSome) :
    (p.toComparison e).node.loc.isSome := by
  have hunary : (p.toUnary e).node.loc.isSome := by
    rw [toUnary]
    generalize p.unary = ops
    induction ops generalizing e with
    | nil => exact h
    | cons op ops ih => exact ih rfl
  have hlevel : ∀ (kind : String) (level : Option OpenChain) {e : Part}, e.node.loc.isSome →
      (closeLevel kind level e).node.loc.isSome := by
    intro kind level e he
    cases level with
    | none => exact he
    | some run => rfl
  exact hlevel _ _ (hlevel _ _ (hlevel _ _ hunary))

theorem Context.settle_placed {e : Part} {context : Context} (h : e.node.loc.isSome) :
    (context.settle e).1.node.loc.isSome := by
  fun_induction Context.settle e context with
  | case1 e target op outer ih => exact ih rfl
  | case2 e condition yes outer ih => exact ih rfl
  | case3 e context _ _ => exact h

theorem State.finishAfter_placed {e : Part} {hole : Hole} {node : Node} (he : e.node.loc.isSome)
    (h : finishAfter e hole = some node) : node.loc.isSome := by
  unfold finishAfter at h
  dsimp only at h
  split at h
  · obtain rfl := Option.some.inj h
    exact Context.settle_placed (hole.pending.toComparison_placed he)
  · cases h

theorem State.finish_placed {s : State} {node : Node} (hs : s.Sound .expression) (hp : s.Placed)
    (h : s.finish = some node) : node.loc.isSome := by
  cases s with
  | after e hole => exact finishAfter_placed hp h
  | path first rest hole => exact finishAfter_placed (Part.path_placed first rest) h
  | statement place => exact nomatch hs.1
  | _ => cases h

end Reader

/-! ## Readings -/

namespace Parser

open Reader Lexer

namespace Reading

variable {list : Place} {source : List Char} {r goal : Reading} {node : Node}

/-- The reading where the whole program is a statement of a list instead. -/
def asStatement (list : Place) (r : Reading) : Reading :=
  { r with state := r.state.asStatement list }

/-- **The run.**  What is read of an expression is read of its statement. -/
theorem Reaches.asStatement (h : r.Reaches goal) :
    (r.asStatement list).Reaches (goal.asStatement list) := by
  induction h with
  | refl r => exact .refl _
  | @token r goal terminal n next hl hf _ ih =>
    have hlex : lexeme (r.asStatement list).state.mode (skip r.place).rest = some (terminal, n) := by
      rw [Reading.asStatement, State.mode_asStatement]
      exact hl
    exact .token hlex (State.feed_asStatement hf) ih

theorem Reaches.placed (h : r.Reaches goal) (hr : r.state.Placed) : goal.state.Placed := by
  induction h with
  | refl r => exact hr
  | token _ hf _ ih => exact ih (State.feed_placed hf)

/-- An expression is read as a statement, if its first token opens no other one. -/
theorem Reaches.statement (h : (start .expression source).Reaches goal)
    (hr : (skip goal.place).rest = []) (hf : goal.state.finish = some node)
    (ho : OpensExpression node.texts) :
    (start .script source).Reaches (goal.asStatement (.script [])) := by
  have hresult := result_done hr hf
  cases h with
  | refl => cases hf
  | @token _ _ terminal n next hl hfeed hreaches =>
    obtain ⟨hnext, htexts⟩ := State.feed_sound (initial_sound .expression) (tokenAt_fits hl) hfeed
    obtain ⟨-, texts, -, hnode⟩ := readFrom_sound hnext (hreaches.result_eq.trans hresult)
    have hword : String.ofList ((skip (Cursor.start source)).rest.take n) ∉ openingWords := by
      rw [hnode, htexts] at ho
      exact ho _ rfl
    have hstatement : State.feedOperand (Context.statement (.script [])).hole
        ((start .expression source).token terminal n) = some (next.asStatement (.script [])) :=
      State.feedOperand_eq_some.2 (State.feedOperand_eq_some.1 hfeed).asStatement
    refine .token (lexeme_statement hl hword) ?_ hreaches.asStatement
    show State.feed (.statement (.script [])) _ = some (next.asStatement (.script []))
    cases terminal with
    | lbrace | rbrace | functionWord | letWord | constWord | returnWord => cases hfeed
    | _ => exact hstatement

end Reading

/-- **An expression is a statement.**  A semicolon in a new line makes a script of one statement out
of an expression that starts with no word of another statement. -/
theorem parse_statement {text : String} {node : Node} (h : parse .expression text = .ok node)
    (ho : OpensExpression node.texts) :
    node.loc.isSome ∧ ∃ loc, parse .script (text ++ "\n;") =
      .ok ⟨some loc, .script [⟨some loc, .expression node⟩]⟩ := by
  obtain ⟨goal, hreaches, hstops⟩ := Reading.exists_stops (Reading.start .expression text.toList)
  rw [show (Reading.start .expression text.toList).result = .ok node from h] at hstops
  cases hstops with
  | done hr hf =>
    have hsound : goal.state.Sound .expression := hreaches.sound (initial_sound _)
    refine ⟨State.finish_placed hsound (hreaches.placed trivial) hf, ?_⟩
    have hin : (Reading.start .expression text.toList).place.In text.toList := Cursor.in_start _
    obtain ⟨before, htext, hb⟩ := (hreaches.within hin nofun).1.skip
    rw [hr, List.append_nil] at htext
    obtain ⟨other, hother, hstate, hskip⟩ :=
      (hreaches.statement hr hf ho).continues (.newline [';'])
    have hplace : (skip other.place).rest = [';'] := by
      rw [hskip, skip_newline, skip, gapLength_eq_zero rfl]
      rfl
    obtain ⟨hmode, start, hfeed⟩ := State.feed_semicolon (t := other.token .semicolon 1) hsound hstate
      hf rfl
    have hlex : lexeme other.state.mode (skip other.place).rest = some (.semicolon, 1) := by
      rw [hmode, hplace]
      rfl
    have hend : (skip ((skip other.place).advance 1)).rest = [] := by
      rw [skip, Cursor.rest_advance, Cursor.rest_advance, hplace]
      exact List.drop_nil
    rw [show (skip (goal.asStatement (.script [])).place).offset = text.toList.length by
      rw [htext]; exact hb.offset, List.take_length] at hother
    refine ⟨start.locate (other.token .semicolon 1).stop, ?_⟩
    rw [parse, String.toList_append]
    refine (hother.result_eq.trans (Reading.Reaches.token hlex hfeed (.refl _)).result_eq).trans ?_
    refine Reading.result_done hend ?_
    show some (State.scriptNode [_]) = _
    rw [show (parting _ _).move = id from rfl, Node.moved_id]
    rfl

end Parser

/-! ## Runs -/

theorem Fault.attach_attach {ε : Type} (loc : Option Location) {own : Option Location}
    (h : own.isSome) (fault : Fault ε) : (fault.attach own).attach loc = fault.attach own := by
  cases fault with
  | breakdown b => rfl
  | error e =>
    obtain ⟨l, rfl⟩ := Option.isSome_iff_exists.1 h
    obtain ⟨cause, place, trace⟩ := e
    cases place <;> rfl

namespace Eval

variable {ε σ : Type} [BEq ε] (call : Caller ε σ)

/-- A script that is one expression comes to its value, and its errors keep their places. -/
theorem outcome_expression_script {node : Node} (hloc : node.loc.isSome) (loc : Option Location)
    (w : World ε σ) :
    ((do return (← execute call ⟨loc, .script [⟨loc, .expression node⟩]⟩).unwrap) :
      Exec ε σ (Value ε)).outcome w = (evaluate call node).outcome w := by
  obtain ⟨own, form⟩ := node
  rw [Exec.outcome_bind, outcome_execute, executeForm, executeAll, Exec.outcome_bind, outcome_execute,
    executeForm, Exec.outcome_bind, outcome_evaluate, outcome_evaluate]
  dsimp only
  generalize (evaluateForm call own form).outcome { w with visited := some ⟨own, form⟩ } = r
  obtain ⟨fault | v, after⟩ := r
  · show (Except.error (((fault.attach own).attach loc).attach loc), after) = _
    rw [Fault.attach_attach loc hloc, Fault.attach_attach loc hloc]
    rfl
  · rfl

end Eval

/-- **An expression runs as a script.**  A text that is an expression, and whose first token is not
one of the words that open another statement, becomes a script of one statement by a semicolon in a
new line.  Both come to the same value or error, and leave the same world. -/
theorem expression_runs_as_script {ε σ : Type} [BEq ε] (host : Host ε σ) {text : String} {node : Node}
    (hp : Parser.parse .expression text = .ok node)
    (ho : ∀ texts ∈ Lexer.cut text.toList, OpensExpression texts) (w : World ε σ) :
    (∃ loc, Parser.parse .script (text ++ "\n;") =
        .ok ⟨some loc, .script [⟨some loc, .expression node⟩]⟩) ∧
      (Session.runScript host (text ++ "\n;")).outcome w =
        (Session.runExpression host text).outcome w := by
  obtain ⟨hloc, loc, hparse⟩ := Parser.parse_statement hp (ho _ (Parser.texts_of_parse hp))
  refine ⟨⟨loc, hparse⟩, ?_⟩
  rw [Session.runScript_eq host hparse, Session.runExpression_eq host hp]
  exact Eval.outcome_expression_script _ hloc _ w

/-- A name that is spelled like a keyword and a comment at the end make no difference. -/
theorem expression_runs_as_script_comment :
    let text := "n += let // not at the start"
    let w := ((Session.runScript Host.none "let n = 1; const let = 2;").outcome (.initial ())).2
    ∃ node, Parser.parse .expression text = .ok node ∧
      (∃ loc, Parser.parse .script (text ++ "\n;") =
        .ok ⟨some loc, .script [⟨some loc, .expression node⟩]⟩) ∧
      (Session.runScript Host.none (text ++ "\n;")).outcome w =
        (Session.runExpression Host.none text).outcome w := by
  intro text w
  have hok : (Parser.parse .expression text).isOk := by decide +kernel
  have hcut : Lexer.cut text.toList = some ["n", "+=", "let"] := by decide +kernel
  cases hp : Parser.parse .expression text with
  | error m => rw [hp] at hok; cases hok
  | ok node =>
    refine ⟨node, rfl, expression_runs_as_script Host.none hp ?_ w⟩
    rw [hcut]
    rintro _ ⟨⟩ _ ⟨⟩
    decide

end Scriptlet
