import Scriptlet.Proofs.Conduct
import Scriptlet.Proofs.Literals
import Scriptlet.Proofs.ParserSoundness

/-!
# How parsed programs fail

A program that was read from a source fails in few ways: with an error of the language that is not
about its text, with one of three errors about its text, for an operator that is missing, or at a
limit (`Failure.Foreseen`).  The shape of the tree and of its literals excludes every other failure,
also in the bodies of functions from earlier runs (`parsed_programs_fail_as_foreseen`).
-/

namespace Scriptlet

set_option autoImplicit false

variable {ε σ : Type}

/-- Whether a form may denote a place to assign to. -/
def Form.isPlace : Form → Bool
  | .ident _ | .member _ _ | .group _ => true
  | _ => false

/-- The failures of a program that was read from a source. -/
inductive Failure.Foreseen : Failure → Prop
  /-- An error of the language that is not about the text of the program. -/
  | error {cause : Cause} : cause.kind ≠ .parse → Foreseen (.error cause)
  /-- A numeral that denotes no number of the language. -/
  | outOfRange {text : String} : IsNumeral text.toList →
    Literal.numberMax < Numeral.value text.toList → Foreseen (.error (.outOfRange text))
  /-- A backslash in a string before a character that it does not go with. -/
  | unknownEscape : Foreseen (.error .unknownEscape)
  /-- Something in the place of a path that is no name, no path and not in parentheses. -/
  | notLvalue {loc : Option Location} {form : Form} : form.isPlace = false →
    Foreseen (.error (.notLvalue (Node.lvalueText loc form)))
  | operator {op : String} : op ∈ ["/", "%"] → Foreseen (.breakdown (.unsupported (.operator op)))
  | assignment : Foreseen (.breakdown (.unsupported (.assignment "/=")))
  | callDepth : Foreseen (.breakdown .callDepth)
  /-- A numeral of more than 4300 digits. -/
  | digitLimit {digits : List Char} : IsNumeral digits → 4300 < digits.length →
    Foreseen (.breakdown (.digitLimit digits.length))

theorem Failure.Ordinary.foreseen {failure : Failure} (h : failure.Ordinary) :
    failure.Foreseen := by
  cases failure with
  | error cause => exact .error h
  | breakdown b =>
    obtain rfl : b = .callDepth := h
    exact .callDepth

/-! ## Literals -/

namespace Literal

theorem number_error {text : String} {failure : Failure} (h : IsNumeral text.toList)
    (he : number text = .error failure) : failure.Foreseen := by
  rw [number_numeral h] at he
  split at he
  · next hlong =>
    obtain rfl := Except.error.inj he
    exact .digitLimit h hlong
  · split at he
    · cases he
    · next hrange =>
      obtain rfl := Except.error.inj he
      exact .outOfRange h (Int.ofNat_lt.2 (Nat.lt_of_not_le hrange))

/-- Between its quotes a string fails at unknown escapes only. -/
theorem contents_error {q : Char} {body : List Char} {cause : Cause} (hq : q ≠ '\\')
    (h : IsStringBody q body) (he : contents q (body ++ [q]) = .error cause) :
    cause = .unknownEscape := by
  induction h generalizing cause with
  | nil =>
    simp [contents, hq] at he
  | @plain c rest hcq hs _ _ ih =>
    rw [List.cons_append, contents.eq_def] at he
    simp only [hs, hcq, if_false] at he
    exact ih (except_map_eq_error.1 he)
  | @escaped c rest _ _ ih =>
    rw [List.cons_append, List.cons_append, contents, if_pos rfl] at he
    cases hc : escape? c with
    | none =>
      simp only [hc] at he
      exact (Except.error.inj he).symm
    | some d =>
      simp only [hc] at he
      exact ih (except_map_eq_error.1 he)

theorem string_error {text : String} {cause : Cause} (h : IsQuoted text.toList)
    (he : string text = .error cause) : cause = .unknownEscape := by
  obtain ⟨q, body, hq, htext, hbody⟩ := h
  have hslash : q ≠ '\\' := by
    rcases hq with rfl | rfl <;> decide
  obtain ⟨c, rest, hrest⟩ : ∃ c rest, body ++ [q] = c :: rest := by
    cases body with
    | nil => exact ⟨q, [], rfl⟩
    | cons c rest => exact ⟨c, rest ++ [q], rfl⟩
  have hquote : (q = '"' || q = '\'') = true := by
    rcases hq with rfl | rfl <;> rfl
  rw [string, htext, hrest] at he
  simp only [hquote, if_true, ← hrest] at he
  exact contents_error hslash hbody (except_map_eq_error.1 he)

theorem boolean_error {text : String} {cause : Cause} (h : text = "true" ∨ text = "false")
    (he : boolean text = .error cause) : False := by
  rcases h with rfl | rfl <;> exact nomatch he

end Literal

/-! ## Expressions and statements -/

/-- A step of a node's path is no name where the node holds something else. -/
theorem Node.path_raises {failure : Failure} :
    (node : Node) → node.path.Raises failure → failure.Foreseen
  | ⟨_, .ident name⟩, h => (Path.not_raises_name h).elim
  | ⟨_, .group expr⟩, h => expr.path_raises h
  | ⟨_, .member object member⟩, h =>
    (Path.raises_append.1 h).elim object.path_raises member.path_raises
  | ⟨_, .bare⟩, h | ⟨_, .number _⟩, h | ⟨_, .string _⟩, h | ⟨_, .boolean _⟩, h | ⟨_, .null⟩, h
  | ⟨_, .call _ _⟩, h | ⟨_, .ternary _ _ _⟩, h | ⟨_, .assign _ _ _⟩, h | ⟨_, .chain _ _ _⟩, h
  | ⟨_, .unary _ _⟩, h | ⟨_, .expression _⟩, h | ⟨_, .block _⟩, h | ⟨_, .function _ _ _ _⟩, h
  | ⟨_, .declaration _ _ _⟩, h | ⟨_, .ret _⟩, h | ⟨_, .script _⟩, h => by
    obtain ⟨text, ht, rfl⟩ := h
    obtain ⟨rfl⟩ := List.mem_singleton.1 ht
    exact .notLvalue rfl

namespace Level

/-- The one assignment operator of the grammar that the language does not have. -/
theorem missing_assignment : ∀ op ∈ expression.operators, op ∉ assignmentOperators → op = "/=" := by
  decide

/-- The binary operators of the grammar that the language does not have. -/
theorem missing_operator {kind : String} {level : Level} (h : ofKind? kind = some level) :
    ∀ op ∈ level.operators, op ∉ binaryOperators → op ∈ ["/", "%"] := by
  rcases ofKind?_cases h with ⟨_, rfl⟩ | ⟨_, rfl⟩ | ⟨_, rfl⟩
  · decide
  · decide
  · decide

end Level

mutual

/-- An expression raises what is foreseen. -/
theorem Node.IsExpression.foreseen {failure : Failure} :
    (node : Node) → node.IsExpression → node.Raises failure → failure.Foreseen
  | ⟨_, form⟩, h, hr => Form.IsExpression.foreseen form h hr

theorem Form.IsExpression.foreseen {failure : Failure} :
    (form : Form) → form.IsExpression → form.Raises failure → failure.Foreseen
  | .number text, h, hr => Literal.number_error h hr
  | .string text, h, hr => by
    obtain ⟨cause, hc, rfl⟩ := mapError_eq_error.1 hr
    rw [Literal.string_error h hc]
    exact .unknownEscape
  | .boolean text, h, hr => by
    obtain ⟨cause, hc, _⟩ := mapError_eq_error.1 hr
    exact (Literal.boolean_error h hc).elim
  | .null, _, hr | .ident _, _, hr => hr.elim
  | .member object member, _, hr => Node.path_raises ⟨none, .member object member⟩ hr
  | .group expr, h, hr => Node.IsExpression.foreseen expr h hr
  | .call callee args, ⟨_, _, hargs⟩, hr => by
    rcases hr with hr | hr
    · exact callee.path_raises hr
    · exact Node.AreExpressions.foreseen args hargs hr
  | .ternary condition thenBranch elseBranch, ⟨_, hc, ht, he⟩, hr => by
    rcases hr with hr | hr | hr
    · exact Node.IsExpression.foreseen condition hc hr
    · exact Node.IsExpression.foreseen thenBranch ht hr
    · exact Node.IsExpression.foreseen elseBranch he hr
  | .assign target op value, ⟨_, _, hop, hv⟩, hr => by
    rcases hr with hr | hr | ⟨hnot, rfl⟩
    · exact Node.IsExpression.foreseen value hv hr
    · exact target.path_raises hr
    · rw [Level.missing_assignment op hop hnot]
      exact .assignment
  | .chain kind first rest, ⟨level, hk, _, hf, _, hrest⟩, hr => by
    rcases hr with hr | hr
    · exact Node.IsExpression.foreseen first hf hr
    · exact Node.AreOperands.foreseen rest hk hrest hr
  | .unary op operand, ⟨hop, _, ho⟩, hr => by
    rcases hr with hr | ⟨hnot, _⟩
    · exact Node.IsExpression.foreseen operand ho hr
    · exact (hnot hop).elim
  | .bare, h, _ | .expression _, h, _ | .block _, h, _ | .function _ _ _ _, h, _
  | .declaration _ _ _, h, _ | .ret _, h, _ | .script _, h, _ => h.elim

theorem Node.AreExpressions.foreseen {failure : Failure} :
    (nodes : List Node) → Node.AreExpressions nodes → Node.AnyRaises failure nodes →
      failure.Foreseen
  | [], _, hr => hr.elim
  | node :: rest, ⟨hn, hrest⟩, hr => by
    rcases hr with hr | hr
    · exact Node.IsExpression.foreseen node hn hr
    · exact Node.AreExpressions.foreseen rest hrest hr

theorem Node.AreOperands.foreseen {failure : Failure} {kind : String} {level : Level} :
    (rest : List (String × Node)) → Level.ofKind? kind = some level → Node.AreOperands level rest →
      Node.OperandsRaise failure rest → failure.Foreseen
  | [], _, _, hr => hr.elim
  | (op, node) :: rest, hk, ⟨hop, _, hn, hrest⟩, hr => by
    rcases hr with hr | ⟨hnot, rfl⟩ | hr
    · exact Node.IsExpression.foreseen node hn hr
    · exact .operator (Level.missing_operator hk op hop hnot)
    · exact Node.AreOperands.foreseen rest hk hrest hr

end

/-- A standard function, or a script function whose body was read from a source. -/
def Function.IsParsed (f : Function ε) : Prop :=
  match f.callback with
  | .script _ function => function.body.IsBody
  | .builtin _ => True
  | .host _ => False

mutual

/-- A statement raises what is foreseen. -/
theorem Node.IsStatement.foreseen {failure : Failure} :
    (node : Node) → node.IsStatement → node.RunRaises failure → failure.Foreseen
  | ⟨_, form⟩, h, hr => Form.IsStatement.foreseen form h hr

theorem Form.IsStatement.foreseen {failure : Failure} :
    (form : Form) → form.IsStatement → form.RunRaises failure → failure.Foreseen
  | .expression expr, ⟨h, _⟩, hr => h.foreseen expr hr
  | .block statements, h, hr => Node.AreStatements.foreseen statements h hr
  | .function _ _ _ _, _, hr => hr.elim
  | .declaration _ value _, ⟨_, h⟩, hr => h.foreseen value hr
  | .ret none, _, hr => hr.elim
  | .ret (some expr), h, hr => Node.IsExpression.foreseen expr h hr
  | .bare, h, _ | .number _, h, _ | .string _, h, _ | .boolean _, h, _ | .null, h, _
  | .ident _, h, _ | .member _ _, h, _ | .group _, h, _ | .call _ _, h, _ | .ternary _ _ _, h, _
  | .assign _ _ _, h, _ | .chain _ _ _, h, _ | .unary _ _, h, _ | .script _, h, _ => h.elim

theorem Node.AreStatements.foreseen {failure : Failure} :
    (nodes : List Node) → Node.AreStatements nodes → Node.AnyRunRaises failure nodes →
      failure.Foreseen
  | [], _, hr => hr.elim
  | node :: rest, ⟨hn, hrest⟩, hr => by
    rcases hr with hr | hr
    · exact Node.IsStatement.foreseen node hn hr
    · exact Node.AreStatements.foreseen rest hrest hr

end

mutual

/-- A statement declares functions whose bodies were read with it. -/
theorem Node.IsStatement.declared {g : ScriptFunction} :
    (node : Node) → node.IsStatement → g ∈ node.declared → g.body.IsBody
  | ⟨_, form⟩, h, hg => Form.IsStatement.declared form h hg

theorem Form.IsStatement.declared {g : ScriptFunction} :
    (form : Form) → form.IsStatement → g ∈ form.declared → g.body.IsBody
  | .block statements, h, hg => Node.AreStatements.declared statements h hg
  | .function _ _ _ _, ⟨_, _, h⟩, hg => by
    obtain rfl := List.mem_singleton.1 hg
    exact h
  | .expression _, _, hg | .declaration _ _ _, _, hg | .ret _, _, hg => nomatch hg
  | .bare, h, _ | .number _, h, _ | .string _, h, _ | .boolean _, h, _ | .null, h, _
  | .ident _, h, _ | .member _ _, h, _ | .group _, h, _ | .call _ _, h, _ | .ternary _ _ _, h, _
  | .assign _ _ _, h, _ | .chain _ _ _, h, _ | .unary _ _, h, _ | .script _, h, _ => h.elim

theorem Node.AreStatements.declared {g : ScriptFunction} :
    (nodes : List Node) → Node.AreStatements nodes → g ∈ Node.allDeclared nodes → g.body.IsBody
  | [], _, hg => nomatch hg
  | node :: rest, ⟨hn, hrest⟩, hg => by
    rcases List.mem_append.1 hg with hg | hg
    · exact Node.IsStatement.declared node hn hg
    · exact Node.AreStatements.declared rest hrest hg

end

theorem Block.IsBody.statements {body : Block} (h : body.IsBody) :
    Node.AreStatements body.statements := by
  cases body
  exact h

/-- The body of a parsed function raises what is foreseen and declares parsed functions. -/
theorem Function.closed_parsed :
    Function.Closed (Function.IsParsed : Function ε → Prop) Failure.Foreseen where
  owned f hf e he := by
    rw [IsParsed, he] at hf
    exact hf
  body f id g hf hg := by
    rw [IsParsed, hg] at hf
    refine ⟨fun _ => Node.AreStatements.foreseen _ hf.statements, ?_⟩
    intro h hh k
    exact Node.AreStatements.declared _ hf.statements hh

/-! ## Runs -/

/-- The terms of a parsed program: functions are parsed, objects may be shared, and failures are
foreseen. -/
def Terms.parsed : Terms ε where
  function := Function.IsParsed
  shares := True
  target _ := True
  fails := Failure.Foreseen
  ordinary _ := Failure.Ordinary.foreseen
  parts _ := False

variable [BEq ε]

/-- Runs the tree of a source, with at most `depth` calls open at once. -/
def Rule.run (host : Host ε σ) (depth : Nat) : Rule → Node → Exec ε σ (Value ε)
  | .expression, node => Eval.evaluate (Eval.callFunction host depth) node
  | .script, node => do return (← Eval.execute (Eval.callFunction host depth) node).unwrap

theorem Rule.run_follows (host : Host ε σ) (depth : Nat) {rule : Rule} {node : Node}
    (h : node.Fits rule) :
    Exec.Follows Terms.parsed true (Value.Every Function.IsParsed) (rule.run host depth node)
      (rule.run host depth node) := by
  have hc := callFunction_follows host Terms.parsed Function.closed_parsed depth
  cases rule with
  | expression =>
    have hrun := Eval.evaluate_follows hc node (fun _ _ => trivial)
      fun _ => Node.IsExpression.foreseen node h
    exact hrun.defining
  | script =>
    obtain ⟨statements, hform, hs⟩ := h
    obtain ⟨loc, form⟩ := node
    obtain rfl : form = .script statements := hform
    have hrun := Eval.execute_follows hc ⟨loc, .script statements⟩ (fun _ _ => trivial)
      (fun _ => Node.AreStatements.foreseen statements hs)
      fun g hg _ => Node.AreStatements.declared statements hs hg
    exact hrun.bind fun _ ho => .pure ho

/-- A function of the standard library. -/
def Function.IsStandard (f : Function ε) : Prop :=
  ∃ b, f.callback = .builtin b

omit [BEq ε] in
theorem Function.IsStandard.isParsed {f : Function ε} (h : f.IsStandard) : f.IsParsed := by
  obtain ⟨b, hb⟩ := h
  rw [IsParsed, hb]
  trivial

/-- Whether every number of a value has a text. -/
def Value.HasText (v : Value ε) : Prop :=
  v.Leaves fun
    | .number n => Numeral.isWide n = false
    | _ => True

/-- The worlds that a host comes to from an empty one by defining scalars, objects and standard
functions, and by running sources, whatever they come to.  It may keep an object and define it under
several names.  Integers too long to be turned into text are no numbers of the language. -/
inductive Supplied (host : Host ε σ) : World ε σ → Prop
  | initial (state : σ) : Supplied host (.initial state)
  | share {w : World ε σ} {fields : List (Slot ε)} (holder : ε) :
    Supplied host w → (∀ field ∈ fields, field.value.Holds Function.IsStandard True ∧ field.value.HasText) →
    Supplied host { w with store := (w.store.share holder (.object fields)).2 }
  | define {w : World ε σ} {v : Value ε} (name : String) (isMutable : Bool) :
    Supplied host w → v.Holds Function.IsStandard True → v.HasText →
    Supplied host ((Session.define name isMutable v).outcome w).2
  | run {w : World ε σ} {rule : Rule} {source : String} {node : Node} (depth : Nat) :
    Supplied host w → Parser.parse rule source = .ok node →
    Supplied host ((rule.run host depth node).outcome w).2

/-- Every function in such a world has `P` if the standard ones do and every run leaves it so. -/
theorem Supplied.holds_of {host : Host ε σ} {P : Function ε → Prop}
    (hstandard : ∀ f : Function ε, f.IsStandard → P f)
    (hrun : ∀ {w : World ε σ} {rule : Rule} {source : String} {node : Node} (depth : Nat),
      Parser.parse rule source = .ok node → w.Holds P True →
      ((rule.run host depth node).outcome w).2.Holds P True)
    {w : World ε σ} (h : Supplied host w) : w.Holds P True := by
  induction h with
  | initial state => exact ⟨Scope.All.empty, fun _ => Store.holds_iff.2 (List.forall_mem_nil _)⟩
  | share holder _ hfields ih =>
    refine ⟨ih.scope, fun _ => Store.holds_iff.2 ?_⟩
    intro fields hf
    rcases List.mem_append.1 hf with hf | hf
    · exact Store.holds_iff.1 (ih.store trivial) fields hf
    · obtain rfl := List.mem_singleton.1 hf
      exact fun field hfield => (hfields field hfield).1.imp hstandard
  | define name isMutable _ hv _ ih =>
    rw [Session.define, Exec.outcome_define]
    split
    · next scope hd => exact ⟨Scope.All.define ih.scope (hv.imp hstandard) hd, ih.store⟩
    · exact ih
  | run depth _ hp ih => exact hrun depth hp ih

/-- Every function in such a world is a standard function or was read from a source. -/
theorem Supplied.holds {host : Host ε σ} {w : World ε σ} (h : Supplied host w) :
    w.Holds Function.IsParsed True :=
  h.holds_of (fun _ => Function.IsStandard.isParsed) fun depth hp hw =>
    (Rule.run_follows host depth (Parser.fits_of_parse hp) _ hw).holds

/-- A source that parses, run as what it was parsed as, fails in no other way than foreseen: not for
any other missing feature, and with no other error about its text. -/
theorem parsed_programs_fail_as_foreseen {host : Host ε σ} {w : World ε σ} (hw : Supplied host w)
    {rule : Rule} {source : String} {node : Node} (hp : Parser.parse rule source = .ok node)
    (depth : Nat) {fault : Fault ε} (h : ((rule.run host depth node).outcome w).1 = .error fault) :
    fault.failure.Foreseen :=
  (Rule.run_follows host depth (Parser.fits_of_parse hp) w hw.holds).failure fault h

/-- In a session a script that parses is run with as many open calls as a session allows. -/
theorem Session.outcome_runScript (host : Host ε σ) {source : String} {node : Node}
    (hp : Parser.parse .script source = .ok node) (w : World ε σ) :
    (Session.runScript host source).outcome w =
      (Rule.script.run host Session.callLimit node).outcome w := by
  rw [Session.runScript_eq host hp]
  rfl

/-- A function from an earlier run fails where it uses an operator that is missing. -/
theorem parsed_programs_fail_as_foreseen_later :
    let earlier : Exec Empty Unit (Value Empty) :=
      Session.runScript Host.none "function f(x) \x7b return x % 2; \x7d"
    let later : Exec Empty Unit (Value Empty) := Session.runScript Host.none "f(7);"
    let w := (earlier.outcome (.initial ())).2
    Supplied Host.none w ∧ ∃ fault, (later.outcome w).1 = .error fault ∧
      fault.failure = .breakdown (.unsupported (.operator "%")) ∧ fault.failure.Foreseen := by
  intro earlier later w
  have parses : ∀ source, (Parser.parse .script source).isOk →
      ∃ node, Parser.parse .script source = .ok node := by
    intro source h
    cases hp : Parser.parse .script source with
    | error m => rw [hp] at h; exact nomatch h
    | ok node => exact ⟨node, rfl⟩
  obtain ⟨first, hfirst⟩ := parses "function f(x) \x7b return x % 2; \x7d" (by decide +kernel)
  obtain ⟨second, hsecond⟩ := parses "f(7);" (by decide +kernel)
  have hw : Supplied Host.none w := by
    have hrun : w = ((Rule.script.run Host.none Session.callLimit first).outcome (.initial ())).2 :=
      congrArg Prod.snd (Session.outcome_runScript Host.none hfirst _)
    rw [hrun]
    exact .run _ (.initial ()) hfirst
  have hfailure : (match (later.outcome w).1 with
      | .error fault => some fault.failure
      | .ok _ => none) = some (.breakdown (.unsupported (.operator "%"))) := by decide +kernel
  cases hr : (later.outcome w).1 with
  | ok v => rw [hr] at hfailure; exact nomatch hfailure
  | error fault =>
    rw [hr] at hfailure
    refine ⟨hw, fault, rfl, Option.some.inj hfailure, ?_⟩
    have hlater := congrArg Prod.fst (Session.outcome_runScript Host.none hsecond w)
    exact parsed_programs_fail_as_foreseen hw hsecond Session.callLimit (hlater.symm.trans hr)

end Scriptlet
