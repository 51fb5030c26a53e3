import Scriptlet.Syntax.Reader

/-!
# What a token can do

One constructor for each thing that a token can do to a state of the reader, with what has to hold
for it: `Feeds` for a whole state, `FeedsOperand` where an operand is expected, `FeedsAfter` behind
one, and `Closes` at the end of an expression.  The reader takes exactly these steps
(`feed_eq_some`), so a property of its states is shown step by step, with no look at how the reader
picks the step.
-/

namespace Scriptlet.Reader

set_option autoImplicit false

theorem Pending.eq_empty {p : Pending} (h : p.isEmpty) : p = empty := by
  obtain ⟨_ | _, _ | _, _ | _, _ | _⟩ := p <;> simp_all [isEmpty, empty]

namespace State

variable {t : Token}

/-- What a token that ends the expression `e` leads to. -/
inductive Closes (t : Token) (e : Part) : Context → State → Prop where
  | colon {condition : Part} {outer : Context} : t.terminal = .colon →
      Closes t e (.thenBranch condition outer) (.operand (Context.elseBranch condition e outer).hole)
  | group {lpar : Token} {outer : Hole} : t.terminal = .rpar →
      Closes t e (.group lpar outer) (.after (.build (.group e.node) lpar.start t.stop) outer)
  | comma {callee : Part} {done : List Part} {outer : Hole} : t.terminal = .comma →
      Closes t e (.arg callee done outer)
        (.operand (Context.arg callee (done ++ [e]) outer).hole)
  | call {callee : Part} {done : List Part} {outer : Hole} : t.terminal = .rpar →
      Closes t e (.arg callee done outer)
        (.after (.build (.call callee.node ((done ++ [e]).map (·.node))) callee.start t.stop) outer)
  | statement {place : Place} : t.terminal = .semicolon →
      Closes t e (.statement place)
        (.statement (place.push (.build (.expression e.node) e.start t.stop)))
  | initial {keyword name : Token} {isMutable : Bool} {place : Place} : t.terminal = .semicolon →
      Closes t e (.initial keyword name isMutable place)
        (.statement (place.push
          (.build (.declaration name.text e.node isMutable) keyword.start t.stop)))
  | ret {keyword : Token} {place : Place} : t.terminal = .semicolon →
      Closes t e (.ret keyword place)
        (.statement (place.push (.build (.ret (some e.node)) keyword.start t.stop)))

/-- What a token behind the operand `e` leads to. -/
inductive FeedsAfter (t : Token) (e : Part) (hole : Hole) : State → Prop where
  | assign : t.terminal ∈ [.equal, .plusEqual, .minusEqual, .starEqual, .slashEqual] →
      hole.pending = .empty → FeedsAfter t e hole (.operand (Context.value e t.text hole.context).hole)
  | condition : t.terminal = .qmark → FeedsAfter t e hole
      (.operand (Context.thenBranch (hole.pending.toComparison e) hole.context).hole)
  | operator {pending : Pending} : hole.pending.binary? e t = some pending →
      FeedsAfter t e hole (.operand ⟨pending, hole.context⟩)
  | close {next : State} :
      Closes t (hole.context.settle (hole.pending.toComparison e)).1
        (hole.context.settle (hole.pending.toComparison e)).2 next → FeedsAfter t e hole next

/-- What a token where an operand is expected leads to. -/
inductive FeedsOperand (t : Token) : Hole → State → Prop where
  | sign {hole : Hole} : t.terminal ∈ [.minus, .bang] → FeedsOperand t hole
      (.operand { hole with pending := { hole.pending with unary := t :: hole.pending.unary } })
  | number {hole : Hole} : t.terminal = .number →
      FeedsOperand t hole (.after (.ofToken (.number t.text) t) hole)
  | string {hole : Hole} : t.terminal = .string →
      FeedsOperand t hole (.after (.ofToken (.string t.text) t) hole)
  | boolean {hole : Hole} : t.terminal ∈ [.trueWord, .falseWord] →
      FeedsOperand t hole (.after (.ofToken (.boolean t.text) t) hole)
  | null {hole : Hole} : t.terminal = .nullWord → FeedsOperand t hole (.after (.ofToken .null t) hole)
  | name {hole : Hole} : t.terminal = .ident → FeedsOperand t hole (.path t [] hole)
  | group {hole : Hole} : t.terminal = .lpar →
      FeedsOperand t hole (.operand (Context.group t hole).hole)
  | noArgument {callee : Part} {outer : Hole} : t.terminal = .rpar →
      FeedsOperand t (Context.arg callee [] outer).hole
        (.after (.build (.call callee.node []) callee.start t.stop) outer)
  | noValue {keyword : Token} {place : Place} : t.terminal = .semicolon →
      FeedsOperand t (Context.ret keyword place).hole
        (.statement (place.push (.build (.ret none) keyword.start t.stop)))

/-- The terminals that open or close a statement of their own. -/
def openings : List Terminal :=
  [.lbrace, .rbrace, .functionWord, .letWord, .constWord, .returnWord]

/-- What a token leads to. -/
inductive Feeds (t : Token) : State → State → Prop where
  | operand {hole : Hole} {next : State} : FeedsOperand t hole next → Feeds t (.operand hole) next
  | after {e : Part} {hole : Hole} {next : State} : FeedsAfter t e hole next →
      Feeds t (.after e hole) next
  | lbrace {place : Place} : t.terminal = .lbrace →
      Feeds t (.statement place) (.statement (.block t [] place))
  | rbrace {place outer : Place} : t.terminal = .rbrace → place.close? t = some outer →
      Feeds t (.statement place) (.statement outer)
  | function {place : Place} : t.terminal = .functionWord →
      Feeds t (.statement place) (.functionName t place)
  | letWord {place : Place} : t.terminal = .letWord →
      Feeds t (.statement place) (.declaredName t true place)
  | constWord {place : Place} : t.terminal = .constWord →
      Feeds t (.statement place) (.declaredName t false place)
  | ret {place : Place} : t.terminal = .returnWord →
      Feeds t (.statement place) (.operand (Context.ret t place).hole)
  | expression {place : Place} {next : State} : t.terminal ∉ openings →
      FeedsOperand t (Context.statement place).hole next → Feeds t (.statement place) next
  | dot {first : Token} {rest : List Token} {hole : Hole} : t.terminal = .dot →
      Feeds t (.path first rest hole) (.dot first rest hole)
  | call {first : Token} {rest : List Token} {hole : Hole} : t.terminal = .lpar →
      Feeds t (.path first rest hole) (.operand (Context.arg (.path first rest) [] hole).hole)
  | path {first : Token} {rest : List Token} {hole : Hole} {next : State} :
      FeedsAfter t (.path first rest) hole next → Feeds t (.path first rest hole) next
  | member {first : Token} {rest : List Token} {hole : Hole} : t.terminal = .ident →
      Feeds t (.dot first rest hole) (.path first (rest ++ [t]) hole)
  | functionName {keyword : Token} {place : Place} : t.terminal = .ident →
      Feeds t (.functionName keyword place) (.functionParen keyword t place)
  | params {keyword name : Token} {place : Place} : t.terminal = .lpar →
      Feeds t (.functionParen keyword name place) (.firstParam keyword name place)
  | firstParam {keyword name : Token} {place : Place} : t.terminal = .ident →
      Feeds t (.firstParam keyword name place) (.afterParam ⟨keyword, name, [t]⟩ place)
  | noParam {keyword name : Token} {place : Place} : t.terminal = .rpar →
      Feeds t (.firstParam keyword name place) (.functionBrace ⟨keyword, name, []⟩ place)
  | comma {header : Header} {place : Place} : t.terminal = .comma →
      Feeds t (.afterParam header place) (.nextParam header place)
  | paramsEnd {header : Header} {place : Place} : t.terminal = .rpar →
      Feeds t (.afterParam header place) (.functionBrace header place)
  | nextParam {header : Header} {place : Place} : t.terminal = .ident →
      Feeds t (.nextParam header place)
        (.afterParam { header with params := header.params ++ [t] } place)
  | body {header : Header} {place : Place} : t.terminal = .lbrace →
      Feeds t (.functionBrace header place) (.statement (.body header t [] place))
  | declaredName {keyword : Token} {isMutable : Bool} {place : Place} : t.terminal = .ident →
      Feeds t (.declaredName keyword isMutable place) (.declaredEqual keyword t isMutable place)
  | declaredEqual {keyword name : Token} {isMutable : Bool} {place : Place} : t.terminal = .equal →
      Feeds t (.declaredEqual keyword name isMutable place)
        (.operand (Context.initial keyword name isMutable place).hole)

variable {e : Part} {context : Context} {hole : Hole} {s next : State}

theorem closeWith_eq_some : closeWith t e context = some next ↔ Closes t e context next := by
  constructor
  · intro h
    unfold closeWith at h
    split at h
    case h_8 => cases h
    all_goals
      cases h
      constructor
      assumption
  · intro h
    cases h <;> simp only [closeWith, *]

/-- A token that ends an expression is no operator. -/
theorem Closes.terminal (h : Closes t e context next) :
    t.terminal ∈ [.colon, .rpar, .comma, .semicolon] := by
  cases h <;> simp [*]

theorem feedAfter_eq_some : feedAfter e hole t = some next ↔ FeedsAfter t e hole next := by
  constructor
  · intro h
    unfold feedAfter at h
    split at h
    case h_6 hk =>
      cases h
      exact .condition hk
    case h_7 =>
      split at h
      · next hq =>
        cases h
        exact .operator hq
      · exact .close (closeWith_eq_some.1 h)
    all_goals
      rename_i hk
      split at h
      · next hempty =>
        cases h
        exact .assign (by simp [hk]) (Pending.eq_empty hempty)
      · cases h
  · intro h
    cases h with
    | assign hk hp =>
      simp only [List.mem_cons, List.not_mem_nil, or_false] at hk
      rcases hk with hk | hk | hk | hk | hk <;> simp only [feedAfter, hk, hp] <;> rfl
    | condition hk => simp only [feedAfter, hk]
    | operator hq =>
      unfold feedAfter
      split
      case h_7 => rw [hq]
      all_goals
        rename_i hk
        simp only [Pending.binary?, hk] at hq
        cases hq
    | close hc =>
      have hk := hc.terminal
      have hclose := closeWith_eq_some.2 hc
      simp only [List.mem_cons, List.not_mem_nil, or_false] at hk
      rcases hk with hk | hk | hk | hk <;> simp only [feedAfter, Pending.binary?, hk, hclose]

/-- A token behind an operand does not make a path or a call of it. -/
theorem FeedsAfter.terminal (h : FeedsAfter t e hole next) :
    t.terminal ≠ .dot ∧ t.terminal ≠ .lpar := by
  have hnone : ∀ kind ∈ [Terminal.dot, .lpar],
      kind ∉ [Terminal.equal, .plusEqual, .minusEqual, .starEqual, .slashEqual] ∧
        kind ∉ [Terminal.colon, .rpar, .comma, .semicolon] := by decide
  suffices t.terminal ∉ [Terminal.dot, .lpar] by simpa using this
  intro hmem
  cases h with
  | assign hk => exact (hnone _ hmem).1 hk
  | condition hk =>
    rw [hk] at hmem
    exact absurd hmem (by decide)
  | operator hq =>
    simp only [List.mem_cons, List.not_mem_nil, or_false] at hmem
    rcases hmem with hk | hk <;> simp only [Pending.binary?, hk] at hq <;> cases hq
  | close hc => exact (hnone _ hmem).2 hc.terminal

theorem feedOperand_eq_some : feedOperand hole t = some next ↔ FeedsOperand t hole next := by
  constructor
  · intro h
    unfold feedOperand at h
    split at h
    case h_10 =>
      unfold closeEmpty at h
      split at h
      case isFalse => cases h
      case isTrue hempty =>
        obtain ⟨pending, context⟩ := hole
        obtain rfl := Pending.eq_empty hempty
        split at h
        · next hcontext hk =>
          obtain rfl : context = _ := hcontext
          cases h
          exact .noArgument hk
        · next hcontext hk =>
          obtain rfl : context = _ := hcontext
          cases h
          exact .noValue hk
        · cases h
    all_goals
      rename_i hk
      cases h
    · exact .sign (by simp [hk])
    · exact .sign (by simp [hk])
    · exact .number hk
    · exact .string hk
    · exact .boolean (by simp [hk])
    · exact .boolean (by simp [hk])
    · exact .null hk
    · exact .name hk
    · exact .group hk
  · intro h
    cases h with
    | sign hk | boolean hk =>
      simp only [List.mem_cons, List.not_mem_nil, or_false] at hk
      rcases hk with hk | hk <;> simp only [feedOperand, hk]
    | noArgument hk | noValue hk => simp only [feedOperand, closeEmpty, hk]; rfl
    | number hk | string hk | null hk | name hk | group hk => simp only [feedOperand, hk]

/-- **The steps.**  A token leads to a state just where one of the steps does. -/
theorem feed_eq_some : s.feed t = some next ↔ Feeds t s next := by
  constructor
  · intro h
    cases s with
    | operand hole => exact .operand (feedOperand_eq_some.1 h)
    | after e hole => exact .after (feedAfter_eq_some.1 h)
    | statement place =>
      dsimp only [feed] at h
      split at h
      case h_2 hk =>
        obtain ⟨outer, hclose, rfl⟩ := Option.map_eq_some_iff.1 h
        exact .rbrace hk hclose
      case h_7 h₁ h₂ h₃ h₄ h₅ h₆ =>
        exact .expression (by simpa [openings] using ⟨h₁, h₂, h₃, h₄, h₅, h₆⟩)
          (feedOperand_eq_some.1 h)
      all_goals
        cases h
        constructor
        assumption
    | path first rest hole =>
      dsimp only [feed] at h
      split at h
      case h_3 => exact .path (feedAfter_eq_some.1 h)
      all_goals
        cases h
        constructor
        assumption
    | _ =>
      dsimp only [feed] at h
      split at h <;> cases h
      all_goals
        constructor
        assumption
  · intro h
    cases h with
    | operand h => exact feedOperand_eq_some.2 h
    | after h => exact feedAfter_eq_some.2 h
    | rbrace hk hclose => simp only [feed, hk, hclose, Option.map_some]
    | expression hk h =>
      dsimp only [feed]
      split
      case h_7 => exact feedOperand_eq_some.2 h
      all_goals
        rename_i hopens
        rw [hopens] at hk
        exact absurd (by decide) hk
    | path h =>
      dsimp only [feed]
      split
      · next hdot => exact absurd hdot h.terminal.1
      · next hlpar => exact absurd hlpar h.terminal.2
      · exact feedAfter_eq_some.2 h
    | _ => simp only [feed, *]

end State

end Scriptlet.Reader
