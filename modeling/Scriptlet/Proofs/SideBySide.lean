import Mathlib.Data.List.Forall2
import Scriptlet.Proofs.Moving
import Scriptlet.Proofs.ReaderSteps

/-!
# Two readings side by side

The reader uses the places of its tokens for one thing only: a node covers the text from the start of
its first token to the end of its last one.  So two readings of the same tokens at other places go on
side by side, and their trees differ in their locations only.

A `Tie` says how the places of the two readings correspond, and what is known about the locations
that the first one gives out.  `feed_tied` is the step: tied states take tied tokens to tied states.
Every location is made of the start of an earlier token and of the end of the last one, so the tie
has to hold of starts in front of the latest end alone, and it moves on with that end.
-/

namespace Scriptlet.Reader

set_option autoImplicit false

/-- How the places of two readings correspond. -/
structure Tie where
  /-- Two places that stand for each other, in front of the end `k` of a token. -/
  start : (k : Nat) → Cursor → Cursor → Prop
  /-- The end of a token in the second reading. -/
  stop : Nat → Nat
  /-- A location of the first reading in the second one. -/
  move : Location → Location
  /-- What is known about the locations of the first reading. -/
  good : Location → Prop
  /-- The statements that the second reading has in front of those of the first. -/
  before : List Part
  text_move : ∀ loc, (move loc).text = loc.text
  later : ∀ {k k' : Nat} {c c' d d' : Cursor}, start k c c' → start k' d d' → k ≤ k' → start k' c c'
  located : ∀ {k : Nat} {c c' : Cursor}, start k c c' →
    good (c.locate k) ∧ c'.locate (stop k) = move (c.locate k)

/-- A tie that moves nothing keeps the texts. -/
theorem Tie.text_id (loc : Location) : (id loc).text = loc.text := rfl

variable {τ : Tie} {k l : Nat}

/-! ## States -/

/-- A token in two readings that have come to the end `k`. -/
structure TiedToken (τ : Tie) (k : Nat) (t t' : Token) : Prop where
  terminal : t'.terminal = t.terminal
  text : t'.text = t.text
  start : τ.start k t.start t'.start
  good : τ.good (t.start.locate t.stop)
  moved : t'.start.locate t'.stop = τ.move (t.start.locate t.stop)

/-- The next token of two readings. -/
structure NextToken (τ : Tie) (t t' : Token) : Prop where
  terminal : t'.terminal = t.terminal
  text : t'.text = t.text
  start : τ.start t.stop t.start t'.start
  stop : t'.stop = τ.stop t.stop

/-- A node in two readings. -/
structure TiedPart (τ : Tie) (k : Nat) (p p' : Part) : Prop where
  start : τ.start k p.start p'.start
  node : p'.node = p.node.moved τ.move
  good : ∀ loc ∈ p.node.spots, τ.good loc

/-- A node in two readings that ends with the last token. -/
structure LastPart (τ : Tie) (k : Nat) (p p' : Part) : Prop extends TiedPart τ k p p' where
  stop : p.stop = k
  stop' : p'.stop = τ.stop k

/-- A run of operators in two readings. -/
structure TiedChain (τ : Tie) (k : Nat) (run run' : OpenChain) : Prop where
  first : TiedPart τ k run.first run'.first
  rest : List.Forall₂ (fun p p' => p'.1 = p.1 ∧ TiedPart τ k p.2 p'.2) run.rest run'.rest
  op : run'.op = run.op

/-- The operators that wait for an operand in two readings. -/
structure TiedPending (τ : Tie) (k : Nat) (p p' : Pending) : Prop where
  comparison : Option.Rel (TiedChain τ k) p.comparison p'.comparison
  sum : Option.Rel (TiedChain τ k) p.sum p'.sum
  product : Option.Rel (TiedChain τ k) p.product p'.product
  unary : List.Forall₂ (TiedToken τ k) p.unary p'.unary

/-- The head of a function in two readings. -/
structure TiedHeader (τ : Tie) (k : Nat) (header header' : Header) : Prop where
  keyword : TiedToken τ k header.keyword header'.keyword
  name : TiedToken τ k header.name header'.name
  params : List.Forall₂ (TiedToken τ k) header.params header'.params

/-- The open statement lists of two readings.  The second one may have begun with more statements. -/
inductive TiedPlace (τ : Tie) (k : Nat) : Place → Place → Prop where
  | script {done done' : List Part} : List.Forall₂ (TiedPart τ k) done done' →
      (∀ loc ∈ (State.scriptNode done).loc, τ.good loc) →
      TiedPlace τ k (.script done) (.script (τ.before ++ done'))
  | block {lbrace lbrace' : Token} {done done' : List Part} {outer outer' : Place} :
      TiedToken τ k lbrace lbrace' → List.Forall₂ (TiedPart τ k) done done' →
      TiedPlace τ k outer outer' → TiedPlace τ k (.block lbrace done outer) (.block lbrace' done' outer')
  | body {header header' : Header} {lbrace lbrace' : Token} {done done' : List Part}
      {outer outer' : Place} : TiedHeader τ k header header' → TiedToken τ k lbrace lbrace' →
      List.Forall₂ (TiedPart τ k) done done' → TiedPlace τ k outer outer' →
      TiedPlace τ k (.body header lbrace done outer) (.body header' lbrace' done' outer')

/-- Where an expression stands in two readings. -/
inductive TiedContext (τ : Tie) (k : Nat) : Context → Context → Prop where
  | whole : TiedContext τ k .whole .whole
  | statement {place place' : Place} : TiedPlace τ k place place' →
      TiedContext τ k (.statement place) (.statement place')
  | initial {keyword keyword' name name' : Token} {isMutable : Bool} {place place' : Place} :
      TiedToken τ k keyword keyword' → TiedToken τ k name name' → TiedPlace τ k place place' →
      TiedContext τ k (.initial keyword name isMutable place) (.initial keyword' name' isMutable place')
  | ret {keyword keyword' : Token} {place place' : Place} : TiedToken τ k keyword keyword' →
      TiedPlace τ k place place' → TiedContext τ k (.ret keyword place) (.ret keyword' place')
  | group {lpar lpar' : Token} {p p' : Pending} {outer outer' : Context} :
      TiedToken τ k lpar lpar' → TiedPending τ k p p' → TiedContext τ k outer outer' →
      TiedContext τ k (.group lpar ⟨p, outer⟩) (.group lpar' ⟨p', outer'⟩)
  | arg {callee callee' : Part} {done done' : List Part} {p p' : Pending} {outer outer' : Context} :
      TiedPart τ k callee callee' → List.Forall₂ (TiedPart τ k) done done' →
      TiedPending τ k p p' → TiedContext τ k outer outer' →
      TiedContext τ k (.arg callee done ⟨p, outer⟩) (.arg callee' done' ⟨p', outer'⟩)
  | thenBranch {condition condition' : Part} {outer outer' : Context} :
      TiedPart τ k condition condition' → TiedContext τ k outer outer' →
      TiedContext τ k (.thenBranch condition outer) (.thenBranch condition' outer')
  | elseBranch {condition condition' yes yes' : Part} {outer outer' : Context} :
      TiedPart τ k condition condition' → TiedPart τ k yes yes' → TiedContext τ k outer outer' →
      TiedContext τ k (.elseBranch condition yes outer) (.elseBranch condition' yes' outer')
  | value {target target' : Part} {op : String} {outer outer' : Context} :
      TiedPart τ k target target' → TiedContext τ k outer outer' →
      TiedContext τ k (.value target op outer) (.value target' op outer')

/-- The place of an operand in two readings. -/
structure TiedHole (τ : Tie) (k : Nat) (hole hole' : Hole) : Prop where
  pending : TiedPending τ k hole.pending hole'.pending
  context : TiedContext τ k hole.context hole'.context

/-- A path of names in two readings. -/
structure TiedPath (τ : Tie) (k : Nat) (first first' : Token) (rest rest' : List Token) : Prop where
  first : TiedToken τ k first first'
  rest : List.Forall₂ (TiedToken τ k) rest rest'

/-- The states of two readings that have come to the end `k` of a token. -/
inductive TiedState (τ : Tie) (k : Nat) : State → State → Prop where
  | statement {place place' : Place} : TiedPlace τ k place place' →
      TiedState τ k (.statement place) (.statement place')
  | operand {hole hole' : Hole} : TiedHole τ k hole hole' →
      TiedState τ k (.operand hole) (.operand hole')
  | after {e e' : Part} {hole hole' : Hole} : LastPart τ k e e' → TiedHole τ k hole hole' →
      TiedState τ k (.after e hole) (.after e' hole')
  | path {first first' : Token} {rest rest' : List Token} {hole hole' : Hole} :
      TiedPath τ k first first' rest rest' → (Part.path first rest).stop = k →
      (Part.path first' rest').stop = τ.stop k → TiedHole τ k hole hole' →
      TiedState τ k (.path first rest hole) (.path first' rest' hole')
  | dot {first first' : Token} {rest rest' : List Token} {hole hole' : Hole} :
      TiedPath τ k first first' rest rest' → TiedHole τ k hole hole' →
      TiedState τ k (.dot first rest hole) (.dot first' rest' hole')
  | functionName {keyword keyword' : Token} {place place' : Place} :
      TiedToken τ k keyword keyword' → TiedPlace τ k place place' →
      TiedState τ k (.functionName keyword place) (.functionName keyword' place')
  | functionParen {keyword keyword' name name' : Token} {place place' : Place} :
      TiedToken τ k keyword keyword' → TiedToken τ k name name' → TiedPlace τ k place place' →
      TiedState τ k (.functionParen keyword name place) (.functionParen keyword' name' place')
  | firstParam {keyword keyword' name name' : Token} {place place' : Place} :
      TiedToken τ k keyword keyword' → TiedToken τ k name name' → TiedPlace τ k place place' →
      TiedState τ k (.firstParam keyword name place) (.firstParam keyword' name' place')
  | afterParam {header header' : Header} {place place' : Place} : TiedHeader τ k header header' →
      TiedPlace τ k place place' → TiedState τ k (.afterParam header place) (.afterParam header' place')
  | nextParam {header header' : Header} {place place' : Place} : TiedHeader τ k header header' →
      TiedPlace τ k place place' → TiedState τ k (.nextParam header place) (.nextParam header' place')
  | functionBrace {header header' : Header} {place place' : Place} : TiedHeader τ k header header' →
      TiedPlace τ k place place' →
      TiedState τ k (.functionBrace header place) (.functionBrace header' place')
  | declaredName {keyword keyword' : Token} {isMutable : Bool} {place place' : Place} :
      TiedToken τ k keyword keyword' → TiedPlace τ k place place' →
      TiedState τ k (.declaredName keyword isMutable place) (.declaredName keyword' isMutable place')
  | declaredEqual {keyword keyword' name name' : Token} {isMutable : Bool} {place place' : Place} :
      TiedToken τ k keyword keyword' → TiedToken τ k name name' → TiedPlace τ k place place' →
      TiedState τ k (.declaredEqual keyword name isMutable place)
        (.declaredEqual keyword' name' isMutable place')

/-! ## A later end -/

/-- What stands in front of the end `k` also stands in front of the end `l`. -/
def Tie.Reaches (τ : Tie) (k l : Nat) : Prop :=
  ∀ c c', τ.start k c c' → τ.start l c c'

section Later

variable (hl : τ.Reaches k l)
include hl

theorem TiedToken.later {t t' : Token} (h : TiedToken τ k t t') : TiedToken τ l t t' :=
  { h with start := hl _ _ h.start }

theorem TiedPart.later {p p' : Part} (h : TiedPart τ k p p') : TiedPart τ l p p' :=
  { h with start := hl _ _ h.start }

theorem TiedToken.allLater {ts ts' : List Token} (h : List.Forall₂ (TiedToken τ k) ts ts') :
    List.Forall₂ (TiedToken τ l) ts ts' :=
  h.imp fun _ _ => TiedToken.later hl

theorem TiedPart.allLater {ps ps' : List Part} (h : List.Forall₂ (TiedPart τ k) ps ps') :
    List.Forall₂ (TiedPart τ l) ps ps' :=
  h.imp fun _ _ => TiedPart.later hl

theorem TiedChain.later {run run' : OpenChain} (h : TiedChain τ k run run') : TiedChain τ l run run' :=
  ⟨h.first.later hl, h.rest.imp fun _ _ hp => ⟨hp.1, hp.2.later hl⟩, h.op⟩

theorem TiedChain.levelLater {run run' : Option OpenChain} (h : Option.Rel (TiedChain τ k) run run') :
    Option.Rel (TiedChain τ l) run run' := by
  cases h with
  | none => exact .none
  | some h => exact .some (h.later hl)

theorem TiedPending.later {p p' : Pending} (h : TiedPending τ k p p') : TiedPending τ l p p' :=
  ⟨TiedChain.levelLater hl h.comparison, TiedChain.levelLater hl h.sum,
    TiedChain.levelLater hl h.product, TiedToken.allLater hl h.unary⟩

theorem TiedHeader.later {header header' : Header} (h : TiedHeader τ k header header') :
    TiedHeader τ l header header' :=
  ⟨h.keyword.later hl, h.name.later hl, TiedToken.allLater hl h.params⟩

theorem TiedPlace.later {place place' : Place} (h : TiedPlace τ k place place') :
    TiedPlace τ l place place' := by
  induction h with
  | script hdone hgood => exact .script (TiedPart.allLater hl hdone) hgood
  | block hb hdone _ ih => exact .block (hb.later hl) (TiedPart.allLater hl hdone) ih
  | body hh hb hdone _ ih => exact .body (hh.later hl) (hb.later hl) (TiedPart.allLater hl hdone) ih

theorem TiedContext.later {context context' : Context} (h : TiedContext τ k context context') :
    TiedContext τ l context context' := by
  induction h with
  | whole => exact .whole
  | statement hp => exact .statement (hp.later hl)
  | initial hk hn hp => exact .initial (hk.later hl) (hn.later hl) (hp.later hl)
  | ret hk hp => exact .ret (hk.later hl) (hp.later hl)
  | group hlpar hp _ ih => exact .group (hlpar.later hl) (hp.later hl) ih
  | arg hc hd hp _ ih => exact .arg (hc.later hl) (TiedPart.allLater hl hd) (hp.later hl) ih
  | thenBranch hc _ ih => exact .thenBranch (hc.later hl) ih
  | elseBranch hc hy _ ih => exact .elseBranch (hc.later hl) (hy.later hl) ih
  | value ht _ ih => exact .value (ht.later hl) ih

theorem TiedHole.later {hole hole' : Hole} (h : TiedHole τ k hole hole') : TiedHole τ l hole hole' :=
  ⟨h.pending.later hl, h.context.later hl⟩

theorem TiedPath.later {first first' : Token} {rest rest' : List Token}
    (h : TiedPath τ k first first' rest rest') : TiedPath τ l first first' rest rest' :=
  ⟨h.first.later hl, TiedToken.allLater hl h.rest⟩

end Later

/-! ## Building nodes -/

theorem NextToken.reaches {t t' : Token} (h : NextToken τ t t') (hk : k ≤ t.stop) :
    τ.Reaches k t.stop :=
  fun _ _ hc => τ.later hc h.start hk

theorem NextToken.tied {t t' : Token} (h : NextToken τ t t') : TiedToken τ t.stop t t' := by
  obtain ⟨hgood, hmoved⟩ := τ.located h.start
  exact ⟨h.terminal, h.text, h.start, hgood, h.stop ▸ hmoved⟩

/-- The nodes that cover the text from tied starts to the last end. -/
theorem LastPart.build {form form' : Form} {c c' : Cursor} (hc : τ.start k c c')
    (hform : form' = form.moved τ.move) (hgood : ∀ loc ∈ form.spots, τ.good loc) :
    LastPart τ k (.build form c k) (.build form' c' (τ.stop k)) := by
  obtain ⟨hloc, hmoved⟩ := τ.located hc
  refine ⟨⟨hc, ?_, ?_⟩, rfl, rfl⟩
  · simp only [Part.build, Node.moved, hmoved, hform, Option.map_some]
  · simp only [Part.build, Node.spots, Option.toList_some, List.singleton_append,
      List.forall_mem_cons]
    exact ⟨hloc, hgood⟩

theorem LastPart.ofToken {form : Form} {t t' : Token} (h : NextToken τ t t')
    (hform : form = form.moved τ.move) (hgood : ∀ loc ∈ form.spots, τ.good loc) :
    LastPart τ t.stop (.ofToken form t) (.ofToken form t') := by
  rw [Part.ofToken, Part.ofToken, h.stop]
  exact .build h.start hform hgood

/-- A name covers its own token, whatever comes after it. -/
theorem TiedToken.ident {t t' : Token} (h : TiedToken τ k t t') : TiedPart τ k (.ident t) (.ident t') := by
  refine ⟨h.start, ?_, ?_⟩
  · simp only [Part.ident, Part.ofToken, Part.build, Node.moved, Form.moved, h.moved, h.text,
      Option.map_some]
  · simp only [Part.ident, Part.ofToken, Part.build, Node.spots, Form.spots, Option.toList_some,
      List.append_nil, List.forall_mem_singleton]
    exact h.good

theorem Part.stop_path_concat (first t : Token) (rest : List Token) :
    (Part.path first (rest ++ [t])).stop = t.stop := by
  induction rest generalizing first with
  | nil => rfl
  | cons u us ih => exact ih u

theorem TiedPath.last {first first' : Token} {rest rest' : List Token}
    (h : TiedPath τ k first first' rest rest') (hs : (Part.path first rest).stop = k)
    (hs' : (Part.path first' rest').stop = τ.stop k) :
    LastPart τ k (.path first rest) (.path first' rest') := by
  obtain ⟨hfirst, hrest⟩ := h
  induction hrest generalizing first first' with
  | nil => exact ⟨hfirst.ident, hs, hs'⟩
  | @cons u u' us us' hu _ ih =>
    have htail := ih hs hs' hu
    rw [Part.path, Part.path, htail.stop, htail.stop']
    refine .build hfirst.start ?_ ?_
    · simp only [Form.moved, hfirst.ident.node, htail.node]
    · rw [Form.spots, List.forall_mem_append]
      exact ⟨hfirst.ident.good, htail.good⟩

/-- Lists of nodes in two readings. -/
theorem TiedPart.nodes {ps ps' : List Part} (h : List.Forall₂ (TiedPart τ k) ps ps') :
    ps'.map (·.node) = Node.movedAll τ.move (ps.map (·.node)) ∧
      ∀ loc ∈ Node.allSpots (ps.map (·.node)), τ.good loc := by
  induction h with
  | nil => exact ⟨rfl, nofun⟩
  | cons hp _ ih =>
    obtain ⟨hnodes, hgood⟩ := ih
    rw [List.map_cons, List.map_cons, Node.movedAll, Node.allSpots, hp.node, hnodes]
    exact ⟨rfl, List.forall_mem_append.2 ⟨hp.good, hgood⟩⟩

theorem TiedToken.texts {ts ts' : List Token} (h : List.Forall₂ (TiedToken τ k) ts ts') :
    ts'.map (·.text) = ts.map (·.text) := by
  induction h with
  | nil => rfl
  | cons ht _ ih => rw [List.map_cons, List.map_cons, ht.text, ih]

theorem TiedPart.concat {ps ps' : List Part} {p p' : Part} (h : List.Forall₂ (TiedPart τ k) ps ps')
    (hp : TiedPart τ k p p') : List.Forall₂ (TiedPart τ k) (ps ++ [p]) (ps' ++ [p']) :=
  List.rel_append h (.cons hp .nil)

/-! ## Operators -/

section Operators

variable {run run' : OpenChain} {e e' : Part} {p p' : Pending}

theorem TiedChain.operands (h : TiedChain τ k run run') (he : TiedPart τ k e e') :
    List.Forall₂ (fun p p' => p'.1 = p.1 ∧ TiedPart τ k p.2 p'.2) (run.operands e)
      (run'.operands e') :=
  List.rel_append h.rest (.cons ⟨h.op, he⟩ .nil)

theorem TiedChain.close (kind : String) (h : TiedChain τ k run run') (he : LastPart τ k e e') :
    LastPart τ k (run.close kind e) (run'.close kind e') := by
  have hnodes : ∀ {ps ps' : List (String × Part)},
      List.Forall₂ (fun p p' => p'.1 = p.1 ∧ TiedPart τ k p.2 p'.2) ps ps' →
      (ps'.map fun p => (p.1, p.2.node)) =
          Node.movedOperands τ.move (ps.map fun p => (p.1, p.2.node)) ∧
        ∀ loc ∈ Node.operandSpots (ps.map fun p => (p.1, p.2.node)), τ.good loc := by
    intro ps ps' hps
    induction hps with
    | nil => exact ⟨rfl, nofun⟩
    | cons hp _ ih =>
      obtain ⟨hnodes, hgood⟩ := ih
      rw [List.map_cons, List.map_cons, Node.movedOperands, Node.operandSpots, hp.1, hp.2.node, hnodes]
      exact ⟨rfl, List.forall_mem_append.2 ⟨hp.2.good, hgood⟩⟩
  obtain ⟨hrest, hgood⟩ := hnodes (h.operands he.toTiedPart)
  rw [OpenChain.close, OpenChain.close, he.stop, he.stop']
  refine .build h.first.start ?_ ?_
  · rw [Form.moved, h.first.node, hrest]
  · rw [Form.spots, List.forall_mem_append]
    exact ⟨h.first.good, hgood⟩

theorem TiedChain.extend {op op' : String} {level level' : Option OpenChain} (hop : op' = op)
    (h : Option.Rel (TiedChain τ k) level level') (he : TiedPart τ k e e') :
    TiedChain τ k (.extend op e level) (.extend op' e' level') := by
  cases h with
  | none => exact ⟨he, .nil, hop⟩
  | some h => exact ⟨h.first, h.operands he, hop⟩

theorem LastPart.closeLevel (kind : String) {level level' : Option OpenChain}
    (h : Option.Rel (TiedChain τ k) level level') (he : LastPart τ k e e') :
    LastPart τ k (Pending.closeLevel kind level e) (Pending.closeLevel kind level' e') := by
  cases h with
  | none => exact he
  | some h => exact h.close kind he

namespace TiedPending

theorem empty : TiedPending τ k .empty .empty :=
  ⟨.none, .none, .none, .nil⟩

theorem eq_empty (h : TiedPending τ k p p') (hp : p = .empty) : p' = .empty := by
  subst hp
  obtain ⟨comparison', sum', product', unary'⟩ := p'
  obtain ⟨hc, hs, hp, hu⟩ := h
  cases hc
  cases hs
  cases hp
  cases hu
  rfl

theorem toUnary (h : TiedPending τ k p p') (he : LastPart τ k e e') :
    LastPart τ k (p.toUnary e) (p'.toUnary e') := by
  have hunary := h.unary
  rw [Pending.toUnary, Pending.toUnary]
  generalize p.unary = ops, p'.unary = ops' at hunary
  induction hunary generalizing e e' with
  | nil => exact he
  | @cons op op' ops ops' hop _ ih =>
    refine ih ?_
    dsimp only
    rw [he.stop, he.stop', hop.text]
    refine .build hop.start ?_ he.good
    rw [Form.moved, he.node]

theorem toProduct (h : TiedPending τ k p p') (he : LastPart τ k e e') :
    LastPart τ k (p.toProduct e) (p'.toProduct e') :=
  (h.toUnary he).closeLevel "product" h.product

theorem toSum (h : TiedPending τ k p p') (he : LastPart τ k e e') :
    LastPart τ k (p.toSum e) (p'.toSum e') :=
  (h.toProduct he).closeLevel "sum" h.sum

theorem toComparison (h : TiedPending τ k p p') (he : LastPart τ k e e') :
    LastPart τ k (p.toComparison e) (p'.toComparison e') :=
  (h.toSum he).closeLevel "comparison" h.comparison

/-- A binary operator closes the tighter levels in both readings. -/
theorem binary (h : TiedPending τ k p p') (he : LastPart τ k e e') {t t' : Token}
    (hterminal : t'.terminal = t.terminal) (htext : t'.text = t.text) :
    Option.Rel (TiedPending τ k) (p.binary? e t) (p'.binary? e' t') := by
  rw [Pending.binary?, Pending.binary?, hterminal]
  cases t.terminal with
  | star | slash | percent =>
    have hrun := TiedChain.extend htext h.product (h.toUnary he).toTiedPart
    exact .some ⟨h.comparison, h.sum, .some hrun, .nil⟩
  | plus | minus =>
    have hrun := TiedChain.extend htext h.sum (h.toProduct he).toTiedPart
    exact .some ⟨h.comparison, .some hrun, .none, .nil⟩
  | equalEqual | identical | bangEqual | notIdentical | less | more | lessEqual | moreEqual =>
    have hrun := TiedChain.extend htext h.comparison (h.toSum he).toTiedPart
    exact .some ⟨.some hrun, .none, .none, .nil⟩
  | _ => exact .none

end TiedPending

end Operators

/-! ## Statements and contexts -/

/-- A script whose last statement ends with the last token. -/
theorem TiedPlace.push {place place' : Place} (h : TiedPlace τ k place place') {p p' : Part}
    (hp : LastPart τ k p p') : TiedPlace τ k (place.push p) (place'.push p') := by
  cases h with
  | @script done done' hdone hgood =>
    rw [Place.push, Place.push, List.append_assoc]
    refine .script (TiedPart.concat hdone hp.toTiedPart) ?_
    have hfirst : ∀ first ∈ (done ++ [p]).head?, ∃ c', τ.start k first.start c' := by
      cases hdone with
      | nil => rintro first ⟨⟩; exact ⟨_, hp.start⟩
      | cons hq _ => rintro first ⟨⟩; exact ⟨_, hq.start⟩
    have hlast : (done ++ [p]).getLast? = some p := by rw [List.getLast?_append]; rfl
    rw [State.scriptNode, hlast]
    split
    · next first last hhead hl =>
      obtain ⟨c', hc⟩ := hfirst first hhead
      obtain rfl := Option.some.inj hl
      rintro loc ⟨⟩
      rw [hp.stop]
      exact (τ.located hc).1
    · exact nofun
  | block hb hdone houter => exact .block hb (TiedPart.concat hdone hp.toTiedPart) houter
  | body hh hb hdone houter => exact .body hh hb (TiedPart.concat hdone hp.toTiedPart) houter

/-- A brace closes the innermost list in both readings. -/
theorem TiedPlace.close {place place' outer : Place} {t t' : Token} (ht : NextToken τ t t')
    (h : TiedPlace τ t.stop place place') (hc : place.close? t = some outer) :
    ∃ outer', place'.close? t' = some outer' ∧ TiedPlace τ t.stop outer outer' := by
  cases h with
  | script => exact nomatch hc
  | block hb hdone houter =>
    obtain rfl := Option.some.inj hc
    obtain ⟨hnodes, hgood⟩ := TiedPart.nodes hdone
    refine ⟨_, rfl, houter.push ?_⟩
    rw [ht.stop]
    refine .build hb.start ?_ hgood
    rw [Form.moved, hnodes]
  | body hh hb hdone houter =>
    obtain rfl := Option.some.inj hc
    obtain ⟨hnodes, _⟩ := TiedPart.nodes hdone
    refine ⟨_, rfl, houter.push ?_⟩
    obtain ⟨_, hmoved⟩ := τ.located hb.start
    rw [ht.stop]
    refine .build hh.keyword.start ?_ (List.forall_mem_nil _)
    simp only [Form.moved, Block.moved, Option.map_some, hh.name.text, TiedToken.texts hh.params,
      hnodes, hmoved, τ.text_move]

theorem TiedHole.opened {context context' : Context} (h : TiedContext τ k context context') :
    TiedHole τ k context.hole context'.hole :=
  ⟨.empty, h⟩

theorem TiedHole.eta {p p' : Pending} {context context' : Context} (hp : TiedPending τ k p p')
    (hc : TiedContext τ k context context') : TiedHole τ k ⟨p, context⟩ ⟨p', context'⟩ :=
  ⟨hp, hc⟩

/-- The assignments and else branches that an expression ends, end in both readings. -/
theorem TiedContext.settle {context context' : Context} (h : TiedContext τ k context context')
    {e e' : Part} (he : LastPart τ k e e') :
    LastPart τ k (context.settle e).1 (context'.settle e').1 ∧
      TiedContext τ k (context.settle e).2 (context'.settle e').2 := by
  induction h generalizing e e' with
  | value ht _ ih =>
    rw [Context.settle, Context.settle]
    refine ih ?_
    rw [he.stop, he.stop']
    refine .build ht.start ?_ ?_
    · rw [Form.moved, ht.node, he.node]
    · rw [Form.spots, List.forall_mem_append]
      exact ⟨ht.good, he.good⟩
  | elseBranch hc hy _ ih =>
    rw [Context.settle, Context.settle]
    refine ih ?_
    rw [he.stop, he.stop']
    refine .build hc.start ?_ ?_
    · rw [Form.moved, hc.node, hy.node, he.node]
    · rw [Form.spots, List.forall_mem_append, List.forall_mem_append]
      exact ⟨hc.good, hy.good, he.good⟩
  | whole => exact ⟨he, .whole⟩
  | statement hp => exact ⟨he, .statement hp⟩
  | initial hk hn hp => exact ⟨he, .initial hk hn hp⟩
  | ret hk hp => exact ⟨he, .ret hk hp⟩
  | group hl hp hc _ => exact ⟨he, .group hl hp hc⟩
  | arg hf hd hp hc _ => exact ⟨he, .arg hf hd hp hc⟩
  | thenBranch hc ho _ => exact ⟨he, .thenBranch hc ho⟩

/-! ## The step -/

namespace State

variable {t t' : Token} {next : State}

variable {e e' : Part} {hole hole' : Hole}

theorem Closes.tied {context context' : Context} (h : Closes t e context next) (ht : NextToken τ t t')
    (he : TiedPart τ t.stop e e') (hc : TiedContext τ t.stop context context') :
    ∃ next', Closes t' e' context' next' ∧ TiedState τ t.stop next next' := by
  cases h with
  | colon hk =>
    cases hc with
    | thenBranch hcond houter =>
      exact ⟨_, .colon (ht.terminal.trans hk), .operand (.opened (.elseBranch hcond he houter))⟩
  | group hk =>
    cases hc with
    | group hl hp houter =>
      refine ⟨_, .group (ht.terminal.trans hk), ?_⟩
      rw [ht.stop]
      refine .after (.build hl.start ?_ he.good) (.eta hp houter)
      rw [Form.moved, he.node]
  | comma hk =>
    cases hc with
    | arg hf hd hp houter =>
      exact ⟨_, .comma (ht.terminal.trans hk),
        .operand (.opened (.arg hf (TiedPart.concat hd he) hp houter))⟩
  | call hk =>
    cases hc with
    | arg hf hd hp houter =>
      obtain ⟨hnodes, hgood⟩ := TiedPart.nodes (TiedPart.concat hd he)
      refine ⟨_, .call (ht.terminal.trans hk), ?_⟩
      rw [ht.stop]
      refine .after (.build hf.start ?_ ?_) (.eta hp houter)
      · rw [Form.moved, hf.node, hnodes]
      · rw [Form.spots, List.forall_mem_append]
        exact ⟨hf.good, hgood⟩
  | statement hk =>
    cases hc with
    | statement hp =>
      refine ⟨_, .statement (ht.terminal.trans hk), ?_⟩
      rw [ht.stop]
      refine .statement (hp.push (.build he.start ?_ he.good))
      rw [Form.moved, he.node]
  | initial hk =>
    cases hc with
    | initial hw hn hp =>
      refine ⟨_, .initial (ht.terminal.trans hk), ?_⟩
      rw [ht.stop]
      refine .statement (hp.push (.build hw.start ?_ he.good))
      rw [Form.moved, hn.text, he.node]
  | ret hk =>
    cases hc with
    | ret hw hp =>
      refine ⟨_, .ret (ht.terminal.trans hk), ?_⟩
      rw [ht.stop]
      refine .statement (hp.push (.build hw.start ?_ he.good))
      rw [Form.moved, he.node]

theorem FeedsAfter.tied (h : FeedsAfter t e hole next) (ht : NextToken τ t t')
    (hl : τ.Reaches k t.stop) (he : LastPart τ k e e') (hh : TiedHole τ k hole hole') :
    ∃ next', FeedsAfter t' e' hole' next' ∧ TiedState τ t.stop next next' := by
  have hcontext := hh.context.later hl
  cases h with
  | assign hk hempty =>
    refine ⟨_, .assign (ht.terminal ▸ hk) (hh.pending.eq_empty hempty), ?_⟩
    rw [ht.text]
    exact .operand (.opened (.value (he.later hl) hcontext))
  | condition hk =>
    have hcond := (hh.pending.toComparison he).later hl
    exact ⟨_, .condition (ht.terminal.trans hk), .operand (.opened (.thenBranch hcond hcontext))⟩
  | operator hq =>
    have hbinary := hh.pending.binary he ht.terminal ht.text
    rw [hq] at hbinary
    generalize hq' : hole'.pending.binary? e' t' = found at hbinary
    cases hbinary with
    | some hp => exact ⟨_, .operator hq', .operand (.eta (hp.later hl) hcontext)⟩
  | close hcloses =>
    obtain ⟨hlast, hsettled⟩ := hh.context.settle (hh.pending.toComparison he)
    obtain ⟨next', hcloses', hnext⟩ := hcloses.tied ht (hlast.later hl) (hsettled.later hl)
    exact ⟨next', .close hcloses', hnext⟩

theorem FeedsOperand.tied (h : FeedsOperand t hole next) (ht : NextToken τ t t')
    (hh : TiedHole τ t.stop hole hole') :
    ∃ next', FeedsOperand t' hole' next' ∧ TiedState τ t.stop next next' := by
  cases h with
  | sign hk =>
    have hp := hh.pending
    exact ⟨_, .sign (ht.terminal ▸ hk),
      .operand ⟨⟨hp.comparison, hp.sum, hp.product, .cons ht.tied hp.unary⟩, hh.context⟩⟩
  | number hk =>
    refine ⟨_, .number (ht.terminal.trans hk), ?_⟩
    rw [ht.text]
    exact .after (.ofToken ht rfl (List.forall_mem_nil _)) hh
  | string hk =>
    refine ⟨_, .string (ht.terminal.trans hk), ?_⟩
    rw [ht.text]
    exact .after (.ofToken ht rfl (List.forall_mem_nil _)) hh
  | boolean hk =>
    refine ⟨_, .boolean (ht.terminal ▸ hk), ?_⟩
    rw [ht.text]
    exact .after (.ofToken ht rfl (List.forall_mem_nil _)) hh
  | null hk =>
    exact ⟨_, .null (ht.terminal.trans hk), .after (.ofToken ht rfl (List.forall_mem_nil _)) hh⟩
  | name hk => exact ⟨_, .name (ht.terminal.trans hk), .path ⟨ht.tied, .nil⟩ rfl ht.stop hh⟩
  | group hk =>
    obtain ⟨p, context⟩ := hole
    obtain ⟨p', context'⟩ := hole'
    exact ⟨_, .group (ht.terminal.trans hk),
      .operand (.opened (.group ht.tied hh.pending hh.context))⟩
  | noArgument hk =>
    obtain ⟨p', context'⟩ := hole'
    obtain ⟨hp, hc⟩ := hh
    obtain rfl := hp.eq_empty rfl
    cases hc with
    | arg hf hd hpending houter =>
      cases hd
      refine ⟨_, .noArgument (ht.terminal.trans hk), ?_⟩
      rw [ht.stop]
      refine .after (.build hf.start ?_ ?_) (.eta hpending houter)
      · rw [Form.moved, hf.node, Node.movedAll]
      · rw [Form.spots, Node.allSpots, List.append_nil]
        exact hf.good
  | noValue hk =>
    obtain ⟨p', context'⟩ := hole'
    obtain ⟨hp, hc⟩ := hh
    obtain rfl := hp.eq_empty rfl
    cases hc with
    | ret hw hplace =>
      refine ⟨_, .noValue (ht.terminal.trans hk), ?_⟩
      rw [ht.stop]
      exact .statement (hplace.push (.build hw.start rfl (List.forall_mem_nil _)))

theorem Feeds.tied {s s' : State} (h : Feeds t s next) (hs : TiedState τ k s s')
    (ht : NextToken τ t t') (hk : k ≤ t.stop) :
    ∃ next', Feeds t' s' next' ∧ TiedState τ t.stop next next' := by
  have hl := ht.reaches hk
  -- The second token is of the same kind.
  have hkind : ∀ {kind : Terminal}, t.terminal = kind → t'.terminal = kind := ht.terminal.trans
  cases h with
  | operand h =>
    cases hs with
    | operand hh =>
      obtain ⟨next', h', hnext⟩ := h.tied ht (hh.later hl)
      exact ⟨next', .operand h', hnext⟩
  | after h =>
    cases hs with
    | after he hh =>
      obtain ⟨next', h', hnext⟩ := h.tied ht hl he hh
      exact ⟨next', .after h', hnext⟩
  | lbrace hk =>
    cases hs with
    | statement hp => exact ⟨_, .lbrace (hkind hk), .statement (.block ht.tied .nil (hp.later hl))⟩
  | rbrace hk hclose =>
    cases hs with
    | statement hp =>
      obtain ⟨outer', hclose', houter⟩ := (hp.later hl).close ht hclose
      exact ⟨_, .rbrace (hkind hk) hclose', .statement houter⟩
  | function hk =>
    cases hs with
    | statement hp => exact ⟨_, .function (hkind hk), .functionName ht.tied (hp.later hl)⟩
  | letWord hk =>
    cases hs with
    | statement hp => exact ⟨_, .letWord (hkind hk), .declaredName ht.tied (hp.later hl)⟩
  | constWord hk =>
    cases hs with
    | statement hp => exact ⟨_, .constWord (hkind hk), .declaredName ht.tied (hp.later hl)⟩
  | ret hk =>
    cases hs with
    | statement hp =>
      exact ⟨_, .ret (hkind hk), .operand (.opened (.ret ht.tied (hp.later hl)))⟩
  | expression hk h =>
    cases hs with
    | statement hp =>
      obtain ⟨next', h', hnext⟩ := h.tied ht (.opened (.statement (hp.later hl)))
      exact ⟨next', .expression (ht.terminal ▸ hk) h', hnext⟩
  | dot hk =>
    cases hs with
    | path hp _ _ hh => exact ⟨_, .dot (hkind hk), .dot (hp.later hl) (hh.later hl)⟩
  | @call _ _ hole hk =>
    cases hs with
    | @path _ _ _ _ _ hole' hp hstop hstop' hh =>
      have hcallee := (hp.last hstop hstop').later hl
      obtain ⟨p, context⟩ := hole
      obtain ⟨p', context'⟩ := hole'
      exact ⟨_, .call (hkind hk),
        .operand (.opened (.arg hcallee .nil (hh.pending.later hl) (hh.context.later hl)))⟩
  | path h =>
    cases hs with
    | path hp hstop hstop' hh =>
      obtain ⟨next', h', hnext⟩ := h.tied ht hl (hp.last hstop hstop') hh
      exact ⟨next', .path h', hnext⟩
  | member hk =>
    cases hs with
    | dot hp hh =>
      refine ⟨_, .member (hkind hk), .path ⟨hp.first.later hl, ?_⟩ ?_ ?_ (hh.later hl)⟩
      · exact List.rel_append (TiedToken.allLater hl hp.rest) (.cons ht.tied .nil)
      · exact Part.stop_path_concat _ _ _
      · rw [Part.stop_path_concat, ht.stop]
  | functionName hk =>
    cases hs with
    | functionName hw hp =>
      exact ⟨_, .functionName (hkind hk), .functionParen (hw.later hl) ht.tied (hp.later hl)⟩
  | params hk =>
    cases hs with
    | functionParen hw hn hp =>
      exact ⟨_, .params (hkind hk), .firstParam (hw.later hl) (hn.later hl) (hp.later hl)⟩
  | firstParam hk =>
    cases hs with
    | firstParam hw hn hp =>
      exact ⟨_, .firstParam (hkind hk),
        .afterParam ⟨hw.later hl, hn.later hl, .cons ht.tied .nil⟩ (hp.later hl)⟩
  | noParam hk =>
    cases hs with
    | firstParam hw hn hp =>
      exact ⟨_, .noParam (hkind hk),
        .functionBrace ⟨hw.later hl, hn.later hl, .nil⟩ (hp.later hl)⟩
  | comma hk =>
    cases hs with
    | afterParam hh hp => exact ⟨_, .comma (hkind hk), .nextParam (hh.later hl) (hp.later hl)⟩
  | paramsEnd hk =>
    cases hs with
    | afterParam hh hp =>
      exact ⟨_, .paramsEnd (hkind hk), .functionBrace (hh.later hl) (hp.later hl)⟩
  | nextParam hk =>
    cases hs with
    | nextParam hh hp =>
      have hparams := List.rel_append (TiedToken.allLater hl hh.params) (.cons ht.tied .nil)
      exact ⟨_, .nextParam (hkind hk),
        .afterParam ⟨hh.keyword.later hl, hh.name.later hl, hparams⟩ (hp.later hl)⟩
  | body hk =>
    cases hs with
    | functionBrace hh hp =>
      exact ⟨_, .body (hkind hk), .statement (.body (hh.later hl) ht.tied .nil (hp.later hl))⟩
  | declaredName hk =>
    cases hs with
    | declaredName hw hp =>
      exact ⟨_, .declaredName (hkind hk), .declaredEqual (hw.later hl) ht.tied (hp.later hl)⟩
  | declaredEqual hk =>
    cases hs with
    | declaredEqual hw hn hp =>
      exact ⟨_, .declaredEqual (hkind hk),
        .operand (.opened (.initial (hw.later hl) (hn.later hl) (hp.later hl)))⟩

/-- **The step.**  Tied states take tied tokens to tied states. -/
theorem feed_tied {s s' : State} (h : TiedState τ k s s') (ht : NextToken τ t t')
    (hk : k ≤ t.stop) (hf : s.feed t = some next) :
    ∃ next', s'.feed t' = some next' ∧ TiedState τ t.stop next next' := by
  obtain ⟨next', hfeeds, hnext⟩ := (feed_eq_some.1 hf).tied h ht hk
  exact ⟨next', feed_eq_some.2 hfeeds, hnext⟩

theorem finishAfter_good (he : LastPart τ k e e') (hh : TiedHole τ k hole hole') {node : Node}
    (h : finishAfter e hole = some node) : ∀ loc ∈ node.spots, τ.good loc := by
  have hlast := (hh.context.settle (hh.pending.toComparison he)).1
  unfold finishAfter at h
  dsimp only at h
  split at h
  · obtain rfl := Option.some.inj h
    exact hlast.good
  · exact nomatch h

/-- The locations of a finished tree are as the tie says. -/
theorem finish_good {s s' : State} (h : TiedState τ k s s') {node : Node}
    (hf : s.finish = some node) : ∀ loc ∈ node.spots, τ.good loc := by
  cases h with
  | statement hp =>
    cases hp with
    | @script done done' hdone hgood =>
      obtain rfl := Option.some.inj hf
      have hnodes := (TiedPart.nodes hdone).2
      unfold scriptNode at hgood ⊢
      split
      · next first last hfirst hlast =>
        simp only [hfirst, hlast, Option.mem_some_iff, forall_eq'] at hgood
        rw [Node.spots, Form.spots, Option.toList_some, List.singleton_append, List.forall_mem_cons]
        exact ⟨hgood, hnodes⟩
      · exact nofun
    | block => exact nomatch hf
    | body => exact nomatch hf
  | after he hh => exact finishAfter_good he hh hf
  | path hp hs hs' hh => exact finishAfter_good (hp.last hs hs') hh hf
  | _ => exact nomatch hf

end State

end Scriptlet.Reader
