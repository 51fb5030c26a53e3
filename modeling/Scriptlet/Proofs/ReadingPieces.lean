import Scriptlet.Proofs.TokenRuns

/-!
# The pieces that a reader holds

What a state of the reader holds is a list of pieces (`State.pieces`).  One token more is one piece
more, up to pieces that are put together to a node (`State.feed_reduces`), so the tree that is read
is written with all the tokens that have been read (`State.finish_writtenWith`).
-/

namespace Scriptlet.Reader

set_option autoImplicit false

/-! ## The pieces of a state -/

/-- The nodes of parts, one after the other. -/
def Part.pieces (parts : List Part) : List Piece :=
  parts.map .part

/-- The pieces of a path of names. -/
def Part.pathPieces (first : Token) (rest : List Token) : List Piece :=
  ((first :: rest).map Piece.token).intersperse .mark

/-- Operators and operands. -/
def OpenChain.operandPieces (operands : List (String × Part)) : List Piece :=
  operands.flatMap fun p => [.mark, .part p.2]

/-- The pieces of a run that waits for an operand. -/
def OpenChain.pieces (run : OpenChain) : List Piece :=
  .part run.first :: operandPieces run.rest ++ [.mark]

/-- The pieces of a level. -/
def Pending.levelPieces (level : Option OpenChain) : List Piece :=
  level.elim [] OpenChain.pieces

/-- The pieces of unary operators. -/
def Pending.unaryPieces (p : Pending) : List Piece :=
  p.unary.reverse.map .token

/-- The pieces of waiting operators and of the operands between them. -/
def Pending.pieces (p : Pending) : List Piece :=
  levelPieces p.comparison ++ levelPieces p.sum ++ levelPieces p.product ++ p.unaryPieces

/-- The pieces of the head of a function declaration, up to its parameters. -/
def Header.opening (header : Header) : List Piece :=
  .token header.keyword :: .mark :: .mark ::
    (header.params.map fun _ => Piece.mark).intersperse .mark

/-- The pieces of open statement lists. -/
def Place.pieces : Place → List Piece
  | .script done => Part.pieces done
  | .block lbrace done outer => outer.pieces ++ .token lbrace :: Part.pieces done
  | .body header lbrace done outer =>
    outer.pieces ++ (header.opening ++ .mark :: .token lbrace :: Part.pieces done)

/-- Arguments that a comma follows. -/
def Part.openArgs (done : List Part) : List Piece :=
  done.flatMap fun e => [.part e, .mark]

/-- The pieces around an expression, up to that expression. -/
def Context.pieces : Context → List Piece
  | .whole => []
  | .statement place => place.pieces
  | .initial keyword _ _ place => place.pieces ++ [.token keyword, .mark, .mark]
  | .ret keyword place => place.pieces ++ [.token keyword]
  | .group lpar ⟨pending, outer⟩ => outer.pieces ++ pending.pieces ++ [.token lpar]
  | .arg callee done ⟨pending, outer⟩ =>
    outer.pieces ++ pending.pieces ++ .part callee :: .mark :: Part.openArgs done
  | .thenBranch condition outer => outer.pieces ++ [.part condition, .mark]
  | .elseBranch condition yes outer => outer.pieces ++ [.part condition, .mark, .part yes, .mark]
  | .value target _ outer => outer.pieces ++ [.part target, .mark]

/-- The pieces up to an operand. -/
def Hole.pieces (hole : Hole) : List Piece :=
  hole.context.pieces ++ hole.pending.pieces

/-- The pieces that a state holds. -/
def State.pieces : State → List Piece
  | .statement place => place.pieces
  | .operand hole => hole.pieces
  | .after e hole => hole.pieces ++ [.part e]
  | .path first rest hole => hole.pieces ++ Part.pathPieces first rest
  | .dot first rest hole => hole.pieces ++ (Part.pathPieces first rest ++ [.mark])
  | .functionName keyword place | .declaredName keyword _ place => place.pieces ++ [.token keyword]
  | .functionParen keyword _ place | .declaredEqual keyword _ _ place =>
    place.pieces ++ [.token keyword, .mark]
  | .firstParam keyword _ place => place.pieces ++ [.token keyword, .mark, .mark]
  | .afterParam header place => place.pieces ++ header.opening
  | .nextParam header place | .functionBrace header place =>
    place.pieces ++ (header.opening ++ [.mark])

namespace Part

/-- A path of names is one node. -/
theorem path_reduces (first : Token) (rest : List Token) :
    Reduces (pathPieces first rest) [.part (path first rest)] := by
  induction rest generalizing first with
  | nil => exact .build rfl rfl rfl
  | cons second rest ih =>
    have hname : Reduces [.token first] [.part (ident first)] := .build rfl rfl rfl
    have htail := (hname.before [.mark]).append (ih second)
    exact htail.trans (.build rfl rfl rfl)

theorem pathPieces_concat (first : Token) (rest : List Token) (t : Token) :
    pathPieces first (rest ++ [t]) = pathPieces first rest ++ [.mark, .token t] := by
  rw [pathPieces, pathPieces, ← List.cons_append, List.map_append]
  exact intersperse_concat (List.cons_ne_nil _ _) Piece.mark (Piece.token t)

end Part

namespace Pending

@[simp] theorem levelPieces_none : levelPieces none = [] := rfl

@[simp] theorem levelPieces_some (run : OpenChain) : levelPieces (some run) = run.pieces := rfl

@[simp] theorem pieces_empty : empty.pieces = [] := rfl

/-- A run that goes on keeps its pieces and adds the operand and the operator. -/
@[simp] theorem pieces_extend (op : String) (e : Part) (level : Option OpenChain) :
    (OpenChain.extend op e level).pieces = levelPieces level ++ [.part e, .mark] := by
  cases level <;>
    simp [OpenChain.extend, OpenChain.operands, OpenChain.pieces, OpenChain.operandPieces]

/-- A level is closed around its last operand. -/
theorem closeLevel_reduces (kind : String) (level : Option OpenChain) (e : Part) :
    Reduces (levelPieces level ++ [.part e]) [.part (closeLevel kind level e)] := by
  cases level with
  | none => exact .refl _
  | some run =>
    refine .build ?_ rfl (by simp)
    simp [Form.items, OpenChain.operands, OpenChain.pieces, OpenChain.operandPieces,
      List.flatMap_map, List.map_flatMap]

theorem toUnary_reduces (p : Pending) (e : Part) :
    Reduces (p.unaryPieces ++ [.part e]) [.part (p.toUnary e)] := by
  rw [unaryPieces, toUnary]
  induction p.unary generalizing e with
  | nil => exact .refl _
  | cons op rest ih =>
    have hop : Reduces [.token op, .part e] [.part (.build (.unary op.text e.node) op.start e.stop)] :=
      .build rfl rfl rfl
    rw [List.reverse_cons, List.map_append, List.append_assoc]
    exact (hop.behind _).trans (ih _)

theorem toProduct_reduces (p : Pending) (e : Part) :
    Reduces (levelPieces p.product ++ p.unaryPieces ++ [.part e]) [.part (p.toProduct e)] := by
  rw [List.append_assoc]
  exact ((p.toUnary_reduces e).behind _).trans (closeLevel_reduces _ _ _)

theorem toSum_reduces (p : Pending) (e : Part) :
    Reduces (levelPieces p.sum ++ levelPieces p.product ++ p.unaryPieces ++ [.part e])
      [.part (p.toSum e)] := by
  simp only [List.append_assoc]
  rw [← List.append_assoc (levelPieces p.product)]
  exact ((p.toProduct_reduces e).behind _).trans (closeLevel_reduces _ _ _)

/-- The waiting operators are closed around the last operand. -/
theorem toComparison_reduces (p : Pending) (e : Part) :
    Reduces (p.pieces ++ [.part e]) [.part (p.toComparison e)] := by
  have hsum := (p.toSum_reduces e).behind (levelPieces p.comparison)
  rw [pieces]
  simp only [List.append_assoc] at hsum ⊢
  exact hsum.trans (closeLevel_reduces _ _ _)

/-- A binary operator closes the tighter levels and waits on its own. -/
theorem binary_reduces {p q : Pending} {e : Part} {t : Token} (h : p.binary? e t = some q) :
    Reduces (p.pieces ++ [.part e, .token t]) q.pieces := by
  unfold binary? at h
  split at h
  case h_14 => cases h
  case h_1 | h_2 | h_3 =>
    obtain rfl := Option.some.inj h
    have hunary := (p.toUnary_reduces e).append (.mark t)
    simpa [pieces, unaryPieces] using
      hunary.behind (levelPieces p.comparison ++ levelPieces p.sum ++ levelPieces p.product)
  case h_4 | h_5 =>
    obtain rfl := Option.some.inj h
    have hproduct := (p.toProduct_reduces e).append (.mark t)
    simpa [pieces, unaryPieces] using hproduct.behind (levelPieces p.comparison ++ levelPieces p.sum)
  all_goals
    obtain rfl := Option.some.inj h
    have hsum := (p.toSum_reduces e).append (.mark t)
    simpa [pieces, unaryPieces] using hsum.behind (levelPieces p.comparison)

end Pending

/-- A parameter is added behind a comma. -/
theorem Header.opening_concat (header : Header) (h : header.params ≠ []) (t : Token) :
    opening { header with params := header.params ++ [t] } = header.opening ++ [.mark, .mark] := by
  have hne : (header.params.map fun _ => Piece.mark) ≠ [] := by simpa using h
  simp only [opening, List.map_append, List.map_singleton, intersperse_concat hne, List.cons_append]

namespace Place

@[simp] theorem pieces_push (place : Place) (statement : Part) :
    (place.push statement).pieces = place.pieces ++ [.part statement] := by
  cases place <;> simp [push, pieces, Part.pieces]

/-- A brace closes the innermost list of statements, and with a body the function. -/
theorem close_reduces {place outer : Place} {t : Token} (h : place.close? t = some outer) :
    Reduces (place.pieces ++ [.token t]) outer.pieces := by
  -- The statements between braces are one node, in a function as elsewhere.
  have hblock : ∀ (lbrace : Token) (done : List Part),
      Reduces (.token lbrace :: Part.pieces done ++ [.token t])
        [.part (.build (.block (done.map (·.node))) lbrace.start t.stop)] := by
    intro lbrace done
    refine .build ?_ rfl (by rw [List.getLast?_concat]; rfl)
    simp [Form.items, Part.pieces]
  cases place with
  | script done => cases h
  | block lbrace done outer =>
    obtain rfl := Option.some.inj h
    rw [pieces, pieces_push, List.append_assoc]
    exact (hblock lbrace done).behind _
  | body header lbrace done outer =>
    obtain rfl := Option.some.inj h
    have hbody := (hblock lbrace done).behind (header.opening ++ [.mark])
    rw [pieces, pieces_push, List.append_assoc]
    refine Reduces.behind _ (.trans (.of_eq (by simp)) (hbody.trans (.build ?_ rfl ?_ rfl)))
    · simp [Form.items, Header.opening, map_intersperse, Block.node, Function.comp_def]
    · rw [List.getLast?_concat]
      rfl

end Place

namespace Context

/-- The assignments and else branches that an expression ends are nodes. -/
theorem settle_reduces (e : Part) (context : Context) :
    Reduces (context.pieces ++ [.part e])
      ((context.settle e).2.pieces ++ [.part (context.settle e).1]) := by
  fun_induction settle e context with
  | case1 e target op outer ih =>
    have hassign : Reduces [.part target, .mark, .part e]
        [.part (.build (.assign target.node op e.node) target.start e.stop)] := .build rfl rfl rfl
    rw [pieces, List.append_assoc]
    exact (hassign.behind _).trans ih
  | case2 e condition yes outer ih =>
    have hternary : Reduces [.part condition, .mark, .part yes, .mark, .part e]
        [.part (.build (.ternary condition.node yes.node e.node) condition.start e.stop)] :=
      .build rfl rfl rfl
    rw [pieces, List.append_assoc]
    exact (hternary.behind _).trans ih
  | case3 e context => exact .refl _

end Context

namespace State

variable {t : Token} {next : State} {e : Part} {hole : Hole}

theorem Closes.reduces {context : Context} (h : Closes t e context next) :
    Reduces (context.pieces ++ [.part e, .token t]) next.pieces := by
  cases h with
  | @colon condition outer _ =>
    have hcolon := (Reduces.mark t).behind (outer.pieces ++ [.part condition, .mark, .part e])
    simpa [pieces, Hole.pieces, Context.hole, Context.pieces] using hcolon
  | @group lpar outer _ =>
    obtain ⟨pending, outer⟩ := outer
    have hgroup : Reduces [.token lpar, .part e, .token t]
        [.part (.build (.group e.node) lpar.start t.stop)] := .build rfl rfl rfl
    simpa [pieces, Hole.pieces, Context.pieces] using hgroup.behind (outer.pieces ++ pending.pieces)
  | @comma callee done outer _ =>
    obtain ⟨pending, outer⟩ := outer
    have hcomma := (Reduces.mark t).behind
      (outer.pieces ++ pending.pieces ++ .part callee :: .mark :: Part.openArgs done ++ [.part e])
    simpa [pieces, Hole.pieces, Context.hole, Context.pieces, Part.openArgs] using hcomma
  | @call callee done outer _ =>
    obtain ⟨pending, outer⟩ := outer
    have hcall : Reduces (.part callee :: .mark :: Part.openArgs done ++ [.part e] ++ [.token t])
        [.part (.build (.call callee.node ((done ++ [e]).map (·.node))) callee.start t.stop)] := by
      refine .build ?_ rfl (by rw [List.getLast?_concat]; rfl)
      simp [Form.items, Part.openArgs, intersperse_eq_flatMap, List.map_flatMap, List.flatMap_map]
    simpa [pieces, Hole.pieces, Context.pieces] using hcall.behind (outer.pieces ++ pending.pieces)
  | @statement place _ =>
    have hstatement : Reduces [.part e, .token t]
        [.part (.build (.expression e.node) e.start t.stop)] := .build rfl rfl rfl
    simpa [pieces, Context.pieces] using hstatement.behind place.pieces
  | @initial keyword name isMutable place _ =>
    have hdeclaration : Reduces [.token keyword, .mark, .mark, .part e, .token t]
        [.part (.build (.declaration name.text e.node isMutable) keyword.start t.stop)] :=
      .build rfl rfl rfl
    simpa [pieces, Context.pieces] using hdeclaration.behind place.pieces
  | @ret keyword place _ =>
    have hret : Reduces [.token keyword, .part e, .token t]
        [.part (.build (.ret (some e.node)) keyword.start t.stop)] := .build rfl rfl rfl
    simpa [pieces, Context.pieces] using hret.behind place.pieces

theorem FeedsAfter.reduces (h : FeedsAfter t e hole next) :
    Reduces (hole.pieces ++ [.part e, .token t]) next.pieces := by
  obtain ⟨pending, context⟩ := hole
  -- The operand with the operators that wait for it.
  have hoperand := ((pending.toComparison_reduces e).behind context.pieces).append (.refl [.token t])
  cases h with
  | assign _ hempty =>
    obtain rfl : pending = .empty := hempty
    have hmark := (Reduces.mark t).behind (context.pieces ++ [.part e])
    simpa [pieces, Hole.pieces, Context.hole, Context.pieces] using hmark
  | condition =>
    have hmark := (Reduces.mark t).behind (context.pieces ++ [.part (pending.toComparison e)])
    have := hoperand.trans hmark
    simpa [pieces, Hole.pieces, Context.hole, Context.pieces] using this
  | operator hq =>
    simpa [pieces, Hole.pieces] using (Pending.binary_reduces hq).behind context.pieces
  | close hcloses =>
    have hsettle := (context.settle_reduces (pending.toComparison e)).before [.token t]
    have hclose := hcloses.reduces
    rw [List.append_cons] at hclose
    have := (hoperand.trans hsettle).trans hclose
    simpa [Hole.pieces] using this

theorem FeedsOperand.reduces (h : FeedsOperand t hole next) :
    Reduces (hole.pieces ++ [.token t]) next.pieces := by
  cases h with
  | sign => exact .of_eq (by simp [pieces, Hole.pieces, Pending.pieces, Pending.unaryPieces])
  | number | string | boolean | null => exact Reduces.behind _ (.build rfl rfl rfl)
  | name => exact .refl _
  | group =>
    obtain ⟨pending, context⟩ := hole
    exact .of_eq (by simp [pieces, Hole.pieces, Context.hole, Context.pieces])
  | @noArgument callee outer _ =>
    obtain ⟨pending, outer⟩ := outer
    have hcall : Reduces [.part callee, .mark, .token t]
        [.part (.build (.call callee.node []) callee.start t.stop)] := .build rfl rfl rfl
    simpa [pieces, Hole.pieces, Context.hole, Context.pieces, Part.openArgs] using
      hcall.behind (outer.pieces ++ pending.pieces)
  | @noValue keyword place _ =>
    have hret : Reduces [.token keyword, .token t]
        [.part (.build (.ret none) keyword.start t.stop)] := .build rfl rfl rfl
    simpa [pieces, Hole.pieces, Context.hole, Context.pieces] using hret.behind place.pieces

theorem Feeds.reduces {rule : Rule} {state : State} (h : Feeds t state next)
    (hs : state.Sound rule) : Reduces (state.pieces ++ [.token t]) next.pieces := by
  -- A token of which the place is not kept.
  have hmark := (Reduces.mark t).behind state.pieces
  cases h with
  | operand h => exact h.reduces
  | after h =>
    rw [pieces, List.append_assoc]
    exact h.reduces
  | lbrace | function | letWord | constWord => exact .refl _
  | rbrace _ hclose => exact Place.close_reduces hclose
  | ret => exact .of_eq (by simp [pieces, Hole.pieces, Context.hole, Context.pieces])
  | expression _ h =>
    have := h.reduces
    simpa [pieces, Hole.pieces, Context.hole, Context.pieces] using this
  | dot => simpa [pieces] using hmark
  | @call first rest hole _ =>
    have hpath := ((Part.path_reduces first rest).behind hole.pieces).append (.mark t)
    obtain ⟨pending, context⟩ := hole
    simpa [pieces, Hole.pieces, Context.hole, Context.pieces, Part.openArgs] using hpath
  | @path first rest hole next h =>
    have hpath := ((Part.path_reduces first rest).before [.token t]).behind hole.pieces
    rw [pieces, List.append_assoc]
    exact hpath.trans h.reduces
  | member => exact .of_eq (by simp [pieces, Part.pathPieces_concat])
  | functionName | params | declaredName => simpa [pieces] using hmark
  | firstParam | noParam => simpa [pieces, Header.opening] using hmark
  | comma | paramsEnd => simpa [pieces] using hmark
  | @nextParam header place _ => simpa [pieces, header.opening_concat hs.2.2.1] using hmark
  | body => exact .of_eq (by simp [pieces, Place.pieces, Part.pieces])
  | declaredEqual => simpa [pieces, Hole.pieces, Context.hole, Context.pieces] using hmark

/-- **The step.**  One token more is one piece more, and pieces at the end are put together. -/
theorem feed_reduces {rule : Rule} {state : State} (hs : state.Sound rule)
    (h : state.feed t = some next) : Reduces (state.pieces ++ [.token t]) next.pieces :=
  (feed_eq_some.1 h).reduces hs

/-- What an expression is read as at the end of the text. -/
theorem finishAfter_reduces {node : Node} (h : finishAfter e hole = some node) :
    ∃ p : Part, p.node = node ∧ Reduces (hole.pieces ++ [.part e]) [.part p] := by
  have hsettle := hole.context.settle_reduces (hole.pending.toComparison e)
  unfold finishAfter at h
  dsimp only at h
  split at h
  · next hw =>
    refine ⟨_, Option.some.inj h, ?_⟩
    rw [hw] at hsettle
    rw [Hole.pieces, List.append_assoc]
    exact ((hole.pending.toComparison_reduces e).behind _).trans hsettle
  · cases h

/-- The tree is written with all the tokens that were read. -/
theorem finish_writtenWith {state : State} {node : Node} {us : List Token}
    (hr : Read us state.pieces) (h : state.finish = some node) : node.WrittenWith us := by
  have hpart : ∀ {p : Part}, Reduces state.pieces [.part p] → p.node = node →
      node.WrittenWith us := by
    rintro p hp rfl
    have hmade := (hp us hr).of_part
    exact ⟨hmade.extent, hmade.items, fun hnil => (hmade.ne_nil hnil).elim, hmade.source⟩
  unfold finish at h
  split at h
  · next done =>
    cases hlast : done.getLast? with
    | none =>
      obtain rfl := List.getLast?_eq_none_iff.1 hlast
      obtain rfl := Option.some.inj h
      cases hr
      exact ⟨rfl, .nil, fun _ => rfl, trivial⟩
    | some last =>
      obtain ⟨first, hfirst⟩ : ∃ first, done.head? = some first := by
        cases done with
        | nil => cases hlast
        | cons first rest => exact ⟨first, rfl⟩
      have hscript : Reduces (Part.pieces done)
          [.part (.build (.script (done.map (·.node))) first.start last.stop)] := by
        refine .build ?_ ?_ ?_
        · simp [Form.items, Part.pieces]
        · simp [Part.pieces, hfirst]
        · simp [Part.pieces, hlast]
      refine hpart hscript ?_
      rw [← Option.some.inj h, scriptNode, hfirst, hlast]
      rfl
  · obtain ⟨p, hnode, hp⟩ := finishAfter_reduces h
    exact hpart hp hnode
  · next first rest hole =>
    obtain ⟨p, hnode, hp⟩ := finishAfter_reduces h
    exact hpart (((Part.path_reduces first rest).behind _).trans hp) hnode
  · cases h

end State

end Scriptlet.Reader
