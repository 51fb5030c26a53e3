import Scriptlet.Proofs.Continuation

/-!
# Errors are found as early as can be

Every state of the reader can be led to the end of a program: an operand that is missing is given, and
what is open is closed from the inside outwards (`State.completes`).  So the text in front of the
token or the character that is refused, or the whole text where it ends too early, is the beginning of
a program (`parse_error_viable`).
-/

namespace Scriptlet

set_option autoImplicit false

namespace Reader

/-! ## Texts that close a state -/

/-- The braces that close the open lists. -/
def Place.closing : Place → List String
  | script _ => []
  | block _ _ outer | body _ _ _ outer => "\x7d" :: outer.closing

mutual

/-- The texts that complete a program whose expression has come to an end. -/
def Context.closing : Context → List String
  | .whole => []
  | .statement place | .initial _ _ _ place | .ret _ place => ";" :: place.closing
  | .group _ outer | .arg _ _ outer => ")" :: outer.closing
  | .thenBranch _ outer => ":" :: "x" :: outer.closing
  | .elseBranch _ _ outer | .value _ _ outer => outer.closing

def Hole.closing : Hole → List String
  | ⟨_, context⟩ => context.closing

end

namespace State

/-- The texts that complete a program from a state on. -/
def closing : State → List String
  | statement place => place.closing
  | operand hole | dot _ _ hole => "x" :: hole.closing
  | after _ hole | path _ _ hole => hole.closing
  | functionName _ place => "x" :: "(" :: ")" :: "\x7b" :: "\x7d" :: place.closing
  | functionParen _ _ place => "(" :: ")" :: "\x7b" :: "\x7d" :: place.closing
  | firstParam _ _ place | afterParam _ place => ")" :: "\x7b" :: "\x7d" :: place.closing
  | nextParam _ place => "x" :: ")" :: "\x7b" :: "\x7d" :: place.closing
  | functionBrace _ place => "\x7b" :: "\x7d" :: place.closing
  | declaredName _ _ place => "x" :: "=" :: "x" :: ";" :: place.closing
  | declaredEqual _ _ _ place => "=" :: "x" :: ";" :: place.closing

/-- From a state and a place, texts lead to the end of a program. -/
def Completes (s : State) (place : Cursor) (texts : List String) : Prop :=
  ∃ last node, Reads s place texts last ∧ last.finish = some node

variable {s next : State} {place : Cursor} {texts : List String}

/-- One text in front. -/
theorem Completes.cons {t : Terminal} {text : String}
    (h : next.Completes (place.advance (text.length + 1)) texts)
    (hl : Lexer.lexeme s.mode text.toList = some (t, text.length))
    (hf : s.feed ⟨t, text, place, place.offset + text.length⟩ = some next) :
    s.Completes place (text :: texts) := by
  obtain ⟨last, node, hr, hnode⟩ := h
  exact ⟨last, node, .cons hl hf hr, hnode⟩

/-- One text in front that ends an expression. -/
theorem GoesOn.completes {e : Part} {hole : Hole} (h : GoesOn .expression s e hole) (t : Terminal)
    (text : String) (hlex : Lexer.lexeme .any text.toList = some (t, text.length))
    (ht : t.closes = .expression)
    (hf : feedAfter e hole ⟨t, text, place, place.offset + text.length⟩ = some next)
    (hnext : next.Completes (place.advance (text.length + 1)) texts) :
    s.Completes place (text :: texts) := by
  refine hnext.cons (t := t) ?_ ?_
  · rw [h.mode]
    exact hlex
  · rw [h.feed _ (Nat.le_of_eq (congrArg Level.rank ht.symm)) ?_ ?_]
    · exact hf
    · rintro rfl
      exact nomatch ht
    · rintro rfl
      exact nomatch ht

/-- An expression that ends an assignment or a ternary ends with it. -/
theorem GoesOn.outwards {e : Part} {p : Pending} {context outer : Context}
    (h : GoesOn .expression s e ⟨p, context⟩)
    (hc : (∃ target op, context = .value target op outer) ∨
      ∃ condition yes, context = .elseBranch condition yes outer) :
    ∃ e', GoesOn .expression s e' outer.hole := by
  rcases hc with ⟨target, op, rfl⟩ | ⟨condition, yes, rfl⟩
  · refine ⟨.build (.assign target.node op (p.toComparison e).node) target.start
      (p.toComparison e).stop, h.congr rfl⟩
  · refine ⟨.build (.ternary condition.node yes.node (p.toComparison e).node) condition.start
      (p.toComparison e).stop, h.congr rfl⟩

end State

theorem Place.closing_push (part : Part) (list : Place) : (list.push part).closing = list.closing := by
  cases list <;> rfl

open State

/-- Open lists are closed one after the other. -/
theorem Place.completes (list : Place) (place : Cursor) :
    (State.statement list).Completes place list.closing := by
  -- The list around a closed one has one more statement, but it is closed by the same texts.
  generalize hc : list.closing = texts
  induction texts generalizing list place with
  | nil =>
    cases list with
    | script done => exact ⟨_, _, .nil, rfl⟩
    | block => exact nomatch hc
    | body => exact nomatch hc
  | cons text texts ih =>
    cases list with
    | script done => exact nomatch hc
    | block lbrace done outer =>
      obtain ⟨rfl, houter⟩ := List.cons.inj hc
      exact .cons (t := .rbrace) (ih _ _ ((closing_push _ outer).trans houter)) rfl rfl
    | body header lbrace done outer =>
      obtain ⟨rfl, houter⟩ := List.cons.inj hc
      exact .cons (t := .rbrace) (ih _ _ ((closing_push _ outer).trans houter)) rfl rfl

theorem Place.completes_push (part : Part) (list : Place) (place : Cursor) :
    (State.statement (list.push part)).Completes place list.closing := by
  rw [← closing_push part list]
  exact Place.completes _ _

/-- After an expression, what is open around it is closed from the inside outwards. -/
theorem Context.completes : (context : Context) → ∀ {s : State} {e : Part} {p : Pending},
    GoesOn .expression s e ⟨p, context⟩ → ∀ place, s.Completes place context.closing
  | .whole => fun h _ => ⟨_, _, .nil, h.finish⟩
  | .statement list | .initial _ _ _ list | .ret _ list => fun h _ =>
    h.completes .semicolon ";" rfl rfl rfl (Place.completes_push _ list _)
  | .group _ ⟨_, outer⟩ | .arg _ _ ⟨_, outer⟩ => fun h _ =>
    h.completes .rpar ")" rfl rfl rfl (completes outer (.after _ _ _) _)
  | .thenBranch _ outer => fun h _ => by
    -- the branch that is missing is a name
    refine h.completes .colon ":" rfl rfl rfl (.cons (t := .ident) ?_ rfl rfl)
    obtain ⟨e, hgoes⟩ := (GoesOn.path _ _ _ _).outwards (.inr ⟨_, _, rfl⟩)
    exact completes outer hgoes _
  | .elseBranch _ _ outer => fun h place => by
    obtain ⟨e, hgoes⟩ := h.outwards (.inr ⟨_, _, rfl⟩)
    exact completes outer hgoes place
  | .value _ _ outer => fun h place => by
    obtain ⟨e, hgoes⟩ := h.outwards (.inl ⟨_, _, rfl⟩)
    exact completes outer hgoes place

theorem Hole.completes {s : State} {e : Part} (hole : Hole) (h : GoesOn .expression s e hole)
    (place : Cursor) : s.Completes place hole.closing := by
  cases hole with
  | mk pending context => exact context.completes h place

namespace State

/-- A missing operand is a name. -/
theorem operand_completes (hole : Hole) (place : Cursor) :
    (operand hole).Completes place ("x" :: hole.closing) :=
  .cons (t := .ident) (hole.completes (.path _ _ _ _) _) rfl rfl

/-- The body of a function may be empty. -/
theorem functionBrace_completes (header : Header) (list : Place) (place : Cursor) :
    (functionBrace header list).Completes place ("\x7b" :: "\x7d" :: list.closing) :=
  .cons (t := .lbrace) (.cons (t := .rbrace) (list.completes_push _ _) rfl rfl) rfl rfl

theorem declaredEqual_completes (keyword name : Token) (isMutable : Bool) (list : Place)
    (place : Cursor) : (declaredEqual keyword name isMutable list).Completes place
      ("=" :: "x" :: ";" :: list.closing) :=
  .cons (t := .equal) (operand_completes (Context.initial keyword name isMutable list).hole _) rfl rfl

/-- Every state can be led to the end of a program. -/
theorem completes (s : State) (place : Cursor) : s.Completes place s.closing := by
  cases s with
  | statement list => exact list.completes place
  | operand hole => exact operand_completes hole place
  | after e hole => exact hole.completes (.after _ e hole) place
  | path first rest hole => exact hole.completes (.path _ first rest hole) place
  | dot first rest hole =>
    exact .cons (t := .ident) (hole.completes (.path _ _ _ hole) _) rfl rfl
  | functionName keyword list =>
    exact .cons (t := .ident) (.cons (t := .lpar) (.cons (t := .rpar)
      (functionBrace_completes _ list _) rfl rfl) rfl rfl) rfl rfl
  | functionParen keyword name list =>
    exact .cons (t := .lpar) (.cons (t := .rpar) (functionBrace_completes _ list _) rfl rfl) rfl rfl
  | firstParam keyword name list =>
    exact .cons (t := .rpar) (functionBrace_completes _ list _) rfl rfl
  | afterParam header list => exact .cons (t := .rpar) (functionBrace_completes _ list _) rfl rfl
  | nextParam header list =>
    exact .cons (t := .ident) (.cons (t := .rpar) (functionBrace_completes _ list _) rfl rfl) rfl rfl
  | functionBrace header list => exact functionBrace_completes header list place
  | declaredName keyword isMutable list =>
    exact .cons (t := .ident) (declaredEqual_completes _ _ _ list _) rfl rfl
  | declaredEqual keyword name isMutable list =>
    exact declaredEqual_completes keyword name isMutable list place

end State

/-! ## Tied states are closed alike -/

variable {τ : Tie} {k : Nat}

theorem TiedPlace.closing {list list' : Place} (h : TiedPlace τ k list list') :
    list'.closing = list.closing := by
  induction h with
  | script => rfl
  | block _ _ _ ih => exact congrArg (_ :: ·) ih
  | body _ _ _ _ ih => exact congrArg (_ :: ·) ih

theorem TiedContext.closing {context context' : Context} (h : TiedContext τ k context context') :
    context'.closing = context.closing := by
  induction h with
  | whole => rfl
  | statement hp => exact congrArg (_ :: ·) hp.closing
  | initial _ _ hp => exact congrArg (_ :: ·) hp.closing
  | ret _ hp => exact congrArg (_ :: ·) hp.closing
  | group _ _ _ ih => exact congrArg (_ :: ·) ih
  | arg _ _ _ _ ih => exact congrArg (_ :: ·) ih
  | thenBranch _ _ ih => exact congrArg (_ :: _ :: ·) ih
  | elseBranch _ _ _ ih => exact ih
  | value _ _ ih => exact ih

theorem TiedHole.closing {hole hole' : Hole} (h : TiedHole τ k hole hole') :
    hole'.closing = hole.closing := by
  obtain ⟨p, context⟩ := hole
  obtain ⟨p', context'⟩ := hole'
  exact h.context.closing

theorem TiedState.closing {s s' : State} (h : TiedState τ k s s') : s'.closing = s.closing := by
  cases h with
  | statement hp => exact hp.closing
  | operand hh => exact congrArg (_ :: ·) hh.closing
  | after _ hh => exact hh.closing
  | path _ _ _ hh => exact hh.closing
  | dot _ hh => exact congrArg (_ :: ·) hh.closing
  | functionName _ hp | functionParen _ _ hp | firstParam _ _ hp | afterParam _ hp | nextParam _ hp
  | functionBrace _ hp | declaredName _ hp | declaredEqual _ _ hp =>
    simp only [State.closing, hp.closing]

end Reader

/-! ## Texts -/

namespace Parser

open Reader Lexer

/-- The beginning of a program that goes on in a new line. -/
def Viable (rule : Rule) (before : String) : Prop :=
  ∃ more node, parse rule (before ++ "\n" ++ more) = .ok node

/-- A text up to its next token is the beginning of a program. -/
theorem Reading.Reaches.viable {rule : Rule} {source : List Char} {goal : Reading}
    (h : (Reading.start rule source).Reaches goal) :
    Viable rule (String.ofList (source.take (skip goal.place).offset)) := by
  set more := " ".intercalate goal.state.closing with hmore
  obtain ⟨other, hother, hstate, hskip⟩ := h.continues (.newline more.toList)
  set place := Cursor.advance 1 { skip goal.place with rest := '\n' :: more.toList } with hplace
  have hholds : place.Holds goal.state.closing := rfl
  obtain ⟨last, node, hreads, hnode⟩ := other.state.completes place
  rw [hstate.closing] at hreads
  have hgap : gapLength ('\n' :: more.toList) = 1 := by
    rw [gapLength_succ (n := 0) rfl]
    exact congrArg (0 + 1 + ·) (gapLength_reads hreads hholds)
  have hresult : (Reading.start rule (source.take (skip goal.place).offset ++
      '\n' :: more.toList)).result = .ok node := by
    rw [hother.result_eq]
    refine readFrom_reads hreads hnode hholds ?_
    rw [hskip, skip]
    exact congrArg (Cursor.advance · _) hgap
  refine ⟨more, node, ?_⟩
  rw [parse, String.toList_append, String.toList_append, String.toList_ofList, List.append_assoc]
  exact hresult

/-- A text stands in the source at a place, and what is in front of it is the beginning of a
program. -/
def RefusedInTime (rule : Rule) (source text : String) (line col : Nat) : Prop :=
  ∃ before after, source = before ++ text ++ after ∧ text ≠ "" ∧ line = lineBehind before.toList ∧
    col = colBehind before.toList ∧ Viable rule before

/-- Up to the place of the error, or to the end of a source that ends too early, all is the beginning
of a program. -/
def Timely (rule : Rule) (source : String) : Malformed → Prop
  | .token _ text line col => RefusedInTime rule source text line col
  | .character c line col => RefusedInTime rule source (String.singleton c) line col
  | .ending _ _ => Viable rule source

/-- A reading that stops in front of a text has read the beginning of a program. -/
theorem Reading.Reaches.refusedInTime {rule : Rule} {source : String} {goal : Reading}
    (h : (Reading.start rule source.toList).Reaches goal) {n : Nat} (hn : 0 < n)
    (hle : n ≤ (skip goal.place).rest.length) :
    RefusedInTime rule source (String.ofList ((skip goal.place).rest.take n))
      (skip goal.place).line (skip goal.place).col := by
  have hin : (start rule source.toList).place.In source.toList := Cursor.in_start _
  obtain ⟨before, hsource, hb⟩ := (h.within hin nofun).1.skip
  have hviable := h.viable
  rw [hsource, hb.offset, List.take_left] at hviable
  refine ⟨String.ofList before, String.ofList ((skip goal.place).rest.drop n), ?_, ?_, ?_, ?_, hviable⟩
  · rw [← String.toList_inj, String.toList_append, String.toList_append, String.toList_ofList,
      String.toList_ofList, String.toList_ofList, List.append_assoc, List.take_append_drop, hsource]
  · intro hempty
    have hlength := congrArg String.length hempty
    rw [String.length_ofList, List.length_take_of_le hle] at hlength
    exact absurd hlength (Nat.ne_of_gt hn)
  · rw [String.toList_ofList, hb.line]
  · rw [String.toList_ofList, hb.col]

/-- **Errors are found as early as can be.**  The text in front of a token that cannot stand there, or
of a character that starts no token, is the beginning of a program, and so is a source that ends too
early. -/
theorem parse_error_viable {rule : Rule} {source : String} {m : Malformed}
    (h : parse rule source = .error m) : Timely rule source m := by
  obtain ⟨goal, hreaches, hstops⟩ := Reading.exists_stops (Reading.start rule source.toList)
  rw [show (Reading.start rule source.toList).result = .error m from h] at hstops
  cases hstops with
  | ending hrest _ =>
    have hin : (Reading.start rule source.toList).place.In source.toList := Cursor.in_start _
    have hlength := (hreaches.within hin nofun).1.skip.offset_add
    rw [hrest, List.length_nil, Nat.add_zero] at hlength
    have hviable := hreaches.viable
    rw [hlength, List.take_length, String.ofList_toList] at hviable
    cases goal.last <;> exact hviable
  | character hrest _ =>
    have hrefused := hreaches.refusedInTime Nat.one_pos (by rw [hrest]; exact Nat.le_add_left 1 _)
    rw [hrest] at hrefused
    exact hrefused
  | token hl _ => exact hreaches.refusedInTime (lexeme_pos hl) (lexeme_le hl)

/-- A semicolon cannot end a sum, but the open parenthesis, the ternary and the function around it can
all be completed. -/
theorem parse_error_viable_nested :
    parse .script "function f(a) \x7b return (a ? 1 + ; \x7d" = .error (.token .semicolon ";" 1 33) ∧
      RefusedInTime .script "function f(a) \x7b return (a ? 1 + ; \x7d" ";" 1 33 := by
  have hrefused : (match parse .script "function f(a) \x7b return (a ? 1 + ; \x7d" with
      | .ok _ => none
      | .error m => some m) = some (.token .semicolon ";" 1 33) := by
    decide +kernel
  have h : parse .script "function f(a) \x7b return (a ? 1 + ; \x7d" =
      .error (.token .semicolon ";" 1 33) := by
    split at hrefused
    · exact nomatch hrefused
    · next hm => rw [hm, Option.some.inj hrefused]
  exact ⟨h, parse_error_viable h⟩

end Parser

end Scriptlet
