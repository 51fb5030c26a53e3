import Scriptlet.Proofs.Ownership

/-!
# What code can raise

Some failures are ordinary: any code may meet a value of the wrong sort, a name that is not bound,
or too many open calls.  The others come from the text of the code: from a literal, from an
operator, or from what stands in the place of a path.  `Node.Raises` lists those of an expression
and `Node.RunRaises` those of a statement.  Each operation of the language fails in an ordinary way
or as its text allows.
-/

namespace Scriptlet

set_option autoImplicit false

variable {ε σ : Type}

/-! ## Failures -/

namespace Fault

@[simp] theorem failure_ofFailure (f : Failure) : (ofFailure f : Fault ε).failure = f := by
  cases f <;> rfl

@[simp] theorem failure_attach (loc : Option Location) (fault : Fault ε) :
    (fault.attach loc).failure = fault.failure := by
  cases fault <;> rfl

@[simp] theorem failure_through (frame : CallFrame ε) (fault : Fault ε) :
    (fault.through frame).failure = fault.failure := by
  cases fault <;> rfl

theorem eq_breakdown {fault : Fault ε} {b : Breakdown} (h : fault.failure = .breakdown b) :
    fault = .breakdown b := by
  cases fault with
  | error e => exact nomatch h
  | breakdown b' => rw [Failure.breakdown.inj h]

end Fault

/-- A failure that any code may meet: an error of the language that is not about its text, or too
many open calls. -/
def Failure.Ordinary : Failure → Prop
  | error cause => cause.kind ≠ .parse
  | breakdown b => b = .callDepth

/-! ## Copies and paths -/

namespace Value

mutual

/-- A copy fails only where the fields of a shared object cannot be copied. -/
theorem copyWith_error {fieldsAt : Nat → Except Breakdown (List (Slot ε))} {b : Breakdown}
    (hat : ∀ place b, fieldsAt place = .error b → b = .callDepth) :
    (v : Value ε) → v.copyWith fieldsAt = .error b → b = .callDepth
  | number _, h | boolean _, h | string _, h | null, h | function _, h => nomatch h
  | object fields, h => by
    rw [copyWith, except_map_eq_error] at h
    exact copyFieldsWith_error hat fields h
  | shared _ place, h => by
    rw [copyWith, except_map_eq_error] at h
    exact hat place b h

theorem copyFieldsWith_error {fieldsAt : Nat → Except Breakdown (List (Slot ε))} {b : Breakdown}
    (hat : ∀ place b, fieldsAt place = .error b → b = .callDepth) :
    (fields : List (Slot ε)) → copyFieldsWith fieldsAt fields = .error b → b = .callDepth
  | [], h => nomatch h
  | ⟨_, _, value⟩ :: rest, h => by
    rw [copyFieldsWith] at h
    rcases except_bind_eq_error.1 h with h | ⟨_, _, h⟩
    · exact copyWith_error hat value h
    rcases except_bind_eq_error.1 h with h | ⟨_, _, h⟩
    · exact copyFieldsWith_error hat rest h
    · exact nomatch h

end

end Value

/-- Only objects that hold themselves have no copy. -/
theorem Store.copy_error {s : Store ε} {v : Value ε} {b : Breakdown} (h : s.copy v = .error b) :
    b = .callDepth := by
  have copyFields_error : ∀ depth place b,
      s.copyFields depth place = .error b → b = .callDepth := by
    intro depth
    induction depth with
    | zero => exact fun _ _ h => (Except.error.inj h).symm
    | succ depth ih => exact fun place b h => Value.copyFieldsWith_error ih _ h
  exact Value.copyWith_error (copyFields_error _) v h

/-- What steps raise that are no names. -/
def Step.Raises (steps : List Step) (failure : Failure) : Prop :=
  ∃ text, .other text ∈ steps ∧ failure = .error (.notLvalue text)

/-- What a path raises if a step of it is no name. -/
def Path.Raises (path : Path) : Failure → Prop :=
  Step.Raises path.steps

theorem Path.not_raises_name {name : String} {failure : Failure} :
    ¬ (Path.name name).Raises failure := by
  rintro ⟨text, h, _⟩
  exact nomatch List.mem_singleton.1 h

theorem Path.raises_append {p q : Path} {failure : Failure} :
    (p.append q).Raises failure ↔ p.Raises failure ∨ q.Raises failure := by
  have hsteps : (p.append q).steps = p.steps ++ q.steps := rfl
  simp only [Path.Raises, Step.Raises, hsteps, List.mem_append, or_and_right, exists_or]

theorem Step.Raises.tail {step : Step} {steps : List Step} {failure : Failure}
    (h : Step.Raises steps failure) : Step.Raises (step :: steps) failure := by
  obtain ⟨text, ht, hf⟩ := h
  exact ⟨text, List.mem_cons_of_mem _ ht, hf⟩

theorem Step.follow_error {find : String → Option (Slot ε)} {step : Step} {steps : List Step}
    {cause : Cause} (h : step.follow find = .error cause) :
    (Failure.error cause).Ordinary ∨ Step.Raises (step :: steps) (.error cause) := by
  cases step with
  | name n =>
    rw [follow] at h
    split at h
    · cases h
    · cases h
      left
      rintro ⟨⟩
  | other text =>
    cases h
    exact .inr ⟨text, List.mem_cons_self, rfl⟩

theorem Slot.resolve_error {store : Store ε} {steps : List Step} {slot : Slot ε} {cause : Cause}
    (h : slot.resolve store steps = .error cause) :
    (Failure.error cause).Ordinary ∨ Step.Raises steps (.error cause) := by
  induction steps generalizing slot with
  | nil => cases h
  | cons step rest ih =>
    rw [resolve] at h
    split at h
    · rcases except_bind_eq_error.1 h with h | ⟨field, _, h⟩
      · exact Step.follow_error h
      · exact (ih h).imp_right Step.Raises.tail
    · cases h
      left
      rintro ⟨⟩

theorem Scope.resolve_error {s : Scope ε} {store : Store ε} {path : Path} {cause : Cause}
    (h : s.resolve store path = .error cause) :
    (Failure.error cause).Ordinary ∨ path.Raises (.error cause) := by
  rw [resolve] at h
  rcases except_bind_eq_error.1 h with h | ⟨slot, _, h⟩
  · exact Step.follow_error h
  · exact (Slot.resolve_error h).imp_right Step.Raises.tail

/-- A change along a path fails where the path does, or where the change itself does. -/
theorem Slot.modify_error {store : Store ε} {f : Slot ε → Except Failure (Slot ε)}
    {steps : List Step} {slot : Slot ε} {failure : Failure}
    (h : slot.modify store f steps = .error failure) :
    failure.Ordinary ∨ Step.Raises steps failure ∨ ∃ s, f s = .error failure := by
  induction steps generalizing slot with
  | nil =>
    rw [modify, except_map_eq_error] at h
    exact .inr (.inr ⟨slot, h⟩)
  | cons step rest ih =>
    -- Both sorts of objects follow the step and go on from the field that it leads to.
    have through : ∀ (fields : List (Slot ε)) (put : Change ε → Except Failure (Change ε)),
        (∀ change failure, put change ≠ .error failure) →
        ((step.follow (Fields.find? · fields)).mapError Failure.error >>= fun field =>
          field.modify store f rest >>= put) = .error failure →
        failure.Ordinary ∨ Step.Raises (step :: rest) failure ∨ ∃ s, f s = .error failure := by
      intro fields put hput hm
      rcases except_bind_eq_error.1 hm with hm | ⟨field, _, hm⟩
      · obtain ⟨cause, hn, rfl⟩ := mapError_eq_error.1 hm
        exact (Step.follow_error hn).imp_right .inl
      rcases except_bind_eq_error.1 hm with hm | ⟨change, _, hm⟩
      · exact (ih hm).imp_right (Or.imp_left Step.Raises.tail)
      · exact (hput change failure hm).elim
    rw [modify] at h
    split at h
    · refine through _ _ ?_ h
      intro change failure
      cases change <;> simp
    · refine through _ _ ?_ h
      intro change failure
      cases change <;> simp
    · cases h
      left
      rintro ⟨⟩

theorem Scope.modify_error {s : Scope ε} {store : Store ε} {path : Path}
    {f : Slot ε → Except Failure (Slot ε)} {failure : Failure}
    (h : s.modify store path f = .error failure) :
    failure.Ordinary ∨ path.Raises failure ∨ ∃ slot, f slot = .error failure := by
  rw [modify] at h
  rcases except_bind_eq_error.1 h with h | ⟨slot, _, h⟩
  · obtain ⟨cause, hn, rfl⟩ := mapError_eq_error.1 h
    exact (Step.follow_error hn).imp_right .inl
  rcases except_bind_eq_error.1 h with h | ⟨change, _, h⟩
  · exact (Slot.modify_error h).imp_right (Or.imp_left Step.Raises.tail)
  · cases change <;> cases h

theorem Scope.define_error {s : Scope ε} {slot : Slot ε} {cause : Cause}
    (h : s.define slot = .error cause) : cause.kind ≠ .parse := by
  rw [define, Fields.define] at h
  split at h
  · cases h
    rintro ⟨⟩
  · cases h

/-! ## Operators -/

/-- The binary operators that the language has. -/
def binaryOperators : List String :=
  ["==", "===", "!=", "!==", "<", ">", "<=", ">=", "+", "-", "*"]

/-- The unary operators that the language has. -/
def unaryOperators : List String :=
  ["-", "!"]

/-- The assignment operators that the language has. -/
def assignmentOperators : List String :=
  ["=", "+=", "-=", "*="]

/-- A failure that names a feature, which is missing unless its operator is on a list. -/
def Unsupported.Raises (what : String → Unsupported) (operators : List String) (op : String)
    (failure : Failure) : Prop :=
  op ∉ operators ∧ failure = .breakdown (.unsupported (what op))

theorem ordinary_of_mapError {α : Type} {r : Except Cause α} {failure : Failure}
    (hr : ∀ cause, r = .error cause → cause.kind ≠ .parse)
    (h : r.mapError Failure.error = .error failure) : failure.Ordinary := by
  obtain ⟨cause, hc, rfl⟩ := mapError_eq_error.1 h
  exact hr cause hc

namespace Value

variable {v w : Value ε} {cause : Cause} {failure : Failure}

theorem asNumber_error (h : v.asNumber = .error cause) : cause.kind ≠ .parse := by
  unfold asNumber at h
  split at h
  · cases h
  · cases h
    rintro ⟨⟩

theorem checked_error {n : Int} (h : (checked n : Except Cause (Value ε)) = .error cause) :
    cause.kind ≠ .parse := by
  rw [checked] at h
  split at h
  · cases h
  · cases h
    rintro ⟨⟩

theorem arithmetic_error {op : Int → Int → Int} (h : arithmetic op v w = .error cause) :
    cause.kind ≠ .parse := by
  rw [arithmetic] at h
  rcases except_bind_eq_error.1 h with h | ⟨_, _, h⟩
  · exact asNumber_error h
  rcases except_bind_eq_error.1 h with h | ⟨_, _, h⟩
  · exact asNumber_error h
  · exact checked_error h

theorem negate_error (h : v.negate = .error cause) : cause.kind ≠ .parse := by
  rw [negate] at h
  rcases except_bind_eq_error.1 h with h | ⟨_, _, h⟩
  · exact asNumber_error h
  · exact checked_error h

theorem inverse_error (h : v.inverse = .error cause) : cause.kind ≠ .parse := by
  unfold inverse at h
  split at h
  · cases h
  · cases h
    rintro ⟨⟩

theorem compare_error [BEq ε] {loose : Bool} (h : v.compare loose w = .error cause) :
    cause.kind ≠ .parse := by
  unfold compare at h
  split at h
  case h_5 =>
    split at h
    · cases h
    · cases h
      rintro ⟨⟩
  case h_6 =>
    split at h
    · cases h
      rintro ⟨⟩
    · split at h
      · cases h
      · cases h
        rintro ⟨⟩
  all_goals cases h

theorem compareInverse_error [BEq ε] {loose : Bool}
    (h : (v.compare loose w >>= inverse) = .error cause) : cause.kind ≠ .parse := by
  rcases except_bind_eq_error.1 h with h | ⟨_, _, h⟩
  · exact compare_error h
  · exact inverse_error h

theorem compareInequality_error {op : String}
    (hop : (op = "<" || op = ">" || op = "<=" || op = ">=") = true)
    (h : compareInequality op v w = .error failure) : failure.Ordinary := by
  unfold compareInequality at h
  split at h
  · simp only [Bool.or_eq_true, decide_eq_true_eq] at hop
    rcases hop with ((rfl | rfl) | rfl) | rfl <;> cases h
  · cases h
    rintro ⟨⟩

theorem applyOperator_error [BEq ε] {op : String} (h : v.applyOperator op w = .error failure) :
    failure.Ordinary ∨ Unsupported.Raises .operator binaryOperators op failure := by
  unfold applyOperator at h
  split at h
  · exact .inl (ordinary_of_mapError (fun _ => compare_error) h)
  split at h
  · exact .inl (ordinary_of_mapError (fun _ => compare_error) h)
  split at h
  · exact .inl (ordinary_of_mapError (fun _ => compareInverse_error) h)
  split at h
  · exact .inl (ordinary_of_mapError (fun _ => compareInverse_error) h)
  split at h
  · next hop => exact .inl (compareInequality_error hop h)
  split at h
  · exact .inl (ordinary_of_mapError (fun _ => arithmetic_error) h)
  split at h
  · exact .inl (ordinary_of_mapError (fun _ => arithmetic_error) h)
  split at h
  · exact .inl (ordinary_of_mapError (fun _ => arithmetic_error) h)
  · refine .inr ⟨?_, (Except.error.inj h).symm⟩
    simp_all [binaryOperators]

theorem applyUnary_error {op : String} (h : v.applyUnary op = .error failure) :
    failure.Ordinary ∨ Unsupported.Raises .unary unaryOperators op failure := by
  unfold applyUnary at h
  split at h
  · exact .inl (ordinary_of_mapError (fun _ => negate_error) h)
  split at h
  · exact .inl (ordinary_of_mapError (fun _ => inverse_error) h)
  · next hminus hnot =>
    refine .inr ⟨?_, (Except.error.inj h).symm⟩
    simp [unaryOperators, hminus, hnot]

end Value

theorem Slot.assign_error {s : Slot ε} {v : Value ε} {cause : Cause}
    (h : s.assign v = .error cause) : cause.kind ≠ .parse := by
  rw [assign] at h
  split at h
  · cases h
    rintro ⟨⟩
  split at h
  · cases h
    rintro ⟨⟩
  · cases h

theorem Eval.assigned_error [BEq ε] {op : String} {operand : Value ε} {s : Slot ε}
    {failure : Failure} (h : assigned op operand s = .error failure) :
    failure.Ordinary ∨ Unsupported.Raises .assignment assignmentOperators op failure := by
  -- The operators that stand behind the compound assignments are there.
  have update_error : ∀ binary ∈ binaryOperators,
      assigned.update operand s binary = .error failure → failure.Ordinary := by
    intro binary hb hu
    rw [assigned.update] at hu
    rcases except_bind_eq_error.1 hu with hu | ⟨_, _, hu⟩
    · exact (Value.applyOperator_error hu).resolve_right fun hr => hr.1 hb
    · exact ordinary_of_mapError (fun _ => Slot.assign_error) hu
  unfold assigned at h
  split at h
  · exact .inl (ordinary_of_mapError (fun _ => Slot.assign_error) h)
  split at h
  · exact .inl (update_error "+" (by decide) h)
  split at h
  · exact .inl (update_error "-" (by decide) h)
  split at h
  · exact .inl (update_error "*" (by decide) h)
  · refine .inr ⟨?_, (Except.error.inj h).symm⟩
    simp_all [assignmentOperators]

/-! ## The code -/

mutual

/-- What an expression raises by its own text when it is evaluated, function bodies excluded. -/
def Node.Raises (failure : Failure) : Node → Prop
  | ⟨_, form⟩ => form.Raises failure

/-- What a form raises by its own text when it is evaluated. -/
def Form.Raises (failure : Failure) : Form → Prop
  | .number text => Literal.number text = .error failure
  | .string text => (Literal.string text).mapError Failure.error = .error failure
  | .boolean text => (Literal.boolean text).mapError Failure.error = .error failure
  | .null | .ident _ => False
  | .member object member => (object.path.append member.path).Raises failure
  | .group expr => expr.Raises failure
  | .call callee args => callee.path.Raises failure ∨ Node.AnyRaises failure args
  | .ternary condition thenBranch elseBranch =>
    condition.Raises failure ∨ thenBranch.Raises failure ∨ elseBranch.Raises failure
  | .assign target op value =>
    value.Raises failure ∨ target.path.Raises failure ∨
      Unsupported.Raises .assignment assignmentOperators op failure
  | .chain _ first rest => first.Raises failure ∨ Node.OperandsRaise failure rest
  | .unary op operand =>
    operand.Raises failure ∨ Unsupported.Raises .unary unaryOperators op failure
  | form => failure = .breakdown (.unsupported (.expression form.label))

/-- What one of some expressions raises. -/
def Node.AnyRaises (failure : Failure) : List Node → Prop
  | [] => False
  | node :: rest => node.Raises failure ∨ Node.AnyRaises failure rest

/-- What operands and the operators before them raise. -/
def Node.OperandsRaise (failure : Failure) : List (String × Node) → Prop
  | [] => False
  | (op, node) :: rest =>
    node.Raises failure ∨ Unsupported.Raises .operator binaryOperators op failure ∨
      Node.OperandsRaise failure rest

end

mutual

/-- What a statement raises by its own text when it is run, function bodies excluded. -/
def Node.RunRaises (failure : Failure) : Node → Prop
  | ⟨_, form⟩ => form.RunRaises failure

/-- What a form raises by its own text when it is run. -/
def Form.RunRaises (failure : Failure) : Form → Prop
  | .script statements | .block statements => Node.AnyRunRaises failure statements
  | .expression expr | .declaration _ expr _ | .ret (some expr) => expr.Raises failure
  | .function _ _ _ _ | .ret none => False
  | .bare => failure = .breakdown (.unsupported (.statement Form.bare.label))
  | form => form.Raises failure

/-- What one of some statements raises. -/
def Node.AnyRunRaises (failure : Failure) : List Node → Prop
  | [] => False
  | node :: rest => node.RunRaises failure ∨ Node.AnyRunRaises failure rest

end

end Scriptlet
