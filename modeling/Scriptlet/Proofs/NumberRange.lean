import Scriptlet.Proofs.Failures

/-!
# Numbers stay in range

A number of the language has 64 bits.  In a world where every number is in range and every string is
short enough for its length to be a number, a run keeps to these bounds, whether it succeeds or
fails: so do the values that it returns and binds, and the arguments that an error keeps of the
calls that it came out of (`numbers_stay_in_range`).  The literals in the bodies of functions count
among the strings, as a later call may bring them up.

The arguments of calls that go well leave no trace.  `callWatched` is an evaluator that looks at the
arguments of every call and breaks down with an alarm if one is out of bounds; it comes to the same
end as the evaluator without the watch, whatever the alarm.
-/

namespace Scriptlet

set_option autoImplicit false

variable {ε σ : Type}

/-! ## Bounds -/

/-- A standard function, or a script function whose string literals are short; none of the host's. -/
def Function.Bounded (f : Function ε) : Prop :=
  match f.callback with
  | .script _ function => ShortLiterals function.body.strings
  | .builtin _ => True
  | .host _ => False

namespace Value

/-- A leaf within bounds; what stands for a shared object is one only if `S`. -/
def LeafBounded (S : Prop) : Value ε → Prop
  | number n => IsNumber n
  | string s => IsShort s
  | function f => f.Bounded
  | shared _ _ => S
  | boolean _ | null | object _ => True

/-- Every number in a value is in range and every string is short, and nothing is shared. -/
def Bounded (v : Value ε) : Prop :=
  v.Leaves (LeafBounded False)

variable {v : Value ε}

/-- A value that shares nothing may stand anywhere. -/
theorem Bounded.leaves (h : v.Bounded) : v.Leaves (LeafBounded True) := by
  refine Leaves.imp (fun u hu => ?_) h
  cases u with
  | shared _ _ => trivial
  | _ => exact hu

theorem LeafBounded.unshared (v : Value ε) (hv : v.variant ≠ .object) (h : v.LeafBounded True) :
    v.LeafBounded False := by
  cases v with
  | shared _ _ => exact hv rfl
  | _ => exact h

theorem IsComputed.bounded (h : v.IsComputed) : v.Bounded := by
  cases v with
  | number n => exact Literal.inRange_iff.1 h
  | boolean b => trivial
  | _ => exact h.elim

theorem Bounded.text_short (h : v.Bounded) : IsShort v.text := by
  unfold text
  split
  · exact Numeral.ofInt_short h
  · decide
  · decide
  · exact h
  all_goals decide

theorem typeName_short (v : Value ε) : IsShort v.typeName := by
  unfold typeName
  split
  all_goals decide

end Value

/-- Every number that can be found in a world is in range and every string is short. -/
def World.Bounded (w : World ε σ) : Prop :=
  w.Leaves (Value.LeafBounded True)

/-- The arguments that an error keeps are within bounds. -/
def Fault.Bounded : Fault ε → Prop
  | error e => ∀ frame ∈ e.trace, ∀ v ∈ frame.args, v.Bounded
  | breakdown _ => True

namespace Fault

theorem bounded_ofCause (cause : Cause) : (ofCause cause : Fault ε).Bounded :=
  List.forall_mem_nil _

theorem bounded_ofFailure (failure : Failure) : (ofFailure failure : Fault ε).Bounded := by
  cases failure with
  | error cause => exact bounded_ofCause cause
  | breakdown b => trivial

theorem Bounded.attach {e : Fault ε} (h : e.Bounded) (loc : Option Location) :
    (e.attach loc).Bounded := by
  cases e with
  | error e => exact h
  | breakdown b => trivial

theorem Bounded.through {e : Fault ε} (h : e.Bounded) {frame : CallFrame ε}
    (hframe : ∀ v ∈ frame.args, v.Bounded) : (e.through frame).Bounded := by
  cases e with
  | error e =>
    refine List.forall_mem_append.2 ⟨h, ?_⟩
    rw [List.forall_mem_singleton]
    exact hframe
  | breakdown b => trivial

end Fault

/-- An assignment leaves the operand or what an operator computes. -/
theorem Eval.assigned_bounded [BEq ε] {op : String} {operand : Value ε} (ho : operand.Bounded)
    (s t : Slot ε) (_ : s.value.Leaves (Value.LeafBounded True))
    (h : assigned op operand s = .ok t) : t.value.Leaves (Value.LeafBounded True) := by
  obtain ⟨v, ha, ⟨_, rfl⟩ | ⟨binary, hv⟩⟩ := assigned_eq h
  · rw [(Slot.assign_eq ha).2.2]
    exact ho.leaves
  · rw [(Slot.assign_eq ha).2.2]
    exact (Value.applyOperator_computed hv).bounded.leaves

/-! ## Computations -/

namespace Exec

variable {α β : Type}

/-- The end `r` of a run is within bounds, and what it returns has `Q`; another run ends alike. -/
structure Within (Q : α → Prop) (r other : Except (Fault ε) α × World ε σ) : Prop where
  world : r.2.Bounded
  result : ∀ a, r.1 = .ok a → Q a
  fault : ∀ e, r.1 = .error e → e.Bounded
  same : other = r

/-- In a world within bounds `x` keeps to them, and `y` comes to the same end. -/
def Bounded (Q : α → Prop) (x y : Exec ε σ α) : Prop :=
  ∀ w, w.Bounded → Within Q (x.outcome w) (y.outcome w)

namespace Bounded

variable {Q : α → Prop} {x y : Exec ε σ α}

/-- A computation that leaves the scope and the store alone. -/
theorem of_still (hx : ∀ w, (x.outcome w).2.scope = w.scope ∧ (x.outcome w).2.store = w.store)
    (hr : ∀ w a, w.Bounded → (x.outcome w).1 = .ok a → Q a)
    (he : ∀ w e, (x.outcome w).1 = .error e → e.Bounded) : Bounded Q x x := by
  intro w hw
  obtain ⟨hscope, hstore⟩ := hx w
  refine ⟨⟨?_, ?_⟩, fun a => hr w a hw, he w, rfl⟩
  · rw [hscope]
    exact hw.scope
  · rw [hstore]
    exact hw.store

theorem pure {a : α} (h : Q a) : Bounded Q (pure a : Exec ε σ α) (pure a) := by
  refine of_still (fun _ => ⟨rfl, rfl⟩) ?_ fun _ _ he => nomatch he
  intro w b _ hb
  exact Except.ok.inj hb ▸ h

theorem throw {e : Fault ε} (h : e.Bounded) : Bounded Q (throw e : Exec ε σ α) (throw e) := by
  refine of_still (fun _ => ⟨rfl, rfl⟩) (fun _ _ _ ha => nomatch ha) ?_
  intro w e' he
  exact Except.error.inj he ▸ h

theorem fail {cause : Cause} : Bounded Q (fail cause : Exec ε σ α) (fail cause) :=
  throw (Fault.bounded_ofCause cause)

theorem breakDown {b : Breakdown} : Bounded Q (breakDown b : Exec ε σ α) (breakDown b) :=
  throw trivial

theorem ofExcept {r : Except Cause α} (h : ∀ a, r = .ok a → Q a) :
    Bounded Q (ofExcept r : Exec ε σ α) (ofExcept r) := by
  cases r with
  | ok a => exact pure (h a rfl)
  | error cause => exact fail

theorem ofFailing {r : Except Failure α} (h : ∀ a, r = .ok a → Q a) :
    Bounded Q (ofFailing r : Exec ε σ α) (ofFailing r) := by
  cases r with
  | ok a => exact pure (h a rfl)
  | error failure => exact throw (Fault.bounded_ofFailure failure)

theorem visit (node : Node) :
    Bounded (fun _ => True) (visit node : Exec ε σ Unit) (visit node) :=
  of_still (fun _ => ⟨rfl, rfl⟩) (fun _ _ _ _ => trivial) fun _ _ he => nomatch he

theorem emit (effect : Effect) :
    Bounded (fun _ => True) (emit effect : Exec ε σ Unit) (emit effect) :=
  of_still (fun _ => ⟨rfl, rfl⟩) (fun _ _ _ _ => trivial) fun _ _ he => nomatch he

theorem fresh : Bounded (fun _ => True) (fresh : Exec ε σ Nat) fresh :=
  of_still (fun _ => ⟨rfl, rfl⟩) (fun _ _ _ _ => trivial) fun _ _ he => nomatch he

theorem resolve (path : Path) :
    Bounded (fun slot => slot.value.Leaves (Value.LeafBounded True))
      (resolve path : Exec ε σ (Slot ε)) (resolve path) := by
  apply of_still
  · intro w
    rw [outcome_resolve]
    exact ⟨rfl, rfl⟩
  · intro w slot hw hs
    rw [outcome_resolve] at hs
    exact hw.resolve (mapError_eq_ok.1 hs)
  · intro w e he
    rw [outcome_resolve] at he
    obtain ⟨cause, _, rfl⟩ := mapError_eq_error.1 he
    exact Fault.bounded_ofCause cause

/-- What is read is a copy. -/
theorem read (path : Path) :
    Bounded Value.Bounded (read path : Exec ε σ (Value ε)) (read path) := by
  apply of_still
  · intro w
    rw [outcome_read]
    exact ⟨rfl, rfl⟩
  · intro w v hw hv
    obtain ⟨slot, hs, hc⟩ := read_eq_ok hv
    exact hw.store.copy Value.LeafBounded.unshared (hw.resolve hs) hc
  · intro w e he
    rcases read_eq_error he with ⟨cause, _, rfl⟩ | ⟨_, b, _, rfl⟩
    · exact Fault.bounded_ofCause cause
    · trivial

theorem copyAll {vs : List (Value ε)} (h : ∀ v ∈ vs, v.Bounded) :
    Bounded (fun own => ∀ v ∈ own, v.Bounded) (copyAll vs : Exec ε σ (List (Value ε)))
      (copyAll vs) := by
  apply of_still
  · intro w
    rw [outcome_copyAll]
    exact ⟨rfl, rfl⟩
  · intro w own hw hown
    rw [outcome_copyAll] at hown
    exact hw.store.copyAll Value.LeafBounded.unshared (fun v hv => (h v hv).leaves)
      (mapError_eq_ok.1 hown)
  · intro w e he
    rw [outcome_copyAll] at he
    obtain ⟨b, _, rfl⟩ := mapError_eq_error.1 he
    trivial

theorem bind {f g : α → Exec ε σ β} {R : β → Prop} (hx : Bounded Q x y)
    (hf : ∀ a, Q a → Bounded R (f a) (g a)) : Bounded R (x >>= f) (y >>= g) := by
  intro w hw
  obtain ⟨hworld, hresult, hfault, hsame⟩ := hx w hw
  rw [outcome_bind, outcome_bind, hsame]
  generalize x.outcome w = r at hworld hresult hfault
  obtain ⟨e | a, after⟩ := r
  · refine ⟨hworld, fun _ hb => (nomatch hb), ?_, rfl⟩
    intro e' he
    exact hfault e' (congrArg Except.error (Except.error.inj he))
  · exact hf a (hresult a rfl) after hworld

theorem adapt {f : Store ε → Fault ε → Fault ε} (hx : Bounded Q x y)
    (hf : ∀ store e, store.Leaves (Value.LeafBounded True) → e.Bounded → (f store e).Bounded) :
    Bounded Q (adapt f x) (adapt f y) := by
  intro w hw
  obtain ⟨hworld, hresult, hfault, hsame⟩ := hx w hw
  rw [outcome_adapt, outcome_adapt, hsame]
  refine ⟨hworld, fun a ha => hresult a (mapError_eq_ok.1 ha), ?_, rfl⟩
  intro e he
  obtain ⟨e', he', rfl⟩ := mapError_eq_error.1 he
  exact hf _ e' hworld.store (hfault e' he')

theorem located (loc : Option Location) (hx : Bounded Q x y) :
    Bounded Q (located loc x) (located loc y) :=
  hx.adapt fun _ _ _ he => he.attach loc

theorem define {slot : Slot ε} (h : slot.value.Bounded) :
    Bounded (fun _ => True) (define slot : Exec ε σ Unit) (define slot) := by
  intro w hw
  rw [outcome_define]
  split
  · next scope hd =>
    exact ⟨⟨Scope.All.define hw.scope h.leaves hd, hw.store⟩, fun _ _ => trivial,
      fun _ he => (nomatch he), rfl⟩
  · next cause hd =>
    refine ⟨hw, fun _ _ => trivial, ?_, rfl⟩
    intro e he
    exact Except.error.inj he ▸ Fault.bounded_ofCause cause

theorem modifySlot [BEq ε] {path : Path} {op : String} {v : Value ε} (hv : v.Bounded) :
    Bounded (fun _ => True) (modifySlot path (Eval.assigned op v) : Exec ε σ Unit)
      (modifySlot path (Eval.assigned op v)) := by
  intro w hw
  rw [outcome_modifySlot]
  split
  · next scope store hm =>
    exact ⟨(hw.modify (Eval.assigned_bounded hv) hm).1, fun _ _ => trivial,
      fun _ he => (nomatch he), rfl⟩
  · next failure hm =>
    refine ⟨hw, fun _ _ => trivial, ?_, rfl⟩
    intro e he
    exact Except.error.inj he ▸ Fault.bounded_ofFailure failure

/-- A block defines its names in a frame of its own. -/
theorem nested (hx : Bounded Q x y) : Bounded Q (nested x) (nested y) := by
  intro w hw
  rw [outcome_nested, outcome_nested]
  obtain ⟨hworld, hresult, hfault, hsame⟩ :=
    hx { w with scope := w.scope.push } ⟨Scope.All.push hw.scope, hw.store⟩
  exact ⟨⟨Scope.All.pop hworld.scope, hworld.store⟩, hresult, hfault, by rw [hsame]⟩

theorem isolated {scope : Scope ε} (hs : scope.Leaves (Value.LeafBounded True))
    (hx : Bounded Q x y) : Bounded Q (isolated scope x) (isolated scope y) := by
  intro w hw
  rw [outcome_isolated, outcome_isolated]
  obtain ⟨hworld, hresult, hfault, hsame⟩ :=
    hx { w with scope, visited := none } ⟨hs, hw.store⟩
  -- The scope comes back as it was, the store as the computation left it.
  exact ⟨⟨hw.scope, hworld.store⟩, hresult, hfault, by rw [hsame]⟩

end Bounded

end Exec

/-! ## Evaluation -/

namespace Eval

open Exec

variable {call call' : Caller ε σ}

/-- Two ways to call functions, the first of which keeps to the bounds. -/
def BoundedCallers (call call' : Caller ε σ) : Prop :=
  ∀ f args, f.Bounded → (∀ v ∈ args, v.Bounded) →
    Exec.Bounded Value.Bounded (call f args) (call' f args)

/-- What a statement comes to is within bounds. -/
def BoundedOutcome (o : Outcome ε) : Prop :=
  o.unwrap.Bounded

theorem asFunction_bounded {slot : Slot ε} {f : Function ε}
    (h : slot.value.Leaves (Value.LeafBounded True)) (hf : asFunction slot = .ok f) :
    f.Bounded := by
  rw [asFunction_eq hf] at h
  exact h

/-- The arguments that an error keeps are copies of those that were passed. -/
theorem invoke_bounded (hc : BoundedCallers call call') {f : Function ε} (hf : f.Bounded)
    {args : List (Value ε)} (hargs : ∀ v ∈ args, v.Bounded) (site : Option Location) :
    Exec.Bounded Value.Bounded (invoke call f args site) (invoke call' f args site) := by
  refine (hc f args hf hargs).adapt ?_
  intro store e hstore he
  rw [outOf]
  split
  · next copied hcopied =>
    exact he.through (hstore.copyAll Value.LeafBounded.unshared (fun v hv => (hargs v hv).leaves)
      hcopied)
  · trivial

/-- The length of a string is a number, because the string is short. -/
theorem builtin_bounded (b : Builtin) {args : List (Value ε)} (h : ∀ v ∈ args, v.Bounded) :
    Exec.Bounded Value.Bounded (b.run args : Exec ε σ (Value ε)) (b.run args) := by
  unfold Builtin.run
  split
  · exact (Bounded.emit _).bind fun _ _ => .pure trivial
  · exact (Bounded.emit _).bind fun _ _ => .pure trivial
  · exact .fail
  · next v _ => exact .pure v.typeName_short
  · next v _ => exact .pure (h v List.mem_cons_self).text_short
  · next s _ =>
    have hshort : IsShort s := h _ List.mem_cons_self
    exact .pure hshort.isNumber
  · exact .fail
  · exact .fail
  · exact .fail

/-- The bounds as a judgement of runs. -/
def bounding : Judgement ε σ σ where
  value := Value.Bounded
  slot slot := slot.value.Leaves (Value.LeafBounded True)
  function := Function.Bounded
  runs _ _ Q x y := Exec.Bounded Q x y

theorem bounding_lawful : (bounding : Judgement ε σ σ).Lawful where
  null := trivial
  callee := asFunction_bounded
  pure := .pure
  bind := .bind
  fail _ := .fail
  fresh := .fresh
  define := .define
  nested := .nested
  defining := id

variable [BEq ε]

theorem bounding_expressions (hc : BoundedCallers call call') :
    bounding.Expressions call call' fun node => ShortLiterals node.strings where
  visits _ _ _ _ _ _ hx := (Bounded.visit _).bind fun _ _ => hx.located _
  form {loc form} hs := by
    rw [Node.strings] at hs
    cases form with
    | ident name => exact .read _
    | member object member => exact .read _
    | group expr => exact hs
    | number text => exact .ofFailing fun _ => Literal.isNumber_of_number
    | string text => exact .ofExcept (hs text List.mem_cons_self)
    | boolean text => exact .ofExcept fun _ _ => trivial
    | null => trivial
    | call callee args =>
      rw [Form.strings, shortLiterals_append] at hs
      exact ⟨.resolve _, shortLiterals_allStrings.1 hs.2,
        fun f values hf hv => invoke_bounded hc hf hv loc⟩
    | ternary condition thenBranch elseBranch =>
      rwa [Form.strings, shortLiterals_append, shortLiterals_append] at hs
    | assign target op value =>
      rw [Form.strings, shortLiterals_append] at hs
      exact ⟨hs.2, fun _ ho => .modifySlot ho⟩
    | chain _ first rest =>
      rw [Form.strings, shortLiterals_append] at hs
      refine ⟨hs.1, fun p hp => ⟨shortLiterals_operandStrings.1 hs.2 p hp, fun _ _ _ _ => ?_⟩⟩
      exact .ofFailing fun u hu => (Value.applyOperator_computed hu).bounded
    | unary op operand =>
      exact ⟨hs, fun _ _ => .ofFailing fun u hu => (Value.applyUnary_computed hu).bounded⟩
    | bare | expression | block | function | declaration | ret | script => exact .breakDown

theorem bounding_statements (hc : BoundedCallers call call') :
    bounding.Statements call call' (fun node => ShortLiterals node.strings)
      fun node => ShortLiterals node.strings where
  expressions := bounding_expressions hc
  visits := (bounding_expressions hc).visits
  form {loc form} hs := by
    cases form with
    | script statements | block statements => exact shortLiterals_allStrings.1 hs
    | function name params body source => exact fun _ => hs
    | ret expr =>
      cases expr with
      | none => trivial
      | some expr => exact hs
    | bare => exact .breakDown
    | _ => exact hs

theorem evaluate_bounded (hc : BoundedCallers call call') (node : Node)
    (hs : ShortLiterals node.strings) :
    Exec.Bounded Value.Bounded (evaluate call node) (evaluate call' node) :=
  evaluate_judged bounding_lawful (bounding_expressions hc) node hs

theorem execute_bounded (hc : BoundedCallers call call') (node : Node)
    (hs : ShortLiterals node.strings) :
    Exec.Bounded BoundedOutcome (execute call node) (execute call' node) :=
  execute_judged bounding_lawful (bounding_statements hc) node hs

theorem callWith_bounded (host : Host ε σ) (hc : BoundedCallers call call') :
    BoundedCallers (callWith host call) (callWith host call') := by
  intro f args hf hargs
  rw [callWith, callWith]
  refine (Bounded.ofExcept fun _ _ => trivial).bind fun _ _ => ?_
  split
  · next id g hg =>
    have hbody : ShortLiterals (Node.allStrings g.body.statements) := by
      rw [Function.Bounded, hg] at hf
      exact Block.strings_eq g.body ▸ hf
    apply (Bounded.copyAll hargs).bind
    intro own hown
    refine Bounded.isolated (Scope.All.ofParams g.params fun v hv _ => (hown v hv).leaves) ?_
    exact body_judged bounding_lawful (bounding_statements hc) (shortLiterals_allStrings.1 hbody)
  · exact builtin_bounded _ hargs
  · next e he =>
    rw [Function.Bounded, he] at hf
    exact hf.elim

end Eval

/-! ## Watched calls -/

mutual

/-- Whether every number in a value is in range and nothing in it is shared. -/
def Value.isInRange : Value ε → Bool
  | .number n => Literal.inRange n
  | .boolean _ | .string _ | .null | .function _ => true
  | .object fields => Value.fieldsInRange fields
  | .shared _ _ => false

/-- Whether every number in fields is in range and nothing in them is shared. -/
def Value.fieldsInRange : List (Slot ε) → Bool
  | [] => true
  | ⟨_, _, value⟩ :: rest => value.isInRange && Value.fieldsInRange rest

end

mutual

theorem Value.Bounded.isInRange : {v : Value ε} → v.Bounded → v.isInRange
  | .number _, h => Literal.inRange_iff.2 h
  | .boolean _, _ | .string _, _ | .null, _ | .function _, _ => rfl
  | .object _, h => Value.fieldsInRange_of_leaves h

theorem Value.fieldsInRange_of_leaves : {fields : List (Slot ε)} →
    Value.FieldLeaves (Value.LeafBounded False) fields → Value.fieldsInRange fields
  | [], _ => rfl
  | ⟨_, _, _⟩ :: _, h => by
    rw [Value.fieldsInRange, Bool.and_eq_true]
    exact ⟨Value.Bounded.isInRange h.1, Value.fieldsInRange_of_leaves h.2⟩

end

variable [BEq ε]

namespace Eval

/-- Breaks down with an alarm where an argument is out of range. -/
def watched (alarm : Breakdown) (call : Caller ε σ) : Caller ε σ := fun f args =>
  if args.all Value.isInRange then call f args else Exec.breakDown alarm

/-- The evaluator that watches the arguments of every call. -/
def callWatched (host : Host ε σ) (alarm : Breakdown) : (depth : Nat) → Caller ε σ
  | 0 => watched alarm (callFunction host 0)
  | depth + 1 => watched alarm (callWith host (callWatched host alarm depth))

omit [BEq ε] in
theorem BoundedCallers.watched {call call' : Caller ε σ} (h : BoundedCallers call call')
    (alarm : Breakdown) : BoundedCallers call (watched alarm call') := by
  intro f args hf hargs
  have hrange : args.all Value.isInRange :=
    List.all_eq_true.2 fun v hv => (hargs v hv).isInRange
  rw [Eval.watched, if_pos hrange]
  exact h f args hf hargs

/-- Calls keep to the bounds, and no alarm is raised.  The induction is on the number of calls that
may be open. -/
theorem callFunction_bounded (host : Host ε σ) (alarm : Breakdown) (depth : Nat) :
    BoundedCallers (callFunction host depth) (callWatched host alarm depth) := by
  induction depth with
  | zero => exact BoundedCallers.watched (fun _ _ _ _ => .breakDown) alarm
  | succ depth ih => exact (callWith_bounded host ih).watched alarm

end Eval

/-! ## Runs -/

/-- Runs the tree of a source, where functions are called by `call`. -/
def Rule.runWith (call : Caller ε σ) : Rule → Node → Exec ε σ (Value ε)
  | .expression, node => Eval.evaluate call node
  | .script, node => do return (← Eval.execute call node).unwrap

theorem Rule.run_eq_runWith (host : Host ε σ) (depth : Nat) (rule : Rule) (node : Node) :
    rule.run host depth node = rule.runWith (Eval.callFunction host depth) node := by
  cases rule <;> rfl

theorem Rule.runWith_bounded {call call' : Caller ε σ} (hc : Eval.BoundedCallers call call')
    (rule : Rule) {node : Node} (hs : ShortLiterals node.strings) :
    Exec.Bounded Value.Bounded (rule.runWith call node) (rule.runWith call' node) := by
  cases rule with
  | expression => exact Eval.evaluate_bounded hc node hs
  | script =>
    refine (Eval.execute_bounded hc node hs).bind fun _ ho => ?_
    exact .pure ho

/-- **Numbers stay in range.**  A source that is short runs within bounds in every world that is
within them: in the world after the run, in the value it returns and in the arguments that an error
keeps, every number is in range.  So is every argument that is passed to a call on the way, as no
alarm is raised where every call is watched. -/
theorem numbers_stay_in_range (host : Host ε σ) {rule : Rule} {source : String} {node : Node}
    (hp : Parser.parse rule source = .ok node) (hs : IsShort source) {w : World ε σ}
    (hw : w.Bounded) (depth : Nat) :
    let r := (rule.run host depth node).outcome w
    r.2.Bounded ∧ (∀ v, r.1 = .ok v → v.Bounded) ∧ (∀ fault, r.1 = .error fault → fault.Bounded) ∧
      ∀ alarm, (rule.runWith (Eval.callWatched host alarm depth) node).outcome w = r := by
  have hstrings := shortLiterals_of_parse hp hs
  have hrun (alarm : Breakdown) :=
    rule.runWith_bounded (Eval.callFunction_bounded host alarm depth) hstrings w hw
  rw [Rule.run_eq_runWith]
  -- What the run without the watch does holds for any alarm.
  obtain ⟨hworld, hresult, hfault, _⟩ := hrun .callDepth
  exact ⟨hworld, hresult, hfault, fun alarm => (hrun alarm).same⟩

/-- A script that measures a string and then takes the opposite of `o.n` in a function. -/
def oppositeScript : String :=
  "let k = length('ab'); function f(x) \x7b return -x; \x7d f(o.n);"

/-- The world where `o.n` is the least number. -/
def leastWorld : World Empty Unit :=
  let least : Slot Empty := ⟨"n", true, .number (-0x8000000000000000)⟩
  let length : Slot Empty := ⟨"length", false, .function Builtin.length.function⟩
  { World.initial () with scope := ⟨[⟨"o", false, .object [least]⟩, length], []⟩ }

theorem leastWorld_bounded : leastWorld.Bounded := by
  constructor
  · intro slots hslots
    obtain rfl := List.mem_singleton.1 hslots
    have hleast : IsNumber (-0x8000000000000000) := by decide
    refine List.forall_mem_cons.2 ⟨?_, List.forall_mem_singleton.2 trivial⟩
    exact Value.leaves_object.2 (List.forall_mem_singleton.2 hleast)
  · exact fun holder => holder.elim

/-- The least number has no opposite, and the error keeps it as the argument of the call. -/
theorem numbers_stay_in_range_overflow :
    let watch (alarm : Breakdown) : Caller Empty Unit :=
      Eval.callWatched Host.none alarm Session.callLimit
    IsShort oppositeScript ∧ leastWorld.Bounded ∧ ∃ node e after,
      Parser.parse .script oppositeScript = .ok node ∧
      (Rule.script.run Host.none Session.callLimit node).outcome leastWorld =
        (.error (.error e), after) ∧
      e.cause = .overflow ∧
      e.trace.map (fun call => call.args.map (·.asNumber.toOption)) =
        [[some (-0x8000000000000000)]] ∧
      (∀ call ∈ e.trace, ∀ v ∈ call.args, v.Bounded) ∧ after.Bounded ∧
      ∀ alarm, (Rule.script.runWith (watch alarm) node).outcome leastWorld =
        (.error (.error e), after) := by
  have hs : IsShort oppositeScript := by decide +kernel
  have hparses : (Parser.parse .script oppositeScript).isOk := by decide +kernel
  obtain ⟨node, hp⟩ := Parser.exists_of_isOk hparses
  have hends : (match ((Session.runScript Host.none oppositeScript).outcome leastWorld).1 with
      | .error (.error e) =>
        some (e.cause, e.trace.map fun call => call.args.map (·.asNumber.toOption))
      | .error (.breakdown _) | .ok _ => none) =
        some (.overflow, [[some (-0x8000000000000000)]]) := by decide +kernel
  have hrun := numbers_stay_in_range Host.none hp hs leastWorld_bounded Session.callLimit
  refine ⟨hs, leastWorld_bounded, ?_⟩
  rw [Session.outcome_runScript Host.none hp] at hends
  generalize hr : (Rule.script.run Host.none Session.callLimit node).outcome leastWorld = r
    at hends hrun
  obtain ⟨hafter, _, hfault, hwatched⟩ := hrun
  obtain ⟨fault | v, after⟩ := r
  · cases fault with
    | error e =>
      obtain ⟨hcause, hargs⟩ := Prod.mk.inj (Option.some.inj hends)
      exact ⟨node, e, after, hp, hr, hcause, hargs, hfault _ rfl, hafter, hwatched⟩
    | breakdown b => cases hends
  · cases hends

end Scriptlet
