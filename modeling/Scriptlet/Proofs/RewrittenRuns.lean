import Scriptlet.Proofs.Rewriting

/-!
# Runs of rewritten trees

A rewriting is faithful if it keeps forms and the texts of places, and drops no more than groups, and
these only where an expression with a place stands in them.  A rewritten tree then runs like the tree
itself, in a world with rewritten function bodies, and comes to the same end with rewritten function
bodies (`execute_rewrites`).  The messages that were sent before do not matter, so the two worlds may
also differ in the messages that stand in front.

Functions of the host could tell the two runs apart.  They are asked not to look into the bodies of
script functions (`Host.IgnoresBodies`).
-/

namespace Scriptlet

set_option autoImplicit false

variable {ε σ : Type}

/-! ## Failures and worlds -/

/-- An open call whose site is moved, and whose arguments have their function bodies rewritten. -/
def CallFrame.rewritten (ρ : Rewriting) (frame : CallFrame ε) : CallFrame ε :=
  ⟨frame.name, frame.args.map (Value.rewritten ρ), frame.site.map ρ.place⟩

namespace Fault

/-- A failure whose places are moved, and in whose trace function bodies are rewritten. -/
def rewritten (ρ : Rewriting) : Fault ε → Fault ε
  | error e => error ⟨e.cause, e.loc.map ρ.place, e.trace.map (CallFrame.rewritten ρ)⟩
  | breakdown b => breakdown b

variable {ρ : Rewriting}

theorem rewritten_ofFailure (failure : Failure) :
    (ofFailure failure : Fault ε).rewritten ρ = ofFailure failure := by
  cases failure <;> rfl

theorem rewritten_attach (loc : Option Location) (e : Fault ε) :
    (e.attach loc).rewritten ρ = (e.rewritten ρ).attach (loc.map ρ.place) := by
  cases e with
  | error e =>
    obtain ⟨cause, loc', trace⟩ := e
    cases loc' <;> rfl
  | breakdown b => rfl

theorem rewritten_through (frame : CallFrame ε) (e : Fault ε) :
    (e.through frame).rewritten ρ = (e.rewritten ρ).through (frame.rewritten ρ) := by
  cases e with
  | error e => simp [through, rewritten]
  | breakdown b => rfl

end Fault

/-- What a statement comes to, with other function bodies. -/
def Outcome.rewritten (ρ : Rewriting) : Outcome ε → Outcome ε
  | value v => value (v.rewritten ρ)
  | returned v => returned (v.rewritten ρ)

theorem Outcome.rewritten_comp {ρ ρ' : Rewriting} :
    Outcome.rewritten ρ' ∘ Outcome.rewritten ρ = (Outcome.rewritten (ρ'.comp ρ) : Outcome ε → _) := by
  funext o
  cases o with
  | value v => exact congrArg value v.rewritten_rewritten
  | returned v => exact congrArg returned v.rewritten_rewritten

theorem CallFrame.rewritten_comp {ρ ρ' : Rewriting} :
    CallFrame.rewritten ρ' ∘ CallFrame.rewritten ρ =
      (CallFrame.rewritten (ρ'.comp ρ) : CallFrame ε → _) := by
  funext frame
  have hargs : Value.rewritten ρ' ∘ Value.rewritten ρ = (Value.rewritten (ρ'.comp ρ) : Value ε → _) :=
    funext Value.rewritten_rewritten
  rw [Function.comp_apply, rewritten, rewritten, rewritten, List.map_map, Option.map_map, hargs]
  rfl

theorem Fault.rewritten_comp {ρ ρ' : Rewriting} :
    Fault.rewritten ρ' ∘ Fault.rewritten ρ = (Fault.rewritten (ρ'.comp ρ) : Fault ε → _) := by
  funext e
  cases e with
  | error e =>
    rw [Function.comp_apply, rewritten, rewritten, rewritten, List.map_map, Option.map_map,
      CallFrame.rewritten_comp]
    rfl
  | breakdown b => rfl

/-- A world with other function bodies, and with messages in front of those that were sent. -/
def World.rewritten (ρ : Rewriting) (sent : List Effect) (w : World ε σ) : World ε σ :=
  ⟨w.scope.rewritten ρ, w.store.rewritten ρ, w.visited.map ρ.node, sent ++ w.effects, w.made, w.host⟩

/-- An answer of the host with other function bodies. -/
def Reply.rewritten (ρ : Rewriting) : Reply ε → Reply ε
  | value v => value (v.rewritten ρ)
  | fail f => fail f
  | call f args => call (f.rewritten ρ) (args.map (Value.rewritten ρ))
  | callAlone f args => callAlone (f.rewritten ρ) (args.map (Value.rewritten ρ))

/-- What the host can see, with other function bodies. -/
def Access.rewritten (ρ : Rewriting) (access : Access ε σ) : Access ε σ :=
  ⟨access.scope.rewritten ρ, access.store.rewritten ρ, access.state⟩

/-- The functions of the host do not look into the bodies of script functions: they hand on what they
are given, whatever stands in it. -/
def Host.IgnoresBodies (host : Host ε σ) : Prop :=
  ∀ (ρ : Rewriting) (e : ε) (args : List (Value ε)) (access : Access ε σ),
    host.run e (args.map (Value.rewritten ρ)) (access.rewritten ρ) =
      Prod.map (Reply.rewritten ρ) (Access.rewritten ρ) (host.run e args access)

/-! ## Computations -/

namespace Exec

variable {α β γ δ : Type} {ρ : Rewriting} {sent : List Effect}

/-- `y` runs in rewritten worlds like `x` in the worlds themselves, and its result is rewritten by
`g`. -/
def Rewrites (ρ : Rewriting) (sent : List Effect) (g : α → β) (x : Exec ε σ α)
    (y : Exec ε σ β) : Prop :=
  ∀ w, y.outcome (w.rewritten ρ sent) =
    (((x.outcome w).1.map g).mapError (Fault.rewritten ρ), (x.outcome w).2.rewritten ρ sent)

namespace Rewrites

variable {g : α → β} {x : Exec ε σ α} {y : Exec ε σ β}

theorem pure {a : α} {b : β} (h : b = g a) :
    Rewrites ρ sent g (pure a : Exec ε σ α) (pure b) := by
  subst h
  exact fun _ => rfl

theorem fail (cause : Cause) : Rewrites ρ sent g (fail cause : Exec ε σ α) (fail cause) :=
  fun _ => rfl

theorem breakDown (b : Breakdown) : Rewrites ρ sent g (breakDown b : Exec ε σ α) (breakDown b) :=
  fun _ => rfl

theorem ofExcept {r : Except Cause α} {r' : Except Cause β} (h : r' = r.map g) :
    Rewrites ρ sent g (ofExcept r : Exec ε σ α) (ofExcept r') := by
  subst h
  cases r with
  | ok a => exact .pure rfl
  | error cause => exact .fail cause

theorem ofFailing {r : Except Failure α} {r' : Except Failure β} (h : r' = r.map g) :
    Rewrites ρ sent g (ofFailing r : Exec ε σ α) (ofFailing r') := by
  subst h
  cases r with
  | ok a => exact .pure rfl
  | error failure =>
    intro w
    rw [outcome_ofFailing, outcome_ofFailing]
    exact congrArg (fun e => (Except.error e, _)) (Fault.rewritten_ofFailure failure).symm

theorem bind {f : α → Exec ε σ γ} {f' : β → Exec ε σ δ} {g' : γ → δ} (hx : Rewrites ρ sent g x y)
    (hf : ∀ a, Rewrites ρ sent g' (f a) (f' (g a))) : Rewrites ρ sent g' (x >>= f) (y >>= f') := by
  intro w
  rw [outcome_bind, outcome_bind, hx w]
  cases hr : x.outcome w with
  | mk r after =>
    cases r with
    | ok a => exact hf a after
    | error e => rfl

theorem adapt {f f' : Store ε → Fault ε → Fault ε} (hx : Rewrites ρ sent g x y)
    (hf : ∀ store e, f' (store.rewritten ρ) (e.rewritten ρ) = (f store e).rewritten ρ) :
    Rewrites ρ sent g (adapt f x) (adapt f' y) := by
  intro w
  rw [outcome_adapt, outcome_adapt, hx w]
  cases hr : x.outcome w with
  | mk r after =>
    cases r with
    | ok a => rfl
    | error e => exact congrArg (fun e => (Except.error e, _)) (hf after.store e)

theorem located (loc : Option Location) (hx : Rewrites ρ sent g x y) :
    Rewrites ρ sent g (located loc x) (located (loc.map ρ.place) y) :=
  hx.adapt fun _ e => (Fault.rewritten_attach loc e).symm

theorem visit {node node' : Node} (h : node' = ρ.node node) :
    Rewrites ρ sent id (visit node : Exec ε σ Unit) (visit node') := by
  subst h
  exact fun _ => rfl

theorem emit (effect : Effect) : Rewrites ρ sent id (emit effect : Exec ε σ Unit) (emit effect) := by
  intro w
  rw [outcome_emit, outcome_emit, World.rewritten, List.append_assoc]
  rfl

theorem fresh : Rewrites ρ sent id (fresh : Exec ε σ Nat) fresh :=
  fun _ => rfl

theorem resolve (path : Path) :
    Rewrites ρ sent (Slot.rewritten ρ) (resolve path : Exec ε σ (Slot ε)) (resolve path) := by
  intro w
  rw [outcome_resolve, outcome_resolve]
  simp only [World.rewritten, Scope.resolve_rewritten]
  cases w.scope.resolve w.store path <;> rfl

theorem read (path : Path) :
    Rewrites ρ sent (Value.rewritten ρ) (read path : Exec ε σ (Value ε)) (read path) := by
  intro w
  rw [outcome_read, outcome_read]
  simp only [World.rewritten, Scope.resolve_rewritten]
  cases w.scope.resolve w.store path with
  | error cause => rfl
  | ok slot =>
    simp only [Except.map, Slot.rewritten, Store.copy_rewritten]
    cases w.store.copy slot.value <;> rfl

theorem copyAll (vs : List (Value ε)) :
    Rewrites ρ sent (List.map (Value.rewritten ρ)) (copyAll vs : Exec ε σ (List (Value ε)))
      (copyAll (vs.map (Value.rewritten ρ))) := by
  intro w
  rw [outcome_copyAll, outcome_copyAll]
  simp only [World.rewritten, Store.copyAll_rewritten]
  cases w.store.copyAll vs <;> rfl

theorem define (slot : Slot ε) :
    Rewrites ρ sent id (define slot : Exec ε σ Unit) (define (slot.rewritten ρ)) := by
  intro w
  rw [outcome_define, outcome_define]
  simp only [World.rewritten, Scope.define_rewritten]
  cases w.scope.define slot <;> rfl

theorem modifySlot (path : Path) {f f' : Slot ε → Except Failure (Slot ε)}
    (hf : ∀ s, f' (s.rewritten ρ) = (f s).map (Slot.rewritten ρ)) :
    Rewrites ρ sent id (modifySlot path f : Exec ε σ Unit) (modifySlot path f') := by
  intro w
  rw [outcome_modifySlot, outcome_modifySlot]
  simp only [World.rewritten, Scope.modify_rewritten w.scope hf]
  cases w.scope.modify w.store path f with
  | error failure =>
    exact congrArg (fun e => (Except.error e, _)) (Fault.rewritten_ofFailure failure).symm
  | ok both => rfl

theorem nested (hx : Rewrites ρ sent g x y) : Rewrites ρ sent g (nested x) (nested y) := by
  intro w
  have h : y.outcome { w.rewritten ρ sent with scope := (w.scope.rewritten ρ).push } = _ :=
    hx { w with scope := w.scope.push }
  rw [outcome_nested, outcome_nested]
  simp only [World.rewritten] at h ⊢
  rw [h, Scope.pop_rewritten]

theorem isolated (scope : Scope ε) (hx : Rewrites ρ sent g x y) :
    Rewrites ρ sent g (isolated scope x) (isolated (scope.rewritten ρ) y) := by
  intro w
  have h : y.outcome { w.rewritten ρ sent with scope := scope.rewritten ρ, visited := none } = _ :=
    hx { w with scope, visited := none }
  rw [outcome_isolated, outcome_isolated]
  simp only [World.rewritten] at h ⊢
  rw [h]

/-- The host is asked the same, and answers the same. -/
theorem ask {host : Host ε σ} (hhost : host.IgnoresBodies) (e : ε) (args : List (Value ε)) :
    Rewrites ρ sent (Reply.rewritten ρ) (host.ask e args)
      (host.ask e (args.map (Value.rewritten ρ))) := by
  intro w
  have hrun := hhost ρ e args ⟨w.scope, w.store, w.host⟩
  have hask : ∀ (args : List (Value ε)) (w : World ε σ), (host.ask e args).outcome w =
      (.ok (host.run e args ⟨w.scope, w.store, w.host⟩).1,
        { w with
          scope := (host.run e args ⟨w.scope, w.store, w.host⟩).2.scope
          store := (host.run e args ⟨w.scope, w.store, w.host⟩).2.store
          host := (host.run e args ⟨w.scope, w.store, w.host⟩).2.state }) := fun _ _ => rfl
  rw [hask, hask]
  simp only [World.rewritten, Access.rewritten] at hrun ⊢
  rw [hrun]
  rfl

end Rewrites

end Exec

/-! ## Evaluation -/

namespace Rewriting.Faithful

variable {ρ : Rewriting}

/-- A group stays, or its expression takes its place. -/
theorem group (hρ : ρ.Faithful) (loc : Option Location) (expr : Node) :
    ρ.node ⟨loc, .group expr⟩ = ⟨loc.map ρ.place, .group (ρ.node expr)⟩ ∨
      expr.loc.isSome ∧ expr.form.isEvaluable ∧ ρ.node ⟨loc, .group expr⟩ = ρ.node expr := by
  rcases hρ.node loc (.group expr) with h | ⟨_, hform, h⟩
  · exact .inl h
  · obtain rfl := Form.group.inj hform
    exact .inr h

/-- What is not a group keeps its form. -/
theorem kept (hρ : ρ.Faithful) (loc : Option Location) (form : Form)
    (h : ∀ expr, form ≠ .group expr) :
    ρ.node ⟨loc, form⟩ = ⟨loc.map ρ.place, form.map ρ.place ρ.node⟩ := by
  refine (hρ.node loc form).resolve_right ?_
  rintro ⟨expr, hgroup, -⟩
  exact h expr hgroup

/-- What stands for a value does so afterwards. -/
theorem isEvaluable (hρ : ρ.Faithful) : (node : Node) → node.form.isEvaluable →
    (ρ.node node).form.isEvaluable
  | ⟨loc, form⟩, hform => by
    rcases hρ.node loc form with h | ⟨expr, hgroup, -, hexpr, h⟩
    · rw [h]
      exact (form.isEvaluable_map ρ.place ρ.node).trans hform
    · have hsize : sizeOf expr < sizeOf (Node.mk loc form) := by
        rw [hgroup, Node.mk.sizeOf_spec, Form.group.sizeOf_spec]
        omega
      rw [h]
      exact isEvaluable hρ expr hexpr
termination_by node => sizeOf node

/-- A path does not see what is rewritten. -/
theorem path (hρ : ρ.Faithful) : (node : Node) → (ρ.node node).path = node.path
  | ⟨loc, .ident name⟩ => by
    rw [hρ.kept loc _ (by simp)]
    rfl
  | ⟨loc, .group expr⟩ => by
    rcases hρ.group loc expr with h | ⟨-, -, h⟩
    · rw [h, Node.path, Node.path, path hρ expr]
    · rw [h, Node.path, path hρ expr]
  | ⟨loc, .member object member⟩ => by
    rw [hρ.kept loc _ (by simp), Form.map, Node.path, Node.path, path hρ object, path hρ member]
  | ⟨loc, .ret none⟩ | ⟨loc, .ret (some _)⟩
  | ⟨loc, .bare⟩ | ⟨loc, .number _⟩ | ⟨loc, .string _⟩ | ⟨loc, .boolean _⟩
  | ⟨loc, .null⟩ | ⟨loc, .call _ _⟩ | ⟨loc, .ternary _ _ _⟩ | ⟨loc, .assign _ _ _⟩
  | ⟨loc, .chain _ _ _⟩ | ⟨loc, .unary _ _⟩ | ⟨loc, .expression _⟩ | ⟨loc, .block _⟩
  | ⟨loc, .function _ _ _ _⟩ | ⟨loc, .declaration _ _ _⟩ | ⟨loc, .script _⟩ => by
    rw [hρ.kept loc _ (by simp)]
    cases loc with
    | none => rfl
    | some loc =>
      simp only [Form.map, Node.path, Node.lvalueText, Form.label, Option.map_some, Option.bind_some,
        hρ.text]

end Rewriting.Faithful

/-- An error has a place once it has been given one. -/
theorem Fault.attach_located (e : Fault ε) (l : Location) (loc : Option Location) :
    (e.attach (some l)).attach loc = e.attach (some l) := by
  cases e with
  | error e => simp [attach]
  | breakdown b => rfl

theorem Fault.attach_self (e : Fault ε) (loc : Option Location) :
    (e.attach loc).attach loc = e.attach loc := by
  cases e with
  | error e => simp [attach, Option.or_assoc]
  | breakdown b => rfl

namespace Eval

open Exec

variable {ρ : Rewriting} {sent : List Effect} {call call' : Caller ε σ}

/-- `call'` calls a rewritten function with rewritten arguments like `call` the function itself. -/
def RewritingCallers (ρ : Rewriting) (sent : List Effect) (call call' : Caller ε σ) : Prop :=
  ∀ f args, Rewrites ρ sent (Value.rewritten ρ) (call f args)
    (call' (f.rewritten ρ) (args.map (Value.rewritten ρ)))

theorem asFunction_rewritten (slot : Slot ε) :
    asFunction (slot.rewritten ρ) = (asFunction slot).map (Function.rewritten ρ) := by
  obtain ⟨name, isMutable, value⟩ := slot
  cases value <;> rfl

theorem outOf_rewritten (f : Function ε) (args : List (Value ε)) (site : Option Location)
    (store : Store ε) (e : Fault ε) :
    outOf (f.rewritten ρ) (args.map (Value.rewritten ρ)) (site.map ρ.place) (store.rewritten ρ)
      (e.rewritten ρ) = (outOf f args site store e).rewritten ρ := by
  rw [outOf, outOf, Store.copyAll_rewritten]
  cases store.copyAll args with
  | error b => rfl
  | ok copies => exact (Fault.rewritten_through ⟨f.name, copies, site⟩ e).symm

theorem invoke_rewrites (hc : RewritingCallers ρ sent call call') (f : Function ε)
    (args : List (Value ε)) (site : Option Location) :
    Rewrites ρ sent (Value.rewritten ρ) (invoke call f args site)
      (invoke call' (f.rewritten ρ) (args.map (Value.rewritten ρ)) (site.map ρ.place)) :=
  (hc f args).adapt (outOf_rewritten f args site)

theorem checkArity_rewritten (f : Function ε) (args : List (Value ε)) :
    checkArity (f.rewritten ρ) (args.map (Value.rewritten ρ)) = checkArity f args := by
  rw [checkArity, checkArity, List.length_map]
  rfl

/-- A scalar has no function bodies. -/
theorem map_scalar {δ : Type} {r : Except δ (Value ε)} (h : ∀ u, r = .ok u → u.IsScalar) :
    r = r.map (Value.rewritten ρ) := by
  cases r with
  | error _ => rfl
  | ok u => exact congrArg Except.ok (h u rfl).rewritten.symm

variable [BEq ε]

theorem assigned_rewritten (op : String) (operand : Value ε) (slot : Slot ε) :
    assigned op (operand.rewritten ρ) (slot.rewritten ρ) =
      (assigned op operand slot).map (Slot.rewritten ρ) := by
  have assign_rewritten : ∀ v : Value ε,
      ((slot.rewritten ρ).assign (v.rewritten ρ)).mapError Failure.error =
        ((slot.assign v).mapError Failure.error).map (Slot.rewritten ρ) := by
    intro v
    rw [Slot.assign_rewritten]
    cases slot.assign v <;> rfl
  have update_rewritten : ∀ binary, assigned.update (operand.rewritten ρ) (slot.rewritten ρ) binary =
      (assigned.update operand slot binary).map (Slot.rewritten ρ) := by
    intro binary
    rw [assigned.update, assigned.update]
    show (slot.value.rewritten ρ).applyOperator binary (operand.rewritten ρ) >>= _ =
      Except.map _ (slot.value.applyOperator binary operand >>= _)
    rw [Value.applyOperator_rewritten]
    cases hr : slot.value.applyOperator binary operand with
    | error failure => rfl
    | ok v =>
      have hv : v.rewritten ρ = v := (Value.applyOperator_scalar hr).rewritten
      have hassign := assign_rewritten v
      rwa [hv] at hassign
  unfold assigned
  split
  · exact assign_rewritten operand
  split
  · exact update_rewritten "+"
  split
  · exact update_rewritten "-"
  split
  · exact update_rewritten "*"
  · rfl

/-- A group comes to what its expression comes to. -/
theorem outcome_evaluate_group (call : Caller ε σ) (loc : Option Location) {expr : Node}
    (h : expr.loc.isSome) (w : World ε σ) :
    (evaluate call ⟨loc, .group expr⟩).outcome w = (evaluate call expr).outcome w := by
  obtain ⟨l, form⟩ := expr
  obtain ⟨l, rfl⟩ := Option.isSome_iff_exists.1 h
  rw [outcome_evaluate, evaluateForm, outcome_evaluate, outcome_evaluate]
  generalize (evaluateForm call (some l) form).outcome _ = r
  obtain ⟨e | v, after⟩ := r
  · exact congrArg (fun e => (Except.error e, after)) (e.attach_located l loc)
  · rfl

/-- What stands for a value is run by evaluating it. -/
theorem outcome_execute_evaluable (call : Caller ε σ) {node : Node} (h : node.form.isEvaluable)
    (w : World ε σ) :
    (execute call node).outcome w =
      (((evaluate call node).outcome w).1.map .value, ((evaluate call node).outcome w).2) := by
  obtain ⟨loc, form⟩ := node
  have hform : executeForm call loc form = do return .value (← evaluate call ⟨loc, form⟩) := by
    cases form <;> first | exact absurd h Bool.false_ne_true | (rw [executeForm]; all_goals simp)
  rw [outcome_execute, hform, outcome_bind, outcome_evaluate, outcome_evaluate]
  generalize (evaluateForm call loc form).outcome _ = r
  obtain ⟨e | v, after⟩ := r
  · exact congrArg (fun e => (Except.error e, after)) (e.attach_self loc)
  · rfl

mutual

theorem evaluate_rewrites (hρ : ρ.Faithful)
    (hc : RewritingCallers ρ sent call call') : (node : Node) →
    Rewrites ρ sent (Value.rewritten ρ) (evaluate call node) (evaluate call' (ρ.node node))
  | ⟨loc, form⟩ => by
    have hform := evaluateForm_rewrites hρ hc loc form
    rcases hρ.node loc form with h | ⟨expr, rfl, hloc, -, h⟩
    · rw [h, evaluate, evaluate]
      apply (Rewrites.visit h.symm).bind
      intro _
      exact hform.located loc
    · -- the expression of the group takes its place, and is visited after the group at once
      rw [Form.map, evaluateForm, evaluateForm] at hform
      intro w
      rw [h, outcome_evaluate_group call loc hloc]
      exact hform w

theorem evaluateForm_rewrites (hρ : ρ.Faithful)
    (hc : RewritingCallers ρ sent call call') (loc : Option Location) : (form : Form) →
    Rewrites ρ sent (Value.rewritten ρ) (evaluateForm call loc form)
      (evaluateForm call' (loc.map ρ.place) (form.map ρ.place ρ.node))
  | .ident name => by
    rw [Form.map, evaluateForm, evaluateForm]
    exact .read _
  | .member object member => by
    rw [Form.map, evaluateForm, evaluateForm, hρ.path, hρ.path]
    exact .read _
  | .group expr => by
    rw [Form.map, evaluateForm, evaluateForm]
    exact evaluate_rewrites hρ hc expr
  | .number text => by
    rw [Form.map, evaluateForm, evaluateForm]
    apply (Rewrites.ofFailing (g := id) (by cases Literal.number text <;> rfl)).bind
    intro _
    exact .pure rfl
  | .string text => by
    rw [Form.map, evaluateForm, evaluateForm]
    apply (Rewrites.ofExcept (g := id) (by cases Literal.string text <;> rfl)).bind
    intro _
    exact .pure rfl
  | .boolean text => by
    rw [Form.map, evaluateForm, evaluateForm]
    apply (Rewrites.ofExcept (g := id) (by cases Literal.boolean text <;> rfl)).bind
    intro _
    exact .pure rfl
  | .null => by
    rw [Form.map, evaluateForm, evaluateForm]
    exact .pure rfl
  | .call callee args => by
    rw [Form.map, evaluateForm, evaluateForm, hρ.path]
    apply (Rewrites.resolve _).bind
    intro slot
    apply (Rewrites.ofExcept (asFunction_rewritten slot)).bind
    intro f
    apply (evaluateAll_rewrites hρ hc args).bind
    intro values
    exact invoke_rewrites hc f values loc
  | .ternary condition thenBranch elseBranch => by
    rw [Form.map, evaluateForm, evaluateForm]
    apply (evaluate_rewrites hρ hc condition).bind
    intro v
    cases v with
    | boolean b =>
      cases b with
      | true => exact evaluate_rewrites hρ hc thenBranch
      | false => exact evaluate_rewrites hρ hc elseBranch
    | _ => exact .fail _
  | .assign target op value => by
    rw [Form.map, evaluateForm, evaluateForm, hρ.path]
    apply (evaluate_rewrites hρ hc value).bind
    intro operand
    apply (Rewrites.modifySlot _ (assigned_rewritten op operand)).bind
    intro _
    exact .pure rfl
  | .chain _ first rest => by
    rw [Form.map, evaluateForm, evaluateForm]
    apply (evaluate_rewrites hρ hc first).bind
    intro v
    exact evaluateRest_rewrites hρ hc v rest
  | .unary op operand => by
    rw [Form.map, evaluateForm, evaluateForm]
    apply (evaluate_rewrites hρ hc operand).bind
    intro v
    rw [Value.applyUnary_rewritten]
    exact .ofFailing (map_scalar fun _ => Value.applyUnary_scalar)
  | .ret none => by
    rw [Form.map, evaluateForm, evaluateForm]
    · exact .breakDown _
    all_goals simp
  | .bare | .expression _ | .block _ | .function _ _ _ _ | .declaration _ _ _ | .ret (some _)
  | .script _ => by
    rw [Form.map, evaluateForm, evaluateForm]
    · exact .breakDown _
    all_goals simp

theorem evaluateAll_rewrites (hρ : ρ.Faithful)
    (hc : RewritingCallers ρ sent call call') : (nodes : List Node) →
    Rewrites ρ sent (List.map (Value.rewritten ρ)) (evaluateAll call nodes)
      (evaluateAll call' (nodes.map ρ.node))
  | [] => by
    rw [List.map_nil, evaluateAll, evaluateAll]
    exact .pure rfl
  | node :: rest => by
    rw [List.map_cons, evaluateAll, evaluateAll]
    apply (evaluate_rewrites hρ hc node).bind
    intro v
    apply (evaluateAll_rewrites hρ hc rest).bind
    intro vs
    exact .pure rfl

theorem evaluateRest_rewrites (hρ : ρ.Faithful)
    (hc : RewritingCallers ρ sent call call') (v : Value ε) : (rest : List (String × Node)) →
    Rewrites ρ sent (Value.rewritten ρ) (evaluateRest call v rest)
      (evaluateRest call' (v.rewritten ρ) (rest.map (Prod.map id ρ.node)))
  | [] => by
    rw [List.map_nil, evaluateRest, evaluateRest]
    exact .pure rfl
  | (op, node) :: rest => by
    rw [List.map_cons, Prod.map_apply, evaluateRest, evaluateRest]
    apply (evaluate_rewrites hρ hc node).bind
    intro operand
    rw [Value.applyOperator_rewritten]
    apply (Rewrites.ofFailing (map_scalar fun _ => Value.applyOperator_scalar)).bind
    intro u
    exact evaluateRest_rewrites hρ hc u rest

end

omit [BEq ε] in
theorem declareFunction_rewrites (function : ScriptFunction) :
    Rewrites ρ sent id (declareFunction function : Exec ε σ Unit)
      (declareFunction (function.rewritten ρ)) := by
  have declare : Rewrites ρ sent id
      (Exec.fresh >>= fun id => Exec.define ⟨function.name, false,
        .function ⟨.script id function, some function.params.length, function.name⟩⟩ : Exec ε σ Unit)
      (Exec.fresh >>= fun id => Exec.define ⟨function.name, false, .function
        ⟨.script id (function.rewritten ρ), some function.params.length, function.name⟩⟩) :=
    Rewrites.fresh.bind fun _ => Rewrites.define _
  rw [declareFunction, declareFunction, show (function.rewritten ρ).params = function.params from rfl]
  split
  · exact Rewrites.bind (g := id) (.fail _) fun _ => declare
  · exact declare

/-- A rewritten form that stands for a value runs like the form itself. -/
theorem execute_evaluable_rewrites (hρ : ρ.Faithful) (hc : RewritingCallers ρ sent call call')
    {node : Node} (h : node.form.isEvaluable) :
    Rewrites ρ sent (Outcome.rewritten ρ) (execute call node) (execute call' (ρ.node node)) := by
  intro w
  have hsame := evaluate_rewrites hρ hc node w
  rw [outcome_execute_evaluable call' (hρ.isEvaluable node h), outcome_execute_evaluable call h, hsame]
  cases ((evaluate call node).outcome w).1 <;> rfl

mutual

/-- A rewritten statement runs like the statement itself. -/
theorem execute_rewrites (hρ : ρ.Faithful)
    (hc : RewritingCallers ρ sent call call') : (node : Node) →
    Rewrites ρ sent (Outcome.rewritten ρ) (execute call node) (execute call' (ρ.node node))
  | ⟨loc, form⟩ => by
    by_cases hform : form.isEvaluable
    · exact execute_evaluable_rewrites hρ hc hform
    · have hkept := hρ.kept loc form fun expr hgroup => hform (by rw [hgroup]; rfl)
      rw [hkept, execute, execute]
      apply (Rewrites.visit hkept.symm).bind
      intro _
      exact (executeForm_rewrites hρ hc loc form hform).located loc

theorem executeForm_rewrites (hρ : ρ.Faithful)
    (hc : RewritingCallers ρ sent call call') (loc : Option Location) : (form : Form) →
    ¬ form.isEvaluable → Rewrites ρ sent (Outcome.rewritten ρ) (executeForm call loc form)
      (executeForm call' (loc.map ρ.place) (form.map ρ.place ρ.node))
  | .script statements, _ => by
    rw [Form.map, executeForm, executeForm]
    exact executeAll_rewrites hρ hc (.value .null) statements
  | .expression expr, _ => by
    rw [Form.map, executeForm, executeForm]
    apply (evaluate_rewrites hρ hc expr).bind
    intro _
    exact .pure rfl
  | .block statements, _ => by
    rw [Form.map, executeForm, executeForm]
    exact .nested (executeAll_rewrites hρ hc (.value .null) statements)
  | .function name params body source, _ => by
    rw [Form.map, executeForm, executeForm]
    apply (declareFunction_rewrites ⟨name, params, body, source⟩).bind
    intro _
    exact .pure rfl
  | .declaration name value isMutable, _ => by
    rw [Form.map, executeForm, executeForm]
    apply (evaluate_rewrites hρ hc value).bind
    intro v
    apply (Rewrites.define ⟨name, isMutable, v⟩).bind
    intro _
    exact .pure rfl
  | .ret none, _ => by
    rw [Form.map, executeForm, executeForm]
    exact .pure rfl
  | .ret (some expr), _ => by
    rw [Form.map, executeForm, executeForm]
    apply (evaluate_rewrites hρ hc expr).bind
    intro _
    exact .pure rfl
  | .bare, _ => by
    rw [Form.map, executeForm, executeForm]
    exact .breakDown _
  | .number _, h | .string _, h | .boolean _, h | .null, h | .ident _, h | .member _ _, h
  | .group _, h | .call _ _, h | .ternary _ _ _, h | .assign _ _ _, h | .chain _ _ _, h
  | .unary _ _, h => absurd rfl h

theorem executeAll_rewrites (hρ : ρ.Faithful)
    (hc : RewritingCallers ρ sent call call') (last : Outcome ε) : (nodes : List Node) →
    Rewrites ρ sent (Outcome.rewritten ρ) (executeAll call last nodes)
      (executeAll call' (last.rewritten ρ) (nodes.map ρ.node))
  | [] => by
    rw [List.map_nil, executeAll, executeAll]
    exact .pure rfl
  | node :: rest => by
    rw [List.map_cons, executeAll, executeAll]
    apply (execute_rewrites hρ hc node).bind
    intro o
    cases o with
    | returned v => exact .pure rfl
    | value v => exact executeAll_rewrites hρ hc (.value v) rest

end

/-! ## Calls -/

omit [BEq ε] in
/-- The standard functions do not see locations. -/
theorem builtin_rewrites (b : Builtin) (args : List (Value ε)) :
    Rewrites ρ sent (Value.rewritten ρ) (b.run args : Exec ε σ (Value ε))
      (b.run (args.map (Value.rewritten ρ))) := by
  have hmessage : ∀ vs : List (Value ε),
      Builtin.message (vs.map (Value.rewritten ρ)) = Builtin.message vs := by
    intro vs
    rw [Builtin.message, Builtin.message, List.map_map]
    exact congrArg _ (List.map_congr_left fun v _ => v.text_rewritten)
  cases args with
  | nil =>
    cases b with
    | log => exact (Rewrites.emit _).bind fun _ => .pure rfl
    | _ => exact .fail _
  | cons v args =>
    rw [List.map_cons]
    cases b with
    | log =>
      simp only [Builtin.run, ← List.map_cons, hmessage]
      exact (Rewrites.emit _).bind fun _ => .pure rfl
    | emit =>
      simp only [Builtin.run, hmessage, Value.text_rewritten]
      exact (Rewrites.emit _).bind fun _ => .pure rfl
    | typeOf => exact .pure (congrArg Value.string v.typeName_rewritten)
    | toString => exact .pure (congrArg Value.string v.text_rewritten)
    | throw =>
      simp only [Builtin.run, Value.text_rewritten]
      exact .fail _
    | length =>
      cases v with
      | string s => exact .pure rfl
      | _ => exact .fail _

/-- Rewritten functions are called alike.  The induction is on the calls that may be open. -/
theorem callFunction_rewrites (hρ : ρ.Faithful) {host : Host ε σ} (hhost : host.IgnoresBodies)
    (depth : Nat) : RewritingCallers ρ sent (callFunction host depth) (callFunction host depth) := by
  induction depth with
  | zero => exact fun _ _ => .breakDown _
  | succ depth ih =>
    intro f args
    obtain ⟨callback, arity, name⟩ := f
    rw [callFunction, callFunction, checkArity_rewritten]
    apply (Rewrites.ofExcept (g := id) (by cases checkArity _ args <;> rfl)).bind
    intro _
    cases callback with
    | script id function =>
      apply (Rewrites.copyAll args).bind
      intro own
      show Rewrites ρ sent _ (isolated _ _) (isolated (.ofParams function.params _) _)
      rw [Scope.ofParams_rewritten]
      refine .isolated _ ?_
      show Rewrites ρ sent _ _ (executeAll _ _ (function.body.statements.map ρ.node) >>= _)
      apply (executeAll_rewrites hρ ih (.value .null) function.body.statements).bind
      intro o
      cases o <;> exact .pure rfl
    | builtin b => exact builtin_rewrites b args
    | host e =>
      apply (Rewrites.ask hhost e args).bind
      intro reply
      cases reply with
      | value v => exact .pure rfl
      | fail failure => exact .ofFailing (r := .error failure) rfl
      | call g args => exact ih g args
      | callAlone g args => exact .isolated .empty (ih g args)

end Eval

end Scriptlet
