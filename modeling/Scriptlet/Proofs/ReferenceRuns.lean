import Scriptlet.Proofs.ReferenceSteps

/-!
# Runs by reference and runs on trees

A run by reference follows the run on trees, from every scope that shares nothing (`evaluate_follows`,
`execute_follows`).  A call leaves every cell as it was: what it binds, it has copied (`callFunction_returns`).
The proofs go along the definitions of both evaluators, one case for each construct, and along the number of
calls that may be open.
-/

namespace Scriptlet

set_option autoImplicit false

/-- A standard function returns a number, a boolean, a string or null, or it fails, and may have sent a
message. -/
theorem Builtin.outcome_run {ε σ : Type} (b : Builtin) (args : List (Value ε)) :
    ∃ (r : Except Failure (Value ε)) (sent : List Effect), (∀ v, r = .ok v → v.IsScalar) ∧
      ∀ w : World ε σ, (b.run args).outcome w =
        (r.mapError .ofFailure, { w with effects := w.effects ++ sent }) := by
  have silent : ∀ (r : Except Failure (Value ε)) (x : Exec ε σ (Value ε)), (∀ v, r = .ok v → v.IsScalar) →
      (∀ w, x.outcome w = (r.mapError .ofFailure, w)) →
      ∃ (r : Except Failure (Value ε)) (sent : List Effect), (∀ v, r = .ok v → v.IsScalar) ∧
        ∀ w, x.outcome w = (r.mapError .ofFailure, { w with effects := w.effects ++ sent }) := by
    intro r x hr hx
    exact ⟨r, [], hr, fun w => by rw [List.append_nil, hx]⟩
  have returns : ∀ {v : Value ε}, v.IsScalar → ∀ u, (.ok v : Except Failure (Value ε)) = .ok u → u.IsScalar :=
    fun hv _ hu => Except.ok.inj hu ▸ hv
  have fails : ∀ cause u, (.error (.error cause) : Except Failure (Value ε)) = .ok u → u.IsScalar :=
    fun _ _ hu => nomatch hu
  unfold run
  split
  case h_1 | h_2 => exact ⟨.ok .null, _, returns trivial, fun _ => rfl⟩
  case h_4 | h_5 => exact silent (.ok (.string _)) _ (returns trivial) fun _ => rfl
  case h_6 => exact silent (.ok (.number _)) _ (returns trivial) fun _ => rfl
  all_goals exact silent (.error (.error _)) _ (fails _) fun _ => rfl

/-- A standard function does not look into objects. -/
theorem Builtin.run_head {ε σ : Type} (b : Builtin) (args : List (Value ε)) :
    (b.run (args.map Value.head) : Exec ε σ (Value ε)) = b.run args := by
  have message_head : ∀ args : List (Value ε), message (args.map Value.head) = message args := by
    intro args
    rw [message, message, List.map_map]
    exact congrArg _ (List.map_congr_left fun v _ => v.text_head)
  cases args with
  | nil => rfl
  | cons v rest =>
    cases b with
    | log => simp only [run, message_head]
    | emit => simp only [List.map_cons, run, Value.text_head, message_head]
    | length | throw | toString | typeOf => cases v <;> rfl

namespace Machine

open Run

/-! ## Calls -/

/-- Where a call by reference comes to, and where the call on trees comes to.  Every cell is what it was. -/
structure Returns (m : Machine) (s : Scope Empty) (r : Except Fault (Held Empty) × Machine)
    (q : Except (Scriptlet.Fault Empty) (Value Empty) × World Empty Unit) : Prop where
  world : q.2 = r.2.world s
  grows : m.heap.cells <+: r.2.heap.cells
  ends : Ends StandsFor r.2.heap m.heap.cells.length [] r.1 q.1

/-- Calls by reference follow calls on trees.  The arguments may be shared, with each other and with whatever
else is in the heap. -/
def CallsFollow (call : Caller) (call' : Scriptlet.Caller Empty Unit) : Prop :=
  ∀ f args values m s, List.Forall₂ m.heap.Shows args values →
    Returns m s ((call f args).outcome m) ((call' f values).outcome (m.world s))

section Calls

variable {call : Caller} {call' : Scriptlet.Caller Empty Unit} {scope : Nat} {own own' : List Nat}
  {start : Heap Empty} {m : Machine} {s : Scope Empty} {args : List (Held Empty)}
  {values : List (Value Empty)}

theorem map_head (h : List.Forall₂ m.heap.Shows args values) :
    args.map Held.head = values.map Value.head := by
  induction h with
  | nil => rfl
  | cons hfirst _ ih =>
    rw [List.map_cons, List.map_cons, hfirst.head_eq, ih]

/-- In the midst of a run a call leaves the scope as it was. -/
theorem invoke_leads (hc : CallsFollow call call') (hs : HoldsScope m.heap scope s own')
    (hmoves : start.Moves m.heap own own') (hargs : List.Forall₂ m.heap.Shows args values)
    (f : Function Empty) (site : Option Location) :
    Leads scope StandsFor start own ((invoke call f args site).outcome m)
      ((Eval.invoke call' f values site).outcome (m.world s)) := by
  obtain ⟨hworld, hgrows, hends⟩ := hc f args values m s hargs
  rw [invoke, outcome_adapt, Eval.invoke, Exec.outcome_adapt]
  refine ⟨s, own', hworld, hs.grows hgrows, hmoves.grow hgrows, ?_⟩
  generalize (call' f values).outcome (m.world s) = q at hends ⊢
  generalize (call f args).outcome m = r at hgrows hends ⊢
  obtain ⟨r, after⟩ := r
  obtain ⟨q, w⟩ := q
  cases hends with
  | ok hab hapart hnew =>
    refine .ok hab (hs.apart ?_ hnew) fun c hc => hmoves.extends_heap.length_le.trans (hnew c hc)
    rwa [List.nil_append] at hapart
  | error hfault =>
    refine .error ?_
    rw [Eval.outOf, Store.copyAll_eq_self]
    exact hfault.through ⟨rfl, hargs.imp fun _ _ h => h.grows hgrows, rfl⟩

/-- The parameters of a function are bound to copies. -/
theorem bindAll_binds {bound : List (String × Held Empty)} {shown : List (String × Value Empty)}
    (hbound : List.Forall₂ (fun p q => p.1 = q.1 ∧ start.Shows p.2 q.2) bound shown)
    (hstart : start.cells <+: m.heap.cells) (hs : HoldsScope m.heap scope s own)
    (hnew : ∀ a ∈ own, start.cells.length ≤ a) :
    ∃ heap own', (bindAll scope bound).outcome m = (.ok (), { m with heap }) ∧
      start.cells <+: heap.cells ∧
      HoldsScope heap scope (shown.foldl (fun s p => s.set ⟨p.1, false, p.2⟩) s) own' ∧
      ∀ a ∈ own', start.cells.length ≤ a := by
  induction hbound generalizing m s own with
  | nil => exact ⟨m.heap, own, rfl, hstart, hs, hnew⟩
  | @cons p q bound shown hfirst hrest ih =>
    obtain ⟨name, held⟩ := p
    obtain ⟨name', v⟩ := q
    obtain ⟨rfl, hheld⟩ : name = name' ∧ start.Shows held v := hfirst
    obtain ⟨copied, heap, built, hclone, hadds, hcopied⟩ := (hheld.grows hstart).clone
    have hbuilt : ∀ a ∈ built, start.cells.length ≤ a := fun a ha =>
      hstart.length_le.trans (hadds.bounds a ha).1
    have hs' := hs.grows hadds.grows
    have hapart := hs.apart hadds.nodup fun a ha => (hadds.bounds a ha).1
    obtain ⟨own', hset, hkept⟩ := hs'.set ⟨name, false, v⟩ hcopied.holds hcopied.fresh hapart
    have hgrown := hstart.trans hadds.grows
    have hnew' : ∀ a ∈ own', start.cells.length ≤ a := by
      intro a ha
      rcases hkept.mem a ha with ha | ha
      · exact hnew a ha
      · exact List.forall_mem_append.2 ⟨hbuilt, List.forall_mem_singleton.2 hgrown.length_le⟩ a ha
    have hgrown' : start.cells <+: (heap.set scope name false copied).cells :=
      Heap.grows_of_kept hgrown fun a ha => hkept.elsewhere a (ha.trans_le hgrown.length_le) fun hmem =>
        Nat.not_le_of_lt ha (hnew a hmem)
    obtain ⟨heap', own'', hrun, hresult⟩ := ih (m := { m with heap := heap.set scope name false copied })
      hgrown' hset hnew'
    refine ⟨heap', own'', ?_, hresult⟩
    rw [bindAll, outcome_bind, outcome_copy, hclone]
    exact hrun

/-- What a statement comes to stands for what it comes to on trees. -/
inductive Outcome.StandsFor (heap : Heap Empty) : Outcome → Scriptlet.Outcome Empty → List Nat → Prop
  | value {held : Held Empty} {v : Value Empty} {own : List Nat} :
    Scriptlet.StandsFor heap held v own → StandsFor heap (.value held) (.value v) own
  | returned {held : Held Empty} {v : Value Empty} {own : List Nat} :
    Scriptlet.StandsFor heap held v own → StandsFor heap (.returned held) (.returned v) own

theorem Outcome.StandsFor.unwrap {heap : Heap Empty} {o : Outcome} {o' : Scriptlet.Outcome Empty}
    (h : o.StandsFor heap o' own) : Scriptlet.StandsFor heap o.unwrap o'.unwrap own := by
  cases h <;> assumption

end Calls

/-! ## Evaluation -/

section Evaluation

variable {call : Caller} {call' : Scriptlet.Caller Empty Unit} {scope : Nat}

/-- The outcome of a visit is that of the form, with the place of the node. -/
theorem outcome_evaluate (call : Caller) (scope : Nat) (loc : Option Location) (form : Form) (m : Machine) :
    (evaluate call scope ⟨loc, form⟩).outcome m =
      (((evaluateForm call scope loc form).outcome { m with visited := some ⟨loc, form⟩ }).1.mapError
          (Fault.attach loc),
        ((evaluateForm call scope loc form).outcome { m with visited := some ⟨loc, form⟩ }).2) := by
  rw [evaluate, outcome_bind]
  rfl

theorem outcome_execute (call : Caller) (scope : Nat) (loc : Option Location) (form : Form) (m : Machine) :
    (execute call scope ⟨loc, form⟩).outcome m =
      (((executeForm call scope loc form).outcome { m with visited := some ⟨loc, form⟩ }).1.mapError
          (Fault.attach loc),
        ((executeForm call scope loc form).outcome { m with visited := some ⟨loc, form⟩ }).2) := by
  rw [execute, outcome_bind]
  rfl

/-- A scalar is held by itself. -/
theorem scalar_follows (r : Except Failure (Value Empty)) (hr : ∀ u, r = .ok u → u.IsScalar) :
    Follows scope StandsFor (ofFailing r >>= fun u => pure (.value u)) (Exec.ofFailing r) := by
  refine .of_outcome fun m s own hs => ?_
  cases r with
  | ok u =>
    have hu := hr u rfl
    exact ⟨_, _, rfl, rfl, .pure (.value hu.variant_ne hu.fresh) hs.nodup⟩
  | error failure => exact ⟨_, _, rfl, rfl, .error (.ofFailure _ failure)⟩

theorem asFunction_eq {held : Held Empty} {slot : Slot Empty} (h : held.head = slot.value.head) :
    asFunction held = Eval.asFunction slot := by
  obtain ⟨name, isMutable, v⟩ := slot
  have hasFunction : ∀ held : Held Empty, asFunction held = Eval.asFunction ⟨name, isMutable, held.head⟩ := by
    intro held
    cases held with
    | object a => rfl
    | value u => cases u <;> rfl
  rw [hasFunction, h]
  cases v <;> rfl

mutual

/-- The value of an expression by reference stands for its value on trees. -/
theorem evaluate_follows (hc : CallsFollow call call') : (node : Node) →
    Follows scope StandsFor (evaluate call scope node) (Eval.evaluate call' node)
  | ⟨loc, form⟩ => by
    intro m s own hs
    obtain ⟨s', own', hworld, hs', hmoves, hends⟩ :=
      evaluateForm_follows hc loc form { m with visited := some ⟨loc, form⟩ } s own hs
    rw [outcome_evaluate, Eval.outcome_evaluate]
    exact ⟨s', own', hworld, hs', hmoves, hends.mapError fun _ _ h => h.attach loc⟩

theorem evaluateForm_follows (hc : CallsFollow call call') (loc : Option Location) : (form : Form) →
    Follows scope StandsFor (evaluateForm call scope loc form) (Eval.evaluateForm call' loc form)
  | .ident name => by
    rw [evaluateForm, Eval.evaluateForm]
    exact .read _
  | .member object member => by
    rw [evaluateForm, Eval.evaluateForm]
    exact .read _
  | .group expr => by
    rw [evaluateForm, Eval.evaluateForm]
    exact evaluate_follows hc expr
  | .number text => by
    rw [evaluateForm, Eval.evaluateForm]
    refine (Follows.ofFailing _).bind_of fun n _ hn => ?_
    obtain ⟨-, rfl⟩ := hn
    exact .pure fun _ => .value nofun trivial
  | .string text => by
    rw [evaluateForm, Eval.evaluateForm]
    refine (Follows.ofExcept _).bind_of fun t t' ht => ?_
    subst ht
    exact .pure fun _ => .value nofun trivial
  | .boolean text => by
    rw [evaluateForm, Eval.evaluateForm]
    refine (Follows.ofExcept _).bind_of fun b b' hb => ?_
    subst hb
    exact .pure fun _ => .value nofun trivial
  | .null => by
    rw [evaluateForm, Eval.evaluateForm]
    exact .pure standsFor_null
  | .call callee args => by
    rw [evaluateForm, Eval.evaluateForm]
    refine (Follows.resolve callee.path).bind_of fun held slot hheld => ?_
    rw [asFunction_eq hheld]
    refine (Follows.ofExcept _).bind_of fun f f' hf => ?_
    subst hf
    intro m s own hs
    refine (evaluateAll_follows hc args m s own hs).bind fun held values m' s' own' built hs' hmoves hheld _ _ => ?_
    exact invoke_leads hc hs' hmoves (hheld.forall₂ fun _ _ _ _ h => h.shows) f loc
  | .ternary condition thenBranch elseBranch => by
    rw [evaluateForm, Eval.evaluateForm]
    refine (evaluate_follows hc condition).head.bind_of fun held v hv => ?_
    rw [hv]
    cases v with
    | boolean b =>
      cases b with
      | true => exact evaluate_follows hc thenBranch
      | false => exact evaluate_follows hc elseBranch
    | shared holder place => exact nomatch holder
    | _ => exact .fail .conditionNotBoolean
  | .assign target op value => by
    rw [evaluateForm, Eval.evaluateForm]
    intro m s own hs
    refine (evaluate_follows hc value m s own hs).bind fun held v m' s' own' built hs' hmoves hv hapart hnew => ?_
    refine (assign_leads hs' hmoves hv hapart hnew target.path op).bind
      fun _ _ m'' s'' own'' _ hs'' hmoves' _ _ _ => ?_
    exact .pure hs'' hmoves' (standsFor_null _) (by simpa using hs''.nodup) (List.forall_mem_nil _)
  | .chain _ first rest => by
    rw [evaluateForm, Eval.evaluateForm]
    intro m s own hs
    refine (evaluate_follows hc first m s own hs).bind fun held v m' s' own' built hs' hmoves hv hapart hnew => ?_
    exact evaluateRest_leads hc rest hs' hmoves hv hapart hnew
  | .unary op operand => by
    rw [evaluateForm, Eval.evaluateForm]
    refine (evaluate_follows hc operand).head.bind_of fun held v hv => ?_
    rw [hv, Value.applyUnary_head]
    exact scalar_follows _ fun u hu => Value.applyUnary_scalar hu
  | .bare | .expression _ | .block _ | .function _ _ _ _ | .declaration _ _ _ | .ret _
  | .script _ => by
    rw [evaluateForm, Eval.evaluateForm]
    · exact .breakDown _
    all_goals simp

theorem evaluateAll_follows (hc : CallsFollow call call') : (nodes : List Node) →
    Follows scope (fun heap => Pieces (StandsFor heap)) (evaluateAll call scope nodes)
      (Eval.evaluateAll call' nodes)
  | [] => by
    rw [evaluateAll, Eval.evaluateAll]
    exact .pure fun _ => .nil
  | node :: rest => by
    rw [evaluateAll, Eval.evaluateAll]
    intro m s own hs
    refine (evaluate_follows hc node m s own hs).bind fun held v m' s' own' built hs' hmoves hv hapart hnew => ?_
    refine ((evaluateAll_follows hc rest m' s' own' hs').beside hmoves hv hapart hnew).bind
      fun helds vs m'' s'' own'' _ hs'' hmoves' hvs hapart' hnew' => ?_
    obtain ⟨builts, hv', hvs, rfl⟩ := hvs
    exact .pure hs'' hmoves' (.cons hv' hvs) hapart' hnew'

theorem evaluateRest_leads (hc : CallsFollow call call') : (rest : List (String × Node)) →
    {start : Heap Empty} → {own own' built : List Nat} → {m : Machine} → {s : Scope Empty} →
    {held : Held Empty} → {v : Value Empty} → HoldsScope m.heap scope s own' →
    start.Moves m.heap own own' → StandsFor m.heap held v built → (own' ++ built).Nodup →
    (∀ c ∈ built, start.cells.length ≤ c) →
    Leads scope StandsFor start own ((evaluateRest call scope held rest).outcome m)
      ((Eval.evaluateRest call' v rest).outcome (m.world s))
  | [], _, _, _, _, _, _, _, _, hs, hmoves, hv, hapart, hnew => by
    rw [evaluateRest, Eval.evaluateRest]
    exact .pure hs hmoves hv hapart hnew
  | (op, node) :: rest, _, _, _, _, _, _, held, v, hs, hmoves, hv, _, _ => by
    rw [evaluateRest, Eval.evaluateRest]
    refine ((evaluate_follows hc node).head.leads hs hmoves).bind
      fun operand w m' s' own' _ hs' hmoves' hw _ _ => ?_
    rw [hv.holds.head_eq, hw, Value.applyOperator_head]
    refine ((Follows.ofFailing _).leads hs' hmoves').bind
      fun u _ m'' s'' own'' _ hs'' hmoves'' hu _ _ => ?_
    obtain ⟨hu, rfl⟩ := hu
    have hscalar := Value.applyOperator_scalar hu
    exact evaluateRest_leads hc rest hs'' hmoves'' (.value hscalar.variant_ne hscalar.fresh)
      (by simpa using hs''.nodup) (List.forall_mem_nil _)

end

theorem declareFunction_follows (function : ScriptFunction) :
    Follows scope (fun _ _ _ _ => True) (declareFunction scope function) (Eval.declareFunction function) := by
  have declare : Follows scope (fun _ _ _ _ => True)
      (do
        let id ← aside Exec.fresh
        define scope function.name false
          (.value (.function ⟨.script id function, some function.params.length, function.name⟩)))
      (do
        let id ← Exec.fresh
        Exec.define ⟨function.name, false,
          .function ⟨.script id function, some function.params.length, function.name⟩⟩) := by
    intro m s own hs
    rw [outcome_bind, Exec.outcome_bind]
    have hv : StandsFor m.heap
        (.value (.function ⟨.script m.made function, some function.params.length, function.name⟩)) _ [] :=
      .value nofun trivial
    exact define_leads (m := { m with made := m.made + 1 }) hs (.refl _ _) hv (by simpa using hs.nodup)
      (List.forall_mem_nil _) _ _
  rw [declareFunction, Eval.declareFunction]
  split
  · exact (Follows.fail _).bind_of (P := fun _ _ => True) fun _ _ _ => declare
  · exact declare

mutual

/-- What a statement comes to by reference stands for what it comes to on trees. -/
theorem execute_follows (hc : CallsFollow call call') {scope : Nat} : (node : Node) →
    Follows scope Outcome.StandsFor (execute call scope node) (Eval.execute call' node)
  | ⟨loc, form⟩ => by
    intro m s own hs
    obtain ⟨s', own', hworld, hs', hmoves, hends⟩ :=
      executeForm_follows hc loc form { m with visited := some ⟨loc, form⟩ } s own hs
    rw [outcome_execute, Eval.outcome_execute]
    exact ⟨s', own', hworld, hs', hmoves, hends.mapError fun _ _ h => h.attach loc⟩

theorem executeForm_follows (hc : CallsFollow call call') {scope : Nat} (loc : Option Location) :
    (form : Form) →
    Follows scope Outcome.StandsFor (executeForm call scope loc form) (Eval.executeForm call' loc form)
  | .script statements => by
    rw [executeForm, Eval.executeForm]
    exact fun m s own hs => executeAll_leads hc statements hs (.refl _ _) (.value (standsFor_null _))
      (by simpa using hs.nodup) (List.forall_mem_nil _)
  | .expression expr => by
    rw [executeForm, Eval.executeForm]
    exact (evaluate_follows hc expr).map fun _ _ _ _ => .value
  | .block statements => by
    rw [executeForm, Eval.executeForm]
    exact .nested fun _ m s own hs => executeAll_leads hc statements hs (.refl _ _)
      (.value (standsFor_null _)) (by simpa using hs.nodup) (List.forall_mem_nil _)
  | .function name params body source => by
    rw [executeForm, Eval.executeForm]
    exact (declareFunction_follows _).bind_of (P := fun _ _ => True) fun _ _ _ =>
      .pure fun heap => .value (standsFor_null heap)
  | .declaration name value isMutable => by
    rw [executeForm, Eval.executeForm]
    intro m s own hs
    refine (evaluate_follows hc value m s own hs).bind fun held v m' s' own' built hs' hmoves hv hapart hnew => ?_
    refine (define_leads hs' hmoves hv hapart hnew name isMutable).bind
      fun _ _ m'' s'' own'' _ hs'' hmoves' _ _ _ => ?_
    exact .pure hs'' hmoves' (.value (standsFor_null _)) (by simpa using hs''.nodup) (List.forall_mem_nil _)
  | .ret none => by
    rw [executeForm, Eval.executeForm]
    exact .pure fun heap => .returned (standsFor_null heap)
  | .ret (some expr) => by
    rw [executeForm, Eval.executeForm]
    exact (evaluate_follows hc expr).map fun _ _ _ _ => .returned
  | .bare => by
    rw [executeForm, Eval.executeForm]
    exact .breakDown _
  | .number _ | .string _ | .boolean _ | .null | .ident _ | .member _ _ | .group _ | .call _ _
  | .ternary _ _ _ | .assign _ _ _ | .chain _ _ _ | .unary _ _ => by
    rw [executeForm, Eval.executeForm]
    · exact (evaluate_follows hc _).map fun _ _ _ _ => .value
    all_goals simp

theorem executeAll_leads (hc : CallsFollow call call') {scope : Nat} : (nodes : List Node) →
    {start : Heap Empty} → {own own' built : List Nat} → {m : Machine} → {s : Scope Empty} →
    {last : Outcome} → {last' : Scriptlet.Outcome Empty} → HoldsScope m.heap scope s own' →
    start.Moves m.heap own own' → last.StandsFor m.heap last' built → (own' ++ built).Nodup →
    (∀ c ∈ built, start.cells.length ≤ c) →
    Leads scope Outcome.StandsFor start own ((executeAll call scope last nodes).outcome m)
      ((Eval.executeAll call' last' nodes).outcome (m.world s))
  | [], _, _, _, _, _, _, _, _, hs, hmoves, hlast, hapart, hnew => by
    rw [executeAll, Eval.executeAll]
    exact .pure hs hmoves hlast hapart hnew
  | node :: rest, _, _, _, _, _, _, _, _, hs, hmoves, _, _, _ => by
    rw [executeAll, Eval.executeAll]
    refine ((execute_follows hc node).leads hs hmoves).bind
      fun o o' m' s' own' built hs' hmoves' ho hapart hnew => ?_
    cases ho with
    | returned hv => exact .pure hs' hmoves' (.returned hv) hapart hnew
    | value hv => exact executeAll_leads hc rest hs' hmoves' (.value hv) hapart hnew

end

end Evaluation

/-! ## Functions -/

section Functions

variable {m : Machine} {args : List (Held Empty)} {values : List (Value Empty)}

theorem outcome_bind_ok {α β : Type} {x : Run α} {f : α → Run β} {a : α} {after : Machine}
    (h : x.outcome m = (.ok a, after)) : (x >>= f).outcome m = (f a).outcome after := by
  rw [outcome_bind, h]

theorem outcome_aside {α : Type} (x : Exec Empty Unit α) (m : Machine) :
    (aside x).outcome m =
      ((x.outcome (m.world .empty)).1.mapError fun fault => .ofFailure fault.failure,
        { m with
          visited := (x.outcome (m.world .empty)).2.visited
          effects := (x.outcome (m.world .empty)).2.effects
          made := (x.outcome (m.world .empty)).2.made }) := rfl

@[simp] theorem outcome_isolated {α : Type} (x : Run α) (m : Machine) :
    (isolated x).outcome m = ((x.outcome { m with visited := none }).1,
      { (x.outcome { m with visited := none }).2 with visited := m.visited }) := rfl

theorem checkArity_eq (f : Function Empty) (h : List.Forall₂ m.heap.Shows args values) :
    Eval.checkArity f (args.map Held.head) = Eval.checkArity f values := by
  rw [Eval.checkArity, Eval.checkArity, List.length_map, h.length_eq]

/-- The parameters go with arguments that show the values that they go with. -/
theorem zip_shows (params : List String) (h : List.Forall₂ m.heap.Shows args values) :
    List.Forall₂ (fun p q => p.1 = q.1 ∧ m.heap.Shows p.2 q.2) (params.zip args) (params.zip values) := by
  induction h generalizing params with
  | nil => simp
  | cons hfirst _ ih =>
    cases params with
    | nil => exact .nil
    | cons param params => exact .cons ⟨rfl, hfirst⟩ (ih params)

/-- The scope of a function body holds the parameters, on new cells. -/
theorem bodyScope_holds (params : List String) (hargs : List.Forall₂ m.heap.Shows args values) :
    ∃ scope heap own, (bodyScope params args).outcome m = (.ok scope, { m with heap }) ∧
      m.heap.cells <+: heap.cells ∧ HoldsScope heap scope (.ofParams params values) own ∧
      ∀ a ∈ own, m.heap.cells.length ≤ a := by
  obtain ⟨scope, begun, hbegun, hgrows, hempty⟩ : ∃ scope heap,
      newScope.outcome m = (.ok scope, { m with heap }) ∧ m.heap.cells <+: heap.cells ∧
      HoldsScope heap scope .empty [m.heap.cells.length] :=
    ⟨_, _, rfl, HoldsScope.empty m.heap⟩
  obtain ⟨heap, own, hbind, hstart, hscope, hnew⟩ := bindAll_binds (m := { m with heap := begun })
    (zip_shows params hargs) hgrows hempty (List.forall_mem_singleton.2 le_rfl)
  refine ⟨scope, heap, own, ?_, hstart, hscope, hnew⟩
  rw [bodyScope, outcome_bind_ok hbegun, outcome_bind_ok hbind, outcome_pure]

section Bodies

variable {call : Caller} {call' : Scriptlet.Caller Empty Unit} (hc : CallsFollow call call')
  {g : Scriptlet.Outcome Empty → Exec Empty Unit (Value Empty)} (hreturned : ∀ v, g (.returned v) = pure v)
  (hvalue : ∀ v, g (.value v) = pure .null)

include hc hreturned hvalue

/-- The value of a function body stands for its value on trees. -/
theorem runBody_follows {scope : Nat} (body : Block) :
    Follows scope StandsFor (runBody call scope body)
      (Eval.executeAll call' (.value .null) body.statements >>= g) := by
  intro m s own hs
  refine (executeAll_leads hc body.statements hs (.refl _ _) (.value (standsFor_null _))
    (by simpa using hs.nodup) (List.forall_mem_nil _)).bind
    fun o o' m' s' own' built hs' hmoves ho hapart hnew => ?_
  cases ho with
  | returned hv =>
    rw [hreturned]
    exact .pure hs' hmoves hv hapart hnew
  | value _ =>
    rw [hvalue]
    exact .pure hs' hmoves (standsFor_null _) (by simpa using hs'.nodup) (List.forall_mem_nil _)

/-- A script function runs on cells that are new. -/
theorem runScript_returns (function : ScriptFunction) (s : Scope Empty)
    (hargs : List.Forall₂ m.heap.Shows args values) :
    Returns m s ((runScript call function args).outcome m)
      ((Exec.isolated (.ofParams function.params values)
        (Eval.executeAll call' (.value .null) function.body.statements >>= g)).outcome (m.world s)) := by
  obtain ⟨scope, heap, own, hbegun, hstart, hscope, hnew⟩ :=
    bodyScope_holds (m := { m with visited := none }) function.params hargs
  obtain ⟨s', own', hworld, hs', hmoves, hends⟩ :=
    runBody_follows hc hreturned hvalue function.body { m with heap, visited := none } _ own hscope
  rw [runScript, outcome_isolated, outcome_bind_ok hbegun, Exec.outcome_isolated]
  exact ⟨congrArg (fun w : World Empty Unit => { w with scope := s, visited := m.visited }) hworld,
    hmoves.grows hstart hnew, (hends.older hstart.length_le).narrow (List.nil_sublist _)⟩

end Bodies

/-- A standard function does not look at the heap. -/
theorem runBuiltin_returns (b : Builtin) (s : Scope Empty) (hargs : List.Forall₂ m.heap.Shows args values) :
    Returns m s ((runBuiltin b args).outcome m) ((b.run values).outcome (m.world s)) := by
  obtain ⟨r, sent, hr, hrun⟩ := b.outcome_run (σ := Unit) values
  have haside : (aside (b.run values)).outcome m =
      (r.mapError .ofFailure, { m with effects := m.effects ++ sent }) := by
    rw [outcome_aside, hrun]
    rcases r with (_ | _) | _ <;> rfl
  have hbuiltin : (runBuiltin b args).outcome m =
      ((r.map Held.value).mapError .ofFailure, { m with effects := m.effects ++ sent }) := by
    rw [runBuiltin, map_head hargs, b.run_head, outcome_bind, haside]
    cases r <;> rfl
  rw [hbuiltin, hrun]
  refine ⟨rfl, List.prefix_rfl, ?_⟩
  cases r with
  | ok v =>
    have hv := hr v rfl
    exact .pure (.value hv.variant_ne hv.fresh) List.nodup_nil
  | error failure => exact .error (.ofFailure _ failure)

/-- Calls by reference follow calls on trees.  The induction is on the number of calls that may be open. -/
theorem callFunction_returns (depth : Nat) :
    CallsFollow (callFunction depth) (Eval.callFunction Host.none depth) := by
  induction depth with
  | zero => exact fun f args values m s _ => ⟨rfl, List.prefix_rfl, .error (.breakdown .callDepth)⟩
  | succ depth ih =>
    intro f args values m s hargs
    rw [callFunction, Eval.callFunction, outcome_bind, Exec.outcome_bind, outcome_ofExcept,
      Exec.outcome_ofExcept, checkArity_eq f hargs]
    cases Eval.checkArity f values with
    | error cause => exact ⟨rfl, List.prefix_rfl, .error (.ofCause _ cause)⟩
    | ok _ =>
      dsimp only [Except.mapError]
      cases f.callback with
      | script id function =>
        dsimp only
        rw [Exec.outcome_bind, Exec.outcome_copyAll, world_store, Store.copyAll_eq_self]
        dsimp only [Except.mapError]
        exact runScript_returns ih (fun _ => rfl) (fun _ => rfl) function s hargs
      | builtin b => exact runBuiltin_returns b s hargs
      | host e => exact e.elim

end Functions

end Machine

end Scriptlet
