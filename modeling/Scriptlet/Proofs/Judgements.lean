import Scriptlet.Proofs.Outcome

/-!
# Judgements of runs

The evaluator goes down the tree and puts a run together from a few operations on the world.  A
`Judgement` says something of such runs, or of two runs of the same code side by side.  If it is kept
when computations are put together (`Judgement.Lawful`), and if every node may be visited and does
nothing by itself that the judgement forbids (`Judgement.Expressions`, `Judgement.Statements`), then
it holds of whole trees (`evaluate_judged`, `execute_judged`).  The induction over the tree is done
here once; a judgement only has to say what it makes of each operation.
-/

namespace Scriptlet

set_option autoImplicit false

variable {ε σ τ : Type}

/-! ## Forms and functions -/

/-- Whether a form, when it is run, may add names to the scope that it is run in. -/
def Form.defines : Form → Bool
  | .script _ | .function _ _ _ _ | .declaration _ _ _ => true
  | _ => false

/-- The function of a declaration that is the `id`-th to be run. -/
def ScriptFunction.made (function : ScriptFunction) (id : Nat) : Function ε :=
  ⟨.script id function, some function.params.length, function.name⟩

namespace Eval

theorem asFunction_eq {slot : Slot ε} {f : Function ε} (h : asFunction slot = .ok f) :
    slot.value = .function f := by
  rw [asFunction] at h
  split at h
  · next g hv => rw [hv, Except.ok.inj h]
  · exact nomatch h

theorem asFunction_error {slot : Slot ε} {cause : Cause} (h : asFunction slot = .error cause) :
    cause.kind ≠ .parse := by
  rw [asFunction] at h
  split at h
  · cases h
  · cases h
    rintro ⟨⟩

end Eval

/-! ## Judgements -/

/-- What is said of values, of the slots that paths lead to, of functions that are called, and of
runs.  A run is judged beside another run of the same code, by what it returns and by whether it may
add names to the scope. -/
structure Judgement (ε σ τ : Type) where
  value : Value ε → Prop
  slot : Slot ε → Prop
  function : Function ε → Prop
  runs : (defines : Bool) → {α : Type} → (α → Prop) → Exec ε σ α → Exec ε τ α → Prop

namespace Judgement

open Exec Eval

/-- What a statement comes to. -/
def outcome (J : Judgement ε σ τ) (o : Outcome ε) : Prop :=
  J.value o.unwrap

/-- A judgement that is kept when computations are put together, whatever the code. -/
structure Lawful (J : Judgement ε σ τ) : Prop where
  null : J.value .null
  callee : ∀ {slot : Slot ε} {f : Function ε}, J.slot slot → asFunction slot = .ok f → J.function f
  pure : ∀ {defines : Bool} {α : Type} {Q : α → Prop} {a : α}, Q a → J.runs defines Q (pure a) (pure a)
  bind : ∀ {defines : Bool} {α β : Type} {P : α → Prop} {Q : β → Prop} {x : Exec ε σ α}
    {y : Exec ε τ α} {f : α → Exec ε σ β} {g : α → Exec ε τ β}, J.runs defines P x y →
    (∀ a, P a → J.runs defines Q (f a) (g a)) → J.runs defines Q (x >>= f) (y >>= g)
  fail : ∀ {defines : Bool} {α : Type} {Q : α → Prop} {cause : Cause}, cause.kind ≠ .parse →
    J.runs defines Q (fail cause) (fail cause)
  fresh : ∀ {defines : Bool}, J.runs defines (fun _ => True) fresh fresh
  define : ∀ {slot : Slot ε}, J.value slot.value →
    J.runs true (fun _ => True) (define slot) (define slot)
  nested : ∀ {defines : Bool} {α : Type} {Q : α → Prop} {x : Exec ε σ α} {y : Exec ε τ α},
    J.runs true Q x y → J.runs defines Q (nested x) (nested y)
  defining : ∀ {defines : Bool} {α : Type} {Q : α → Prop} {x : Exec ε σ α} {y : Exec ε τ α},
    J.runs defines Q x y → J.runs true Q x y

variable (J : Judgement ε σ τ)

/-- A node may be visited, and may give its place to the errors that come out of it. -/
def Visits (node : Node) : Prop :=
  ∀ (defines : Bool) {α : Type} {Q : α → Prop} {x : Exec ε σ α} {y : Exec ε τ α},
    J.runs defines Q x y →
    J.runs defines Q (do visit node; located node.loc x) (do visit node; located node.loc y)

variable [BEq ε]

/-- What a form that stands at `loc` does by itself when it is evaluated is as judged, and what is
evaluated in it are nodes with `E`. -/
def Evaluates (call : Caller ε σ) (call' : Caller ε τ) (E : Node → Prop) (loc : Option Location) :
    Form → Prop
  | .ident name => J.runs false J.value (read (.name name)) (read (.name name))
  | .member object member =>
    J.runs false J.value (read (object.path.append member.path)) (read (object.path.append member.path))
  | .group expr => E expr
  | .number text =>
    J.runs false (fun n => J.value (.number n)) (ofFailing (Literal.number text))
      (ofFailing (Literal.number text))
  | .string text =>
    J.runs false (fun s => J.value (.string s)) (ofExcept (Literal.string text))
      (ofExcept (Literal.string text))
  | .boolean text =>
    J.runs false (fun b => J.value (.boolean b)) (ofExcept (Literal.boolean text))
      (ofExcept (Literal.boolean text))
  | .null => True
  | .call callee args =>
    J.runs false J.slot (resolve callee.path) (resolve callee.path) ∧ (∀ arg ∈ args, E arg) ∧
      ∀ f values, J.function f → (∀ v ∈ values, J.value v) →
        J.runs false J.value (invoke call f values loc) (invoke call' f values loc)
  | .ternary condition thenBranch elseBranch => E condition ∧ E thenBranch ∧ E elseBranch
  | .assign target op value =>
    E value ∧ ∀ operand, J.value operand →
      J.runs false (fun _ => True) (modifySlot target.path (assigned op operand))
        (modifySlot target.path (assigned op operand))
  | .chain _ first rest =>
    E first ∧ ∀ p ∈ rest, E p.2 ∧ ∀ v operand, J.value v → J.value operand →
      J.runs false J.value (ofFailing (v.applyOperator p.1 operand))
        (ofFailing (v.applyOperator p.1 operand))
  | .unary op operand =>
    E operand ∧ ∀ v, J.value v →
      J.runs false J.value (ofFailing (v.applyUnary op)) (ofFailing (v.applyUnary op))
  | form =>
    J.runs false J.value (breakDown (.unsupported (.expression form.label)))
      (breakDown (.unsupported (.expression form.label)))

/-- What a form that stands at `loc` does by itself when it is run is as judged; what is evaluated
in it are nodes with `E`, and what is run in it are nodes with `S`. -/
def Executes (E S : Node → Prop) (loc : Option Location) : Form → Prop
  | .script statements | .block statements => ∀ node ∈ statements, S node
  | .expression expr | .declaration _ expr _ | .ret (some expr) => E expr
  | .function name params body source =>
    ∀ id, J.value (.function (ScriptFunction.made ⟨name, params, body, source⟩ id))
  | .ret none => True
  | .bare =>
    J.runs false J.outcome (breakDown (.unsupported (.statement Form.bare.label)))
      (breakDown (.unsupported (.statement Form.bare.label)))
  | form => E ⟨loc, form⟩

/-- Nodes that do as judged when they are evaluated. -/
structure Expressions (call : Caller ε σ) (call' : Caller ε τ) (E : Node → Prop) : Prop where
  visits : ∀ {node : Node}, E node → J.Visits node
  form : ∀ {loc : Option Location} {form : Form}, E ⟨loc, form⟩ → J.Evaluates call call' E loc form

/-- Nodes with `S` that do as judged when they are run, and nodes with `E` when they are evaluated. -/
structure Statements (call : Caller ε σ) (call' : Caller ε τ) (E S : Node → Prop) : Prop where
  expressions : J.Expressions call call' E
  visits : ∀ {node : Node}, S node → J.Visits node
  form : ∀ {loc : Option Location} {form : Form}, S ⟨loc, form⟩ → J.Executes E S loc form

end Judgement

/-! ## Judgements without results -/

namespace Exec

variable {α β : Type} {P : α → Prop} {Q : β → Prop} {x : Exec ε σ α}

/-- What a computation returns has `P`. -/
def Returns (P : α → Prop) (x : Exec ε σ α) : Prop :=
  ∀ w a, (x.outcome w).1 = .ok a → P a

theorem Returns.bind {f : α → Exec ε σ β} (hx : Returns P x) (hf : ∀ a, P a → Returns Q (f a)) :
    Returns Q (x >>= f) := by
  intro w b hb
  obtain ⟨a, between, ha, hb⟩ := bind_eq_ok.1 (Prod.ext hb rfl)
  exact hf a (hx w a (congrArg Prod.fst ha)) between b (congrArg Prod.fst hb)

/-- Only what is returned matters to what comes next. -/
theorem Returns.bind_congr {f g : α → Exec ε σ β} (hx : Returns P x) (h : ∀ a, P a → f a = g a) :
    x >>= f = x >>= g := by
  refine funext fun w => (?_ : (x >>= f).outcome w = (x >>= g).outcome w)
  have ha := hx w
  rw [outcome_bind, outcome_bind]
  generalize x.outcome w = r at ha
  obtain ⟨e | a, after⟩ := r
  · rfl
  · exact congrArg (fun y => y.outcome after) (h a (ha a rfl))

end Exec

namespace Judgement

open Exec

/-- A relation between runs that says nothing of what they return. -/
def plain (R : {α : Type} → Exec ε σ α → Exec ε τ α → Prop) : Judgement ε σ τ where
  value _ := True
  slot _ := True
  function _ := True
  runs _ _ P x y := R x y ∧ Returns P x ∧ Returns P y

variable {R : {α : Type} → Exec ε σ α → Exec ε τ α → Prop}

/-- A relation that goes on under every result goes on under those that come up. -/
theorem bind_of_returns {α β : Type} {P : α → Prop} {x : Exec ε σ α} {y : Exec ε τ α}
    {f : α → Exec ε σ β} {g : α → Exec ε τ β}
    (bind : ∀ {f : α → Exec ε σ β} {g : α → Exec ε τ β}, (∀ a, R (f a) (g a)) →
      R (x >>= f) (y >>= g))
    (fail : ∀ cause : Cause, R (fail cause : Exec ε σ β) (fail cause)) (hx : Returns P x)
    (hy : Returns P y) (hf : ∀ a, P a → R (f a) (g a)) : R (x >>= f) (y >>= g) := by
  classical
  -- After a result without `P`, which neither run has, both may as well fail.
  let off {σ : Type} (k : α → Exec ε σ β) (a : α) : Exec ε σ β :=
    if P a then k a else Exec.fail .notFunction
  have hoff : R (x >>= off f) (y >>= off g) := by
    refine bind fun a => ?_
    by_cases ha : P a
    · simp only [off, if_pos ha]
      exact hf a ha
    · simp only [off, if_neg ha]
      exact fail _
  rwa [hx.bind_congr fun a ha => if_pos ha, hy.bind_congr fun a ha => if_pos ha] at hoff

theorem plain_lawful (pure : ∀ {α : Type} (a : α), R (Pure.pure a) (Pure.pure a))
    (bind : ∀ {α β : Type} {x : Exec ε σ α} {y : Exec ε τ α} {f : α → Exec ε σ β}
      {g : α → Exec ε τ β}, R x y → (∀ a, R (f a) (g a)) → R (x >>= f) (y >>= g))
    (fail : ∀ {α : Type} (cause : Cause), R (fail cause : Exec ε σ α) (fail cause))
    (fresh : R fresh fresh) (define : ∀ slot, R (define slot) (define slot))
    (nested : ∀ {α : Type} {x : Exec ε σ α} {y : Exec ε τ α}, R x y → R (nested x) (nested y)) :
    (plain R).Lawful where
  null := trivial
  callee _ _ := trivial
  pure h := ⟨pure _, fun _ _ ha => Except.ok.inj ha ▸ h, fun _ _ ha => Except.ok.inj ha ▸ h⟩
  bind hx hf :=
    ⟨bind_of_returns (bind hx.1) fail hx.2.1 hx.2.2 fun a ha => (hf a ha).1,
      hx.2.1.bind fun a ha => (hf a ha).2.1, hx.2.2.bind fun a ha => (hf a ha).2.2⟩
  fail _ := ⟨fail _, fun _ _ ha => (nomatch ha), fun _ _ ha => (nomatch ha)⟩
  fresh := ⟨fresh, fun _ _ _ => trivial, fun _ _ _ => trivial⟩
  define _ := ⟨define _, fun _ _ _ => trivial, fun _ _ _ => trivial⟩
  nested h := ⟨nested h.1, fun _ a ha => h.2.1 _ a ha, fun _ a ha => h.2.2 _ a ha⟩
  defining h := h

theorem of_plain {defines : Bool} {α : Type} {x : Exec ε σ α} {y : Exec ε τ α} (h : R x y) :
    (plain R).runs defines (fun _ => True) x y :=
  ⟨h, fun _ _ _ => trivial, fun _ _ _ => trivial⟩

theorem plain_visits {node : Node} (h : ∀ {α : Type} {x : Exec ε σ α} {y : Exec ε τ α}, R x y →
    R (do visit node; located node.loc x) (do visit node; located node.loc y)) :
    (plain R).Visits node := by
  intro _ _ P x y hx
  have returns {σ : Type} {x : Exec ε σ _} (hx : Returns P x) :
      Returns P (do visit node; located node.loc x) := by
    intro w a ha
    rw [outcome_bind, outcome_visit] at ha
    dsimp only at ha
    rw [located, outcome_adapt] at ha
    exact hx _ a (mapError_eq_ok.1 ha)
  exact ⟨h hx.1, returns hx.2.1, returns hx.2.2⟩

end Judgement

/-! ## Whole trees -/

namespace Eval

open Exec

variable {J : Judgement ε σ τ}

theorem declareFunction_judged (hJ : J.Lawful) {function : ScriptFunction}
    (h : ∀ id, J.value (.function (function.made id))) :
    J.runs true (fun _ => True) (declareFunction function) (declareFunction function) := by
  have declare : J.runs true (fun _ => True)
      (fresh >>= fun id => define ⟨function.name, false, .function (function.made id)⟩)
      (fresh >>= fun id => define ⟨function.name, false, .function (function.made id)⟩) :=
    hJ.bind hJ.fresh fun id _ => hJ.define (h id)
  rw [declareFunction, declareFunction]
  split
  · have hfail : J.runs true (fun _ : Unit => True) (fail (.repeatedParameter function.name))
        (fail (.repeatedParameter function.name)) := hJ.fail (by rintro ⟨⟩)
    exact hJ.bind hfail fun _ _ => declare
  · exact declare

theorem asFunction_judged (hJ : J.Lawful) {slot : Slot ε} (h : J.slot slot) :
    J.runs false J.function (ofExcept (asFunction slot)) (ofExcept (asFunction slot)) := by
  cases hf : asFunction slot with
  | ok f => exact hJ.pure (hJ.callee h hf)
  | error cause => exact hJ.fail (asFunction_error hf)

variable [BEq ε] {call : Caller ε σ} {call' : Caller ε τ} {E S : Node → Prop}

mutual

/-- What is evaluated is as judged. -/
theorem evaluate_judged (hJ : J.Lawful) (hE : J.Expressions call call' E) :
    (node : Node) → E node → J.runs false J.value (evaluate call node) (evaluate call' node)
  | ⟨loc, form⟩, h => by
    rw [evaluate, evaluate]
    exact hE.visits h _ (evaluateForm_judged hJ hE loc form (hE.form h))

theorem evaluateForm_judged (hJ : J.Lawful) (hE : J.Expressions call call' E)
    (loc : Option Location) : (form : Form) → J.Evaluates call call' E loc form →
      J.runs false J.value (evaluateForm call loc form) (evaluateForm call' loc form)
  | .ident name, h => by rw [evaluateForm, evaluateForm]; exact h
  | .member object member, h => by rw [evaluateForm, evaluateForm]; exact h
  | .group expr, h => by rw [evaluateForm, evaluateForm]; exact evaluate_judged hJ hE expr h
  | .number text, h => by
    rw [evaluateForm, evaluateForm]
    exact hJ.bind h fun _ hn => hJ.pure hn
  | .string text, h => by
    rw [evaluateForm, evaluateForm]
    exact hJ.bind h fun _ hs => hJ.pure hs
  | .boolean text, h => by
    rw [evaluateForm, evaluateForm]
    exact hJ.bind h fun _ hb => hJ.pure hb
  | .null, _ => by rw [evaluateForm, evaluateForm]; exact hJ.pure hJ.null
  | .call callee args, h => by
    obtain ⟨hcallee, hargs, hinvoke⟩ := h
    rw [evaluateForm, evaluateForm]
    apply hJ.bind hcallee
    intro slot hslot
    apply hJ.bind (asFunction_judged hJ hslot)
    intro f hf
    apply hJ.bind (evaluateAll_judged hJ hE args hargs)
    intro values hvalues
    exact hinvoke f values hf hvalues
  | .ternary condition thenBranch elseBranch, h => by
    obtain ⟨hcondition, hthen, helse⟩ := h
    rw [evaluateForm, evaluateForm]
    apply hJ.bind (evaluate_judged hJ hE condition hcondition)
    intro v _
    split
    · exact evaluate_judged hJ hE thenBranch hthen
    · exact evaluate_judged hJ hE elseBranch helse
    · exact hJ.fail (by rintro ⟨⟩)
  | .assign target op value, h => by
    obtain ⟨hvalue, hassign⟩ := h
    rw [evaluateForm, evaluateForm]
    apply hJ.bind (evaluate_judged hJ hE value hvalue)
    intro operand hoperand
    exact hJ.bind (hassign operand hoperand) fun _ _ => hJ.pure hJ.null
  | .chain _ first rest, h => by
    obtain ⟨hfirst, hrest⟩ := h
    rw [evaluateForm, evaluateForm]
    apply hJ.bind (evaluate_judged hJ hE first hfirst)
    intro v hv
    exact evaluateRest_judged hJ hE v hv rest hrest
  | .unary op operand, h => by
    obtain ⟨hoperand, happly⟩ := h
    rw [evaluateForm, evaluateForm]
    apply hJ.bind (evaluate_judged hJ hE operand hoperand)
    intro v hv
    exact happly v hv
  | .bare, h | .expression _, h | .block _, h | .function _ _ _ _, h | .declaration _ _ _, h
  | .ret _, h | .script _, h => by
    rw [evaluateForm, evaluateForm]
    · exact h
    all_goals simp

theorem evaluateAll_judged (hJ : J.Lawful) (hE : J.Expressions call call' E) :
    (nodes : List Node) → (∀ node ∈ nodes, E node) →
      J.runs false (fun vs => ∀ v ∈ vs, J.value v) (evaluateAll call nodes)
        (evaluateAll call' nodes)
  | [], _ => by rw [evaluateAll, evaluateAll]; exact hJ.pure (List.forall_mem_nil _)
  | node :: rest, h => by
    rw [List.forall_mem_cons] at h
    rw [evaluateAll, evaluateAll]
    apply hJ.bind (evaluate_judged hJ hE node h.1)
    intro v hv
    apply hJ.bind (evaluateAll_judged hJ hE rest h.2)
    intro vs hvs
    exact hJ.pure (List.forall_mem_cons.2 ⟨hv, hvs⟩)

theorem evaluateRest_judged (hJ : J.Lawful) (hE : J.Expressions call call' E) (v : Value ε)
    (hv : J.value v) : (rest : List (String × Node)) →
      (∀ p ∈ rest, E p.2 ∧ ∀ v operand, J.value v → J.value operand →
        J.runs false J.value (ofFailing (v.applyOperator p.1 operand))
          (ofFailing (v.applyOperator p.1 operand))) →
      J.runs false J.value (evaluateRest call v rest) (evaluateRest call' v rest)
  | [], _ => by rw [evaluateRest, evaluateRest]; exact hJ.pure hv
  | (op, node) :: rest, h => by
    obtain ⟨⟨hnode, happly⟩, hrest⟩ := List.forall_mem_cons.1 h
    rw [evaluateRest, evaluateRest]
    apply hJ.bind (evaluate_judged hJ hE node hnode)
    intro operand hoperand
    apply hJ.bind (happly v operand hv hoperand)
    intro u hu
    exact evaluateRest_judged hJ hE u hu rest hrest

end

mutual

/-- What is run is as judged. -/
theorem execute_judged (hJ : J.Lawful) (hS : J.Statements call call' E S) :
    (node : Node) → S node →
      J.runs node.form.defines J.outcome (execute call node) (execute call' node)
  | ⟨loc, form⟩, h => by
    rw [execute, execute]
    exact hS.visits h _ (executeForm_judged hJ hS loc form (hS.form h))

theorem executeForm_judged (hJ : J.Lawful) (hS : J.Statements call call' E S)
    (loc : Option Location) : (form : Form) → J.Executes E S loc form →
      J.runs form.defines J.outcome (executeForm call loc form) (executeForm call' loc form)
  | .script statements, h => by
    rw [executeForm, executeForm]
    exact executeAll_judged hJ hS (.value .null) hJ.null statements h
  | .expression expr, h => by
    rw [executeForm, executeForm]
    exact hJ.bind (evaluate_judged hJ hS.expressions expr h) fun _ hv => hJ.pure hv
  | .block statements, h => by
    rw [executeForm, executeForm]
    exact hJ.nested (executeAll_judged hJ hS (.value .null) hJ.null statements h)
  | .function name params body source, h => by
    rw [executeForm, executeForm]
    exact hJ.bind (declareFunction_judged hJ h) fun _ _ => hJ.pure hJ.null
  | .declaration name value isMutable, h => by
    rw [executeForm, executeForm]
    apply hJ.bind (hJ.defining (evaluate_judged hJ hS.expressions value h))
    intro v hv
    exact hJ.bind (hJ.define hv) fun _ _ => hJ.pure hJ.null
  | .ret none, _ => by rw [executeForm, executeForm]; exact hJ.pure hJ.null
  | .ret (some expr), h => by
    rw [executeForm, executeForm]
    exact hJ.bind (evaluate_judged hJ hS.expressions expr h) fun _ hv => hJ.pure hv
  | .bare, h => by rw [executeForm, executeForm]; exact h
  | .number _, h | .string _, h | .boolean _, h | .null, h | .ident _, h | .member _ _, h
  | .group _, h | .call _ _, h | .ternary _ _ _, h | .assign _ _ _, h | .chain _ _ _, h
  | .unary _ _, h => by
    rw [executeForm, executeForm]
    · exact hJ.bind (evaluate_judged hJ hS.expressions _ h) fun _ hv => hJ.pure hv
    all_goals simp

theorem executeAll_judged (hJ : J.Lawful) (hS : J.Statements call call' E S) (last : Outcome ε)
    (hlast : J.outcome last) : (nodes : List Node) → (∀ node ∈ nodes, S node) →
      J.runs true J.outcome (executeAll call last nodes) (executeAll call' last nodes)
  | [], _ => by rw [executeAll, executeAll]; exact hJ.pure hlast
  | node :: rest, h => by
    rw [List.forall_mem_cons] at h
    rw [executeAll, executeAll]
    apply hJ.bind (hJ.defining (execute_judged hJ hS node h.1))
    intro o ho
    cases o with
    | returned v => exact hJ.pure ho
    | value v => exact executeAll_judged hJ hS (.value v) ho rest h.2

end

/-- The body of a function comes to what it returns, or to null. -/
theorem body_judged (hJ : J.Lawful) (hS : J.Statements call call' E S) {nodes : List Node}
    (h : ∀ node ∈ nodes, S node) :
    J.runs true J.value
      (do
        match ← executeAll call (.value .null) nodes with
        | .returned v => pure v
        | .value _ => pure .null)
      (do
        match ← executeAll call' (.value .null) nodes with
        | .returned v => pure v
        | .value _ => pure .null) := by
  apply hJ.bind (executeAll_judged hJ hS (.value .null) hJ.null nodes h)
  intro o ho
  cases o with
  | returned v => exact hJ.pure ho
  | value v => exact hJ.pure hJ.null

end Eval

end Scriptlet
