import Scriptlet.Proofs.Conduct

/-!
# Recursion needs a function argument

A function body sees its parameters and nothing else, so that a function can only call the functions
of its arguments and those that it declares.  Where no script function is ever passed, the functions
at hand in a body are declared in it, and their declarations nest less deeply than its own: calls
end, and no more of them are open at once than declarations nest
(`calls_end_without_function_arguments`).

`Eval.callGuarded` is the evaluator that refuses to pass script functions.  The level of a function
is the depth to which function declarations nest in it (`Function.nesting`); it drops at every call
(`callWith_levels`).
-/

namespace Scriptlet

set_option autoImplicit false

variable {ε σ : Type}

/-! ## How deeply declarations nest -/

mutual

/-- How deeply function declarations nest in a node. -/
def Node.nesting : Node → Nat
  | ⟨_, form⟩ => form.nesting

/-- How deeply function declarations nest in a form; only statements hold declarations. -/
def Form.nesting : Form → Nat
  | .block statements | .script statements => Node.nestingAll statements
  | .function _ _ body _ => body.nesting + 1
  | _ => 0

/-- How deeply function declarations nest in a function body. -/
def Block.nesting : Block → Nat
  | ⟨_, statements⟩ => Node.nestingAll statements

/-- How deeply function declarations nest in nodes. -/
def Node.nestingAll : List Node → Nat
  | [] => 0
  | node :: rest => max node.nesting (Node.nestingAll rest)

end

theorem Block.nesting_eq (body : Block) : body.nesting = Node.nestingAll body.statements := by
  cases body
  rw [Block.nesting]

/-- How deeply function declarations nest in a function, its own declaration included. -/
def Function.nesting (f : Function ε) : Nat :=
  match f.callback with
  | .script _ function => function.body.nesting + 1
  | _ => 0

mutual

/-- How deeply function declarations nest in the functions of a value. -/
def Value.nesting : Value ε → Nat
  | .object fields => Value.fieldsNesting fields
  | .function f => f.nesting
  | _ => 0

/-- How deeply function declarations nest in the functions of fields. -/
def Value.fieldsNesting : List (Slot ε) → Nat
  | [] => 0
  | ⟨_, _, value⟩ :: rest => max value.nesting (Value.fieldsNesting rest)

end

/-- How deeply function declarations nest in the functions of frames. -/
def Scope.framesNesting : List (List (Slot ε)) → Nat
  | [] => 0
  | frame :: rest => max (Value.fieldsNesting frame) (framesNesting rest)

/-- How deeply function declarations nest in the functions of a world. -/
def World.nesting (w : World ε σ) : Nat :=
  max (Scope.framesNesting w.scope.frames) (Scope.framesNesting w.store.objects)

/-- A function that is not the host's and in which declarations nest at most `n` deep. -/
structure Function.AtLevel (n : Nat) (f : Function ε) : Prop where
  owned : f.Owned
  nesting : f.nesting ≤ n

theorem Function.AtLevel.mono {m n : Nat} (hmn : m ≤ n) {f : Function ε} (h : f.AtLevel m) :
    f.AtLevel n :=
  ⟨h.owned, Nat.le_trans h.nesting hmn⟩

mutual

theorem Node.nesting_declared {g : ScriptFunction} :
    (node : Node) → g ∈ node.declared → g.body.nesting + 1 ≤ node.nesting
  | ⟨_, form⟩, h => by
    rw [Node.nesting]
    exact Form.nesting_declared form h

theorem Form.nesting_declared {g : ScriptFunction} :
    (form : Form) → g ∈ form.declared → g.body.nesting + 1 ≤ form.nesting
  | .block statements, h | .script statements, h => by
    rw [Form.nesting]
    exact Node.nestingAll_declared statements h
  | .function name params body source, h => by
    obtain rfl := List.mem_singleton.1 h
    exact Nat.le_of_eq (by rw [Form.nesting])
  | .bare, h | .number _, h | .string _, h | .boolean _, h | .null, h | .ident _, h | .member _ _, h
  | .group _, h | .call _ _, h | .ternary _ _ _, h | .assign _ _ _, h | .chain _ _ _, h
  | .unary _ _, h | .expression _, h | .declaration _ _ _, h | .ret _, h => nomatch h

theorem Node.nestingAll_declared {g : ScriptFunction} :
    (nodes : List Node) → g ∈ Node.allDeclared nodes → g.body.nesting + 1 ≤ Node.nestingAll nodes
  | [], h => nomatch h
  | node :: rest, h => by
    rw [Node.nestingAll]
    rcases List.mem_append.1 h with h | h
    · have hn := Node.nesting_declared node h
      omega
    · have hn := Node.nestingAll_declared rest h
      omega

end

/-- A declaration makes functions of its own level. -/
theorem ScriptFunction.made_atLevel {g : ScriptFunction} {n : Nat} (h : g.body.nesting + 1 ≤ n)
    (id : Nat) : (g.made id : Function ε).AtLevel n :=
  ⟨fun _ he => (nomatch he), h⟩

mutual

theorem Value.Holds.atLevel {S : Prop} {n : Nat} :
    {v : Value ε} → v.Holds Function.Owned S → v.nesting ≤ n → v.Holds (Function.AtLevel n) S
  | .number _, _, _ | .boolean _, _, _ | .string _, _, _ | .null, _, _ => trivial
  | .object fields, h, hn => by
    rw [Value.nesting] at hn
    exact Value.FieldsHold.atLevel h hn
  | .function f, h, hn => by
    rw [Value.nesting] at hn
    exact ⟨h, hn⟩
  | .shared _ _, h, _ => h

theorem Value.FieldsHold.atLevel {S : Prop} {n : Nat} :
    {fields : List (Slot ε)} → Value.FieldsHold Function.Owned S fields →
      Value.fieldsNesting fields ≤ n → Value.FieldsHold (Function.AtLevel n) S fields
  | [], _, _ => trivial
  | ⟨_, _, value⟩ :: rest, h, hn => by
    rw [Value.fieldsNesting] at hn
    exact ⟨Value.Holds.atLevel h.1 (by omega), Value.FieldsHold.atLevel h.2 (by omega)⟩

end

theorem Scope.framesNesting_atLevel {S : Prop} {n : Nat} {frames : List (List (Slot ε))}
    (hn : Scope.framesNesting frames ≤ n)
    (h : ∀ frame ∈ frames, ∀ slot ∈ frame, slot.value.Holds Function.Owned S) :
    ∀ frame ∈ frames, ∀ slot ∈ frame, slot.value.Holds (Function.AtLevel n) S := by
  induction frames with
  | nil => exact List.forall_mem_nil _
  | cons first rest ih =>
    rw [Scope.framesNesting] at hn
    rw [List.forall_mem_cons] at h ⊢
    refine ⟨?_, ih (by omega) h.2⟩
    exact Value.fieldsHold_iff.1 (.atLevel (Value.fieldsHold_iff.2 h.1) (by omega))

/-- The functions of a world without host functions are at the level of the world. -/
theorem World.Hostless.atLevel {w : World ε σ} (hw : w.Hostless) {n : Nat} (hn : w.nesting ≤ n) :
    w.Holds (Function.AtLevel n) True := by
  rw [World.nesting] at hn
  constructor
  · exact Scope.framesNesting_atLevel (by omega) hw.scope
  · intro _
    have hstore := Store.holds_iff.1 (hw.store trivial)
    exact Store.holds_iff.2 (Scope.framesNesting_atLevel (by omega) hstore)

/-! ## Calls that pass no script function -/

mutual

/-- Whether a value is a script function or holds one.  What a call passes is a copy and shares
nothing, so that shared objects need not be looked into. -/
def Value.holdsScript : Value ε → Bool
  | .object fields => Value.fieldsHoldScript fields
  | .function ⟨.script _ _, _, _⟩ => true
  | _ => false

/-- Whether fields hold a script function. -/
def Value.fieldsHoldScript : List (Slot ε) → Bool
  | [] => false
  | ⟨_, _, value⟩ :: rest => value.holdsScript || Value.fieldsHoldScript rest

end

mutual

/-- What holds no script function is at the lowest level. -/
theorem Value.Every.lowest : {v : Value ε} → v.Every Function.Owned → v.holdsScript = false →
    v.Every (Function.AtLevel 0)
  | .number _, _, _ | .boolean _, _, _ | .string _, _, _ | .null, _, _ => trivial
  | .object fields, h, hs => by
    rw [Value.holdsScript] at hs
    exact Value.EveryField.lowest h hs
  | .function ⟨.builtin _, _, _⟩, h, _ | .function ⟨.host _, _, _⟩, h, _ => ⟨h, Nat.le_refl 0⟩
  | .function ⟨.script _ _, _, _⟩, _, hs => nomatch hs

theorem Value.EveryField.lowest : {fields : List (Slot ε)} →
    Value.EveryField Function.Owned fields → Value.fieldsHoldScript fields = false →
    Value.EveryField (Function.AtLevel 0) fields
  | [], _, _ => trivial
  | ⟨_, _, _⟩ :: _, h, hs => by
    rw [Value.fieldsHoldScript, Bool.or_eq_false_iff] at hs
    exact ⟨Value.Every.lowest h.1 hs.1, Value.EveryField.lowest h.2 hs.2⟩

end

namespace Eval

open Exec

variable [BEq ε]

/-- Refuses to pass script functions. -/
def guarded (refusal : Breakdown) (call : Caller ε σ) : Caller ε σ := fun f args =>
  if args.any Value.holdsScript then breakDown refusal else call f args

/-- The evaluator that refuses to pass script functions.  Where `limit` calls of script functions
are open, one more is up to `beyond`. -/
def callGuarded (host : Host ε σ) (refusal : Breakdown) (beyond : Caller ε σ) :
    (limit : Nat) → Caller ε σ
  | 0 => guarded refusal fun f args =>
    match f.callback with
    | .script _ _ => beyond f args
    | _ => callWith host beyond f args
  | limit + 1 => guarded refusal (callWith host (callGuarded host refusal beyond limit))

variable {S : Prop} {T : Path → Prop} {X : Breakdown → Prop}
  {call call' : Caller ε σ}

/-- A call that passes no script function makes calls of a lower level only. -/
theorem callWith_levels (host : Host ε σ) {n : Nat}
    (hc : ∀ m < n,
      FollowingCallers (.failing (Function.AtLevel m) False (fun _ => True) X) call call')
    {f : Function ε} (hf : f.AtLevel n) {args : List (Value ε)}
    (hargs : ∀ v ∈ args, v.Every (Function.AtLevel 0)) :
    Follows (.failing (Function.AtLevel n) S T X) false (Value.Every (Function.AtLevel n))
      (callWith host call f args) (callWith host call' f args) := by
  have hbelow : ∀ id g, f.callback = .script id g → g.body.nesting < n := by
    intro id g hg
    have hn := hf.nesting
    rw [Function.nesting, hg] at hn
    exact hn
  refine callWith_follows host (Function.AtLevel (n - 1)) hf.owned ?_ ?_ ?_
  · intro v hv
    exact (hargs v hv).imp fun _ hg => hg.mono (Nat.zero_le _)
  · exact fun g hg => hg.mono (Nat.sub_le n 1)
  · intro id g hg
    have hlt := hbelow id g hg
    refine ⟨fun _ _ => trivial, ?_, hc (n - 1) (by omega)⟩
    intro h hh k
    have hnest := Node.nestingAll_declared g.body.statements hh
    rw [Block.nesting_eq] at hlt
    exact ScriptFunction.made_atLevel (by omega) k

/-- A guarded call makes calls of a lower level only.  The other call may be without the guard, if a
refusal is where the two may part. -/
theorem guarded_levels (host : Host ε σ) (refusal : Breakdown) {n : Nat}
    (hc : ∀ m < n,
      FollowingCallers (.failing (Function.AtLevel m) False (fun _ => True) X) call call')
    {f : Function ε} (hf : f.AtLevel n) {args : List (Value ε)}
    (hargs : ∀ v ∈ args, v.Every (Function.AtLevel n)) {other : Exec ε σ (Value ε)}
    (ho : other = guarded refusal (callWith host call') f args ∨
      X refusal ∧ other = callWith host call' f args) :
    Follows (.failing (Function.AtLevel n) S T X) false (Value.Every (Function.AtLevel n))
      (guarded refusal (callWith host call) f args) other := by
  rw [guarded] at ho ⊢
  by_cases hs : args.any Value.holdsScript
  · rw [if_pos hs] at ho ⊢
    rcases ho with rfl | ⟨hX, rfl⟩
    · exact .throw trivial
    · exact .part hX trivial
  · rw [if_neg hs] at ho ⊢
    have hlowest : ∀ v ∈ args, v.Every (Function.AtLevel 0) := by
      intro v hv
      have howned : v.Every Function.Owned := (hargs v hv).imp fun _ hg => hg.owned
      apply howned.lowest
      rw [List.any_eq_true] at hs
      exact Bool.eq_false_iff.2 fun hv' => hs ⟨v, hv, hv'⟩
    obtain rfl : other = callWith host call' f args := ho.elim id fun h => h.2
    exact callWith_levels host hc hf hlowest

/-- Within the limit a call goes on with one call less, if it goes on at all. -/
theorem callGuarded_eq (host : Host ε σ) (refusal : Breakdown) (beyond : Caller ε σ) {n limit : Nat}
    (hn : n ≤ limit) {f : Function ε} (hf : f.AtLevel n) (args : List (Value ε)) :
    ∃ inner, (0 < n → inner = callGuarded host refusal beyond (limit - 1)) ∧
      callGuarded host refusal beyond limit f args =
        guarded refusal (callWith host inner) f args := by
  cases limit with
  | zero =>
    refine ⟨beyond, fun h => by omega, ?_⟩
    have hlow := Nat.le_trans hf.nesting hn
    rw [callGuarded, guarded, guarded]
    cases hcb : f.callback with
    | script id g =>
      rw [Function.nesting, hcb] at hlow
      exact nomatch hlow
    | builtin b => rfl
    | host e => rfl
  | succ limit => exact ⟨_, fun _ => rfl, rfl⟩

/-- How a call goes on beyond the limit does not matter, nor does the limit, if both are within the
level of the functions.  The induction is on the level. -/
theorem callGuarded_settled (host : Host ε σ) (refusal : Breakdown) (beyond beyond' : Caller ε σ)
    {n limit limit' : Nat} (hn : n ≤ limit) (hn' : n ≤ limit') :
    FollowingCallers (.failing (Function.AtLevel n) S T X) (callGuarded host refusal beyond limit)
      (callGuarded host refusal beyond' limit') := by
  induction n using Nat.strongRecOn generalizing limit limit' S T with
  | ind n ih =>
    intro f args hf hargs
    obtain ⟨inner, hinner, heq⟩ := callGuarded_eq host refusal beyond hn hf args
    obtain ⟨inner', hinner', heq'⟩ := callGuarded_eq host refusal beyond' hn' hf args
    rw [heq, heq']
    refine guarded_levels host refusal ?_ hf hargs (.inl rfl)
    intro m hm
    rw [hinner (by omega), hinner' (by omega)]
    exact ih m hm (by omega) (by omega)

/-- Until it is refused, a guarded call goes on like any other. -/
theorem callGuarded_callFunction (host : Host ε σ) (refusal : Breakdown) (beyond : Caller ε σ)
    {n limit depth : Nat} (hn : n ≤ limit) (hd : n < depth) :
    FollowingCallers (.failing (Function.AtLevel n) S T (· = refusal))
      (callGuarded host refusal beyond limit) (callFunction host depth) := by
  induction n using Nat.strongRecOn generalizing limit depth S T with
  | ind n ih =>
    intro f args hf hargs
    obtain ⟨inner, hinner, heq⟩ := callGuarded_eq host refusal beyond hn hf args
    obtain ⟨depth, rfl⟩ : ∃ d, depth = d + 1 := ⟨depth - 1, by omega⟩
    rw [heq, callFunction_succ]
    refine guarded_levels host refusal ?_ hf hargs (.inr ⟨rfl, rfl⟩)
    intro m hm
    rw [hinner (by omega)]
    exact ih m hm (by omega) (by omega)

end Eval

open Eval in
/-- The evaluator that refuses to pass script functions comes to an end that does not depend on how
many calls may be open, as soon as that is the depth to which function declarations nest in the node
and in the functions of the world; what lies beyond is never reached.  Unless it refuses a call, the
evaluator without the guard comes to the same end. -/
theorem calls_end_without_function_arguments [BEq ε] (host : Host ε σ) (refusal : Breakdown)
    (node : Node) {w : World ε σ} (hw : w.Hostless) :
    ∃ r, (∀ beyond limit, max node.nesting w.nesting ≤ limit →
        (execute (callGuarded host refusal beyond limit) node).outcome w = r) ∧
      (r.1 ≠ .error (.breakdown refusal) → ∀ depth, max node.nesting w.nesting < depth →
        (execute (callFunction host depth) node).outcome w = r) := by
  obtain ⟨n, hn⟩ : ∃ n, n = max node.nesting w.nesting := ⟨_, rfl⟩
  have hlevel : w.Holds (Function.AtLevel n) True := hw.atLevel (by omega)
  have hdeclared : ∀ g ∈ node.declared, ∀ id, (g.made id : Function ε).AtLevel n := by
    intro g hg id
    have hnest := node.nesting_declared hg
    exact ScriptFunction.made_atLevel (by omega) id
  rw [← hn]
  let stop : Caller ε σ := fun _ _ => Exec.breakDown .callDepth
  refine ⟨(execute (callGuarded host refusal stop n) node).outcome w, ?_, ?_⟩
  · intro beyond limit hlimit
    have hc := callGuarded_settled (S := True) (T := fun _ => True) (X := fun _ => False)
      host refusal stop beyond (Nat.le_refl n) hlimit
    have hcourse := execute_follows hc node (fun _ _ => trivial) (fun _ _ => trivial) hdeclared w
      hlevel
    exact hcourse.same.resolve_right fun ⟨_, h, _⟩ => h
  · intro hr depth hdepth
    have hc := callGuarded_callFunction (S := True) (T := fun _ => True) host refusal stop
      (Nat.le_refl n) hdepth
    have hcourse := execute_follows hc node (fun _ _ => trivial) (fun _ _ => trivial) hdeclared w
      hlevel
    exact hcourse.same.resolve_right fun ⟨b, hb, h⟩ => hr (hb ▸ h)

/-- The script `function f() { function g() { return 1; } return g(); } f();`. -/
def nestedFunctions : Node :=
  let call (name : String) : Node := ⟨none, .call ⟨none, .ident name⟩ []⟩
  let inner : Node := ⟨none, .function "g" [] ⟨none, [⟨none, .ret (some ⟨none, .number "1"⟩)⟩]⟩ ""⟩
  let outer : Node := ⟨none, .function "f" [] ⟨none, [inner, ⟨none, .ret (some (call "g"))⟩]⟩ ""⟩
  ⟨none, .script [outer, ⟨none, .expression (call "f")⟩]⟩

open Eval in
/-- Declarations nest two deep, and two calls are open at once: with one call a limit is hit, with
two or more the script comes to its end. -/
theorem calls_end_without_function_arguments_nested :
    let w : World Empty Unit := .initial ()
    let refusal : Breakdown := .exception "refused" "a script function is passed"
    let stop : Caller Empty Unit := fun _ _ => Exec.breakDown .callDepth
    let guarded (beyond : Caller Empty Unit) (limit : Nat) :=
      (execute (callGuarded Host.none refusal beyond limit) nestedFunctions).outcome w
    w.Hostless ∧ max nestedFunctions.nesting w.nesting = 2 ∧ (guarded stop 1).1.isOk = false ∧
      (∀ beyond limit, 2 ≤ limit → (guarded beyond limit).1.isOk = true) ∧
      ∀ depth, 2 < depth →
        ((execute (callFunction Host.none depth) nestedFunctions).outcome w).1.isOk = true := by
  intro w refusal stop guarded
  have hw : w.Hostless := by
    refine ⟨Scope.All.empty, fun _ place slot hslot => ?_⟩
    simp [w, World.initial, Store.empty, Store.fields] at hslot
  have hnesting : max nestedFunctions.nesting w.nesting = 2 := rfl
  obtain ⟨r, hguarded, hfree⟩ :=
    calls_end_without_function_arguments Host.none refusal nestedFunctions hw
  rw [hnesting] at hguarded hfree
  have hr : r.1.isOk = true := by
    rw [← hguarded stop 2 (Nat.le_refl 2)]
    decide +kernel
  have hdone : r.1 ≠ .error (.breakdown refusal) := by
    intro he
    rw [he] at hr
    cases hr
  refine ⟨hw, hnesting, by decide +kernel, ?_, ?_⟩
  · intro beyond limit hlimit
    rw [show guarded beyond limit = r from hguarded beyond limit hlimit, hr]
  · intro depth hdepth
    rw [hfree hdone depth hdepth, hr]

end Scriptlet
