import Scriptlet.Proofs.Holding
import Scriptlet.Proofs.Judgements
import Scriptlet.Proofs.Raising

/-!
# What a run may do

A run changes a scope by definitions and assignments, one after the other, and by blocks, whose
frame is gone afterwards; `Scope.Becomes` lists these changes.  An expression only assigns, and only
along the paths that stand left of an assignment in it (`evaluate_follows`); a statement may also
define (`execute_follows`).  A call changes nothing of its scope (`callWith_follows`).  A run fails
in an ordinary way, or as the text of its code raises.  All this holds whether it succeeds or fails.

`Exec.Follows` also compares two computations that call functions in different ways.  They come to
the same end, unless the first one breaks down in a way in which it may part from the other.
-/

namespace Scriptlet

set_option autoImplicit false

variable {ε σ : Type} {P : Function ε → Prop}

/-! ## Changes of a scope -/

/-- How a run may change a scope: it assigns values along paths in `T`, adds slots to the top frame
if `defines`, and runs blocks, each in a frame of its own.  New values hold functions with `P` and
share nothing. -/
inductive Scope.Becomes [BEq ε] (P : Function ε → Prop) (T : Path → Prop) :
    (defines : Bool) → Scope ε → Scope ε → Prop
  | done {defines : Bool} (s : Scope ε) : Becomes P T defines s s
  | assign {defines : Bool} {s t u : Scope ε} {store store' : Store ε} {path : Path} {op : String}
      {v : Value ε} : T path → v.Every P →
      s.modify store path (Eval.assigned op v) = .ok (t, store') →
      Becomes P T defines t u → Becomes P T defines s u
  | define {s t u : Scope ε} {slot : Slot ε} : slot.value.Every P → s.define slot = .ok t →
      Becomes P T true t u → Becomes P T true s u
  | block {defines : Bool} {s t u : Scope ε} : Becomes P T true s.push t →
      Becomes P T defines t.pop u → Becomes P T defines s u

namespace Scope.Becomes

variable [BEq ε] {T : Path → Prop} {defines : Bool} {s t u : Scope ε}

theorem trans (h : s.Becomes P T defines t) (h' : t.Becomes P T defines u) :
    s.Becomes P T defines u := by
  induction h with
  | done s => exact h'
  | assign ht hv hm _ ih => exact .assign ht hv hm (ih h')
  | define hv hd _ ih => exact .define hv hd (ih h')
  | block hb _ _ ih => exact .block hb (ih h')

/-- What a run does without definitions, it may do where definitions are allowed. -/
theorem defining (h : s.Becomes P T defines t) : s.Becomes P T true t := by
  induction h with
  | done s => exact .done s
  | assign ht hv hm _ ih => exact .assign ht hv hm ih
  | define hv hs _ ih => exact .define hv hs ih
  | block hb _ _ ih => exact .block hb ih

end Scope.Becomes

/-! ## Computations -/

/-- The terms of a run: the functions that are at hand, whether objects may be shared, the paths
along which it assigns, the ways in which it may fail, the ordinary ones among them, and the
breakdowns by which it may part from another run. -/
structure Terms (ε : Type) where
  function : Function ε → Prop
  shares : Prop
  target : Path → Prop
  fails : Failure → Prop
  ordinary : ∀ failure, failure.Ordinary → fails failure
  parts : Breakdown → Prop

/-- Terms under which a run may fail in any way. -/
def Terms.failing (function : Function ε → Prop) (shares : Prop) (target : Path → Prop)
    (parts : Breakdown → Prop) : Terms ε :=
  ⟨function, shares, target, fun _ => True, fun _ _ => trivial, parts⟩

/-- The terms in a function body, where functions with `P` are at hand.  Nothing is shared there. -/
def Terms.inside (π : Terms ε) (P : Function ε → Prop) : Terms ε :=
  { π with function := P, shares := False, target := fun _ => True }

/-- A failure that is ordinary or comes from the text is allowed if that of the text is. -/
theorem Terms.allows (π : Terms ε) {raises : Failure → Prop} {failure : Failure}
    (hr : ∀ failure, raises failure → π.fails failure) (h : failure.Ordinary ∨ raises failure) :
    π.fails failure :=
  h.elim (π.ordinary failure) (hr failure)

namespace Exec

variable [BEq ε] {α β : Type}

/-- An end `r` of a run that began in the world `w`, and the end of another run. -/
structure Course (π : Terms ε) (defines : Bool) (Q : α → Prop) (w : World ε σ)
    (r other : Except (Fault ε) α × World ε σ) : Prop where
  holds : r.2.Holds π.function π.shares
  scope : w.scope.Becomes π.function π.target defines r.2.scope
  store : π.shares ∨ r.2.store = w.store
  result : ∀ a, r.1 = .ok a → Q a
  failure : ∀ e, r.1 = .error e → π.fails e.failure
  same : other = r ∨ ∃ b, π.parts b ∧ r.1 = .error (.breakdown b)

/-- `x` keeps to the terms `π`, and `y` comes to the same end unless `x` may part from it. -/
def Follows (π : Terms ε) (defines : Bool) (Q : α → Prop) (x y : Exec ε σ α) : Prop :=
  ∀ w, w.Holds π.function π.shares → Course π defines Q w (x.outcome w) (y.outcome w)

namespace Follows

variable {π : Terms ε} {defines : Bool} {Q R : α → Prop} {x y : Exec ε σ α}

/-- A computation that leaves the scope and the store alone. -/
theorem of_still (hx : ∀ w, (x.outcome w).2.scope = w.scope ∧ (x.outcome w).2.store = w.store)
    (hr : ∀ w a, w.Holds π.function π.shares → (x.outcome w).1 = .ok a → Q a)
    (he : ∀ w e, w.Holds π.function π.shares → (x.outcome w).1 = .error e → π.fails e.failure) :
    Follows π defines Q x x := by
  intro w hw
  obtain ⟨hscope, hstore⟩ := hx w
  refine ⟨⟨?_, ?_⟩, ?_, .inr hstore, fun a => hr w a hw, fun e => he w e hw, .inl rfl⟩
  · rw [hscope]
    exact hw.scope
  · rw [hstore]
    exact hw.store
  · rw [hscope]
    exact .done _

theorem pure {a : α} (h : Q a) : Follows π defines Q (pure a : Exec ε σ α) (pure a) := by
  refine of_still (fun _ => ⟨rfl, rfl⟩) ?_ fun _ _ _ he => nomatch he
  intro w b _ hb
  exact Except.ok.inj hb ▸ h

theorem throw {e : Fault ε} (h : π.fails e.failure) :
    Follows π defines Q (throw e : Exec ε σ α) (throw e) := by
  refine of_still (fun _ => ⟨rfl, rfl⟩) (fun _ _ _ ha => nomatch ha) ?_
  intro w e' _ he
  exact Except.error.inj he ▸ h

theorem fail {cause : Cause} (h : cause.kind ≠ .parse) :
    Follows π defines Q (fail cause : Exec ε σ α) (fail cause) :=
  throw (π.ordinary _ h)

/-- A run may break down where the other one goes on, if that is how they may part. -/
theorem part {b : Breakdown} (hb : π.parts b) (hf : π.fails (.breakdown b)) :
    Follows π defines Q (breakDown b : Exec ε σ α) y := by
  intro w hw
  refine ⟨hw, .done _, .inr rfl, fun _ ha => (nomatch ha), ?_, .inr ⟨b, hb, rfl⟩⟩
  intro e he
  exact Except.error.inj he ▸ hf

theorem ofExcept {r : Except Cause α} (h : ∀ a, r = .ok a → Q a)
    (he : ∀ cause, r = .error cause → π.fails (.error cause)) :
    Follows π defines Q (ofExcept r : Exec ε σ α) (ofExcept r) := by
  cases r with
  | ok a => exact pure (h a rfl)
  | error cause => exact throw (he cause rfl)

theorem ofFailing {r : Except Failure α} (h : ∀ a, r = .ok a → Q a)
    (he : ∀ failure, r = .error failure → π.fails failure) :
    Follows π defines Q (ofFailing r : Exec ε σ α) (ofFailing r) := by
  cases r with
  | ok a => exact pure (h a rfl)
  | error failure =>
    refine throw ?_
    rw [Fault.failure_ofFailure]
    exact he failure rfl

theorem visit (node : Node) :
    Follows π defines (fun _ => True) (visit node : Exec ε σ Unit) (visit node) :=
  of_still (fun _ => ⟨rfl, rfl⟩) (fun _ _ _ _ => trivial) fun _ _ _ he => nomatch he

theorem emit (effect : Effect) :
    Follows π defines (fun _ => True) (emit effect : Exec ε σ Unit) (emit effect) :=
  of_still (fun _ => ⟨rfl, rfl⟩) (fun _ _ _ _ => trivial) fun _ _ _ he => nomatch he

theorem fresh : Follows π defines (fun _ => True) (fresh : Exec ε σ Nat) fresh :=
  of_still (fun _ => ⟨rfl, rfl⟩) (fun _ _ _ _ => trivial) fun _ _ _ he => nomatch he

theorem resolve {path : Path} (hp : ∀ failure, path.Raises failure → π.fails failure) :
    Follows π defines (fun slot => slot.value.Holds π.function π.shares)
      (resolve path : Exec ε σ (Slot ε)) (resolve path) := by
  apply of_still
  · intro w
    rw [outcome_resolve]
    exact ⟨rfl, rfl⟩
  · intro w slot hw hs
    rw [outcome_resolve] at hs
    exact hw.resolve (mapError_eq_ok.1 hs)
  · intro w e _ he
    rw [outcome_resolve] at he
    obtain ⟨cause, hc, rfl⟩ := mapError_eq_error.1 he
    exact π.allows hp (Scope.resolve_error hc)

/-- What is read is a copy. -/
theorem read {path : Path} (hp : ∀ failure, path.Raises failure → π.fails failure) :
    Follows π defines (Value.Every π.function) (read path : Exec ε σ (Value ε)) (read path) := by
  apply of_still
  · intro w
    rw [outcome_read]
    exact ⟨rfl, rfl⟩
  · intro w v hw hv
    obtain ⟨slot, hs, hc⟩ := read_eq_ok hv
    exact Store.every_copy hw.store (hw.resolve hs) hc
  · intro w e _ he
    rcases read_eq_error he with ⟨cause, hs, rfl⟩ | ⟨slot, b, hb, rfl⟩
    · exact π.allows hp (Scope.resolve_error hs)
    · exact π.ordinary _ (Store.copy_error hb)

theorem bind {f g : α → Exec ε σ β} {R : β → Prop} (hx : Follows π defines Q x y)
    (hf : ∀ a, Q a → Follows π defines R (f a) (g a)) :
    Follows π defines R (x >>= f) (y >>= g) := by
  intro w hw
  have h := hx w hw
  rw [outcome_bind, outcome_bind]
  generalize x.outcome w = r, y.outcome w = other at h
  obtain ⟨e | a, after⟩ := r
  · refine ⟨h.holds, h.scope, h.store, fun _ hb => (nomatch hb), ?_, ?_⟩
    · intro e' he
      exact h.failure e' (congrArg Except.error (Except.error.inj he))
    · rcases h.same with rfl | ⟨b, hb, he⟩
      · exact .inl rfl
      · cases he
        exact .inr ⟨b, hb, rfl⟩
  · have h' := hf a (h.result a rfl) after h.holds
    refine ⟨h'.holds, h.scope.trans h'.scope, ?_, h'.result, h'.failure, ?_⟩
    · rcases h.store with hS | hstore
      · exact .inl hS
      · exact h'.store.imp_right fun hstore' => hstore'.trans hstore
    · rcases h.same with rfl | ⟨b, _, he⟩
      · exact h'.same
      · exact nomatch he

theorem adapt {f : Store ε → Fault ε → Fault ε} (hx : Follows π defines Q x y)
    (hf : ∀ store e, (f store e).failure = e.failure) :
    Follows π defines Q (adapt f x) (adapt f y) := by
  intro w hw
  have h := hx w hw
  rw [outcome_adapt, outcome_adapt]
  refine ⟨h.holds, h.scope, h.store, fun a ha => h.result a (mapError_eq_ok.1 ha), ?_, ?_⟩
  · intro e he
    obtain ⟨e', he', rfl⟩ := mapError_eq_error.1 he
    rw [hf]
    exact h.failure e' he'
  · rcases h.same with hsame | ⟨b, hb, he⟩
    · exact .inl (by rw [hsame])
    · right
      refine ⟨b, hb, ?_⟩
      rw [he]
      exact congrArg Except.error (Fault.eq_breakdown (hf _ (.breakdown b)))

theorem located (loc : Option Location) (hx : Follows π defines Q x y) :
    Follows π defines Q (located loc x) (located loc y) :=
  hx.adapt fun _ _ => Fault.failure_attach loc _

/-- What a run does without definitions, it may do where definitions are allowed. -/
theorem defining (hx : Follows π defines Q x y) : Follows π true Q x y := by
  intro w hw
  have h := hx w hw
  exact { h with scope := h.scope.defining }

theorem define {slot : Slot ε} (h : slot.value.Every π.function) :
    Follows π true (fun _ => True) (define slot : Exec ε σ Unit) (define slot) := by
  intro w hw
  rw [outcome_define]
  split
  · next scope hd =>
    have hscope : scope.Holds π.function π.shares := Scope.All.define hw.scope h.holds hd
    exact ⟨⟨hscope, hw.store⟩, .define h hd (.done _), .inr rfl, fun _ _ => trivial,
      fun _ he => (nomatch he), .inl rfl⟩
  · next cause hd =>
    refine ⟨hw, .done _, .inr rfl, fun _ _ => trivial, ?_, .inl rfl⟩
    intro e he
    obtain rfl := Except.error.inj he
    exact π.ordinary _ (Scope.define_error hd)

/-- An assignment is along a path that may be assigned, and by an operator that the language has or
that may fail. -/
theorem modifySlot {path : Path} (hpath : π.target path)
    (hp : ∀ failure, path.Raises failure → π.fails failure) {op : String}
    (hop : ∀ failure,
      Unsupported.Raises .assignment assignmentOperators op failure → π.fails failure)
    {v : Value ε} (hv : v.Every π.function) :
    Follows π defines (fun _ => True) (modifySlot path (Eval.assigned op v) : Exec ε σ Unit)
      (modifySlot path (Eval.assigned op v)) := by
  intro w hw
  rw [outcome_modifySlot]
  split
  · next scope store hm =>
    obtain ⟨hholds, hstore⟩ := hw.modify (Eval.assigned_holds hv) hm
    exact ⟨hholds, .assign hpath hv hm (.done _), hstore, fun _ _ => trivial,
      fun _ he => (nomatch he), .inl rfl⟩
  · next failure hm =>
    refine ⟨hw, .done _, .inr rfl, fun _ _ => trivial, ?_, .inl rfl⟩
    intro e he
    obtain rfl := Except.error.inj he
    rw [Fault.failure_ofFailure]
    rcases Scope.modify_error hm with h | h | ⟨slot, h⟩
    · exact π.ordinary failure h
    · exact hp failure h
    · exact π.allows hop (Eval.assigned_error h)

/-- The definitions of a block are gone after it. -/
theorem nested (hx : Follows π true Q x y) : Follows π defines Q (nested x) (nested y) := by
  intro w hw
  rw [outcome_nested, outcome_nested]
  have hpush : { w with scope := w.scope.push }.Holds π.function π.shares :=
    ⟨Scope.All.push hw.scope, hw.store⟩
  have h := hx _ hpush
  refine ⟨⟨Scope.All.pop h.holds.scope, h.holds.store⟩, .block h.scope (.done _), h.store, h.result,
    h.failure, ?_⟩
  exact h.same.imp_left fun hsame => by rw [hsame]

theorem copyAll {P : Function ε → Prop} {vs : List (Value ε)} (h : ∀ v ∈ vs, v.Every P) :
    Follows π defines (fun own => own = vs) (copyAll vs : Exec ε σ (List (Value ε)))
      (copyAll vs) := by
  apply of_still
  · intro w
    rw [outcome_copyAll]
    exact ⟨rfl, rfl⟩
  · intro w own _ hown
    rw [outcome_copyAll, Store.copyAll_every h] at hown
    exact (Except.ok.inj hown).symm
  · intro w e _ he
    rw [outcome_copyAll, Store.copyAll_every h] at he
    exact nomatch he

/-- A computation on its own leaves no trace in the scope around it.  Nothing is shared in its own
scope, so that it does not touch the store. -/
theorem isolated {P : Function ε → Prop} {scope : Scope ε} (hs : scope.Holds P False)
    (hx : Follows (π.inside P) true Q x y) :
    Follows π defines Q (isolated scope x) (isolated scope y) := by
  intro w hw
  rw [outcome_isolated, outcome_isolated]
  have h := hx { w with scope, visited := none } ⟨hs, False.elim⟩
  have hstore := h.store.resolve_left id
  refine ⟨⟨hw.scope, ?_⟩, .done _, .inr hstore, h.result, h.failure, ?_⟩
  · rw [hstore]
    exact hw.store
  · exact h.same.imp_left fun hsame => by rw [hsame]

end Follows

end Exec

/-! ## Assignments and declarations of a program -/

mutual

/-- The paths left of the assignments in a node; function bodies do not count. -/
def Node.targets : Node → List Path
  | ⟨_, form⟩ => form.targets

/-- The paths left of the assignments in a form; function bodies do not count. -/
def Form.targets : Form → List Path
  | .bare | .number _ | .string _ | .boolean _ | .null | .ident _ => []
  | .function _ _ _ _ | .ret none => []
  | .member object member => object.targets ++ member.targets
  | .group expr | .unary _ expr | .expression expr | .declaration _ expr _ | .ret (some expr) =>
    expr.targets
  | .call callee args => callee.targets ++ Node.allTargets args
  | .ternary condition thenBranch elseBranch =>
    condition.targets ++ (thenBranch.targets ++ elseBranch.targets)
  | .assign target _ value => target.path :: (target.targets ++ value.targets)
  | .chain _ first rest => first.targets ++ Node.operandTargets rest
  | .block statements | .script statements => Node.allTargets statements

/-- The paths left of the assignments in nodes. -/
def Node.allTargets : List Node → List Path
  | [] => []
  | node :: rest => node.targets ++ Node.allTargets rest

/-- The paths left of the assignments in operands. -/
def Node.operandTargets : List (String × Node) → List Path
  | [] => []
  | (_, node) :: rest => node.targets ++ Node.operandTargets rest

end

mutual

/-- The functions that a node declares when it is run, those of inner blocks included. -/
def Node.declared : Node → List ScriptFunction
  | ⟨_, form⟩ => form.declared

/-- The functions that a form declares when it is run. -/
def Form.declared : Form → List ScriptFunction
  | .block statements | .script statements => Node.allDeclared statements
  | .function name params body source => [⟨name, params, body, source⟩]
  | _ => []

/-- The functions that nodes declare when they are run. -/
def Node.allDeclared : List Node → List ScriptFunction
  | [] => []
  | node :: rest => node.declared ++ Node.allDeclared rest

end

/-! ## Code that keeps to the terms -/

namespace Terms

variable (π : Terms ε)

/-- What an expression assigns and raises is within the terms. -/
def Expression (node : Node) : Prop :=
  (∀ path ∈ node.targets, π.target path) ∧ ∀ failure, node.Raises failure → π.fails failure

/-- What a statement assigns, raises and declares is within the terms. -/
def Statement (node : Node) : Prop :=
  (∀ path ∈ node.targets, π.target path) ∧ (∀ failure, node.RunRaises failure → π.fails failure) ∧
    ∀ g ∈ node.declared, ∀ id, π.function (g.made id)

variable {π}

theorem expressions {nodes : List Node} (ht : ∀ path ∈ Node.allTargets nodes, π.target path)
    (hr : ∀ failure, Node.AnyRaises failure nodes → π.fails failure) :
    ∀ node ∈ nodes, π.Expression node := by
  induction nodes with
  | nil => exact List.forall_mem_nil _
  | cons node rest ih =>
    rw [Node.allTargets, List.forall_mem_append] at ht
    simp only [Node.AnyRaises, or_imp, forall_and] at hr
    exact List.forall_mem_cons.2 ⟨⟨ht.1, hr.1⟩, ih ht.2 hr.2⟩

theorem operands {rest : List (String × Node)}
    (ht : ∀ path ∈ Node.operandTargets rest, π.target path)
    (hr : ∀ failure, Node.OperandsRaise failure rest → π.fails failure) :
    ∀ p ∈ rest, π.Expression p.2 ∧
      ∀ failure, Unsupported.Raises .operator binaryOperators p.1 failure → π.fails failure := by
  induction rest with
  | nil => exact List.forall_mem_nil _
  | cons p rest ih =>
    rw [Node.operandTargets, List.forall_mem_append] at ht
    simp only [Node.OperandsRaise, or_imp, forall_and] at hr
    exact List.forall_mem_cons.2 ⟨⟨⟨ht.1, hr.1⟩, hr.2.1⟩, ih ht.2 hr.2.2⟩

theorem statements {nodes : List Node} (ht : ∀ path ∈ Node.allTargets nodes, π.target path)
    (hr : ∀ failure, Node.AnyRunRaises failure nodes → π.fails failure)
    (hd : ∀ g ∈ Node.allDeclared nodes, ∀ id, π.function (g.made id)) :
    ∀ node ∈ nodes, π.Statement node := by
  induction nodes with
  | nil => exact List.forall_mem_nil _
  | cons node rest ih =>
    rw [Node.allTargets, List.forall_mem_append] at ht
    rw [Node.allDeclared, List.forall_mem_append] at hd
    simp only [Node.AnyRunRaises, or_imp, forall_and] at hr
    exact List.forall_mem_cons.2 ⟨⟨ht.1, hr.1, hd.1⟩, ih ht.2 hr.2 hd.2⟩

end Terms

/-! ## Evaluation -/

namespace Eval

open Exec

variable [BEq ε] {π : Terms ε} {call call' : Caller ε σ}

/-- Two ways to call functions that are at hand, the first of which keeps to the terms `π`. -/
def FollowingCallers (π : Terms ε) (call call' : Caller ε σ) : Prop :=
  ∀ f args, π.function f → (∀ v ∈ args, v.Every π.function) →
    Follows π false (Value.Every π.function) (call f args) (call' f args)

/-- What a statement comes to holds functions that are at hand. -/
def HeldOutcome (π : Terms ε) (o : Outcome ε) : Prop :=
  o.unwrap.Every π.function

omit [BEq ε] in
theorem asFunction_holds {P : Function ε → Prop} {S : Prop} {slot : Slot ε} {f : Function ε}
    (h : slot.value.Holds P S) (hf : asFunction slot = .ok f) : P f := by
  rw [asFunction_eq hf] at h
  exact h

theorem invoke_follows (hc : FollowingCallers π call call') {f : Function ε} (hf : π.function f)
    {args : List (Value ε)} (hargs : ∀ v ∈ args, v.Every π.function) (site : Option Location) :
    Follows π false (Value.Every π.function) (invoke call f args site)
      (invoke call' f args site) := by
  refine (hc f args hf hargs).adapt ?_
  intro store e
  rw [outOf, Store.copyAll_every hargs]
  exact Fault.failure_through _ e

/-- The terms as a judgement of runs. -/
def following (π : Terms ε) : Judgement ε σ σ where
  value := Value.Every π.function
  slot slot := slot.value.Holds π.function π.shares
  function := π.function
  runs defines _ Q x y := Follows π defines Q x y

theorem following_lawful : (following π : Judgement ε σ σ).Lawful where
  null := trivial
  callee := asFunction_holds
  pure := .pure
  bind := .bind
  fail := .fail
  fresh := .fresh
  define := .define
  nested := .nested
  defining := .defining

theorem following_expressions (hc : FollowingCallers π call call') :
    (following π).Expressions call call' π.Expression where
  visits _ _ _ _ _ _ hx := (Follows.visit _).bind fun _ _ => hx.located _
  form {loc form} h := by
    obtain ⟨ht, hr⟩ := h
    rw [Node.targets] at ht
    simp only [Node.Raises] at hr
    cases form with
    | ident name => exact .read fun _ h => (Path.not_raises_name h).elim
    | member object member => exact .read hr
    | group expr => exact ⟨ht, hr⟩
    | number text => exact .ofFailing (fun _ _ => trivial) hr
    | string text | boolean text =>
      exact .ofExcept (fun _ _ => trivial) fun cause h => hr _ (mapError_eq_error.2 ⟨cause, h, rfl⟩)
    | null => trivial
    | call callee args =>
      rw [Form.targets, List.forall_mem_append] at ht
      simp only [Form.Raises, or_imp, forall_and] at hr
      exact ⟨.resolve hr.1, Terms.expressions ht.2 hr.2,
        fun f values hf hv => invoke_follows hc hf hv loc⟩
    | ternary condition thenBranch elseBranch =>
      rw [Form.targets, List.forall_mem_append, List.forall_mem_append] at ht
      simp only [Form.Raises, or_imp, forall_and] at hr
      exact ⟨⟨ht.1, hr.1⟩, ⟨ht.2.1, hr.2.1⟩, ⟨ht.2.2, hr.2.2⟩⟩
    | assign target op value =>
      rw [Form.targets, List.forall_mem_cons, List.forall_mem_append] at ht
      simp only [Form.Raises, or_imp, forall_and] at hr
      exact ⟨⟨ht.2.2, hr.1⟩, fun _ ho => .modifySlot ht.1 hr.2.1 hr.2.2 ho⟩
    | chain _ first rest =>
      rw [Form.targets, List.forall_mem_append] at ht
      simp only [Form.Raises, or_imp, forall_and] at hr
      refine ⟨⟨ht.1, hr.1⟩, fun p hp => ?_⟩
      obtain ⟨hnode, hop⟩ := Terms.operands ht.2 hr.2 p hp
      refine ⟨hnode, fun v operand _ _ => ?_⟩
      exact .ofFailing (fun u hu => (Value.applyOperator_scalar hu).every)
        fun failure h => π.allows hop (Value.applyOperator_error h)
    | unary op operand =>
      simp only [Form.Raises, or_imp, forall_and] at hr
      refine ⟨⟨ht, hr.1⟩, fun v _ => ?_⟩
      exact .ofFailing (fun u hu => (Value.applyUnary_scalar hu).every)
        fun failure h => π.allows hr.2 (Value.applyUnary_error h)
    | bare | expression | block | function | declaration | ret | script => exact .throw (hr _ rfl)

theorem following_statements (hc : FollowingCallers π call call') :
    (following π).Statements call call' π.Expression π.Statement where
  expressions := following_expressions hc
  visits _ _ _ _ _ _ hx := (Follows.visit _).bind fun _ _ => hx.located _
  form {loc form} h := by
    obtain ⟨ht, hr, hd⟩ := h
    cases form with
    | script statements | block statements => exact Terms.statements ht hr hd
    | function name params body source => exact hd _ List.mem_cons_self
    | ret expr =>
      cases expr with
      | none => trivial
      | some expr => exact ⟨ht, hr⟩
    | bare => exact .throw (hr _ rfl)
    | _ => exact ⟨ht, hr⟩

theorem evaluate_follows (hc : FollowingCallers π call call') (node : Node)
    (ht : ∀ path ∈ node.targets, π.target path)
    (hr : ∀ failure, node.Raises failure → π.fails failure) :
    Follows π false (Value.Every π.function) (evaluate call node) (evaluate call' node) :=
  evaluate_judged following_lawful (following_expressions hc) node ⟨ht, hr⟩

theorem declareFunction_follows {function : ScriptFunction}
    (h : ∀ id, π.function (function.made id)) :
    Follows π true (fun _ => True) (declareFunction function : Exec ε σ Unit)
      (declareFunction function) :=
  declareFunction_judged following_lawful h

theorem execute_follows (hc : FollowingCallers π call call') (node : Node)
    (ht : ∀ path ∈ node.targets, π.target path)
    (hr : ∀ failure, node.RunRaises failure → π.fails failure)
    (hd : ∀ g ∈ node.declared, ∀ id, π.function (g.made id)) :
    Follows π node.form.defines (HeldOutcome π) (execute call node) (execute call' node) :=
  execute_judged following_lawful (following_statements hc) node ⟨ht, hr, hd⟩

theorem executeAll_follows (hc : FollowingCallers π call call') (last : Outcome ε)
    (hl : HeldOutcome π last) (nodes : List Node)
    (ht : ∀ path ∈ Node.allTargets nodes, π.target path)
    (hr : ∀ failure, Node.AnyRunRaises failure nodes → π.fails failure)
    (hd : ∀ g ∈ Node.allDeclared nodes, ∀ id, π.function (g.made id)) :
    Follows π true (HeldOutcome π) (executeAll call last nodes) (executeAll call' last nodes) :=
  executeAll_judged following_lawful (following_statements hc) last hl nodes
    (Terms.statements ht hr hd)

/-- Calls a function whose own calls are made by `inner`. -/
def callWith (host : Host ε σ) (inner : Caller ε σ) : Caller ε σ := fun f args => do
  Exec.ofExcept (checkArity f args)
  match f.callback with
  | .script _ function =>
    let own ← Exec.copyAll args
    Exec.isolated (.ofParams function.params own) do
      match ← executeAll inner (.value .null) function.body.statements with
      | .returned v => pure v
      | .value _ => pure .null
  | .builtin b => b.run args
  | .host e =>
    match ← host.ask e args with
    | .value v => pure v
    | .fail f => throw (.ofFailure f)
    | .call g args => inner g args
    | .callAlone g args => Exec.isolated .empty (inner g args)

theorem callFunction_succ (host : Host ε σ) (depth : Nat) :
    callFunction host (depth + 1) = callWith host (callFunction host depth) := rfl

/-- The standard functions return scalars and leave the scope alone. -/
theorem builtin_follows (b : Builtin) (args : List (Value ε)) :
    Follows π false (Value.Every π.function) (b.run args : Exec ε σ (Value ε)) (b.run args) := by
  unfold Builtin.run
  split
  · exact (Follows.emit _).bind fun _ _ => .pure trivial
  · exact (Follows.emit _).bind fun _ _ => .pure trivial
  · exact .fail (by rintro ⟨⟩)
  · exact .pure trivial
  · exact .pure trivial
  · exact .pure trivial
  · exact .fail (by rintro ⟨⟩)
  · exact .fail (by rintro ⟨⟩)
  · exact .fail (by rintro ⟨⟩)

omit [BEq ε] in
theorem checkArity_error {f : Function ε} {args : List (Value ε)} {cause : Cause}
    (h : checkArity f args = .error cause) : cause.kind ≠ .parse := by
  rw [checkArity] at h
  split at h
  · cases h
  · split at h
    · cases h
    · cases h
      rintro ⟨⟩

/-- A call leaves its scope as it was.  The functions `P'` of the arguments and of the body are all
that is at hand inside. -/
theorem callWith_follows (host : Host ε σ) (P' : Function ε → Prop) {f : Function ε}
    (hf : f.Owned) {args : List (Value ε)} (hargs : ∀ v ∈ args, v.Every P')
    (hP : ∀ g, P' g → π.function g)
    (hbody : ∀ id g, f.callback = .script id g →
      (∀ failure, Node.AnyRunRaises failure g.body.statements → π.fails failure) ∧
      (∀ h ∈ Node.allDeclared g.body.statements, ∀ k, P' (h.made k)) ∧
      FollowingCallers (π.inside P') call call') :
    Follows π false (Value.Every π.function) (callWith host call f args)
      (callWith host call' f args) := by
  rw [callWith, callWith]
  refine Follows.bind (Q := fun _ => True) (.ofExcept (fun _ _ => trivial)
    fun _ h => π.ordinary _ (checkArity_error h)) fun _ _ => ?_
  split
  · next id g hg =>
    obtain ⟨hraises, hdeclared, hc⟩ := hbody id g hg
    apply (Follows.copyAll hargs).bind
    intro own hown
    subst hown
    have hscope : (Scope.ofParams g.params own).Holds P' False :=
      Scope.All.ofParams g.params fun v hv _ => (hargs v hv).holds
    refine Follows.isolated hscope ?_
    refine (executeAll_follows hc (.value .null) trivial g.body.statements (fun _ _ => trivial)
      hraises hdeclared).bind fun o ho => ?_
    cases o with
    | returned v => exact .pure (Value.Every.imp hP ho)
    | value v => exact .pure trivial
  · exact builtin_follows _ args
  · next e he => exact (hf e he).elim

end Eval

/-- Functions with `P` are not the host's; their bodies declare such functions again and raise only
what `fails` allows. -/
structure Function.Closed (P : Function ε → Prop) (fails : Failure → Prop) : Prop where
  owned : ∀ f, P f → f.Owned
  body : ∀ f id g, P f → f.callback = .script id g →
    (∀ failure, Node.AnyRunRaises failure g.body.statements → fails failure) ∧
    ∀ h ∈ Node.allDeclared g.body.statements, ∀ k, P (h.made k)

theorem Function.closed_owned :
    Function.Closed (Function.Owned : Function ε → Prop) (fun _ => True) :=
  ⟨fun _ h => h, fun _ _ _ _ _ => ⟨fun _ _ => trivial, fun _ _ _ _ he => nomatch he⟩⟩

open Eval in
/-- Calls of functions from a closed set change nothing of the scope.  The induction is on the
number of calls that may be open. -/
theorem callFunction_follows [BEq ε] (host : Host ε σ) (π : Terms ε)
    (hπ : Function.Closed π.function π.fails) (depth : Nat) :
    FollowingCallers π (callFunction host depth) (callFunction host depth) := by
  induction depth generalizing π with
  | zero => exact fun _ _ _ _ => .throw (π.ordinary _ rfl)
  | succ depth ih =>
    intro f args hf hargs
    rw [callFunction_succ]
    refine callWith_follows host π.function (hπ.owned f hf) hargs (fun _ hg => hg) ?_
    intro id g hg
    obtain ⟨hraises, hdeclared⟩ := hπ.body f id g hf hg
    exact ⟨hraises, hdeclared, ih (π.inside π.function) hπ⟩

end Scriptlet
