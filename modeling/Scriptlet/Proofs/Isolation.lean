import Scriptlet.Proofs.Likeness

/-!
# Isolation of functions

A script function sees its arguments and nothing else.  Called with the same arguments in two
worlds, whatever their scopes hold, it comes to the same end, up to the numbers of the functions
that it makes on the way; it sends the same messages; and it leaves both scopes as they were
(`callScript_isolated`).

The two runs are followed side by side.  `Twins` relates the worlds on their way, and `RunsAlike` says
that two computations lead from twins to twins and to alike results, unless one of them has more
calls open than it may.
-/

namespace Scriptlet

set_option autoImplicit false

variable {ε σ : Type}

/-! ## Functions of two runs -/

/-- The numbers of one function in two runs: it was made before both of them, or at the same point
of each.  `m` and `n` functions had been made when they began. -/
def SameMade (m n i j : Nat) : Prop :=
  (i = j ∧ i < m ∧ i < n) ∨ ∃ k, i = m + k ∧ j = n + k

theorem SameMade.eq_iff {m n i j i' j' : Nat} (h : SameMade m n i j) (h' : SameMade m n i' j') :
    i = i' ↔ j = j' := by
  rcases h with ⟨rfl, _, _⟩ | ⟨k, rfl, rfl⟩ <;> rcases h' with ⟨rfl, _, _⟩ | ⟨k', rfl, rfl⟩ <;> omega

/-- The callbacks of one function in two runs. -/
def Callback.Renamed (m n : Nat) : Callback ε → Callback ε → Prop
  | script i f, script j g => SameMade m n i j ∧ f = g
  | builtin b, builtin c => b = c
  | _, _ => False

/-- One function in two runs. -/
structure Function.Renamed (m n : Nat) (f g : Function ε) : Prop where
  callback : f.callback.Renamed m n g.callback
  arity : f.arity = g.arity
  name : f.name = g.name

/-- Renamed callbacks are of one script function or of one standard function. -/
theorem Callback.Renamed.cases {m n : Nat} {f g : Callback ε} (h : f.Renamed m n g) :
    (∃ i j function, f = .script i function ∧ g = .script j function ∧ SameMade m n i j) ∨
    ∃ b, f = .builtin b ∧ g = .builtin b := by
  cases f with
  | host e => cases g <;> exact h.elim
  | builtin b =>
    cases g with
    | builtin c => exact .inr ⟨b, rfl, congrArg _ (Eq.symm h)⟩
    | _ => exact h.elim
  | script i function =>
    cases g with
    | script j function' => exact .inl ⟨i, j, function, rfl, by rw [h.2], h.1⟩
    | _ => exact h.elim

theorem Callback.Renamed.same_eq [BEq ε] {m n : Nat} {f f' g g' : Callback ε}
    (hf : f.Renamed m n f') (hg : g.Renamed m n g') : f.same g = f'.same g' := by
  obtain ⟨i, i', _, rfl, rfl, hi⟩ | ⟨b, rfl, rfl⟩ := hf.cases
  · obtain ⟨j, j', _, rfl, rfl, hj⟩ | ⟨c, rfl, rfl⟩ := hg.cases
    · rw [same, same, Bool.eq_iff_iff, beq_iff_eq, beq_iff_eq]
      exact hi.eq_iff hj
    · rfl
  · obtain ⟨j, j', _, rfl, rfl, hj⟩ | ⟨c, rfl, rfl⟩ := hg.cases <;> rfl

theorem Function.tellsApart_renamed [BEq ε] (m n : Nat) :
    Value.TellsApart (Function.Renamed m n : Function ε → Function ε → Prop) := by
  intro f g f' g' hf hg
  rw [same, same, hf.callback.same_eq hg.callback, hf.arity, hg.arity]

/-- A standard function, or a script function that was one of the first `n` to be made. -/
def Function.MadeBefore (n : Nat) (f : Function ε) : Prop :=
  match f.callback with
  | .script id _ => id < n
  | .builtin _ => True
  | .host _ => False

/-- A value that shares nothing and whose functions were made before the `n`-th. -/
def Value.MadeBefore (n : Nat) (v : Value ε) : Prop :=
  v.Every (Function.MadeBefore n)

theorem Function.MadeBefore.renamed {m n : Nat} {f : Function ε} (h : f.MadeBefore (min m n)) :
    f.Renamed m n f := by
  refine ⟨?_, rfl, rfl⟩
  rw [MadeBefore] at h
  cases hc : f.callback with
  | script id function =>
    rw [hc] at h
    exact ⟨.inl ⟨rfl, Nat.lt_of_lt_of_le h (Nat.min_le_left m n),
      Nat.lt_of_lt_of_le h (Nat.min_le_right m n)⟩, rfl⟩
  | builtin b => exact rfl
  | host e => rw [hc] at h; exact h.elim

/-! ## Failures of two runs -/

/-- A call in two runs. -/
structure CallFrame.Alike (F : Function ε → Function ε → Prop) (c d : CallFrame ε) : Prop where
  name : c.name = d.name
  args : List.Forall₂ (Value.Alike F) c.args d.args
  site : c.site = d.site

/-- Failures of the same kind, text and place that come out of the same calls. -/
def Fault.Alike (F : Function ε → Function ε → Prop) : Fault ε → Fault ε → Prop
  | error d, error e =>
    d.cause = e.cause ∧ d.loc = e.loc ∧ List.Forall₂ (CallFrame.Alike F) d.trace e.trace
  | breakdown b, breakdown c => b = c
  | _, _ => False

namespace Fault

variable {F : Function ε → Function ε → Prop}

theorem alike_ofCause (cause : Cause) : Alike F (.ofCause cause) (.ofCause cause) :=
  ⟨rfl, rfl, .nil⟩

theorem alike_ofFailure (failure : Failure) : Alike F (.ofFailure failure) (.ofFailure failure) := by
  cases failure with
  | error cause => exact alike_ofCause cause
  | breakdown b => exact rfl

theorem Alike.attach {e f : Fault ε} (h : Alike F e f) (loc : Option Location) :
    Alike F (e.attach loc) (f.attach loc) := by
  cases e with
  | error d =>
    cases f with
    | error e => exact ⟨h.1, congrArg (Option.or · loc) h.2.1, h.2.2⟩
    | breakdown c => exact h.elim
  | breakdown b =>
    cases f with
    | error e => exact h.elim
    | breakdown c => exact h

theorem Alike.through {e f : Fault ε} (h : Alike F e f) {c d : CallFrame ε} (hc : c.Alike F d) :
    Alike F (e.through c) (f.through d) := by
  cases e with
  | error d =>
    cases f with
    | error e => exact ⟨h.1, h.2.1, List.rel_append h.2.2 (.cons hc .nil)⟩
    | breakdown c => exact h.elim
  | breakdown b =>
    cases f with
    | error e => exact h.elim
    | breakdown c => exact h

end Fault

theorem Value.Alike.copyAll {F : Function ε → Function ε → Prop} {vs ws : List (Value ε)}
    (h : List.Forall₂ (Value.Alike F) vs ws) (store : Store ε) : store.copyAll vs = .ok vs := by
  induction h with
  | nil => rfl
  | cons hv _ ih => rw [Store.copyAll, hv.copy, ih]; rfl

theorem Value.Alike.symmAll {F : Function ε → Function ε → Prop} {vs ws : List (Value ε)}
    (h : List.Forall₂ (Value.Alike F) vs ws) :
    List.Forall₂ (Value.Alike fun f g => F g f) ws vs :=
  List.Forall₂.flip (h.imp fun _ _ => Value.Alike.symm)

/-! ## Two runs side by side -/

/-- The functions of two runs that began in the given worlds. -/
abbrev World.Renaming (start start' : World ε σ) : Function ε → Function ε → Prop :=
  Function.Renamed start.made start'.made

/-- Two worlds on the way of two runs that began in `start` and `start'`. -/
structure Twins (start start' w w' : World ε σ) : Prop where
  scope : Scope.Alike (start.Renaming start') w.scope w'.scope
  visited : w.visited = w'.visited
  made : ∃ k, w.made = start.made + k ∧ w'.made = start'.made + k
  effects : ∃ sent, w.effects = start.effects ++ sent ∧ w'.effects = start'.effects ++ sent
  store : w.store = start.store ∧ w'.store = start'.store
  host : w.host = start.host ∧ w'.host = start'.host

/-- Whether a run had more calls open than it may. -/
def HitsLimit {α : Type} (r : Except (Fault ε) α) : Prop :=
  r = .error (.breakdown .callDepth)

/-- Two computations that lead from twins to twins and to alike results, unless one of them hits
the limit. -/
def RunsAlike {α : Type} (start start' : World ε σ) (Q : α → α → Prop) (x y : Exec ε σ α) : Prop :=
  ∀ w w', Twins start start' w w' → HitsLimit (x.outcome w).1 ∨ HitsLimit (y.outcome w').1 ∨
    (Agree (Fault.Alike (start.Renaming start')) Q (x.outcome w).1 (y.outcome w').1 ∧
      Twins start start' (x.outcome w).2 (y.outcome w').2)

namespace RunsAlike

open Exec

variable {α β : Type} {start start' : World ε σ} {P Q : α → α → Prop} {R : β → β → Prop}
  {x y : Exec ε σ α}

theorem pure {a b : α} (h : Q a b) : RunsAlike start start' Q (pure a) (pure b) :=
  fun _ _ hw => .inr (.inr ⟨.ok h, hw⟩)

/-- Computations that leave their worlds alone. -/
theorem of_outcome {r r' : World ε σ → Except (Fault ε) α} (hx : ∀ w, x.outcome w = (r w, w))
    (hy : ∀ w, y.outcome w = (r' w, w))
    (h : ∀ w w', Twins start start' w w' → Agree (Fault.Alike (start.Renaming start')) Q (r w) (r' w')) :
    RunsAlike start start' Q x y := by
  intro w w' hw
  rw [hx, hy]
  exact .inr (.inr ⟨h w w' hw, hw⟩)

theorem fail (cause : Cause) : RunsAlike start start' Q (fail cause) (fail cause) :=
  of_outcome (outcome_fail cause) (outcome_fail cause) fun _ _ _ => .error (Fault.alike_ofCause cause)

theorem breakDown (b : Breakdown) : RunsAlike start start' Q (breakDown b) (breakDown b) :=
  of_outcome (outcome_breakDown b) (outcome_breakDown b) fun _ _ _ => .error rfl

theorem ofExcept {r r' : Except Cause α} (h : Agree Eq Q r r') :
    RunsAlike start start' Q (ofExcept r) (ofExcept r') := by
  refine of_outcome (outcome_ofExcept r) (outcome_ofExcept r') fun _ _ _ => h.mapError ?_
  rintro cause _ rfl
  exact Fault.alike_ofCause cause

theorem ofFailing {r r' : Except Failure α} (h : Agree Eq Q r r') :
    RunsAlike start start' Q (ofFailing r) (ofFailing r') := by
  refine of_outcome (outcome_ofFailing r) (outcome_ofFailing r') fun _ _ _ => h.mapError ?_
  rintro failure _ rfl
  exact Fault.alike_ofFailure failure

theorem bind {f g : α → Exec ε σ β} (hx : RunsAlike start start' P x y)
    (hf : ∀ a b, P a b → RunsAlike start start' R (f a) (g b)) :
    RunsAlike start start' R (x >>= f) (y >>= g) := by
  intro w w' hw
  have h := hx w w' hw
  rw [outcome_bind, outcome_bind]
  generalize x.outcome w = r, y.outcome w' = r' at h
  obtain ⟨r, after⟩ := r
  obtain ⟨r', after'⟩ := r'
  rcases h with h | h | ⟨ha, hafter⟩
  · obtain rfl : r = .error (.breakdown .callDepth) := h
    exact .inl rfl
  · obtain rfl : r' = .error (.breakdown .callDepth) := h
    exact .inr (.inl rfl)
  · cases ha with
    | ok hab => exact hf _ _ hab after after' hafter
    | error he => exact .inr (.inr ⟨.error he, hafter⟩)

theorem adapt {f g : Store ε → Fault ε → Fault ε} (hx : RunsAlike start start' Q x y)
    (hf : ∀ store, f store (.breakdown .callDepth) = .breakdown .callDepth)
    (hg : ∀ store, g store (.breakdown .callDepth) = .breakdown .callDepth)
    (hfg : ∀ store store' d e, Fault.Alike (start.Renaming start') d e →
      Fault.Alike (start.Renaming start') (f store d) (g store' e)) :
    RunsAlike start start' Q (adapt f x) (adapt g y) := by
  intro w w' hw
  rw [outcome_adapt, outcome_adapt]
  rcases hx w w' hw with h | h | ⟨ha, hafter⟩
  · left
    rw [HitsLimit] at h
    rw [h]
    exact congrArg Except.error (hf _)
  · right; left
    rw [HitsLimit] at h
    rw [h]
    exact congrArg Except.error (hg _)
  · exact .inr (.inr ⟨ha.mapError fun d e => hfg _ _ d e, hafter⟩)

theorem located (loc : Option Location) (hx : RunsAlike start start' Q x y) :
    RunsAlike start start' Q (located loc x) (located loc y) :=
  hx.adapt (fun _ => rfl) (fun _ => rfl) fun _ _ _ _ h => h.attach loc

theorem visit (node : Node) :
    RunsAlike start start' (fun _ _ => True) (visit node) (visit node) :=
  fun _ _ hw => .inr (.inr ⟨.ok trivial, { hw with visited := rfl }⟩)

theorem emit {effect effect' : Effect} (h : effect = effect') :
    RunsAlike start start' (fun _ _ => True) (emit effect) (emit effect') := by
  intro w w' hw
  subst h
  obtain ⟨sent, hsent, hsent'⟩ := hw.effects
  refine .inr (.inr ⟨.ok trivial, { hw with effects := ⟨sent ++ [effect], ?_, ?_⟩ }⟩)
  · simp [hsent]
  · simp [hsent']

theorem fresh : RunsAlike start start' (SameMade start.made start'.made) fresh fresh := by
  intro w w' hw
  obtain ⟨k, hk, hk'⟩ := hw.made
  refine .inr (.inr ⟨.ok (.inr ⟨k, hk, hk'⟩), { hw with made := ⟨k + 1, ?_, ?_⟩ }⟩)
  · simp [hk, Nat.add_assoc]
  · simp [hk', Nat.add_assoc]

theorem resolve (path : Path) :
    RunsAlike start start' (Slot.Alike (start.Renaming start')) (resolve path) (resolve path) := by
  apply of_outcome (outcome_resolve path) (outcome_resolve path)
  intro w w' hw
  refine (hw.scope.resolve path).mapError ?_
  rintro cause _ rfl
  exact Fault.alike_ofCause cause

theorem read (path : Path) :
    RunsAlike start start' (Value.Alike (start.Renaming start')) (read path) (read path) := by
  apply of_outcome (outcome_read path) (outcome_read path)
  intro w w' hw
  have hslot : Agree Eq (Slot.Alike (start.Renaming start')) (w.scope.resolve w.store path)
      (w'.scope.resolve w'.store path) := hw.scope.resolve path
  generalize w.scope.resolve w.store path = found, w'.scope.resolve w'.store path = found' at hslot
  cases hslot with
  | error h => subst h; exact .error (Fault.alike_ofCause _)
  | ok h =>
    simp only [h.2.2.copy, h.2.2.symm.copy]
    exact .ok h.2.2

theorem copyAll {vs ws : List (Value ε)}
    (h : List.Forall₂ (Value.Alike (start.Renaming start')) vs ws) :
    RunsAlike start start' (List.Forall₂ (Value.Alike (start.Renaming start'))) (copyAll vs)
      (copyAll ws) := by
  apply of_outcome (outcome_copyAll vs) (outcome_copyAll ws)
  intro w w' _
  rw [Value.Alike.copyAll h, Value.Alike.copyAll (Value.Alike.symmAll h)]
  exact .ok h

theorem define {s t : Slot ε} (h : s.Alike (start.Renaming start') t) :
    RunsAlike start start' (fun _ _ => True) (define s) (define t) := by
  intro w w' hw
  rw [outcome_define, outcome_define]
  have hd := hw.scope.define h
  generalize w.scope.define s = r, w'.scope.define t = r' at hd
  cases hd with
  | ok hs => exact .inr (.inr ⟨.ok trivial, { hw with scope := hs }⟩)
  | error he => subst he; exact .inr (.inr ⟨.error (Fault.alike_ofCause _), hw⟩)

theorem modifySlot (path : Path) {f g : Slot ε → Except Failure (Slot ε)}
    (hf : ∀ a b, a.Alike (start.Renaming start') b →
      Agree Eq (Slot.Alike (start.Renaming start')) (f a) (g b)) :
    RunsAlike start start' (fun _ _ => True) (modifySlot path f) (modifySlot path g) := by
  intro w w' hw
  rw [outcome_modifySlot, outcome_modifySlot]
  have hm : Agree Eq (fun p q => Scope.Alike (start.Renaming start') p.1 q.1 ∧ p.2 = w.store ∧
      q.2 = w'.store) (w.scope.modify w.store path f) (w'.scope.modify w'.store path g) :=
    Scope.Alike.modify hf hw.scope path
  generalize w.scope.modify w.store path f = r, w'.scope.modify w'.store path g = r' at hm
  cases hm with
  | error he => subst he; exact .inr (.inr ⟨.error (Fault.alike_ofFailure _), hw⟩)
  | @ok a b hs =>
    obtain ⟨scope, store⟩ := a
    obtain ⟨scope', store'⟩ := b
    obtain ⟨hscope, rfl, rfl⟩ := hs
    exact .inr (.inr ⟨.ok trivial, { hw with scope := hscope }⟩)

theorem nested (hx : RunsAlike start start' Q x y) :
    RunsAlike start start' Q (nested x) (nested y) := by
  intro w w' hw
  rw [outcome_nested, outcome_nested]
  have hpush : Twins start start' { w with scope := w.scope.push } { w' with scope := w'.scope.push } :=
    { hw with scope := hw.scope.push }
  rcases hx _ _ hpush with h | h | ⟨ha, hafter⟩
  · exact .inl h
  · exact .inr (.inl h)
  · exact .inr (.inr ⟨ha, { hafter with scope := hafter.scope.pop }⟩)

theorem isolated {scope scope' : Scope ε} (hs : Scope.Alike (start.Renaming start') scope scope')
    (hx : RunsAlike start start' Q x y) :
    RunsAlike start start' Q (isolated scope x) (isolated scope' y) := by
  intro w w' hw
  rw [outcome_isolated, outcome_isolated]
  have halone : Twins start start' { w with scope, visited := none }
      { w' with scope := scope', visited := none } := { hw with scope := hs, visited := rfl }
  rcases hx _ _ halone with h | h | ⟨ha, hafter⟩
  · exact .inl h
  · exact .inr (.inl h)
  · exact .inr (.inr ⟨ha, { hafter with scope := hw.scope, visited := hw.visited }⟩)

end RunsAlike

/-- A computation that neither looks at the scope and the visited node nor changes them. -/
def Exec.IgnoresScope {α : Type} (x : Exec ε σ α) : Prop :=
  ∀ w scope visited, x.outcome w = ((x.outcome { w with scope, visited }).1,
    { (x.outcome { w with scope, visited }).2 with scope := w.scope, visited := w.visited })

namespace Exec.IgnoresScope

variable {α β : Type} {x : Exec ε σ α}

theorem of_outcome (r : Store ε → Except (Fault ε) α)
    (h : ∀ w : World ε σ, x.outcome w = (r w.store, w)) : x.IgnoresScope := by
  intro w scope visited
  rw [h, h]

theorem isolated (scope : Scope ε) (x : Exec ε σ α) : (isolated scope x).IgnoresScope :=
  fun _ _ _ => rfl

theorem bind {f : α → Exec ε σ β} (hx : x.IgnoresScope) (hf : ∀ a, (f a).IgnoresScope) :
    (x >>= f).IgnoresScope := by
  intro w scope visited
  rw [outcome_bind, outcome_bind, hx w scope visited]
  generalize x.outcome { w with scope, visited } = r
  obtain ⟨e | a, after⟩ := r
  · rfl
  · exact hf a { after with scope := w.scope, visited := w.visited } after.scope after.visited

end Exec.IgnoresScope

/-! ## Evaluation -/

theorem Builtin.run_alike {start start' : World ε σ} (b : Builtin) {args args' : List (Value ε)}
    (h : List.Forall₂ (Value.Alike (start.Renaming start')) args args') :
    RunsAlike start start' (Value.Alike (start.Renaming start')) (b.run args) (b.run args') := by
  have message_eq : ∀ {vs ws : List (Value ε)},
      List.Forall₂ (Value.Alike (start.Renaming start')) vs ws → message vs = message ws := by
    intro vs ws hvs
    rw [message, message]
    congr 1
    induction hvs with
    | nil => rfl
    | cons hv _ ih => rw [List.map_cons, List.map_cons, hv.text, ih]
  cases h with
  | nil =>
    cases b with
    | log => exact (RunsAlike.emit rfl).bind fun _ _ _ => .pure trivial
    | _ => exact .fail _
  | @cons v w vs ws hv hvs =>
    cases b with
    | log =>
      refine (RunsAlike.emit ?_).bind fun _ _ _ => .pure trivial
      rw [message_eq (List.Forall₂.cons hv hvs)]
    | emit =>
      refine (RunsAlike.emit ?_).bind fun _ _ _ => .pure trivial
      rw [hv.text, message_eq hvs]
    | typeOf => exact .pure hv.typeName
    | toString => exact .pure hv.text
    | throw =>
      simp only [run, hv.text]
      exact .fail _
    | length =>
      obtain ⟨hs, rfl⟩ | ⟨_, _, rfl, rfl, _⟩ | ⟨_, _, rfl, rfl, _⟩ := hv.cases
      · cases v with
        | string s => exact .pure rfl
        | _ => exact .fail _
      · exact .fail _
      · exact .fail _

namespace Eval

open Exec

variable {start start' : World ε σ} {call call' : Caller ε σ}

/-- Callers whose calls of one function with alike arguments run alike. -/
def AlikeCallers (start start' : World ε σ) (call call' : Caller ε σ) : Prop :=
  ∀ f g args args', start.Renaming start' f g →
    List.Forall₂ (Value.Alike (start.Renaming start')) args args' →
    RunsAlike start start' (Value.Alike (start.Renaming start')) (call f args) (call' g args')

/-- What a statement comes to in two runs. -/
inductive AlikeOutcome (F : Function ε → Function ε → Prop) : Outcome ε → Outcome ε → Prop
  | value {v w : Value ε} : v.Alike F w → AlikeOutcome F (.value v) (.value w)
  | returned {v w : Value ε} : v.Alike F w → AlikeOutcome F (.returned v) (.returned w)

theorem AlikeOutcome.null {F : Function ε → Function ε → Prop} :
    AlikeOutcome F (.value .null) (.value .null) :=
  .value (show Value.Alike F .null .null from trivial)

theorem asFunction_alike {F : Function ε → Function ε → Prop} {s t : Slot ε} (h : s.Alike F t) :
    Agree Eq F (asFunction s) (asFunction t) := by
  rw [asFunction, asFunction]
  obtain ⟨hs, hv⟩ | ⟨_, _, hv, hw, _⟩ | ⟨f, g, hv, hw, hfg⟩ := h.2.2.cases
  · rw [← hv]
    cases hvalue : s.value with
    | function f => rw [hvalue] at hs; exact hs.elim
    | _ => exact .error rfl
  · rw [hv, hw]
    exact .error rfl
  · rw [hv, hw]
    exact .ok hfg

/-- An operation that has one scalar result in both runs. -/
theorem agree_scalar {F : Function ε → Function ε → Prop} {r : Except Failure (Value ε)}
    (h : ∀ u, r = .ok u → u.IsScalar) : Agree Eq (Value.Alike F) r r := by
  cases r with
  | error failure => exact .error rfl
  | ok u => exact .ok (.of_scalar (h u rfl))

theorem outOf_alike {f g : Function ε} {args args' : List (Value ε)} (hf : start.Renaming start' f g)
    (hargs : List.Forall₂ (Value.Alike (start.Renaming start')) args args') (site : Option Location)
    (store store' : Store ε) (d e : Fault ε) (h : Fault.Alike (start.Renaming start') d e) :
    Fault.Alike (start.Renaming start') (outOf f args site store d) (outOf g args' site store' e) := by
  rw [outOf, outOf, Value.Alike.copyAll hargs, Value.Alike.copyAll (Value.Alike.symmAll hargs)]
  exact h.through ⟨hf.name, hargs, rfl⟩

theorem invoke_alike (hc : AlikeCallers start start' call call') {f g : Function ε}
    {args args' : List (Value ε)} (hf : start.Renaming start' f g)
    (hargs : List.Forall₂ (Value.Alike (start.Renaming start')) args args') (site : Option Location) :
    RunsAlike start start' (Value.Alike (start.Renaming start')) (invoke call f args site)
      (invoke call' g args' site) := by
  refine (hc f g args args' hf hargs).adapt ?_ ?_ (outOf_alike hf hargs site)
  · intro store
    rw [outOf, Value.Alike.copyAll hargs]
    rfl
  · intro store
    rw [outOf, Value.Alike.copyAll (Value.Alike.symmAll hargs)]
    rfl

theorem checkArity_alike {f g : Function ε} (hf : f.arity = g.arity) {args args' : List (Value ε)}
    (hargs : List.Forall₂ (Value.Alike (start.Renaming start')) args args') :
    checkArity f args = checkArity g args' := by
  rw [checkArity, checkArity, hf, hargs.length_eq]

variable [BEq ε]

theorem assigned_alike {F : Function ε → Function ε → Prop} (hF : Value.TellsApart F) (op : String)
    {v w : Value ε} (hv : v.Alike F w) (s t : Slot ε) (hs : s.Alike F t) :
    Agree Eq (Slot.Alike F) (assigned op v s) (assigned op w t) := by
  have assign_alike : ∀ {a b : Value ε}, a.Alike F b → Agree Eq (Slot.Alike F)
      ((s.assign a).mapError Failure.error) ((t.assign b).mapError Failure.error) :=
    fun hab => (Slot.assign_alike hs hab).mapError fun _ _ => congrArg Failure.error
  have update_alike : ∀ binary, Agree Eq (Slot.Alike F) (assigned.update v s binary)
      (assigned.update w t binary) := by
    intro binary
    rw [assigned.update, assigned.update, Value.applyOperator_alike hF binary hs.2.2 hv]
    exact (agree_scalar fun _ => Value.applyOperator_scalar).bind fun a b => assign_alike
  unfold assigned
  split
  · exact assign_alike hv
  split
  · exact update_alike "+"
  split
  · exact update_alike "-"
  split
  · exact update_alike "*"
  · exact .error rfl

mutual

theorem evaluate_alike (hc : AlikeCallers start start' call call') : (node : Node) →
    RunsAlike start start' (Value.Alike (start.Renaming start')) (evaluate call node)
      (evaluate call' node)
  | ⟨loc, form⟩ => by
    rw [evaluate, evaluate]
    apply (RunsAlike.visit _).bind
    intro _ _ _
    exact (evaluateForm_alike hc loc form).located loc

theorem evaluateForm_alike (hc : AlikeCallers start start' call call') (loc : Option Location) :
    (form : Form) → RunsAlike start start' (Value.Alike (start.Renaming start'))
      (evaluateForm call loc form) (evaluateForm call' loc form)
  | .ident name => by rw [evaluateForm, evaluateForm]; exact .read _
  | .member object member => by rw [evaluateForm, evaluateForm]; exact .read _
  | .group expr => by rw [evaluateForm, evaluateForm]; exact evaluate_alike hc expr
  | .number text => by
    rw [evaluateForm, evaluateForm]
    apply (RunsAlike.ofFailing (.refl _)).bind
    intro _ _ h
    exact .pure h
  | .string text => by
    rw [evaluateForm, evaluateForm]
    apply (RunsAlike.ofExcept (.refl _)).bind
    intro _ _ h
    exact .pure h
  | .boolean text => by
    rw [evaluateForm, evaluateForm]
    apply (RunsAlike.ofExcept (.refl _)).bind
    intro _ _ h
    exact .pure h
  | .null => by rw [evaluateForm, evaluateForm]; exact .pure trivial
  | .call callee args => by
    rw [evaluateForm, evaluateForm]
    apply (RunsAlike.resolve _).bind
    intro s t hs
    apply (RunsAlike.ofExcept (asFunction_alike hs)).bind
    intro f g hf
    apply (evaluateAll_alike hc args).bind
    intro vs ws hvs
    exact invoke_alike hc hf hvs loc
  | .ternary condition thenBranch elseBranch => by
    rw [evaluateForm, evaluateForm]
    apply (evaluate_alike hc condition).bind
    intro v w hv
    obtain ⟨hs, rfl⟩ | ⟨_, _, rfl, rfl, _⟩ | ⟨_, _, rfl, rfl, _⟩ := hv.cases
    · split
      · exact evaluate_alike hc thenBranch
      · exact evaluate_alike hc elseBranch
      · exact .fail _
    · exact .fail _
    · exact .fail _
  | .assign target op value => by
    rw [evaluateForm, evaluateForm]
    apply (evaluate_alike hc value).bind
    intro v w hv
    refine (RunsAlike.modifySlot _ ?_).bind fun _ _ _ => .pure trivial
    exact assigned_alike (Function.tellsApart_renamed _ _) op hv
  | .chain _ first rest => by
    rw [evaluateForm, evaluateForm]
    apply (evaluate_alike hc first).bind
    intro v w hv
    exact evaluateRest_alike hc hv rest
  | .unary op operand => by
    rw [evaluateForm, evaluateForm]
    apply (evaluate_alike hc operand).bind
    intro v w hv
    rw [Value.applyUnary_alike op hv]
    exact .ofFailing (agree_scalar fun _ => Value.applyUnary_scalar)
  | .bare | .expression _ | .block _ | .function _ _ _ _ | .declaration _ _ _ | .ret _ | .script _ => by
    rw [evaluateForm, evaluateForm]
    · exact .breakDown _
    all_goals simp

theorem evaluateAll_alike (hc : AlikeCallers start start' call call') : (nodes : List Node) →
    RunsAlike start start' (List.Forall₂ (Value.Alike (start.Renaming start')))
      (evaluateAll call nodes) (evaluateAll call' nodes)
  | [] => by rw [evaluateAll, evaluateAll]; exact .pure .nil
  | node :: rest => by
    rw [evaluateAll, evaluateAll]
    apply (evaluate_alike hc node).bind
    intro v w hv
    apply (evaluateAll_alike hc rest).bind
    intro vs ws hvs
    exact .pure (.cons hv hvs)

theorem evaluateRest_alike (hc : AlikeCallers start start' call call') {v w : Value ε}
    (hv : v.Alike (start.Renaming start') w) : (rest : List (String × Node)) →
    RunsAlike start start' (Value.Alike (start.Renaming start')) (evaluateRest call v rest)
      (evaluateRest call' w rest)
  | [] => by rw [evaluateRest, evaluateRest]; exact .pure hv
  | (op, node) :: rest => by
    rw [evaluateRest, evaluateRest]
    apply (evaluate_alike hc node).bind
    intro a b hab
    rw [Value.applyOperator_alike (Function.tellsApart_renamed _ _) op hv hab]
    refine RunsAlike.bind (P := Value.Alike (start.Renaming start'))
      (.ofFailing (agree_scalar fun _ => Value.applyOperator_scalar)) fun a b hr => ?_
    exact evaluateRest_alike hc hr rest

end

omit [BEq ε] in
theorem declareFunction_alike (function : ScriptFunction) :
    RunsAlike start start' (fun _ _ => True) (declareFunction function) (declareFunction function) := by
  have declare : RunsAlike start start' (fun _ _ => True)
      (Exec.fresh >>= fun id => Exec.define ⟨function.name, false,
        .function ⟨.script id function, some function.params.length, function.name⟩⟩)
      (Exec.fresh >>= fun id => Exec.define ⟨function.name, false,
        .function ⟨.script id function, some function.params.length, function.name⟩⟩) :=
    RunsAlike.fresh.bind fun i j hij => .define ⟨rfl, rfl, ⟨hij, rfl⟩, rfl, rfl⟩
  rw [declareFunction]
  split
  · exact RunsAlike.bind (P := fun _ _ => True) (.fail _) fun _ _ _ => declare
  · exact declare

mutual

theorem execute_alike (hc : AlikeCallers start start' call call') : (node : Node) →
    RunsAlike start start' (AlikeOutcome (start.Renaming start')) (execute call node)
      (execute call' node)
  | ⟨loc, form⟩ => by
    rw [execute, execute]
    apply (RunsAlike.visit _).bind
    intro _ _ _
    exact (executeForm_alike hc loc form).located loc

theorem executeForm_alike (hc : AlikeCallers start start' call call') (loc : Option Location) :
    (form : Form) → RunsAlike start start' (AlikeOutcome (start.Renaming start'))
      (executeForm call loc form) (executeForm call' loc form)
  | .script statements => by
    rw [executeForm, executeForm]
    exact executeAll_alike hc .null statements
  | .expression expr => by
    rw [executeForm, executeForm]
    apply (evaluate_alike hc expr).bind
    intro _ _ hv
    exact .pure (.value hv)
  | .block statements => by
    rw [executeForm, executeForm]
    exact .nested (executeAll_alike hc .null statements)
  | .function name params body source => by
    rw [executeForm, executeForm]
    apply (declareFunction_alike _).bind
    intro _ _ _
    exact .pure .null
  | .declaration name value isMutable => by
    rw [executeForm, executeForm]
    apply (evaluate_alike hc value).bind
    intro v w hv
    have hslot : Slot.Alike (start.Renaming start') ⟨name, isMutable, v⟩ ⟨name, isMutable, w⟩ :=
      ⟨rfl, rfl, hv⟩
    apply (RunsAlike.define hslot).bind
    intro _ _ _
    exact .pure .null
  | .ret none => by rw [executeForm, executeForm]; exact .pure (.returned trivial)
  | .ret (some expr) => by
    rw [executeForm, executeForm]
    apply (evaluate_alike hc expr).bind
    intro _ _ hv
    exact .pure (.returned hv)
  | .bare => by rw [executeForm, executeForm]; exact .breakDown _
  | .number _ | .string _ | .boolean _ | .null | .ident _ | .member _ _ | .group _ | .call _ _
  | .ternary _ _ _ | .assign _ _ _ | .chain _ _ _ | .unary _ _ => by
    rw [executeForm, executeForm]
    · apply (evaluate_alike hc _).bind
      intro _ _ hv
      exact .pure (.value hv)
    all_goals simp

theorem executeAll_alike (hc : AlikeCallers start start' call call') {last last' : Outcome ε}
    (hl : AlikeOutcome (start.Renaming start') last last') : (nodes : List Node) →
    RunsAlike start start' (AlikeOutcome (start.Renaming start')) (executeAll call last nodes)
      (executeAll call' last' nodes)
  | [] => by rw [executeAll, executeAll]; exact .pure hl
  | node :: rest => by
    rw [executeAll, executeAll]
    apply (execute_alike hc node).bind
    intro o o' ho
    cases ho with
    | returned hv => exact .pure (.returned hv)
    | value hv => exact executeAll_alike hc (.value hv) rest

end

/-- A script function runs its body on its own with alike arguments. -/
theorem callScript_alike {host host' : Host ε σ} {depth depth' : Nat}
    (hc : AlikeCallers start start' (callFunction host depth) (callFunction host' depth'))
    {f g : Function ε} {i j : Nat} {function : ScriptFunction} (hf : f.callback = .script i function)
    (hg : g.callback = .script j function) (harity : f.arity = g.arity) {args args' : List (Value ε)}
    (hargs : List.Forall₂ (Value.Alike (start.Renaming start')) args args') :
    RunsAlike start start' (Value.Alike (start.Renaming start'))
      (callFunction host (depth + 1) f args) (callFunction host' (depth' + 1) g args') := by
  rw [callFunction, callFunction, checkArity_alike harity hargs, hf, hg]
  apply (RunsAlike.ofExcept (.refl _)).bind
  intro _ _ _
  apply (RunsAlike.copyAll hargs).bind
  intro own own' hown
  refine .isolated (Scope.Alike.ofParams function.params hown) ?_
  refine (executeAll_alike hc .null function.body.statements).bind fun o o' ho => ?_
  cases ho with
  | returned hv => exact .pure hv
  | value _ => exact .pure trivial

/-- Calls of one function with alike arguments run alike, however many calls each may open.  The
induction is on the calls that the first run may open. -/
theorem callFunction_alike (host host' : Host ε σ) (depth depth' : Nat) :
    AlikeCallers start start' (callFunction host depth) (callFunction host' depth') := by
  induction depth generalizing depth' with
  | zero => exact fun f g args args' _ _ w w' _ => .inl rfl
  | succ depth ih =>
    cases depth' with
    | zero => exact fun f g args args' _ _ w w' _ => .inr (.inl rfl)
    | succ depth' =>
      intro f g args args' hf hargs
      obtain ⟨i, j, function, hi, hj, _⟩ | ⟨b, hb, hb'⟩ := hf.callback.cases
      · exact callScript_alike (ih depth') hi hj hf.arity hargs
      · rw [callFunction, callFunction, checkArity_alike hf.arity hargs, hb, hb']
        apply (RunsAlike.ofExcept (.refl _)).bind
        intro _ _ _
        exact b.run_alike hargs

/-- A call of a script function does not look at the scope, and leaves it as it was. -/
theorem callFunction_ignoresScope (host : Host ε σ) {f : Function ε} {id : Nat}
    {function : ScriptFunction} (hf : f.callback = .script id function) (depth : Nat)
    (args : List (Value ε)) : IgnoresScope (callFunction host depth f args) := by
  cases depth with
  | zero => exact fun _ _ _ => rfl
  | succ depth =>
    rw [callFunction, hf]
    refine .bind (.of_outcome (fun _ => _) (outcome_ofExcept _)) fun _ => ?_
    refine .bind (.of_outcome (fun store => (store.copyAll args).mapError .breakdown)
      (outcome_copyAll args)) fun own => ?_
    exact .isolated _ _

end Eval

open Eval in
/-- A script function is called with the same arguments in two
worlds, and the functions in the arguments were made before.  If neither run hits the limit of open
calls, both come to the same value or to the same failure, out of the same calls, up to the numbers
of the functions that they make.  They send the same messages, and the scopes, the shared objects
and the state of the host stay as they were. -/
theorem callScript_isolated [BEq ε] (host host' : Host ε σ) {f : Function ε} {id : Nat}
    {function : ScriptFunction} (hf : f.callback = .script id function) {args : List (Value ε)}
    {w w' after after' : World ε σ} {r r' : Except (Fault ε) (Value ε)} (depth depth' : Nat)
    (hargs : ∀ a ∈ args, a.MadeBefore (min w.made w'.made))
    (h : (callFunction host depth f args).outcome w = (r, after))
    (h' : (callFunction host' depth' f args).outcome w' = (r', after'))
    (hr : ¬ HitsLimit r) (hr' : ¬ HitsLimit r') :
    Agree (Fault.Alike (w.Renaming w')) (Value.Alike (w.Renaming w')) r r' ∧
    (∃ sent, after.effects = w.effects ++ sent ∧ after'.effects = w'.effects ++ sent) ∧
    (after.scope = w.scope ∧ after.store = w.store ∧ after.host = w.host) ∧
    (after'.scope = w'.scope ∧ after'.store = w'.store ∧ after'.host = w'.host) := by
  have hself : List.Forall₂ (Value.Alike (w.Renaming w')) args args :=
    List.forall₂_same.2 fun a ha => .of_every (fun _ => Function.MadeBefore.renamed) a (hargs a ha)
  have hstart : Twins w w' { w with scope := .empty, visited := none }
      { w' with scope := .empty, visited := none } :=
    ⟨.empty, rfl, ⟨0, rfl, rfl⟩, ⟨[], by simp, by simp⟩, ⟨rfl, rfl⟩, ⟨rfl, rfl⟩⟩
  rw [callFunction_ignoresScope host hf depth args w .empty none] at h
  rw [callFunction_ignoresScope host' hf depth' args w' .empty none] at h'
  obtain ⟨rfl, rfl⟩ := Prod.mk.inj h
  obtain ⟨rfl, rfl⟩ := Prod.mk.inj h'
  cases depth with
  | zero => exact (hr rfl).elim
  | succ depth =>
    cases depth' with
    | zero => exact (hr' rfl).elim
    | succ depth' =>
      have hrun := callScript_alike (callFunction_alike host host' depth depth') hf hf rfl hself
      rcases hrun _ _ hstart with hl | hl | ⟨hagree, hafter⟩
      · exact (hr hl).elim
      · exact (hr' hl).elim
      · exact ⟨hagree, hafter.effects, ⟨rfl, hafter.store.1, hafter.host.1⟩,
          ⟨rfl, hafter.store.2, hafter.host.2⟩⟩

end Scriptlet
