import Mathlib.Data.List.Forall2
import Scriptlet.Session

/-!
# Outcomes of computations

A computation is known by its outcomes: what it comes to and the world that it leaves.  For each
primitive there is one equation, so that nothing below opens the monad again.

`Exec.Keeps I Q x` says that `x` leads from worlds with `I` to worlds with `I`, also where it fails,
and that what it returns has `Q`.
-/

namespace Scriptlet

set_option autoImplicit false

theorem mapError_ok {ε δ α : Type} (f : ε → δ) (a : α) :
    (Except.ok a : Except ε α).mapError f = .ok a := rfl

/-- Renaming its errors leaves a success as it is. -/
theorem mapError_eq_ok {ε δ α : Type} {r : Except ε α} {f : ε → δ} {a : α} :
    r.mapError f = .ok a ↔ r = .ok a := by
  cases r with
  | error e => exact iff_of_false (fun h => by cases h) fun h => by cases h
  | ok b =>
    constructor
    · intro h
      cases h
      rfl
    · intro h
      cases h
      rfl

theorem toOption_eq_some {δ α : Type} {r : Except δ α} {a : α} : r.toOption = some a ↔ r = .ok a := by
  cases r <;> simp [Except.toOption]

theorem mapError_eq_error {ε δ α : Type} {r : Except ε α} {f : ε → δ} {d : δ} :
    r.mapError f = .error d ↔ ∃ e, r = .error e ∧ f e = d := by
  cases r with
  | ok a => exact iff_of_false (fun h => by cases h) fun ⟨_, h, _⟩ => by cases h
  | error e =>
    constructor
    · intro h
      cases h
      exact ⟨e, rfl, rfl⟩
    · rintro ⟨_, h, rfl⟩
      cases h
      rfl

section Except

variable {ε α β : Type} {r : Except ε α}

/-- A sequence succeeds if both its parts do. -/
theorem except_bind_eq_ok {f : α → Except ε β} {b : β} :
    (r >>= f) = .ok b ↔ ∃ a, r = .ok a ∧ f a = .ok b := by
  cases r <;> simp [bind, Except.bind]

/-- A sequence fails if its first part does, or its second part after it. -/
theorem except_bind_eq_error {f : α → Except ε β} {e : ε} :
    (r >>= f) = .error e ↔ r = .error e ∨ ∃ a, r = .ok a ∧ f a = .error e := by
  cases r <;> simp [bind, Except.bind]

/-- A computation along a list succeeds if it does for each element. -/
theorem except_mapM_eq_ok {f : α → Except ε β} {as : List α} {bs : List β} :
    as.mapM f = .ok bs ↔ List.Forall₂ (fun a b => f a = .ok b) as bs := by
  induction as generalizing bs with
  | nil =>
    rw [List.mapM_nil, List.forall₂_nil_left_iff, eq_comm]
    exact ⟨Except.ok.inj, congrArg Except.ok⟩
  | cons a rest ih =>
    rw [List.mapM_cons, except_bind_eq_ok, List.forall₂_cons_left_iff]
    constructor
    · rintro ⟨b, hb, h⟩
      obtain ⟨others, hothers, h⟩ := except_bind_eq_ok.1 h
      exact ⟨b, others, hb, ih.1 hothers, (Except.ok.inj h).symm⟩
    · rintro ⟨b, others, hb, hothers, rfl⟩
      exact ⟨b, hb, except_bind_eq_ok.2 ⟨others, ih.2 hothers, rfl⟩⟩

theorem except_map_eq_ok {f : α → β} {b : β} : r.map f = .ok b ↔ ∃ a, r = .ok a ∧ f a = b := by
  cases r <;> simp [Except.map]

theorem except_map_eq_error {f : α → β} {e : ε} : r.map f = .error e ↔ r = .error e := by
  cases r <;> simp [Except.map]

end Except

namespace Exec

variable {ε σ α β : Type}

@[simp] theorem outcome_pure (a : α) (w : World ε σ) :
    (pure a : Exec ε σ α).outcome w = (.ok a, w) := rfl

theorem outcome_bind (x : Exec ε σ α) (f : α → Exec ε σ β) (w : World ε σ) :
    (x >>= f).outcome w =
      match x.outcome w with
      | (.ok a, after) => (f a).outcome after
      | (.error e, after) => (.error e, after) := by
  simp only [outcome, ExceptT.run, bind, ExceptT.bind, ExceptT.mk, StateT.bind, StateT.run]
  generalize x w = r
  obtain ⟨_ | a, after⟩ := r <;> rfl

/-- A sequence succeeds if both its parts do. -/
theorem bind_eq_ok {x : Exec ε σ α} {f : α → Exec ε σ β} {w after : World ε σ} {b : β} :
    (x >>= f).outcome w = (.ok b, after) ↔
      ∃ a between, x.outcome w = (.ok a, between) ∧ (f a).outcome between = (.ok b, after) := by
  rw [outcome_bind]
  generalize x.outcome w = r
  obtain ⟨e | a, between⟩ := r
  · simp
  · constructor
    · intro h
      exact ⟨a, between, rfl, h⟩
    · rintro ⟨_, _, h, hf⟩
      cases h
      exact hf

@[simp] theorem outcome_throw (e : Fault ε) (w : World ε σ) :
    (throw e : Exec ε σ α).outcome w = (.error e, w) := rfl

@[simp] theorem outcome_fail (cause : Cause) (w : World ε σ) :
    (fail cause : Exec ε σ α).outcome w = (.error (.ofCause cause), w) := rfl

@[simp] theorem outcome_breakDown (b : Breakdown) (w : World ε σ) :
    (breakDown b : Exec ε σ α).outcome w = (.error (.breakdown b), w) := rfl

@[simp] theorem outcome_ofExcept (r : Except Cause α) (w : World ε σ) :
    (ofExcept r : Exec ε σ α).outcome w = (r.mapError .ofCause, w) := by
  cases r <;> rfl

@[simp] theorem outcome_ofFailing (r : Except Failure α) (w : World ε σ) :
    (ofFailing r : Exec ε σ α).outcome w = (r.mapError .ofFailure, w) := by
  cases r <;> rfl

@[simp] theorem outcome_ofBreaking (r : Except Breakdown α) (w : World ε σ) :
    (ofBreaking r : Exec ε σ α).outcome w = (r.mapError .breakdown, w) := by
  cases r <;> rfl

@[simp] theorem outcome_ofOutcome (f : World ε σ → Except (Fault ε) α × World ε σ) (w : World ε σ) :
    (ofOutcome f).outcome w = f w := rfl

@[simp] theorem outcome_adapt (f : Store ε → Fault ε → Fault ε) (x : Exec ε σ α) (w : World ε σ) :
    (adapt f x).outcome w =
      ((x.outcome w).1.mapError (f (x.outcome w).2.store), (x.outcome w).2) := by
  rw [adapt, outcome_ofOutcome]
  generalize x.outcome w = r
  obtain ⟨_ | a, after⟩ := r <;> rfl

@[simp] theorem outcome_visit (n : Node) (w : World ε σ) :
    (visit n : Exec ε σ Unit).outcome w = (.ok (), { w with visited := some n }) := rfl

@[simp] theorem outcome_emit (effect : Effect) (w : World ε σ) :
    (emit effect : Exec ε σ Unit).outcome w = (.ok (), { w with effects := w.effects ++ [effect] }) :=
  rfl

@[simp] theorem outcome_fresh (w : World ε σ) :
    (fresh : Exec ε σ Nat).outcome w = (.ok w.made, { w with made := w.made + 1 }) := rfl

@[simp] theorem outcome_resolve (path : Path) (w : World ε σ) :
    (resolve path : Exec ε σ (Slot ε)).outcome w =
      ((w.scope.resolve w.store path).mapError .ofCause, w) :=
  outcome_ofExcept _ w

@[simp] theorem outcome_copy (v : Value ε) (w : World ε σ) :
    (copy v : Exec ε σ (Value ε)).outcome w = ((w.store.copy v).mapError .breakdown, w) :=
  outcome_ofBreaking _ w

@[simp] theorem outcome_copyAll (vs : List (Value ε)) (w : World ε σ) :
    (copyAll vs : Exec ε σ (List (Value ε))).outcome w =
      ((w.store.copyAll vs).mapError .breakdown, w) :=
  outcome_ofBreaking _ w

@[simp] theorem outcome_read (path : Path) (w : World ε σ) :
    (read path : Exec ε σ (Value ε)).outcome w =
      (match w.scope.resolve w.store path with
        | .ok slot => (w.store.copy slot.value).mapError .breakdown
        | .error cause => .error (.ofCause cause), w) := by
  rw [read, outcome_bind, outcome_resolve]
  cases w.scope.resolve w.store path with
  | error cause => rfl
  | ok slot => exact outcome_copy slot.value w

theorem read_eq_ok {path : Path} {w : World ε σ} {v : Value ε}
    (h : ((read path).outcome w).1 = .ok v) :
    ∃ slot, w.scope.resolve w.store path = .ok slot ∧ w.store.copy slot.value = .ok v := by
  rw [outcome_read] at h
  dsimp only at h
  split at h
  · next slot hs => exact ⟨slot, hs, mapError_eq_ok.1 h⟩
  · exact nomatch h

/-- A path is not read if it leads nowhere, or if what it leads to has no copy. -/
theorem read_eq_error {path : Path} {w : World ε σ} {e : Fault ε}
    (h : ((read path).outcome w).1 = .error e) :
    (∃ cause, w.scope.resolve w.store path = .error cause ∧ e = .ofCause cause) ∨
      ∃ (slot : Slot ε) (b : Breakdown), w.store.copy slot.value = .error b ∧ e = .breakdown b := by
  rw [outcome_read] at h
  dsimp only at h
  split at h
  · next slot hs =>
    obtain ⟨b, hb, rfl⟩ := mapError_eq_error.1 h
    exact .inr ⟨slot, b, hb, rfl⟩
  · next cause hs => exact .inl ⟨cause, hs, (Except.error.inj h).symm⟩

@[simp] theorem outcome_define (slot : Slot ε) (w : World ε σ) :
    (define slot : Exec ε σ Unit).outcome w =
      match w.scope.define slot with
      | .ok scope => (.ok (), { w with scope })
      | .error cause => (.error (.ofCause cause), w) := by
  change (ofExcept (w.scope.define slot) >>= fun scope => set { w with scope }).outcome w = _
  rw [outcome_bind, outcome_ofExcept]
  cases w.scope.define slot <;> rfl

@[simp] theorem outcome_modifySlot (path : Path) (f : Slot ε → Except Failure (Slot ε))
    (w : World ε σ) :
    (modifySlot path f : Exec ε σ Unit).outcome w =
      match w.scope.modify w.store path f with
      | .ok (scope, store) => (.ok (), { w with scope, store })
      | .error failure => (.error (.ofFailure failure), w) := by
  change (ofFailing (w.scope.modify w.store path f) >>=
    fun p => set { w with scope := p.1, store := p.2 }).outcome w = _
  rw [outcome_bind, outcome_ofFailing]
  cases w.scope.modify w.store path f <;> rfl

@[simp] theorem outcome_nested (x : Exec ε σ α) (w : World ε σ) :
    (nested x).outcome w =
      ((x.outcome { w with scope := w.scope.push }).1,
        { (x.outcome { w with scope := w.scope.push }).2 with
          scope := (x.outcome { w with scope := w.scope.push }).2.scope.pop }) := rfl

@[simp] theorem outcome_isolated (scope : Scope ε) (x : Exec ε σ α) (w : World ε σ) :
    (isolated scope x).outcome w =
      ((x.outcome { w with scope, visited := none }).1,
        { (x.outcome { w with scope, visited := none }).2 with
          scope := w.scope, visited := w.visited }) := rfl

/-- A computation that keeps `I`, whatever it comes to, and returns only what has `Q`. -/
def Keeps (I : World ε σ → Prop) (Q : α → Prop) (x : Exec ε σ α) : Prop :=
  ∀ w, I w → I (x.outcome w).2 ∧ ∀ a, (x.outcome w).1 = .ok a → Q a

namespace Keeps

variable {I : World ε σ → Prop} {P Q : α → Prop} {R : β → Prop} {x : Exec ε σ α}

theorem pure {a : α} (h : Q a) : Keeps I Q (pure a) := by
  intro w hw
  refine ⟨hw, ?_⟩
  intro b hb
  cases hb
  exact h

theorem after {w after : World ε σ} {r : Except (Fault ε) α} (hx : Keeps I Q x) (hw : I w)
    (h : x.outcome w = (r, after)) : I after := by
  have := (hx w hw).1
  rwa [h] at this

/-- A computation that leaves the world alone. -/
theorem of_outcome {r : World ε σ → Except (Fault ε) α}
    (hx : ∀ w, x.outcome w = (r w, w)) (hr : ∀ w a, I w → r w = .ok a → Q a) : Keeps I Q x := by
  intro w hw
  rw [hx w]
  exact ⟨hw, fun a ha => hr w a hw ha⟩

theorem throw {e : Fault ε} : Keeps I Q (throw e) :=
  of_outcome (outcome_throw e) (fun _ _ _ h => nomatch h)

theorem bind {f : α → Exec ε σ β} (hx : Keeps I P x) (hf : ∀ a, P a → Keeps I R (f a)) :
    Keeps I R (x >>= f) := by
  intro w hw
  rw [outcome_bind]
  obtain ⟨hI, hP⟩ := hx w hw
  generalize x.outcome w = r at hI hP
  obtain ⟨e | a, after⟩ := r
  · exact ⟨hI, fun b hb => nomatch hb⟩
  · exact hf a (hP a rfl) after hI

theorem adapt {f : Store ε → Fault ε → Fault ε} (hx : Keeps I Q x) : Keeps I Q (adapt f x) := by
  intro w hw
  rw [outcome_adapt]
  obtain ⟨hI, hQ⟩ := hx w hw
  exact ⟨hI, fun a ha => hQ a (mapError_eq_ok.1 ha)⟩

theorem ofExcept {r : Except Cause α} (h : ∀ a, r = .ok a → Q a) : Keeps I Q (ofExcept r) :=
  of_outcome (outcome_ofExcept r) fun _ a _ ha => h a (mapError_eq_ok.1 ha)

theorem ofFailing {r : Except Failure α} (h : ∀ a, r = .ok a → Q a) : Keeps I Q (ofFailing r) :=
  of_outcome (outcome_ofFailing r) fun _ a _ ha => h a (mapError_eq_ok.1 ha)

end Keeps

end Exec

namespace Eval

variable {ε σ : Type} [BEq ε] (call : Caller ε σ) (loc : Option Location) (form : Form)
  (w : World ε σ)

/-- An expression is visited, and its errors get its place. -/
theorem outcome_evaluate :
    (evaluate call ⟨loc, form⟩).outcome w =
      (((evaluateForm call loc form).outcome { w with visited := some ⟨loc, form⟩ }).1.mapError
          (Fault.attach loc),
        ((evaluateForm call loc form).outcome { w with visited := some ⟨loc, form⟩ }).2) := by
  rw [evaluate, Exec.outcome_bind, Exec.outcome_visit]
  exact Exec.outcome_adapt _ _ _

/-- A statement is visited, and its errors get its place. -/
theorem outcome_execute :
    (execute call ⟨loc, form⟩).outcome w =
      (((executeForm call loc form).outcome { w with visited := some ⟨loc, form⟩ }).1.mapError
          (Fault.attach loc),
        ((executeForm call loc form).outcome { w with visited := some ⟨loc, form⟩ }).2) := by
  rw [execute, Exec.outcome_bind, Exec.outcome_visit]
  exact Exec.outcome_adapt _ _ _

variable {call loc form w} {after : World ε σ} {r : Outcome ε}

theorem execute_eq_ok :
    (execute call ⟨loc, form⟩).outcome w = (.ok r, after) ↔
      (executeForm call loc form).outcome { w with visited := some ⟨loc, form⟩ } = (.ok r, after) := by
  rw [outcome_execute, Prod.mk.injEq, mapError_eq_ok, ← Prod.mk.injEq]

end Eval

theorem Parser.exists_of_isOk {rule : Rule} {source : String}
    (h : (Parser.parse rule source).isOk) : ∃ node, Parser.parse rule source = .ok node := by
  cases hp : Parser.parse rule source with
  | error m => rw [hp] at h; exact nomatch h
  | ok node => exact ⟨node, rfl⟩

namespace Session

variable {ε σ : Type} [BEq ε] {source : String} {node : Node}

/-- A text that is an expression is run by evaluating its tree. -/
theorem runExpression_eq (host : Host ε σ) (h : Parser.parse .expression source = .ok node) :
    runExpression host source = Eval.evaluate (caller host) node := by
  rw [runExpression, parse, h]
  rfl

/-- A text that is a script is run by executing its tree. -/
theorem runScript_eq (host : Host ε σ) (h : Parser.parse .script source = .ok node) :
    runScript host source = do return (← Eval.execute (caller host) node).unwrap := by
  rw [runScript, executeScript, parse, h]
  rfl

end Session

end Scriptlet
