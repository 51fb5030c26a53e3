import Scriptlet.Proofs.Judgements
import Scriptlet.Proofs.Path

/-!
# Ownership

No run by itself makes two slots share an object.  Where a scope shares nothing and holds no
function of the host, every computation of the language leaves such a scope again, whether it
succeeds or fails, and what it returns shares nothing either (`evaluate_owned`, `execute_owned`,
`callFunction_owned`).
-/

namespace Scriptlet

set_option autoImplicit false

variable {ε σ : Type}

/-! ## Scopes -/

/-- Every slot of a scope has `R`. -/
def Scope.All (R : Slot ε → Prop) (s : Scope ε) : Prop :=
  ∀ frame ∈ s.frames, ∀ slot ∈ frame, R slot

namespace Scope.All

variable {R : Slot ε → Prop} {s t : Scope ε} {slot : Slot ε}

theorem empty : (Scope.empty : Scope ε).All R := by
  intro frame hf slot hs
  rw [List.mem_singleton.1 hf] at hs
  exact nomatch hs

theorem find? (h : s.All R) {name : String} (hf : s.find? name = some slot) : R slot := by
  obtain ⟨frame, hm, hs⟩ := find?_mem hf
  exact h frame hm slot hs

theorem push (h : s.All R) : s.push.All R := by
  intro frame hf slot hs
  rcases List.mem_cons.1 hf with rfl | hf
  · exact nomatch hs
  · exact h frame hf slot hs

theorem pop (h : s.All R) : s.pop.All R := by
  obtain ⟨top, _ | ⟨frame, rest⟩⟩ := s
  · exact h
  · exact fun f hf => h f (List.mem_cons_of_mem _ hf)

theorem define (h : s.All R) (hv : R slot) (hd : s.define slot = .ok t) : t.All R := by
  obtain ⟨_, rfl⟩ := define_eq hd
  intro frame hf u hu
  rcases List.mem_cons.1 hf with rfl | hf
  · rcases List.mem_append.1 hu with hu | hu
    · exact h _ List.mem_cons_self u hu
    · exact List.mem_singleton.1 hu ▸ hv
  · exact h frame (List.mem_cons_of_mem _ hf) u hu

theorem set (h : s.All R) (hv : R slot) : (s.set slot).All R := by
  intro frame hf u hu
  rcases List.mem_cons.1 hf with rfl | hf
  · rcases Fields.mem_put hu with rfl | hu
    · exact hv
    · exact h _ List.mem_cons_self u hu
  · exact h frame (List.mem_cons_of_mem _ hf) u hu

theorem replace (h : s.All R) (hv : R slot) : (s.replace slot).All R := by
  have frames_all : ∀ frames : List (List (Slot ε)),
      (∀ frame ∈ frames, ∀ u ∈ frame, R u) →
      ∀ frame ∈ replaceIn slot frames, ∀ u ∈ frame, R u := by
    intro frames
    induction frames with
    | nil => exact fun h => h
    | cons first rest ih =>
      intro h frame hf u hu
      rw [replaceIn] at hf
      split at hf
      · rcases List.mem_cons.1 hf with rfl | hf
        · rcases Fields.mem_put hu with rfl | hu
          · exact hv
          · exact h first List.mem_cons_self u hu
        · exact h frame (List.mem_cons_of_mem _ hf) u hu
      · rcases List.mem_cons.1 hf with rfl | hf
        · exact h frame List.mem_cons_self u hu
        · exact ih (fun f hm => h f (List.mem_cons_of_mem _ hm)) frame hf u hu
  rw [All, replace_frames]
  exact frames_all s.frames h

theorem ofParams (params : List String) {args : List (Value ε)}
    (h : ∀ v ∈ args, ∀ name, R ⟨name, false, v⟩) : (Scope.ofParams params args).All R := by
  have fold_all : ∀ (pairs : List (String × Value ε)) (s : Scope ε), s.All R →
      (∀ p ∈ pairs, R ⟨p.1, false, p.2⟩) →
      (pairs.foldl (fun s p => s.set ⟨p.1, false, p.2⟩) s).All R := by
    intro pairs
    induction pairs with
    | nil => exact fun s hs _ => hs
    | cons p rest ih =>
      intro s hs hp
      exact ih _ (hs.set (hp p List.mem_cons_self)) fun q hq => hp q (List.mem_cons_of_mem _ hq)
  exact fold_all _ _ empty fun p hp => h p.2 (List.of_mem_zip hp).2 p.1

end Scope.All

theorem Scope.Owned.ofParams (params : List String) {args : List (Value ε)}
    (h : ∀ v ∈ args, v.Owned) : (Scope.ofParams params args).Owned :=
  Scope.All.ofParams params fun v hv _ => h v hv

/-! ## Results of operators -/

namespace Value

variable {v w u : Value ε}

/-- A number, a boolean, a string or null. -/
def IsScalar : Value ε → Prop
  | number _ | boolean _ | string _ | null => True
  | _ => False

theorem IsScalar.owned (h : v.IsScalar) : v.Owned := by
  cases v with
  | object _ | function _ | shared _ _ => exact h.elim
  | _ => trivial

/-- A boolean, or a number in range: what operators give. -/
def IsComputed : Value ε → Prop
  | number n => Literal.inRange n
  | boolean _ => True
  | _ => False

theorem IsComputed.scalar (h : v.IsComputed) : v.IsScalar := by
  cases v with
  | number _ | boolean _ => trivial
  | _ => exact h.elim

theorem checked_computed {n : Int} (h : checked n = .ok u) : u.IsComputed := by
  rw [checked] at h
  split at h
  · next hr => exact Except.ok.inj h ▸ hr
  · exact nomatch h

theorem arithmetic_computed {op : Int → Int → Int} (h : arithmetic op v w = .ok u) :
    u.IsComputed := by
  rw [arithmetic] at h
  obtain ⟨m, _, h⟩ := except_bind_eq_ok.1 h
  obtain ⟨n, _, h⟩ := except_bind_eq_ok.1 h
  exact checked_computed h

theorem negate_computed (h : v.negate = .ok u) : u.IsComputed := by
  rw [negate] at h
  obtain ⟨m, _, h⟩ := except_bind_eq_ok.1 h
  exact checked_computed h

theorem inverse_computed (h : v.inverse = .ok u) : u.IsComputed := by
  cases v with
  | boolean b => exact Except.ok.inj h ▸ trivial
  | _ => exact nomatch h

theorem compare_computed [BEq ε] {loose : Bool} (h : v.compare loose w = .ok u) : u.IsComputed := by
  unfold compare at h
  split at h
  case h_5 => split at h; exact Except.ok.inj h ▸ trivial; exact nomatch h
  case h_6 =>
    split at h
    · exact nomatch h
    · split at h
      · exact Except.ok.inj h ▸ trivial
      · exact nomatch h
  all_goals exact Except.ok.inj h ▸ trivial

theorem compareInequality_computed {op : String} (h : compareInequality op v w = .ok u) :
    u.IsComputed := by
  unfold compareInequality at h
  split at h
  · split at h
    · exact Except.ok.inj h ▸ trivial
    · split at h
      · exact Except.ok.inj h ▸ trivial
      · split at h
        · exact Except.ok.inj h ▸ trivial
        · split at h
          · exact Except.ok.inj h ▸ trivial
          · exact nomatch h
  · exact nomatch h

theorem compareInverse_computed [BEq ε] {loose : Bool}
    (h : (v.compare loose w >>= inverse) = .ok u) : u.IsComputed := by
  obtain ⟨b, _, h⟩ := except_bind_eq_ok.1 h
  exact inverse_computed h

/-- A binary operator gives a boolean or a number in range. -/
theorem applyOperator_computed [BEq ε] {op : String} (h : v.applyOperator op w = .ok u) :
    u.IsComputed := by
  unfold applyOperator at h
  split at h
  · exact compare_computed (mapError_eq_ok.1 h)
  split at h
  · exact compare_computed (mapError_eq_ok.1 h)
  split at h
  · exact compareInverse_computed (mapError_eq_ok.1 h)
  split at h
  · exact compareInverse_computed (mapError_eq_ok.1 h)
  split at h
  · exact compareInequality_computed h
  split at h
  · exact arithmetic_computed (mapError_eq_ok.1 h)
  split at h
  · exact arithmetic_computed (mapError_eq_ok.1 h)
  split at h
  · exact arithmetic_computed (mapError_eq_ok.1 h)
  · exact nomatch h

/-- A unary operator gives a boolean or a number in range. -/
theorem applyUnary_computed {op : String} (h : v.applyUnary op = .ok u) : u.IsComputed := by
  unfold applyUnary at h
  split at h
  · exact negate_computed (mapError_eq_ok.1 h)
  split at h
  · exact inverse_computed (mapError_eq_ok.1 h)
  · exact nomatch h

theorem applyOperator_scalar [BEq ε] {op : String} (h : v.applyOperator op w = .ok u) :
    u.IsScalar :=
  (applyOperator_computed h).scalar

theorem applyUnary_scalar {op : String} (h : v.applyUnary op = .ok u) : u.IsScalar :=
  (applyUnary_computed h).scalar

end Value

/-- An assignment puts its value into a variable of the same sort. -/
theorem Slot.assign_eq {s t : Slot ε} {v : Value ε} (h : s.assign v = .ok t) :
    s.isMutable = true ∧ s.value.sameType v = true ∧ t = { s with value := v } := by
  rw [assign] at h
  split at h
  · exact nomatch h
  · next ht =>
    split at h
    · exact nomatch h
    · next hm => exact ⟨by simpa using hm, by simpa using ht, (Except.ok.inj h).symm⟩

namespace Eval

variable [BEq ε]

/-- An assignment with an operator is an assignment of the operand, or of the result of a binary
operator. -/
theorem assigned_eq {op : String} {operand : Value ε} {s t : Slot ε}
    (h : assigned op operand s = .ok t) :
    ∃ v, s.assign v = .ok t ∧
      (op = "=" ∧ v = operand ∨ ∃ binary, s.value.applyOperator binary operand = .ok v) := by
  have of_update : ∀ binary, assigned.update operand s binary = .ok t →
      ∃ v, s.assign v = .ok t ∧
        (op = "=" ∧ v = operand ∨ ∃ binary, s.value.applyOperator binary operand = .ok v) := by
    intro binary hu
    rw [assigned.update] at hu
    obtain ⟨v, hv, ha⟩ := except_bind_eq_ok.1 hu
    exact ⟨v, mapError_eq_ok.1 ha, .inr ⟨binary, hv⟩⟩
  unfold assigned at h
  split at h
  · next hop => exact ⟨operand, mapError_eq_ok.1 h, .inl ⟨hop, rfl⟩⟩
  split at h
  · exact of_update _ h
  split at h
  · exact of_update _ h
  split at h
  · exact of_update _ h
  · exact nomatch h

theorem assigned_name {op : String} {operand : Value ε} (s t : Slot ε)
    (h : assigned op operand s = .ok t) : t.name = s.name := by
  obtain ⟨v, ha, _⟩ := assigned_eq h
  rw [(Slot.assign_eq ha).2.2]

theorem assigned_owned {op : String} {operand : Value ε} (ho : operand.Owned) (s t : Slot ε)
    (_ : s.value.Owned) (h : assigned op operand s = .ok t) : t.value.Owned := by
  obtain ⟨v, ha, ⟨_, rfl⟩ | ⟨binary, hv⟩⟩ := assigned_eq h
  · rw [(Slot.assign_eq ha).2.2]
    exact ho
  · rw [(Slot.assign_eq ha).2.2]
    exact (Value.applyOperator_scalar hv).owned

end Eval

/-! ## Computations -/

/-- A world whose scope shares nothing. -/
def World.Owned (w : World ε σ) : Prop :=
  w.scope.Owned

namespace Exec

variable {α : Type} {Q : α → Prop} {x : Exec ε σ α}

theorem visit_owned (n : Node) : Keeps World.Owned (fun _ => True) (visit n : Exec ε σ Unit) :=
  fun _ hw => ⟨hw, fun _ _ => trivial⟩

theorem emit_owned (effect : Effect) :
    Keeps World.Owned (fun _ => True) (emit effect : Exec ε σ Unit) :=
  fun _ hw => ⟨hw, fun _ _ => trivial⟩

theorem fresh_owned : Keeps World.Owned (fun _ => True) (fresh : Exec ε σ Nat) :=
  fun _ hw => ⟨hw, fun _ _ => trivial⟩

theorem resolve_owned (path : Path) :
    Keeps World.Owned (fun slot => slot.value.Owned) (resolve path : Exec ε σ (Slot ε)) := by
  apply Keeps.of_outcome (outcome_resolve path)
  intro w slot hw hr
  exact Scope.Owned.resolve hw (mapError_eq_ok.1 hr)

/-- In an owned world a path is read as the value that it leads to. -/
theorem outcome_read_owned (path : Path) {w : World ε σ} (hw : w.Owned) :
    (read path).outcome w =
      ((w.scope.resolve w.store path).map (·.value) |>.mapError .ofCause, w) := by
  rw [outcome_read]
  cases hs : w.scope.resolve w.store path with
  | error cause => rfl
  | ok slot =>
    simp only [(Scope.Owned.resolve hw hs).copy]
    rfl

theorem read_owned (path : Path) :
    Keeps World.Owned Value.Owned (read path : Exec ε σ (Value ε)) := by
  intro w hw
  rw [outcome_read_owned path hw]
  refine ⟨hw, ?_⟩
  intro v hv
  cases hs : w.scope.resolve w.store path with
  | error cause => rw [hs] at hv; exact nomatch hv
  | ok slot =>
    rw [hs] at hv
    exact Except.ok.inj hv ▸ Scope.Owned.resolve hw hs

theorem copyAll_owned (vs : List (Value ε)) (h : ∀ v ∈ vs, v.Owned) :
    Keeps World.Owned (fun copies => copies = vs) (copyAll vs : Exec ε σ (List (Value ε))) := by
  apply Keeps.of_outcome (outcome_copyAll vs)
  intro w copies _ hc
  rw [Value.Owned.copyAll h] at hc
  exact (Except.ok.inj hc).symm

theorem define_owned {slot : Slot ε} (h : slot.value.Owned) :
    Keeps World.Owned (fun _ => True) (define slot : Exec ε σ Unit) := by
  intro w hw
  rw [outcome_define]
  split
  · next scope hd => exact ⟨Scope.All.define hw h hd, fun _ _ => trivial⟩
  · exact ⟨hw, fun _ _ => trivial⟩

theorem modifySlot_owned {path : Path} {f : Slot ε → Except Failure (Slot ε)}
    (hf : ∀ s t, s.value.Owned → f s = .ok t → t.value.Owned) :
    Keeps World.Owned (fun _ => True) (modifySlot path f : Exec ε σ Unit) := by
  intro w hw
  rw [outcome_modifySlot]
  split
  · next scope store hm =>
    obtain ⟨n, slot, changed, _, hn, hc, rfl, _⟩ := Scope.modify_every hw hm
    exact ⟨Scope.All.replace hw (hc.owned hf (Scope.Owned.find? hw hn)), fun _ _ => trivial⟩
  · exact ⟨hw, fun _ _ => trivial⟩

theorem nested_owned (hx : Keeps World.Owned Q x) : Keeps World.Owned Q (nested x) := by
  intro w hw
  rw [outcome_nested]
  obtain ⟨hafter, hq⟩ := hx { w with scope := w.scope.push } (Scope.All.push hw)
  exact ⟨Scope.All.pop hafter, hq⟩

theorem isolated_owned {scope : Scope ε} (hs : scope.Owned) (hx : Keeps World.Owned Q x) :
    Keeps World.Owned Q (isolated scope x) := by
  intro w hw
  rw [outcome_isolated]
  exact ⟨hw, (hx { w with scope, visited := none } hs).2⟩

end Exec

/-- The standard functions return scalars. -/
theorem Builtin.run_owned (b : Builtin) (args : List (Value ε)) :
    Exec.Keeps World.Owned Value.Owned (b.run args : Exec ε σ (Value ε)) := by
  unfold Builtin.run
  split
  · exact (Exec.emit_owned _).bind fun _ _ => .pure trivial
  · exact (Exec.emit_owned _).bind fun _ _ => .pure trivial
  · exact .throw
  · exact .pure trivial
  · exact .pure trivial
  · exact .pure trivial
  · exact .throw
  · exact .throw
  · exact .throw

/-! ## Evaluation -/

namespace Eval

variable {call : Caller ε σ}

open Exec

/-- Calls with owned functions and arguments keep worlds owned. -/
def OwnedCaller (call : Caller ε σ) : Prop :=
  ∀ f args, f.Owned → (∀ v ∈ args, v.Owned) → Keeps World.Owned Value.Owned (call f args)

/-- What a statement comes to shares nothing. -/
def OwnedOutcome (o : Outcome ε) : Prop :=
  o.unwrap.Owned

theorem asFunction_owned {slot : Slot ε} {f : Function ε} (h : slot.value.Owned)
    (hf : asFunction slot = .ok f) : f.Owned := by
  rw [asFunction_eq hf] at h
  exact h

/-- Nothing is shared in a run. -/
def owning : Judgement ε σ σ where
  value := Value.Owned
  slot s := s.value.Owned
  function := Function.Owned
  runs _ _ Q x _ := Keeps World.Owned Q x

theorem owning_lawful : (owning : Judgement ε σ σ).Lawful where
  null := trivial
  callee := asFunction_owned
  pure := .pure
  bind := .bind
  fail _ := .throw
  fresh := fresh_owned
  define := define_owned
  nested := nested_owned
  defining := id

variable [BEq ε]

theorem owning_expressions (hc : OwnedCaller call) :
    owning.Expressions call call fun _ => True where
  visits _ _ _ _ _ _ hx := (visit_owned _).bind fun _ _ => hx.adapt
  form {loc form} _ := by
    cases form with
    | ident name => exact read_owned _
    | member object member => exact read_owned _
    | number text => exact .ofFailing fun _ _ => trivial
    | string text => exact .ofExcept fun _ _ => trivial
    | boolean text => exact .ofExcept fun _ _ => trivial
    | null | group _ => trivial
    | call callee args =>
      exact ⟨resolve_owned _, fun _ _ => trivial, fun f values hf hv => (hc f values hf hv).adapt⟩
    | ternary condition thenBranch elseBranch => exact ⟨trivial, trivial, trivial⟩
    | assign target op value => exact ⟨trivial, fun _ ho => modifySlot_owned (assigned_owned ho)⟩
    | chain _ first rest =>
      refine ⟨trivial, fun _ _ => ⟨trivial, fun _ _ _ _ => ?_⟩⟩
      exact .ofFailing fun u hu => (Value.applyOperator_scalar hu).owned
    | unary op operand =>
      exact ⟨trivial, fun _ _ => .ofFailing fun u hu => (Value.applyUnary_scalar hu).owned⟩
    | bare | expression | block | function | declaration | ret | script => exact .throw

theorem owning_statements (hc : OwnedCaller call) :
    owning.Statements call call (fun _ => True) fun _ => True where
  expressions := owning_expressions hc
  visits := (owning_expressions hc).visits
  form {loc form} _ := by
    cases form with
    | script statements | block statements => exact fun _ _ => trivial
    | function name params body source => exact fun _ _ he => nomatch he
    | bare => exact .throw
    | ret expr => cases expr <;> trivial
    | _ => trivial

theorem evaluate_owned (hc : OwnedCaller call) (node : Node) :
    Keeps World.Owned Value.Owned (evaluate call node) :=
  evaluate_judged owning_lawful (owning_expressions hc) node trivial

theorem execute_owned (hc : OwnedCaller call) (node : Node) :
    Keeps World.Owned OwnedOutcome (execute call node) :=
  execute_judged owning_lawful (owning_statements hc) node trivial

/-- Calling a function that is not the host's, on arguments that share nothing, keeps a world
owned.  The induction is on the number of calls that may be open. -/
theorem callFunction_owned (host : Host ε σ) (depth : Nat) :
    OwnedCaller (callFunction host depth) := by
  induction depth with
  | zero =>
    intro f args _ _
    rw [callFunction]
    exact .throw
  | succ depth ih =>
    intro f args hf hargs
    rw [callFunction]
    refine Keeps.bind (P := fun _ => True) (.ofExcept fun _ _ => trivial) fun _ _ => ?_
    split
    · next id function hcb =>
      apply (copyAll_owned args hargs).bind
      intro own hown
      subst hown
      refine isolated_owned (Scope.Owned.ofParams function.params hargs) ?_
      exact body_judged owning_lawful (owning_statements ih) fun _ _ => trivial
    · exact Builtin.run_owned _ args
    · next e hcb => exact (hf e hcb).elim

end Eval

end Scriptlet
