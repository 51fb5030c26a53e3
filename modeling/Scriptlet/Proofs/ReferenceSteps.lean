import Scriptlet.Proofs.NoSharing
import Scriptlet.Proofs.Raising

/-!
# Steps by reference

A step of a run by reference does to the scope in the heap what the step on trees does to the tree.
`Follows` compares two computations from every machine whose scope stands for a tree: afterwards the scope
stands for the tree that the other computation leaves, on cells that it had or that are new, and what is
returned stands on new cells of its own (`Ends`).  An error holds the arguments of its calls by reference, and
these still show the values that were passed.
-/

namespace Scriptlet

set_option autoImplicit false

/-! ## Values without their fields -/

namespace Value

variable {ε : Type}

/-- A value as far as operators and standard functions look at it. -/
def head : Value ε → Value ε
  | object _ => .object []
  | shared _ _ => .object []
  | v => v

theorem applyUnary_head (op : String) (v : Value ε) : v.head.applyUnary op = v.applyUnary op := by
  cases v <;> rfl

theorem applyOperator_head [BEq ε] (op : String) (v w : Value ε) :
    v.head.applyOperator op w.head = v.applyOperator op w := by
  cases v <;> cases w <;> rfl

theorem text_head (v : Value ε) : v.head.text = v.text := by
  cases v <;> rfl

end Value

theorem Holds.head_eq {heap : Heap Empty} {held : Held Empty} {v : Value Empty} {own : List Nat}
    (h : Holds heap held v own) : held.head = v.head := by
  cases h with
  | value hv =>
    cases v with
    | object fields => exact (hv rfl).elim
    | shared holder place => exact nomatch holder
    | _ => rfl
  | object => rfl

theorem Heap.Shows.head_eq {heap : Heap Empty} {held : Held Empty} {v : Value Empty}
    (h : heap.Shows held v) : held.head = v.head :=
  let ⟨_, hholds⟩ := h.holds
  hholds.head_eq

theorem HoldsSlot.head_eq {heap : Heap Empty} {name : String} {a : Nat} {slot : Slot Empty} {own : List Nat}
    (h : HoldsSlot heap (name, a) slot own) : (heap.slot a).2.head = slot.value.head := by
  cases h with
  | mk hcell hheld =>
    rw [Heap.slot_eq hcell]
    exact hheld.head_eq

/-- What is no object is held by itself. -/
theorem Value.IsScalar.variant_ne {ε : Type} {v : Value ε} (h : v.IsScalar) : v.variant ≠ .object := by
  cases v with
  | object _ | shared _ _ => exact h.elim
  | _ => exact nofun

namespace Machine

open Run

@[simp] theorem world_scope (m : Machine) (s : Scope Empty) : (m.world s).scope = s := rfl

@[simp] theorem world_store (m : Machine) (s : Scope Empty) : (m.world s).store = .empty := rfl

/-! ## Outcomes -/

namespace Run

variable {α β : Type}

@[simp] theorem outcome_pure (a : α) (m : Machine) : (pure a : Run α).outcome m = (.ok a, m) := rfl

theorem outcome_bind (x : Run α) (f : α → Run β) (m : Machine) :
    (x >>= f).outcome m =
      match x.outcome m with
      | (.ok a, after) => (f a).outcome after
      | (.error e, after) => (.error e, after) := by
  simp only [outcome, ExceptT.run, bind, ExceptT.bind, ExceptT.mk, StateT.bind, StateT.run]
  generalize x m = r
  obtain ⟨_ | a, after⟩ := r <;> rfl

@[simp] theorem outcome_adapt (f : Fault → Fault) (x : Run α) (m : Machine) :
    (adapt f x).outcome m = ((x.outcome m).1.mapError f, (x.outcome m).2) := rfl

@[simp] theorem outcome_ofExcept (r : Except Cause α) (m : Machine) :
    (Run.ofExcept r).outcome m = (r.mapError .ofCause, m) := by
  cases r <;> rfl

@[simp] theorem outcome_ofFailing (r : Except Failure α) (m : Machine) :
    (ofFailing r).outcome m = (r.mapError .ofFailure, m) := by
  cases r <;> rfl

theorem outcome_copy (held : Held Empty) (m : Machine) :
    (copy held).outcome m =
      match m.heap.clone held with
      | .ok (copied, heap) => (.ok copied, { m with heap })
      | .error b => (.error (.breakdown b), m) := by
  change (ofBreaking (m.heap.clone held) >>= fun p => do set { m with heap := p.2 }; pure p.1).outcome m = _
  rw [outcome_bind]
  cases m.heap.clone held <;> rfl

theorem outcome_resolve (scope : Nat) (path : Path) (m : Machine) :
    (resolve scope path).outcome m =
      (((m.heap.resolve scope path).map fun slot => (m.heap.slot slot).2).mapError .ofCause, m) := by
  change (Run.ofExcept (m.heap.resolve scope path) >>= fun slot => pure (m.heap.slot slot).2).outcome m = _
  rw [outcome_bind, outcome_ofExcept]
  cases m.heap.resolve scope path <;> rfl

theorem outcome_define (scope : Nat) (name : String) (isMutable : Bool) (held : Held Empty) (m : Machine) :
    (define scope name isMutable held).outcome m =
      match m.heap.define scope name isMutable held with
      | .ok heap => (.ok (), { m with heap })
      | .error cause => (.error (.ofCause cause), m) := by
  change (Run.ofExcept (m.heap.define scope name isMutable held) >>=
    fun heap => set { m with heap }).outcome m = _
  rw [outcome_bind, outcome_ofExcept]
  cases m.heap.define scope name isMutable held <;> rfl

/-- The heap after an assignment to a slot. -/
def putAssigned (heap : Heap Empty) (op : String) (operand : Held Empty) (slot : Nat) :
    Except Failure (Heap Empty) := do
  let held ← assigned op (heap.slot slot).2 operand
  (heap.setValue held slot).mapError .error

theorem outcome_assign (scope : Nat) (path : Path) (op : String) (operand : Held Empty) (m : Machine) :
    (assign scope path op operand).outcome m =
      match (m.heap.resolve scope path).mapError .error >>= putAssigned m.heap op operand with
      | .ok heap => (.ok (), { m with heap })
      | .error failure => (.error (.ofFailure failure), m) := by
  change (Run.ofExcept (m.heap.resolve scope path) >>= fun slot =>
    ofFailing (assigned op (m.heap.slot slot).2 operand) >>= fun held =>
    Run.ofExcept (m.heap.setValue held slot) >>= fun heap => set { m with heap }).outcome m = _
  rw [outcome_bind, outcome_ofExcept]
  cases m.heap.resolve scope path with
  | error cause => rfl
  | ok slot =>
    show (ofFailing (assigned op (m.heap.slot slot).2 operand) >>= _).outcome m =
      match putAssigned m.heap op operand slot with
      | .ok heap => _
      | .error failure => _
    rw [outcome_bind, outcome_ofFailing, putAssigned]
    cases assigned op (m.heap.slot slot).2 operand with
    | error failure => rfl
    | ok held =>
      show (Run.ofExcept (m.heap.setValue held slot) >>= _).outcome m =
        match (m.heap.setValue held slot).mapError Failure.error with
        | .ok heap => _
        | .error failure => _
      rw [outcome_bind, outcome_ofExcept]
      cases m.heap.setValue held slot <;> rfl

end Run

/-! ## Failures -/

/-- A call whose arguments show those of a call of trees. -/
structure Call.StandsFor (heap : Heap Empty) (call : Call) (frame : CallFrame Empty) : Prop where
  name : call.name = frame.name
  args : List.Forall₂ heap.Shows call.args frame.args
  site : call.site = frame.site

/-- A failure whose calls show those of a failure of trees. -/
inductive Fault.StandsFor (heap : Heap Empty) : Fault → Scriptlet.Fault Empty → Prop
  | error {cause : Cause} {loc : Option Location} {trace : List Call} {frames : List (CallFrame Empty)} :
    List.Forall₂ (Call.StandsFor heap) trace frames →
    StandsFor heap (.error cause loc trace) (.error ⟨cause, loc, frames⟩)
  | breakdown (b : Breakdown) : StandsFor heap (.breakdown b) (.breakdown b)

namespace Fault.StandsFor

variable {heap : Heap Empty} {fault : Fault} {fault' : Scriptlet.Fault Empty}

theorem ofCause (heap : Heap Empty) (cause : Cause) :
    StandsFor heap (Fault.ofCause cause) (Scriptlet.Fault.ofCause cause) :=
  .error .nil

theorem ofFailure (heap : Heap Empty) (failure : Failure) :
    StandsFor heap (Fault.ofFailure failure) (Scriptlet.Fault.ofFailure failure) := by
  cases failure with
  | error cause => exact ofCause heap cause
  | breakdown b => exact .breakdown b

theorem attach (h : StandsFor heap fault fault') (loc : Option Location) :
    StandsFor heap (fault.attach loc) (fault'.attach loc) := by
  cases h with
  | error htrace => exact .error htrace
  | breakdown b => exact .breakdown b

theorem through (h : StandsFor heap fault fault') {call : Call} {frame : CallFrame Empty}
    (hcall : call.StandsFor heap frame) : StandsFor heap (fault.through call) (fault'.through frame) := by
  cases h with
  | error htrace => exact .error (List.rel_append htrace (.cons hcall .nil))
  | breakdown b => exact .breakdown b

end Fault.StandsFor

/-! ## Comparing runs -/

section Comparing

variable {α β γ δ : Type}

/-- How a run by reference ends where the run on trees ends in a given way.  What is returned is related by
`R` and stands on cells that are not older than `old` and apart from those in use. -/
inductive Ends (R : Heap Empty → α → β → List Nat → Prop) (heap : Heap Empty) (old : Nat) (own : List Nat) :
    Except Fault α → Except (Scriptlet.Fault Empty) β → Prop
  | ok {a : α} {b : β} {built : List Nat} : R heap a b built → (own ++ built).Nodup →
    (∀ c ∈ built, old ≤ c) → Ends R heap old own (.ok a) (.ok b)
  | error {fault : Fault} {fault' : Scriptlet.Fault Empty} : fault.StandsFor heap fault' →
    Ends R heap old own (.error fault) (.error fault')

/-- A run by reference, begun where the heap was `start` and the scope had the footprint `own`, comes to
where the run on trees comes to. -/
inductive Leads (scope : Nat) (R : Heap Empty → α → β → List Nat → Prop) (start : Heap Empty)
    (own : List Nat) (r : Except Fault α × Machine)
    (q : Except (Scriptlet.Fault Empty) β × World Empty Unit) : Prop
  | to (s : Scope Empty) (own' : List Nat) : q.2 = r.2.world s → HoldsScope r.2.heap scope s own' →
    start.Moves r.2.heap own own' → Ends R r.2.heap start.cells.length own' r.1 q.1 →
    Leads scope R start own r q

/-- A computation by reference follows one on trees. -/
def Follows (scope : Nat) (R : Heap Empty → α → β → List Nat → Prop) (x : Run α)
    (y : Exec Empty Unit β) : Prop :=
  ∀ m s own, HoldsScope m.heap scope s own →
    Leads scope R m.heap own (x.outcome m) (y.outcome (m.world s))

variable {R : Heap Empty → α → β → List Nat → Prop} {S : Heap Empty → γ → δ → List Nat → Prop}
  {P : α → β → Prop} {scope old : Nat} {own own' : List Nat} {start heap : Heap Empty} {m : Machine}
  {s : Scope Empty} {x : Run α} {y : Exec Empty Unit β} {f : α → Run γ} {g : β → Exec Empty Unit δ}

theorem Ends.imp {R' : Heap Empty → α → β → List Nat → Prop} {r : Except Fault α}
    {q : Except (Scriptlet.Fault Empty) β} (h : Ends R heap old own r q)
    (hR : ∀ a b built, R heap a b built → R' heap a b built) : Ends R' heap old own r q := by
  cases h with
  | ok hab hapart hnew => exact .ok (hR _ _ _ hab) hapart hnew
  | error hfault => exact .error hfault

theorem Ends.older {r : Except Fault α} {q : Except (Scriptlet.Fault Empty) β} (h : Ends R heap old own r q)
    {old' : Nat} (hold : old' ≤ old) : Ends R heap old' own r q := by
  cases h with
  | ok hab hapart hnew => exact .ok hab hapart fun c hc => hold.trans (hnew c hc)
  | error hfault => exact .error hfault

theorem Ends.narrow {r : Except Fault α} {q : Except (Scriptlet.Fault Empty) β} (h : Ends R heap old own r q)
    (hsub : own'.Sublist own) : Ends R heap old own' r q := by
  cases h with
  | ok hab hapart hnew => exact .ok hab (hapart.sublist (hsub.append_right _)) hnew
  | error hfault => exact .error hfault

/-- What is returned has nothing of its own. -/
theorem Ends.pure {a : α} {b : β} (hR : R heap a b []) (hnodup : own.Nodup) :
    Ends R heap old own (.ok a) (.ok b) :=
  .ok hR (by rwa [List.append_nil]) (List.forall_mem_nil _)

theorem Ends.mapError {r : Except Fault α} {q : Except (Scriptlet.Fault Empty) β}
    (h : Ends R heap old own r q) {f : Fault → Fault} {g : Scriptlet.Fault Empty → Scriptlet.Fault Empty}
    (hfg : ∀ fault fault', fault.StandsFor heap fault' → (f fault).StandsFor heap (g fault')) :
    Ends R heap old own (r.mapError f) (q.mapError g) := by
  cases h with
  | ok hab hapart hnew => exact .ok hab hapart hnew
  | error hfault => exact .error (hfg _ _ hfault)

/-- A computation that follows another one does so in the midst of a run. -/
theorem Follows.leads (h : Follows scope R x y) (hs : HoldsScope m.heap scope s own')
    (hmoves : start.Moves m.heap own own') :
    Leads scope R start own (x.outcome m) (y.outcome (m.world s)) := by
  obtain ⟨s', own'', hworld, hscope, hmoves', hends⟩ := h m s own' hs
  exact ⟨s', own'', hworld, hscope, hmoves.trans hmoves', hends.older hmoves.extends_heap.length_le⟩

theorem Leads.bind {w : World Empty Unit}
    (hx : Leads scope R start own (x.outcome m) (y.outcome w))
    (hf : ∀ a b m' s' own' built, HoldsScope m'.heap scope s' own' → start.Moves m'.heap own own' →
      R m'.heap a b built → (own' ++ built).Nodup → (∀ c ∈ built, start.cells.length ≤ c) →
      Leads scope S start own ((f a).outcome m') ((g b).outcome (m'.world s'))) :
    Leads scope S start own ((x >>= f).outcome m) ((y >>= g).outcome w) := by
  rw [outcome_bind, Exec.outcome_bind]
  obtain ⟨s', own', hworld, hscope, hmoves, hends⟩ := hx
  generalize x.outcome m = r at hworld hscope hmoves hends ⊢
  generalize y.outcome w = q at hworld hends ⊢
  obtain ⟨r, after⟩ := r
  obtain ⟨q, w'⟩ := q
  obtain rfl : w' = after.world s' := hworld
  cases hends with
  | ok hab hapart hnew => exact hf _ _ _ _ _ _ hscope hmoves hab hapart hnew
  | error hfault => exact ⟨s', own', rfl, hscope, hmoves, .error hfault⟩

/-- What has been evaluated before stays what it is. -/
theorem Leads.beside {r : Except Fault α × Machine} {q : Except (Scriptlet.Fault Empty) β × World Empty Unit}
    {built : List Nat} {held : Held Empty} {v : Value Empty} (h : Leads scope R m.heap own' r q)
    (hmoves : start.Moves m.heap own own') (hv : StandsFor m.heap held v built)
    (hapart : (own' ++ built).Nodup) (hnew : ∀ c ∈ built, start.cells.length ≤ c) :
    Leads scope (fun heap a b all => ∃ built', StandsFor heap held v built ∧ R heap a b built' ∧
      all = built ++ built') start own r q := by
  obtain ⟨s', own'', hworld, hs', hmoves', hends⟩ := h
  refine ⟨s', own'', hworld, hs', hmoves.trans hmoves', ?_⟩
  generalize r.1 = e at hends ⊢
  generalize q.1 = e' at hends ⊢
  cases hends with
  | error hfault => exact .error hfault
  | @ok a b built' hab hapart' hnew' =>
    have hlength := hmoves.extends_heap.length_le
    refine .ok ⟨built', hv.moves hmoves' hapart, hab, rfl⟩ ?_ (List.forall_mem_append.2 ⟨hnew, fun c hc =>
      hlength.trans (hnew' c hc)⟩)
    have hkept := hmoves'.apart hs'.nodup hapart hv.holds.bound
    rw [← List.append_assoc]
    refine List.nodup_append.2 ⟨hkept, (List.nodup_append.1 hapart').2.1, fun x hx y hy => ?_⟩
    rcases List.mem_append.1 hx with hx | hx
    · exact (List.nodup_append.1 hapart').2.2 x hx y hy
    · exact Nat.ne_of_lt (Nat.lt_of_lt_of_le (hv.holds.bound x hx) (hnew' y hy))

/-- A run goes on with results that are related by themselves. -/
theorem Follows.bind_of (hx : Follows scope (fun _ a b _ => P a b) x y)
    (hf : ∀ a b, P a b → Follows scope S (f a) (g b)) : Follows scope S (x >>= f) (y >>= g) :=
  fun m s own hs => (hx m s own hs).bind fun a b _ _ _ _ hscope hmoves hab _ _ =>
    (hf a b hab).leads hscope hmoves

theorem Follows.imp {R' : Heap Empty → α → β → List Nat → Prop} (h : Follows scope R x y)
    (hR : ∀ heap a b built, R heap a b built → R' heap a b built) : Follows scope R' x y := by
  intro m s own hs
  obtain ⟨s', own', hworld, hscope, hmoves, hends⟩ := h m s own hs
  exact ⟨s', own', hworld, hscope, hmoves, hends.imp (hR _)⟩

/-- A computation that leaves the machine alone. -/
theorem Follows.of_outcome
    (h : ∀ m s own, HoldsScope m.heap scope s own → ∃ r q, x.outcome m = (r, m) ∧
      y.outcome (m.world s) = (q, m.world s) ∧ Ends R m.heap m.heap.cells.length own r q) :
    Follows scope R x y := by
  intro m s own hs
  obtain ⟨r, q, hr, hq, hends⟩ := h m s own hs
  rw [hr, hq]
  exact ⟨s, own, rfl, hs, .refl _ _, hends⟩

theorem Leads.pure {a : α} {b : β} {built : List Nat} (hs : HoldsScope m.heap scope s own')
    (hmoves : start.Moves m.heap own own') (hR : R m.heap a b built) (hapart : (own' ++ built).Nodup)
    (hnew : ∀ c ∈ built, start.cells.length ≤ c) :
    Leads scope R start own ((Pure.pure a : Run α).outcome m)
      ((Pure.pure b : Exec Empty Unit β).outcome (m.world s)) :=
  ⟨s, own', rfl, hs, hmoves, .ok hR hapart hnew⟩

theorem Follows.pure {a : α} {b : β} (hR : ∀ heap, R heap a b []) :
    Follows scope R (Pure.pure a) (Pure.pure b) :=
  .of_outcome fun m _ _ hs => ⟨_, _, rfl, rfl, .pure (hR m.heap) hs.nodup⟩

/-- The result of a computation may be wrapped up. -/
theorem Follows.map {f : α → γ} {g : β → δ} (hx : Follows scope R x y)
    (hR : ∀ heap a b built, R heap a b built → S heap (f a) (g b) built) :
    Follows scope S (x >>= fun a => Pure.pure (f a)) (y >>= fun b => Pure.pure (g b)) :=
  fun m s own hs => (hx m s own hs).bind fun _ _ _ _ _ _ hscope hmoves hab hapart hnew =>
    .pure hscope hmoves (hR _ _ _ _ hab) hapart hnew

/-- Where only the head of a value is looked at. -/
theorem Follows.head {x : Run (Held Empty)} {y : Exec Empty Unit (Value Empty)}
    (h : Follows scope StandsFor x y) : Follows scope (fun _ held v _ => held.head = v.head) x y :=
  h.imp fun _ _ _ _ hv => hv.holds.head_eq

theorem Follows.ofFailing (r : Except Failure α) :
    Follows scope (fun _ a b _ => r = .ok a ∧ a = b) (ofFailing r) (Exec.ofFailing r) := by
  refine .of_outcome fun m s own hs => ⟨_, _, outcome_ofFailing r m, Exec.outcome_ofFailing r _, ?_⟩
  cases r with
  | ok a => exact .pure ⟨rfl, rfl⟩ hs.nodup
  | error failure => exact .error (.ofFailure _ _)

theorem Follows.ofExcept (r : Except Cause α) :
    Follows scope (fun _ a b _ => a = b) (Run.ofExcept r) (Exec.ofExcept r) := by
  refine .of_outcome fun m s own hs => ⟨_, _, outcome_ofExcept r m, Exec.outcome_ofExcept r _, ?_⟩
  cases r with
  | ok a => exact .pure rfl hs.nodup
  | error cause => exact .error (.ofCause _ _)

theorem Follows.breakDown (b : Breakdown) :
    Follows scope R (breakDown b : Run α) (Exec.breakDown b : Exec Empty Unit β) :=
  .of_outcome fun _ _ _ _ => ⟨_, _, rfl, rfl, .error (.breakdown b)⟩

theorem Follows.fail (cause : Cause) :
    Follows scope R (Run.ofExcept (.error cause) : Run α) (Exec.fail cause : Exec Empty Unit β) :=
  .of_outcome fun _ _ _ _ => ⟨_, _, rfl, rfl, .error (.ofCause _ cause)⟩

end Comparing

/-! ## Steps -/

section Steps

variable {scope : Nat} {own own' built : List Nat} {start : Heap Empty} {m : Machine} {s : Scope Empty}
  {held : Held Empty} {v : Value Empty}

theorem standsFor_null (heap : Heap Empty) : StandsFor heap (.value .null) .null [] :=
  .value (by decide) trivial

theorem Follows.resolve (path : Path) :
    Follows scope (fun _ held slot _ => held.head = slot.value.head) (resolve scope path)
      (Exec.resolve path) := by
  refine .of_outcome fun m s own hs => ⟨_, _, outcome_resolve scope path m, Exec.outcome_resolve path _, ?_⟩
  rw [world_scope, world_store]
  rcases hs.resolve path with ⟨cause, htree, hheap⟩ | ⟨slot, a, htree, hheap, -, hshows⟩
  · rw [htree, hheap]
    exact .error (.ofCause _ cause)
  · rw [htree, hheap]
    exact .pure hshows.head_eq hs.nodup

/-- A path is read as a copy, on new cells. -/
theorem Follows.read (path : Path) : Follows scope StandsFor (read scope path) (Exec.read path) := by
  intro m s own hs
  rw [Run.read, outcome_bind, outcome_resolve, Exec.outcome_read, world_scope, world_store]
  rcases hs.resolve path with ⟨cause, htree, hheap⟩ | ⟨slot, a, htree, hheap, -, hshows⟩
  · rw [htree, hheap]
    exact ⟨s, own, rfl, hs, .refl _ _, .error (.ofCause _ cause)⟩
  · obtain ⟨copied, heap', built, hclone, hadds, hcopied⟩ := hshows.clone
    rw [htree, hheap]
    show Leads _ _ _ _ ((copy (m.heap.slot a).2).outcome m) ((Store.empty.copy slot.value).mapError _, _)
    rw [outcome_copy, hclone, Store.copy_eq_self]
    have hnew : ∀ c ∈ built, m.heap.cells.length ≤ c := fun c hc => (hadds.bounds c hc).1
    exact ⟨s, own, rfl, hs.grows hadds.grows, (Heap.Moves.refl _ _).grow hadds.grows,
      .ok hcopied (hs.apart hadds.nodup hnew) hnew⟩

/-- A definition takes its value in. -/
theorem define_leads (hs : HoldsScope m.heap scope s own') (hmoves : start.Moves m.heap own own')
    (hv : StandsFor m.heap held v built) (hapart : (own' ++ built).Nodup)
    (hnew : ∀ c ∈ built, start.cells.length ≤ c) (name : String) (isMutable : Bool) :
    Leads scope (fun _ _ _ _ => True) start own ((define scope name isMutable held).outcome m)
      ((Exec.define ⟨name, isMutable, v⟩).outcome (m.world s)) := by
  rw [outcome_define, Exec.outcome_define, world_scope]
  rcases hs.define ⟨name, isMutable, v⟩ hv.holds hv.fresh hapart with
    ⟨cause, htree, hheap⟩ | ⟨s', heap', own'', htree, hheap, hs', hchanges, hextends⟩
  · rw [htree, hheap]
    exact ⟨s, own', rfl, hs, hmoves, .error (.ofCause _ cause)⟩
  · rw [htree, hheap]
    have hbuilt : ∀ c ∈ built ++ [m.heap.cells.length], start.cells.length ≤ c :=
      List.forall_mem_append.2 ⟨hnew, List.forall_mem_singleton.2 hmoves.extends_heap.length_le⟩
    exact ⟨s', own'', rfl, hs', hmoves.change hchanges hextends hbuilt, .pure trivial hs'.nodup⟩

/-- What an assignment puts into a slot stands for what it puts into the slot of trees. -/
theorem putAssigned_alters {slot : Slot Empty} {a : Nat} {part : List Nat} (op : String)
    (hslot : HoldsSlot m.heap (slot.name, a) slot part) (hv : StandsFor m.heap held v built)
    (hapart : (part ++ built).Nodup) :
    Alters m.heap built part (HoldsNamed slot.name a) (Eval.assigned op v slot)
      (putAssigned m.heap op held a) := by
  have hupdate : ∀ binary, Alters m.heap built part (HoldsNamed slot.name a)
      (Eval.assigned.update v slot binary)
      (assigned.update (m.heap.slot a).2 held binary >>= fun held =>
        (m.heap.setValue held a).mapError .error) := by
    intro binary
    rw [Eval.assigned.update, assigned.update, hslot.head_eq, hv.holds.head_eq, Value.applyOperator_head]
    cases hu : slot.value.applyOperator binary v with
    | error failure => exact .fails failure
    | ok u =>
      have hheld : Holds m.heap (.value u) u [] := .value (Value.applyOperator_scalar hu).variant_ne
      have hpart : (part ++ []).Nodup := by
        rw [List.append_nil]
        exact (List.nodup_append.1 hapart).1
      exact (hslot.setValue hheld hpart).unused
  rw [Eval.assigned, putAssigned, assigned]
  by_cases hop : op = "="
  · rw [if_pos hop, if_pos hop]
    exact hslot.setValue hv.holds hapart
  rw [if_neg hop, if_neg hop]
  by_cases hadd : op = "+="
  · rw [if_pos hadd, if_pos hadd]
    exact hupdate "+"
  rw [if_neg hadd, if_neg hadd]
  by_cases hsub : op = "-="
  · rw [if_pos hsub, if_pos hsub]
    exact hupdate "-"
  rw [if_neg hsub, if_neg hsub]
  by_cases hmul : op = "*="
  · rw [if_pos hmul, if_pos hmul]
    exact hupdate "*"
  rw [if_neg hmul, if_neg hmul]
  exact .fails _

theorem putAssigned_extends {heap heap' : Heap Empty} {op : String} {a : Nat}
    (h : putAssigned heap op held a = .ok heap') : heap.Extends heap' := by
  obtain ⟨_, _, hset⟩ := except_bind_eq_ok.1 h
  exact .setValue (mapError_eq_ok.1 hset)

/-- An assignment takes its operand in. -/
theorem assign_leads (hs : HoldsScope m.heap scope s own') (hmoves : start.Moves m.heap own own')
    (hv : StandsFor m.heap held v built) (hapart : (own' ++ built).Nodup)
    (hnew : ∀ c ∈ built, start.cells.length ≤ c) (path : Path) (op : String) :
    Leads scope (fun _ _ _ _ => True) start own ((assign scope path op held).outcome m)
      ((Exec.modifySlot path (Eval.assigned op v)).outcome (m.world s)) := by
  rw [outcome_assign, Exec.outcome_modifySlot, world_scope, world_store]
  have hfresh : ∀ s t : Slot Empty, s.value.Fresh → Eval.assigned op v s = .ok t → t.value.Fresh := by
    intro s t _ ht
    obtain ⟨u, hu, ⟨_, rfl⟩ | ⟨binary, hbinary⟩⟩ := Eval.assigned_eq ht
    · rw [(Slot.assign_eq hu).2.2]
      exact hv.fresh
    · rw [(Slot.assign_eq hu).2.2]
      exact (Value.applyOperator_scalar hbinary).fresh
  have halters := hs.alter hapart path
    (fun slot a part hslot hpart => putAssigned_alters op hslot hv hpart) hfresh
  generalize s.modify .empty path (Eval.assigned op v) = tree at halters ⊢
  generalize hafter : (m.heap.resolve scope path).mapError Failure.error >>= putAssigned m.heap op held =
    after at halters ⊢
  cases halters with
  | fails failure => exact ⟨s, own', rfl, hs, hmoves, .error (.ofFailure _ failure)⟩
  | @changes tree heap' own'' hchanged hkept =>
    obtain ⟨s', store⟩ := tree
    obtain ⟨rfl, hs'⟩ := hchanged
    obtain ⟨a, _, hput⟩ := except_bind_eq_ok.1 hafter
    exact ⟨s', own'', rfl, hs', hmoves.change hkept (putAssigned_extends hput) hnew, .pure trivial hs'.nodup⟩

/-- The statements of a block run on a frame of their own. -/
theorem Follows.nested {α β : Type} {R : Heap Empty → α → β → List Nat → Prop} {x : Nat → Run α}
    {y : Exec Empty Unit β} (h : ∀ nested, Follows nested R (x nested) y) :
    Follows scope R (nest scope >>= x) (Exec.nested y) := by
  intro m s own hs
  obtain ⟨hgrows, hnested⟩ := hs.nest
  obtain ⟨top, outer, hscope, _⟩ := hs.frames
  have hcell : (m.heap.nest scope).2.cells[(m.heap.nest scope).1]? =
      some (.scope m.heap.cells.length (top :: outer)) := by
    rw [Heap.nest, Heap.scope_eq hscope]
    exact Heap.alloc_cell _ _
  have hstart : m.heap.Moves (m.heap.nest scope).2 own ([m.heap.cells.length] ++ own) :=
    ((Heap.Moves.refl _ _).grow hgrows).widen (List.forall_mem_singleton.2 le_rfl)
  obtain ⟨t, own', hworld, ht, hmoves, hends⟩ := h (m.heap.nest scope).1
    { m with heap := (m.heap.nest scope).2 } s.push _ hnested
  obtain ⟨own'', hs', hsub⟩ := ht.unnest (hmoves.scopes _ _ _ hcell)
    (hmoves.scopes _ _ _ (Heap.cell_grows hgrows hscope))
  have hends' := (hends.older hgrows.length_le).narrow hsub
  exact ⟨t.pop, own'', congrArg (fun w : World Empty Unit => { w with scope := w.scope.pop }) hworld, hs',
    (hstart.trans hmoves).narrow hsub, hends'⟩

end Steps

end Machine

end Scriptlet
