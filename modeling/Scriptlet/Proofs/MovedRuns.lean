import Scriptlet.Proofs.Relocation
import Scriptlet.Proofs.RewrittenRuns

/-!
# Runs of a tree with other locations

A tree with other locations runs like the tree itself, in a world with other locations, and comes to
the same end with other locations (`executeAll_moves`).  The messages that were sent before do not
matter either, so the two worlds may also differ in the messages that stand in front.

Functions of the host could tell the two runs apart.  The runs are compared for a host that does
nothing, and in a world without functions of the host every host is as good as any other
(`executeAll_hosts`).
-/

namespace Scriptlet

set_option autoImplicit false

variable {ε σ : Type} {move : Location → Location}

/-! ## Failures and worlds -/

/-- An open call whose locations are moved. -/
def CallFrame.moved (move : Location → Location) (frame : CallFrame ε) : CallFrame ε :=
  ⟨frame.name, frame.args.map (Value.moved move), frame.site.map move⟩

/-- A failure whose locations are moved. -/
def Fault.moved (move : Location → Location) : Fault ε → Fault ε
  | error e => error ⟨e.cause, e.loc.map move, e.trace.map (CallFrame.moved move)⟩
  | breakdown b => breakdown b

/-- What a statement comes to, with other locations. -/
def Outcome.moved (move : Location → Location) : Outcome ε → Outcome ε
  | value v => value (v.moved move)
  | returned v => returned (v.moved move)

/-- A world with other locations, and with messages in front of those that were sent. -/
def World.moved (move : Location → Location) (sent : List Effect) (w : World ε σ) : World ε σ :=
  ⟨w.scope.moved move, w.store.moved move, w.visited.map (Node.moved move), sent ++ w.effects, w.made,
    w.host⟩

theorem Fault.moved_eq : (e : Fault ε) → e.moved move = e.rewritten (.moving move)
  | .error e => by
    have hframe : CallFrame.moved move = (CallFrame.rewritten (.moving move) : CallFrame ε → _) := by
      funext frame
      rw [CallFrame.moved, CallFrame.rewritten, funext Value.moved_eq]
      rfl
    rw [moved, rewritten, hframe]
    rfl
  | .breakdown b => rfl

theorem Outcome.moved_eq (o : Outcome ε) : o.moved move = o.rewritten (.moving move) := by
  cases o with
  | value v => exact congrArg value v.moved_eq
  | returned v => exact congrArg returned v.moved_eq

theorem World.moved_eq (sent : List Effect) (w : World ε σ) :
    w.moved move sent = w.rewritten (.moving move) sent := by
  rw [moved, rewritten, Scope.moved_eq, Store.moved_eq]
  rfl

/-! ## Computations -/

/-- `y` runs in moved worlds like `x` in the worlds themselves, and its result is moved by `g`. -/
def Exec.Moves {α β : Type} (move : Location → Location) (sent : List Effect) (g : α → β)
    (x : Exec ε σ α) (y : Exec ε σ β) : Prop :=
  ∀ w, y.outcome (w.moved move sent) =
    (((x.outcome w).1.map g).mapError (Fault.moved move), (x.outcome w).2.moved move sent)

/-- A host that leaves everything as it is and answers with null. -/
def Host.idle : Host ε σ :=
  ⟨fun _ _ access => (.value .null, access)⟩

namespace Eval

open Exec

variable [BEq ε]

/-- Moved statements run like the statements themselves, where the host does nothing. -/
theorem executeAll_moves (ht : ∀ loc, (move loc).text = loc.text) (sent : List Effect) (depth : Nat)
    (nodes : List Node) :
    Moves (ε := ε) (σ := σ) move sent (Outcome.moved move)
      (executeAll (callFunction Host.idle depth) (.value .null) nodes)
      (executeAll (callFunction Host.idle depth) (.value .null) (Node.movedAll move nodes)) := by
  have hmoving : (Rewriting.moving move).Faithful := Rewriting.moving_faithful ht
  have hidle : (Host.idle : Host ε σ).IgnoresBodies := fun _ _ _ _ => rfl
  have hcallers : RewritingCallers (.moving move) sent (callFunction (Host.idle : Host ε σ) depth)
      (callFunction Host.idle depth) := callFunction_rewrites hmoving hidle depth
  have hruns := executeAll_rewrites hmoving hcallers (.value .null) nodes
  intro w
  rw [World.moved_eq, World.moved_eq, Node.movedAll_eq_map, funext Outcome.moved_eq,
    funext Fault.moved_eq]
  exact hruns w

/-- A function that is not the host's is called without asking the host. -/
theorem callWith_owned (host host' : Host ε σ) (inner : Caller ε σ) {f : Function ε}
    (hf : f.Owned) (args : List (Value ε)) :
    callWith host inner f args = callWith host' inner f args := by
  rw [callWith, callWith]
  cases hcb : f.callback with
  | script id function => rfl
  | builtin b => rfl
  | host e => exact (hf e hcb).elim

/-- Functions that are not the host's are called alike by every host. -/
theorem callFunction_hosts (host host' : Host ε σ) (π : Terms ε)
    (hπ : Function.Closed π.function π.fails) (depth : Nat) :
    FollowingCallers π (callFunction host depth) (callFunction host' depth) := by
  induction depth generalizing π with
  | zero => exact fun _ _ _ _ => .throw (π.ordinary _ rfl)
  | succ depth ih =>
    intro f args hf hargs
    have howned := hπ.owned f hf
    rw [callFunction_succ, callFunction_succ, callWith_owned host' host _ howned]
    refine callWith_follows host π.function howned hargs (fun _ hg => hg) ?_
    intro id g hg
    obtain ⟨hraises, hdeclared⟩ := hπ.body f id g hf hg
    exact ⟨hraises, hdeclared, ih (π.inside π.function) hπ⟩

/-- In a world without functions of the host, every host is as good as any other, and the world stays
without them. -/
theorem executeAll_hosts (host host' : Host ε σ) (depth : Nat) (nodes : List Node) {w : World ε σ}
    (hw : w.Hostless) :
    (executeAll (callFunction host' depth) (.value .null) nodes).outcome w =
        (executeAll (callFunction host depth) (.value .null) nodes).outcome w ∧
      ((executeAll (callFunction host depth) (.value .null) nodes).outcome w).2.Hostless := by
  let π : Terms ε := .failing Function.Owned True (fun _ => True) fun _ => False
  have hc := callFunction_hosts host host' π Function.closed_owned depth
  have hcourse := executeAll_follows hc (.value .null) trivial nodes (fun _ _ => trivial)
    (fun _ _ => trivial) (fun _ _ _ _ he => nomatch he) w hw
  refine ⟨hcourse.same.resolve_right ?_, hcourse.holds⟩
  rintro ⟨_, hparts, _⟩
  exact hparts

end Eval

end Scriptlet
