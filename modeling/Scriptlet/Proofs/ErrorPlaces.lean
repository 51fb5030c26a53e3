import Scriptlet.Proofs.Judgements
import Scriptlet.Proofs.SourceLocations
import Scriptlet.Runner

/-!
# Errors point into the source

A report points at the outermost call that was open, or else at the place of the error.  Both belong
to the code that is run: a function may come from an earlier source, but an error that leaves a call
is reported at the call.  So whatever the functions in scope do, the place of a report is one of the
source at hand (`run_error_place`).

`Exec.Points L` says that the errors of a computation point at places in `L`, and the node visited
last is at one of them.  Nothing is asked of the functions that are called but that they leave the
visited node as it was.
-/

namespace Scriptlet

set_option autoImplicit false

variable {ε σ α β : Type} {L : Location → Prop}

/-! ## Computations -/

/-- The node visited last is at a place in `L`. -/
def World.VisitsIn (L : Location → Prop) (w : World ε σ) : Prop :=
  ∀ node ∈ w.visited, ∀ loc ∈ node.loc, L loc

/-- An error points at a place in `L`, if it has one. -/
def Fault.Points (L : Location → Prop) : Fault ε → Prop
  | .error e => ∀ loc ∈ Report.place e none, L loc
  | .breakdown _ => True

theorem Fault.points_ofFailure (failure : Failure) : Points L (.ofFailure failure : Fault ε) := by
  cases failure with
  | error cause => exact nofun
  | breakdown b => trivial

theorem Fault.Points.attach {fault : Fault ε} (h : fault.Points L) {loc : Option Location}
    (hloc : ∀ l ∈ loc, L l) : (fault.attach loc).Points L := by
  cases fault with
  | breakdown b => trivial
  | error e =>
    obtain ⟨cause, own, trace⟩ := e
    simp only [Points, Report.place, Fault.attach] at h ⊢
    split at h
    · exact h
    · cases own with
      | none => simpa using hloc
      | some l => exact h

/-- An error that comes out of a call points at the call. -/
theorem Fault.points_through (fault : Fault ε) {frame : CallFrame ε} (h : ∀ l ∈ frame.site, L l) :
    (fault.through frame).Points L := by
  cases fault with
  | breakdown b => trivial
  | error e =>
    simp only [Points, Report.place, Fault.through, List.getLast?_append, List.getLast?_singleton,
      Option.some_or]
    exact h

/-- The errors of a computation point at places in `L`. -/
def Exec.Points (L : Location → Prop) (x : Exec ε σ α) : Prop :=
  ∀ w, w.VisitsIn L → (x.outcome w).2.VisitsIn L ∧
    ∀ fault, (x.outcome w).1 = .error fault → fault.Points L

namespace Exec.Points

variable {x : Exec ε σ α}

theorem pure (a : α) : Points L (Pure.pure a : Exec ε σ α) :=
  fun _ hw => ⟨hw, nofun⟩

/-- A computation that visits nothing and whose errors have no place yet. -/
theorem of_fresh (hx : ∀ w, (x.outcome w).2.visited = w.visited)
    (he : ∀ w fault, (x.outcome w).1 = .error fault → ∃ failure, fault = .ofFailure failure) :
    Points L x := by
  intro w hw
  refine ⟨?_, ?_⟩
  · rw [World.VisitsIn, hx w]
    exact hw
  · intro fault hf
    obtain ⟨failure, rfl⟩ := he w fault hf
    exact Fault.points_ofFailure failure

theorem fail (cause : Cause) : Points L (fail cause : Exec ε σ α) :=
  of_fresh (fun _ => rfl) fun _ _ h => ⟨.error cause, (Except.error.inj h).symm⟩

theorem breakDown (b : Breakdown) : Points L (breakDown b : Exec ε σ α) :=
  of_fresh (fun _ => rfl) fun _ _ h => ⟨.breakdown b, (Except.error.inj h).symm⟩

theorem ofExcept (r : Except Cause α) : Points L (ofExcept r : Exec ε σ α) := by
  cases r with
  | ok a => exact pure a
  | error cause => exact fail cause

theorem ofFailing (r : Except Failure α) : Points L (ofFailing r : Exec ε σ α) := by
  cases r with
  | ok a => exact pure a
  | error failure => exact of_fresh (fun _ => rfl) fun _ _ h => ⟨failure, (Except.error.inj h).symm⟩

theorem bind {f : α → Exec ε σ β} (hx : Points L x) (hf : ∀ a, Points L (f a)) :
    Points L (x >>= f) := by
  intro w hw
  have h := hx w hw
  rw [outcome_bind]
  generalize x.outcome w = r at h
  obtain ⟨fault | a, between⟩ := r
  · exact ⟨h.1, fun fault' hf => h.2 fault' (congrArg Except.error (Except.error.inj hf))⟩
  · exact hf a between h.1

theorem adapt {f : Store ε → Fault ε → Fault ε}
    (hx : ∀ w, w.VisitsIn L → (x.outcome w).2.VisitsIn L ∧
      ∀ fault store, (x.outcome w).1 = .error fault → (f store fault).Points L) :
    Points L (adapt f x) := by
  intro w hw
  rw [outcome_adapt]
  refine ⟨(hx w hw).1, fun fault hf => ?_⟩
  obtain ⟨inner, hi, rfl⟩ := mapError_eq_error.1 hf
  exact (hx w hw).2 inner _ hi

theorem located {loc : Option Location} (hloc : ∀ l ∈ loc, L l) (hx : Points L x) :
    Points L (located loc x) :=
  adapt fun w hw => ⟨(hx w hw).1, fun fault _ hf => ((hx w hw).2 fault hf).attach hloc⟩

theorem visit {node : Node} (h : ∀ l ∈ node.loc, L l) : Points L (visit node : Exec ε σ Unit) := by
  intro w _
  refine ⟨?_, nofun⟩
  rintro _ ⟨⟩
  exact h

theorem resolve (path : Path) : Points L (resolve path : Exec ε σ (Slot ε)) := by
  refine of_fresh (fun w => by rw [outcome_resolve]) fun w fault h => ?_
  rw [outcome_resolve] at h
  obtain ⟨cause, _, rfl⟩ := mapError_eq_error.1 h
  exact ⟨.error cause, rfl⟩

theorem read (path : Path) : Points L (read path : Exec ε σ (Value ε)) := by
  refine of_fresh (fun w => by rw [outcome_read]) fun w fault h => ?_
  rcases read_eq_error h with ⟨cause, _, rfl⟩ | ⟨_, b, _, rfl⟩
  · exact ⟨.error cause, rfl⟩
  · exact ⟨.breakdown b, rfl⟩

theorem define (slot : Slot ε) : Points L (define slot : Exec ε σ Unit) := by
  refine of_fresh (fun w => ?_) fun w fault h => ?_
  · rw [outcome_define]
    split <;> rfl
  · rw [outcome_define] at h
    split at h
    · exact nomatch h
    · next cause _ => exact ⟨.error cause, (Except.error.inj h).symm⟩

theorem modifySlot (path : Path) (f : Slot ε → Except Failure (Slot ε)) :
    Points L (modifySlot path f : Exec ε σ Unit) := by
  refine of_fresh (fun w => ?_) fun w fault h => ?_
  · rw [outcome_modifySlot]
    split <;> rfl
  · rw [outcome_modifySlot] at h
    split at h
    · exact nomatch h
    · next failure _ => exact ⟨failure, (Except.error.inj h).symm⟩

theorem fresh : Points L (fresh : Exec ε σ Nat) :=
  of_fresh (fun _ => rfl) fun _ _ h => nomatch h

theorem nested (hx : Points L x) : Points L (nested x) := by
  intro w hw
  rw [outcome_nested]
  exact hx { w with scope := w.scope.push } hw

end Exec.Points

/-! ## Evaluation -/

namespace Eval

open Exec

/-- Calls that leave the visited node as it was. -/
def LeavesVisited (call : Caller ε σ) : Prop :=
  ∀ f args w, ((call f args).outcome w).2.visited = w.visited

variable [BEq ε] {call : Caller ε σ}

omit [BEq ε] in
/-- Whatever goes wrong in a call, it is reported at the call. -/
theorem invoke_points (hc : LeavesVisited call) (f : Function ε) (args : List (Value ε))
    {site : Option Location} (hs : ∀ l ∈ site, L l) : Points L (invoke call f args site) := by
  refine .adapt fun w hw => ⟨?_, fun fault store _ => ?_⟩
  · rw [World.VisitsIn, hc f args w]
    exact hw
  · rw [outOf]
    split
    · exact fault.points_through hs
    · trivial

/-- That errors point at places in `L`, as a judgement of runs. -/
def pointing (L : Location → Prop) : Judgement ε σ σ :=
  .plain fun x _ => Points L x

omit [BEq ε] in
theorem pointing_lawful : (pointing L : Judgement ε σ σ).Lawful :=
  Judgement.plain_lawful Points.pure Points.bind Points.fail Points.fresh Points.define Points.nested

omit [BEq ε] in
theorem pointing_of_points {defines : Bool} {α : Type} {x : Exec ε σ α} (h : Points L x) :
    (pointing L).runs defines (fun _ => True) x x :=
  Judgement.of_plain (R := fun x _ => Points L x) h

omit [BEq ε] in
theorem pointing_visits {node : Node} (h : ∀ l ∈ node.spots, L l) :
    (pointing L : Judgement ε σ σ).Visits node := by
  obtain ⟨loc, form⟩ := node
  rw [Node.spots, List.forall_mem_append] at h
  have hloc : ∀ l ∈ (Node.mk loc form).loc, L l := fun l hl => h.1 l (Option.mem_toList.2 hl)
  exact Judgement.plain_visits (R := fun x _ => Points L x) fun hx =>
    (Points.visit hloc).bind fun _ => .located hloc hx

theorem pointing_expressions (hc : LeavesVisited call) :
    (pointing L).Expressions call call fun node => ∀ l ∈ node.spots, L l where
  visits := pointing_visits
  form {loc form} h := by
    rw [Node.spots, List.forall_mem_append] at h
    obtain ⟨hloc, h⟩ := h
    cases form with
    | ident name => exact pointing_of_points (.read _)
    | member object member => exact pointing_of_points (.read _)
    | group expr => exact h
    | number text => exact pointing_of_points (.ofFailing _)
    | string text | boolean text => exact pointing_of_points (.ofExcept _)
    | null => trivial
    | call callee args =>
      rw [Form.spots, List.forall_mem_append] at h
      refine ⟨pointing_of_points (.resolve _), Node.forall_mem_allSpots.1 h.2, fun f values _ _ => ?_⟩
      exact pointing_of_points (invoke_points hc f values fun l hl => hloc l (Option.mem_toList.2 hl))
    | ternary condition thenBranch elseBranch =>
      rwa [Form.spots, List.forall_mem_append, List.forall_mem_append] at h
    | assign target op value =>
      rw [Form.spots, List.forall_mem_append] at h
      exact ⟨h.2, fun _ _ => pointing_of_points (.modifySlot _ _)⟩
    | chain _ first rest =>
      rw [Form.spots, List.forall_mem_append] at h
      refine ⟨h.1, fun p hp => ⟨?_, fun _ _ _ _ => pointing_of_points (.ofFailing _)⟩⟩
      exact Node.forall_mem_operandSpots.1 h.2 p hp
    | unary op operand => exact ⟨h, fun _ _ => pointing_of_points (.ofFailing _)⟩
    | bare | expression | block | function | declaration | ret | script =>
      exact pointing_of_points (.breakDown _)

theorem pointing_statements (hc : LeavesVisited call) :
    (pointing L).Statements call call (fun node => ∀ l ∈ node.spots, L l)
      fun node => ∀ l ∈ node.spots, L l where
  expressions := pointing_expressions hc
  visits := pointing_visits
  form {loc form} hnode := by
    have h := hnode
    rw [Node.spots, List.forall_mem_append] at h
    cases form with
    | script statements | block statements =>
      exact Node.forall_mem_allSpots.1 h.2
    | function name params body source => exact fun _ => trivial
    | expression expr | declaration name value isMutable => exact h.2
    | ret expr =>
      cases expr with
      | none => trivial
      | some expr => exact h.2
    | bare => exact pointing_of_points (.breakDown _)
    | _ => exact hnode

theorem evaluate_points (hc : LeavesVisited call) (node : Node) (h : ∀ l ∈ node.spots, L l) :
    Points L (evaluate call node) :=
  (evaluate_judged pointing_lawful (pointing_expressions hc) node h).1

theorem execute_points (hc : LeavesVisited call) (node : Node) (h : ∀ l ∈ node.spots, L l) :
    Points L (execute call node) :=
  (execute_judged pointing_lawful (pointing_statements hc) node h).1

omit [BEq ε] in
theorem builtin_visited (b : Builtin) (args : List (Value ε)) (v : Option Node) :
    Keeps (fun w => w.visited = v) (fun _ => True) (b.run args : Exec ε σ (Value ε)) := by
  intro w hw
  refine ⟨?_, fun _ _ => trivial⟩
  unfold Builtin.run
  split <;> exact hw

/-- A script function visits its own nodes and comes back; a function of the host visits none. -/
theorem callFunction_visited (host : Host ε σ) (depth : Nat) : LeavesVisited (callFunction host depth) := by
  have hisolated : ∀ {α : Type} (scope : Scope ε) (x : Exec ε σ α) (v : Option Node),
      Keeps (fun w => w.visited = v) (fun _ => True) (isolated scope x) :=
    fun scope x v w hw => ⟨hw, fun _ _ => trivial⟩
  suffices h : ∀ f args v, Keeps (fun w => w.visited = v) (fun _ => True)
      (callFunction host depth f args) from
    fun f args w => ((h f args w.visited) w rfl).1
  induction depth with
  | zero => exact fun _ _ _ => .throw
  | succ depth ih =>
    intro f args v
    rw [callFunction]
    refine Keeps.bind (P := fun _ => True) (.ofExcept fun _ _ => trivial) fun _ _ => ?_
    split
    · have hcopy : Keeps (fun w => w.visited = v) (fun _ => True)
          (copyAll args : Exec ε σ (List (Value ε))) :=
        .of_outcome (outcome_copyAll args) fun _ _ _ _ => trivial
      exact hcopy.bind fun own _ => hisolated _ _ v
    · exact builtin_visited _ args v
    · next e _ =>
      have hask : Keeps (fun w => w.visited = v) (fun _ => True) (host.ask e args) :=
        fun w hw => ⟨hw, fun _ _ => trivial⟩
      refine hask.bind fun reply _ => ?_
      split
      · exact .pure trivial
      · exact .throw
      · exact ih _ _ v
      · exact hisolated _ _ v

end Eval

/-! ## Runs -/

namespace Runner

open Exec

variable [BEq ε]

/-- The program of a source points at places of its tree, or where the source is refused. -/
theorem program_points (host : Host ε σ) (rule : Rule) (source : String)
    (hm : ∀ m, Parser.parse rule source = .error m → L m.loc)
    (ht : ∀ tree, Parser.parse rule source = .ok tree → ∀ loc ∈ tree.spots, L loc) :
    Points L (match rule with
      | .script => Session.runScript host source
      | .expression => Session.runExpression host source) := by
  have hparse : ∀ {β : Type} (f : Node → Exec ε σ β),
      (∀ tree, (∀ loc ∈ tree.spots, L loc) → Points L (f tree)) →
      Points L (Session.parse rule source >>= f) := by
    intro β f hf
    rw [Session.parse]
    cases hp : Parser.parse rule source with
    | ok tree => exact hf tree (ht tree hp)
    | error m =>
      intro w hw
      refine ⟨hw, ?_⟩
      rintro fault hfault
      obtain rfl := Except.error.inj hfault
      rintro loc ⟨⟩
      exact hm m hp
  have hcall := Eval.callFunction_visited host Session.callLimit
  cases rule with
  | script =>
    refine Points.bind (hparse _ fun tree htree => ?_) fun _ => .pure _
    exact Eval.execute_points hcall tree htree
  | expression => exact hparse _ fun tree htree => Eval.evaluate_points hcall tree htree

end Runner

theorem Report.place_or {e : Error ε} {visited : Option Location} {loc : Location}
    (h : Report.place e visited = some loc) : Report.place e none = some loc ∨ visited = some loc := by
  unfold Report.place at h ⊢
  split at h
  · exact .inl h
  · obtain hl | ⟨_, hv⟩ := Option.or_eq_some_iff.1 h
    · left
      rw [hl]
      rfl
    · exact .inr hv

/-- The report of a failed run that has a place is one of an error of the language, and its place is
where the source is refused or a location of its tree. -/
theorem Runner.run_error [BEq ε] (r : Runner ε σ) {rule : Rule} {source : String} {report : Report}
    {loc : Location} (h : (r.run rule source).1.outcome = .error report)
    (hloc : report.token = some loc) (hm : ∀ m, Parser.parse rule source = .error m → L m.loc)
    (ht : ∀ tree, Parser.parse rule source = .ok tree → ∀ loc ∈ tree.spots, L loc) :
    L loc ∧ ∃ (e : Error ε) (visited : Option Location), report = Report.ofError e visited source := by
  have hpoints := program_points r.host rule source hm ht
    { r.world with effects := [], visited := none } nofun
  unfold run at h
  dsimp only at h
  split at h
  · exact nomatch h
  · next fault hf =>
    obtain rfl := Except.error.inj h
    have hfault := hpoints.2 fault hf
    cases fault with
    | breakdown b => exact nomatch hloc
    | error e =>
      refine ⟨?_, e, _, rfl⟩
      rcases Report.place_or hloc with hplace | hvisited
      · exact hfault loc hplace
      · obtain ⟨node, hnode, hl⟩ := Option.bind_eq_some_iff.1 hvisited
        exact hpoints.1 node hnode loc hl

/-- **Errors point into the source.**  Whatever earlier runs have left behind, the place that a failed
run reports stands in the source of this run, with the text that the report gives.  It is where the
source is refused, or a location of the tree of this source outside of function bodies. -/
theorem Runner.run_error_place [BEq ε] (r : Runner ε σ) (rule : Rule) (source : String)
    {report : Report} {loc : Location} (h : (r.run rule source).1.outcome = .error report)
    (hloc : report.token = some loc) :
    loc.StandsIn source.toList ∧
      ((∃ m, Parser.parse rule source = .error m ∧ loc = m.loc) ∨
        ∃ tree, Parser.parse rule source = .ok tree ∧ loc ∈ tree.spots) := by
  constructor
  · refine (r.run_error h hloc ?_ ?_).1
    · exact fun m hm => Parser.parse_refused hm
    · exact fun tree ht l hl => (Parser.parse_marks ht l hl).standsIn
  · refine (r.run_error (L := fun l => (∃ m, Parser.parse rule source = .error m ∧ l = m.loc) ∨
      ∃ tree, Parser.parse rule source = .ok tree ∧ l ∈ tree.spots) h hloc ?_ ?_).1
    · exact fun m hm => .inl ⟨m, hm, rfl⟩
    · exact fun tree ht l hl => .inr ⟨tree, ht, hl⟩

/-- A runner with the standard functions and no host. -/
def Runner.standard : Runner Empty Unit :=
  let slots := Builtin.all.map fun b => ⟨b.name, false, .function b.function⟩
  ⟨Host.none, { (World.initial () : World Empty Unit) with scope := ⟨slots, []⟩ }⟩

/-- The report of a failed run. -/
def Result.report (result : Result ε) : Option Report :=
  match result.outcome with
  | .ok _ => none
  | .error report => some report

theorem Result.outcome_of_report {result : Result ε} {report : Report}
    (h : result.report = some report) : result.outcome = .error report := by
  unfold Result.report at h
  split at h
  · exact nomatch h
  · next hr => rw [hr, Option.some.inj h]

/-- An error in the body of a function from an earlier run is reported at the call. -/
theorem Runner.run_error_place_call :
    let later := (standard.run .script "// one\nfunction f() \x7b return x; \x7d").2
    ∃ report, (later.run .script " f();").1.outcome = .error report ∧
      report.token = some ⟨1, 2, some "f()"⟩ ∧
      Location.StandsIn " f();".toList ⟨1, 2, some "f()"⟩ := by
  intro later
  have htoken : (later.run .script " f();").1.report.bind (·.token) = some ⟨1, 2, some "f()"⟩ := by
    decide +kernel
  obtain ⟨report, hr, ht⟩ := Option.bind_eq_some_iff.1 htoken
  have hreport := Result.outcome_of_report hr
  exact ⟨report, hreport, ht, (later.run_error_place .script " f();" hreport ht).1⟩

end Scriptlet
