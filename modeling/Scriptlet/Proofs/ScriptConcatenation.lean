import Scriptlet.Proofs.Continuation

/-!
# Scripts one below the other

Two texts that are scripts each, one below the other, are a script of the statements of both
(`parse_concat`).  The first text is read as if it stood alone, up to its end.  From there on the
second one is read as if it stood alone, a number of lines further down, with the statements of the
first one in front of its own.
-/

namespace Scriptlet

set_option autoImplicit false

/-- The location a number of lines further down. -/
def Location.below (lines : Nat) (loc : Location) : Location :=
  { loc with line := loc.line + lines }

/-- The place in a text that stands below another one. -/
def Cursor.below (offset lines : Nat) (c : Cursor) : Cursor :=
  { c with offset := c.offset + offset, line := c.line + lines }

theorem Cursor.below_advance (offset lines n : Nat) (c : Cursor) :
    (c.below offset lines).advance n = (c.advance n).below offset lines := by
  induction n generalizing c with
  | zero => rfl
  | succ n ih =>
    obtain ⟨o, l, k, _ | ⟨ch, rest⟩⟩ := c
    · rfl
    · rw [below, advance, advance]
      split
      · rw [← ih, below, Nat.add_right_comm, Nat.add_right_comm l]
      · rw [← ih, below, Nat.add_right_comm]

/-- The second of two readings of a script has its further statements behind those that it began
with. -/
theorem Reader.TiedState.script {τ : Tie} {k : Nat} {done : List Part} {s : State}
    (h : TiedState τ k (.statement (.script done)) s) :
    ∃ done', s = .statement (.script (τ.before ++ done')) ∧
      done'.map (·.node) = (done.map (·.node)).map (Node.moved τ.move) := by
  cases h with
  | statement hp =>
    cases hp with
    | @script _ done' hdone _ =>
      exact ⟨done', rfl, (TiedPart.nodes hdone).1.trans (Node.movedAll_eq_map _)⟩

namespace Parser

open Reader Lexer

/-- A reading, and the one of the same text below another one, whose statements are `done`. -/
def lower (offset lines : Nat) (done : List Part) : Tie where
  start _ c c' := c' = c.below offset lines
  stop k := k + offset
  move := Location.below lines
  good _ := True
  before := done
  text_move _ := rfl
  later h _ _ := h
  located := by
    rintro k c _ rfl
    refine ⟨trivial, ?_⟩
    rw [Cursor.locate, Cursor.below, Nat.add_sub_add_right]
    rfl

theorem skip_newline (c : Cursor) (rest : List Char) :
    skip { c with rest := '\n' :: rest } = skip ⟨c.offset + 1, c.line + 1, 1, rest⟩ := by
  show Cursor.advance (gapLength ('\n' :: rest)) _ = _
  rw [gapLength_succ (n := 0) rfl, Cursor.advance_add]
  rfl

/-- The next tokens of two readings stand one below the other. -/
def Lower (offset lines : Nat) (c c' : Cursor) : Prop :=
  skip c' = (skip c).below offset lines

namespace Reading

variable {rule : Rule} {source : List Char} {r goal : Reading}

/-- The states of a reading are sound. -/
theorem Reaches.sound (h : r.Reaches goal) (hr : r.state.Sound rule) : goal.state.Sound rule := by
  induction h with
  | refl r => exact hr
  | token hl hf _ ih => exact ih (State.feed_sound hr (tokenAt_fits hl) hf).1

theorem keepsUp_lower {offset lines : Nat} {done : List Part} {place : Cursor} {terminal : Terminal}
    {n : Nat} (hp : Lower offset lines r.place place)
    (hl : lexeme r.state.mode (skip r.place).rest = some (terminal, n)) :
    KeepsUp (lower offset lines done) (Lower offset lines) r place terminal n := by
  rw [Lower] at hp
  refine ⟨?_, ⟨rfl, ?_, hp, ?_⟩, ?_⟩
  · rw [hp]
    exact hl
  · rw [tokenAt, hp]
    rfl
  · rw [tokenAt, hp]
    exact Nat.add_right_comm _ _ _
  · rw [Lower, hp, Cursor.below_advance, skip, Cursor.below_advance]
    rfl

end Reading

/-- A script is read to the end, and its tree is made of the statements read. -/
theorem parse_script {text : String} {node : Node} (h : parse .script text = .ok node) :
    ∃ goal done, (Reading.start .script text.toList).Reaches goal ∧
      goal.state = .statement (.script done) ∧ (skip goal.place).rest = [] ∧
      node.form = .script (done.map (·.node)) := by
  obtain ⟨goal, hreaches, hstops⟩ := Reading.exists_stops (Reading.start .script text.toList)
  have hsound : goal.state.Sound .script := hreaches.sound ⟨rfl, by simp [Place.Sound]⟩
  rw [show (Reading.start .script text.toList).result = .ok node from h] at hstops
  cases hstops with
  | done hr hf =>
    -- An expression that the text ends with would be no statement.
    have hafter : ∀ {e : Part} {hole : Hole} {more : List String}, e.At .primary →
        hole.Sound .script more → State.finishAfter e hole = none := by
      intro e hole more he hh
      have hs := hh.context.settle (hh.pending.toComparison he).isExpression
      unfold State.finishAfter
      dsimp only
      split
      · next hw =>
        rw [hw] at hs
        cases hs.2
      · rfl
    unfold State.finish at hf
    split at hf
    · next done hstate =>
      obtain rfl := Option.some.inj hf
      exact ⟨goal, done, hreaches, hstate, hr, State.scriptNode_form done⟩
    · next hstate =>
      rw [hstate] at hsound
      cases (hafter hsound.1 hsound.2).symm.trans hf
    · next hstate =>
      rw [hstate] at hsound
      cases (hafter hsound.1.at.1 hsound.2).symm.trans hf
    · cases hf

/-- A script with another text below it is read up to where the other text starts. -/
theorem reaches_below {first second : List Char} {goal : Reading} {done : List Part}
    (h : (Reading.start .script first).Reaches goal) (hs : goal.state = .statement (.script done))
    (hr : (skip goal.place).rest = []) :
    ∃ other done', (Reading.start .script (first ++ '\n' :: second)).Reaches other ∧
      other.state = .statement (.script done') ∧ done'.map (·.node) = done.map (·.node) ∧
      Lower (first.length + 1) (lineBehind first) (Cursor.start second) other.place := by
  have hin : (Reading.start .script first).place.In first := Cursor.in_start first
  obtain ⟨before, hfirst, hb⟩ := (h.within hin nofun).1.skip
  rw [hr, List.append_nil] at hfirst
  subst hfirst
  obtain ⟨other, hother, hstate, hskip⟩ := h.continues (.newline second)
  rw [hb.offset, List.take_length] at hother
  rw [hs] at hstate
  obtain ⟨done', hdone', hnodes⟩ := hstate.script
  refine ⟨other, done', hother, hdone', ?_, ?_⟩
  · rw [hnodes]
    exact List.map_id'' Node.moved_id _
  · rw [Lower, hskip, skip_newline, hb.offset, hb.line]
    have hstart : (⟨first.length + 1, lineBehind first + 1, 1, second⟩ : Cursor) =
        (Cursor.start second).below (first.length + 1) (lineBehind first) := by
      rw [Cursor.below, Cursor.start, Nat.zero_add, Nat.add_comm 1]
    rw [hstart]
    exact Cursor.below_advance _ _ _ _

/-- **Scripts one below the other.**  The text of one script and, in a new line, that of another are a
script of the statements of both. -/
theorem parse_concat {first second : String} {a b : Node} (ha : parse .script first = .ok a)
    (hb : parse .script second = .ok b) :
    ∃ as bs node, a.form = .script as ∧ b.form = .script bs ∧
      parse .script (first ++ "\n" ++ second) = .ok node ∧
      node.form = .script (as ++ bs.map (Node.moved (Location.below (lineBehind first.toList)))) := by
  obtain ⟨goal, done, hreaches, hstate, hrest, hform⟩ := parse_script ha
  obtain ⟨goal', done', hreaches', hstate', hrest', hform'⟩ := parse_script hb
  obtain ⟨middle, front, hmiddle, hfront, hnodes, hlower⟩ := reaches_below hreaches hstate hrest
  have halong : (Reading.start .script second.toList).Alongside
      (lower (first.toList.length + 1) (lineBehind first.toList) front)
      (Lower (first.toList.length + 1) (lineBehind first.toList)) middle := by
    refine ⟨?_, hlower⟩
    have hplace : TiedPlace (lower (first.toList.length + 1) (lineBehind first.toList) front) 0
        (.script []) (.script (front ++ [])) := .script .nil nofun
    rw [List.append_nil] at hplace
    rw [hfront]
    exact .statement hplace
  obtain ⟨other, hother, hgoal⟩ := hreaches'.alongside halong fun r place terminal n next hp hl _ _ =>
    Reading.keepsUp_lower hp hl
  have hend : (skip other.place).rest = [] := by
    rw [show skip other.place = _ from hgoal.place]
    exact hrest'
  have htied := hgoal.state
  rw [hstate'] at htied
  obtain ⟨back, hback, hbacks⟩ := htied.script
  have hfinish : other.state.finish = some (State.scriptNode (front ++ back)) := by
    rw [hback]
    rfl
  refine ⟨_, _, State.scriptNode (front ++ back), hform, hform', ?_, ?_⟩
  · rw [parse, String.toList_append, String.toList_append, List.append_assoc]
    exact (hmiddle.result_eq.trans hother.result_eq).trans (Reading.result_done hend hfinish)
  · rw [State.scriptNode_form, List.map_append, hnodes, hbacks]
    rfl

end Parser

end Scriptlet
