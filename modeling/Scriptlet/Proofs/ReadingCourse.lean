import Scriptlet.Proofs.Locality
import Scriptlet.Proofs.SideBySide
import Scriptlet.Proofs.ParserCompleteness

/-!
# The course of a reading

A text is read token by token: `Reading` is a point on the way, `Reaches` leads from one point to a
later one, and `Stops` says in which ways a reading comes to its end.  The parser's result is the one
of the point where its reading stops (`exists_stops`).

`Reaches.alongside` is the run lemma for two readings side by side: where every token of the first
reading is found by the second one at a tied place, the second reading keeps up with the first.
-/

namespace Scriptlet

set_option autoImplicit false

theorem Cursor.offset_le_advance (n : Nat) (place : Cursor) : place.offset ≤ (place.advance n).offset := by
  induction n generalizing place with
  | zero => exact Nat.le_refl _
  | succ n ih =>
    obtain ⟨o, l, k, _ | ⟨c, rest⟩⟩ := place
    · exact Nat.le_refl _
    · rw [advance]
      split
      · exact Nat.le_trans (Nat.le_succ o) (ih ⟨o + 1, l + 1, 1, rest⟩)
      · exact Nat.le_trans (Nat.le_succ o) (ih ⟨o + 1, l, k + 1, rest⟩)

theorem Lexer.offset_skip (place : Cursor) :
    (skip place).offset = place.offset + gapLength place.rest :=
  Cursor.offset_advance (gapLength_le place.rest)

theorem Reader.TiedState.mode {τ : Tie} {k : Nat} {s s' : State} (h : TiedState τ k s s') :
    s'.mode = s.mode := by
  cases h <;> rfl

/-- Two readings start tied, if the second one has no statements in front. -/
theorem Reader.TiedState.initial {τ : Tie} (h : τ.before = []) (k : Nat) (rule : Rule) :
    TiedState τ k (State.initial rule) (State.initial rule) := by
  cases rule with
  | script =>
    have hplace : TiedPlace τ k (.script []) (.script (τ.before ++ [])) := .script .nil nofun
    rw [h] at hplace
    exact .statement hplace
  | expression => exact .operand (.opened .whole)

namespace Parser

open Reader Lexer

/-- A point of a reading: the state, the token read last, and the place behind it. -/
structure Reading where
  state : State
  last : Option Token
  place : Cursor

namespace Reading

/-- The point in front of a text. -/
def start (rule : Rule) (source : List Char) : Reading :=
  ⟨State.initial rule, none, Cursor.start source⟩

/-- What the reading comes to. -/
def result (r : Reading) : Except Malformed Node :=
  readFrom r.state r.last r.place

/-- The next token, if it has `n` characters. -/
def token (r : Reading) (terminal : Terminal) (n : Nat) : Token :=
  tokenAt (skip r.place) terminal n

/-- The point behind the next token. -/
def after (r : Reading) (terminal : Terminal) (n : Nat) (next : State) : Reading :=
  ⟨next, some (r.token terminal n), (skip r.place).advance n⟩

/-- A later point of a reading. -/
inductive Reaches : Reading → Reading → Prop where
  | refl (r : Reading) : Reaches r r
  | token {r goal : Reading} {terminal : Terminal} {n : Nat} {next : State} :
      lexeme r.state.mode (skip r.place).rest = some (terminal, n) →
      r.state.feed (r.token terminal n) = some next →
      Reaches (r.after terminal n next) goal → Reaches r goal

/-- The end of a reading: the text ends, where the program may end or not, or a character starts no
token, or a token cannot stand there. -/
inductive Stops (r : Reading) : Except Malformed Node → Prop where
  | done {node : Node} : (skip r.place).rest = [] → r.state.finish = some node → Stops r (.ok node)
  | ending : (skip r.place).rest = [] → r.state.finish = none → Stops r (.error (ending r.last))
  | character {c : Char} {rest : List Char} : (skip r.place).rest = c :: rest →
      lexeme r.state.mode (skip r.place).rest = none →
      Stops r (.error (.character c (skip r.place).line (skip r.place).col))
  | token {terminal : Terminal} {n : Nat} :
      lexeme r.state.mode (skip r.place).rest = some (terminal, n) →
      r.state.feed (r.token terminal n) = none →
      Stops r (.error (.token terminal (r.token terminal n).text (skip r.place).line (skip r.place).col))

variable {r q goal : Reading}

/-- Every reading stops, with its result. -/
theorem exists_stops (r : Reading) : ∃ goal, r.Reaches goal ∧ goal.Stops r.result := by
  obtain ⟨state, last, place⟩ := r
  rw [result]
  fun_induction readFrom state last place with
  | case1 state last place here hr node hf => exact ⟨_, .refl _, .done hr hf⟩
  | case2 state last place here hr hf => exact ⟨_, .refl _, .ending hr hf⟩
  | case3 state last place here c rest hr hl => exact ⟨_, .refl _, .character hr hl⟩
  | case4 state last place here c rest hr terminal n hl t hf => exact ⟨_, .refl _, .token hl hf⟩
  | case5 state last place here c rest hr terminal n hl t next hf ih =>
    obtain ⟨goal, hreaches, hstops⟩ := ih
    exact ⟨goal, .token hl hf hreaches, hstops⟩

/-- A reading comes to the tree of its state where the text ends. -/
theorem result_done {node : Node} (hr : (skip r.place).rest = []) (hf : r.state.finish = some node) :
    r.result = .ok node := by
  rw [result, readFrom]
  dsimp only
  split
  · rw [hf]
  · next hc => cases hr.symm.trans hc

/-- The result is the same at every later point. -/
theorem Reaches.result_eq (h : r.Reaches goal) : r.result = goal.result := by
  induction h with
  | refl r => rfl
  | @token r goal terminal n next hl hf _ ih =>
    rw [← ih]
    show readFrom r.state r.last r.place = _
    rw [readFrom]
    dsimp only
    split
    · next hr =>
      rw [hr] at hl
      cases hl
    · split
      · next hl' => cases hl.symm.trans hl'
      · next hl' =>
        obtain ⟨rfl, rfl⟩ := Prod.mk.inj (Option.some.inj (hl.symm.trans hl'))
        rw [show r.state.feed (tokenAt (skip r.place) _ _) = some next from hf]
        rfl

theorem Reaches.offset_le (h : r.Reaches goal) : r.place.offset ≤ goal.place.offset := by
  induction h with
  | refl r => exact Nat.le_refl _
  | @token r goal _ n _ _ _ _ ih =>
    have hskip := Cursor.offset_le_advance (gapLength r.place.rest) r.place
    have htoken := Cursor.offset_le_advance n (skip r.place)
    exact Nat.le_trans (Nat.le_trans hskip htoken) ih

theorem offset_after {terminal : Terminal} {n : Nat} {next : State}
    (h : lexeme r.state.mode (skip r.place).rest = some (terminal, n)) :
    (r.after terminal n next).place.offset = (r.token terminal n).stop :=
  Cursor.offset_advance (lexeme_le h)

/-! ## Two readings side by side -/

/-- Tied states at places that are `near` to each other. -/
structure Alongside (τ : Tie) (near : Cursor → Cursor → Prop) (r q : Reading) : Prop where
  state : TiedState τ r.place.offset r.state q.state
  place : near r.place q.place

/-- The second reading finds the next token of the first one. -/
structure KeepsUp (τ : Tie) (near : Cursor → Cursor → Prop) (r : Reading) (place : Cursor)
    (terminal : Terminal) (n : Nat) : Prop where
  lexed : lexeme r.state.mode (skip place).rest = some (terminal, n)
  token : NextToken τ (r.token terminal n) (tokenAt (skip place) terminal n)
  place : near ((skip r.place).advance n) ((skip place).advance n)

variable {τ : Tie} {near : Cursor → Cursor → Prop}

/-- **The run.**  A reading that finds every token of the first one up to `goal` reaches a point
alongside it. -/
theorem Reaches.alongside (h : r.Reaches goal) (ha : r.Alongside τ near q)
    (keeps : ∀ (r : Reading) (place : Cursor) (terminal : Terminal) (n : Nat) (next : State),
      near r.place place → lexeme r.state.mode (skip r.place).rest = some (terminal, n) →
      r.state.feed (r.token terminal n) = some next → (r.after terminal n next).Reaches goal →
      KeepsUp τ near r place terminal n) :
    ∃ other, q.Reaches other ∧ goal.Alongside τ near other := by
  induction h generalizing q with
  | refl r => exact ⟨q, .refl q, ha⟩
  | @token r goal terminal n next hl hf hreaches ih =>
    have hk := keeps r q.place terminal n next ha.place hl hf hreaches
    have hstop : (r.after terminal n next).place.offset = (r.token terminal n).stop := offset_after hl
    have hle : r.place.offset ≤ (r.token terminal n).stop := by
      rw [← hstop]
      exact (Reaches.token hl hf (.refl _)).offset_le
    obtain ⟨next', hf', hnext⟩ := State.feed_tied ha.state hk.token hle hf
    have hl' : lexeme q.state.mode (skip q.place).rest = some (terminal, n) := by
      rw [ha.state.mode]
      exact hk.lexed
    rw [← hstop] at hnext
    have hafter : (r.after terminal n next).Alongside τ near (q.after terminal n next') :=
      ⟨hnext, hk.place⟩
    obtain ⟨other, hother, hgoal⟩ := ih hafter keeps
    exact ⟨other, .token hl' hf' hother, hgoal⟩

end Reading

end Parser

end Scriptlet
