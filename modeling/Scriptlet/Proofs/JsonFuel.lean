import Scriptlet.Json.Reader
import Scriptlet.Proofs.Outcome

/-!
# The fuel of the JSON reader

The reader counts its recursion down from a number that the length of its text gives.  That number is
never used up: reading goes forward only, a string takes one step for each character at most, and a value
takes two for each character at most, namely for the bracket of an array and for its first element.  So
two readings whose fuel covers what is left of the text come to the same (`value_congr`), and a document
is read as it is with any fuel beyond its own (`read_eq_readWith`).
-/

namespace Scriptlet.Json

set_option autoImplicit false

variable {ε α β : Type}

/-! ## Reading goes forward -/

theorem length_rest_advance (n : Nat) (place : Cursor) :
    (place.advance n).rest.length = place.rest.length - n := by
  rw [Cursor.rest_advance, List.length_drop]

theorem length_rest_advance_le (n : Nat) (place : Cursor) :
    (place.advance n).rest.length ≤ place.rest.length := by
  rw [length_rest_advance]
  exact Nat.sub_le _ _

theorem length_rest_advance_one {place : Cursor} {c : Char} {rest : List Char}
    (h : place.rest = c :: rest) : (place.advance 1).rest.length < place.rest.length := by
  rw [length_rest_advance, h, List.length_cons]
  exact Nat.lt_succ_self _

theorem length_rest_skip_le (place : Cursor) : (skip place).rest.length ≤ place.rest.length :=
  length_rest_advance_le _ place

/-- Behind a mark and the blanks after it. -/
theorem length_rest_next_le (place : Cursor) :
    (skip (place.advance 1)).rest.length ≤ place.rest.length :=
  Nat.le_trans (length_rest_skip_le _) (length_rest_advance_le 1 place)

/-- Behind the blanks and the mark after them. -/
theorem length_rest_mark_le (place : Cursor) :
    ((skip place).advance 1).rest.length ≤ place.rest.length :=
  Nat.le_trans (length_rest_advance_le 1 _) (length_rest_skip_le place)

/-- A reading leaves at most `n` characters. -/
def Leaves (n : Nat) (r : Except Failure (α × Cursor)) : Prop :=
  ∀ a stop, r = .ok (a, stop) → stop.rest.length ≤ n

namespace Leaves

variable {m n : Nat}

theorem error (f : Failure) : Leaves n (.error f : Except Failure (α × Cursor)) :=
  fun _ _ h => nomatch h

theorem ok {a : α} {stop : Cursor} (h : stop.rest.length ≤ n) : Leaves n (.ok (a, stop)) := by
  rintro _ _ ⟨⟩
  exact h

theorem bind {x : Except Failure (α × Cursor)} {f : α × Cursor → Except Failure (β × Cursor)}
    (hx : Leaves m x) (hf : ∀ a stop, stop.rest.length ≤ m → Leaves n (f (a, stop))) :
    Leaves n (x >>= f) := by
  intro b stop h
  obtain ⟨⟨a, between⟩, ha, hb⟩ := except_bind_eq_ok.1 h
  exact hf a between (hx a between ha) b stop hb

theorem mono {r : Except Failure (α × Cursor)} (h : Leaves m r) (hmn : m ≤ n) : Leaves n r :=
  fun a stop hr => Nat.le_trans (h a stop hr) hmn

/-- What comes after a reading need only be known where the reading can end. -/
theorem bind_congr {x y : Except Failure (α × Cursor)} {f g : α × Cursor → Except Failure β}
    (hx : Leaves n x) (hxy : x = y) (hfg : ∀ a stop, stop.rest.length ≤ n → f (a, stop) = g (a, stop)) :
    x >>= f = y >>= g := by
  subst hxy
  cases x with
  | error _ => rfl
  | ok r => exact hfg r.1 r.2 (hx r.1 r.2 rfl)

end Leaves

/-! ## Strings -/

theorem stringBody_leaves (opening : Cursor) (fuel : Nat) (place : Cursor) :
    Leaves place.rest.length (stringBody opening fuel place) := by
  induction fuel generalizing place with
  | zero => exact .error _
  | succ fuel ih =>
    have hgo : ∀ (c : Char) (next : Cursor), next.rest.length ≤ place.rest.length →
        Leaves place.rest.length (stringBody opening fuel next >>= fun r => pure (c :: r.1, r.2)) :=
      fun c next hnext => ((ih next).mono hnext).bind fun cs stop hstop => .ok hstop
    have hle : ∀ a b, ((place.advance a).advance b).rest.length ≤ place.rest.length := fun a b =>
      Nat.le_trans (length_rest_advance_le b _) (length_rest_advance_le a place)
    rw [stringBody]
    split
    · exact .error _
    · dsimp only
      split
      · exact .ok (length_rest_advance_le 1 place)
      · split
        · split
          · exact .error _
          · split
            · exact .error _
            · split
              · split
                · exact .error _
                · exact hgo _ _ (Nat.le_trans (length_rest_advance_le 6 _) (hle 1 5))
                · exact .error _
              · intro cs stop h
                obtain ⟨c, _, h⟩ := except_bind_eq_ok.1 h
                exact hgo c _ (hle 1 5) cs stop h
          · split
            · exact .error _
            · exact hgo _ _ (hle 1 1)
        · split
          · exact .error _
          · exact hgo _ _ (length_rest_advance_le 1 place)

theorem stringBody_congr (opening : Cursor) {f g : Nat} {place : Cursor}
    (hf : place.rest.length < f) (hg : place.rest.length < g) :
    stringBody opening f place = stringBody opening g place := by
  induction f generalizing g place with
  | zero => exact absurd hf (Nat.not_lt_zero _)
  | succ f ih =>
    obtain ⟨g, rfl⟩ := Nat.exists_eq_add_one_of_ne_zero (Nat.ne_zero_of_lt hg)
    rw [stringBody, stringBody]
    split
    · rfl
    · next c rest hrest =>
      have hnext := length_rest_advance_one hrest
      have hgo : ∀ next : Cursor, next.rest.length ≤ (place.advance 1).rest.length →
          stringBody opening f next = stringBody opening g next :=
        fun next h => ih (by omega) (by omega)
      have hafter : ∀ n, ((place.advance 1).advance n).rest.length ≤ (place.advance 1).rest.length :=
        fun n => length_rest_advance_le n _
      dsimp only
      rw [hgo _ (Nat.le_refl _), hgo _ (hafter 1), hgo _ (hafter 5),
        hgo _ (Nat.le_trans (length_rest_advance_le 6 _) (hafter 5))]

/-- The fuel of a string is never used up. -/
theorem string_eq {opening : Cursor} {fuel : Nat} (h : opening.rest.length < fuel) :
    string opening = stringBody opening fuel (opening.advance 1) :=
  have hinside := length_rest_advance_le 1 opening
  stringBody_congr opening (Nat.lt_succ_of_le hinside) (Nat.lt_of_le_of_lt hinside h)

/-! ## Values -/

theorem string_leaves (opening : Cursor) : Leaves (opening.advance 1).rest.length (string opening) :=
  stringBody_leaves _ _ _

theorem scalar_leaves (place : Cursor) :
    Leaves place.rest.length (scalar place : Except Failure (Data ε × Cursor)) := by
  rw [scalar]
  split
  · exact .ok (length_rest_advance_le _ place)
  · split
    · intro d stop h
      obtain ⟨_, _, h⟩ := except_bind_eq_ok.1 h
      obtain ⟨_, rfl⟩ := Prod.mk.inj (Except.ok.inj h)
      exact length_rest_advance_le _ place
    · exact .error _

theorem value_leaves (fuel : Nat) : ∀ place : Cursor,
    Leaves place.rest.length (value fuel place : Except Failure (Data ε × Cursor)) ∧
    Leaves place.rest.length (members fuel place : Except Failure (List (Data ε × Data ε) × Cursor)) ∧
    Leaves place.rest.length (elements fuel place : Except Failure (List (Data ε) × Cursor)) := by
  induction fuel with
  | zero => exact fun _ => ⟨.error _, .error _, .error _⟩
  | succ fuel ih =>
    intro place
    have hinside := length_rest_next_le place
    refine ⟨?_, ?_, ?_⟩
    · rw [value]
      split
      · exact ((string_leaves place).mono (length_rest_advance_le 1 place)).bind fun cs stop hstop => .ok hstop
      · dsimp only
        split
        · exact .ok (Nat.le_trans (length_rest_advance_le 1 _) hinside)
        · exact ((ih _).2.1.mono hinside).bind fun entries stop hstop => .ok hstop
      · dsimp only
        split
        · exact .ok (Nat.le_trans (length_rest_advance_le 1 _) hinside)
        · exact ((ih _).2.2.mono hinside).bind fun items stop hstop => .ok hstop
      · exact scalar_leaves place
    · rw [members]
      split
      · refine ((string_leaves place).mono (length_rest_advance_le 1 place)).bind ?_
        intro key afterKey hkey
        dsimp only
        split
        · have hcolon := Nat.le_trans (length_rest_skip_le _)
            (Nat.le_trans (length_rest_mark_le afterKey) hkey)
          refine ((ih _).1.mono hcolon).bind fun d afterValue hvalue => ?_
          have hclose := Nat.le_trans (length_rest_mark_le afterValue) hvalue
          dsimp only
          split
          · exact .ok hclose
          · exact ((ih _).2.1.mono (Nat.le_trans (length_rest_skip_le _) hclose)).bind
              fun entries stop hstop => .ok hstop
          · exact .error _
        · exact .error _
      · exact .error _
    · rw [elements]
      refine (ih place).1.bind fun d afterValue hvalue => ?_
      have hclose := Nat.le_trans (length_rest_mark_le afterValue) hvalue
      dsimp only
      split
      · exact .ok hclose
      · exact ((ih _).2.2.mono (Nat.le_trans (length_rest_skip_le _) hclose)).bind
          fun items stop hstop => .ok hstop
      · exact .error _

/-- Two readings whose fuel covers what is left of the text come to the same. -/
theorem value_congr (f : Nat) : ∀ (g : Nat) (place : Cursor),
    (2 * place.rest.length < f → 2 * place.rest.length < g →
      (value f place : Except Failure (Data ε × Cursor)) = value g place) ∧
    (2 * place.rest.length + 1 < f → 2 * place.rest.length + 1 < g →
      (members f place : Except Failure (List (Data ε × Data ε) × Cursor)) = members g place) ∧
    (2 * place.rest.length + 1 < f → 2 * place.rest.length + 1 < g →
      (elements f place : Except Failure (List (Data ε) × Cursor)) = elements g place) := by
  induction f with
  | zero => exact fun _ _ => ⟨fun h => absurd h (Nat.not_lt_zero _), fun h => absurd h (Nat.not_lt_zero _),
      fun h => absurd h (Nat.not_lt_zero _)⟩
  | succ f ih =>
    intro g place
    refine ⟨fun hf hg => ?_, fun hf hg => ?_, fun hf hg => ?_⟩
    all_goals obtain ⟨g, rfl⟩ := Nat.exists_eq_add_one_of_ne_zero (Nat.ne_zero_of_lt hg)
    · rw [value, value]
      split
      · rfl
      · next hopen =>
        have hinside := length_rest_skip_le (place.advance 1)
        have hopen := length_rest_advance_one hopen
        dsimp only
        rw [(ih g _).2.1 (by omega) (by omega)]
      · next hopen =>
        have hinside := length_rest_skip_le (place.advance 1)
        have hopen := length_rest_advance_one hopen
        dsimp only
        rw [(ih g _).2.2 (by omega) (by omega)]
      · rfl
    · rw [members, members]
      split
      · next hopen =>
        have hopen := length_rest_advance_one hopen
        refine (string_leaves place).bind_congr rfl fun key afterKey hkey => ?_
        dsimp only
        split
        · have hcolon := Nat.le_trans (length_rest_skip_le _) (length_rest_mark_le afterKey)
          refine ((value_leaves f _).1.mono hcolon).bind_congr ((ih g _).1 (by omega) (by omega)) ?_
          intro d afterValue hvalue
          have hnext := Nat.le_trans (length_rest_skip_le _) (length_rest_mark_le afterValue)
          dsimp only
          split
          · rfl
          · rw [(ih g _).2.1 (by omega) (by omega)]
          · rfl
        · rfl
      · rfl
    · rw [elements, elements]
      refine (value_leaves f place).1.bind_congr ((ih g place).1 (by omega) (by omega)) ?_
      intro d afterValue hvalue
      have hclose := length_rest_skip_le afterValue
      dsimp only
      split
      · rfl
      · next hcomma =>
        have hrest := length_rest_skip_le ((skip afterValue).advance 1)
        have hcomma := length_rest_advance_one hcomma
        rw [(ih g _).2.2 (by omega) (by omega)]
      · rfl

/-- The datum of a document as it is read with any fuel. -/
def readWith (fuel : Nat) (text : String) : Except Failure (Data ε) := do
  let (d, stop) ← value fuel (skip (.start text.toList))
  if (skip stop).rest.isEmpty then .ok d else .error (complain .extra (skip stop))

/-- The fuel of a document is never used up: with more of it, the document is read all the same. -/
theorem read_eq_readWith {text : String} {fuel : Nat} (hhead : text.toList.head? ≠ some '\uFEFF')
    (h : 2 * text.length < fuel) : (read text : Except Failure (Data ε)) = readWith fuel text := by
  have hlength := length_rest_skip_le (Cursor.start text.toList)
  rw [show (Cursor.start text.toList).rest.length = text.length from String.length_toList] at hlength
  have hvalue : (value _ _ : Except Failure (Data ε × Cursor)) = value fuel _ :=
    (value_congr (2 * text.length + 1) fuel (skip (.start text.toList))).1 (by omega) (by omega)
  rw [read, if_neg hhead, readWith, ← hvalue]

/-- What is missing in the text is reported at its end. -/
example : (read "[[[" : Except Failure (Data Empty)) = .error (complain .value ⟨3, 1, 4, []⟩) := by
  rfl

end Scriptlet.Json
