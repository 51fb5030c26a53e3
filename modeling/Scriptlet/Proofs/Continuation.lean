import Scriptlet.Proofs.SourceLocations

/-!
# Another text behind the tokens read

What has been read of a text does not depend on what follows.  If the text is cut off in front of the
next token, or where it ends, and goes on with a newline and whatever else, the tokens up to there are
found again and lead to the same state, up to the text that their places still hold
(`Reaches.continues`).

The newline matters, because a word, a number or a comment may end where the text is cut.  There is
one token that could become part of a comment by what follows: a `/` in front of a `*`, where the
comment was never closed.  No program goes on behind it, so the text is cut between the two.
-/

namespace Scriptlet

set_option autoImplicit false

namespace Cursor

/-- The same place in two texts that agree up to the offset `stop`, from where the second one goes on
with `rest`. -/
def Cut (stop : Nat) (rest : List Char) (c c' : Cursor) : Prop :=
  ∃ front back, c.rest = front ++ back ∧ c.offset + front.length = stop ∧
    c' = { c with rest := front ++ rest }

theorem advance_append (n : Nat) {c : Cursor} {front back : List Char} (h : c.rest = front ++ back)
    (hn : n ≤ front.length) (rest : List Char) :
    advance n { c with rest := front ++ rest } = { c.advance n with rest := front.drop n ++ rest } := by
  induction n generalizing c front with
  | zero => rfl
  | succ n ih =>
    obtain ⟨o, l, k, text⟩ := c
    obtain rfl : text = front ++ back := h
    cases front with
    | nil => exact absurd hn (Nat.not_succ_le_zero n)
    | cons ch front =>
      have hle : n ≤ front.length := Nat.le_of_succ_le_succ hn
      rw [List.cons_append, List.cons_append, advance, advance, List.drop_succ_cons]
      split
      · exact ih (c := ⟨o + 1, l + 1, 1, front ++ back⟩) rfl hle
      · exact ih (c := ⟨o + 1, l, k + 1, front ++ back⟩) rfl hle

variable {stop : Nat} {rest : List Char} {c c' : Cursor}

/-- Both places move on, up to where the texts part. -/
theorem Cut.advance (h : c.Cut stop rest c') {n : Nat} (hn : c.offset + n ≤ stop) :
    (c.advance n).Cut stop rest (c'.advance n) := by
  obtain ⟨front, back, hrest, hstop, rfl⟩ := h
  have hle : n ≤ front.length := by omega
  have hlong : n ≤ c.rest.length := by
    rw [hrest, List.length_append]
    omega
  refine ⟨front.drop n, back, ?_, ?_, advance_append n hrest hle rest⟩
  · rw [rest_advance, hrest, List.drop_append_of_le_length hle]
  · rw [offset_advance hlong, List.length_drop]
    omega

/-- The text between two places in front of the cut is the same. -/
theorem Cut.locate (h : c.Cut stop rest c') {k : Nat} (hk : k ≤ stop) :
    c'.locate k = c.locate k := by
  obtain ⟨front, back, hrest, hstop, rfl⟩ := h
  have hle : k - c.offset ≤ front.length := by omega
  rw [Cursor.locate, Cursor.locate, hrest, List.take_append_of_le_length hle,
    List.take_append_of_le_length hle]

theorem cut_start {source : List Char} {stop : Nat} (h : stop ≤ source.length) (rest : List Char) :
    (start source).Cut stop rest (start (source.take stop ++ rest)) :=
  ⟨source.take stop, source.drop stop, (List.take_append_drop stop source).symm,
    by rw [start, Nat.zero_add, List.length_take_of_le h], rfl⟩

end Cursor

/-! ## A slash in front of a star -/

namespace Reader.State

variable {t : Token}

/-- No operand starts with a `*`. -/
theorem feedOperand_star (ht : t.terminal = .star ∨ t.terminal = .starEqual) (hole : Hole) :
    feedOperand hole t = none := by
  rcases ht with ht | ht <;> simp [feedOperand, closeEmpty, ht]

/-- Behind a `/` an operand has to follow. -/
theorem feed_slash {s next : State} (ht : t.terminal = .slash) (h : s.feed t = some next) :
    ∃ hole, next = .operand hole := by
  cases s <;> simp [feed, ht, feedOperand, feedAfter, Pending.binary?, closeEmpty] at h
  all_goals exact ⟨_, h.symm⟩

end Reader.State

namespace Lexer

theorem lexeme_slash (mode : Mode) (more : List Char) :
    lexeme mode ('/' :: '*' :: more) = some (.slash, 1) := by
  cases mode <;> rfl

theorem lexeme_star {mode : Mode} {more : List Char} {t : Terminal} {n : Nat}
    (h : lexeme mode ('*' :: more) = some (t, n)) : t = .star ∨ t = .starEqual := by
  have hsymbol : symbol? ('*' :: more) = some (t, n) := by
    cases mode <;> exact h
  obtain ⟨s, hs, hpair⟩ := Option.map_eq_some_iff.1 hsymbol
  obtain ⟨rfl, -⟩ := Prod.mk.inj hpair
  have hmarks : ∀ s ∈ symbols, ∃ c tail, s.1 = c :: tail ∧
      (c = '*' → s.2 = .star ∨ s.2 = .starEqual) := by
    simp [symbols]
  obtain ⟨c, tail, hmark, hstar⟩ := hmarks s (List.mem_of_find?_eq_some hs)
  have hfront : s.1 <+: '*' :: more := by simpa using List.find?_some hs
  rw [hmark] at hfront
  exact hstar (List.cons_prefix_cons.1 hfront).1

end Lexer

/-! ## The reading goes on -/

namespace Lexer

variable {stop : Nat} {rest : List Char} {c c' : Cursor}

/-- A gap in front of a token that the cut leaves whole is the same in both texts. -/
theorem skip_cut (hr : AtNewline rest) (h : c.Cut stop rest c') (hstop : (skip c).offset < stop)
    (hc : ∀ more, (skip c).rest = '/' :: '*' :: more → stop = (skip c).offset + 1) :
    (skip c).Cut stop rest (skip c') := by
  have hgap := offset_skip c
  have hcut := h.advance (n := gapLength c.rest) (by omega)
  obtain ⟨front, back, hrest, hend, rfl⟩ := h
  rw [hrest] at hgap hcut
  have hle : gapLength (front ++ back) ≤ front.length := by omega
  have hdrop : (skip c).rest = front.drop (gapLength (front ++ back)) ++ back := by
    rw [skip, Cursor.rest_advance, hrest, List.drop_append_of_le_length hle]
  have hlength : (front.drop (gapLength (front ++ back))).length = stop - (skip c).offset := by
    rw [List.length_drop]
    omega
  have hzero : gapPiece (front.drop (gapLength (front ++ back)) ++ back) = 0 := by
    rw [← List.drop_append_of_le_length hle]
    exact gapPiece_drop_gapLength _
  have htoken : gapLength (front.drop (gapLength (front ++ back)) ++ rest) = 0 := by
    refine gapLength_token hr.atBlank hzero ?_ ?_
    · rintro hnil
      rw [hnil, List.length_nil] at hlength
      omega
    · intro more hmore
      rw [hmore] at hdrop hlength
      have hone := hc _ hdrop
      rw [List.length_cons, List.length_cons] at hlength
      omega
  rw [skip, skip, hrest, gapLength_local (fun _ => hr) hle, htoken, Nat.add_zero]
  exact hcut

/-- Where the texts part inside of the gap, or behind it, the second one goes on with its rest. -/
theorem skip_cut_end (hr : AtNewline rest) (h : c.Cut (skip c).offset rest c') :
    skip c' = skip { skip c with rest := rest } := by
  have hgap := offset_skip c
  obtain ⟨front, back, hrest, hend, rfl⟩ := h
  have hlength : gapLength (front ++ back) = front.length := by
    rw [hrest] at hgap
    omega
  have hadvance := Cursor.advance_append front.length hrest (Nat.le_refl _) rest
  rw [List.drop_length, List.nil_append] at hadvance
  have hlocal := gapLength_local (fun _ => hr) (Nat.le_of_eq hlength)
  rw [hlength, List.drop_length, List.nil_append] at hlocal
  rw [skip, skip, skip, hlocal, Cursor.advance_add, hadvance, hrest, hlength]

end Lexer

namespace Parser

open Reader Lexer

/-- Two readings of texts that agree up to `stop`, from where the second one goes on with `rest`. -/
def parting (stop : Nat) (rest : List Char) : Tie where
  start k c c' := c.Cut stop rest c' ∧ k ≤ stop
  stop k := k
  move := id
  good _ := True
  before := []
  text_move := Tie.text_id
  later hc hd _ := ⟨hc.1, hd.2⟩
  located h := ⟨trivial, h.1.locate h.2⟩

namespace Reading

variable {rule : Rule} {source rest : List Char} {r goal : Reading}

theorem Reaches.eq_of_star (h : r.Reaches goal) {hole : Hole} (hs : r.state = .operand hole)
    {more : List Char} (hrest : (skip r.place).rest = '*' :: more) : goal = r := by
  cases h with
  | refl => rfl
  | @token _ _ terminal n _ hl hf _ =>
    rw [hrest] at hl
    rw [hs] at hf
    exact nomatch (State.feedOperand_star (t := r.token terminal n) (lexeme_star hl) hole).symm.trans hf

/-- Nothing is read behind a `/` that stands in front of a `*`. -/
theorem Reaches.eq_of_slash_star {terminal : Terminal} {n : Nat} {next : State}
    (h : (r.after terminal n next).Reaches goal)
    (hl : lexeme r.state.mode (skip r.place).rest = some (terminal, n))
    (hf : r.state.feed (r.token terminal n) = some next) {more : List Char}
    (hrest : (skip r.place).rest = '/' :: '*' :: more) :
    n = 1 ∧ goal = r.after terminal n next ∧ skip goal.place = goal.place := by
  rw [hrest, lexeme_slash] at hl
  obtain ⟨rfl, rfl⟩ := Prod.mk.inj (Option.some.inj hl)
  obtain ⟨hole, rfl⟩ := State.feed_slash rfl hf
  have hafter : ((skip r.place).advance 1).rest = '*' :: more := by
    rw [Cursor.rest_advance, hrest]
    rfl
  have hskip : skip ((skip r.place).advance 1) = (skip r.place).advance 1 := by
    rw [skip, hafter, gapLength_eq_zero rfl]
    rfl
  have hstar : (skip (r.after .slash 1 (.operand hole)).place).rest = '*' :: more :=
    (congrArg Cursor.rest hskip).trans hafter
  obtain rfl := h.eq_of_star rfl hstar
  exact ⟨rfl, rfl, hskip⟩

theorem Reaches.slash_star {terminal : Terminal} {n : Nat} {next : State}
    (h : (r.after terminal n next).Reaches goal)
    (hl : lexeme r.state.mode (skip r.place).rest = some (terminal, n))
    (hf : r.state.feed (r.token terminal n) = some next) {more : List Char}
    (hrest : (skip r.place).rest = '/' :: '*' :: more) :
    (skip goal.place).offset = (skip r.place).offset + 1 := by
  obtain ⟨rfl, rfl, hskip⟩ := h.eq_of_slash_star hl hf hrest
  rw [hskip]
  exact Cursor.offset_advance (by rw [hrest]; exact Nat.le_add_left 1 _)

/-- The next token is found again in front of the cut. -/
theorem Reaches.keepsUp (hr : AtNewline rest) {place : Cursor} {terminal : Terminal} {n : Nat}
    {next : State} (h : (r.after terminal n next).Reaches goal)
    (hp : r.place.Cut (skip goal.place).offset rest place)
    (hl : lexeme r.state.mode (skip r.place).rest = some (terminal, n))
    (hf : r.state.feed (r.token terminal n) = some next) :
    KeepsUp (parting (skip goal.place).offset rest) (Cursor.Cut (skip goal.place).offset rest) r place
      terminal n := by
  have hpos := lexeme_pos hl
  have hend : (skip r.place).offset + n ≤ (skip goal.place).offset := by
    have hafter : (r.after terminal n next).place.offset = (skip r.place).offset + n := offset_after hl
    rw [← hafter]
    exact Nat.le_trans h.offset_le (Cursor.offset_le_advance _ _)
  have hskip := skip_cut hr hp (by omega) fun more hmore => h.slash_star hl hf hmore
  have hplace := hskip.advance hend
  have hstart : (parting (skip goal.place).offset rest).start ((skip r.place).offset + n) (skip r.place)
      (skip place) := ⟨hskip, hend⟩
  obtain ⟨front, back, hrest, hstop, heq⟩ := hskip
  have hle : n ≤ front.length := by omega
  rw [hrest] at hl
  rw [heq] at hplace hstart
  refine ⟨?_, ?_, ?_⟩
  · rw [heq]
    exact lexeme_local hr.atBlank hl hle
  · rw [heq]
    refine ⟨rfl, ?_, hstart, rfl⟩
    show String.ofList ((front ++ rest).take n) = String.ofList ((skip r.place).rest.take n)
    rw [hrest, List.take_append_of_le_length hle, List.take_append_of_le_length hle]
  · rw [heq]
    exact hplace

/-- **What has been read does not depend on what follows.**  A text that agrees with the source up to
the next token, and goes on with a newline or ends there, is read to the same state. -/
theorem Reaches.continues (h : (start rule source).Reaches goal) (hr : AtNewline rest) :
    ∃ other, (start rule (source.take (skip goal.place).offset ++ rest)).Reaches other ∧
      TiedState (parting (skip goal.place).offset rest) goal.place.offset goal.state other.state ∧
      skip other.place = skip { skip goal.place with rest := rest } := by
  have hlength : (skip goal.place).offset ≤ source.length := by
    have hin : (start rule source).place.In source := Cursor.in_start source
    rw [← (h.within hin nofun).1.skip.offset_add]
    exact Nat.le_add_right _ _
  have hstart : (start rule source).Alongside (parting (skip goal.place).offset rest)
      (Cursor.Cut (skip goal.place).offset rest)
      (start rule (source.take (skip goal.place).offset ++ rest)) :=
    ⟨.initial rfl _ rule, Cursor.cut_start hlength rest⟩
  obtain ⟨other, hother, hgoal⟩ := h.alongside hstart fun r place terminal n next hp hl hf hreaches =>
    hreaches.keepsUp hr hp hl hf
  exact ⟨other, hother, hgoal.state, skip_cut_end hr hgoal.place⟩

end Reading

end Parser

end Scriptlet
