import Scriptlet.Proofs.InsertedGaps
import Scriptlet.Proofs.NodeSpans

/-!
# Slices of a source

Some tokens in a row, cut out of a source from the start of the first one to the end of the last one, are
a source of just these tokens, with the same places up to the offset of the slice (`Lexer.exists_slice`).
In front of the slice only whole tokens and gaps are dropped.  Behind it the text ends where a token ends,
and no token and no gap that ends there reads on; a comment that is not closed in the source is not
closed in the slice either.
-/

namespace Scriptlet

set_option autoImplicit false

/-- A stretch that starts later by a number of characters. -/
def Span.shift (d : Nat) (s : Span) : Span :=
  ⟨d + s.start, d + s.stop⟩

namespace Lexer

variable {cs xs ys : List Char} {texts more : List String}

/-! ## The end of a slice -/

/-- Where no gap starts in a text, none starts in its first part. -/
theorem gapPiece_front (h : gapPiece (xs ++ ys) = 0) : gapPiece xs = 0 := by
  unfold gapPiece
  split
  · exact absurd (show 2 + _ = 0 from h) (by omega)
  · next body =>
    cases hn : commentTail body with
    | none => rfl
    | some n =>
      have hend : commentTail (body ++ []) = some n := by rwa [List.append_nil]
      have htail : commentTail (body ++ ys) = some n := commentTail_local hend (commentTail_le hn)
      have hpiece : gapPiece ('/' :: '*' :: (body ++ ys)) = 2 + n := by
        rw [gapPiece, htail]
      exact absurd (hpiece.symm.trans h) (by omega)
  · next c rest _ _ =>
    refine if_neg fun hc => ?_
    rw [List.cons_append, gapPiece_space hc] at h
    exact absurd h (by decide)
  · rfl

/-- The gap in front of a token is the same if the text ends with the token or behind it. -/
theorem gapLength_truncated {gap token : List Char} (hne : token ≠ [])
    (h : gapLength (gap ++ token ++ ys) = gap.length) : gapLength (gap ++ token) = gap.length := by
  have hpiece := gapPiece_drop_gapLength (gap ++ token ++ ys)
  rw [h, List.append_assoc, List.drop_left] at hpiece
  have hlt : gap.length < (gap ++ token).length := by
    rw [List.length_append]
    exact Nat.lt_add_of_pos_right (List.length_pos_of_ne_nil hne)
  have hlocal := @gapLength_local (gap ++ token) ys []
    (fun heq => absurd (h.symm.trans heq) (Nat.ne_of_lt hlt)) (h ▸ Nat.le_of_lt hlt)
  rwa [List.append_nil, h, List.drop_left, List.append_nil,
    gapLength_eq_zero (gapPiece_front hpiece), Nat.add_zero] at hlocal

/-- A token is cut out as before if the text ends with the token or behind it. -/
theorem cut_truncated {gap token front : List Char} {t : Terminal}
    (hgap : gapLength (gap ++ (token ++ (front ++ ys))) = gap.length)
    (hlex : lexeme .any (token ++ (front ++ ys)) = some (t, token.length)) :
    gapLength (gap ++ (token ++ front)) = gap.length ∧
      cut (gap ++ (token ++ front)) = (cut front).map (String.ofList token :: ·) := by
  have hne : token ++ front ≠ [] := by
    intro hnil
    have hpos := lexeme_pos hlex
    rw [(List.append_eq_nil_iff.1 hnil).1] at hpos
    exact Nat.lt_irrefl 0 hpos
  rw [← List.append_assoc token, ← List.append_assoc gap] at hgap
  rw [← List.append_assoc] at hlex
  have hsame := gapLength_truncated hne hgap
  have htoken : lexeme .any (token ++ front) = some (t, token.length) := by
    rw [← List.append_nil (token ++ front)]
    refine lexeme_local (fun _ hc => nomatch hc) hlex ?_
    rw [List.length_append]
    exact Nat.le_add_right _ _
  refine ⟨hsame, ?_⟩
  rw [cut_token (by rw [hsame, List.drop_left]; exact htoken), hsame, List.drop_left, List.drop_left,
    List.take_left]

/-- The first tokens of a source are cut from the part of it that ends with them. -/
theorem exists_front (hne : texts ≠ []) (h : cut cs = some (texts ++ more)) (offset : Nat) :
    ∃ front back, cs = front ++ back ∧ cut front = some texts ∧
      gapLength front = gapLength cs ∧ places offset front texts = places offset cs texts ∧
      (places offset cs texts).getLast?.map (·.stop) = some (offset + front.length) := by
  induction texts generalizing cs offset with
  | nil => exact (hne rfl).elim
  | cons text rest ih =>
    obtain ⟨t, behind, hbehind, hlex, hrest⟩ := cut_eq_cons h
    obtain ⟨gap, rfl, hgap⟩ : ∃ gap, cs = gap ++ (text.toList ++ behind) ∧ gapLength cs = gap.length :=
      ⟨cs.take (gapLength cs), by rw [← hbehind, List.take_append_drop],
        (List.length_take_of_le (gapLength_le cs)).symm⟩
    -- The places behind the first token, in the source and in its front.
    have hplaces : ∀ tail : List Char, gapLength (gap ++ (text.toList ++ tail)) = gap.length →
        places offset (gap ++ (text.toList ++ tail)) (text :: rest) =
          ⟨offset + gap.length, offset + gap.length + text.length⟩ ::
            places (offset + gap.length + text.length) tail rest := by
      intro tail htail
      rw [places, htail, ← String.length_toList, List.drop_length_add_append, List.drop_left]
    by_cases hnil : rest = []
    · subst hnil
      obtain ⟨hfront, hcut⟩ := @cut_truncated _ _ _ [] _ hgap hlex
      refine ⟨gap ++ (text.toList ++ []), behind, by simp, ?_, hfront.trans hgap.symm, ?_, ?_⟩
      · rw [hcut, cut_end List.drop_nil, String.ofList_toList]
        rfl
      · rw [hplaces [] hfront, hplaces behind hgap]
        rfl
      · rw [hplaces behind hgap]
        simp [places, Nat.add_assoc, ← String.length_toList]
    · obtain ⟨front, back, rfl, hcut, -, hsame, hlast⟩ :=
        ih hnil hrest (offset + gap.length + text.length)
      obtain ⟨hfront, hcuts⟩ := cut_truncated hgap hlex
      refine ⟨gap ++ (text.toList ++ front), back, by simp, ?_, hfront.trans hgap.symm, ?_, ?_⟩
      · rw [hcuts, hcut, String.ofList_toList]
        rfl
      · rw [hplaces front hfront, hplaces _ hgap, hsame]
      · rw [hplaces _ hgap]
        obtain ⟨last, hl, hstop⟩ := Option.map_eq_some_iff.1 hlast
        rw [List.getLast?_cons, hl, Option.getD_some, Option.map_some, hstop]
        simp [Nat.add_assoc, ← String.length_toList]

/-! ## The start of a slice -/

/-- What is behind the first tokens of a source, and the gap behind them, is cut as before. -/
theorem exists_back {skipped : List String} (hne : texts ≠ []) (h : cut cs = some (skipped ++ texts))
    (offset : Nat) : ∃ k, cut (cs.drop k) = some texts ∧ gapLength (cs.drop k) = 0 ∧
      places (offset + k) (cs.drop k) texts = (places offset cs (skipped ++ texts)).drop skipped.length := by
  induction skipped generalizing cs offset with
  | nil =>
    have hzero := gapLength_eq_zero (gapPiece_drop_gapLength cs)
    refine ⟨gapLength cs, ?_, hzero, ?_⟩
    · have hsame : cut (cs.drop (gapLength cs)) = cut cs :=
        cut_congr (by rw [hzero, List.drop_zero])
      rw [hsame, h]
      rfl
    · cases texts with
      | nil => exact (hne rfl).elim
      | cons text rest =>
        rw [List.nil_append, List.length_nil, List.drop_zero, places, places, hzero, Nat.add_zero,
          Nat.zero_add, List.drop_drop]
  | cons text skipped ih =>
    obtain ⟨t, behind, hbehind, -, hrest⟩ := cut_eq_cons h
    have hdrop : cs.drop (gapLength cs + text.length) = behind := by
      rw [← List.drop_drop, hbehind, ← String.length_toList, List.drop_left]
    obtain ⟨k, hcut, hgap, hplaces⟩ := ih hrest (offset + gapLength cs + text.length)
    refine ⟨gapLength cs + text.length + k, ?_, ?_, ?_⟩
    · rwa [← List.drop_drop, hdrop]
    · rwa [← List.drop_drop, hdrop]
    · rw [← List.drop_drop, hdrop, List.cons_append, places, List.length_cons, List.drop_succ_cons, hdrop,
        ← hplaces]
      simp only [Nat.add_assoc]

theorem places_shift (d offset : Nat) (cs : List Char) (texts : List String) :
    places (d + offset) cs texts = (places offset cs texts).map (Span.shift d) := by
  induction texts generalizing offset cs with
  | nil => rfl
  | cons text rest ih =>
    rw [places, places, List.map_cons, Nat.add_assoc d offset, Nat.add_assoc d, ih]
    rfl

theorem places_take (offset : Nat) (cs : List Char) (texts more : List String) :
    (places offset cs (texts ++ more)).take texts.length = places offset cs texts := by
  induction texts generalizing offset cs with
  | nil => rfl
  | cons text rest ih =>
    rw [List.cons_append, places, places, List.length_cons, List.take_succ_cons, ih]

/-- **A slice.**  Tokens in a row are cut from the slice of the source between them. -/
theorem exists_slice {skipped : List String} (hne : texts ≠ [])
    (h : cut cs = some (skipped ++ texts ++ more)) :
    ∃ d slice back, cs.drop d = slice ++ back ∧ cut slice = some texts ∧ gapLength slice = 0 ∧
      ((places 0 cs (skipped ++ texts ++ more)).drop skipped.length).take texts.length =
        (places 0 slice texts).map (Span.shift d) ∧
      (places 0 slice texts).getLast?.map (·.stop) = some slice.length := by
  rw [List.append_assoc] at h ⊢
  obtain ⟨d, hcut, hgap, hplaces⟩ := exists_back (List.append_ne_nil_of_left_ne_nil hne more) h 0
  obtain ⟨slice, back, hslice, hfront, hgap', hsame, hlast⟩ := exists_front hne hcut 0
  refine ⟨d, slice, back, hslice, hfront, hgap'.trans hgap, ?_, ?_⟩
  · rw [← hplaces, places_take, Nat.zero_add, hsame]
    exact places_shift d 0 _ _
  · rw [hsame, hlast, Nat.zero_add]

end Lexer

end Scriptlet
