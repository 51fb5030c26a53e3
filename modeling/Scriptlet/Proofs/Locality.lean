import Scriptlet.Proofs.Lexical

/-!
# What a token depends on

A token is as long as it can be, so it depends on the text behind it.  It does not depend on more
than whether it could go on: where a token ends within `xs`, it ends there as well when what follows
`xs` is replaced by a text that starts with a blank (`lexeme_local`).  So does a gap, except that a
comment up to the end of its line goes on behind `xs` if it reaches that far and no newline follows
(`gapLength_local`).  One case is apart.  A `/` in front of a `*` is a token only as long as the
comment is not closed, and what closes it may stand far behind.
-/

namespace Scriptlet.Lexer

set_option autoImplicit false

variable {mode : Mode} {xs ys rest cs : List Char} {t : Terminal} {n : Nat}

/-- The end of a text, or a newline and whatever follows it. -/
def AtNewline (rest : List Char) : Prop :=
  ∀ c ∈ rest.head?, c = '\n'

theorem AtNewline.newline (rest : List Char) : AtNewline ('\n' :: rest) := by
  rintro _ ⟨⟩
  rfl

theorem AtNewline.atBlank (h : AtNewline rest) : AtBlank rest := by
  intro c hc
  obtain rfl := h c hc
  rfl

/-! ## Tokens -/

theorem takeWhile_local {p : Char → Bool}
    (hr : ((xs ++ ys).takeWhile p).length = xs.length → ∀ c ∈ rest.head?, p c = false)
    (hn : ((xs ++ ys).takeWhile p).length ≤ xs.length) :
    (xs ++ rest).takeWhile p = (xs ++ ys).takeWhile p := by
  induction xs with
  | nil =>
    have hnil : ys.takeWhile p = [] := List.length_eq_zero_iff.1 (Nat.le_zero.1 hn)
    rw [List.nil_append, List.nil_append, hnil]
    cases rest with
    | nil => rfl
    | cons c rest =>
      have hc : p c = false := hr (congrArg List.length hnil) c rfl
      simp [hc]
  | cons c xs ih =>
    rw [List.cons_append, List.takeWhile_cons] at hn hr ⊢
    rw [List.cons_append, List.takeWhile_cons]
    split at hn
    · next hc =>
      rw [if_pos hc] at hr
      rw [if_pos hc, if_pos hc, ih (fun h => hr (congrArg Nat.succ h)) (Nat.le_of_succ_le_succ hn)]
    · next hc => rw [if_neg hc, if_neg hc]

/-- A text that ends within `xs` is a beginning of `xs`. -/
theorem eq_append_of_le (front : List Char) {back : List Char} (h : xs ++ ys = front ++ back)
    (hn : front.length ≤ xs.length) : ∃ more, xs = front ++ more := by
  obtain ⟨more, rfl⟩ := List.prefix_of_prefix_length_le ⟨back, h.symm⟩ (List.prefix_append xs ys) hn
  exact ⟨more, rfl⟩

theorem stringTail_local {q : Char} (hq : q = '"' ∨ q = '\'') (h : stringTail q (xs ++ ys) = some n)
    (hn : n ≤ xs.length) : stringTail q (xs ++ rest) = some n := by
  obtain ⟨body, after, heq, rfl, hbody⟩ := stringTail_spec h
  rw [List.append_cons] at heq
  obtain ⟨more, rfl⟩ := eq_append_of_le _ heq (by rwa [List.length_append])
  rw [List.append_assoc, List.append_assoc, List.singleton_append]
  exact stringTail_body hq hbody _

/-- A mark has no blank in it, so that it does not reach into what follows. -/
theorem isPrefixOf_local {mark : List Char} (hm : ∀ c ∈ mark, ¬ isSpace c) (hr : AtBlank rest)
    (h : mark <+: xs ++ rest) : mark <+: xs := by
  rcases Nat.lt_or_ge xs.length mark.length with hlt | hle
  · obtain ⟨more, rfl⟩ := List.prefix_of_prefix_length_le (List.prefix_append xs rest) h
      (Nat.le_of_lt hlt)
    rw [List.prefix_append_right_inj] at h
    cases more with
    | nil => rw [List.append_nil] at hlt; exact (Nat.lt_irrefl _ hlt).elim
    | cons c more =>
      obtain ⟨tail, rfl⟩ := h
      exact (hm c (List.mem_append_right _ List.mem_cons_self) (hr c rfl)).elim
  · exact List.prefix_of_prefix_length_le h (List.prefix_append xs rest) hle

theorem symbol?_local (hr : AtBlank rest) (h : symbol? (xs ++ ys) = some (t, n))
    (hn : n ≤ xs.length) : symbol? (xs ++ rest) = some (t, n) := by
  have hmarks : ∀ s ∈ symbols, ∀ c ∈ s.1, ¬ isSpace c := by
    have hall : symbols.all (fun s => s.1.all fun c => !isSpace c) = true := by decide
    simpa using hall
  unfold symbol? at h ⊢
  generalize symbols = table at h hmarks
  induction table with
  | nil => exact nomatch h
  | cons s table ih =>
    rw [List.find?_cons] at h ⊢
    split at h
    · next hs =>
      obtain ⟨rfl, rfl⟩ := Prod.mk.inj (Option.some.inj h)
      obtain ⟨after, heq⟩ := List.isPrefixOf_iff_prefix.1 hs
      obtain ⟨more, rfl⟩ := eq_append_of_le s.1 heq.symm hn
      rw [List.append_assoc, List.isPrefixOf_iff_prefix.2 (List.prefix_append s.1 _)]
      rfl
    · next hs =>
      have hs' : s.1.isPrefixOf (xs ++ rest) = false := by
        refine Bool.eq_false_iff.2 fun hpre => Bool.eq_false_iff.1 hs ?_
        have hxs := isPrefixOf_local (hmarks s List.mem_cons_self) hr (List.isPrefixOf_iff_prefix.1 hpre)
        exact List.isPrefixOf_iff_prefix.2 (hxs.trans (List.prefix_append xs ys))
      rw [hs']
      exact ih h fun s hs => hmarks s (List.mem_cons_of_mem _ hs)

theorem not_isWordPart_of_isSpace {c : Char} (h : isSpace c) : isWordPart c = false := by
  simp only [isSpace, Bool.or_eq_true, beq_iff_eq, or_assoc] at h
  rcases h with rfl | rfl | rfl | rfl | rfl <;> decide

/-- A token that ends within `xs` is the same whatever follows, if a blank comes first. -/
theorem lexeme_local (hr : AtBlank rest) (h : lexeme mode (xs ++ ys) = some (t, n))
    (hn : n ≤ xs.length) : lexeme mode (xs ++ rest) = some (t, n) := by
  cases xs with
  | nil => exact absurd (lexeme_pos h) (by simpa using hn)
  | cons c xs =>
    rw [List.cons_append, lexeme] at h ⊢
    split_ifs at h ⊢ with hw hd hq
    · obtain ⟨rfl, rfl⟩ := Prod.mk.inj (Option.some.inj h)
      have hword : ∀ d ∈ rest.head?, isWordPart d = false := fun d hd =>
        not_isWordPart_of_isSpace (hr d hd)
      rw [takeWhile_local (fun _ => hword) (Nat.le_of_succ_le_succ hn)]
    · obtain ⟨rfl, rfl⟩ := Prod.mk.inj (Option.some.inj h)
      have hdigit : ∀ d ∈ rest.head?, Numeral.isDigit d = false := fun d hd =>
        (Bool.or_eq_false_iff.1 (not_isWordPart_of_isSpace (hr d hd))).2
      rw [takeWhile_local (fun _ => hdigit) (Nat.le_of_succ_le_succ (Nat.add_comm _ _ ▸ hn))]
    · obtain ⟨m, hm, he⟩ := Option.map_eq_some_iff.1 h
      obtain ⟨rfl, rfl⟩ := Prod.mk.inj he
      rw [stringTail_local (by simpa using hq) hm (Nat.le_of_succ_le_succ hn)]
      rfl
    · rw [Mode.symbol?_cons] at h ⊢
      cases hsign : mode.sign? c with
      | some k => rw [hsign] at h; exact h
      | none =>
        rw [hsign] at h
        rw [← List.cons_append] at h ⊢
        exact symbol?_local hr h hn

/-- A text that is one token is read as that token where a blank follows it. -/
theorem lexeme_atBlank (hr : AtBlank rest) (h : lexeme mode cs = some (t, cs.length)) :
    lexeme mode (cs ++ rest) = some (t, cs.length) := by
  rw [← List.append_nil cs] at h
  exact lexeme_local hr (h.trans (by rw [List.append_nil])) (Nat.le_refl _)

/-- A token is no longer than the text. -/
theorem lexeme_le (h : lexeme mode cs = some (t, n)) : n ≤ cs.length := by
  cases cs with
  | nil => exact nomatch h
  | cons c cs =>
    rw [lexeme] at h
    split_ifs at h with hw hd hq
    · obtain ⟨rfl, rfl⟩ := Prod.mk.inj (Option.some.inj h)
      exact Nat.succ_le_succ (List.takeWhile_prefix _).length_le
    · obtain ⟨rfl, rfl⟩ := Prod.mk.inj (Option.some.inj h)
      rw [Nat.add_comm]
      exact Nat.succ_le_succ (List.takeWhile_prefix _).length_le
    · obtain ⟨m, hm, he⟩ := Option.map_eq_some_iff.1 h
      obtain ⟨rfl, rfl⟩ := Prod.mk.inj he
      obtain ⟨body, after, rfl, rfl, _⟩ := stringTail_spec hm
      simp
    · rw [Mode.symbol?_cons] at h
      cases hsign : mode.sign? c with
      | some k =>
        rw [hsign] at h
        obtain ⟨rfl, rfl⟩ := Prod.mk.inj (Option.some.inj h)
        simp
      | none =>
        rw [hsign] at h
        obtain ⟨s, hs, he⟩ := Option.map_eq_some_iff.1 h
        obtain ⟨rfl, rfl⟩ := Prod.mk.inj he
        have hmark := List.find?_some (p := fun s : List Char × Terminal => s.1.isPrefixOf (c :: cs)) hs
        exact (List.isPrefixOf_iff_prefix.1 hmark).length_le

/-- No token starts with a character that ends a line. -/
theorem lexeme_head {c : Char} (h : lexeme mode (c :: cs) = some (t, n)) :
    Text.isLineEnd c = false := by
  refine Bool.eq_false_iff.2 fun hc => ?_
  have hends : c.toNat ∈ [10, 11, 12, 13, 28, 29, 30, 0x85, 0x2028, 0x2029] := by
    simp only [Text.isLineEnd, Bool.or_eq_true, Bool.and_eq_true, decide_eq_true_eq,
      beq_iff_eq] at hc
    simp only [List.mem_cons, List.not_mem_nil, or_false]
    omega
  rw [← Char.ofNat_toNat c] at h
  generalize c.toNat = code at hends h
  have hnone : lexeme mode (Char.ofNat code :: cs) = none := by
    simp only [List.mem_cons, List.not_mem_nil, or_false] at hends
    rcases hends with rfl | rfl | rfl | rfl | rfl | rfl | rfl | rfl | rfl | rfl <;>
      cases mode <;> rfl
  exact nomatch hnone.symm.trans h

/-! ## Gaps -/

theorem commentTail_local (h : commentTail (xs ++ ys) = some n)
    (hn : n ≤ xs.length) : commentTail (xs ++ rest) = some n := by
  generalize hcs : xs ++ ys = cs at h
  fun_induction commentTail cs generalizing xs n with
  | case1 => cases h
  | case2 tail =>
    obtain rfl := Option.some.inj h
    obtain ⟨more, rfl⟩ := eq_append_of_le ['*', '/'] hcs hn
    rfl
  | case3 c tail hne ih =>
    obtain ⟨m, hm, rfl⟩ := Option.map_eq_some_iff.1 h
    obtain ⟨rfl, -⟩ | ⟨more, rfl, rfl⟩ := List.append_eq_cons_iff.1 hcs
    · exact absurd hn (Nat.not_succ_le_zero m)
    have hmore := ih (Nat.le_of_succ_le_succ hn) rfl hm
    rw [List.cons_append, commentTail, hmore]
    · rfl
    · intro after hstar heq
      cases more with
      | nil =>
        -- No comment ends here already.
        obtain ⟨body, htake⟩ := take_commentTail hm
        obtain rfl : m = 0 := Nat.le_zero.1 (Nat.le_of_succ_le_succ hn)
        exact absurd htake.symm (by simp)
      | cons d more => exact hne (more ++ ys) hstar (by rw [(List.cons.inj heq).1]; rfl)

theorem gapPiece_space {c : Char} (hc : isSpace c) (cs : List Char) : gapPiece (c :: cs) = 1 := by
  simp only [isSpace, Bool.or_eq_true, beq_iff_eq, or_assoc] at hc
  rcases hc with rfl | rfl | rfl | rfl | rfl <;> rfl

/-- A blank or comment that ends within `xs` is the same whatever follows, if a newline comes where it
ends with `xs`. -/
theorem gapPiece_local (hr : n + 1 = xs.length → AtNewline rest) (h : gapPiece (xs ++ ys) = n + 1)
    (hn : n + 1 ≤ xs.length) : gapPiece (xs ++ rest) = n + 1 := by
  generalize hcs : xs ++ ys = cs at h
  unfold gapPiece at h
  split at h
  · next line =>
    obtain ⟨more, rfl⟩ := eq_append_of_le ['/', '/'] hcs (by simp; omega)
    obtain rfl : line = more ++ ys := (List.cons.inj (List.cons.inj hcs).2).2.symm
    have hlength : ((more ++ ys).takeWhile fun c => c != '\n').length ≤ more.length := by
      simp at hn
      omega
    show 2 + ((more ++ rest).takeWhile fun c => c != '\n').length = n + 1
    have hend : ((more ++ ys).takeWhile fun c => c != '\n').length = more.length →
        ∀ c ∈ rest.head?, (c != '\n') = false := by
      intro heq c hc
      rw [hr (by simp; omega) c hc]
      rfl
    rw [takeWhile_local hend hlength, h]
  · next body =>
    split at h
    · next m hm =>
      obtain ⟨more, rfl⟩ := eq_append_of_le ['/', '*'] hcs (by simp; omega)
      obtain rfl : body = more ++ ys := (List.cons.inj (List.cons.inj hcs).2).2.symm
      have htail : commentTail (more ++ rest) = some m :=
        commentTail_local hm (by simp at hn; omega)
      rw [← h]
      simp only [List.cons_append, List.nil_append, gapPiece, htail]
    · cases h
  · next c tail _ _ =>
    split_ifs at h with hc
    obtain rfl := Nat.succ.inj h
    obtain ⟨more, rfl⟩ := eq_append_of_le [c] hcs hn
    exact gapPiece_space hc (more ++ rest)
  · cases h

theorem commentTail_le (h : commentTail cs = some n) : n ≤ cs.length := by
  fun_induction commentTail cs generalizing n with
  | case1 => cases h
  | case2 tail =>
    obtain rfl := Option.some.inj h
    simp
  | case3 c tail _ ih =>
    obtain ⟨m, hm, rfl⟩ := Option.map_eq_some_iff.1 h
    exact Nat.succ_le_succ (ih hm)

theorem gapPiece_le (cs : List Char) : gapPiece cs ≤ cs.length := by
  unfold gapPiece
  split
  · next line =>
    have hline := (List.takeWhile_prefix (l := line) fun c => c != '\n').length_le
    simp only [List.length_cons]
    omega
  · next body =>
    split
    · next m hm =>
      have hbody := commentTail_le hm
      simp only [List.length_cons]
      omega
    · exact Nat.zero_le _
  · next c tail _ _ =>
    split
    · simp
    · exact Nat.zero_le _
  · exact Nat.le_refl 0

/-- A text from which nothing is skipped starts with no blank and no comment. -/
theorem gapPiece_eq_zero
    (h : ∀ (n : Nat) (c : Char) (tail : List Char), gapPiece cs = n.succ → cs = c :: tail → False) :
    gapPiece cs = 0 := by
  cases hn : gapPiece cs with
  | zero => rfl
  | succ n =>
    cases cs with
    | nil => exact nomatch hn
    | cons c tail => exact (h n c tail hn rfl).elim

/-- A gap is no longer than the text. -/
theorem gapLength_le (cs : List Char) : gapLength cs ≤ cs.length := by
  induction cs using gapLength.induct with
  | case1 n c tail hp ih =>
    have hpiece := gapPiece_le (c :: tail)
    rw [hp, List.length_cons] at hpiece
    rw [List.length_drop] at ih
    rw [gapLength_succ hp, List.length_cons]
    omega
  | case2 cs hp => rw [gapLength_eq_zero (gapPiece_eq_zero hp)]; exact Nat.zero_le _

/-- A gap that ends within `xs` goes on with what follows `xs` only if it reaches the end of `xs`. -/
theorem gapLength_local (hr : gapLength (xs ++ ys) = xs.length → AtNewline rest)
    (hn : gapLength (xs ++ ys) ≤ xs.length) :
    gapLength (xs ++ rest) =
      gapLength (xs ++ ys) + gapLength (xs.drop (gapLength (xs ++ ys)) ++ rest) := by
  generalize hcs : xs ++ ys = cs at hr hn ⊢
  induction cs using gapLength.induct generalizing xs with
  | case1 n c tail hp ih =>
    obtain ⟨rfl, -⟩ | ⟨more, rfl, rfl⟩ := List.append_eq_cons_iff.1 hcs
    · rw [gapLength_succ hp, Nat.add_right_comm] at hn
      exact absurd hn (Nat.not_succ_le_zero _)
    rw [gapLength_succ hp] at hr hn ⊢
    rw [List.length_cons] at hr hn
    have hdrop : ∀ zs : List Char, (more ++ zs).drop n = more.drop n ++ zs := fun zs =>
      List.drop_append_of_le_length (by omega)
    have hpiece : gapPiece ((c :: more) ++ rest) = n + 1 :=
      gapPiece_local (fun h => hr (by rw [List.length_cons] at h; omega)) hp
        (by rw [List.length_cons]; omega)
    have hmore := ih (hdrop ys).symm (fun h => hr (by rw [List.length_drop] at h; omega))
      (by rw [List.length_drop]; omega)
    rw [List.cons_append] at hpiece ⊢
    generalize gapLength ((more ++ ys).drop n) = g at hmore ⊢
    have htail : (c :: more).drop (n + 1 + g) = (more.drop n).drop g := by
      rw [List.drop_drop, Nat.add_right_comm, List.drop_succ_cons]
    rw [gapLength_succ hpiece, hdrop rest, hmore, htail, Nat.add_assoc (n + 1)]
  | case2 cs hp =>
    rw [gapLength_eq_zero (gapPiece_eq_zero hp), Nat.zero_add, List.drop_zero]

/-- Behind a gap no further blank or comment starts. -/
theorem gapPiece_drop_gapLength (cs : List Char) : gapPiece (cs.drop (gapLength cs)) = 0 := by
  induction cs using gapLength.induct with
  | case1 n c tail hp ih =>
    rw [gapLength_succ hp, Nat.add_right_comm, List.drop_succ_cons, ← List.drop_drop]
    exact ih
  | case2 cs hp =>
    have hzero := gapPiece_eq_zero hp
    rw [gapLength_eq_zero hzero]
    exact hzero

/-- A token that ends within `xs` starts no gap, whatever follows, unless it starts a comment that is
not closed yet. -/
theorem gapLength_token (hr : AtBlank rest) (hz : gapPiece (xs ++ ys) = 0) (hne : xs ≠ [])
    (hc : ∀ more, xs ≠ '/' :: '*' :: more) : gapLength (xs ++ rest) = 0 := by
  refine gapLength_eq_zero ?_
  cases xs with
  | nil => exact (hne rfl).elim
  | cons c xs =>
    have hspace : ¬ isSpace c := fun h => by rw [List.cons_append, gapPiece_space h] at hz; cases hz
    -- The second character of a comment would stand in `xs`, or be a blank.
    have hcomment : ∀ d tail, d = '/' ∨ d = '*' → c :: xs ++ rest ≠ '/' :: d :: tail := by
      intro d tail hd heq
      obtain ⟨rfl, htail⟩ := List.cons.inj heq
      cases xs with
      | nil =>
        obtain rfl : rest = d :: tail := htail
        exact absurd (hr d rfl) (by rcases hd with rfl | rfl <;> decide)
      | cons e xs =>
        obtain ⟨rfl, -⟩ := List.cons.inj htail
        rcases hd with rfl | rfl
        · exact absurd (show 2 + _ = 0 from hz) (by omega)
        · exact hc xs rfl
    unfold gapPiece
    split
    · next tail heq => exact (hcomment _ tail (.inl rfl) heq).elim
    · next tail heq => exact (hcomment _ tail (.inr rfl) heq).elim
    · next d tail _ _ heq =>
      obtain ⟨rfl, -⟩ := List.cons.inj heq
      rw [if_neg hspace]
    · rfl

end Scriptlet.Lexer
