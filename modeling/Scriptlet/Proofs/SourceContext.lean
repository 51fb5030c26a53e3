import Mathlib.Data.List.TakeWhile
import Scriptlet.Proofs.ErrorPlaces
import Scriptlet.Proofs.Literals

/-!
# The source context of a report

A report shows the line of the error with a caret under its column.  The place of an error counts
lines by newlines, and the context is cut into lines at every character that ends one on a terminal.
Where all lines in front of the error end with a newline, the two agree, and the caret stands under
the first character of the error's text (`run_error_shows_text`).  Where another character ends a
line in front of it, they do not (`run_error_shifts_context`).
-/

namespace Scriptlet

set_option autoImplicit false

/-! ## Lines -/

namespace Text

/-- Every end of a line in a text is a newline, or a carriage return with a newline behind it. -/
def isNewlined : List Char → Bool
  | [] => true
  | '\r' :: '\n' :: rest => isNewlined rest
  | c :: rest => (!isLineEnd c || c == '\n') && isNewlined rest

/-- The current line is the first of the lines from here on. -/
theorem linesFrom_current {line : List Char} (h : line ≠ []) (cs : List Char) :
    ∃ more rest, linesFrom line cs = (line.reverse ++ more) :: rest := by
  fun_induction linesFrom line cs with
  | case1 => exact (h rfl).elim
  | case2 line _ => exact ⟨[], [], by rw [List.append_nil]⟩
  | case3 line rest => exact ⟨[], _, by rw [List.append_nil]⟩
  | case4 line c rest _ _ => exact ⟨[], _, by rw [List.append_nil]⟩
  | case5 line c rest _ _ ih =>
    obtain ⟨more, others, hlines⟩ := ih (List.cons_ne_nil c line)
    exact ⟨c :: more, others, by rw [hlines, List.reverse_cons, List.append_assoc]; rfl⟩

/-- The place in its line of the character behind a text, where the line already holds `n`. -/
def columnFrom (n : Nat) (before : List Char) : Nat :=
  if '\n' ∈ before then colBehind before - 1 else n + before.length

theorem takeWhile_reverse {before : List Char} (h : '\n' ∉ before) :
    before.reverse.takeWhile (· != '\n') = before.reverse := by
  rw [List.takeWhile_eq_self_iff]
  intro c hc
  rw [bne_iff_ne]
  rintro rfl
  exact h (List.mem_reverse.1 hc)

theorem colBehind_of_notMem {before : List Char} (h : '\n' ∉ before) :
    colBehind before = 1 + before.length := by
  rw [colBehind, takeWhile_reverse h, List.length_reverse]

theorem colBehind_cons (c : Char) {before : List Char} (h : '\n' ∈ before) :
    colBehind (c :: before) = colBehind before := by
  rw [colBehind, colBehind, List.reverse_cons, List.takeWhile_append, if_neg]
  intro hall
  have hself := (List.takeWhile_prefix (l := before.reverse) (· != '\n')).eq_of_length hall
  have hmem : '\n' ∈ before.reverse.takeWhile (· != '\n') := by
    rw [hself]
    exact List.mem_reverse.2 h
  exact absurd (List.all_eq_true.1 List.all_takeWhile _ hmem) (by decide)

theorem colBehind_newline_cons (before : List Char) :
    colBehind ('\n' :: before) = colBehind before := by
  by_cases h : '\n' ∈ before
  · exact colBehind_cons _ h
  · rw [colBehind, colBehind, List.reverse_cons, List.takeWhile_append, takeWhile_reverse h,
      if_pos rfl]
    simp

theorem columnFrom_zero (before : List Char) : columnFrom 0 before = colBehind before - 1 := by
  unfold columnFrom
  split
  · rfl
  · next h => rw [colBehind_of_notMem h]; omega

theorem columnFrom_newline (n : Nat) (before : List Char) :
    columnFrom n ('\n' :: before) = columnFrom 0 before := by
  rw [columnFrom_zero, columnFrom, if_pos List.mem_cons_self, colBehind_newline_cons]

theorem columnFrom_cons (n : Nat) {c : Char} (hc : c ≠ '\n') (before : List Char) :
    columnFrom n (c :: before) = columnFrom (n + 1) before := by
  unfold columnFrom
  by_cases h : '\n' ∈ before
  · rw [if_pos h, if_pos (List.mem_cons_of_mem c h), colBehind_cons c h]
  · rw [if_neg h, if_neg (by simpa [Ne.symm hc] using h), List.length_cons]
    omega

/-- A character that ends no line stands where the newlines in front of it say, if they are the only
ends of lines there. -/
theorem linesFrom_getElem? {before : List Char} (hb : isNewlined before) {c : Char}
    (hc : isLineEnd c = false) (current after : List Char) :
    ∃ chars, (linesFrom current (before ++ c :: after))[before.count '\n']? = some chars ∧
      chars[columnFrom current.length before]? = some c := by
  have hnot : ∀ {d : Char}, isLineEnd d = true → c ≠ d := fun hd heq => by
    rw [heq, hd] at hc
    exact nomatch hc
  fun_induction isNewlined before generalizing current with
  | case1 =>
    obtain ⟨more, rest, hlines⟩ := linesFrom_current (List.cons_ne_nil c current) after
    refine ⟨(c :: current).reverse ++ more, ?_, ?_⟩
    · rw [List.nil_append, linesFrom, if_neg (by simp [hc]), hlines]
      · rfl
      · exact fun _ hr => (hnot (by decide) hr).elim
    · simp [columnFrom]
  | case2 rest ih =>
    obtain ⟨line, hline, hcol⟩ := ih hb []
    refine ⟨line, ?_, ?_⟩
    · rw [List.cons_append, List.cons_append, linesFrom]
      simpa using hline
    · rw [columnFrom_cons _ (by decide), columnFrom_newline]
      exact hcol
  | case3 d rest hne ih =>
    -- the pair of a carriage return and a newline does not come about at the end of `rest` either
    have hpair : ∀ more, d = '\r' → rest ++ c :: after = '\n' :: more → False := by
      rintro more rfl hmore
      cases rest with
      | nil => exact hnot (by decide) (List.cons.inj hmore).1
      | cons e rest => exact hne rest rfl (by rw [(List.cons.inj hmore).1])
    rw [Bool.and_eq_true] at hb
    rw [List.cons_append, linesFrom.eq_4 current d _ hpair]
    by_cases hd : d = '\n'
    · subst hd
      obtain ⟨line, hline, hcol⟩ := ih hb.2 []
      refine ⟨line, ?_, ?_⟩
      · rw [if_pos (by decide)]
        simpa using hline
      · rw [columnFrom_newline]
        exact hcol
    · obtain ⟨line, hline, hcol⟩ := ih hb.2 (d :: current)
      refine ⟨line, ?_, ?_⟩
      · rw [if_neg (by simpa [hd] using hb.1), List.count_cons_of_ne hd]
        exact hline
      · rw [columnFrom_cons _ hd]
        exact hcol

end Text

/-! ## The context -/

namespace Report

theorem part_within_intercalate (sep : String) {part : List String} (h : part ≠ [])
    (front back : List String) :
    (sep.intercalate part).toList <:+: (sep.intercalate (front ++ part ++ back)).toList := by
  have hfront : (sep.intercalate part).toList <:+: (sep.intercalate (front ++ part)).toList := by
    cases front with
    | nil => exact List.infix_rfl
    | cons x xs =>
      rw [String.intercalate_append_of_ne_nil (List.cons_ne_nil x xs) h, String.toList_append]
      exact (List.suffix_append _ _).isInfix
  cases back with
  | nil => rwa [List.append_nil]
  | cons y ys =>
    have hne : front ++ part ≠ [] := List.append_ne_nil_of_right_ne_nil _ h
    rw [String.intercalate_append_of_ne_nil hne (List.cons_ne_nil y ys), String.toList_append,
      String.toList_append, List.append_assoc]
    exact hfront.trans (List.prefix_append _ _).isInfix

theorem toList_padLeft (width : Nat) (s : String) :
    (padLeft width s).toList = List.replicate (width - s.length) ' ' ++ s.toList := by
  rw [padLeft, String.toList_append, String.toList_ofList]

/-- The texts of the context all start behind a gutter of the same width. -/
theorem contextLine_getElem? {width number : Nat} (h : (Numeral.ofNat number).length ≤ width)
    (marked : Bool) (text : List Char) (i : Nat) :
    (contextLine width marked number text).toList[width + 5 + i]? = text[i]? := by
  have hgutter : ((if marked then ">" else " ") ++ " " ++ padLeft width (Numeral.ofNat number) ++
      " | ").toList.length = width + 5 := by
    rw [← String.length_toList] at h
    cases marked <;> simp [toList_padLeft, ← String.length_toList] <;> omega
  rw [contextLine, String.toList_append, String.toList_ofList,
    List.getElem?_append_right (by omega), hgutter, Nat.add_sub_cancel_left]

theorem caretLine_getElem? (width col : Nat) :
    (caretLine width col).toList[width + 5 + (col - 1)]? = some '^' := by
  have hlength : ("  " ++ padLeft width "" ++ " | " ++ padLeft (col - 1) "").toList.length =
      width + 5 + (col - 1) := by
    simp [toList_padLeft]
    omega
  rw [caretLine, String.toList_append, List.getElem?_append_right (by omega), hlength,
    Nat.sub_self]
  rfl

/-- The message shows a line of the source with the mark, under its number, and directly below a
caret, and `c` is the character of the line above the caret. -/
def PutsCaretUnder (source message : String) (loc : Location) (c : Char) : Prop :=
  ∃ width text, text ∈ Text.lines source.toList ∧
    (contextLine width true loc.line text ++ "\n" ++ caretLine width loc.col).toList <:+:
      message.toList ∧
    text[loc.col - 1]? = some c ∧
    ∃ i : Nat, (caretLine width loc.col).toList[i]? = some '^' ∧
      (contextLine width true loc.line text).toList[i]? = some c

/-- The context of a line of the source shows this line and the caret. -/
theorem sourceContext_shows {source : String} {line : Nat} {text : List Char} (hpos : 1 ≤ line)
    (h : (Text.lines source.toList)[line - 1]? = some text) (col radius : Nat) :
    ∃ width, (Numeral.ofNat line).length ≤ width ∧
      (contextLine width true line text ++ "\n" ++ caretLine width col).toList <:+:
        (sourceContext source line (some col) radius).toList := by
  have hbound : line ≤ (Text.lines source.toList).length := by
    have := (List.getElem?_eq_some_iff.1 h).1
    omega
  have hrange : ¬(line < 1 || (Text.lines source.toList).length < line) := by
    simp
    omega
  unfold sourceContext
  dsimp only
  rw [if_neg hrange]
  set first := (max 1 ((line : Int) - radius)).toNat with hfirst
  set last := (min ((Text.lines source.toList).length : Int) ((line : Int) + radius)).toNat with hlast
  set width := (Numeral.ofNat last).length with hwidth
  refine ⟨width, ?_, ?_⟩
  · have hle : line ≤ last := by omega
    simpa [hwidth, Numeral.ofNat] using Numeral.length_digits_le hle
  · have hshown : (text, line) ∈ ((Text.lines source.toList).zipIdx 1).filter
        fun p => first ≤ p.2 && p.2 ≤ last := by
      rw [List.mem_filter, List.mk_mem_zipIdx_iff_le_and_getElem?_sub]
      exact ⟨⟨hpos, h⟩, by simp; omega⟩
    obtain ⟨front, back, hsplit⟩ := List.append_of_mem hshown
    rw [hsplit, List.append_cons, List.flatMap_append, List.flatMap_append, List.flatMap_singleton,
      beq_self_eq_true, if_pos rfl, Option.map_some, Option.toList_some]
    have hpair := part_within_intercalate "\n" (List.cons_ne_nil (contextLine width true line text)
      [caretLine width col])
    rw [String.intercalate_cons_cons, String.intercalate_singleton] at hpair
    exact hpair _ _

/-- The message of a report holds the context of its place. -/
theorem sourceContext_within {ε : Type} (e : Error ε) {visited : Option Location} {loc : Location}
    (h : place e visited = some loc) (source : String) :
    (sourceContext source loc.line (some loc.col) 2).toList <:+:
      (ofError e visited source).message.toList := by
  unfold ofError
  simp only [h]
  split
  · next hempty =>
    rw [hempty]
    exact List.nil_infix
  · have hcontext := part_within_intercalate "\n"
      (List.cons_ne_nil (sourceContext source loc.line (some loc.col) 2) [])
    rw [String.intercalate_singleton] at hcontext
    exact hcontext [e.cause.describe] _

/-- The caret stands under the first character of a text in the source, if newlines are the only ends
of lines in front of it. -/
theorem putsCaretUnder {ε : Type} (e : Error ε) {visited : Option Location} {source : String}
    {loc : Location} (h : place e visited = some loc) {before after : List Char} {c : Char}
    (hsource : source.toList = before ++ c :: after) (hline : loc.line = lineBehind before)
    (hcol : loc.col = colBehind before) (hc : Text.isLineEnd c = false)
    (hb : Text.isNewlined before) :
    PutsCaretUnder source (ofError e visited source).message loc c := by
  obtain ⟨text, htext, hchar⟩ := Text.linesFrom_getElem? hb hc [] after
  rw [List.length_nil, Text.columnFrom_zero, ← hcol] at hchar
  rw [← hsource] at htext
  have hindex : loc.line - 1 = before.count '\n' := by
    rw [hline, lineBehind]
    omega
  have hpos : 1 ≤ loc.line := by
    rw [hline, lineBehind]
    omega
  rw [← hindex] at htext
  obtain ⟨width, hwidth, hshows⟩ := sourceContext_shows hpos htext loc.col 2
  refine ⟨width, text, List.mem_of_getElem? htext, ?_, hchar, width + 5 + (loc.col - 1), ?_, ?_⟩
  · exact hshows.trans (sourceContext_within e h source)
  · exact caretLine_getElem? width loc.col
  · rw [contextLine_getElem? hwidth]
    exact hchar

end Report

/-- **The source context shows the offending text.**  The place that a failed run reports with a text
is where this text stands in the source.  If newlines, alone or behind a carriage return, are the only
ends of lines in front of it, the message shows its line with the first character of the text above
the caret. -/
theorem Runner.run_error_shows_text {ε σ : Type} [BEq ε] (r : Runner ε σ) (rule : Rule)
    (source : String) {report : Report} {loc : Location} {text : String}
    (h : (r.run rule source).1.outcome = .error report) (hloc : report.token = some loc)
    (htext : loc.text = some text) :
    ∃ before c more after, source.toList = before ++ c :: (more ++ after) ∧
      text = String.ofList (c :: more) ∧ loc.line = lineBehind before ∧
      loc.col = colBehind before ∧
      (Text.isNewlined before → Report.PutsCaretUnder source report.message loc c) := by
  have hrun := r.run_error (L := fun l => l.text = none ∨ l.Marks source.toList) h hloc
    (fun m _ => .inl (by cases m <;> rfl)) fun tree ht l hl => .inr (Parser.parse_marks ht l hl)
  obtain ⟨hnone | hmarks, e, visited, rfl⟩ := hrun
  · rw [hnone] at htext
    exact nomatch htext
  · obtain ⟨before, c, more, after, hsource, hline, hcol, hmore, hc⟩ := hmarks
    rw [htext] at hmore
    refine ⟨before, c, more, after, hsource, Option.some.inj hmore, hline, hcol, fun hb => ?_⟩
    exact Report.putsCaretUnder e hloc hsource hline hcol hc hb

/-- A carriage return in front of a newline does no harm. -/
theorem Runner.run_error_shows_text_behind :
    ∃ report, (standard.run .script "1;\x0d\n y;").1.outcome = .error report ∧
      report.token = some ⟨2, 2, some "y"⟩ ∧
      Report.PutsCaretUnder "1;\x0d\n y;" report.message ⟨2, 2, some "y"⟩ 'y' := by
  have htoken : (standard.run .script "1;\x0d\n y;").1.report.bind (·.token) =
      some ⟨2, 2, some "y"⟩ := by
    decide +kernel
  obtain ⟨report, hr, ht⟩ := Option.bind_eq_some_iff.1 htoken
  have hreport := Result.outcome_of_report hr
  obtain ⟨before, c, more, after, hsource, htext, -, -, hshows⟩ :=
    standard.run_error_shows_text .script "1;\x0d\n y;" hreport ht rfl
  obtain ⟨rfl, rfl⟩ : c = 'y' ∧ more = [] := by
    simpa [eq_comm] using congrArg String.toList htext
  refine ⟨report, hreport, ht, hshows ?_⟩
  have hbefore : before = "1;\x0d\n y;".toList.take before.length := by
    rw [hsource, List.take_left]
  have hat : "1;\x0d\n y;".toList[before.length]? = some 'y' := by
    rw [hsource]
    simp
  have hplace : ∀ n < 7, "1;\x0d\n y;".toList[n]? = some 'y' →
      Text.isNewlined ("1;\x0d\n y;".toList.take n) := by
    decide +kernel
  rw [hbefore]
  exact hplace _ (List.getElem?_eq_some_iff.1 hat).1 hat

/-- A form feed ends a line of the context, but not one that the places count: the caret stands under
an empty line. -/
theorem Runner.run_error_shifts_context :
    ∃ report, (standard.run .expression "\x0cx").1.outcome = .error report ∧
      report.token = some ⟨1, 2, some "x"⟩ ∧
      report.message = "ReferenceError: 'x' does not exist\n> 1 | \n    |  ^\n  2 | x" ∧
      ¬Report.PutsCaretUnder "\x0cx" report.message ⟨1, 2, some "x"⟩ 'x' := by
  have hshown : (standard.run .expression "\x0cx").1.report.map (fun r => (r.token, r.message)) =
      some (some ⟨1, 2, some "x"⟩,
        "ReferenceError: 'x' does not exist\n> 1 | \n    |  ^\n  2 | x") := by
    decide +kernel
  obtain ⟨report, hr, hboth⟩ := Option.map_eq_some_iff.1 hshown
  obtain ⟨ht, hmessage⟩ := Prod.mk.inj hboth
  refine ⟨report, Result.outcome_of_report hr, ht, hmessage, ?_⟩
  rintro ⟨width, text, htext, -, hc, -⟩
  have hlines : ∀ text ∈ Text.lines "\x0cx".toList, text[1]? ≠ some 'x' := by decide +kernel
  exact hlines text htext hc

end Scriptlet
