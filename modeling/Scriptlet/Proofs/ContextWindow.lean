import Mathlib.Data.List.Intervals
import Scriptlet.Proofs.SourceContext

/-!
# The window of the source context

The context of a line is a window of the source around it, clipped at both ends of the source.  Every
line of the window stands unaltered behind a gutter with its number, and all gutters have the width of
the largest number.  The caret is measured from the same width, so that it stands in the column of the
output in which the character under which it is put would stand (`sourceContext_window`).
-/

namespace Scriptlet

set_option autoImplicit false

/-! ## Lines -/

namespace Text

theorem visible_of_mem_linesFrom {current cs : List Char} (h : ∀ c ∈ current, isLineEnd c = false) :
    ∀ line ∈ linesFrom current cs, ∀ c ∈ line, isLineEnd c = false := by
  have hreverse {current : List Char} (h : ∀ c ∈ current, isLineEnd c = false) :
      ∀ c ∈ current.reverse, isLineEnd c = false := fun c hc => h c (List.mem_reverse.1 hc)
  fun_induction linesFrom current cs with
  | case1 => exact List.forall_mem_nil _
  | case2 current _ => exact List.forall_mem_singleton.2 (hreverse h)
  | case3 current rest ih =>
    exact List.forall_mem_cons.2 ⟨hreverse h, ih (List.forall_mem_nil _)⟩
  | case4 current c rest _ _ ih =>
    exact List.forall_mem_cons.2 ⟨hreverse h, ih (List.forall_mem_nil _)⟩
  | case5 current c rest _ hc ih =>
    exact ih (List.forall_mem_cons.2 ⟨Bool.eq_false_iff.2 hc, h⟩)

/-- No line holds an end of a line. -/
theorem newline_notMem_lines {cs line : List Char} (h : line ∈ lines cs) : '\n' ∉ line := by
  intro hmem
  have hvisible := visible_of_mem_linesFrom (List.forall_mem_nil _) line h '\n' hmem
  exact absurd hvisible (by decide)

end Text

namespace Report

/-! ## The window -/

theorem mem_window {line n : Nat} (hpos : 1 ≤ line) (hbound : line ≤ n) (radius : Nat) :
    line ∈ List.Ico (max 1 (line - radius)) (min n (line + radius) + 1) :=
  List.Ico.mem.2 (by omega)

/-- The numbered lines from `first` to `last`. -/
theorem numbered_window (lines : List (List Char)) {first last : Nat} (hfirst : 1 ≤ first)
    (hlast : last ≤ lines.length) :
    (lines.zipIdx 1).filter (fun p => first ≤ p.2 && p.2 ≤ last) =
      (List.Ico first (last + 1)).map fun i => (lines.getD (i - 1) [], i) := by
  have hnumbered : lines.zipIdx 1 =
      (List.Ico 1 (lines.length + 1)).map fun i => (lines.getD (i - 1) [], i) := by
    refine List.ext_getElem (by simp) fun i hi _ => ?_
    have hline : i < lines.length := by simpa using hi
    simp [List.Ico, Nat.add_comm, hline]
  have hbounds : ∀ i, (decide (first ≤ i) && decide (i ≤ last)) =
      (decide (first ≤ i) && decide (i < last + 1)) := fun i => by simp only [Nat.lt_succ_iff]
  rw [hnumbered, List.filter_map]
  simp only [Function.comp_def, hbounds]
  rw [← List.filter_filter, List.Ico.filter_lt, List.Ico.filter_le, Nat.max_eq_right hfirst,
    Nat.min_eq_right (Nat.succ_le_succ hlast)]

/-! ## Rows -/

/-- What stands in front of a line of the context: the mark or a blank, and the number in a column of
some width. -/
def gutter (width : Nat) (marked : Bool) (number : Nat) : List Char :=
  (if marked then '>' else ' ') :: ' ' ::
    (List.replicate (width - (Numeral.digits number).length) ' ' ++
      (Numeral.digits number ++ [' ', '|', ' ']))

/-- What stands in front of the caret. -/
def margin (width col : Nat) : List Char :=
  ' ' :: ' ' :: (List.replicate width ' ' ++ [' ', '|', ' '] ++ List.replicate (col - 1) ' ')

theorem toList_contextLine (width : Nat) (marked : Bool) (number : Nat) (text : List Char) :
    (contextLine width marked number text).toList = gutter width marked number ++ text := by
  cases marked <;> simp [contextLine, gutter, toList_padLeft, Numeral.ofNat]

theorem toList_caretLine (width col : Nat) : (caretLine width col).toList = margin width col ++ ['^'] := by
  simp [caretLine, margin, toList_padLeft]

theorem length_gutter {width number : Nat} (h : (Numeral.digits number).length ≤ width) (marked : Bool) :
    (gutter width marked number).length = width + 5 := by
  simp [gutter]
  omega

theorem length_margin (width col : Nat) : (margin width col).length = width + 5 + (col - 1) := by
  simp [margin]
  omega

theorem head?_gutter (width : Nat) (marked : Bool) (number : Nat) :
    (gutter width marked number).head? = some '>' ↔ marked = true := by
  cases marked <;> simp [gutter]

theorem number_suffix_gutter (width : Nat) (marked : Bool) (number : Nat) :
    Numeral.digits number ++ [' ', '|', ' '] <:+ gutter width marked number :=
  (List.suffix_append _ _).trans ((List.suffix_cons _ _).trans (List.suffix_cons _ _))

theorem newline_notMem_gutter (width : Nat) (marked : Bool) (number : Nat) :
    '\n' ∉ gutter width marked number := by
  have hdigits : '\n' ∉ Numeral.digits number := fun h =>
    absurd (Numeral.isDigit_of_mem_digits h) (by decide)
  cases marked <;> simp [gutter, hdigits]

theorem caret_notMem_margin (width col : Nat) : '^' ∉ margin width col := by
  simp [margin]

theorem newline_notMem_margin (width col : Nat) : '\n' ∉ margin width col := by
  simp [margin]

/-- The rows that belong to a line of the source: the line behind its gutter, and the caret below the
line in question. -/
def rowsAt (lines : List (List Char)) (width line : Nat) (col : Option Nat) (i : Nat) : List (List Char) :=
  (gutter width (i == line) i ++ lines.getD (i - 1) []) ::
    if i = line then (col.map fun c => margin width c ++ ['^']).toList else []

theorem newline_notMem_rowsAt (source : List Char) {width line : Nat} {col : Option Nat} {i : Nat} :
    ∀ row ∈ rowsAt (Text.lines source) width line col i, '\n' ∉ row := by
  have htext : '\n' ∉ (Text.lines source).getD (i - 1) [] := by
    rw [List.getD_eq_getElem?_getD]
    cases hline : (Text.lines source)[i - 1]? with
    | none => exact List.not_mem_nil
    | some text => exact Text.newline_notMem_lines (List.mem_of_getElem? hline)
  refine List.forall_mem_cons.2 ⟨?_, ?_⟩
  · rw [List.mem_append, not_or]
    exact ⟨newline_notMem_gutter _ _ _, htext⟩
  · split
    · cases col with
      | none => exact List.forall_mem_nil _
      | some c =>
        rw [Option.map_some, Option.toList_some, List.forall_mem_singleton, List.mem_append, not_or]
        exact ⟨newline_notMem_margin width c, by decide⟩
    · exact List.forall_mem_nil _

/-- The context is made of the rows of the window. -/
theorem splitOn_sourceContext (source : String) {line : Nat} (hpos : 1 ≤ line)
    (hbound : line ≤ (Text.lines source.toList).length) (col : Option Nat) (radius : Nat) :
    let lines := Text.lines source.toList
    let last := min lines.length (line + radius)
    (sourceContext source line col radius).toList.splitOn '\n' =
      (List.Ico (max 1 (line - radius)) (last + 1)).flatMap
        (rowsAt lines (Numeral.digits last).length line col) := by
  intro lines last
  set first := max 1 (line - radius) with hfirst
  set width := (Numeral.digits last).length with hwidth
  have hrange : ¬(line < 1 || lines.length < line) := by
    have hbound' : line ≤ lines.length := hbound
    simp
    omega
  have hfirst' : (max 1 ((line : Int) - (radius : Int))).toNat = first := by omega
  have hlast' : (min (lines.length : Int) ((line : Int) + (radius : Int))).toNat = last := by omega
  have hwidth' : (Numeral.ofNat last).length = width := by simp [hwidth, Numeral.ofNat]
  have hcontext : (sourceContext source line col radius).toList =
      ['\n'].intercalate ((List.Ico first (last + 1)).flatMap (rowsAt lines width line col)) := by
    unfold sourceContext
    dsimp only
    rw [if_neg hrange, hfirst', hlast', hwidth',
      numbered_window lines (Nat.le_max_left _ _) (Nat.min_le_left _ _),
      String.toList_intercalate, List.flatMap_map, List.map_flatMap]
    congr 1
    refine List.flatMap_congr fun i _ => ?_
    by_cases hi : i = line
    · cases col <;> simp [hi, rowsAt, toList_contextLine, toList_caretLine]
    · simp [hi, rowsAt, toList_contextLine]
  rw [hcontext, List.splitOn_intercalate '\n']
  · intro row hrow
    obtain ⟨i, _, hrow⟩ := List.mem_flatMap.1 hrow
    exact newline_notMem_rowsAt source.toList row hrow
  · exact List.ne_nil_of_mem
      (List.mem_flatMap.2 ⟨line, mem_window hpos hbound radius, List.mem_cons_self⟩)

/-- **The shape of the source context.**  The context of a line of the source shows the lines around it
up to `radius` to each side, in order and each unaltered behind a gutter that ends in its number.  All
gutters have the same width, and only that of the line in question starts with the mark.  Below this
line stands a caret if a column is given, in the place where the character of this column stands in the
line. -/
theorem sourceContext_window (source : String) {line : Nat} (hpos : 1 ≤ line)
    (hbound : line ≤ (Text.lines source.toList).length) (col : Option Nat) (radius : Nat) :
    let lines := Text.lines source.toList
    let window := List.Ico (max 1 (line - radius)) (min lines.length (line + radius) + 1)
    ∃ (front : Nat → List Char) (below : List (List Char)),
      (sourceContext source line col radius).toList.splitOn '\n' =
        window.flatMap (fun i => (front i ++ lines.getD (i - 1) []) :: if i = line then below else []) ∧
      (∀ i ∈ window, (front i).length = (front line).length ∧
        ((front i).head? = some '>' ↔ i = line) ∧
        Numeral.digits i ++ [' ', '|', ' '] <:+ front i) ∧
      (below = [] ↔ col = none) ∧
      ∀ c ∈ col, ∃ blank, below = [blank ++ ['^']] ∧
        blank.length = (front line).length + (c - 1) ∧ '^' ∉ blank ∧ blank.head? ≠ some '>' := by
  intro lines window
  set last := min lines.length (line + radius) with hlast
  set width := (Numeral.digits last).length with hwidth
  have hlength : ∀ i ∈ window, (gutter width (i == line) i).length = width + 5 := fun i hi =>
    length_gutter (Numeral.length_digits_le (Nat.lt_succ_iff.1 (List.Ico.mem.1 hi).2)) _
  have hline : line ∈ window := mem_window hpos hbound radius
  refine ⟨fun i => gutter width (i == line) i, (col.map fun c => margin width c ++ ['^']).toList,
    splitOn_sourceContext source hpos hbound col radius, fun i hi => ⟨?_, ?_, ?_⟩, ?_, ?_⟩
  · rw [hlength i hi, hlength line hline]
  · rw [head?_gutter, beq_iff_eq]
  · exact number_suffix_gutter width _ i
  · cases col <;> simp
  · rintro c hc
    obtain rfl := Option.mem_def.1 hc
    refine ⟨margin width c, rfl, ?_, caret_notMem_margin width c, ?_⟩
    · rw [length_margin, hlength line hline]
    · simp [margin]

/-- The last lines of eleven: the numbers go from one digit to two. -/
theorem sourceContext_window_digits :
    let source := "a\nb\nc\nd\ne\nf\ng\nh\n  wrong\nj\nk"
    1 ≤ 9 ∧ 9 ≤ (Text.lines source.toList).length ∧
      ∃ (front : Nat → List Char) (blank : List Char),
        (sourceContext source 9 (some 3) 2).toList.splitOn '\n' =
          [front 7 ++ ['g'], front 8 ++ ['h'], front 9 ++ "  wrong".toList, blank ++ ['^'],
            front 10 ++ ['j'], front 11 ++ ['k']] ∧
        (front 9).length = (front 10).length ∧ (front 9).head? = some '>' ∧
        blank.length = (front 9).length + 2 := by
  intro source
  have hbound : 9 ≤ (Text.lines source.toList).length := by decide +kernel
  have hlines : Text.lines source.toList =
      ["a", "b", "c", "d", "e", "f", "g", "h", "  wrong", "j", "k"].map String.toList := by
    decide +kernel
  obtain ⟨front, below, hrows, hfront, -, hcaret⟩ :=
    sourceContext_window source (by decide) hbound (some 3) 2
  obtain ⟨blank, rfl, hblank, -, -⟩ := hcaret 3 rfl
  rw [hlines] at hrows hfront
  refine ⟨by decide, hbound, front, blank, hrows, ?_, ?_, hblank⟩
  · exact (hfront 10 (by decide)).1.symm
  · exact (hfront 9 (by decide)).2.1.2 rfl

end Report

end Scriptlet
