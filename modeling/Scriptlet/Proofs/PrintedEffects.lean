import Scriptlet.CommandLine
import Scriptlet.Proofs.ErrorPlaces
import Scriptlet.Proofs.SuccessiveRuns

/-!
# What is printed of the messages of a run

The command line prints the messages to the standard topic, and on standard error it prints the report
of a failure.  This is the message with which the run announces its failure, behind the place of the
failure if there is one (`Report.format_ofFault`).  A message that the program itself sends to the topic
of standard error is in the result, but it is not printed (`stderr_message_dropped`).
-/

namespace Scriptlet

set_option autoImplicit false

variable {ε σ : Type}

/-! ## Lines -/

/-- Texts as lines, each with its end. -/
def asLines (texts : List String) : String :=
  String.join (texts.map (· ++ "\n"))

theorem asLines_append (texts more : List String) :
    asLines (texts ++ more) = asLines texts ++ asLines more := by
  rw [asLines, List.map_append, String.join_append]
  rfl

theorem asLines_singleton (text : String) : asLines [text] = text ++ "\n" := by
  simp [asLines]

/-- Lines are nothing at all, or end with the end of the last one. -/
theorem asLines_ends (texts : List String) :
    texts = [] ∨ ∃ front, (asLines texts).toList = front ++ ['\n'] := by
  rcases List.eq_nil_or_concat texts with h | ⟨front, last, rfl⟩
  · exact .inl h
  · refine .inr ⟨(asLines front ++ last).toList, ?_⟩
    simp [asLines_append, asLines_singleton]

theorem asLines_eq_empty {texts : List String} : asLines texts = "" ↔ texts = [] := by
  refine ⟨fun h => ?_, fun h => by rw [h]; rfl⟩
  rcases asLines_ends texts with hnil | ⟨front, hends⟩
  · exact hnil
  · rw [h] at hends
    simp at hends

/-! ## Reports -/

namespace Report

/-- What stands in front of the message of a report: its place, if it has one. -/
def heading (report : Report) : String :=
  match report.token with
  | none => ""
  | some loc =>
    "Error on line " ++ Numeral.ofInt loc.line ++ ", col " ++ Numeral.ofInt loc.col ++ ": "

theorem format_eq {report : Report} {c : Char} (h : report.message.toList.head? = some c)
    (hc : c ≠ 'E') : report.format = report.heading ++ report.message := by
  obtain ⟨message, token, internal⟩ := report
  have hne : message ≠ "" := by
    rintro rfl
    cases h
  have hfront : "Error on line ".isPrefixOf message = false := by
    rw [String.isPrefixOf, String.startsWith_string_eq_false_iff]
    rintro ⟨rest, hprefix⟩
    rw [← hprefix] at h
    exact hc (Option.some.inj h).symm
  cases token with
  | none => simp [format, headline, heading, hne]
  | some loc => simp [format, headline, heading, hne, hfront, String.append_assoc]

theorem head?_append_of_some {front back : String} {c : Char} (h : front.toList.head? = some c) :
    (front ++ back).toList.head? = some c := by
  rw [String.toList_append, List.head?_append, h]
  rfl

theorem head?_label (kind : Kind) : ∃ c, kind.label.toList.head? = some c ∧ c ≠ 'E' := by
  cases kind
  all_goals exact ⟨_, rfl, by decide⟩

/-- The message of a report starts with the kind of the failure. -/
theorem head?_ofFault (fault : Fault ε) (visited : Option Location) (source : String) :
    ∃ c, (ofFault fault visited source).message.toList.head? = some c ∧ c ≠ 'E' := by
  cases fault with
  | error e =>
    obtain ⟨c, hc, hne⟩ := head?_label e.cause.kind
    have hdescribe : e.cause.describe.toList.head? = some c :=
      head?_append_of_some (head?_append_of_some hc)
    refine ⟨c, ?_, hne⟩
    rw [ofFault, ofError]
    dsimp only
    generalize (if _ = "" then ([] : List String) else _) ++ _ = more
    cases more with
    | nil => rw [String.intercalate_singleton, hdescribe]
    | cons next more =>
      rw [String.intercalate_cons_cons]
      exact head?_append_of_some (head?_append_of_some hdescribe)
  | breakdown b =>
    have hunsupported : "NotImplementedError: ".toList.head? = some 'N' := rfl
    have hinternal : "InternalError: ".toList.head? = some 'I' := rfl
    cases b with
    | unsupported what => exact ⟨'N', head?_append_of_some hunsupported, by decide⟩
    | _ => exact ⟨'I', head?_append_of_some hinternal, by decide⟩

/-- The report of a failure is its message, behind the place if there is one. -/
theorem format_ofFault (fault : Fault ε) (visited : Option Location) (source : String) :
    (ofFault fault visited source).format =
      (ofFault fault visited source).heading ++ (ofFault fault visited source).message := by
  obtain ⟨c, hc, hne⟩ := head?_ofFault fault visited source
  exact format_eq hc hne

/-- A place in front of a message ends no line, so it is not made of lines. -/
theorem heading_eq_asLines {report : Report} {texts : List String} :
    report.heading = asLines texts ↔ report.token = none ∧ texts = [] := by
  rw [heading]
  cases report.token with
  | none => rw [eq_comm, asLines_eq_empty, eq_self, true_and]
  | some loc =>
    refine iff_of_false (fun h => ?_) fun h => nomatch h.1
    obtain ⟨front, hheading⟩ : ∃ front, ("Error on line " ++ Numeral.ofInt loc.line ++ ", col " ++
        Numeral.ofInt loc.col ++ ": ").toList = front ++ [' '] :=
      ⟨("Error on line " ++ Numeral.ofInt loc.line ++ ", col " ++ Numeral.ofInt loc.col ++ ":").toList,
        by simp⟩
    dsimp only at h
    rw [h] at hheading
    rcases asLines_ends texts with rfl | ⟨back, hlines⟩
    · simp [asLines] at hheading
    · have hlast := congrArg List.getLast? (hlines.symm.trans hheading)
      simp at hlast

end Report

/-! ## Results -/

namespace Result

variable (result : Result ε)

/-- The lines that show the value of a run. -/
def valueLines : List String :=
  match result.outcome with
  | .ok .null | .error _ => []
  | .ok v => [v.pretty]

/-- The lines that report the failure of a run. -/
def failureLines : List String :=
  match result.outcome with
  | .ok _ => []
  | .error report => [report.format]

end Result

namespace CommandLine.Output

theorem append_eq (a b : Output) : a ++ b = ⟨a.stdout ++ b.stdout, a.stderr ++ b.stderr⟩ := rfl

theorem concat_lines (texts : List String) : concat (texts.map line) = ⟨asLines texts, ""⟩ := by
  induction texts with
  | nil => rfl
  | cons text rest ih =>
    show line text ++ concat (rest.map line) = _
    rw [ih, append_eq, ← List.singleton_append, asLines_append, asLines_singleton]
    rfl

theorem ofResult_eq (result : Result ε) :
    ofResult result =
      ⟨asLines (result.messages "stdout" ++ result.valueLines), asLines result.failureLines⟩ := by
  have hshown := concat_lines (result.messages "stdout")
  rw [Result.messages, List.map_map] at hshown
  rw [asLines_append, ofResult, Result.messages, Result.valueLines, Result.failureLines]
  rw [show (fun e : Effect => line e.message) = line ∘ (·.message) from rfl, hshown]
  split
  · next v hv =>
    rw [append_eq]
    cases v <;> simp [hv, ofValue, empty, asLines, line, text]
  · next report hreport =>
    rw [append_eq]
    simp [hreport, errorLine, asLines]

end CommandLine.Output

/-! ## Runs -/

namespace Runner

variable [BEq ε] (r : Runner ε σ) (rule : Rule) (source : String)

/-- The messages of a run are those that its program sends, and the announcement of its failure. -/
theorem effects_run :
    (r.run rule source).1.effects =
      (r.done rule source).2.effects ++ closing (r.run rule source).1.outcome := by
  rw [run_eq]

/-- The last message to the topic `stderr` is the announcement of a failure. -/
theorem stderr_effects_run :
    (r.run rule source).1.effects.filter (·.topics == ["stderr"]) =
      (r.done rule source).2.effects.filter (·.topics == ["stderr"]) ++
        closing (r.run rule source).1.outcome := by
  have hclosing (outcome : Except Report (Value ε)) :
      (closing outcome).filter (·.topics == ["stderr"]) = closing outcome := by
    cases outcome <;> rfl
  rw [effects_run, List.filter_append, hclosing]

/-- The report of a failed run is its message, behind the place if there is one. -/
theorem format_run {report : Report} (h : (r.run rule source).1.outcome = .error report) :
    report.format = report.heading ++ report.message := by
  rw [run_eq] at h
  obtain ⟨fault, _, rfl⟩ := mapError_eq_error.1 h
  exact Report.format_ofFault fault _ source

end Runner

namespace CommandLine

theorem stderr_of_ok {result : Result ε} {v : Value ε} (h : result.outcome = .ok v) :
    (Output.ofResult result).stderr = "" := by
  rw [Output.ofResult_eq, Result.failureLines, h]
  rfl

section Run

variable [BEq ε] (r : Runner ε σ) (rule : Rule) (source : String)

theorem stderr_of_error {report : Report} (h : (r.run rule source).1.outcome = .error report) :
    (Output.ofResult (r.run rule source).1).stderr = report.heading ++ report.message ++ "\n" := by
  rw [Output.ofResult_eq, Result.failureLines, h, ← r.format_run rule source h, ← asLines_singleton]

/-- Standard error shows the messages to its topic just if there are none but the announcement of a
failure that has no place. -/
theorem stderr_eq_messages :
    (Output.ofResult (r.run rule source).1).stderr = asLines ((r.run rule source).1.messages "stderr") ↔
      (r.run rule source).1.effects.filter (·.topics == ["stderr"]) =
          Runner.closing (r.run rule source).1.outcome ∧
        ∀ report, (r.run rule source).1.outcome = .error report → report.token = none := by
  rw [Result.messages, r.stderr_effects_run rule source, List.append_left_eq_self, List.map_append,
    asLines_append]
  cases h : (r.run rule source).1.outcome with
  | ok v =>
    have hnone : Runner.closing (.ok v) = [] := rfl
    rw [stderr_of_ok h, hnone, List.map_nil, asLines_eq_empty.2 rfl, String.append_empty, eq_comm,
      asLines_eq_empty, List.map_eq_nil_iff]
    simp
  | error report =>
    have hannounced : asLines ((Runner.closing (ε := ε) (.error report)).map (·.message)) =
        report.message ++ "\n" := asLines_singleton _
    rw [stderr_of_error r rule source h, hannounced, String.append_assoc, String.append_left_inj,
      Report.heading_eq_asLines, List.map_eq_nil_iff, and_comm]
    simp

end Run

/-- **What is printed of a run.**  The messages to the standard topic are printed as lines, in order,
and then the value of the run, unless it is null.  On standard error a successful run prints nothing.  A
failed one prints the message of its announcement, which is its last message, behind the place of the
failure; nothing that the program sent itself is printed there.  So standard error shows the messages to
the topic `stderr` just if there are none but the announcement of a failure that has no place. -/
theorem printed_effects [BEq ε] (r : Runner ε σ) (rule : Rule) (source : String) :
    let result := (r.run rule source).1
    let printed := Output.ofResult result
    printed.stdout = asLines (result.messages "stdout" ++ result.valueLines) ∧
    (∀ v, result.outcome = .ok v → printed.stderr = "") ∧
    (∀ report, result.outcome = .error report →
      (∃ sent, result.effects = sent ++ [⟨["stderr"], report.message⟩]) ∧
      printed.stderr = report.heading ++ report.message ++ "\n") ∧
    (printed.stderr = asLines (result.messages "stderr") ↔
      result.effects.filter (·.topics == ["stderr"]) = Runner.closing result.outcome ∧
        ∀ report, result.outcome = .error report → report.token = none) := by
  intro result printed
  refine ⟨?_, fun v hv => stderr_of_ok hv, fun report hreport => ⟨?_, ?_⟩, ?_⟩
  · exact congrArg Output.stdout (Output.ofResult_eq result)
  · refine ⟨(r.done rule source).2.effects, ?_⟩
    rw [r.effects_run rule source, hreport]
    rfl
  · exact stderr_of_error r rule source hreport
  · exact stderr_eq_messages r rule source

/-- A message to the topic `stderr` is in the result of a run, but the command line does not print
it. -/
theorem stderr_message_dropped :
    let source := "emit(\"stderr\", \"oops\")"
    (Runner.standard.run .expression source).1.effects = [⟨["stderr"], "oops"⟩] ∧
      (run ["--expression", source] (Files.ofFolder []) "").1 = Output.empty ∧
      (run ["--expression", source] (Files.ofFolder []) "").2 = .ok 0 := by
  decide +kernel

end CommandLine

end Scriptlet
