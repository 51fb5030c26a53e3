import Scriptlet.Proofs.DocumentConstants
import Scriptlet.Proofs.PrintedEffects

/-!
# The exit status of the command line

A call of the program for a script file or for a single expression, maybe with the constants of a
document, is an `Invocation`.  What can go wrong is met in a fixed order: the room for the document,
its bytes, its text, the data that it holds, the names that it defines, the bytes of the script, the
program itself, and what is printed of it.  Errors of the language end in status 1 at every stage, and
breakdowns do so while the program runs.  `Invocation.Escapes` lists the breakdowns that nothing
contains, which are all at stages before or after that (`run_status`).
-/

namespace Scriptlet

set_option autoImplicit false

/-! ## Constants of a document -/

namespace Document

/-- The text of a document asks for characters only, and for no half of a surrogate pair by itself.
Such a half is no breakdown of the program; the strings of this model cannot hold it. -/
def CharactersOnly (path : String) (bytes : ByteArray) : Prop :=
  ∀ text, decode bytes = .ok text →
    ∀ b, (readAs (formatOf path text) text : Except Failure (Data Empty)) = .error (.breakdown b) →
      b ≠ .loneSurrogate

/-- Where the constants of a document break down: at its bytes, at its text or at the data that it
holds. -/
inductive BreaksDown (path : String) (bytes : ByteArray) : Breakdown → Prop
  | bytes (h : String.fromUTF8? bytes = none) : BreaksDown path bytes .notText
  | text {text : String} {b : Breakdown} (htext : decode bytes = .ok text)
      (h : (readAs (formatOf path text) text : Except Failure (Data Empty)) = .error (.breakdown b))
      (hb : b ≠ .loneSurrogate) : BreaksDown path bytes b
  | data {text : String} {d : Data Empty} {b : Breakdown} (htext : decode bytes = .ok text)
      (hread : readAs (formatOf path text) text = .ok d) (h : globalsOf d = .error (.breakdown b)) :
      BreaksDown path bytes b

/-- A document defines constants: they are read, and no standard function has the name of one. -/
structure Defines (path : String) (bytes : ByteArray) (constants : List (String × Value Empty)) :
    Prop where
  globals : globals path bytes = .ok constants
  free : ∀ g ∈ constants, Fields.has g.1 Runner.standard.world.scope.top = false

theorem decode_eq_error {bytes : ByteArray} {b : Breakdown} :
    decode bytes = .error b ↔ b = .notText ∧ String.fromUTF8? bytes = none := by
  rw [decode]
  cases String.fromUTF8? bytes with
  | none => simp [eq_comm]
  | some text => simp

theorem globals_breakdown {path : String} {bytes : ByteArray} (hchars : CharactersOnly path bytes)
    {b : Breakdown} :
    (globals path bytes : Except Failure (List (String × Value Empty))) = .error (.breakdown b) ↔
      BreaksDown path bytes b := by
  rw [globals_eq, except_bind_eq_error]
  constructor
  · rintro (h | ⟨text, htext, h⟩)
    · obtain ⟨_, hbytes, hb⟩ := mapError_eq_error.1 h
      obtain ⟨rfl, hnone⟩ := decode_eq_error.1 hbytes
      obtain rfl := Failure.breakdown.inj hb
      exact .bytes hnone
    · rw [mapError_eq_ok] at htext
      rcases except_bind_eq_error.1 h with h | ⟨d, hread, h⟩
      · exact .text htext h (hchars _ htext b h)
      · exact .data htext hread h
  · rintro (h | ⟨htext, h, _⟩ | ⟨htext, hread, h⟩)
    · exact .inl (mapError_eq_error.2 ⟨_, decode_eq_error.2 ⟨rfl, h⟩, rfl⟩)
    · exact .inr ⟨_, mapError_eq_ok.2 htext, except_bind_eq_error.2 (.inl h)⟩
    · exact .inr ⟨_, mapError_eq_ok.2 htext, except_bind_eq_error.2 (.inr ⟨_, hread, h⟩)⟩

end Document

/-! ## Definition of the constants -/

namespace Runner

variable {ε σ : Type}

/-- Constants under different names are all defined if none of their names is taken in the top frame,
and else there is an error about one that is. -/
theorem define_constants_cases {globals : List (String × Value ε)} {w : World ε σ}
    (hnames : (globals.map (·.1)).Nodup) :
    let done := (Exec.outcome (forM globals fun g => Session.define g.1 false g.2) w).1
    ((∀ g ∈ globals, Fields.has g.1 w.scope.top = false) ∧ done = .ok ()) ∨
      ((∃ g ∈ globals, Fields.has g.1 w.scope.top = true) ∧
        ∃ name, done = .error (.ofCause (.alreadyDefined name))) := by
  induction globals generalizing w with
  | nil => exact .inl ⟨List.forall_mem_nil _, rfl⟩
  | cons first rest ih =>
    rw [List.map_cons, List.nodup_cons] at hnames
    rw [List.forM_cons, Exec.outcome_bind, Session.define, Exec.outcome_define, Scope.define,
      Fields.define]
    cases htaken : Fields.has first.1 w.scope.top with
    | true => exact .inr ⟨⟨first, List.mem_cons_self, htaken⟩, first.1, rfl⟩
    | false =>
      have hrest : ∀ g ∈ rest,
          Fields.has g.1 (w.scope.top ++ [⟨first.1, false, first.2⟩]) = Fields.has g.1 w.scope.top := by
        intro g hg
        have hne : first.1 ≠ g.1 := fun he => hnames.1 (List.mem_map.2 ⟨g, hg, he.symm⟩)
        simp [Fields.has, hne]
      let next : World ε σ :=
        { w with scope := { w.scope with top := w.scope.top ++ [⟨first.1, false, first.2⟩] } }
      rcases ih (w := next) hnames.2 with ⟨hfree, hdone⟩ | ⟨⟨g, hg, hclash⟩, hdone⟩
      · exact .inl ⟨List.forall_mem_cons.2 ⟨htaken, fun g hg => hrest g hg ▸ hfree g hg⟩, hdone⟩
      · exact .inr ⟨⟨g, List.mem_cons_of_mem _ hg, hrest g hg ▸ hclash⟩, hdone⟩

theorem defineGlobals_cases [BEq ε] (r : Runner ε σ) {constants : List (String × Value ε)}
    (hnames : (constants.map (·.1)).Nodup) :
    ((∀ g ∈ constants, Fields.has g.1 r.world.scope.top = false) ∧
        (r.defineGlobals constants).1 = .ok ()) ∨
      ((∃ g ∈ constants, Fields.has g.1 r.world.scope.top = true) ∧
        ∃ name, (r.defineGlobals constants).1 = .error (.ofCause (.alreadyDefined name))) :=
  define_constants_cases hnames

end Runner

namespace CommandLine

/-! ## Output -/

namespace Output

theorem stderr_errorLine (s : String) : (errorLine s).stderr ≠ "" := by
  intro h
  have hlength := congrArg String.length h
  simp [errorLine] at hlength

/-- A run says something about failures if it fails. -/
theorem stderr_ofResult {ε : Type} (r : Result ε) :
    (ofResult r).stderr = "" ↔ r.outcome.isOk := by
  rw [ofResult_eq, asLines_eq_empty, Result.failureLines]
  cases r.outcome with
  | ok v => exact iff_of_true rfl rfl
  | error report => exact iff_of_false (List.cons_ne_nil _ _) Bool.false_ne_true

end Output

/-- Why the output of a run breaks off: a message cannot be printed, or there is no room to write the
value as text, or this text cannot be printed. -/
inductive Platform.BreaksOff (p : Platform) (result : Result Empty) : Breakdown → Prop
  | message {text : String} (hmessage : text ∈ result.messages "stdout") (h : p.prints text = false) :
      BreaksOff p result .notEncodable
  | room {v : Value Empty} (hmessages : ∀ text ∈ result.messages "stdout", p.prints text = true)
      (hvalue : result.outcome = .ok v) (hnull : v ≠ .null) (h : p.shows v = false) :
      BreaksOff p result .callDepth
  | value {v : Value Empty} (hmessages : ∀ text ∈ result.messages "stdout", p.prints text = true)
      (hvalue : result.outcome = .ok v) (hnull : v ≠ .null) (hroom : p.shows v = true)
      (h : p.prints v.pretty = false) : BreaksOff p result .notEncodable

namespace Platform

variable (p : Platform)

theorem refusal_eq_some {v : Value Empty} {b : Breakdown} :
    p.refusal v = some b ↔ v ≠ .null ∧
      (p.shows v = false ∧ b = .callDepth ∨
        p.shows v = true ∧ p.prints v.pretty = false ∧ b = .notEncodable) := by
  unfold refusal
  split
  · simp
  · next hnull =>
    have hne : v ≠ .null := hnull
    cases p.shows v <;> cases p.prints v.pretty <;> simp [hne, @eq_comm _ b]

theorem exists_breakOff {result : Result Empty} {b : Breakdown} :
    (∃ output, p.breakOff result = some (output, b)) ↔ p.BreaksOff result b := by
  rw [breakOff]
  split
  · next hprinted =>
    rw [List.all_eq_true] at hprinted
    cases houtcome : result.outcome with
    | error report =>
      refine iff_of_false (fun ⟨_, h⟩ => by cases h) ?_
      rintro (⟨hmessage, h⟩ | ⟨_, hvalue, _, _⟩ | ⟨_, hvalue, _, _, _⟩)
      · exact Bool.noConfusion (h.symm.trans (hprinted _ hmessage))
      · cases houtcome.symm.trans hvalue
      · cases houtcome.symm.trans hvalue
    | ok v =>
      simp only [Option.map_eq_some_iff, Prod.mk.injEq, refusal_eq_some]
      constructor
      · rintro ⟨_, _, ⟨hnull, ⟨h, rfl⟩ | ⟨hroom, h, rfl⟩⟩, _, rfl⟩
        · exact .room hprinted houtcome hnull h
        · exact .value hprinted houtcome hnull hroom h
      · rintro (⟨hmessage, h⟩ | ⟨_, hvalue, hnull, h⟩ | ⟨_, hvalue, hnull, hroom, h⟩)
        · exact Bool.noConfusion (h.symm.trans (hprinted _ hmessage))
        · obtain rfl := Except.ok.inj (houtcome.symm.trans hvalue)
          exact ⟨_, _, ⟨hnull, .inl ⟨h, rfl⟩⟩, rfl, rfl⟩
        · obtain rfl := Except.ok.inj (houtcome.symm.trans hvalue)
          exact ⟨_, _, ⟨hnull, .inr ⟨hroom, h, rfl⟩⟩, rfl, rfl⟩
  · next hrefused =>
    rw [List.all_eq_true] at hrefused
    constructor
    · rintro ⟨_, ⟨⟩⟩
      obtain ⟨text, hmessage, h⟩ : ∃ text ∈ result.messages "stdout", p.prints text = false := by
        simpa using hrefused
      exact .message hmessage h
    · rintro (_ | ⟨hmessages, _, _, _⟩ | ⟨hmessages, _, _, _, _⟩)
      · exact ⟨_, rfl⟩
      · exact (hrefused hmessages).elim
      · exact (hrefused hmessages).elim

end Platform

/-! ## Calls of the program -/

/-- The name of a file that may stand among the arguments by itself. -/
structure FileArgument where
  text : String
  nonempty : text ≠ ""
  isArgument : Item.ofArgument text = .ok (.argument text)

/-- What is run: a script file or a single expression. -/
inductive Target where
  | file (name : FileArgument)
  | expression (text : String)

/-- A call of the program that does not leave the user with a session. -/
structure Invocation where
  globals : Option FileArgument
  target : Target

/-- The argument for what is run. -/
def Target.argument : Target → String
  | file name => name.text
  | expression text => "--expression=" ++ text

namespace Invocation

variable (i : Invocation) (files : Files)

/-- The arguments of a call, with the document in front or behind. -/
def spellings : List (List String) :=
  match i.globals with
  | none => [[i.target.argument]]
  | some name =>
    [["--globals", name.text, i.target.argument], [i.target.argument, "--globals", name.text]]

/-- What the arguments ask for.  The expression `--` counts as left out. -/
def options : Options :=
  let globals := i.globals.map (·.text)
  match i.target with
  | .file name => ⟨globals, none, some name.text⟩
  | .expression text => ⟨globals, some (if text = "--" then none else some text), none⟩

/-- The files that are named are there. -/
structure Present : Prop where
  globals : ∀ name, i.globals = some name → ∃ bytes, files (.ofText name.text) = .ok bytes
  script : ∀ name, i.target = .file name → ∃ bytes, files (.ofText name.text) = .ok bytes

/-- The document asks for characters only. -/
def CharactersOnly : Prop :=
  ∀ name bytes, i.globals = some name → files (.ofText name.text) = .ok bytes →
    Document.CharactersOnly name.text bytes

end Invocation

/-- The program of a call: the text of a script file or an expression that is not left out. -/
inductive Target.Holds (files : Files) : Target → Rule → String → Prop
  | file {name : FileArgument} {bytes : ByteArray} {source : String}
      (hfile : files (.ofText name.text) = .ok bytes) (htext : Document.decode bytes = .ok source) :
      Holds files (.file name) .script source
  | expression {text : String} (hgiven : text ≠ "--") : Holds files (.expression text) .expression text

/-- How what is run breaks down with a runner: at the bytes of a script file, or at what is printed of
the program. -/
inductive Target.BreaksDown (p : Platform) (files : Files) (t : Target) (r : Plain) : Breakdown → Prop
  | bytes {name : FileArgument} {bytes : ByteArray} (hname : t = .file name)
      (hfile : files (.ofText name.text) = .ok bytes) (h : String.fromUTF8? bytes = none) :
      BreaksDown p files t r .notText
  | output {rule : Rule} {source : String} {b : Breakdown} (hprogram : t.Holds files rule source)
      (h : p.BreaksOff (r.run rule source).1 b) : BreaksDown p files t r b

namespace Invocation

variable (p : Platform) (i : Invocation) (files : Files)

/-- The runner of a call, with the constants of its document if there is one. -/
inductive Begins : Plain → Prop
  | plain (h : i.globals = none) : Begins Runner.standard
  | constants {name : FileArgument} {bytes : ByteArray} {constants : List (String × Value Empty)}
      (hname : i.globals = some name) (hfile : files (.ofText name.text) = .ok bytes)
      (hroom : p.loads name.text bytes = true) (h : Document.Defines name.text bytes constants) :
      Begins (Runner.standard.defineGlobals constants).2

/-- The breakdowns that nothing contains: for want of room for the document, of the document, and of
what is run. -/
inductive Escapes : Breakdown → Prop
  | room {name : FileArgument} {bytes : ByteArray} (hname : i.globals = some name)
      (hfile : files (.ofText name.text) = .ok bytes) (h : p.loads name.text bytes = false) :
      Escapes .callDepth
  | document {name : FileArgument} {bytes : ByteArray} {b : Breakdown} (hname : i.globals = some name)
      (hfile : files (.ofText name.text) = .ok bytes) (hroom : p.loads name.text bytes = true)
      (h : Document.BreaksDown name.text bytes b) : Escapes b
  | target {r : Plain} {b : Breakdown} (hbegins : i.Begins p files r)
      (h : i.target.BreaksDown p files r b) : Escapes b

end Invocation

/-! ## Arguments -/

theorem ofArguments_cons {text : String} {item : Item} {rest : List String} {items : List Item}
    (hne : text ≠ "--") (h : Item.ofArgument text = .ok item)
    (hrest : Item.ofArguments rest = .ok items) :
    Item.ofArguments (text :: rest) = .ok (item :: items) := by
  rw [Item.ofArguments, if_neg hne, h, hrest]
  rfl

theorem FileArgument.ne_separator (name : FileArgument) : name.text ≠ "--" := by
  have hrefused : Item.ofArgument "--" =
      .error (.ambiguous "--" ["--help", "--globals", "--expression"]) := rfl
  intro hseparator
  have hargument := name.isArgument
  rw [hseparator, hrefused] at hargument
  cases hargument

namespace Target

/-- The item of the argument for what is run. -/
def item : Target → Item
  | file name => .argument name.text
  | expression text => .valued .expression text

theorem argument_ne_separator (t : Target) : t.argument ≠ "--" := by
  cases t with
  | file name => exact name.ne_separator
  | expression text =>
    rw [argument, ← String.toList_inj.ne, String.toList_append]
    simp

theorem ofArgument_argument (t : Target) : Item.ofArgument t.argument = .ok t.item := by
  cases t with
  | file name => exact name.isArgument
  | expression text =>
    have hsplit : Item.splitValue ("--expression=" ++ text).toList =
        ("--expression".toList, some text) := by
      simp [Item.splitValue, String.toList_append]
    have hlong : Item.ofArgument ("--expression=" ++ text) = Item.long ("--expression=" ++ text) := by
      rw [Item.ofArgument, String.toList_append]
      rfl
    have hfind : Item.longNames.find? (fun n => n.1.toList == "--expression".toList) =
        some ("--expression", some .expression) := by decide +kernel
    rw [argument, hlong, Item.long, hsplit]
    simp only [List.find?_map, Function.comp_def, hfind, Option.map_some]
    rfl

end Target

namespace Invocation

variable (i : Invocation) (files : Files)

/-- The arguments of a call are accepted, and ask for it. -/
theorem ofArguments_spelling {arguments : List String} (h : arguments ∈ i.spellings) :
    Options.ofArguments arguments = .ok i.options := by
  obtain ⟨globals, target⟩ := i
  have hcollect : ∀ {items : List Item}, Item.ofArguments arguments = .ok items →
      Options.ofArguments arguments = Options.collect ⟨none, none, none⟩ [] items := by
    intro items hitems
    rw [Options.ofArguments, hitems]
    rfl
  have htarget : ∀ {rest : List String} {items : List Item}, Item.ofArguments rest = .ok items →
      Item.ofArguments (target.argument :: rest) = .ok (target.item :: items) :=
    ofArguments_cons target.argument_ne_separator target.ofArgument_argument
  cases globals with
  | none =>
    obtain rfl := List.mem_singleton.1 h
    rw [hcollect (htarget rfl)]
    cases target <;> rfl
  | some name =>
    have hname : ∀ {rest : List String} {items : List Item}, Item.ofArguments rest = .ok items →
        Item.ofArguments ("--globals" :: name.text :: rest) =
          .ok (.awaiting .globals :: .argument name.text :: items) := fun hrest =>
      ofArguments_cons (by decide) rfl (ofArguments_cons name.ne_separator name.isArgument hrest)
    have hassign : ∀ o : Options,
        o.assign .globals name.text = { o with globals := some name.text } := by
      intro o
      rw [Options.assign, if_neg name.ne_separator]
    rw [spellings, List.mem_pair] at h
    rcases h with rfl | rfl
    · rw [hcollect (hname (htarget rfl)), Options.collect, hassign]
      cases target <;> rfl
    · rw [hcollect (htarget (hname rfl))]
      cases target with
      | file file => simp [Target.item, Options.collect, hassign, options]
      | expression text =>
        simp [Target.item, Options.collect, options, Options.assign, name.ne_separator]

end Invocation

/-! ## Stages -/

/-- An exit whose status tells whether something was said about failures. -/
def Settled (result : Output × Status) : Prop :=
  ∃ code, result.2 = .exit code ∧ (code = 0 ∧ result.1.stderr = "" ∨ code = 1 ∧ result.1.stderr ≠ "")

/-- How a stage ends: the breakdowns in `P` escape from it, and without one of them it is settled. -/
structure Ends (result : Output × Status) (P : Breakdown → Prop) : Prop where
  broken : ∀ b, result.2 = .broken b ↔ P b
  settled : (∀ b, ¬ P b) → Settled result

namespace Ends

variable {result : Output × Status} {P Q : Breakdown → Prop}

theorem ofSettled (h : Settled result) (hP : ∀ b, ¬ P b) : Ends result P where
  broken b := by
    obtain ⟨code, hcode, _⟩ := h
    rw [hcode]
    exact iff_of_false (fun hb => by cases hb) (hP b)
  settled _ := h

theorem ofBroken {output : Output} {b : Breakdown} (hP : ∀ c, P c ↔ c = b) :
    Ends (output, .broken b) P where
  broken c := by
    rw [hP]
    exact ⟨fun h => (Status.broken.inj h).symm, fun h => congrArg Status.broken h.symm⟩
  settled h := (h b ((hP b).2 rfl)).elim

theorem congr (h : Ends result P) (hPQ : ∀ b, P b ↔ Q b) : Ends result Q where
  broken b := (h.broken b).trans (hPQ b)
  settled hQ := h.settled fun b hb => hQ b ((hPQ b).1 hb)

end Ends

theorem settled_errorLine (s : String) : Settled (.errorLine s, .exit 1) :=
  ⟨1, rfl, .inr ⟨rfl, Output.stderr_errorLine s⟩⟩

/-- Nothing escapes from a running program; what is printed of it may break off. -/
theorem runOnce_ends (p : Platform) (r : Plain) (rule : Rule) (source : String) :
    Ends (runOnce p r rule source) (p.BreaksOff (r.run rule source).1) := by
  refine Ends.congr ?_ fun b => p.exists_breakOff
  rw [runOnce, present]
  cases p.breakOff (r.run rule source).1 with
  | none =>
    refine .ofSettled ⟨_, rfl, ?_⟩ fun b ⟨_, h⟩ => by cases h
    rw [Ne, Output.stderr_ofResult]
    cases (r.run rule source).1.outcome.isOk <;> simp
  | some broken =>
    obtain ⟨output, b⟩ := broken
    exact .ofBroken fun c => by simp [eq_comm]

/-- The runner of every call. -/
theorem standard_eq : standard = .ok Runner.standard := by
  rw [standard, Runner.create, List.mergeSort_nil]
  rfl

/-- The stages of the constants are in front of those of what is run next. -/
theorem withGlobals_ends (p : Platform) {files : Files} {path : String} {bytes : ByteArray}
    (hfile : files (.ofText path) = .ok bytes) (hchars : Document.CharactersOnly path bytes)
    {next : Plain → Output × Status} {P : Plain → Breakdown → Prop} (hnext : ∀ r, Ends (next r) (P r)) :
    Ends (withGlobals p Runner.standard files path next) fun b =>
      p.loads path bytes = false ∧ b = .callDepth ∨
        p.loads path bytes = true ∧ (Document.BreaksDown path bytes b ∨
          ∃ constants, Document.Defines path bytes constants ∧
            P (Runner.standard.defineGlobals constants).2 b) := by
  simp only [← Document.globals_breakdown hchars]
  rw [withGlobals, hfile]
  dsimp only
  cases p.loads path bytes with
  | false => exact .ofBroken fun c => by simp
  | true =>
    rw [Bool.not_true, if_neg Bool.false_ne_true]
    simp only [reduceCtorEq, false_and, false_or, true_and]
    cases hglobals : (Document.globals path bytes : Except Failure (List (String × Value Empty))) with
    | error f =>
      have hdefines : ∀ constants, ¬ Document.Defines path bytes constants := fun constants h => by
        cases hglobals.symm.trans h.globals
      simp only [hdefines, false_and, exists_false, or_false]
      cases f with
      | breakdown b => exact .ofBroken fun c => by simp [eq_comm]
      | error cause => exact .ofSettled (settled_errorLine _) fun b h => by cases h
    | ok constants =>
      have hdefines : ∀ {others}, Document.Defines path bytes others → others = constants :=
        fun h => Except.ok.inj (h.globals.symm.trans hglobals)
      have hcases := Runner.standard.defineGlobals_cases (Document.globals_nodup hglobals)
      dsimp only
      generalize hdone : Runner.standard.defineGlobals constants = done at hcases
      obtain ⟨outcome, r⟩ := done
      rcases hcases with ⟨hfree, rfl⟩ | ⟨⟨g, hg, hclash⟩, name, rfl⟩
      · refine (hnext r).congr fun b => ?_
        constructor
        · exact fun hb => .inr ⟨constants, ⟨hglobals, hfree⟩, by rwa [hdone]⟩
        · rintro (h | ⟨others, h, hb⟩)
          · cases h
          · obtain rfl := hdefines h
            rwa [hdone] at hb
      · refine .ofSettled (settled_errorLine _) fun b => ?_
        rintro (h | ⟨others, h, _⟩)
        · cases h
        · obtain rfl := hdefines h
          exact Bool.noConfusion (hclash.symm.trans (h.free g hg))

/-- What is done once there is a runner. -/
def Target.run (p : Platform) (t : Target) (files : Files) (r : Plain) : Output × Status :=
  match t with
  | .file name => runFile p r files name.text
  | .expression text =>
    if text = "--" then (.errorLine noExpression, .exit 1) else runOnce p r .expression text

theorem Target.run_ends (p : Platform) {files : Files} (t : Target)
    (h : ∀ name, t = .file name → ∃ bytes, files (.ofText name.text) = .ok bytes) (r : Plain) :
    Ends (t.run p files r) (t.BreaksDown p files r) := by
  cases t with
  | file name =>
    obtain ⟨bytes, hfile⟩ := h name rfl
    rw [run, runFile, hfile]
    dsimp only
    cases htext : Document.decode bytes with
    | error b =>
      obtain ⟨rfl, hbytes⟩ := Document.decode_eq_error.1 htext
      refine .ofBroken fun c => ⟨?_, fun h => h ▸ .bytes rfl hfile hbytes⟩
      rintro (_ | ⟨⟨hown, hsource⟩, _⟩)
      · rfl
      · obtain rfl := Except.ok.inj (hfile.symm.trans hown)
        cases htext.symm.trans hsource
    | ok source =>
      refine (runOnce_ends p r .script source).congr fun b => ?_
      constructor
      · exact .output (.file hfile htext)
      · rintro (⟨hname, hown, hbytes⟩ | ⟨⟨hown, hsource⟩, hoff⟩)
        · obtain rfl := Target.file.inj hname
          obtain rfl := Except.ok.inj (hfile.symm.trans hown)
          cases htext.symm.trans (Document.decode_eq_error.2 ⟨rfl, hbytes⟩)
        · obtain rfl := Except.ok.inj (hfile.symm.trans hown)
          obtain rfl := Except.ok.inj (htext.symm.trans hsource)
          exact hoff
  | expression text =>
    rw [run]
    split
    · next hleft =>
      refine .ofSettled (settled_errorLine _) fun b => ?_
      rintro (⟨hname, _, _⟩ | ⟨hprogram, _⟩)
      · cases hname
      · cases hprogram with
        | expression hgiven => exact hgiven hleft
    · next hgiven =>
      refine (runOnce_ends p r .expression text).congr fun b => ?_
      constructor
      · exact .output (.expression hgiven)
      · rintro (⟨hname, _, _⟩ | ⟨⟨_⟩, hoff⟩)
        · cases hname
        · exact hoff

namespace Invocation

variable (p : Platform) (i : Invocation) {files : Files}

theorem follow_options (r : Plain) :
    follow p i.options files r =
      match i.globals with
      | none => i.target.run p files r
      | some name => withGlobals p r files name.text (i.target.run p files) := by
  obtain ⟨globals, target⟩ := i
  have hkept : ∀ name : FileArgument, (some name.text).filter (fun s => s ≠ "") = some name.text :=
    fun name => Option.filter_some_pos (decide_eq_true name.nonempty)
  cases target with
  | file script =>
    cases globals with
    | none => simp only [follow, options, hkept, Option.map_none, Option.filter_none, Target.run]
    | some name =>
      simp only [follow, options, hkept, Option.map_some]
      rfl
  | expression text =>
    by_cases htext : text = "--" <;> cases globals with
    | none => simp [follow, options, Target.run, htext]
    | some name =>
      simp only [follow, options, hkept, Option.map_some, Option.filter_none, htext, if_true, if_false]
      exact congrArg (withGlobals p r files name.text) (funext fun _ => by simp [Target.run, htext])

theorem follow_ends (h : i.Present files) (hchars : i.CharactersOnly files) :
    Ends (follow p i.options files Runner.standard) (i.Escapes p files) := by
  rw [follow_options]
  cases hglobals : i.globals with
  | none =>
    refine (i.target.run_ends p h.script _).congr fun b => ?_
    constructor
    · exact .target (.plain hglobals)
    · rintro (⟨hname, _, _⟩ | ⟨hname, _, _, _⟩ | ⟨hbegins, hb⟩)
      · cases hglobals.symm.trans hname
      · cases hglobals.symm.trans hname
      · cases hbegins with
        | plain => exact hb
        | constants hname => cases hglobals.symm.trans hname
  | some name =>
    obtain ⟨bytes, hfile⟩ := h.globals name hglobals
    have hsame {own : FileArgument} {content : ByteArray} (hname : i.globals = some own)
        (hcontent : files (.ofText own.text) = .ok content) : own = name ∧ content = bytes := by
      obtain rfl := Option.some.inj (hglobals.symm.trans hname)
      exact ⟨rfl, Except.ok.inj (hcontent.symm.trans hfile)⟩
    refine (withGlobals_ends p hfile (hchars name bytes hglobals hfile)
      (i.target.run_ends p h.script)).congr fun b => ?_
    constructor
    · rintro (⟨hfull, rfl⟩ | ⟨hroom, hbreaks | ⟨constants, hdefines, hb⟩⟩)
      · exact .room hglobals hfile hfull
      · exact .document hglobals hfile hroom hbreaks
      · exact .target (.constants hglobals hfile hroom hdefines) hb
    · rintro (⟨hname, hown, hfull⟩ | ⟨hname, hown, hroom, hbreaks⟩ | ⟨hbegins, hb⟩)
      · obtain ⟨rfl, rfl⟩ := hsame hname hown
        exact .inl ⟨hfull, rfl⟩
      · obtain ⟨rfl, rfl⟩ := hsame hname hown
        exact .inr ⟨hroom, .inl hbreaks⟩
      · cases hbegins with
        | plain hnone => cases hglobals.symm.trans hnone
        | constants hname hown hroom hdefines =>
          obtain ⟨rfl, rfl⟩ := hsame hname hown
          exact .inr ⟨hroom, .inr ⟨_, hdefines, hb⟩⟩

end Invocation

/-- **The exit status.**  A call for a script file or an expression whose files are there is accepted.
It ends in status 0 and says nothing about failures, or in status 1 and says what failed, unless one of
the breakdowns `Escapes` is met: then, and only then, that breakdown comes out of the program.  This is
so on every platform, and for every document but those that ask for what is no character. -/
theorem run_status (p : Platform) (i : Invocation) {files : Files} (hfiles : i.Present files)
    (hchars : i.CharactersOnly files) (input : String) :
    (∀ arguments ∈ i.spellings, Options.ofArguments arguments = .ok i.options) ∧
      ∀ arguments, Options.ofArguments arguments = .ok i.options →
        let result := runOn p arguments files input
        (∀ b, result.2 = .error b ↔ i.Escapes p files b) ∧
          ∀ code, result.2 = .ok code →
            code = 0 ∧ result.1.stderr = "" ∨ code = 1 ∧ result.1.stderr ≠ "" := by
  refine ⟨fun arguments h => i.ofArguments_spelling h, ?_⟩
  intro arguments hoptions result
  have hends := i.follow_ends p hfiles hchars
  have hstart : start p arguments files = follow p i.options files Runner.standard := by
    rw [start, hoptions, standard_eq]
  have hresult : result = runOn p arguments files input := rfl
  rw [runOn, hstart] at hresult
  generalize follow p i.options files Runner.standard = stage at hends hresult
  obtain ⟨output, status⟩ := stage
  have hquiet : (∀ b, status ≠ .broken b) → Settled (output, status) :=
    fun h => hends.settled fun b hb => h b ((hends.broken b).2 hb)
  cases status with
  | exit code =>
    obtain ⟨_, hcode, hsaid⟩ := hquiet fun b h => by cases h
    obtain rfl := Status.exit.inj hcode
    rw [hresult]
    refine ⟨fun b => ?_, ?_⟩
    · rw [← hends.broken]
      exact iff_of_false (fun h => by cases h) fun h => by cases h
    · rintro _ ⟨⟩
      exact hsaid
  | broken b =>
    rw [hresult]
    refine ⟨fun c => ?_, fun code h => by cases h⟩
    rw [← hends.broken]
    exact ⟨fun h => congrArg _ (Except.error.inj h), fun h => congrArg _ (Status.broken.inj h)⟩
  | interactive r =>
    obtain ⟨_, hcode, _⟩ := hquiet fun b h => by cases h
    cases hcode

/-- A script that uses a constant of a document. -/
theorem run_status_constants :
    let files := Files.ofFolder [("g.json", "\x7b\"a\": 1\x7d".toUTF8), ("s.sable", "a;".toUTF8)]
    let i : Invocation := ⟨some ⟨"g.json", by decide, rfl⟩, .file ⟨"s.sable", by decide, rfl⟩⟩
    let result := runOn .ample ["--globals", "g.json", "s.sable"] files ""
    i.Present files ∧ i.CharactersOnly files ∧ result.2 = .ok 0 ∧
      (∀ b, ¬ i.Escapes .ample files b) ∧ result.1.stderr = "" := by
  intro files i result
  have hpresent : i.Present files := by
    constructor
    · rintro _ ⟨⟩
      exact ⟨_, rfl⟩
    · rintro _ ⟨⟩
      exact ⟨_, rfl⟩
  have hchars : i.CharactersOnly files := by
    rintro _ _ ⟨⟩ ⟨⟩ text htext b hb
    let content := "\x7b\"a\": 1\x7d"
    have hdecode : Document.decode content.toUTF8 = .ok content := by
      decide +kernel
    have hread : (Document.readAs (Document.formatOf "g.json" content) content :
        Except Failure (Data Empty)).isOk = true := by
      decide +kernel
    obtain rfl := Except.ok.inj (hdecode.symm.trans htext)
    cases hread.symm.trans (congrArg Except.isOk hb)
  have hrun : result.2 = .ok 0 := by
    decide +kernel
  obtain ⟨haccepted, hstatus⟩ := run_status .ample i hpresent hchars ""
  obtain ⟨hbroken, hcode⟩ := hstatus _ (haccepted ["--globals", "g.json", "s.sable"] List.mem_cons_self)
  refine ⟨hpresent, hchars, hrun, ?_, ?_⟩
  · intro b hb
    cases hrun.symm.trans ((hbroken b).2 hb)
  · rcases hcode 0 hrun with ⟨_, hquiet⟩ | ⟨hne, _⟩
    · exact hquiet
    · cases hne

/-- A script file of a single byte that is no text. -/
theorem script_not_text_escapes :
    (run ["s.sable"] (Files.ofFolder [("s.sable", ⟨#[0xff]⟩)]) "").2 = .error .notText := by
  decide +kernel

end CommandLine

end Scriptlet
