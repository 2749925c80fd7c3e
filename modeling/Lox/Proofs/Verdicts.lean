import Lox.Command
import Lox.Proofs.EnclosedJumps

/-!
# Verdicts

A run reports the static faults of its source. Without any it reports what stopped the
execution, or the showing of the program, if something did. The flags, the error stream and the
verdict all follow from these reports, whatever earlier runs have left in the flags; a
script ends with the status that the flags ask for.
-/
namespace Lox

namespace Diagnostic

/-- Made before anything is executed. -/
def isStatic : Diagnostic → Bool
  | static .. => true
  | runtime _ => false

@[simp] theorem isStatic_static (line : Int) (message : String) (about : Option String) :
    (static line message about).isStatic = true := rfl

@[simp] theorem isStatic_runtime (message : String) : (runtime message).isStatic = false := rfl

/-- The two sorts of report are told apart by the first character of their texts. -/
theorem head?_text (report : Diagnostic) :
    report.text.toList.head? = some (if report.isStatic then '[' else 'R') := by
  cases report with
  | static line message about =>
    unfold text
    simp
  | runtime message =>
    unfold text
    simp

theorem head?_join_text (reports : List Diagnostic) :
    (String.join (reports.map text)).toList.head? =
      reports.head?.map fun report => if report.isStatic then '[' else 'R' := by
  cases reports with
  | nil => rfl
  | cons report rest =>
    rw [List.map_cons, String.join_cons, String.toList_append, List.head?_append, head?_text]
    rfl

theorem join_text_eq_empty_iff (reports : List Diagnostic) :
    String.join (reports.map text) = "" ↔ reports = [] := by
  rw [← List.head?_eq_none_iff (l := reports), ← Option.map_eq_none_iff, ← head?_join_text,
    List.head?_eq_none_iff, String.toList_eq_nil_iff]

end Diagnostic

namespace Flags

theorem hadError_noteAll (flags : Flags) (reports : List Diagnostic) :
    (flags.noteAll reports).hadError = (flags.hadError || reports.any Diagnostic.isStatic) := by
  unfold noteAll
  induction reports generalizing flags with
  | nil => simp
  | cons report rest ih =>
    rw [List.foldl_cons, ih]
    cases report <;> simp [note]

theorem hadRuntimeError_noteAll (flags : Flags) (reports : List Diagnostic) :
    (flags.noteAll reports).hadRuntimeError =
      (flags.hadRuntimeError || reports.any fun report => !report.isStatic) := by
  unfold noteAll
  induction reports generalizing flags with
  | nil => simp
  | cons report rest ih =>
    rw [List.foldl_cons, ih]
    cases report <;> simp [note]

end Flags

theorem isStatic_of_mem_staticReports {source : String} {report : Diagnostic}
    (h : report ∈ staticReports source) : report.isStatic = true := by
  unfold staticReports TokenStream.reports Reading.reports at h
  rcases List.mem_append.1 h with h | h
  · obtain ⟨fault, -, rfl⟩ := List.mem_map.1 h
    cases fault <;> rfl
  · obtain ⟨fault, -, rfl⟩ := List.mem_map.1 h
    rfl

theorem staticReports_ne_runtime (source : String) (message : String) :
    staticReports source ≠ [.runtime message] := by
  intro h
  have hmem : Diagnostic.runtime message ∈ staticReports source := by simp [h]
  cases isStatic_of_mem_staticReports hmem

/-- The line that shows a program, if there is anything to show. -/
def Stmt.shownText (program : List Stmt) : String :=
  if (Stmt.renderProgram program).isEmpty then "" else Stmt.renderProgram program ++ "\n"

/-- The verdict on an execution. -/
def Ending.verdict : Ending → Verdict
  | completed => .accepted
  | fault _ | tooDeep => .rejected
  | stray isBreak => .cutOff (stray isBreak)
  | outOfRounds => .cutOff outOfRounds

namespace Session

/-- What has been written and the report of the ending make up the output. -/
theorem conclude_eq (session : Session) (ended : Ending × Machine) :
    session.conclude ended =
      { verdict := ended.1.verdict
        session :=
          { session with
            environment := ended.2.environment
            serial := ended.2.serial
            flags := session.flags.noteAll ended.1.report?.toList }
        output := Output.ofEvents (session.logFile = .opened) ended.2.events.reverse ++
          Output.report (String.join (ended.1.report?.toList.map Diagnostic.text)) } := by
  obtain ⟨ending, machine⟩ := ended
  have hnothing (output : Output) : output ++ Output.report "" = output := by
    change Output.append _ _ = _
    simp [Output.append, Output.report, Output.empty]
  cases ending with
  | fault | tooDeep => rfl
  | completed | stray | outOfRounds =>
    unfold conclude
    simp only [Ending.report?, Option.toList_none, List.map_nil, String.join_nil, hnothing]
    rfl

variable (rounds : Nat) (session : Session) (source : String)

/-- Everything that a run reports, in order. -/
def reported : List Diagnostic :=
  if staticReports source ≠ [] then staticReports source
  else if session.showTree then
    if session.stack.limit < Stmt.heightAll (programOf source) then
      [.runtime Ending.tooDeepMessage]
    else []
  else
    let start := Machine.start session.environment session.serial
    (start.interpret (session.settings rounds) (programOf source)).1.report?.toList

/-- What a run shows of its program. -/
def shown : String :=
  if staticReports source = [] ∧ session.showTree = true ∧
      Stmt.heightAll (programOf source) ≤ session.stack.limit then
    Stmt.shownText (programOf source)
  else ""

/-- Everything that a run writes while it executes its program, in order. -/
def events : List Event :=
  if staticReports source = [] ∧ session.showTree = false then
    ((Machine.start session.environment session.serial).interpret (session.settings rounds)
      (programOf source)).2.events.reverse
  else []

/-- A run ends by reports and leaves the rest of the session as it is. -/
def Stopped (reports : List Diagnostic) : Prop :=
  reports ≠ [] ∧ session.reported rounds source = reports ∧
    session.run rounds source = session.reset.reject .empty reports

/-- A run shows its program. -/
def Shown : Prop :=
  session.reported rounds source = [] ∧
    ∃ text, session.run rounds source = ⟨.accepted, session.reset, .print text⟩

/-- A run executes its program, which ends in some way. -/
def Executed (ended : Ending × Machine) : Prop :=
  session.reported rounds source = ended.1.report?.toList ∧ (∀ isBreak, ended.1 ≠ .stray isBreak) ∧
    session.run rounds source = session.reset.conclude ended

theorem stopped_of_faulty (h : staticReports source ≠ []) :
    session.Stopped rounds source (staticReports source) := by
  refine ⟨h, if_pos h, ?_⟩
  unfold run
  exact if_pos h

theorem run_of_tree (hclean : staticReports source = []) (htree : session.showTree = true) :
    session.run rounds source = session.reset.showProgram (programOf source) := by
  unfold run
  change (if staticReports source ≠ [] then _ else if session.showTree then _ else _) = _
  rw [if_neg (not_not_intro hclean), if_pos htree]
  rfl

theorem stopped_or_shown (hclean : staticReports source = []) (htree : session.showTree = true) :
    session.Stopped rounds source [.runtime Ending.tooDeepMessage] ∨
      session.Shown rounds source := by
  have hrun := session.run_of_tree rounds source hclean htree
  have hstack : session.reset.stack = session.stack := rfl
  unfold showProgram at hrun
  rw [hstack] at hrun
  have hreported : session.reported rounds source =
      if session.stack.limit < Stmt.heightAll (programOf source) then
        [.runtime Ending.tooDeepMessage]
      else [] := by
    unfold reported
    rw [if_neg (not_not_intro hclean), if_pos htree]
  by_cases hhigh : session.stack.limit < Stmt.heightAll (programOf source)
  · rw [if_pos hhigh] at hreported hrun
    exact .inl ⟨by simp, hreported, hrun⟩
  · rw [if_neg hhigh] at hreported hrun
    exact .inr ⟨hreported, _, hrun⟩

theorem executed_of_clean (hclean : staticReports source = []) (htree : session.showTree = false) :
    session.Executed rounds source
      ((Machine.start session.environment session.serial).interpret
        (session.settings rounds) (programOf source)) := by
  refine ⟨?_, ?_, ?_⟩
  · unfold reported
    rw [if_neg (not_not_intro hclean), htree]
    rfl
  · exact Machine.interpret_ne_stray (Reading.jumpsEnclosedIn_program _ _) _
  · rw [run_of_clean rounds htree hclean, execute_eq_conclude]
    rfl

/-- Every run stops at its reports, shows its program or executes it. -/
theorem run_cases :
    (∃ reports, session.Stopped rounds source reports) ∨ session.Shown rounds source ∨
      ∃ ended, session.Executed rounds source ended := by
  by_cases hclean : staticReports source = []
  · cases htree : session.showTree with
    | true =>
      rcases session.stopped_or_shown rounds source hclean htree with h | h
      · exact .inl ⟨_, h⟩
      · exact .inr (.inl h)
    | false => exact .inr (.inr ⟨_, session.executed_of_clean rounds source hclean htree⟩)
  · exact .inl ⟨_, session.stopped_of_faulty rounds source hclean⟩

/-- The flags tell what this run has reported, and nothing about earlier ones. -/
theorem flags_run :
    (session.run rounds source).session.flags =
      Flags.clear.noteAll (session.reported rounds source) := by
  rcases session.run_cases rounds source with
    ⟨reports, -, hreported, hrun⟩ | ⟨hreported, text, hrun⟩ | ⟨ended, hreported, -, hrun⟩
  · rw [hrun, hreported]
    rfl
  · rw [hrun, hreported]
    rfl
  · rw [hrun, hreported, conclude_eq]
    rfl

/-- The error stream shows what the run has reported. -/
theorem stderr_run :
    (session.run rounds source).output.stderr =
      String.join ((session.reported rounds source).map Diagnostic.text) := by
  rcases session.run_cases rounds source with
    ⟨reports, -, hreported, hrun⟩ | ⟨hreported, text, hrun⟩ | ⟨ended, hreported, -, hrun⟩
  · rw [hrun, hreported]
    exact String.empty_append
  · rw [hrun, hreported]
    rfl
  · rw [hrun, hreported, conclude_eq]
    exact String.empty_append

/-- The output shows the program, or what has been written while it was executed. -/
theorem stdout_run :
    (session.run rounds source).output.stdout = session.shown source ++
      (Output.ofEvents (session.logFile = .opened) (session.events rounds source)).stdout := by
  unfold shown events
  by_cases hclean : staticReports source = []
  · cases htree : session.showTree with
    | true =>
      rw [session.run_of_tree rounds source hclean htree, showProgram]
      have hstack : session.reset.stack = session.stack := rfl
      by_cases hhigh : session.stack.limit < Stmt.heightAll (programOf source)
      · rw [hstack, if_pos hhigh, if_neg (by omega), if_neg (by simp)]
        rfl
      · rw [hstack, if_neg hhigh, if_pos ⟨hclean, rfl, Nat.not_lt.1 hhigh⟩, if_neg (by simp)]
        exact String.append_empty.symm
    | false =>
      obtain ⟨-, -, hrun⟩ := session.executed_of_clean rounds source hclean htree
      rw [hrun, conclude_eq, if_neg (by simp), if_pos ⟨hclean, rfl⟩]
      exact String.append_empty.trans String.empty_append.symm
  · obtain ⟨-, -, hrun⟩ := session.stopped_of_faulty rounds source hclean
    rw [hrun, if_neg (fun h => hclean h.1), if_neg (fun h => hclean h.1)]
    rfl

/-- A run that is not cut off is accepted if it has reported nothing, and rejected otherwise. -/
theorem verdict_run (hends : (session.run rounds source).verdict ≠ .cutOff .outOfRounds) :
    (session.run rounds source).verdict = .accepted ↔ session.reported rounds source = [] := by
  rcases session.run_cases rounds source with
    ⟨reports, hsome, hreported, hrun⟩ | ⟨hreported, text, hrun⟩ |
      ⟨⟨ending, machine⟩, hreported, hstray, hrun⟩
  · rw [hrun, hreported]
    simp [reject, hsome]
  · rw [hrun, hreported]
    simp
  · rw [hrun, conclude_eq] at hends ⊢
    rw [hreported]
    cases ending with
    | stray isBreak => exact absurd rfl (hstray isBreak)
    | outOfRounds => exact absurd rfl hends
    | completed | fault | tooDeep => simp [Ending.verdict, Ending.report?]

/-- A run reports static faults, or one thing that stopped it, or nothing. -/
theorem reported_cases :
    staticReports source ≠ [] ∧ session.reported rounds source = staticReports source ∨
      staticReports source = [] ∧ (session.reported rounds source = [] ∨
        ∃ message, session.reported rounds source = [.runtime message]) := by
  by_cases hclean : staticReports source = []
  · refine .inr ⟨hclean, ?_⟩
    cases htree : session.showTree with
    | true =>
      rcases session.stopped_or_shown rounds source hclean htree with h | h
      · exact .inr ⟨_, h.2.1⟩
      · exact .inl h.1
    | false =>
      obtain ⟨hreported, -, -⟩ := session.executed_of_clean rounds source hclean htree
      rw [hreported]
      cases ((Machine.start session.environment session.serial).interpret
        (session.settings rounds) (programOf source)).1 with
      | fault cause => exact .inr ⟨cause.message, rfl⟩
      | tooDeep => exact .inr ⟨Ending.tooDeepMessage, rfl⟩
      | completed | stray | outOfRounds => exact .inl rfl
  · exact .inl ⟨hclean, (session.stopped_of_faulty rounds source hclean).2.1⟩

theorem hadError_run :
    (session.run rounds source).session.flags.hadError = true ↔ staticReports source ≠ [] := by
  rw [flags_run, Flags.hadError_noteAll]
  rcases session.reported_cases rounds source with
    ⟨hfaulty, hreported⟩ | ⟨hclean, hreported | ⟨message, hreported⟩⟩
  · obtain ⟨report, hmem⟩ := List.exists_mem_of_ne_nil _ hfaulty
    have hany : (staticReports source).any Diagnostic.isStatic = true :=
      List.any_eq_true.2 ⟨report, hmem, isStatic_of_mem_staticReports hmem⟩
    rw [hreported, hany]
    simp [hfaulty]
  · simp [hreported, hclean, Flags.clear]
  · simp [hreported, hclean, Flags.clear]

theorem hadRuntimeError_run :
    (session.run rounds source).session.flags.hadRuntimeError = true ↔
      ∃ message, session.reported rounds source = [.runtime message] := by
  rw [flags_run, Flags.hadRuntimeError_noteAll]
  rcases session.reported_cases rounds source with
    ⟨hfaulty, hreported⟩ | ⟨hclean, hreported | ⟨message, hreported⟩⟩
  · have hany : (staticReports source).any (fun report => !report.isStatic) = false := by
      simpa [List.any_eq_false] using fun _ => isStatic_of_mem_staticReports
    rw [hreported, hany]
    refine ⟨nofun, fun ⟨message, h⟩ => ?_⟩
    exact absurd h (staticReports_ne_runtime source message)
  · simp [hreported, Flags.clear]
  · simp [hreported, Flags.clear]

theorem reported_eq_nil_iff :
    session.reported rounds source = [] ↔
      (session.run rounds source).session.flags.hadError = false ∧
        (session.run rounds source).session.flags.hadRuntimeError = false := by
  rw [Bool.eq_false_iff, Bool.eq_false_iff, Ne, Ne, hadError_run, hadRuntimeError_run]
  rcases session.reported_cases rounds source with
    ⟨hfaulty, hreported⟩ | ⟨hclean, hreported | ⟨message, hreported⟩⟩
  · simp [hfaulty, hreported]
  · simp [hclean, hreported]
  · simp [hreported]

theorem not_hadError_and_hadRuntimeError_run :
    ¬ ((session.run rounds source).session.flags.hadError = true ∧
      (session.run rounds source).session.flags.hadRuntimeError = true) := by
  rw [hadError_run, hadRuntimeError_run]
  rintro ⟨hfaulty, message, hreported⟩
  rcases session.reported_cases rounds source with ⟨-, h⟩ | ⟨hclean, -⟩
  · exact staticReports_ne_runtime source message (h.symm.trans hreported)
  · exact hfaulty hclean

/-- No run reports two runtime errors, and one that reports any reports nothing else. -/
theorem countP_reported_eq_one_iff :
    (session.reported rounds source).countP (fun report => !report.isStatic) = 1 ↔
      ∃ message, session.reported rounds source = [.runtime message] := by
  rcases session.reported_cases rounds source with
    ⟨hfaulty, hreported⟩ | ⟨hclean, hreported | ⟨message, hreported⟩⟩
  · have hcount : (staticReports source).countP (fun report => !report.isStatic) = 0 := by
      simpa [List.countP_eq_zero] using fun _ => isStatic_of_mem_staticReports
    rw [hreported, hcount]
    refine ⟨nofun, fun ⟨message, h⟩ => ?_⟩
    exact absurd h (staticReports_ne_runtime source message)
  · simp [hreported]
  · simp [hreported]

/-- A run that does not execute its program changes nothing but the flags, and logs nothing. -/
theorem run_not_executed (h : staticReports source ≠ [] ∨ session.showTree = true) :
    (session.run rounds source).session =
        { session with flags := (session.run rounds source).session.flags } ∧
      (session.run rounds source).output.log = "" := by
  have hcases : (∃ reports, session.Stopped rounds source reports) ∨
      session.Shown rounds source := by
    by_cases hclean : staticReports source = []
    · have htree := h.resolve_left (not_not_intro hclean)
      exact (session.stopped_or_shown rounds source hclean htree).imp_left fun h => ⟨_, h⟩
    · exact .inl ⟨_, session.stopped_of_faulty rounds source hclean⟩
  rcases hcases with ⟨reports, -, -, hrun⟩ | ⟨-, text, hrun⟩
  · rw [hrun]
    exact ⟨rfl, String.empty_append⟩
  · rw [hrun]
    exact ⟨rfl, rfl⟩

/-- The flag for runtime errors can be read off the error stream. -/
theorem hadRuntimeError_run_iff_stderr :
    (session.run rounds source).session.flags.hadRuntimeError = true ↔
      ∃ message, (session.run rounds source).output.stderr = (Diagnostic.runtime message).text := by
  rw [hadRuntimeError_run, stderr_run]
  constructor
  · rintro ⟨message, h⟩
    exact ⟨message, by simp [h]⟩
  · rintro ⟨message, h⟩
    have hhead := congrArg (fun text => text.toList.head?) h
    simp only [Diagnostic.head?_join_text, Diagnostic.head?_text] at hhead
    rcases session.reported_cases rounds source with
      ⟨hfaulty, hreported⟩ | ⟨-, hreported | hreported⟩
    · -- A static report starts with a bracket.
      obtain ⟨report, rest, hcons⟩ := List.exists_cons_of_ne_nil hfaulty
      have hmem : report ∈ staticReports source := by simp [hcons]
      have hstatic := isStatic_of_mem_staticReports hmem
      simp [hreported, hcons, hstatic] at hhead
    · simp [hreported] at hhead
    · exact hreported

end Session

namespace Command

/-- The text of a script, if it could be read. -/
def decoded? (contents : Except ReadError ByteArray) : Option String :=
  contents.toOption.bind String.fromUTF8?

theorem status_runScript (rounds : Nat) (session : Session) (path : String)
    (contents : Except ReadError ByteArray) :
    (runScript rounds session path contents).status =
      match decoded? contents with
      | none => 66
      | some source => if (session.run rounds source).session.flags.failed then 65 else 0 := by
  unfold runScript decoded?
  cases contents with
  | error error => rfl
  | ok bytes =>
    dsimp only [Except.toOption, Option.bind_some]
    cases String.fromUTF8? bytes <;> rfl

theorem status_runScript_eq_iff (rounds : Nat) (session : Session) (path : String)
    (contents : Except ReadError ByteArray) (failed : Bool) :
    (runScript rounds session path contents).status = (if failed then 65 else 0) ↔
      ∃ source, decoded? contents = some source ∧
        (session.run rounds source).session.flags.failed = failed := by
  rw [status_runScript]
  cases decoded? contents with
  | none => cases failed <;> simp
  | some source =>
    simp only [Option.some.injEq, exists_eq_left']
    cases (session.run rounds source).session.flags.failed <;> cases failed <;> simp

end Command

namespace Session

/-- The verdict of a run that comes to its end, its flags, its error stream and the status of a
script all say the same. The scanner and the parser report something just when the flag for
errors is set, and then nothing is executed or printed; the flag for runtime errors is set
just when one runtime error is all that is reported. -/
theorem run_consistent (rounds : Nat) (session : Session) (source : String)
    (hends : (session.run rounds source).verdict ≠ .cutOff .outOfRounds) :
    let result := session.run rounds source
    let flags := result.session.flags
    let reports := session.reported rounds source
    (result.verdict = .accepted ↔ flags.hadError = false ∧ flags.hadRuntimeError = false) ∧
      (result.verdict = .accepted ↔ result.output.stderr = "") ∧
      ¬ (flags.hadError = true ∧ flags.hadRuntimeError = true) ∧
      (flags.hadError = true ↔ staticReports source ≠ []) ∧
      (flags.hadError = true ∨ session.showTree = true →
        result.session = { session with flags } ∧ result.output.log = "") ∧
      (flags.hadError = true → result.output.stdout = "") ∧
      result.output.stderr = String.join (reports.map Diagnostic.text) ∧
      (flags.hadRuntimeError = true ↔ ∃ message, reports = [.runtime message]) ∧
      (flags.hadRuntimeError = true ↔ reports.countP (fun report => !report.isStatic) = 1) ∧
      (flags.hadRuntimeError = true ↔
        ∃ message, result.output.stderr = (Diagnostic.runtime message).text) ∧
      ∀ path contents,
        ((Command.runScript rounds session path contents).status = 65 ↔
          ∃ text, Command.decoded? contents = some text ∧
            (session.run rounds text).session.flags.failed = true) ∧
        ((Command.runScript rounds session path contents).status = 0 ↔
          ∃ text, Command.decoded? contents = some text ∧
            (session.run rounds text).session.flags.failed = false) := by
  intro result flags reports
  have hverdict := session.verdict_run rounds source hends
  have herror := session.hadError_run rounds source
  have hruntime := session.hadRuntimeError_run rounds source
  refine ⟨?_, ?_, ?_, herror, ?_, ?_, session.stderr_run rounds source, hruntime, ?_,
    session.hadRuntimeError_run_iff_stderr rounds source, fun path contents => ⟨?_, ?_⟩⟩
  · exact hverdict.trans (session.reported_eq_nil_iff rounds source)
  · rw [hverdict, session.stderr_run rounds source, Diagnostic.join_text_eq_empty_iff]
  · exact session.not_hadError_and_hadRuntimeError_run rounds source
  · intro h
    exact session.run_not_executed rounds source (h.imp_left herror.1)
  · intro h
    obtain ⟨-, -, hrun⟩ := session.stopped_of_faulty rounds source (herror.1 h)
    change (session.run rounds source).output.stdout = ""
    rw [hrun]
    rfl
  · exact hruntime.trans (session.countP_reported_eq_one_iff rounds source).symm
  · exact Command.status_runScript_eq_iff rounds session path contents true
  · exact Command.status_runScript_eq_iff rounds session path contents false

/-- A session in which errors of both sorts have been reported. -/
def troubled : Session := { new 1 false with flags := ⟨true, true⟩ }

/-- A source that prints a line and then uses a name that nothing binds. -/
def halting : String := "print 1; print t; print 2;"

/-- What earlier runs have reported is forgotten, and one runtime error is all that is reported. -/
theorem run_consistent_halting :
    (troubled.run 8 halting).verdict ≠ .cutOff .outOfRounds ∧
      (troubled.run 8 halting).session.flags = ⟨false, true⟩ ∧
      (troubled.run 8 halting).verdict ≠ .accepted ∧
      ∃ message, troubled.reported 8 halting = [.runtime message] := by
  have hends : (troubled.run 8 halting).verdict ≠ .cutOff .outOfRounds := by decide +kernel
  have hflags : (troubled.run 8 halting).session.flags = ⟨false, true⟩ := by decide +kernel
  obtain ⟨haccepted, -, -, -, -, -, -, hruntime, -⟩ := run_consistent 8 troubled halting hends
  refine ⟨hends, hflags, fun h => ?_, hruntime.1 (by rw [hflags])⟩
  have hclear := (haccepted.1 h).2
  rw [hflags] at hclear
  cases hclear

end Session

end Lox
