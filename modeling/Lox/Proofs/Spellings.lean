import Lox.Proofs.TwinReading
import Lox.Proofs.Verdicts

/-!
# Layout and spelling

Two sources that differ in layout, comments and the spelling of logical operators only have
programs that are alike, and their runs differ in nothing but what is said about the
source: the lines in static reports, and the spelling of an operator that a report, a
logged fault or a shown program repeats.
-/
namespace Lox

/-! ### Reports -/

/-- The same word, or two spellings of the same logical operator. -/
inductive Spelling : String → String → Prop
  | same (word : String) : Spelling word word
  | conjunction {word word'} : word ∈ Token.conjunctions.map Prod.snd →
      word' ∈ Token.conjunctions.map Prod.snd → Spelling word word'
  | disjunction {word word'} : word ∈ Token.disjunctions.map Prod.snd →
      word' ∈ Token.disjunctions.map Prod.snd → Spelling word word'

/-- Reports that differ in their lines and in the spelling of the operator they are about, and reports
of faults that are alike. -/
inductive Diagnostic.Twin : Diagnostic → Diagnostic → Prop
  | static (line line' : Int) (message : String) {about about' : Option String} :
      Option.Rel Spelling about about' →
      Twin (.static line message about) (.static line' message about')
  | same (report : Diagnostic) : Twin report report
  | fault {cause cause' : Fault} : cause.Like Token.Twin cause' →
      Twin (.runtime cause.message) (.runtime cause'.message)

theorem Token.Twin.spelling {s t : Token} (h : s.Twin t) : Spelling s.lexeme t.lexeme := by
  cases h with
  | same h => exact h.lexeme ▸ .same _
  | conjunction h h' =>
    exact .conjunction (List.mem_map_of_mem (f := Prod.snd) h)
      (List.mem_map_of_mem (f := Prod.snd) h')
  | disjunction h h' =>
    exact .disjunction (List.mem_map_of_mem (f := Prod.snd) h)
      (List.mem_map_of_mem (f := Prod.snd) h')

theorem Token.Twin.spelling_mention {s t : Token} (h : s.Twin t) :
    Spelling s.mention t.mention := by
  have heof := h.kind.eq_iff (show ¬Kind.IsLogical .eof by decide)
  unfold mention
  by_cases hs : s.kind = .eof
  · rw [if_pos hs, if_pos (heof.1 hs)]
    exact .same _
  · rw [if_neg hs, if_neg (hs ∘ heof.2)]
    exact h.spelling

theorem SyntaxFault.Twin.diagnostic {fault fault' : SyntaxFault} (h : fault.Twin fault') :
    fault.diagnostic.Twin fault'.diagnostic := by
  unfold SyntaxFault.diagnostic Diagnostic.atToken
  rw [h.error]
  exact .static _ _ _ (.some h.token.spelling_mention)

theorem Flags.noteAll_twin (flags : Flags) {reports reports' : List Diagnostic}
    (h : List.Forall₂ Diagnostic.Twin reports reports') :
    flags.noteAll reports = flags.noteAll reports' := by
  unfold noteAll
  induction h generalizing flags with
  | nil => rfl
  | cons hreport _ ih =>
    rw [List.foldl_cons, List.foldl_cons, ih]
    cases hreport <;> rfl

/-! ### Executions -/

/-- The same event, or faults that are alike and are logged. -/
inductive Event.Twin : Event → Event → Prop
  | same (event : Event) : Twin event event
  | fault {cause cause' : Fault} : cause.Like Token.Twin cause' →
      Twin (.logged (.fault cause.message)) (.logged (.fault cause'.message))

theorem Event.forall₂_twin_rfl (events : List Event) : List.Forall₂ Twin events events :=
  List.forall₂_same.2 fun event _ => .same event

/-- The events of a run are told as those of a run that may spell operators in another way. -/
def Retelling.twin (settings : Settings) : Retelling settings settings where
  Told := List.Forall₂ Event.Twin
  MayCut := False
  logsMore := settings.logsMore_rfl
  exact := settings.exact_rfl False
  print h text := .cons (.same _) h
  log h entry := by
    unfold Machine.log
    split
    · exact .cons (.same _) h
    · exact h

/-- Programs that are alike end alike, and leave the same machine if faults are not logged. -/
theorem Machine.twin_interpret (settings : Settings) {program program' : List Stmt}
    (h : Stmt.LikeAll Token.Twin program program') (machine : Machine) :
    (machine.interpret settings program).1.Like Token.Twin (machine.interpret settings program').1 ∧
      (Retelling.twin settings).At (machine.interpret settings program).2
        (machine.interpret settings program').2 ∧
      (settings.verbosity = 0 →
        (machine.interpret settings program').2 = (machine.interpret settings program).2) := by
  have hT : ∀ s t : Token, s.Twin t → s.kind.Twin t.kind := fun _ _ h => h.kind
  have hlogged {m m' : Machine} {cause cause' : Fault} (hcause : cause.Like Token.Twin cause')
      (hm : (Retelling.twin settings).At m m') :
      (Retelling.twin settings).At (m.log settings.verbosity (.fault cause.message))
        (m'.log settings.verbosity (.fault cause'.message)) := by
    refine ⟨?_, ?_, ?_⟩
    · rw [Exec.environment_log, Exec.environment_log, hm.environment]
    · rw [serial_log, serial_log, hm.serial]
    · unfold log Entry.level
      dsimp only
      split
      · exact .cons (.fault hcause) hm.events
      · exact hm.events
  have htwin := paired_interpret (p := (Retelling.twin settings).pairing) (n := 0) hT hlogged h
    (m := machine) ⟨rfl, rfl, Event.forall₂_twin_rfl _⟩
  obtain ⟨hending, hmachine⟩ := htwin.resolve_left (fun h => h.1)
  refine ⟨hending, hmachine, fun hquiet => ?_⟩
  have hsame := paired_interpret (p := (Retelling.same settings False).pairing) (n := 0) hT
    (fun _ hm => by rwa [log_of_quiet hquiet, log_of_quiet hquiet]) h (m := machine) ⟨rfl, rfl, rfl⟩
  exact Retelling.eq_of_same (hsame.resolve_left fun h => h.1).2

theorem Ending.Like.verdict_eq {ending ending' : Ending} (h : ending.Like Token.Twin ending') :
    ending.verdict = ending'.verdict := by
  cases h <;> rfl

theorem Ending.Like.twin_report? {ending ending' : Ending} (h : ending.Like Token.Twin ending') :
    List.Forall₂ Diagnostic.Twin ending.report?.toList ending'.report?.toList := by
  cases h with
  | fault h => exact .cons (.fault h) .nil
  | same => exact List.forall₂_same.2 fun report _ => .same report

/-- Logged faults do not show on the output while there is a log file. -/
theorem Output.stdout_eq {events events' : List Event} (h : List.Forall₂ Event.Twin events events') :
    (ofEvents true events).stdout = (ofEvents true events').stdout := by
  unfold ofEvents
  induction h with
  | nil => rfl
  | cons hevent _ ih =>
    simp only [List.map_cons, String.join_cons] at ih ⊢
    rw [ih]
    cases hevent <;> rfl

/-! ### Runs -/

/-- Twin tokens are read as programs that are alike, and reported alike. -/
theorem twin_source {first second : String} (hfirst : (TokenStream.ofSource first).faults = [])
    (hsecond : (TokenStream.ofSource second).faults = [])
    (htokens : List.Forall₂ Token.Twin (TokenStream.ofSource first).tokens
      (TokenStream.ofSource second).tokens) :
    Stmt.LikeAll Token.Twin (programOf first) (programOf second) ∧
      List.Forall₂ Diagnostic.Twin (staticReports first) (staticReports second) := by
  unfold TokenStream.tokens at htokens
  rw [← List.forall₂_reverse_iff, List.reverse_concat, List.reverse_concat] at htokens
  obtain - | ⟨hclose, hbody⟩ := htokens
  obtain ⟨hprogram, hfaults⟩ :=
    Reading.twin_ofTokens (List.forall₂_reverse_iff.1 hbody) hclose
  refine ⟨hprogram, ?_⟩
  unfold staticReports TokenStream.reports Reading.reports
  dsimp only
  rw [hfirst, hsecond]
  exact List.forall₂_map_left_iff.2 (List.forall₂_map_right_iff.2
    (hfaults.imp fun _ _ h => h.diagnostic))

/-- Runs of two sources that differ only in what they say about the sources: in the lines of static
reports and in the spelling of logical operators. The output is the program, if it is shown, and the
lines that are written for the events of the run. -/
structure Session.TwinRuns (rounds : Nat) (session : Session) (first second : String) : Prop where
  verdict : (session.run rounds first).verdict = (session.run rounds second).verdict
  state : (session.run rounds first).session = (session.run rounds second).session
  programs : Stmt.LikeAll Token.Twin (programOf first) (programOf second)
  shown : session.shown first = "" ∧ session.shown second = "" ∨
    session.shown first = Stmt.shownText (programOf first) ∧
      session.shown second = Stmt.shownText (programOf second)
  events : List.Forall₂ Event.Twin (session.events rounds first) (session.events rounds second)
  reports : List.Forall₂ Diagnostic.Twin (session.reported rounds first)
    (session.reported rounds second)
  stdout : ∀ source ∈ [first, second], (session.run rounds source).output.stdout =
    session.shown source ++
      (Output.ofEvents (session.logFile = .opened) (session.events rounds source)).stdout
  stderr : ∀ source ∈ [first, second], (session.run rounds source).output.stderr =
    String.join ((session.reported rounds source).map Diagnostic.text)

namespace Session

variable (rounds : Nat) (session : Session) {first second : String}
  (hreports : List.Forall₂ Diagnostic.Twin (staticReports first) (staticReports second))

include hreports

theorem staticReports_eq_nil_of_twin : staticReports first = [] ↔ staticReports second = [] := by
  constructor
  · intro h
    exact List.forall₂_nil_left_iff.1 (h ▸ hreports)
  · intro h
    exact List.forall₂_nil_right_iff.1 (h ▸ hreports)

variable (hprogram : Stmt.LikeAll Token.Twin (programOf first) (programOf second))

include hprogram

theorem twin_shown : session.shown first = "" ∧ session.shown second = "" ∨
    session.shown first = Stmt.shownText (programOf first) ∧
      session.shown second = Stmt.shownText (programOf second) := by
  unfold shown
  simp only [staticReports_eq_nil_of_twin hreports, Stmt.heightAll_eq _ hprogram]
  split
  · exact .inr ⟨rfl, rfl⟩
  · exact .inl ⟨rfl, rfl⟩

theorem twin_events :
    List.Forall₂ Event.Twin (session.events rounds first) (session.events rounds second) := by
  obtain ⟨-, hmachine, -⟩ := Machine.twin_interpret (session.settings rounds) hprogram
    (Machine.start session.environment session.serial)
  unfold events
  simp only [staticReports_eq_nil_of_twin hreports]
  split
  · exact List.forall₂_reverse_iff.2 hmachine.events
  · exact .nil

theorem twin_reported :
    List.Forall₂ Diagnostic.Twin (session.reported rounds first)
      (session.reported rounds second) := by
  obtain ⟨hending, -, -⟩ := Machine.twin_interpret (session.settings rounds) hprogram
    (Machine.start session.environment session.serial)
  unfold reported
  simp only [ne_eq, staticReports_eq_nil_of_twin hreports, Stmt.heightAll_eq _ hprogram]
  split
  · exact hreports
  · split
    · split
      · exact .cons (.same _) .nil
      · exact .nil
    · exact hending.twin_report?

/-- Runs of twin sources end alike and leave the same session. -/
theorem twin_verdict :
    (session.run rounds first).verdict = (session.run rounds second).verdict ∧
      (session.run rounds first).session = (session.run rounds second).session := by
  by_cases hclean : staticReports first = []
  · have hclean' := (staticReports_eq_nil_of_twin hreports).1 hclean
    cases htree : session.showTree with
    | true =>
      rw [session.run_of_tree rounds first hclean htree,
        session.run_of_tree rounds second hclean' htree, showProgram, showProgram,
        Stmt.heightAll_eq _ hprogram]
      split <;> exact ⟨rfl, rfl⟩
    | false =>
      obtain ⟨-, -, hrun⟩ := session.executed_of_clean rounds first hclean htree
      obtain ⟨-, -, hrun'⟩ := session.executed_of_clean rounds second hclean' htree
      obtain ⟨hending, hmachine, -⟩ := Machine.twin_interpret (session.settings rounds) hprogram
        (Machine.start session.environment session.serial)
      rw [hrun, hrun', conclude_eq, conclude_eq]
      refine ⟨hending.verdict_eq, ?_⟩
      rw [hmachine.environment, hmachine.serial, Flags.noteAll_twin _ hending.twin_report?]
  · have hfaulty : staticReports second ≠ [] := fun h =>
      hclean ((staticReports_eq_nil_of_twin hreports).2 h)
    obtain ⟨-, -, hrun⟩ := session.stopped_of_faulty rounds first hclean
    obtain ⟨-, -, hrun'⟩ := session.stopped_of_faulty rounds second hfaulty
    rw [hrun, hrun', reject, reject, Flags.noteAll_twin _ hreports]
    exact ⟨rfl, rfl⟩

/-- A run that executes a program writes the same on the output, unless a logged fault shows on it. -/
theorem twin_stdout (htree : session.showTree = false)
    (hlog : session.verbosity = 0 ∨ session.logFile = .opened) :
    (session.run rounds first).output.stdout = (session.run rounds second).output.stdout := by
  have hshown (source : String) : session.shown source = "" := by
    rw [shown, htree, if_neg (by simp)]
  rw [stdout_run, stdout_run, hshown, hshown]
  refine congrArg ("" ++ ·) ?_
  rcases hlog with hquiet | hfile
  · obtain ⟨-, -, hsame⟩ := Machine.twin_interpret (session.settings rounds) hprogram
      (Machine.start session.environment session.serial)
    simp only [events, hsame hquiet, staticReports_eq_nil_of_twin hreports]
  · rw [decide_eq_true hfile]
    exact Output.stdout_eq (session.twin_events rounds hreports hprogram)

end Session

namespace Session

/-- Layout, comments and the spelling of logical operators do not matter to a run. -/
theorem run_twin (rounds : Nat) (session : Session) (first second : String)
    (hfirst : (TokenStream.ofSource first).faults = [])
    (hsecond : (TokenStream.ofSource second).faults = [])
    (htokens : List.Forall₂ Token.Twin (TokenStream.ofSource first).tokens
      (TokenStream.ofSource second).tokens) :
    session.TwinRuns rounds first second ∧
      (session.showTree = false → session.verbosity = 0 ∨ session.logFile = .opened →
        (session.run rounds first).output.stdout = (session.run rounds second).output.stdout) := by
  obtain ⟨hprogram, hreports⟩ := twin_source hfirst hsecond htokens
  obtain ⟨hverdict, hstate⟩ := session.twin_verdict rounds hreports hprogram
  have hruns : session.TwinRuns rounds first second :=
    { verdict := hverdict
      state := hstate
      programs := hprogram
      shown := session.twin_shown hreports hprogram
      events := session.twin_events rounds hreports hprogram
      reports := session.twin_reported rounds hreports hprogram
      stdout := fun source _ => session.stdout_run rounds source
      stderr := fun source _ => session.stderr_run rounds source }
  exact ⟨hruns, session.twin_stdout rounds hreports hprogram⟩

/-- A source that spells operators by words and has room between its tokens. -/
def roomy : String := "var a = true; // a\nprint a or b;\nprint a\n  and nil;"

/-- The same source, with marks for operators and no room. -/
def dense : String := "var a=true;print a||b;print a&&nil;"

theorem run_twin_roomy_dense :
    (TokenStream.ofSource roomy).faults = [] ∧ (TokenStream.ofSource dense).faults = [] ∧
      List.Forall₂ Token.Twin (TokenStream.ofSource roomy).tokens
        (TokenStream.ofSource dense).tokens ∧
      (new 2 false).TwinRuns 1 roomy dense ∧
      ((new 2 false).run 1 roomy).output.stdout = ((new 2 false).run 1 dense).output.stdout := by
  have hroomy : (TokenStream.ofSource roomy).faults = [] := by decide +kernel
  have hdense : (TokenStream.ofSource dense).faults = [] := by decide +kernel
  have htokens : List.Forall₂ Token.Twin (TokenStream.ofSource roomy).tokens
      (TokenStream.ofSource dense).tokens := by decide +kernel
  obtain ⟨hruns, hstdout⟩ := run_twin 1 (new 2 false) roomy dense hroomy hdense htokens
  exact ⟨hroomy, hdense, htokens, hruns, hstdout rfl (.inr rfl)⟩

/-- The spelling shows on the output where programs are shown, and where faults are logged to the
output for want of a log file. -/
theorem stdout_run_spelling :
    (TokenStream.ofSource "true and nil;").faults = [] ∧
      (TokenStream.ofSource "true && nil;").faults = [] ∧
      List.Forall₂ Token.Twin (TokenStream.ofSource "true and nil;").tokens
        (TokenStream.ofSource "true && nil;").tokens ∧
      ((new 0 true).run 1 "true and nil;").output.stdout ≠
        ((new 0 true).run 1 "true && nil;").output.stdout ∧
      ((new 1 false).close.run 1 "true and nil;").output.stdout ≠
        ((new 1 false).close.run 1 "true && nil;").output.stdout := by
  refine ⟨?_, ?_, ?_, ?_, ?_⟩ <;> decide +kernel

end Session

end Lox
