import Lox.Session
import Lox.Proofs.JoinedText
import Lox.Proofs.PairedRuns
import Lox.Proofs.StatementCompleteness

/-!
# One source or two

A session may run two sources one after another, or both at once with a line feed
between them. Sources without static reports are joined to one without static
reports, whose program is that of the first followed by that of the second. Only the
environment and the serial number pass from the first part of a run to the second,
and both are kept between runs.
-/
namespace Lox

open Grammar

/-- What is reported about a source before anything is executed. -/
def staticReports (source : String) : List Diagnostic :=
  let stream := TokenStream.ofSource source
  stream.reports ++ (Reading.ofTokens stream.body stream.close).reports

/-- The program read from a source. -/
def programOf (source : String) : List Stmt :=
  let stream := TokenStream.ofSource source
  (Reading.ofTokens stream.body stream.close).program

/-- Without static reports there is no lexical fault, and the tokens are a program. -/
theorem staticReports_eq_nil_iff (source : String) (program : List Stmt) :
    staticReports source = [] ∧ programOf source = program ↔
      (TokenStream.ofSource source).faults = [] ∧
        Program (TokenStream.ofSource source).body program := by
  have hclose := TokenStream.close_kind_ofSegments 1 (Segment.split source.toList)
  have hbody : ∀ t ∈ (TokenStream.ofSource source).body, t.kind ≠ .eof := fun _ h =>
    TokenStream.kind_ne_eof_of_mem_body h
  rw [← @Reading.ofTokens_clean_iff _ (TokenStream.ofSource source).close _ hclose hbody]
  unfold staticReports programOf TokenStream.reports Reading.reports
  rw [List.append_eq_nil_iff, List.map_eq_nil_iff, List.map_eq_nil_iff, and_assoc]

/-- Sources without static reports are joined to a source without static reports. -/
theorem staticReports_join {a b : String} (ha : staticReports a = []) (hb : staticReports b = []) :
    staticReports (a ++ "\n" ++ b) = [] ∧
      programOf (a ++ "\n" ++ b) = programOf a ++
        Stmt.relocateAll (.down (a.toList.count '\n' + 1)) (programOf b) := by
  obtain ⟨hfaults, hprogram⟩ := (staticReports_eq_nil_iff a _).1 ⟨ha, rfl⟩
  obtain ⟨hfaults', hprogram'⟩ := (staticReports_eq_nil_iff b _).1 ⟨hb, rfl⟩
  rw [staticReports_eq_nil_iff, TokenStream.body_ofSource_join a b hfaults]
  exact ⟨TokenStream.faults_ofSource_join hfaults hfaults',
    Forms.append hprogram (hprogram'.relocate _)⟩

theorem Stmt.executeAll_append (settings : Settings) (room : Nat) (first second : List Stmt) :
    Stmt.executeAll settings room (first ++ second) =
      Stmt.executeAll settings room first >>= fun _ => Stmt.executeAll settings room second := by
  induction first with
  | nil => rfl
  | cons stmt rest ih =>
    rw [List.cons_append, executeAll, executeAll, ih, bind_assoc]

theorem Stmt.executeAll_append_of_ok {settings : Settings} {room : Nat} {first : List Stmt}
    {machine middle : Machine} (second : List Stmt)
    (h : Stmt.executeAll settings room first machine = .ok () middle) :
    Stmt.executeAll settings room (first ++ second) machine =
      Stmt.executeAll settings room second middle := by
  rw [executeAll_append, Exec.bind_of_ok h]

theorem Stmt.executeAll_append_of_error {settings : Settings} {room : Nat} {first : List Stmt}
    {machine middle : Machine} {interrupt : Interrupt} (second : List Stmt)
    (h : Stmt.executeAll settings room first machine = .error interrupt middle) :
    Stmt.executeAll settings room (first ++ second) machine = .error interrupt middle := by
  rw [executeAll_append, Exec.bind_of_error h]

namespace Output

theorem append_assoc (first second third : Output) :
    first ++ second ++ third = first ++ (second ++ third) := by
  change append (append first second) third = append first (append second third)
  simp [append, String.append_assoc]

theorem ofEvents_append (toFile : Bool) (first second : List Event) :
    ofEvents toFile (first ++ second) = ofEvents toFile first ++ ofEvents toFile second := by
  change _ = append _ _
  simp [ofEvents, append, String.join_append]

end Output

theorem Ending.Like.report?_eq {ending ending' : Ending} (h : ending.Like Token.SameText ending') :
    ending'.report? = ending.report? := by
  cases h with
  | same => rfl
  | fault h => exact congrArg (fun text => some (Diagnostic.runtime text)) h.message_eq

/-- Statements on other lines, started with a past, do what they do without it and end alike. -/
theorem Machine.interpret_relocate_after (settings : Settings) (r : Relocation) (program : List Stmt)
    (environment : Environment) (serial : Nat) (past : List Event) :
    ((start environment serial).interpret settings program).1.Like Token.SameText
        (interpret settings (Stmt.relocateAll r program) ⟨environment, serial, past⟩).1 ∧
      (interpret settings (Stmt.relocateAll r program) ⟨environment, serial, past⟩).2 =
        { ((start environment serial).interpret settings program).2 with
          events := ((start environment serial).interpret settings program).2.events ++ past } := by
  have hT : ∀ s t : Token, s.SameText t → s.kind.Twin t.kind := fun _ _ h => h.kind ▸ .same _
  have hstart : (Retelling.after settings past).pairing.At 1 (start environment serial)
      ⟨environment, serial, past⟩ := ⟨rfl, rfl, rfl⟩
  have hpaired := Machine.paired_interpret hT (fun hcause hm => by
    rw [hcause.message_eq]
    exact (Retelling.after settings past).pairing.log hm _) (Stmt.likeAll_relocate r program) hstart
  obtain ⟨hlike, hlast⟩ := hpaired.resolve_left (fun h => h.1)
  have hevents : _ = _ ++ past := hlast.events
  exact ⟨hlike, by rw [hlast.eq_withEvents, hevents]⟩

namespace Session

theorem run_of_clean {session : Session} {source : String} (rounds : Nat)
    (htree : session.showTree = false) (hclean : staticReports source = []) :
    session.run rounds source = session.reset.execute rounds (programOf source) := by
  unfold run
  change (if staticReports source ≠ [] then _ else if session.reset.showTree then _ else _) = _
  rw [if_neg (not_not_intro hclean), if_neg (by simpa [reset] using htree)]
  rfl

/-- What a session makes of the end of an execution. -/
def conclude (session : Session) (ended : Ending × Machine) : RunResult :=
  let session :=
    { session with environment := ended.2.environment, serial := ended.2.serial }
  let written := Output.ofEvents (session.logFile = .opened) ended.2.events.reverse
  match ended.1.report? with
  | some report => session.reject written [report]
  | none =>
    { verdict := if ended.1 = .completed then .accepted else .cutOff ended.1
      session
      output := written }

theorem execute_eq_conclude (rounds : Nat) (session : Session) (program : List Stmt) :
    session.execute rounds program = session.conclude
      ((Machine.start session.environment session.serial).interpret
        (session.settings rounds) program) := rfl

theorem conclude_accepted_iff (session : Session) (ended : Ending × Machine) :
    (session.conclude ended).verdict = .accepted ↔ ended.1 = .completed := by
  obtain ⟨ending, machine⟩ := ended
  cases ending <;> simp [conclude, Ending.report?, reject]

/-- What was written before an execution stands before all that the execution writes. -/
theorem conclude_after (session : Session) (past : List Event) {ending ending' : Ending}
    (h : ending.Like Token.SameText ending') (machine : Machine) :
    session.conclude (ending', { machine with events := machine.events ++ past }) =
      { session.conclude (ending, machine) with
        output := Output.ofEvents (session.logFile = .opened) past.reverse ++
          (session.conclude (ending, machine)).output } := by
  unfold conclude
  dsimp only
  rw [List.reverse_append, Output.ofEvents_append, h.report?_eq]
  cases hreport : ending.report? with
  | some report => simp only [reject, Output.append_assoc]
  | none =>
    cases h with
    | same => rfl
    | fault => cases hreport

end Session

theorem Machine.interpret_completed {settings : Settings} {program : List Stmt}
    {machine machine' : Machine} (h : machine.interpret settings program = (.completed, machine')) :
    Stmt.executeAll settings settings.stack.limit program machine = .ok () machine' := by
  unfold interpret at h
  split at h <;> cases h
  assumption

/-- Statements behind those of a completed execution go on from the machine it leaves. -/
theorem Machine.interpret_append_of_completed {settings : Settings} {first : List Stmt}
    {machine middle : Machine} (h : machine.interpret settings first = (.completed, middle))
    (second : List Stmt) :
    machine.interpret settings (first ++ second) = middle.interpret settings second := by
  unfold interpret
  rw [Stmt.executeAll_append_of_ok second (interpret_completed h)]

/-- Statements behind those of an execution that did not complete are not executed. -/
theorem Machine.interpret_append_of_not_completed {settings : Settings} {first : List Stmt}
    {machine : Machine} (h : (machine.interpret settings first).1 ≠ .completed)
    (second : List Stmt) :
    machine.interpret settings (first ++ second) = machine.interpret settings first := by
  unfold interpret at h ⊢
  cases hfirst : Stmt.executeAll settings settings.stack.limit first machine with
  | ok _ middle =>
    rw [hfirst] at h
    exact absurd rfl h
  | error interrupt middle => rw [Stmt.executeAll_append_of_error second hfirst]

namespace Session

variable {rounds : Nat} {session : Session} {first : List Stmt}

/-- An accepted program leaves its machine behind and nothing else. -/
theorem execute_of_accepted (h : (session.execute rounds first).verdict = .accepted) :
    ∃ middle, (Machine.start session.environment session.serial).interpret
        (session.settings rounds) first = (.completed, middle) ∧
      session.execute rounds first =
        { verdict := .accepted
          session := { session with environment := middle.environment, serial := middle.serial }
          output := Output.ofEvents (session.logFile = .opened) middle.events.reverse } := by
  rw [execute_eq_conclude, conclude_accepted_iff] at h
  refine ⟨_, Prod.ext h rfl, ?_⟩
  rw [execute_eq_conclude, conclude, h]
  rfl

/-- A program behind one that is accepted runs as it does on its own, from the session that the
first one leaves. -/
theorem execute_append_of_accepted (r : Relocation) (second : List Stmt)
    (h : (session.execute rounds first).verdict = .accepted) :
    session.execute rounds (first ++ Stmt.relocateAll r second) =
      { (session.execute rounds first).session.execute rounds second with
        output := (session.execute rounds first).output ++
          ((session.execute rounds first).session.execute rounds second).output } := by
  obtain ⟨middle, hfirst, hresult⟩ := execute_of_accepted h
  let own := (Machine.start middle.environment middle.serial).interpret (session.settings rounds)
    second
  obtain ⟨hlike, hmachine⟩ := Machine.interpret_relocate_after (session.settings rounds) r second
    middle.environment middle.serial middle.events
  have hended : middle.interpret (session.settings rounds) (Stmt.relocateAll r second) =
      (_, { own.2 with events := own.2.events ++ middle.events }) := Prod.ext rfl hmachine
  rw [execute_eq_conclude, Machine.interpret_append_of_completed hfirst, hresult, hended]
  exact conclude_after session middle.events hlike own.2

/-- A program behind one that is not accepted is not reached. -/
theorem execute_append_of_not_accepted (second : List Stmt)
    (h : (session.execute rounds first).verdict ≠ .accepted) :
    session.execute rounds (first ++ second) = session.execute rounds first := by
  rw [execute_eq_conclude, Ne, conclude_accepted_iff] at h
  rw [execute_eq_conclude, Machine.interpret_append_of_not_completed h]
  rfl

/-- Sources without static reports are joined to one without static reports. If the first is
accepted, running both at once is running one after the other; if not, it is running the first
alone. -/
theorem run_joined (rounds : Nat) (session : Session) (a b : String)
    (htree : session.showTree = false) (ha : staticReports a = []) (hb : staticReports b = []) :
    staticReports (a ++ "\n" ++ b) = [] ∧
      ((session.run rounds a).verdict = .accepted →
        session.run rounds (a ++ "\n" ++ b) =
          { (session.run rounds a).session.run rounds b with
            output := (session.run rounds a).output ++
              ((session.run rounds a).session.run rounds b).output }) ∧
      ((session.run rounds a).verdict ≠ .accepted →
        session.run rounds (a ++ "\n" ++ b) = session.run rounds a) := by
  obtain ⟨hclean, hprogram⟩ := staticReports_join ha hb
  rw [run_of_clean rounds htree ha, run_of_clean rounds htree hclean, hprogram]
  refine ⟨hclean, fun haccepted => ?_, fun hrejected => ?_⟩
  · obtain ⟨middle, -, hresult⟩ := execute_of_accepted haccepted
    have htree' : (session.reset.execute rounds (programOf a)).session.showTree = false := by
      rw [hresult]
      exact htree
    have hreset : (session.reset.execute rounds (programOf a)).session.reset =
        (session.reset.execute rounds (programOf a)).session := by
      rw [hresult]
      rfl
    rw [execute_append_of_accepted _ _ haccepted, run_of_clean rounds htree' hb, hreset]
  · exact execute_append_of_not_accepted _ hrejected

/-- A source that ends in a comment. -/
def noted : String := "var s = \"x\ny\"; // no ; here"

/-- A source whose last statement uses a name that nothing binds. -/
def faulty : String := "print s; \x7b var s = 2; \x7d print t;"

/-- A comment ends with its source, and the fault of the second source is reported in both cases. -/
theorem run_joined_noted_faulty :
    staticReports noted = [] ∧ staticReports faulty = [] ∧
      ((new 0 false).run 8 noted).verdict = .accepted ∧
      (new 0 false).run 8 (noted ++ "\n" ++ faulty) =
        { ((new 0 false).run 8 noted).session.run 8 faulty with
          output := ((new 0 false).run 8 noted).output ++
            (((new 0 false).run 8 noted).session.run 8 faulty).output } := by
  have hnoted : staticReports noted = [] := by decide +kernel
  have hfaulty : staticReports faulty = [] := by decide +kernel
  have haccepted : ((new 0 false).run 8 noted).verdict = .accepted := by decide +kernel
  obtain ⟨-, hboth, -⟩ := run_joined 8 (new 0 false) noted faulty rfl hnoted hfaulty
  exact ⟨hnoted, hfaulty, haccepted, hboth haccepted⟩

end Session

end Lox
