import Lox.Proofs.Verdicts

/-!
# Runs at different verbosities

The verbosity decides which entries are logged and, as long as there is room to log them,
nothing else. A run at a lower verbosity is the run at a higher one retold without the
entries that are above the lower level: both end in the same way, print the same lines and
leave the same scopes, and the log of the first is what is left of the log of the second.

Logging needs room for its calls. A run that comes to its end at a lower verbosity may be
cut off at a higher one, where a value is logged deep inside an expression.
-/
namespace Lox

namespace Event

/-- The entry of an event that is logged. -/
def toEntry : Event → Option Entry
  | printed _ => none
  | logged entry => some entry

/-- Printed lines are told at every verbosity, and an entry from its own level on. -/
def isTold (verbosity : Nat) : Event → Bool
  | printed _ => true
  | logged entry => entry.level ≤ verbosity

@[simp] theorem toEntry_printed (text : String) : (printed text).toEntry = none := rfl

@[simp] theorem toEntry_logged (entry : Entry) : (logged entry).toEntry = some entry := rfl

@[simp] theorem isTold_printed (verbosity : Nat) (text : String) :
    (printed text).isTold verbosity = true := rfl

@[simp] theorem isTold_logged (verbosity : Nat) (entry : Entry) :
    (logged entry).isTold verbosity = decide (entry.level ≤ verbosity) := rfl

theorem filterMap_filter_isTold (verbosity : Nat) (events : List Event) :
    (events.filter (isTold verbosity)).filterMap toEntry =
      (events.filterMap toEntry).filter (·.level ≤ verbosity) := by
  induction events with
  | nil => rfl
  | cons event rest ih =>
    cases event with
    | printed text =>
      rw [List.filter_cons_of_pos rfl, List.filterMap_cons_none rfl, List.filterMap_cons_none rfl,
        ih]
    | logged entry => by_cases h : entry.level ≤ verbosity <;> simp [h, ih]

end Event

namespace Output

/-- The lines of log entries. -/
def logText (entries : List Entry) : String := String.join (entries.map (·.text ++ "\n"))

theorem stdout_ofEvents_cons (toFile : Bool) (event : Event) (rest : List Event) :
    (ofEvents toFile (event :: rest)).stdout =
      (ofEvent toFile event).stdout ++ (ofEvents toFile rest).stdout := String.join_cons

theorem log_ofEvents_cons (toFile : Bool) (event : Event) (rest : List Event) :
    (ofEvents toFile (event :: rest)).log =
      (ofEvent toFile event).log ++ (ofEvents toFile rest).log := String.join_cons

theorem log_ofEvents (events : List Event) :
    (ofEvents true events).log = logText (events.filterMap Event.toEntry) := by
  induction events with
  | nil => rfl
  | cons event rest ih =>
    rw [log_ofEvents_cons, ih]
    cases event with
    | printed text => exact String.empty_append
    | logged entry =>
      have hentry := Event.toEntry_logged entry
      unfold logText
      rw [List.filterMap_cons_some hentry, List.map_cons, String.join_cons]
      rfl

/-- Entries that go to a file do not show on the output. -/
theorem stdout_filter_isTold (verbosity : Nat) (events : List Event) :
    (ofEvents true (events.filter (Event.isTold verbosity))).stdout =
      (ofEvents true events).stdout := by
  induction events with
  | nil => rfl
  | cons event rest ih =>
    have hlogged (entry : Entry) : (ofEvent true (.logged entry)).stdout = "" := rfl
    rw [stdout_ofEvents_cons, ← ih, List.filter_cons]
    cases event with
    | printed text => rw [if_pos (Event.isTold_printed verbosity text), stdout_ofEvents_cons]
    | logged entry => split <;> simp [stdout_ofEvents_cons, hlogged]

/-- Where entries would go does not matter if there are none. -/
theorem ofEvents_of_no_entries (toFile : Bool) {events : List Event}
    (h : events.filterMap Event.toEntry = []) : ofEvents toFile events = ofEvents true events := by
  have hsame : ∀ event ∈ events, ofEvent toFile event = ofEvent true event := by
    intro event hmem
    cases event with
    | printed text => rfl
    | logged entry => cases List.filterMap_eq_nil_iff.1 h _ hmem
  unfold ofEvents
  rw [List.map_congr_left fun event hmem => congrArg stdout (hsame event hmem),
    List.map_congr_left fun event hmem => congrArg log (hsame event hmem)]

end Output

/-- The events at a verbosity are those at a higher one without the entries above the lower. -/
def Retelling.quieter {low high : Nat} (rounds : Nat) (stack : Stack) (h : low ≤ high) :
    Retelling ⟨low, rounds, stack⟩ ⟨high, rounds, stack⟩ where
  Told events events' := events = events'.filter (Event.isTold low)
  MayCut := low < high
  logsMore := ⟨rfl, rfl, h⟩
  exact := (Nat.lt_or_eq_of_le h).imp_right fun heq => by rw [heq]
  print htold text := by rw [htold, List.filter_cons_of_pos (Event.isTold_printed low text)]
  log htold entry := by
    unfold Machine.log
    by_cases hlow : entry.level ≤ low
    · have hhigh : entry.level ≤ high := by omega
      simp [hlow, hhigh, htold]
    · by_cases hhigh : entry.level ≤ high <;> simp [hlow, hhigh, htold]

namespace Machine

variable (environment : Environment) (serial rounds : Nat) (stack : Stack) (program : List Stmt)

/-- An execution at a lower verbosity is the one at the higher retold, unless this is cut off. -/
theorem interpret_quieter {low high : Nat} (h : low ≤ high)
    (hroom : low = high ∨
      ((start environment serial).interpret ⟨high, rounds, stack⟩ program).1 ≠ .tooDeep) :
    let loud := (start environment serial).interpret ⟨high, rounds, stack⟩ program
    (start environment serial).interpret ⟨low, rounds, stack⟩ program =
      (loud.1, { loud.2 with events := loud.2.events.filter (Event.isTold low) }) := by
  intro loud
  have hT : ∀ s t : Token, s = t → s.kind.Twin t.kind := fun s t h => h ▸ .same _
  have hpaired := paired_interpret (p := (Retelling.quieter rounds stack h).pairing) (n := 0) hT
    (fun hcause hm => by
      rw [hcause.eq]
      exact (Retelling.quieter rounds stack h).pairing.log hm _)
    (Stmt.likeAll_rfl program) (m := start environment serial) ⟨rfl, rfl, rfl⟩
  obtain ⟨hending, hlast⟩ := hpaired.resolve_left fun hcut =>
    (hroom.resolve_left (Nat.ne_of_lt hcut.1)) hcut.2
  refine Prod.ext hending.eq.symm ?_
  have hevents : _ = loud.2.events.filter (Event.isTold low) := hlast.events
  dsimp only
  rw [← hevents, hlast.environment, hlast.serial]

/-- No entry above the verbosity is logged. -/
theorem level_le_of_interpret {verbosity : Nat} {entry : Entry}
    (h : .logged entry ∈
      ((start environment serial).interpret ⟨verbosity, rounds, stack⟩ program).2.events) :
    entry.level ≤ verbosity := by
  rw [interpret_quieter environment serial rounds stack program (le_refl verbosity) (.inl rfl)] at h
  simpa using (List.mem_filter.1 h).2

/-- If there is a file for the entries whenever some are asked for, none goes to the output. -/
theorem ofEvents_interpret {verbosity : Nat} {logFile : LogFile}
    (hfile : 0 < verbosity → logFile = .opened) :
    Output.ofEvents (logFile = .opened) ((start environment serial).interpret
        ⟨verbosity, rounds, stack⟩ program).2.events.reverse =
      Output.ofEvents true ((start environment serial).interpret
        ⟨verbosity, rounds, stack⟩ program).2.events.reverse := by
  by_cases hpos : 0 < verbosity
  · simp [hfile hpos]
  · apply Output.ofEvents_of_no_entries
    rw [List.filterMap_eq_nil_iff]
    intro event hmem
    cases event with
    | printed text => rfl
    | logged entry =>
      have hle := level_le_of_interpret environment serial rounds stack program
        (List.mem_reverse.1 hmem)
      have hlevel := entry.level_pos
      omega

end Machine

namespace Session

/-- The entries that a run logs, in order. -/
def entries (rounds : Nat) (session : Session) (source : String) : List Entry :=
  (session.events rounds source).filterMap Event.toEntry

/-- A session with another verbosity and another log file. -/
def tuned (session : Session) (verbosity : Nat) (logFile : LogFile) : Session :=
  { session with verbosity, logFile }

variable (rounds : Nat) (session : Session) (source : String) {low high : Nat}

theorem settings_tuned (verbosity : Nat) (logFile : LogFile) :
    (session.tuned verbosity logFile).settings rounds = ⟨verbosity, rounds, session.stack⟩ := rfl

/-- A run that executes nothing does not look at the verbosity. -/
theorem run_tuned_of_not_executed (verbosity : Nat) (logFile : LogFile)
    (h : staticReports source ≠ [] ∨ session.showTree = true) :
    (session.tuned verbosity logFile).run rounds source =
      ⟨(session.run rounds source).verdict,
        (session.run rounds source).session.tuned verbosity logFile,
        (session.run rounds source).output⟩ := by
  by_cases hclean : staticReports source = []
  · have htree := h.resolve_left (not_not_intro hclean)
    have hstack : (session.tuned verbosity logFile).reset.stack = session.reset.stack := rfl
    have htuned := (session.tuned verbosity logFile).run_of_tree rounds source hclean htree
    rw [htuned, session.run_of_tree rounds source hclean htree]
    unfold showProgram
    rw [hstack]
    split <;> rfl
  · obtain ⟨-, -, hrun⟩ := session.stopped_of_faulty rounds source hclean
    obtain ⟨-, -, htuned⟩ :=
      (session.tuned verbosity logFile).stopped_of_faulty rounds source hclean
    rw [hrun, htuned]
    rfl

/-- A run with a file for its entries writes them to it, and nothing else. -/
theorem run_tuned_of_clean {verbosity : Nat} {logFile : LogFile}
    (hfile : 0 < verbosity → logFile = .opened) (hclean : staticReports source = [])
    (htree : session.showTree = false) :
    let start := Machine.start session.environment session.serial
    let ended := start.interpret ⟨verbosity, rounds, session.stack⟩ (programOf source)
    (session.tuned verbosity logFile).run rounds source =
      { verdict := ended.1.verdict
        session :=
          { session.tuned verbosity logFile with
            environment := ended.2.environment
            serial := ended.2.serial
            flags := Flags.clear.noteAll ended.1.report?.toList }
        output := Output.ofEvents true ended.2.events.reverse ++
          Output.report (String.join (ended.1.report?.toList.map Diagnostic.text)) } := by
  intro start ended
  obtain ⟨-, -, hrun⟩ :=
    (session.tuned verbosity logFile).executed_of_clean rounds source hclean htree
  have hevents := Machine.ofEvents_interpret session.environment session.serial rounds
    session.stack (programOf source) hfile
  rw [hrun, conclude_eq, ← hevents]
  rfl

theorem entries_of_not_executed (h : staticReports source ≠ [] ∨ session.showTree = true) :
    session.entries rounds source = [] := by
  unfold entries events
  rw [if_neg fun hboth => h.elim (fun hfaulty => hfaulty hboth.1) (by simp [hboth.2])]
  rfl

theorem entries_of_clean (hclean : staticReports source = []) (htree : session.showTree = false) :
    session.entries rounds source =
      ((Machine.start session.environment session.serial).interpret (session.settings rounds)
        (programOf source)).2.events.reverse.filterMap Event.toEntry := by
  unfold entries events
  rw [if_pos ⟨hclean, htree⟩]

/-- The log of a run is the lines of its entries. -/
theorem log_run_tuned {verbosity : Nat} {logFile : LogFile}
    (hfile : 0 < verbosity → logFile = .opened) :
    ((session.tuned verbosity logFile).run rounds source).output.log =
      Output.logText ((session.tuned verbosity logFile).entries rounds source) := by
  by_cases h : staticReports source ≠ [] ∨ session.showTree = true
  · rw [entries_of_not_executed rounds (session.tuned verbosity logFile) source h,
      (run_not_executed rounds (session.tuned verbosity logFile) source h).2]
    rfl
  · rw [not_or, not_not, Bool.not_eq_true] at h
    rw [run_tuned_of_clean rounds session source hfile h.1 h.2,
      entries_of_clean rounds (session.tuned verbosity logFile) source h.1 h.2,
      ← Output.log_ofEvents]
    exact String.append_empty

/-- A run that executes its program and does not report that it was cut off has not been. -/
theorem interpret_ne_tooDeep (hclean : staticReports source = []) (htree : session.showTree = false)
    (h : session.reported rounds source ≠ [.runtime Ending.tooDeepMessage]) :
    ((Machine.start session.environment session.serial).interpret (session.settings rounds)
      (programOf source)).1 ≠ .tooDeep := by
  intro hcut
  obtain ⟨hreported, -⟩ := session.executed_of_clean rounds source hclean htree
  rw [hcut] at hreported
  exact h hreported

/-- Running a source at two verbosities, with a log file open wherever there is something to log,
gives the same verdict, the same output, the same reports and the same session but for the verbosity
and the file. What the lower verbosity logs is what the higher one logs without the entries above
the lower level. This is so unless the program is executed and the higher verbosity leaves no room
for its calls. -/
theorem run_verbosity {lowFile highFile : LogFile} (h : low ≤ high)
    (hlow : 0 < low → lowFile = .opened)
    (hhigh : 0 < high → highFile = .opened)
    (hroom : low < high → session.showTree = false →
      (session.tuned high highFile).reported rounds source ≠ [.runtime Ending.tooDeepMessage]) :
    let quiet := (session.tuned low lowFile).run rounds source
    let loud := (session.tuned high highFile).run rounds source
    quiet.verdict = loud.verdict ∧ quiet.output.stdout = loud.output.stdout ∧
      quiet.output.stderr = loud.output.stderr ∧
      quiet.session = loud.session.tuned low lowFile ∧
      quiet.output.log = Output.logText ((session.tuned low lowFile).entries rounds source) ∧
      loud.output.log = Output.logText ((session.tuned high highFile).entries rounds source) ∧
      (session.tuned low lowFile).entries rounds source =
        ((session.tuned high highFile).entries rounds source).filter (·.level ≤ low) := by
  intro quiet loud
  have hquietLog := session.log_run_tuned rounds source hlow
  have hloudLog := session.log_run_tuned rounds source hhigh
  suffices hsame : quiet.verdict = loud.verdict ∧ quiet.output.stdout = loud.output.stdout ∧
      quiet.output.stderr = loud.output.stderr ∧ quiet.session = loud.session.tuned low lowFile ∧
      (session.tuned low lowFile).entries rounds source =
        ((session.tuned high highFile).entries rounds source).filter (·.level ≤ low) by
    obtain ⟨hverdict, hstdout, hstderr, hsession, hentries⟩ := hsame
    exact ⟨hverdict, hstdout, hstderr, hsession, hquietLog, hloudLog, hentries⟩
  by_cases hrun : staticReports source ≠ [] ∨ session.showTree = true
  · have hquiet : quiet = _ := session.run_tuned_of_not_executed rounds source low lowFile hrun
    have hloud : loud = _ := session.run_tuned_of_not_executed rounds source high highFile hrun
    rw [hquiet, hloud, entries_of_not_executed rounds (session.tuned low lowFile) source hrun,
      entries_of_not_executed rounds (session.tuned high highFile) source hrun]
    exact ⟨rfl, rfl, rfl, rfl, rfl⟩
  · rw [not_or, not_not, Bool.not_eq_true] at hrun
    obtain ⟨hclean, htree⟩ := hrun
    have hends : low = high ∨ ((Machine.start session.environment session.serial).interpret
        ⟨high, rounds, session.stack⟩ (programOf source)).1 ≠ .tooDeep :=
      h.eq_or_lt.imp_right fun hlt =>
        (session.tuned high highFile).interpret_ne_tooDeep rounds source hclean htree
          (hroom hlt htree)
    have hquieter := Machine.interpret_quieter session.environment session.serial rounds
      session.stack (programOf source) h hends
    have hquiet : quiet = _ := session.run_tuned_of_clean rounds source hlow hclean htree
    have hloud : loud = _ := session.run_tuned_of_clean rounds source hhigh hclean htree
    rw [hquieter] at hquiet
    rw [hquiet, hloud, entries_of_clean rounds (session.tuned low lowFile) source hclean htree,
      entries_of_clean rounds (session.tuned high highFile) source hclean htree,
      ← Event.filterMap_filter_isTold, List.filter_reverse, settings_tuned, settings_tuned]
    refine ⟨rfl, ?_, rfl, rfl, ?_⟩
    · dsimp only
      rw [← List.filter_reverse]
      exact congrArg (· ++ "") (Output.stdout_filter_isTold low _)
    · exact congrArg (fun ended => ended.2.events.reverse.filterMap Event.toEntry) hquieter

/-- A source that logs entries of every level and ends by a fault in a scope. -/
def talkative : String := "var a = 1; if (a < 2) { a = 3; print a + nil; } print a;"

/-- The quiet log has only the forms that were executed and the fault. -/
theorem run_verbosity_talkative :
    (1 : Nat) ≤ 3 ∧
      (((new 0 false).tuned 1 .opened).run 4 talkative).verdict =
        (((new 0 false).tuned 3 .opened).run 4 talkative).verdict ∧
      ((new 0 false).tuned 1 .opened).entries 4 talkative =
        (((new 0 false).tuned 3 .opened).entries 4 talkative).filter (·.level ≤ 1) ∧
      ((new 0 false).tuned 1 .opened).entries 4 talkative ≠
        ((new 0 false).tuned 3 .opened).entries 4 talkative := by
  have hle : (1 : Nat) ≤ 3 := by decide
  have hroom : ((new 0 false).tuned 3 .opened).reported 4 talkative ≠
      [.runtime Ending.tooDeepMessage] := by decide +kernel
  obtain ⟨hverdict, -, -, -, -, -, hentries⟩ := run_verbosity 4 (new 0 false) talkative hle
    (fun _ => rfl) (fun _ => rfl) fun _ _ => hroom
  exact ⟨hle, hverdict, hentries, by decide +kernel⟩

/-- The characters of `var a = 0; print (a = 1) + 1 + ... + 1; print a;` with 992 additions. -/
def longSumChars : List Char :=
  "var a = 0; print (a = 1)".toList ++ (List.replicate 992 " + 1".toList).flatten ++
    "; print a;".toList

/-- A source that evaluates an assignment as deep inside an expression as there is room for. -/
def longSum : String := String.ofList longSumChars

/-- Where the assignment is logged, there is no room left to make the text of its value. -/
theorem run_verbosity_longSum :
    (((new 0 false).tuned 0 .absent).run 1 longSum).verdict = .accepted ∧
      (((new 0 false).tuned 2 .opened).run 1 longSum).verdict = .rejected := by
  have hstream : TokenStream.ofSource longSum = .ofSegments 1 (Segment.split longSumChars) := by
    rw [TokenStream.ofSource, longSum, String.toList_ofList]
  have hclean : staticReports longSum = [] := by
    rw [staticReports, hstream]
    decide +kernel
  rw [run_of_clean 1 rfl hclean, run_of_clean 1 rfl hclean, programOf, hstream]
  decide +kernel

end Session

end Lox
