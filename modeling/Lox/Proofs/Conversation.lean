import Lox.Prompt
import Mathlib.Tactic

/-!
# Conversations

A conversation at the prompt is a series of runs. Its lines are taken up to the first
one that is nothing but `exit` or `EOF`, with the blanks around each removed. The lines
that are not empty are run as sources, each in the session that the one before it leaves.
What the runs print stands behind the marks of their lines.
-/
namespace Lox

/-- The results of running sources one after another. -/
def Session.runs (rounds : Nat) (session : Session) : List String → List RunResult
  | [] => []
  | source :: rest =>
    let result := session.run rounds source
    result :: result.session.runs rounds rest

/-- The session that sources leave when they are run one after another. -/
def Session.afterRuns (rounds : Nat) (session : Session) (sources : List String) : Session :=
  sources.foldl (fun session source => (session.run rounds source).session) session

namespace Prompt

/-- The texts between the line feeds of an input, without an empty one behind the last. -/
def typed (input : List Char) : List (List Char) :=
  let texts := input.splitOn '\n'
  if texts.getLast? = some [] then texts.dropLast else texts

/-- A line without the blanks around it. -/
def trimmed (line : List Char) : String := String.ofList (Text.strip line)

/-- The text ends a conversation. -/
def isFarewell (text : String) : Bool := text == "exit" || text == "EOF"

/-- The lines before the first one that ends the conversation. -/
def taken (lines : List (List Char)) : List String :=
  (lines.map trimmed).takeWhile fun text => !isFarewell text

/-- The line that ends the conversation, if there is one before the end of the input. -/
def farewell? (lines : List (List Char)) : Option String := (lines.map trimmed).find? isFarewell

/-- The lines that are run. -/
def sources (texts : List String) : List String := texts.filter (· ≠ "")

/-- What is written for lines, if `printed` are the outputs of those that are run. -/
def transcript : List String → List String → String
  | [], _ => ""
  | text :: rest, printed =>
    if text = "" then mark ++ transcript rest printed
    else mark ++ printed.headD "" ++ transcript rest printed.tail

/-! ### Lines -/

/-- The lines of a text are what stands between its line feeds. -/
theorem lines_eq_typed (cs : List Char) : lines cs = typed cs := by
  induction cs with
  | nil => rfl
  | cons c rest ih =>
    have hne : rest.splitOn '\n' ≠ [] := List.splitOn_ne_nil _ _
    obtain ⟨line, others, hsplit⟩ := List.exists_cons_of_ne_nil hne
    by_cases hc : c = '\n'
    · subst hc
      have hcons : ('\n' :: rest).splitOn '\n' = [] :: rest.splitOn '\n' := by
        simp [List.splitOn, List.splitOnP_cons_eq_if_modifyHead]
      rw [lines, if_pos rfl, ih]
      unfold typed
      simp only [hcons, hsplit, List.getLast?_cons_cons, List.dropLast_cons_cons]
      split <;> rfl
    · have hcons : (c :: rest).splitOn '\n' = (c :: line) :: others := by
        have hmodify : (c :: rest).splitOn '\n' = (rest.splitOn '\n').modifyHead (c :: ·) := by
          simp [List.splitOn, List.splitOnP_cons_eq_if_modifyHead, hc]
        rw [hmodify, hsplit, List.modifyHead_cons]
      rw [lines, if_neg hc, ih]
      unfold typed
      simp only [hcons, hsplit]
      cases others with
      | nil =>
        -- the last line is not empty any more once a character stands before it
        cases line <;> simp
      | cons next more =>
        simp only [List.getLast?_cons_cons, List.dropLast_cons_cons]
        by_cases hlast : (next :: more).getLast? = some [] <;> simp [hlast]

/-! ### Single lines -/

variable {rounds : Nat} {session : Session} {line : List Char}

theorem trimmed_eq_iff {text : String} : trimmed line = text ↔ Text.strip line = text.toList := by
  rw [trimmed, ← String.toList_inj, String.toList_ofList]

theorem respond_empty (h : trimmed line = "") :
    respond rounds session line = ⟨false, session, .empty⟩ := by
  have hstrip : Text.strip line = [] := trimmed_eq_iff.1 h
  simp [respond, Request.ofLine, hstrip]

theorem respond_farewell (h : isFarewell (trimmed line) = true) :
    respond rounds session line =
      ⟨true, session, .print (if trimmed line = "exit" then "" else "\n")⟩ := by
  have hcases : trimmed line = "exit" ∨ trimmed line = "EOF" := by
    simpa [isFarewell] using h
  rcases hcases with hword | hword
  · have hstrip : Text.strip line = ['e', 'x', 'i', 't'] := trimmed_eq_iff.1 hword
    have hrequest : Request.ofLine line = .leave false := by
      unfold Request.ofLine
      rw [hstrip]
      decide
    simp [respond, hrequest, hword]
  · have hstrip : Text.strip line = ['E', 'O', 'F'] := trimmed_eq_iff.1 hword
    have hrequest : Request.ofLine line = .leave true := by
      unfold Request.ofLine
      rw [hstrip]
      decide
    simp [respond, hrequest, hword]

/-- A line that is not empty, ends nothing and asks for no help is run. -/
theorem respond_source (hempty : trimmed line ≠ "") (hstays : isFarewell (trimmed line) = false)
    (hhelp : (trimmed line).toList.head? ≠ some '?') :
    respond rounds session line =
      ⟨false, (session.run rounds (trimmed line)).session,
        (session.run rounds (trimmed line)).output⟩ := by
  obtain ⟨hexit, heof⟩ : trimmed line ≠ "exit" ∧ trimmed line ≠ "EOF" := by
    simpa [isFarewell] using hstays
  have hrequest : Request.ofLine line = .run (trimmed line) := by
    unfold Request.ofLine
    split
    · next hstrip => exact absurd (trimmed_eq_iff.2 hstrip) hempty
    · next rest hstrip => simp [trimmed, hstrip] at hhelp
    · unfold trimmed at hexit heof ⊢
      simp [hexit, heof]
  simp [respond, hrequest]

/-- A question mark in front of a line is run as the word `help`. -/
theorem respond_question {rest : List Char} (h : (trimmed line).toList = '?' :: rest) :
    let result := session.run rounds ("help " ++ String.ofList rest)
    respond rounds session line = ⟨false, result.session, result.output⟩ := by
  have hstrip : Text.strip line = '?' :: rest := by rwa [trimmed, String.toList_ofList] at h
  have hrequest : Request.ofLine line = .run ("help " ++ String.ofList rest) := by
    unfold Request.ofLine
    rw [hstrip]
    rfl
  simp [respond, hrequest]

theorem stop_respond (rounds : Nat) (session : Session) (line : List Char) :
    (respond rounds session line).stop = isFarewell (trimmed line) := by
  cases hleaves : isFarewell (trimmed line) with
  | true => rw [respond_farewell hleaves]
  | false =>
    by_cases hempty : trimmed line = ""
    · rw [respond_empty hempty]
    by_cases hhelp : (trimmed line).toList.head? = some '?'
    · obtain ⟨rest, hrest⟩ := List.head?_eq_some_iff.1 hhelp
      rw [respond_question hrest]
    · rw [respond_source hempty hleaves hhelp]

/-- A line asks to stop if it is nothing but `exit` or `EOF`, an empty line does nothing, and any
other line that does not begin with a question mark is run as it stands. Of a line that does, the
question mark is replaced by the word `help` before it is run. -/
theorem respond_line (rounds : Nat) (session : Session) (line : List Char) :
    let text := trimmed line
    let reply := respond rounds session line
    (reply.stop = true ↔ text = "exit" ∨ text = "EOF") ∧
      (text = "" → reply = ⟨false, session, .empty⟩) ∧
      (text ≠ "" → text ≠ "exit" → text ≠ "EOF" → text.toList.head? ≠ some '?' →
        reply.session = (session.run rounds text).session ∧
          reply.output = (session.run rounds text).output) ∧
      ∀ rest, text.toList = '?' :: rest →
        let result := session.run rounds ("help " ++ String.ofList rest)
        reply.session = result.session ∧ reply.output = result.output := by
  intro text reply
  refine ⟨?_, respond_empty, fun hempty hexit heof hhelp => ?_, fun rest hrest => ?_⟩
  · rw [show reply.stop = isFarewell text from stop_respond rounds session line]
    simp [isFarewell]
  · have hstays : isFarewell text = false := by simp [isFarewell, hexit, heof]
    have hreply : reply = ⟨false, _, _⟩ := respond_source hempty hstays hhelp
    exact ⟨congrArg Reply.session hreply, congrArg Reply.output hreply⟩
  · have hreply : reply = ⟨false, _, _⟩ := respond_question hrest
    exact ⟨congrArg Reply.session hreply, congrArg Reply.output hreply⟩

/-- A session in which `help` is a name. -/
def helpDeclared : Session := ((Session.new 0 false).run 4 "var help = nil;").session

/-- A line with a word for leaving in it is run, and so is one with a question mark, with a word in
its place. -/
theorem respond_line_question :
    (respond 4 helpDeclared " print exit; ".toList).output =
        (helpDeclared.run 4 "print exit;").output ∧
      (respond 4 helpDeclared "? = true;".toList).session =
        (helpDeclared.run 4 "help  = true;").session := by
  obtain ⟨-, -, hsource, -⟩ := respond_line 4 helpDeclared " print exit; ".toList
  obtain ⟨-, -, -, hquestion⟩ := respond_line 4 helpDeclared "? = true;".toList
  have htrim : trimmed " print exit; ".toList = "print exit;" := by decide +kernel
  rw [htrim] at hsource
  exact ⟨(hsource (by decide) (by decide) (by decide) (by decide)).2,
    (hquestion " = true;".toList (by decide +kernel)).1⟩

/-- The line `? = true;` is no source, and yet it sets the name `help`. -/
theorem respond_question_ne_run :
    (respond 4 helpDeclared "? = true;".toList).session.environment.get? "help" =
        some (.boolean true) ∧
      (respond 4 helpDeclared "? = true;".toList).output.stderr = "" ∧
      (helpDeclared.run 4 "? = true;").session.environment.get? "help" = some .nil ∧
      (helpDeclared.run 4 "? = true;").output.stderr =
        "[line 1] Error: Unexpected character: '?'.\n" ++
          "[line 1] Error: Expect expression.\nAbout: =\n" := by decide +kernel

/-! ### Whole conversations -/

/-- What a conversation leaves, by the texts that are taken and the line that ends it. -/
def outcome (rounds : Nat) (session : Session) (texts : List String) (last? : Option String) :
    Session × Output :=
  let results := session.runs rounds (sources texts)
  (session.afterRuns rounds (sources texts),
    { stdout := transcript texts (results.map (·.output.stdout)) ++ mark ++
        (if last? = some "exit" then "" else "\n")
      stderr := String.join (results.map (·.output.stderr))
      log := String.join (results.map (·.output.log)) })

theorem outcome_nil (rounds : Nat) (session : Session) (last? : Option String) :
    outcome rounds session [] last? =
      (session, .print (mark ++ if last? = some "exit" then "" else "\n")) := by
  simp [outcome, sources, Session.runs, Session.afterRuns, transcript, Output.print, Output.empty]

theorem outcome_cons_empty (rounds : Nat) (session : Session) (rest : List String)
    (last? : Option String) :
    outcome rounds session ("" :: rest) last? =
      ((outcome rounds session rest last?).1,
        .print mark ++ .empty ++ (outcome rounds session rest last?).2) := by
  have hsources : sources ("" :: rest) = sources rest := rfl
  change _ = (_, Output.append (Output.append _ _) _)
  simp [outcome, hsources, transcript, Output.append, Output.print, Output.empty,
    String.append_assoc]

theorem outcome_cons_source (rounds : Nat) (session : Session) {text : String}
    (rest : List String) (last? : Option String) (h : text ≠ "") :
    let result := session.run rounds text
    outcome rounds session (text :: rest) last? =
      ((outcome rounds result.session rest last?).1,
        .print mark ++ result.output ++ (outcome rounds result.session rest last?).2) := by
  have hsources : sources (text :: rest) = text :: sources rest := by simp [sources, h]
  intro result
  change _ = (_, Output.append (Output.append _ _) _)
  simp [outcome, hsources, transcript, h, Session.runs, Session.afterRuns, Output.append,
    Output.print, Output.empty, String.append_assoc, result]

/-- Line by line, a conversation is the series of its runs. -/
theorem serveLines_eq_outcome (rounds : Nat) (session : Session) (lines : List (List Char))
    (hhelp : ∀ text ∈ taken lines, text.toList.head? ≠ some '?') :
    serveLines rounds session lines = outcome rounds session (taken lines) (farewell? lines) := by
  induction lines generalizing session with
  | nil => exact (outcome_nil rounds session none).symm
  | cons line rest ih =>
    by_cases hleaves : isFarewell (trimmed line) = true
    · have htaken : taken (line :: rest) = [] := by simp [taken, hleaves]
      have hlast : farewell? (line :: rest) = some (trimmed line) := by simp [farewell?, hleaves]
      rw [serveLines, respond_farewell hleaves, htaken, hlast, outcome_nil]
      simp only [if_true, Option.some.injEq]
      rfl
    · rw [Bool.not_eq_true] at hleaves
      have htaken : taken (line :: rest) = trimmed line :: taken rest := by simp [taken, hleaves]
      have hlast : farewell? (line :: rest) = farewell? rest := by simp [farewell?, hleaves]
      rw [htaken] at hhelp
      obtain ⟨hfirst, hothers⟩ := List.forall_mem_cons.1 hhelp
      rw [serveLines, htaken, hlast]
      by_cases hempty : trimmed line = ""
      · rw [respond_empty hempty, hempty, outcome_cons_empty, ← ih session hothers]
        rfl
      · rw [respond_source hempty hleaves hfirst, outcome_cons_source _ _ _ _ hempty,
          ← ih _ hothers]
        rfl

/-- A conversation without questions leaves the session of its runs, and writes to the error stream
and to the log what they write. The output is the introduction, each line's mark with what its
run prints, and one more mark, with a line feed unless the conversation was left by `exit`. -/
theorem serve_eq_runs (rounds : Nat) (session : Session) (input : String)
    (hhelp : ∀ text ∈ taken (typed input.toList), text.toList.head? ≠ some '?') :
    let texts := taken (typed input.toList)
    let results := session.runs rounds (sources texts)
    let left := serve rounds session input
    left.1 = session.afterRuns rounds (sources texts) ∧
      left.2.stderr = String.join (results.map (·.output.stderr)) ∧
      left.2.log = String.join (results.map (·.output.log)) ∧
      left.2.stdout = intro ++ transcript texts (results.map (·.output.stdout)) ++ mark ++
        (if farewell? (typed input.toList) = some "exit" then "" else "\n") := by
  intro texts results left
  have hserve := serveLines_eq_outcome rounds session (typed input.toList) hhelp
  have hleft : left = ((serveLines rounds session (typed input.toList)).1,
      .print intro ++ (serveLines rounds session (typed input.toList)).2) := by
    rw [← lines_eq_typed]
    rfl
  rw [hleft, hserve]
  refine ⟨rfl, String.empty_append, String.empty_append, ?_⟩
  change intro ++ (outcome rounds session _ _).2.stdout = _
  simp only [outcome, String.append_assoc, texts, results]

/-- An input with an empty line, a line that fails, a name that starts like the word for leaving,
and more text behind that word. -/
def wandering : String := "var exits = nil;\n \t\nprint exits; \r\n!true;\n exit \nprint 2;"

/-- The runs share one session, and nothing behind the word for leaving is run. -/
theorem serve_wandering :
    taken (typed wandering.toList) = ["var exits = nil;", "", "print exits;", "!true;"] ∧
      (serve 4 (.new 0 false) wandering).2.stdout = intro ++ "> > > nil\n> > " ∧
      (serve 4 (.new 0 false) wandering).1 =
        Session.afterRuns 4 (.new 0 false) ["var exits = nil;", "print exits;", "!true;"] := by
  have htaken : taken (typed wandering.toList) =
      ["var exits = nil;", "", "print exits;", "!true;"] := by decide +kernel
  have hhelp : ∀ text ∈ taken (typed wandering.toList), text.toList.head? ≠ some '?' := by
    decide +kernel
  have hlast : farewell? (typed wandering.toList) = some "exit" := by decide +kernel
  have hprinted : ((Session.new 0 false).runs 4 ["var exits = nil;", "print exits;", "!true;"]).map
      (·.output.stdout) = ["", "nil\n", ""] := by decide +kernel
  have hsources : sources ["var exits = nil;", "", "print exits;", "!true;"] =
      ["var exits = nil;", "print exits;", "!true;"] := by decide +kernel
  obtain ⟨hfinal, -, -, hstdout⟩ := serve_eq_runs 4 (.new 0 false) wandering hhelp
  rw [htaken, hsources] at hfinal hstdout
  rw [hprinted, hlast] at hstdout
  exact ⟨htaken, hstdout, hfinal⟩

end Prompt

end Lox
