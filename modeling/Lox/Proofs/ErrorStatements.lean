import Lox.Proofs.Reporting
import Lox.Proofs.Progress

/-!
# Error statements and reports

A statement that cannot be read is reported, and an error statement takes its place in
the program. If a construct around it fails later, what stood inside is dropped, and an
error statement for the whole takes the place of all. So the error statements of a program
are some of the faults that have been reported, in the order of the reports, and there is
at least one of them unless every fault could be passed over.
-/
namespace Lox

/-- The error is reported and passed over, and what it is in can be read all the same. -/
def SyntaxError.isTolerated : SyntaxError → Bool
  | assignmentTarget | tooManyParameters => true
  | expected _ | tooDeep | outsideLoop _ => false

/-- The messages of the errors that are passed over. -/
def SyntaxError.toleratedMessages : List String :=
  ["Invalid assignment target.", "Can't have more than 255 parameters."]

theorem SyntaxError.message_mem_toleratedMessages (error : SyntaxError) :
    error.message ∈ toleratedMessages ↔ error.isTolerated = true := by
  -- the other messages differ in one of their first seven characters
  have hne : ∀ {s t : String}, s.toList.take 7 ≠ t.toList.take 7 → s ≠ t := by
    rintro s t h rfl
    exact h rfl
  cases error with
  | expected what =>
    have htarget : "Expect " ++ what ++ "." ≠ "Invalid assignment target." := hne (by simp)
    have hparameters : "Expect " ++ what ++ "." ≠ "Can't have more than 255 parameters." :=
      hne (by simp)
    simp [message, toleratedMessages, isTolerated, htarget, hparameters]
  | outsideLoop word =>
    have htarget : "Can't use '" ++ word ++ "' outside of a loop." ≠
        "Invalid assignment target." := hne (by simp)
    have hparameters : "Can't use '" ++ word ++ "' outside of a loop." ≠
        "Can't have more than 255 parameters." := hne (by simp)
    simp [message, toleratedMessages, isTolerated, htarget, hparameters]
  | tooDeep => decide
  | assignmentTarget => decide
  | tooManyParameters => decide

/-- What an error statement keeps of a fault. -/
def SyntaxFault.mark (fault : SyntaxFault) : Token × String := (fault.token, fault.error.message)

mutual

/-- The tokens and messages of the error statements in a statement, in the order of the source. -/
def Stmt.errors : Stmt → List (Token × String)
  | .error token message => [(token, message)]
  | .block body => Stmt.errorsAll body
  | .ifThen _ body => Stmt.errorsAll body
  | .ifElse _ body alternative => Stmt.errorsAll body ++ Stmt.errorsAll alternative
  | .whileLoop _ body _ => Stmt.errorsAll body
  | .functionDecl function => function.errors
  | .classDecl _ _ methods => Function.errorsAll methods
  | .expression _ | .print _ | .varDecl .. | .returnValue .. | .breakLoop _ | .continueLoop _
  | .empty => []

/-- The tokens and messages of the error statements in a list of statements. -/
def Stmt.errorsAll : List Stmt → List (Token × String)
  | [] => []
  | stmt :: rest => stmt.errors ++ Stmt.errorsAll rest

/-- The tokens and messages of the error statements in a function. -/
def Function.errors : Function → List (Token × String)
  | .mk _ _ body => Stmt.errorsAll body

/-- The tokens and messages of the error statements in a list of functions. -/
def Function.errorsAll : List Function → List (Token × String)
  | [] => []
  | function :: rest => function.errors ++ Function.errorsAll rest

end

theorem Stmt.errorsAll_eq_flatMap (body : List Stmt) :
    Stmt.errorsAll body = body.flatMap Stmt.errors := by
  induction body with
  | nil => rfl
  | cons stmt rest ih => rw [errorsAll, ih, List.flatMap_cons]

theorem Function.errorsAll_eq_flatMap (methods : List Function) :
    Function.errorsAll methods = methods.flatMap Function.errors := by
  induction methods with
  | nil => rfl
  | cons function rest ih => rw [errorsAll, ih, List.flatMap_cons]

/-! ### Accounts of faults -/

/-- The faults in a list that are not passed over. -/
def SyntaxFault.grave (faults : List SyntaxFault) : List SyntaxFault :=
  faults.filter fun fault => !fault.error.isTolerated

/-- The errors are some of the faults that are not passed over, in their order, and at least one if
there is any. -/
structure Accounts (errors : List (Token × String)) (faults : List SyntaxFault) : Prop where
  sublist : errors.Sublist ((SyntaxFault.grave faults).map SyntaxFault.mark)
  grave_eq_nil : errors = [] → SyntaxFault.grave faults = []

namespace Accounts

variable {errors others : List (Token × String)} {faults more : List SyntaxFault}

theorem nil : Accounts [] [] := ⟨.slnil, fun _ => rfl⟩

theorem append (h : Accounts errors faults) (h' : Accounts others more) :
    Accounts (errors ++ others) (faults ++ more) := by
  constructor
  · rw [SyntaxFault.grave, List.filter_append, List.map_append]
    exact h.sublist.append h'.sublist
  · intro hnil
    obtain ⟨hfirst, hsecond⟩ := List.append_eq_nil_iff.1 hnil
    rw [SyntaxFault.grave, List.filter_append, List.append_eq_nil_iff]
    exact ⟨h.grave_eq_nil hfirst, h'.grave_eq_nil hsecond⟩

theorem of_tolerated {fault : SyntaxFault} (h : fault.error.isTolerated = true) :
    Accounts [] [fault] := by
  have hgrave : SyntaxFault.grave [fault] = [] := by simp [SyntaxFault.grave, h]
  exact ⟨List.nil_sublist _, fun _ => hgrave⟩

/-- One fault that is not passed over stands for all faults around it. -/
theorem of_mem {fault : SyntaxFault} (hmem : fault ∈ faults)
    (h : fault.error.isTolerated = false) : Accounts [fault.mark] faults := by
  have hgrave : fault ∈ SyntaxFault.grave faults := by simp [SyntaxFault.grave, hmem, h]
  constructor
  · exact List.singleton_sublist.2 (List.mem_map_of_mem hgrave)
  · intro hnil
    cases hnil

theorem ne_nil_iff (h : Accounts errors faults) :
    errors ≠ [] ↔ ∃ fault ∈ faults, fault.error.isTolerated = false := by
  have hgrave : errors = [] ↔ SyntaxFault.grave faults = [] := by
    constructor
    · exact h.grave_eq_nil
    · intro hnil
      have hsublist := h.sublist
      rw [hnil] at hsublist
      exact List.sublist_nil.1 hsublist
  rw [ne_eq, hgrave]
  simp [SyntaxFault.grave]

end Accounts

namespace Rule

variable {α β : Type} {before : List (Token × String)} {errors : α → List (Token × String)}
  {errors' : β → List (Token × String)}

/-- With the errors `before` in what has been read already, there are `errors a` if the rule reads
`a`, and the new ones account for what it reports. If it fails, it is not for a fault that could be
passed over. -/
def Tells (before : List (Token × String)) (rule : Rule α) (errors : α → List (Token × String)) :
    Prop :=
  ∀ c, match rule c with
    | ⟨.ok a, _, reports⟩ => ∃ new, errors a = before ++ new ∧ Accounts new reports
    | ⟨.error fault, _, _⟩ => fault.error.isTolerated = false

theorem tells_pure {a : α} (h : errors a = before) : Tells before (pure a) errors := by
  intro c
  exact ⟨[], by rw [h, List.append_nil], .nil⟩

/-- Two rules in sequence report the faults of both, and the second adds to what is told already. -/
theorem Tells.bind {rule : Rule α} {next : α → Rule β} (hr : Tells before rule errors)
    (hn : ∀ a, Tells (errors a) (next a) errors') : Tells before (rule >>= next) errors' := by
  intro c
  have hfirst := hr c
  rcases h : rule c with ⟨fault | a, d, reports⟩
  · rw [h] at hfirst
    rw [bind_of_error h]
    exact hfirst
  · rw [h] at hfirst
    obtain ⟨new, hnew, haccounts⟩ := hfirst
    have hsecond := hn a d
    rw [bind_of_ok h]
    rcases hnext : next a d with ⟨fault | b, e, more⟩
    · rw [hnext] at hsecond
      exact hsecond
    · rw [hnext] at hsecond
      obtain ⟨new', hnew', haccounts'⟩ := hsecond
      refine ⟨new ++ new', ?_, haccounts.append haccounts'⟩
      rw [hnew', hnew, List.append_assoc]

/-- What has been told before stays in front. -/
theorem Tells.behind {rule : Rule α} (h : Tells [] rule errors) (before : List (Token × String)) :
    Tells before rule fun a => before ++ errors a := by
  intro c
  have hstep := h c
  rcases hrule : rule c with ⟨fault | a, d, reports⟩
  · rw [hrule] at hstep
    exact hstep
  · rw [hrule] at hstep
    obtain ⟨new, hnew, haccounts⟩ := hstep
    exact ⟨new, congrArg (before ++ ·) hnew, haccounts⟩

theorem tells_fail {token : Token} {error : SyntaxError} (h : error.isTolerated = false) :
    Tells before (fail token error) errors :=
  fun _ => h

theorem tells_tooDeep : Tells before tooDeep errors := by
  intro c
  rfl

/-- What is opened before a rule and closed after it does not change what is told. -/
theorem Tells.bracket {rule outer : Rule α} {opened : Cursor → Cursor}
    {closed : Cursor → Cursor → Cursor} (h : Tells before rule errors)
    (heq : ∀ c, outer c = (rule (opened c)).closeWith (closed c)) : Tells before outer errors := by
  intro c
  have hstep := h (opened c)
  rw [heq]
  rcases hrule : rule (opened c) with ⟨fault | a, d, reports⟩
  · rw [hrule] at hstep
    exact hstep
  · rw [hrule] at hstep
    exact hstep

/-- An error statement in place of what cannot be read stands for all that has been reported
since. -/
theorem Tells.recover {rule : Rule α} {instead : SyntaxFault → α} (h : Tells [] rule errors)
    (hloud : Loud rule) (hinstead : ∀ fault, errors (instead fault) = [fault.mark]) :
    Tells [] (recover rule instead) errors := by
  intro c
  have hstep := h c
  have hmem := hloud c
  unfold Rule.recover
  rcases hrule : rule c with ⟨fault | a, d, reports⟩
  · rw [hrule] at hstep hmem
    exact ⟨[fault.mark], hinstead fault, .of_mem (hmem fault rfl) hstep⟩
  · rw [hrule] at hstep
    exact hstep

/-! ### Rules that make no statements -/

/-- The rule makes no statements. What it reports is passed over if it has a result, and it does not
fail for a fault that could be. -/
def Silent (rule : Rule α) : Prop := ∀ before, Tells before rule fun _ => before

/-- What comes behind a rule that makes no statements tells all. -/
theorem Silent.tells {rule : Rule α} {next : α → Rule β} (hr : Silent rule)
    (hn : ∀ a, Tells before (next a) errors') : Tells before (rule >>= next) errors' :=
  (hr before).bind hn

theorem Silent.bind {rule : Rule α} {next : α → Rule β} (hr : Silent rule)
    (hn : ∀ a, Silent (next a)) : Silent (rule >>= next) :=
  fun before => hr.tells fun a => hn a before

theorem silent_of_quiet {rule : Rule α} (h : ∀ c, ∃ a d, rule c = ⟨.ok a, d, []⟩) :
    Silent rule := by
  intro before c
  obtain ⟨a, d, hrule⟩ := h c
  rw [hrule]
  exact ⟨[], (List.append_nil before).symm, .nil⟩

theorem silent_pure (a : α) : Silent (pure a) := silent_of_quiet fun c => ⟨a, c, rfl⟩

theorem silent_peek : Silent peek := silent_of_quiet fun c => ⟨c.peek, c, rfl⟩

theorem silent_ahead : Silent ahead := silent_of_quiet fun c => ⟨c.ahead, c, rfl⟩

theorem silent_loops : Silent loops := silent_of_quiet fun c => ⟨c.loops, c, rfl⟩

theorem silent_advance : Silent advance := silent_of_quiet fun c => ⟨(), c.advance, rfl⟩

theorem silent_report {token : Token} {error : SyntaxError} (h : error.isTolerated = true) :
    Silent (report token error) := by
  intro before c
  exact ⟨[], (List.append_nil before).symm, .of_tolerated h⟩

theorem silent_fail {token : Token} {error : SyntaxError} (h : error.isTolerated = false) :
    Silent (fail token error : Rule α) :=
  fun _ => tells_fail h

theorem silent_tooDeep : Silent (tooDeep : Rule α) := fun _ => tells_tooDeep

theorem Silent.nested {rule : Rule α} (h : Silent rule) : Silent (nested rule) :=
  fun before => (h before).bracket (nested_eq rule)

theorem Silent.map {rule : Rule α} (h : Silent rule) (f : α → β) : Silent (f <$> rule) :=
  h.bind fun a => silent_pure (f a)

theorem silent_accept {wanted : Kind → Bool} : Silent (accept wanted) := by
  refine silent_peek.bind fun token => ?_
  split
  · exact silent_advance.bind fun _ => silent_pure _
  · exact silent_pure _

theorem silent_expect {kind : Kind} {what : String} : Silent (expect kind what) := by
  refine silent_peek.bind fun token => ?_
  split
  · exact silent_advance.bind fun _ => silent_pure _
  · exact silent_fail rfl

section Expressions

variable {operand deeper expression : Rule Expr}

theorem silent_chainFrom {level : Level} (ho : Silent operand) (bound : List Token) :
    ∀ left, Silent (chainFrom level operand left bound) := by
  induction bound with
  | nil => exact fun left => silent_pure left
  | cons _ more ih =>
    intro left
    refine silent_accept.bind fun o => ?_
    cases o with
    | none => exact silent_pure left
    | some op => exact ho.bind fun right => ih _

theorem silent_operation (ho : Silent operand) : Silent (operation operand) := by
  unfold operation
  induction levels with
  | nil => exact ho
  | cons level rest ih =>
    exact ih.bind fun left => silent_ahead.bind fun bound => silent_chainFrom ih bound left

/-- A wrong target is reported and passed over. -/
theorem silent_assignment (ho : Silent operand) (he : Silent expression) :
    Silent (assignment operand expression) := by
  refine (silent_operation ho).bind fun target => silent_accept.bind fun o => ?_
  cases o with
  | none => exact silent_pure target
  | some equals =>
    refine he.bind fun value => ?_
    cases target with
    | ident name => exact silent_pure _
    | _ => exact (silent_report rfl).bind fun _ => silent_pure _

theorem silent_primary (he : Silent expression) : Silent (primary expression) := by
  refine silent_peek.bind fun token => ?_
  split
  case h_7 =>
    exact silent_advance.bind fun _ => he.bind fun _ => silent_expect.bind fun _ => silent_pure _
  case h_8 => exact silent_fail rfl
  all_goals exact silent_advance.bind fun _ => silent_pure _

theorem silent_prefixed (hd : Silent deeper) (he : Silent expression) :
    Silent (prefixed deeper expression) := by
  refine silent_accept.bind fun o => ?_
  cases o with
  | none => exact silent_primary he
  | some op => exact hd.bind fun _ => silent_pure _

theorem silent_operand_expression (room : Nat) :
    Silent (Rule.operand room) ∧ Silent (Rule.expression room) := by
  induction room with
  | zero =>
    rw [Rule.operand, Rule.expression]
    exact ⟨silent_prefixed silent_tooDeep silent_tooDeep, silent_tooDeep⟩
  | succ room ih =>
    have he : Silent (Rule.expression (room + 1)) := by
      rw [Rule.expression]
      exact (silent_assignment ih.1 ih.2).nested
    rw [operand_succ]
    exact ⟨silent_prefixed ih.1.nested he, he⟩

theorem silent_optional (he : Silent expression) {stop : Kind} :
    Silent (optional expression stop) := by
  refine silent_peek.bind fun token => ?_
  split
  · exact silent_pure _
  · exact he.bind fun _ => silent_pure _

theorem silent_namesRound {rest : Rule (List Token)} (hr : Silent rest) :
    Silent (namesRound rest) := by
  refine silent_expect.bind fun name => silent_accept.bind fun o => ?_
  cases o with
  | none => exact silent_pure _
  | some comma => exact hr.bind fun _ => silent_pure _

/-- A parameter too many is reported and passed over. -/
theorem silent_parametersFrom (bound : List Token) :
    ∀ count, Silent (parametersFrom count bound) := by
  induction bound with
  | nil => exact fun count => silent_expect.bind fun _ => silent_pure _
  | cons _ more ih =>
    intro count
    have hnames := silent_namesRound (ih (count + 1))
    rw [parametersFrom_cons]
    unfold parametersRound
    dsimp only
    split
    · exact silent_peek.bind fun token => (silent_report rfl).bind fun _ => hnames
    · exact hnames

theorem silent_parameters : Silent parameters := by
  refine silent_peek.bind fun token => ?_
  split
  · exact silent_pure _
  · exact silent_ahead.bind fun bound => silent_parametersFrom bound 0

theorem silent_superclass : Silent superclass := by
  refine silent_accept.bind fun o => ?_
  cases o with
  | none => exact silent_pure _
  | some less => exact silent_expect.bind fun _ => silent_pure _

end Expressions

/-! ### Rules for statements -/

theorem Tells.many {stop : Kind} {item : Rule α} (h : Tells [] item errors) :
    Tells [] (many stop item) fun as => as.flatMap errors := by
  have hbound : ∀ (bound : List Token) before,
      Tells before (manyUntil stop item bound) fun as => before ++ as.flatMap errors := by
    intro bound
    induction bound with
    | nil => exact fun before => tells_pure (List.append_nil before)
    | cons _ more ih =>
      intro before
      refine silent_peek.tells fun token => ?_
      dsimp only
      split
      · exact tells_pure (List.append_nil before)
      · refine (h.behind before).bind fun a => (ih _).bind fun as => tells_pure ?_
        rw [List.flatMap_cons, List.append_assoc]
  exact silent_ahead.tells fun bound => hbound bound []

section Statements

variable {expression : Rule Expr} {block : Rule (List Stmt)} (he : Silent expression)
  (hb : Tells [] block Stmt.errorsAll)
include he hb

omit he in
theorem tells_braced {what : String} : Tells [] (braced block what) Stmt.errorsAll :=
  silent_expect.tells fun _ => hb

omit he in
theorem tells_function {word : String} : Tells [] (function block word) Function.errors := by
  refine silent_expect.tells fun name => silent_expect.tells fun _ => ?_
  refine silent_parameters.tells fun params => silent_expect.tells fun _ => ?_
  refine silent_expect.tells fun _ => (hb.bracket (outsideLoops_eq block)).bind fun body => ?_
  exact tells_pure rfl

omit he in
theorem tells_classDecl : Tells [] (classDecl block) Stmt.errors := by
  refine silent_expect.tells fun name => silent_superclass.tells fun parent => ?_
  refine silent_expect.tells fun _ => (tells_function hb).many.bind fun methods => ?_
  refine silent_expect.tells fun _ => tells_pure ?_
  rw [Stmt.errors, Function.errorsAll_eq_flatMap]

omit hb in
theorem tells_varDecl : Tells [] (varDecl expression) Stmt.errors := by
  refine silent_expect.tells fun name => silent_accept.tells fun o => ?_
  cases o with
  | none =>
    exact (silent_pure none).tells fun initial => silent_expect.tells fun _ => tells_pure rfl
  | some equals =>
    exact (he.map some).tells fun initial => silent_expect.tells fun _ => tells_pure rfl

omit hb in
theorem tells_expressionStmt : Tells [] (expressionStmt expression) Stmt.errors :=
  he.tells fun _ => silent_expect.tells fun _ => tells_pure rfl

omit hb in
theorem tells_printStmt : Tells [] (printStmt expression) Stmt.errors :=
  he.tells fun _ => silent_expect.tells fun _ => tells_pure rfl

theorem tells_ifStmt : Tells [] (ifStmt expression block) Stmt.errors := by
  refine silent_expect.tells fun _ => he.tells fun condition => silent_expect.tells fun _ => ?_
  refine (tells_braced hb).bind fun body => silent_accept.tells fun o => ?_
  cases o with
  | none => exact tells_pure rfl
  | some other => exact ((tells_braced hb).behind _).bind fun alternative => tells_pure rfl

theorem tells_whileStmt : Tells [] (whileStmt expression block) Stmt.errors := by
  refine silent_expect.tells fun _ => he.tells fun condition => silent_expect.tells fun _ => ?_
  exact ((tells_braced hb).bracket (inLoop_eq _)).bind fun body => tells_pure rfl

omit hb in
theorem tells_forInitial :
    Tells [] (forInitial expression) fun initial => initial.toList.flatMap Stmt.errors := by
  have hsome : ∀ stmt : Stmt, [stmt].flatMap Stmt.errors = stmt.errors := fun stmt =>
    List.flatMap_singleton ..
  refine silent_peek.tells fun token => ?_
  split
  · exact silent_advance.tells fun _ => tells_pure rfl
  · exact silent_advance.tells fun _ => (tells_varDecl he).bind fun stmt => tells_pure (hsome stmt)
  · exact (tells_expressionStmt he).bind fun stmt => tells_pure (hsome stmt)

omit he hb in
/-- What comes first in a `for` statement also comes first in the block that stands for it. -/
theorem errors_forLoop (initial : Option Stmt) (condition step : Option Expr) (body : List Stmt) :
    (forLoop initial condition step body).errors =
      initial.toList.flatMap Stmt.errors ++ Stmt.errorsAll body := by
  cases initial with
  | none => rfl
  | some stmt => simp [forLoop, Stmt.errors, Stmt.errorsAll]

theorem tells_forStmt : Tells [] (forStmt expression block) Stmt.errors := by
  refine silent_expect.tells fun _ => (tells_forInitial he).bind fun initial => ?_
  refine (silent_optional he).tells fun condition => silent_expect.tells fun _ => ?_
  refine (silent_optional he).tells fun step => silent_expect.tells fun _ => ?_
  refine Tells.bind (((tells_braced hb).bracket (inLoop_eq _)).behind _) fun body => ?_
  exact tells_pure (errors_forLoop initial condition step body)

omit hb in
theorem tells_returnStmt (keyword : Token) : Tells [] (returnStmt expression keyword) Stmt.errors :=
  (silent_optional he).tells fun _ => silent_expect.tells fun _ => tells_pure rfl

omit he hb in
theorem tells_jumpStmt (keyword : Token) (word : String) {stmt : Stmt} (h : stmt.errors = []) :
    Tells [] (jumpStmt keyword word stmt) Stmt.errors := by
  refine silent_loops.tells fun n => ?_
  split
  · exact tells_fail rfl
  · exact silent_expect.tells fun _ => tells_pure h

theorem tells_statement : Tells [] (statement expression block) Stmt.errors := by
  refine silent_peek.tells fun token => ?_
  split
  · exact silent_advance.tells fun _ => tells_printStmt he
  · exact silent_advance.tells fun _ => tells_ifStmt he hb
  · exact silent_advance.tells fun _ => tells_whileStmt he hb
  · exact silent_advance.tells fun _ => tells_forStmt he hb
  · exact silent_advance.tells fun _ => tells_returnStmt he token
  · exact silent_advance.tells fun _ => tells_jumpStmt token "break" rfl
  · exact silent_advance.tells fun _ => tells_jumpStmt token "continue" rfl
  · exact silent_advance.tells fun _ => hb.bind fun body => tells_pure rfl
  · exact silent_advance.tells fun _ => tells_pure rfl
  · exact tells_expressionStmt he

theorem tells_declaration : Tells [] (declaration expression block) Stmt.errors := by
  refine silent_peek.tells fun token => ?_
  split
  · exact silent_advance.tells fun _ => tells_classDecl hb
  · exact silent_advance.tells fun _ => (tells_function hb).bind fun function => tells_pure rfl
  · exact silent_advance.tells fun _ => tells_varDecl he
  · exact tells_statement he hb

/-- If a statement cannot be read, its own fault is reported and is not one to pass over, so the
error statement accounts for everything that has been reported inside. -/
theorem tells_recovered (hle : Loud expression) (hlb : Loud block) :
    Tells [] (recovered expression block) Stmt.errors :=
  (tells_declaration he hb).recover (loud_declaration hle hlb) fun _ => rfl

end Statements

theorem tells_many_recovered {stop : Kind} {room : Nat}
    (hb : Tells [] (block room) Stmt.errorsAll) :
    Tells [] (many stop (recovered (expression room) (block room))) Stmt.errorsAll := by
  have hitem := tells_recovered (silent_operand_expression room).2 hb
    (loud_operand_expression room).2 (loud_block room)
  have hmany : Tells [] (many stop (recovered (expression room) (block room)))
      fun body => body.flatMap Stmt.errors := hitem.many
  simpa only [← Stmt.errorsAll_eq_flatMap] using hmany

theorem tells_block (room : Nat) : Tells [] (block room) Stmt.errorsAll := by
  induction room with
  | zero => exact tells_tooDeep
  | succ room ih =>
    refine Tells.bracket ?_ (nested_eq _)
    exact (tells_many_recovered ih).bind fun body => silent_expect.tells fun _ => tells_pure rfl

theorem tells_program : Tells [] program Stmt.errorsAll :=
  tells_many_recovered (tells_block maxDepth)

end Rule

/-- In the program that is read from any tokens there is an error statement, at whatever level, if
and only if something has been reported that is not passed over. The error statements, in the order
of the source, carry the tokens and messages of some of the reports, in the order in which these
have been made. -/
theorem Reading.errors_program {body : List Token} {close : Token} (hclose : close.kind = .eof)
    (hbody : ∀ t ∈ body, t.kind ≠ .eof) :
    (Stmt.errorsAll (Reading.ofTokens body close).program ≠ [] ↔
        ∃ fault ∈ (Reading.ofTokens body close).faults,
          fault.error.message ≠ "Invalid assignment target." ∧
            fault.error.message ≠ "Can't have more than 255 parameters.") ∧
      (Stmt.errorsAll (Reading.ofTokens body close).program).Sublist
        ((Reading.ofTokens body close).faults.map fun fault =>
          (fault.token, fault.error.message)) ∧
      ((Stmt.errorsAll (Reading.ofTokens body close).program).map fun error =>
        Diagnostic.atToken error.1 error.2).Sublist (Reading.ofTokens body close).reports := by
  obtain ⟨stmts, faults, hprogram⟩ := Rule.program_eq hclose hbody
  have htells := Rule.tells_program (.start body close)
  rw [hprogram] at htells
  obtain ⟨errors, herrors, haccounts⟩ := htells
  rw [List.nil_append] at herrors
  rw [ofTokens_of_ok hprogram]
  have hsublist : (Stmt.errorsAll stmts).Sublist (faults.map SyntaxFault.mark) := by
    rw [herrors]
    exact haccounts.sublist.trans (List.filter_sublist.map _)
  refine ⟨?_, hsublist, ?_⟩
  · rw [herrors, haccounts.ne_nil_iff]
    refine exists_congr fun fault => and_congr_right fun _ => ?_
    rw [← Bool.not_eq_true, ← SyntaxError.message_mem_toleratedMessages]
    simp [SyntaxError.toleratedMessages]
  · have hreports := hsublist.map fun error => Diagnostic.atToken error.1 error.2
    rw [List.map_map] at hreports
    exact hreports

/-- The tokens of `while ( a ) { 1 = 2 ; print ; } { break ; a`. -/
def absorbed : List Token :=
  [⟨.kwWhile, "while", none, 1⟩, ⟨.leftParen, "(", none, 1⟩, ⟨.identifier, "a", none, 1⟩,
    ⟨.rightParen, ")", none, 1⟩, ⟨.leftBrace, "\x7b", none, 1⟩, ⟨.number, "1", some "1", 1⟩,
    ⟨.equal, "=", none, 1⟩, ⟨.number, "2", some "2", 1⟩, ⟨.semicolon, ";", none, 1⟩,
    ⟨.kwPrint, "print", none, 1⟩, ⟨.semicolon, ";", none, 2⟩, ⟨.rightBrace, "\x7d", none, 2⟩,
    ⟨.leftBrace, "\x7b", none, 3⟩, ⟨.kwBreak, "break", none, 3⟩, ⟨.semicolon, ";", none, 3⟩,
    ⟨.identifier, "a", none, 3⟩]

/-- Of the five faults the first is passed over. The second leaves an error statement in the loop,
and the last one takes in what has been left inside of the open block. -/
theorem Reading.errors_absorbed :
    Stmt.errorsAll (Reading.ofTokens absorbed ⟨.eof, "", none, 3⟩).program =
        [(⟨.semicolon, ";", none, 2⟩, "Expect expression."),
          (⟨.eof, "", none, 3⟩, "Expect '\x7d' after block.")] ∧
      [((⟨.semicolon, ";", none, 2⟩ : Token), "Expect expression."),
        (⟨.eof, "", none, 3⟩, "Expect '\x7d' after block.")].Sublist
        [(⟨.equal, "=", none, 1⟩, "Invalid assignment target."),
          (⟨.semicolon, ";", none, 2⟩, "Expect expression."),
          (⟨.kwBreak, "break", none, 3⟩, "Can't use 'break' outside of a loop."),
          (⟨.eof, "", none, 3⟩, "Expect ';' after expression."),
          (⟨.eof, "", none, 3⟩, "Expect '\x7d' after block.")] ∧
      ∃ fault ∈ (Reading.ofTokens absorbed ⟨.eof, "", none, 3⟩).faults,
        fault.error.message ≠ "Invalid assignment target." ∧
          fault.error.message ≠ "Can't have more than 255 parameters." := by
  obtain ⟨hiff, hsublist, -⟩ :=
    @Reading.errors_program absorbed ⟨.eof, "", none, 3⟩ rfl (by decide)
  have herrors : Stmt.errorsAll (Reading.ofTokens absorbed ⟨.eof, "", none, 3⟩).program =
      [(⟨.semicolon, ";", none, 2⟩, "Expect expression."),
        (⟨.eof, "", none, 3⟩, "Expect '\x7d' after block.")] := by decide +kernel
  refine ⟨herrors, ?_, hiff.1 ?_⟩
  · rw [herrors] at hsublist
    exact hsublist
  · rw [herrors]
    exact List.cons_ne_nil _ _

end Lox
