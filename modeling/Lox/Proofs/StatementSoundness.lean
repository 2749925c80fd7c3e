import Lox.Rule.Statement
import Lox.Proofs.ExpressionReading
import Lox.Proofs.Reporting

/-!
# What is read as a statement is one

If a rule for statements reads cleanly, the tokens it has passed are a phrase of
the grammar. The rules are given the rules for expressions and for blocks, and so
are the lemmas: what these two read is a hypothesis until the last step, where the
blocks are tied to the room that is left. Recovery never shows, because a statement
that cannot be read is reported.
-/
namespace Lox.Rule

open Grammar

variable {α : Type} {room : Nat} {c c' : Cursor}

/-- A loop of the function body at hand is open. -/
def looping (c : Cursor) : Bool := 0 < c.loops

theorem looping_of_passes {ts : List Token} (h : c.Passes ts c') : looping c' = looping c := by
  rw [looping, looping, h.loops]

/-- What the rule reads behind the given tokens makes the phrase together with them. -/
def Builds (rule : Rule α) (room : Nat) (before : List Token) (phrase : α → Phrase) : Prop :=
  ∀ ⦃c a c'⦄, c.close.kind = .eof → rule.Reads c a c' →
    ∃ ts, c.Passes ts c' ∧ Forms room (looping c) (phrase a) (before ++ ts)

/-- The rule reads blocks behind their opening braces. -/
def BuildsBlocks (block : Rule (List Stmt)) (room : Nat) : Prop :=
  ∀ ⦃opening : Token⦄, opening.kind = .leftBrace → Builds block room [opening] .block

theorem reads_inLoop {rule : Rule α} {a : α} : (inLoop rule).Reads c a c' ↔
    ∃ d, rule.Reads (c.withLoops (c.loops + 1)) a d ∧ c' = d.withLoops (d.loops - 1) := by
  simp [inLoop, Cursor.withLoops]

theorem reads_outsideLoops {rule : Rule α} {a : α} : (outsideLoops rule).Reads c a c' ↔
    ∃ d, rule.Reads (c.withLoops 0) a d ∧ c' = d.withLoops c.loops := by
  simp [outsideLoops, Cursor.withLoops]

variable {expression : Rule Expr} {block : Rule (List Stmt)}

theorem optional_derives (he : Sound expression room .expression) {stop : Kind} {o : Option Expr}
    (hclose : c.close.kind = .eof) (h : (optional expression stop).Reads c o c') :
    ∃ ts, c.Passes ts c' ∧ DerivesOptional room ts o := by
  rw [optional, reads_peek_bind] at h
  simp only [reads_ite, reads_bind, reads_pure] at h
  split_ifs at h
  · obtain ⟨rfl, rfl⟩ := h
    exact ⟨[], Cursor.passes_nil.2 rfl, rfl⟩
  · obtain ⟨e, d, he', rfl, rfl⟩ := h
    exact he hclose he'

/-- The bound covers the tokens ahead, so it is not used up before a parameter. -/
theorem parametersFrom_derives : ∀ {bound : List Token} {count : Nat} {c c' : Cursor}
    {params : List Token}, c.close.kind = .eof → c.ahead.length ≤ bound.length →
    (parametersFrom count bound).Reads c params c' →
    ∃ ts, c.Passes ts c' ∧ DerivesNames ts params ∧ count + params.length ≤ 255 := by
  intro bound
  induction bound with
  | nil =>
    intro count c c' params hclose hlen h
    simp only [parametersFrom, reads_bind, reads_pure] at h
    obtain ⟨name, d, hname, -, -⟩ := h
    obtain ⟨-, hpass, -⟩ := passes_of_expect (by decide) hclose hname
    have hahead := congrArg List.length hpass.ahead
    simp only [List.length_append, List.length_cons, List.length_nil] at hahead hlen
    omega
  | cons _ more ih =>
    intro count c c' params hclose hlen h
    by_cases hcount : 255 ≤ count
    · simp [parametersFrom, hcount] at h
    · simp only [parametersFrom, hcount, if_false, reads_bind] at h
      obtain ⟨name, d, hname, o, d', haccept, h⟩ := h
      obtain ⟨hkind, hpass, hclose'⟩ := passes_of_expect (by decide) hclose hname
      rcases cases_of_accept rfl hclose' haccept with ⟨comma, rfl, hcomma, hp⟩ | ⟨rfl, -, rfl⟩
      · simp only [reads_bind, reads_pure] at h
        obtain ⟨names, e, hnames, rfl, rfl⟩ := h
        have hahead := congrArg List.length hpass.ahead
        have hahead' := congrArg List.length hp.ahead
        simp only [List.length_append, List.length_cons, List.length_nil] at hahead hahead' hlen
        obtain ⟨ts, hts, hderives, hle⟩ := ih (hp.close_kind hclose') (by omega) hnames
        refine ⟨_, hpass.trans (hp.trans hts), .more hkind (by simpa using hcomma) hderives, ?_⟩
        rw [List.length_cons]
        omega
      · obtain ⟨rfl, rfl⟩ := reads_pure.1 h
        exact ⟨_, hpass, .one hkind, by simp; omega⟩

theorem parameters_derives {params : List Token} (hclose : c.close.kind = .eof)
    (h : parameters.Reads c params c') : ∃ ts, c.Passes ts c' ∧ DerivesParameters ts params := by
  rw [parameters, reads_peek_bind] at h
  split_ifs at h
  · obtain ⟨rfl, rfl⟩ := reads_pure.1 h
    exact ⟨[], Cursor.passes_nil.2 rfl, .inl ⟨rfl, rfl⟩⟩
  · rw [reads_ahead_bind] at h
    obtain ⟨ts, hts, hderives, hle⟩ := parametersFrom_derives hclose le_rfl h
    exact ⟨ts, hts, .inr ⟨hderives, by omega⟩⟩

theorem function_builds (hb : BuildsBlocks block room) (word : String) :
    Builds (function block word) room [] .function := by
  intro c f c' hclose h
  simp only [function, reads_bind, reads_outsideLoops, reads_pure] at h
  obtain ⟨name, c1, hname, opening, c2, hopening, params, c3, hparams, closing, c4, hclosing,
    brace, c5, hbrace, body, c6, ⟨c7, hbody, rfl⟩, rfl, rfl⟩ := h
  obtain ⟨hname, hp1, hclose⟩ := passes_of_expect (by decide) hclose hname
  obtain ⟨hopening, hp2, hclose⟩ := passes_of_expect (by decide) hclose hopening
  obtain ⟨us, hp3, hparams⟩ := parameters_derives hclose hparams
  have hclose := hp3.close_kind hclose
  obtain ⟨hclosing, hp4, hclose⟩ := passes_of_expect (by decide) hclose hclosing
  obtain ⟨hbrace, hp5, hclose⟩ := passes_of_expect (by decide) hclose hbrace
  obtain ⟨ts, hp6, hforms⟩ := hb hbrace (by exact hclose) hbody
  have hall := hp1.trans (hp2.trans (hp3.trans (hp4.trans (hp5.trans hp6.restoreLoops))))
  exact ⟨_, hall, .function hname hopening hparams hclosing hforms⟩

theorem superclass_derives {parent : Option Token} (hclose : c.close.kind = .eof)
    (h : superclass.Reads c parent c') : ∃ ts, c.Passes ts c' ∧ DerivesSuperclass ts parent := by
  simp only [superclass, reads_bind] at h
  obtain ⟨o, d, haccept, h⟩ := h
  rcases cases_of_accept rfl hclose haccept with ⟨less, rfl, hless, hp⟩ | ⟨rfl, -, rfl⟩
  · simp only [reads_bind, reads_pure] at h
    obtain ⟨name, d', hname, rfl, rfl⟩ := h
    obtain ⟨hname, hp', -⟩ := passes_of_expect (by decide) (hp.close_kind hclose) hname
    exact ⟨_, hp.trans hp', .some (by simpa using hless) hname⟩
  · obtain ⟨rfl, rfl⟩ := reads_pure.1 h
    exact ⟨[], Cursor.passes_nil.2 rfl, .none⟩

theorem methods_build (hb : BuildsBlocks block room) {methods : List Function}
    (hclose : c.close.kind = .eof)
    (h : (many .rightBrace (function block "method")).Reads c methods c') :
    ∃ ts, c.Passes ts c' ∧ Forms room (looping c) (.functions methods) ts := by
  rw [many, reads_ahead_bind] at h
  obtain ⟨ts, hts, hforms, -⟩ := manyUntil_passes
    (P := fun ts f => Forms room (looping c) (.function f) ts)
    (Q := fun ts fs => Forms room (looping c) (.functions fs) ts)
    (fun {d f d'} hclose hloops hread => by
      obtain ⟨ts, hts, hforms⟩ := function_builds hb "method" hclose hread
      have hsame : looping d = looping c := by rw [looping, looping, hloops]
      rw [hsame] at hforms
      obtain ⟨t, us, rfl, -⟩ := hforms.function_head
      exact ⟨_, hts, by simp, hforms⟩)
    .noFunctions .consFunction hclose rfl h
  exact ⟨ts, hts, hforms⟩

theorem classDecl_builds (hb : BuildsBlocks block room) {word : Token}
    (hword : word.kind = .kwClass) : Builds (classDecl block) room [word] .declaration := by
  intro c stmt c' hclose h
  simp only [classDecl, reads_bind, reads_pure] at h
  obtain ⟨name, c1, hname, parent, c2, hparent, opening, c3, hopening, methods, c4, hmethods,
    closing, c5, hclosing, rfl, rfl⟩ := h
  obtain ⟨hname, hp1, hclose⟩ := passes_of_expect (by decide) hclose hname
  obtain ⟨us, hp2, hparent⟩ := superclass_derives hclose hparent
  have hclose := hp2.close_kind hclose
  obtain ⟨hopening, hp3, hclose⟩ := passes_of_expect (by decide) hclose hopening
  obtain ⟨ts, hp4, hforms⟩ := methods_build hb hclose hmethods
  have hclose := hp4.close_kind hclose
  obtain ⟨hclosing, hp5, -⟩ := passes_of_expect (by decide) hclose hclosing
  rw [looping_of_passes (hp1.trans (hp2.trans hp3))] at hforms
  refine ⟨_, hp1.trans (hp2.trans (hp3.trans (hp4.trans hp5))), ?_⟩
  simpa using Forms.classDecl hword hname hparent hopening hforms hclosing

theorem varDecl_builds (he : Sound expression room .expression) {word : Token}
    (hword : word.kind = .kwVar) : Builds (varDecl expression) room [word] .varDecl := by
  intro c stmt c' hclose h
  simp only [varDecl, reads_bind] at h
  obtain ⟨name, c1, hname, o, c2, haccept, h⟩ := h
  obtain ⟨hname, hp1, hclose⟩ := passes_of_expect (by decide) hclose hname
  have hinitial : ∃ us initial d, c1.Passes us d ∧ d.close.kind = .eof ∧
      DerivesInitial room us initial ∧ ∃ semicolon, (expect .semicolon
        "';' after variable declaration").Reads d semicolon c' ∧ stmt = .varDecl name initial := by
    rcases cases_of_accept rfl hclose haccept with ⟨equals, rfl, hequals, hp⟩ | ⟨rfl, -, rfl⟩
    · simp only [reads_bind, reads_map, reads_pure] at h
      obtain ⟨_, d, ⟨e, hread, rfl⟩, semicolon, c3, hsemicolon, rfl, rfl⟩ := h
      obtain ⟨us, hus, hderives⟩ := he (hp.close_kind hclose) hread
      exact ⟨_, _, d, hp.trans hus, hus.close_kind (hp.close_kind hclose),
        .some (by simpa using hequals) hderives, semicolon, hsemicolon, rfl⟩
    · simp only [reads_bind, reads_pure] at h
      obtain ⟨_, d, ⟨rfl, rfl⟩, semicolon, c3, hsemicolon, rfl, rfl⟩ := h
      exact ⟨[], none, d, Cursor.passes_nil.2 rfl, hclose, .none, semicolon, hsemicolon, rfl⟩
  obtain ⟨us, initial, d, hp2, hclose, hinitial, semicolon, hsemicolon, rfl⟩ := hinitial
  obtain ⟨hsemicolon, hp3, -⟩ := passes_of_expect (by decide) hclose hsemicolon
  refine ⟨_, hp1.trans (hp2.trans hp3), ?_⟩
  simpa using Forms.varDecl hword hname hinitial hsemicolon

theorem expressionStmt_builds (he : Sound expression room .expression) :
    Builds (expressionStmt expression) room [] .exprStmt := by
  intro c stmt c' hclose h
  simp only [expressionStmt, reads_bind, reads_pure] at h
  obtain ⟨e, c1, hread, semicolon, c2, hsemicolon, rfl, rfl⟩ := h
  obtain ⟨ts, hp1, hderives⟩ := he hclose hread
  have hclose := hp1.close_kind hclose
  obtain ⟨hsemicolon, hp2, -⟩ := passes_of_expect (by decide) hclose hsemicolon
  exact ⟨_, hp1.trans hp2, .exprStmt hderives hsemicolon⟩

theorem printStmt_builds (he : Sound expression room .expression) {word : Token}
    (hword : word.kind = .kwPrint) : Builds (printStmt expression) room [word] .statement := by
  intro c stmt c' hclose h
  simp only [printStmt, reads_bind, reads_pure] at h
  obtain ⟨e, c1, hread, semicolon, c2, hsemicolon, rfl, rfl⟩ := h
  obtain ⟨ts, hp1, hderives⟩ := he hclose hread
  have hclose := hp1.close_kind hclose
  obtain ⟨hsemicolon, hp2, -⟩ := passes_of_expect (by decide) hclose hsemicolon
  exact ⟨_, hp1.trans hp2, .printStmt hword hderives hsemicolon⟩

theorem braced_builds (hb : BuildsBlocks block room) (what : String) :
    Builds (braced block what) room [] .block := by
  intro c body c' hclose h
  simp only [braced, reads_bind] at h
  obtain ⟨opening, c1, hopening, h⟩ := h
  obtain ⟨hopening, hp1, hclose⟩ := passes_of_expect (by decide) hclose hopening
  obtain ⟨ts, hp2, hforms⟩ := hb hopening hclose h
  rw [looping_of_passes hp1] at hforms
  exact ⟨_, hp1.trans hp2, hforms⟩

/-- A loop body is a block with a loop around it. -/
theorem inLoop_braced_forms (hb : BuildsBlocks block room) {what : String} {body : List Stmt}
    (hclose : c.close.kind = .eof) (h : (inLoop (braced block what)).Reads c body c') :
    ∃ ts, c.Passes ts c' ∧ Forms room true (.block body) ts := by
  obtain ⟨d, hread, rfl⟩ := reads_inLoop.1 h
  obtain ⟨ts, hp, hforms⟩ := braced_builds hb what (by exact hclose) hread
  have hd : d.loops - 1 = c.loops := by rw [hp.loops]; rfl
  rw [hd]
  refine ⟨ts, hp.restoreLoops, ?_⟩
  simpa [looping, Cursor.withLoops] using hforms

theorem ifStmt_builds (he : Sound expression room .expression) (hb : BuildsBlocks block room)
    {word : Token} (hword : word.kind = .kwIf) :
    Builds (ifStmt expression block) room [word] .statement := by
  intro c stmt c' hclose h
  simp only [ifStmt, reads_bind] at h
  obtain ⟨opening, c1, hopening, e, c2, hread, closing, c3, hclosing, body, c4, hbody, o, c5,
    haccept, h⟩ := h
  obtain ⟨hopening, hp1, hclose⟩ := passes_of_expect (by decide) hclose hopening
  obtain ⟨ts, hp2, hderives⟩ := he hclose hread
  have hclose := hp2.close_kind hclose
  obtain ⟨hclosing, hp3, hclose⟩ := passes_of_expect (by decide) hclose hclosing
  obtain ⟨us, hp4, hforms⟩ := braced_builds hb _ hclose hbody
  have hclose := hp4.close_kind hclose
  have hp := hp1.trans (hp2.trans (hp3.trans hp4))
  rw [looping_of_passes (hp1.trans (hp2.trans hp3))] at hforms
  rcases cases_of_accept rfl hclose haccept with ⟨other, rfl, hother, hp5⟩ | ⟨rfl, -, rfl⟩
  · simp only [reads_bind, reads_pure] at h
    obtain ⟨alternative, c6, halternative, rfl, rfl⟩ := h
    obtain ⟨vs, hp6, hforms'⟩ := braced_builds hb _ (hp5.close_kind hclose) halternative
    rw [looping_of_passes (hp.trans hp5)] at hforms'
    refine ⟨_, hp.trans (hp5.trans hp6), ?_⟩
    simpa using Forms.ifElse hword hopening hderives hclosing hforms (by simpa using hother) hforms'
  · obtain ⟨rfl, rfl⟩ := reads_pure.1 h
    exact ⟨_, hp, .ifThen hword hopening hderives hclosing hforms⟩

theorem whileStmt_builds (he : Sound expression room .expression) (hb : BuildsBlocks block room)
    {word : Token} (hword : word.kind = .kwWhile) :
    Builds (whileStmt expression block) room [word] .statement := by
  intro c stmt c' hclose h
  simp only [whileStmt, reads_bind, reads_pure] at h
  obtain ⟨opening, c1, hopening, e, c2, hread, closing, c3, hclosing, body, c4, hbody,
    rfl, rfl⟩ := h
  obtain ⟨hopening, hp1, hclose⟩ := passes_of_expect (by decide) hclose hopening
  obtain ⟨ts, hp2, hderives⟩ := he hclose hread
  have hclose := hp2.close_kind hclose
  obtain ⟨hclosing, hp3, hclose⟩ := passes_of_expect (by decide) hclose hclosing
  obtain ⟨us, hp4, hforms⟩ := inLoop_braced_forms hb hclose hbody
  exact ⟨_, hp1.trans (hp2.trans (hp3.trans hp4)),
    .whileStmt hword hopening hderives hclosing hforms⟩

/-- What comes first in a `for` loop: a semicolon alone, or an initializer. -/
theorem forInitial_forms (he : Sound expression room .expression) {initial : Option Stmt}
    (hclose : c.close.kind = .eof) (h : (forInitial expression).Reads c initial c') :
    ∃ ts, c.Passes ts c' ∧
      ((∃ semicolon : Token, initial = none ∧ ts = [semicolon] ∧ semicolon.kind = .semicolon) ∨
        ∃ stmt, initial = some stmt ∧ Forms room (looping c) (.initializer stmt) ts) := by
  rw [forInitial, reads_peek_bind] at h
  split at h
  case h_1 hk =>
    obtain ⟨rfl, rfl⟩ := reads_advance_pure.1 h
    exact ⟨_, Cursor.passes_advance hclose (by simp [hk]), .inl ⟨_, rfl, rfl, hk⟩⟩
  case h_2 hk =>
    rw [reads_advance_bind] at h
    simp only [reads_bind, reads_pure] at h
    obtain ⟨stmt, d, hread, rfl, rfl⟩ := h
    have hp := Cursor.passes_advance hclose (by simp [hk])
    obtain ⟨ts, hts, hforms⟩ := varDecl_builds he hk (hp.close_kind hclose) hread
    rw [looping_of_passes hp] at hforms
    exact ⟨_, hp.trans hts, .inr ⟨stmt, rfl, .initialDecl hforms⟩⟩
  case h_3 =>
    simp only [reads_bind, reads_pure] at h
    obtain ⟨stmt, d, hread, rfl, rfl⟩ := h
    obtain ⟨ts, hts, hforms⟩ := expressionStmt_builds he hclose hread
    exact ⟨ts, hts, .inr ⟨stmt, rfl, .initialExpr hforms⟩⟩

theorem forStmt_builds (he : Sound expression room .expression) (hb : BuildsBlocks block room)
    {word : Token} (hword : word.kind = .kwFor) :
    Builds (forStmt expression block) room [word] .statement := by
  intro c stmt c' hclose h
  simp only [forStmt, reads_bind, reads_pure] at h
  obtain ⟨opening, c1, hopening, initial, c2, hinitial, condition, c3, hcondition, second, c4,
    hsecond, step, c5, hstep, closing, c6, hclosing, body, c7, hbody, rfl, rfl⟩ := h
  obtain ⟨hopening, hp1, hclose⟩ := passes_of_expect (by decide) hclose hopening
  obtain ⟨is, hp2, hfirst⟩ := forInitial_forms he hclose hinitial
  have hclose := hp2.close_kind hclose
  obtain ⟨ts, hp3, hcondition⟩ := optional_derives he hclose hcondition
  have hclose := hp3.close_kind hclose
  obtain ⟨hsecond, hp4, hclose⟩ := passes_of_expect (by decide) hclose hsecond
  obtain ⟨us, hp5, hstep⟩ := optional_derives he hclose hstep
  have hclose := hp5.close_kind hclose
  obtain ⟨hclosing, hp6, hclose⟩ := passes_of_expect (by decide) hclose hclosing
  obtain ⟨vs, hp7, hbody⟩ := inLoop_braced_forms hb hclose hbody
  refine ⟨_, hp1.trans (hp2.trans (hp3.trans (hp4.trans (hp5.trans (hp6.trans hp7))))), ?_⟩
  rw [looping_of_passes hp1] at hfirst
  rcases hfirst with ⟨first, rfl, rfl, hfirst⟩ | ⟨initial, rfl, hfirst⟩
  · simpa [forLoop, loop] using
      Forms.forStmt hword hopening hfirst hcondition hsecond hstep hclosing hbody
  · simpa [forLoop, loop] using
      Forms.forInitStmt hword hopening hfirst hcondition hsecond hstep hclosing hbody

theorem returnStmt_builds (he : Sound expression room .expression) {word : Token}
    (hword : word.kind = .kwReturn) :
    Builds (returnStmt expression word) room [word] .statement := by
  intro c stmt c' hclose h
  simp only [returnStmt, reads_bind, reads_pure] at h
  obtain ⟨value, c1, hvalue, semicolon, c2, hsemicolon, rfl, rfl⟩ := h
  obtain ⟨ts, hp1, hvalue⟩ := optional_derives he hclose hvalue
  have hclose := hp1.close_kind hclose
  obtain ⟨hsemicolon, hp2, -⟩ := passes_of_expect (by decide) hclose hsemicolon
  exact ⟨_, hp1.trans hp2, .returnStmt hword hvalue hsemicolon⟩

/-- A jump is read only inside a loop. -/
theorem jumpStmt_passes {keyword : Token} {word : String} {stmt result : Stmt}
    (hclose : c.close.kind = .eof) (h : (jumpStmt keyword word stmt).Reads c result c') :
    ∃ semicolon : Token, semicolon.kind = .semicolon ∧ c.Passes [semicolon] c' ∧
      looping c = true ∧ result = stmt := by
  rw [jumpStmt, reads_loops_bind] at h
  simp only [reads_ite, reads_bind, reads_pure] at h
  split_ifs at h with hloops
  · exact absurd h reads_fail
  · obtain ⟨semicolon, d, hsemicolon, rfl, rfl⟩ := h
    obtain ⟨hkind, hp, -⟩ := passes_of_expect (by decide) hclose hsemicolon
    refine ⟨semicolon, hkind, hp, ?_, rfl⟩
    simpa [looping] using Nat.pos_of_ne_zero hloops

theorem statement_builds (he : Sound expression room .expression)
    (hb : BuildsBlocks block room) : Builds (statement expression block) room [] .statement := by
  intro c stmt c' hclose h
  rw [statement, reads_peek_bind] at h
  -- in every case but the last the first token is passed before the rule for the case
  have hfirst : c.peek.kind ≠ .eof → c.Passes [c.peek] c.advance ∧
      c.advance.close.kind = .eof ∧ looping c.advance = looping c := fun hne =>
    have hp := Cursor.passes_advance hclose hne
    ⟨hp, hp.close_kind hclose, looping_of_passes hp⟩
  split at h
  case h_10 =>
    obtain ⟨ts, hts, hforms⟩ := expressionStmt_builds he hclose h
    exact ⟨ts, hts, .expression hforms⟩
  all_goals
    rename_i hk
    obtain ⟨hp, hclose', hloop⟩ := hfirst (by simp [hk])
    rw [reads_advance_bind] at h
  case h_1 =>
    obtain ⟨ts, hts, hforms⟩ := printStmt_builds he hk hclose' h
    exact ⟨_, hp.trans hts, hloop ▸ hforms⟩
  case h_2 =>
    obtain ⟨ts, hts, hforms⟩ := ifStmt_builds he hb hk hclose' h
    exact ⟨_, hp.trans hts, hloop ▸ hforms⟩
  case h_3 =>
    obtain ⟨ts, hts, hforms⟩ := whileStmt_builds he hb hk hclose' h
    exact ⟨_, hp.trans hts, hloop ▸ hforms⟩
  case h_4 =>
    obtain ⟨ts, hts, hforms⟩ := forStmt_builds he hb hk hclose' h
    exact ⟨_, hp.trans hts, hloop ▸ hforms⟩
  case h_5 =>
    obtain ⟨ts, hts, hforms⟩ := returnStmt_builds he hk hclose' h
    exact ⟨_, hp.trans hts, hloop ▸ hforms⟩
  case h_6 =>
    obtain ⟨semicolon, hsemicolon, hp', hloops, rfl⟩ := jumpStmt_passes hclose' h
    refine ⟨_, hp.trans hp', ?_⟩
    rw [← hloop, hloops]
    exact .breakStmt hk hsemicolon
  case h_7 =>
    obtain ⟨semicolon, hsemicolon, hp', hloops, rfl⟩ := jumpStmt_passes hclose' h
    refine ⟨_, hp.trans hp', ?_⟩
    rw [← hloop, hloops]
    exact .continueStmt hk hsemicolon
  case h_8 =>
    simp only [reads_bind, reads_pure] at h
    obtain ⟨body, d, hread, rfl, rfl⟩ := h
    obtain ⟨ts, hts, hforms⟩ := hb hk hclose' hread
    exact ⟨_, hp.trans hts, .blockStmt (hloop ▸ hforms)⟩
  case h_9 =>
    obtain ⟨rfl, rfl⟩ := reads_pure.1 h
    exact ⟨_, hp, .empty hk⟩

theorem declaration_builds (he : Sound expression room .expression)
    (hb : BuildsBlocks block room) :
    Builds (declaration expression block) room [] .declaration := by
  intro c stmt c' hclose h
  rw [declaration, reads_peek_bind] at h
  split at h
  case h_1 hk =>
    rw [reads_advance_bind] at h
    have hp := Cursor.passes_advance hclose (by simp [hk])
    obtain ⟨ts, hts, hforms⟩ := classDecl_builds hb hk (hp.close_kind hclose) h
    exact ⟨_, hp.trans hts, looping_of_passes hp ▸ hforms⟩
  case h_2 hk =>
    rw [reads_advance_bind] at h
    simp only [reads_bind, reads_pure] at h
    obtain ⟨f, d, hread, rfl, rfl⟩ := h
    have hp := Cursor.passes_advance hclose (by simp [hk])
    obtain ⟨ts, hts, hforms⟩ := function_builds hb _ (hp.close_kind hclose) hread
    exact ⟨_, hp.trans hts, .funDecl hk (looping_of_passes hp ▸ hforms)⟩
  case h_3 hk =>
    rw [reads_advance_bind] at h
    have hp := Cursor.passes_advance hclose (by simp [hk])
    obtain ⟨ts, hts, hforms⟩ := varDecl_builds he hk (hp.close_kind hclose) h
    exact ⟨_, hp.trans hts, .varDeclaration (looping_of_passes hp ▸ hforms)⟩
  case h_4 =>
    obtain ⟨ts, hts, hforms⟩ := statement_builds he hb hclose h
    exact ⟨ts, hts, .statement hforms⟩

/-- Statements are read up to a stop, unless the bound has been too short. -/
theorem declarations_build (he : Sound expression room .expression) (hb : BuildsBlocks block room)
    (hle : Loud expression) (hlb : Loud block) {stop : Kind} {body : List Stmt}
    (hclose : c.close.kind = .eof)
    (h : (many stop (recovered expression block)).Reads c body c') :
    ∃ ts, c.Passes ts c' ∧ Forms room (looping c) (.declarations body) ts ∧
      (c'.peek.kind = stop ∨ c'.peek.kind = .eof) := by
  rw [many, reads_ahead_bind] at h
  obtain ⟨ts, hts, hforms, hend⟩ := manyUntil_passes
    (P := fun ts stmt => Forms room (looping c) (.declaration stmt) ts)
    (Q := fun ts body => Forms room (looping c) (.declarations body) ts)
    (fun {d stmt d'} hclose hloops hread => by
      have hread := (reads_recover (loud_declaration hle hlb)).1 hread
      obtain ⟨ts, hts, hforms⟩ := declaration_builds he hb hclose hread
      have hsame : looping d = looping c := by rw [looping, looping, hloops]
      rw [hsame] at hforms
      obtain ⟨t, us, rfl, -⟩ := hforms.declaration_head
      exact ⟨_, hts, by simp, hforms⟩)
    .nil .cons hclose rfl h
  exact ⟨ts, hts, hforms, hend le_rfl⟩

/-- What the rule for blocks reads is a block. The induction is on the room left. -/
theorem block_builds (room : Nat) : BuildsBlocks (Rule.block room) room := by
  induction room with
  | zero => exact fun _ _ _ _ _ _ h => absurd h reads_tooDeep
  | succ room ih =>
    intro opening hopening c body c' hclose h
    simp only [Rule.block, reads_nested, reads_bind, reads_pure] at h
    obtain ⟨d, ⟨body, c1, hbody, closing, c2, hclosing, rfl, rfl⟩, rfl⟩ := h
    obtain ⟨ts, hp1, hforms, -⟩ := declarations_build (operand_expression_sound room).2 ih
      (loud_operand_expression room).2 (loud_block room) (by exact hclose) hbody
    obtain ⟨hclosing, hp2, -⟩ := passes_of_expect (by decide) (hp1.close_kind hclose) hclosing
    exact ⟨_, (hp1.trans hp2).shallower, .block hopening hforms hclosing⟩

/-- A program that is read cleanly is one, up to a token that ends it. -/
theorem program_forms {body : List Stmt} (hclose : c.close.kind = .eof)
    (h : program.Reads c body c') :
    ∃ ts, c.Passes ts c' ∧ Forms maxDepth (looping c) (.declarations body) ts ∧
      c'.peek.kind = .eof := by
  obtain ⟨ts, hts, hforms, hend⟩ := declarations_build (operand_expression_sound maxDepth).2
    (block_builds maxDepth) (loud_operand_expression maxDepth).2 (loud_block maxDepth) hclose h
  exact ⟨ts, hts, hforms, by simpa using hend⟩

end Lox.Rule
