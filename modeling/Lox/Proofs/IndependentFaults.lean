import Lox.Proofs.LongerReading

/-!
# Faults are reported independently

A part of a program that ends in a semicolon is read the same whatever follows it, unless
the end of the part itself is reported. So what follows is read as on its own: the
statements of both parts stand one after the other, and so do the faults.
-/
namespace Lox

namespace Rule

variable {c : Cursor} {s : Sequel}

/-! ### Rules for expressions -/

section Expressions

variable {operand deeper expression : Rule Expr}

theorem Agrees.operation (hcomposed : Composed operand) (h : Agrees s False operand) :
    Agrees s False (operation operand) := by
  unfold Rule.operation
  have hlevels : ∀ level ∈ levels, level.wanted .semicolon = false ∧ level.wanted .eof = false :=
    fun level => wanted_of_mem_levels
  generalize levels = levels at hlevels
  suffices hfold : Composed (levels.foldr chain operand) ∧
      Agrees s False (levels.foldr chain operand) from hfold.2
  induction levels with
  | nil => exact ⟨hcomposed, h⟩
  | cons level rest ih =>
    obtain ⟨hlevel, hrest⟩ := List.forall_mem_cons.1 hlevels
    obtain ⟨hc, ha⟩ := ih hrest
    exact ⟨hc.chain, ha.bind fun left => ha.chainRest hlevel.1 hlevel.2 hc left⟩

theorem Agrees.assignment (hcomposed : Composed operand) (ho : Agrees s False operand)
    (he : Agrees s False expression) : Agrees s False (assignment operand expression) := by
  refine (ho.operation hcomposed).bind fun target => (agrees_accept rfl).bind fun o => ?_
  cases o with
  | none => exact agrees_pure _
  | some equals =>
    refine he.bind fun value => ?_
    cases target with
    | ident name => exact agrees_pure _
    | _ => exact (agrees_report _ _).bind fun _ => agrees_pure _

theorem Agrees.primary (he : Agrees s False expression) : Agrees s False (primary expression) := by
  intro c hc
  refine .peek_bind hc ?_
  split
  case h_7 h =>
    refine .word hc h (by decide) (he.bind fun inner => ?_)
    exact (agrees_expect (by decide)).map _
  case h_8 => exact agrees_fail _ _ c hc
  all_goals exact .word hc ‹_› (by decide) (agrees_pure _)

theorem Agrees.prefixed (hd : Agrees s False deeper) (he : Agrees s False expression) :
    Agrees s False (prefixed deeper expression) := by
  refine (agrees_accept rfl).bind fun o => ?_
  cases o with
  | none => exact he.primary
  | some op => exact hd.map _

end Expressions

theorem agrees_operand_expression (room : Nat) :
    Agrees s False (operand room) ∧ Agrees s False (expression room) := by
  induction room with
  | zero =>
    rw [operand, expression]
    exact ⟨Agrees.prefixed agrees_tooDeep agrees_tooDeep, agrees_tooDeep⟩
  | succ room ih =>
    have he : Agrees s False (expression (room + 1)) := by
      rw [expression]
      exact (ih.1.assignment (Composed.operand_expression room).1 ih.2).nested
    rw [operand_succ]
    exact ⟨ih.1.nested.prefixed he, he⟩

/-- No operand begins with the end. -/
theorem hungry_prefixed {deeper expression : Rule Expr} : Hungry (prefixed deeper expression) := by
  intro c hc
  have hpeek := hc.peek_kind
  have haccept : accept (fun kind => kind == .bang || kind == .minus) c = ⟨.ok none, c, []⟩ :=
    reads_accept_none (by rw [hpeek]; rfl)
  refine starved_bind_right haccept ?_
  change ((peek >>= _) c).Starved
  refine starved_bind_right rfl ?_
  rw [hpeek]
  exact ⟨_, List.mem_singleton_self _, hpeek⟩

theorem Hungry.operation {operand : Rule Expr} (h : Hungry operand) :
    Hungry (operation operand) := by
  unfold Rule.operation
  induction levels with
  | nil => exact h
  | cons level rest ih => exact ih.bind

theorem hungry_expression (room : Nat) : Hungry (expression room) := by
  cases room with
  | zero =>
    rw [expression]
    exact hungry_tooDeep
  | succ room =>
    have hoperand : Hungry (operand room) := by
      cases room with
      | zero => rw [operand]; exact hungry_prefixed
      | succ room => rw [operand]; exact hungry_prefixed
    have hassignment : Hungry (assignment (operand room) (expression room)) :=
      hoperand.operation.bind
    intro c hc
    have hdeeper := hassignment c.deeper ⟨hc.close_kind, hc.ahead⟩
    rw [expression, nested_eq, Step.closeWith]
    split
    · exact hdeeper
    · exact hdeeper

/-! ### Rules for statements -/

section Statements

variable {expression : Rule Expr} {block : Rule (List Stmt)}

theorem Agrees.braced (hb : Agrees s False block) {what : String} :
    Agrees s False (braced block what) :=
  (agrees_expect (by decide)).bind fun _ => hb

theorem Agrees.optional (he : Agrees s False expression) {stop : Kind} :
    Agrees s False (optional expression stop) := by
  refine agrees_peek.bind fun token => ?_
  split
  · exact agrees_pure _
  · exact he.map _

theorem Hungry.optional (h : Hungry expression) {stop : Kind} (hstop : stop ≠ .eof) :
    Hungry (optional expression stop) := by
  intro c hc
  have hne : c.peek.kind ≠ stop := fun hkind => hstop (hkind.symm.trans hc.peek_kind)
  refine starved_bind_right rfl ?_
  rw [if_neg hne]
  exact starved_bind_left (h c hc)

theorem agrees_parameters : Agrees s False parameters := by
  intro c hc
  refine .peek_bind hc ?_
  split
  · exact agrees_pure _ c hc
  · exact (agrees_parametersRest 0 c hc).congr (parametersFrom_zero_eq hc.close_kind)
      (parametersFrom_zero_eq (c := c.extend s) s.close_kind)

theorem Agrees.function (hb : Agrees s False block) (word : String) :
    Agrees s False (function block word) :=
  (agrees_expect (by decide)).bind fun _ => (agrees_expect (by decide)).bind fun _ =>
    agrees_parameters.bind fun _ => (agrees_expect (by decide)).bind fun _ =>
    (agrees_expect (by decide)).bind fun _ => hb.outsideLoops.map _

theorem agrees_superclass : Agrees s False superclass := by
  refine (agrees_accept rfl).bind fun o => ?_
  cases o with
  | none => exact agrees_pure _
  | some less => exact (agrees_expect (by decide)).map _

/-- The items of a body are followed by a brace, which the end is not. -/
theorem Agrees.many_closed {α β : Type} {item : Rule α} {next : List α → Rule β} {what : String}
    (hitem : Composed item) (hconsumes : ConsumesBefore .rightBrace item) (h : Agrees s True item)
    (hn : ∀ as, Agrees s False (next as)) :
    Agrees s False (many .rightBrace item >>= fun as =>
      expect .rightBrace what >>= fun _ => next as) := by
  intro c hc
  refine (stopsAt_many hitem hconsumes h hc).bind (fun as => ?_) fun as => ?_
  · exact (agrees_expect (by decide)).bind fun _ => hn as
  · exact (hungry_expect (by decide)).bind

theorem Agrees.classDecl (hcomposed : Composed block) (hb : Agrees s False block) :
    Agrees s False (classDecl block) := by
  refine (agrees_expect (by decide)).bind fun _ => agrees_superclass.bind fun _ =>
    (agrees_expect (by decide)).bind fun _ => ?_
  refine Agrees.many_closed (hcomposed.function _) (fun c hclose _ _ => ?_)
    ((hb.function _).mono False.elim) fun methods => agrees_pure _
  exact consumes_function hcomposed _ c hclose

theorem Agrees.varDecl (he : Agrees s False expression) : Agrees s True (varDecl expression) := by
  refine (agrees_expect (by decide)).bind fun name => (agrees_accept rfl).bind fun o => ?_
  have hend (initial : Option Expr) : Agrees s True
      (expect .semicolon "';' after variable declaration" >>= fun _ =>
        pure (Stmt.varDecl name initial)) :=
    (agrees_expect fun _ => trivial).map _
  cases o with
  | none => exact (agrees_pure _).bind hend
  | some equals => exact (he.map _).bind hend

theorem Agrees.expressionStmt (he : Agrees s False expression) :
    Agrees s True (expressionStmt expression) :=
  he.bind fun _ => (agrees_expect fun _ => trivial).map _

theorem Agrees.printStmt (he : Agrees s False expression) : Agrees s True (printStmt expression) :=
  he.bind fun _ => (agrees_expect fun _ => trivial).map _

theorem Agrees.ifStmt (he : Agrees s False expression) (hb : Agrees s False block) :
    Agrees s False (ifStmt expression block) := by
  refine (agrees_expect (by decide)).bind fun _ => he.bind fun _ =>
    (agrees_expect (by decide)).bind fun _ => hb.braced.bind fun _ =>
    (agrees_accept rfl).bind fun o => ?_
  cases o with
  | none => exact agrees_pure _
  | some other => exact hb.braced.map _

theorem Agrees.whileStmt (he : Agrees s False expression) (hb : Agrees s False block) :
    Agrees s False (whileStmt expression block) :=
  (agrees_expect (by decide)).bind fun _ => he.bind fun _ =>
    (agrees_expect (by decide)).bind fun _ => hb.braced.inLoop.map _

theorem Agrees.forInitial (he : Agrees s False expression) :
    Agrees s True (forInitial expression) := by
  intro c hc
  refine .peek_bind hc ?_
  split
  · exact (agreesAt_advance hc fun _ => trivial).map _
  · next h => exact .word hc h (by decide) (he.varDecl.map _)
  · exact he.expressionStmt.map _ c hc

/-- The semicolons in the parentheses of a `for` loop cannot be the last ones. -/
theorem Agrees.forStmt (he : Agrees s False expression) (hh : Hungry expression)
    (hb : Agrees s False block) : Agrees s False (forStmt expression block) := by
  refine (agrees_expect (by decide)).bind fun _ => ?_
  refine he.forInitial.bind_hungry (fun initial => ?_) fun _ => (hh.optional (by decide)).bind
  refine he.optional.bind fun condition => ?_
  have hsemicolon : Agrees s True (expect .semicolon "';' after loop condition") :=
    agrees_expect fun _ => trivial
  refine hsemicolon.bind_hungry (fun _ => ?_) fun _ => (hh.optional (by decide)).bind
  exact he.optional.bind fun step => (agrees_expect (by decide)).bind fun _ =>
    hb.braced.inLoop.map _

theorem Agrees.returnStmt (he : Agrees s False expression) (keyword : Token) :
    Agrees s True (returnStmt expression keyword) :=
  he.optional.bind fun _ => (agrees_expect fun _ => trivial).map _

theorem agrees_jumpStmt (keyword : Token) (word : String) (stmt : Stmt) :
    Agrees s True (jumpStmt keyword word stmt) := by
  refine agrees_loops.bind fun n => ?_
  split
  · exact agrees_fail _ _
  · exact (agrees_expect fun _ => trivial).map _

theorem Agrees.statement (he : Agrees s False expression) (hh : Hungry expression)
    (hb : Agrees s False block) : Agrees s True (statement expression block) := by
  intro c hc
  refine .peek_bind hc ?_
  split
  case h_1 h => exact .word hc h (by decide) he.printStmt
  case h_2 h => exact .word hc h (by decide) ((he.ifStmt hb).mono False.elim)
  case h_3 h => exact .word hc h (by decide) ((he.whileStmt hb).mono False.elim)
  case h_4 h => exact .word hc h (by decide) ((he.forStmt hh hb).mono False.elim)
  case h_5 h => exact .word hc h (by decide) (he.returnStmt _)
  case h_6 h => exact .word hc h (by decide) (agrees_jumpStmt _ _ _)
  case h_7 h => exact .word hc h (by decide) (agrees_jumpStmt _ _ _)
  case h_8 h => exact .word hc h (by decide) ((hb.map _).mono False.elim)
  case h_9 => exact (agreesAt_advance hc fun _ => trivial).map _
  case h_10 => exact he.expressionStmt c hc

theorem Agrees.declaration (he : Agrees s False expression) (hh : Hungry expression)
    (hcomposed : Composed block) (hb : Agrees s False block) :
    Agrees s True (declaration expression block) := by
  intro c hc
  refine .peek_bind hc ?_
  split
  case h_1 h => exact .word hc h (by decide) ((hb.classDecl hcomposed).mono False.elim)
  case h_2 h => exact .word hc h (by decide) (((hb.function _).map _).mono False.elim)
  case h_3 h => exact .word hc h (by decide) he.varDecl
  case h_4 => exact he.statement hh hb c hc

end Statements

theorem agrees_block (room : Nat) : Agrees s False (block room) := by
  induction room with
  | zero => exact agrees_tooDeep
  | succ room ih =>
    have hce := (Composed.operand_expression room).2
    have hcb := Composed.block_room room
    have hstmt : Agrees s True (recovered (expression room) (block room)) :=
      ((agrees_operand_expression room).2.declaration (hungry_expression room) hcb ih).recover
    refine Agrees.nested ?_
    exact .many_closed (hce.recovered hcb) (consumesBefore_recovered hce hcb) hstmt
      fun body => agrees_pure body

/-! ### Programs -/

/-- If the end is not reported, the items before it are read, and then those of what follows. -/
theorem many_extend {α : Type} {item : Rule α} (hitem : Composed item)
    (hconsumes : ConsumesBefore .eof item) (hagrees : Agrees s True item)
    (hok : ∀ c, ∃ a, (item c).outcome = .ok a) (hc : c.Bounded)
    (hahead : ∀ t ∈ c.ahead, t.kind ≠ .eof) (hfed : ¬(many .eof item c).Starved) :
    ∃ items d reports, many .eof item c = ⟨.ok items, d, reports⟩ ∧ d.AtEnd ∧
      many .eof item (c.extend s) = (many .eof item (d.extend s)).after items reports := by
  induction hlength : c.ahead.length using Nat.strong_induction_on generalizing c with
  | _ n ih =>
    obtain ⟨t, rest, hcons⟩ := hc.exists_cons
    have hpeek : c.peek.kind ≠ .eof := hahead _ (Cursor.peek_mem (hcons ▸ List.cons_ne_nil t rest))
    obtain ⟨a, ha⟩ := hok c
    rcases hrule : item c with ⟨outcome, d, reports⟩
    rw [hrule] at ha
    obtain rfl : outcome = .ok a := ha
    rw [many_eq hitem hconsumes hc.close_kind, manyRound_of_ok hpeek hpeek hrule] at hfed ⊢
    obtain hstarved | ⟨hsame, hends⟩ := hagrees c hc
    · rw [hrule] at hstarved
      exact absurd (hstarved.mono (List.subset_append_left _ _)) hfed
    unfold SameAt at hsame
    rw [hrule] at hsame hends
    have hpeek' : (c.extend s).peek.kind ≠ .eof := hc.peek_extend.symm ▸ hpeek
    rw [many_eq (c := c.extend s) hitem hconsumes s.close_kind,
      manyRound_of_ok hpeek' hpeek' hsame]
    obtain hbounded | ⟨-, hatEnd, -⟩ := hends
    · have hlt := (hconsumes c hc.close_kind hpeek hpeek).length_lt hrule
      obtain ⟨ts, hts⟩ := hitem.passes_of_ok hrule
      have hmem : ∀ t ∈ d.ahead, t.kind ≠ .eof := fun t ht =>
        hahead t (hts.ahead ▸ List.mem_append_right ts ht)
      have hfed' : ¬(many .eof item d).Starved := fun hstarved =>
        hfed (hstarved.mono (List.subset_append_right _ _))
      obtain ⟨items, e, more, heq, he, hextend⟩ := ih _ (hlength ▸ hlt) hbounded hmem hfed' rfl
      refine ⟨a :: items, e, reports ++ more, ?_, he, ?_⟩
      · rw [heq]
        rfl
      · change (many .eof item (d.extend s)).after [a] reports = _
        rw [hextend, Step.after_after, List.singleton_append]
    · refine ⟨[a], d, reports, ?_, hatEnd, rfl⟩
      rw [many_of_nil hatEnd.ahead]
      simp [Step.after, Functor.map, Except.map]

theorem program_extend (hc : c.Bounded) (hahead : ∀ t ∈ c.ahead, t.kind ≠ .eof)
    (hfed : ¬(program c).Starved) :
    ∃ stmts d reports, program c = ⟨.ok stmts, d, reports⟩ ∧ d.AtEnd ∧
      program (c.extend s) = (program (d.extend s)).after stmts reports := by
  have hce := (Composed.operand_expression maxDepth).2
  have hcb := Composed.block_room maxDepth
  have hdeclaration : Agrees s True (declaration (expression maxDepth) (block maxDepth)) :=
    (agrees_operand_expression maxDepth).2.declaration (hungry_expression maxDepth) hcb
      (agrees_block maxDepth)
  refine many_extend (hce.recovered hcb) (consumesBefore_recovered hce hcb) hdeclaration.recover
    (fun d => ?_) hc hahead hfed
  unfold recovered recover
  rcases declaration (expression maxDepth) (block maxDepth) d with ⟨fault | stmt, e, reports⟩
  · exact ⟨_, rfl⟩
  · exact ⟨_, rfl⟩

end Rule

/-- Let tokens end in a semicolon, and let no fault in them be about their end. Whatever follows
them, the statements read are those of these tokens and then those of the tokens that follow, and
the faults reported are those of both in the same order. -/
theorem Reading.ofTokens_append {first second : List Token} {close close' : Token}
    (hclose : close.kind = .eof) (hclose' : close'.kind = .eof)
    (hfirst : ∀ t ∈ first, t.kind ≠ .eof) (hsecond : ∀ t ∈ second, t.kind ≠ .eof)
    (hlast : first.getLast?.map Token.kind = some .semicolon)
    (hend : ∀ fault ∈ (Reading.ofTokens first close).faults, fault.token.kind ≠ .eof) :
    (Reading.ofTokens (first ++ second) close').program =
        (Reading.ofTokens first close).program ++ (Reading.ofTokens second close').program ∧
      (Reading.ofTokens (first ++ second) close').faults =
        (Reading.ofTokens first close).faults ++ (Reading.ofTokens second close').faults ∧
      (Reading.ofTokens (first ++ second) close').reports =
        (Reading.ofTokens first close).reports ++ (Reading.ofTokens second close').reports := by
  have hbounded : (Cursor.start first close).Bounded := ⟨hclose, hlast⟩
  have hfed : ¬(Rule.program (.start first close)).Starved := fun ⟨fault, hmem, hkind⟩ =>
    hend fault hmem hkind
  obtain ⟨stmts, d, faults, hprogram, hd, hextend⟩ :=
    @Rule.program_extend _ ⟨second, close', hclose'⟩ hbounded hfirst hfed
  obtain ⟨others, faults', hothers⟩ := Rule.program_eq hclose' hsecond
  -- what follows is read from a cursor that only counts more tokens
  obtain ⟨ts, hts⟩ := Rule.Composed.program.passes_of_ok hprogram
  have hshift : d.extend ⟨second, close', hclose'⟩ =
      (Cursor.start second close').shift ts.length := by
    simp [Cursor.extend, Cursor.shift, Cursor.start, hd.ahead, hts.position, hts.depth, hts.loops]
  rw [hshift, Rule.Composed.program.shift, hothers] at hextend
  have hjoined : ofTokens (first ++ second) close' = ⟨stmts ++ others, faults ++ faults', _⟩ :=
    ofTokens_of_ok hextend
  rw [ofTokens_of_ok hprogram, ofTokens_of_ok hothers, hjoined]
  exact ⟨rfl, rfl, List.map_append⟩

/-- The tokens of `{ print ; } break ;`, which have two faults. -/
def twoFaults : List Token :=
  [⟨.leftBrace, "\x7b", none, 1⟩, ⟨.kwPrint, "print", none, 1⟩, ⟨.semicolon, ";", none, 1⟩,
    ⟨.rightBrace, "\x7d", none, 1⟩, ⟨.kwBreak, "break", none, 2⟩, ⟨.semicolon, ";", none, 2⟩]

/-- The tokens of `} print (`, which have two faults, the second one about the end. -/
def cutShort : List Token :=
  [⟨.rightBrace, "\x7d", none, 3⟩, ⟨.kwPrint, "print", none, 3⟩, ⟨.leftParen, "(", none, 3⟩]

/-- All four faults are reported when the tokens are read in one go. -/
theorem Reading.reports_twoFaults_cutShort :
    (Reading.ofTokens (twoFaults ++ cutShort) ⟨.eof, "", none, 3⟩).program =
        [.block [.error ⟨.semicolon, ";", none, 1⟩ "Expect expression."],
          .error ⟨.kwBreak, "break", none, 2⟩ "Can't use 'break' outside of a loop.",
          .error ⟨.rightBrace, "\x7d", none, 3⟩ "Expect expression.",
          .error ⟨.eof, "", none, 3⟩ "Expect expression."] ∧
      (Reading.ofTokens (twoFaults ++ cutShort) ⟨.eof, "", none, 3⟩).faults =
        [⟨⟨.semicolon, ";", none, 1⟩, .expected "expression"⟩,
          ⟨⟨.kwBreak, "break", none, 2⟩, .outsideLoop "break"⟩,
          ⟨⟨.rightBrace, "\x7d", none, 3⟩, .expected "expression"⟩,
          ⟨⟨.eof, "", none, 3⟩, .expected "expression"⟩] := by
  have hend : ∀ fault ∈ (Reading.ofTokens twoFaults ⟨.eof, "", none, 2⟩).faults,
      fault.token.kind ≠ .eof := by decide
  obtain ⟨hprogram, hfaults, -⟩ := @Reading.ofTokens_append twoFaults cutShort
    ⟨.eof, "", none, 2⟩ ⟨.eof, "", none, 3⟩ rfl rfl (by decide) (by decide) rfl hend
  rw [hprogram, hfaults]
  exact ⟨rfl, rfl⟩

end Lox
