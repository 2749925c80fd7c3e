import Lox.Proofs.PredictiveReading

/-!
# Every rule decides its production

The rules for expressions and statements, each with the production for its category. Where a rule
looks at the next token to choose between alternatives, the classes with which they begin
are disjoint; where it looks whether to go on, no sequel begins with what it would go on with.
Both are computed from the tables.
-/
namespace Lox

open Grammar

namespace Rule

variable {c : Cursor} {barred : List Kind} {looping : Bool}

/-! ### Expressions -/

section Expressions

variable {operand deeper expression : Rule Expr}

/-- An operator with its right operand. -/
def operated (t : Tier) : Pattern := .seq (.token t.operators) (.phrase (.expr t.operand))

theorem fits_operated (t : Tier) :
    Fits t.operand.continuing (.many (operated t)) t.continuing := by
  cases t <;> decide

theorem decidesAt_chainFrom {t : Tier}
    (ho : Decides operand looping (.phrase (.expr t.operand)) t.operand.continuing)
    (bound : List Token) :
    ∀ (left : Expr) (c : Cursor), c.Stands looping → c.ahead.length ≤ bound.length →
      DecidesAt (chainFrom t.level operand left bound) c (.many (operated t)) t.continuing := by
  have heof : .eof ∉ t.operators := by cases t <;> decide
  induction bound with
  | nil =>
    intro left c hc hlength
    refine decidesAt_pure left .none ?_
    rw [hc.peek_kind hlength]
    cases t <;> decide
  | cons u more ih =>
    intro left c hc hlength
    have hoperators : Fits t.operators .nothing t.continuing := by cases t <;> decide
    have hround : DecidesAt (chainFrom t.level operand left (u :: more)) c
        (.either (.seq (.token t.operators)
          (.seq (.phrase (.expr t.operand)) (.many (operated t)))) .nothing) t.continuing := by
      refine .accept (fun _ => rfl) heof hc rfl (fun hpass => ?_)
        (decidesAt_pure left .nothing (by simp [Pattern.firsts])) hoperators
      refine (ho _ (hpass.stands hc)).bind (fun right ts d _ hpass' _ => ?_) (fits_operated t)
      refine ih _ d (hpass'.stands (hpass.stands hc)) ?_
      have hlt := hpass'.length_le.trans_lt (hpass.length_lt (List.cons_ne_nil _ _))
      exact Nat.le_of_lt_succ (hlt.trans_le hlength)
    refine hround.congr ?_
    rw [Pattern.language_many, operated]
    simp only [Pattern.language_either, Pattern.language_seq, Pattern.language_nothing, mul_assoc]

theorem Decides.chain {t : Tier}
    (ho : Decides operand looping (.phrase (.expr t.operand)) t.operand.continuing) :
    Decides (chain t.level operand) looping (.phrase (.expr (.tier t))) t.continuing := by
  refine Decides.phrase fun c hc => (ho c hc).bind (fun left ts d _ hpass _ => ?_) (fits_operated t)
  exact decidesAt_chainFrom ho d.ahead left d (hpass.stands hc) le_rfl

theorem Decides.operation (ho : Decides operand looping (.phrase (.expr .unary)) []) :
    Decides (operation operand) looping (.phrase (.expr (.tier .logicOr)))
      Tier.logicOr.continuing := by
  rw [operation_eq]
  have hfactor : Decides _ looping (.phrase (.expr (.tier .factor))) _ := ho.chain
  have hterm : Decides _ looping (.phrase (.expr (.tier .term))) _ := hfactor.chain
  have hcomparison : Decides _ looping (.phrase (.expr (.tier .comparison))) _ := hterm.chain
  have hequality : Decides _ looping (.phrase (.expr (.tier .equality))) _ := hcomparison.chain
  have hand : Decides _ looping (.phrase (.expr (.tier .logicAnd))) _ := hequality.chain
  exact hand.chain

theorem Decides.assignment (ho : Decides operand looping (.phrase (.expr .unary)) [])
    (he : Decides expression looping (.phrase (.expr .expression))
      (Symbol.continuing .expression)) :
    Decides (assignment operand expression) looping (.phrase (.expr .assignment))
      (Symbol.continuing .assignment) := by
  have hvalue : Decides expression looping (.phrase (.expr .assignment))
      (Symbol.continuing .assignment) := he.congr (Pattern.language_phrase _)
  refine Decides.phrase (ho.operation.bind (fun target => ?_) (by decide))
  refine Decides.accept (by rintro ⟨⟩ <;> rfl) (by decide) rfl (fun equals => ?_)
    (decides_pure target) (by decide)
  -- a target that is no name is reported behind the value
  refine fun c hc => (hvalue c hc).before_nothing fun value d => ?_
  cases target with
  | ident name => exact decidesAt_pure _ .nothing (by simp [Pattern.firsts])
  | _ => exact .bound ⟨equals, .assignmentTarget⟩ rfl rfl

theorem Decides.primary
    (he : Decides expression looping (.phrase (.expr .expression))
      (Symbol.continuing .expression)) :
    Decides (primary expression) looping (.phrase (.expr .primary)) [] := by
  refine Decides.phrase fun c hc => ?_
  have hinner : Decides
      (expression >>= fun inner => expect .rightParen "')' after expression" >>= fun _ =>
        pure (Expr.grouping inner)) looping
      (.seq (.phrase (.expr .expression)) (.token [.rightParen])) [] :=
    he.bind (fun inner => (decides_expect (by decide)).map _) (by decide)
  refine .peek_bind ?_
  split
  case h_7 h => exact (DecidesAt.word hc h (by decide) rfl hinner).oneOf (by rw [h]; decide)
  case h_8 hfalse htrue hnil hnumber hstring hident hparen =>
    have hfirsts : (production (.expr .primary)).firsts = [.number, .string, .kwTrue, .kwFalse,
      .kwNil, .leftParen, .identifier] := rfl
    refine .stuck rfl rfl rfl rfl ?_ rfl
    rw [hfirsts]
    simpa using ⟨hnumber, hstring, htrue, hfalse, hnil, hparen, hident⟩
  all_goals
    next h => exact (DecidesAt.word_pure hc h (by decide) _).oneOf (by rw [h]; decide)

theorem Decides.prefixed (hd : Decides deeper looping (.phrase (.expr .unary)) [])
    (he : Decides expression looping (.phrase (.expr .expression))
      (Symbol.continuing .expression)) :
    Decides (prefixed deeper expression) looping (.phrase (.expr .unary)) [] :=
  Decides.phrase <| Decides.accept (by rintro ⟨⟩ <;> rfl) (by decide) rfl (fun op => hd.map _)
    he.primary (by decide)

theorem decides_operand_expression (room : Nat) :
    Decides (Rule.operand room) looping (.phrase (.expr .unary)) [] ∧
      Decides (Rule.expression room) looping (.phrase (.expr .expression))
        (Symbol.continuing .expression) := by
  induction room with
  | zero =>
    rw [Rule.operand, Rule.expression]
    exact ⟨decides_tooDeep.prefixed decides_tooDeep, decides_tooDeep⟩
  | succ room ih =>
    have he : Decides (Rule.expression (room + 1)) looping (.phrase (.expr .expression))
        (Symbol.continuing .expression) := by
      rw [Rule.expression]
      exact Decides.phrase (ih.1.assignment ih.2).nested
    rw [operand_succ]
    exact ⟨ih.1.nested.prefixed he, he⟩

end Expressions

/-! ### Statements -/

section Statements

variable {expression : Rule Expr} {block : Rule (List Stmt)}

theorem language_parameters :
    (Pattern.phrase .parameters).language =
      (Pattern.seq (.token [.identifier])
        (.optional (.seq (.token [.comma]) (.phrase .parameters)))).language := by
  have hnames : (Pattern.phrase .parameters).language =
      (Pattern.token [.identifier]).language *
        (Pattern.many (.seq (.token [.comma]) (.token [.identifier]))).language := by
    rw [Pattern.language_phrase]
    exact Pattern.language_seq
  rw [Pattern.language_seq, Pattern.optional, Pattern.language_either, Pattern.language_seq,
    Pattern.language_nothing, hnames]
  conv_lhs => rw [Pattern.language_many, Pattern.language_seq, mul_assoc]

theorem decidesAt_parametersFrom (bound : List Token) :
    ∀ (count : Nat) (c : Cursor), c.Stands looping → c.ahead.length ≤ bound.length →
      DecidesAt (parametersFrom count bound) c (.phrase .parameters) [.comma] := by
  induction bound with
  | nil =>
    intro count c hc hlength
    have hend := hc.peek_kind hlength
    have hfails := expect_of_ne "parameter name" (by rw [hend]; decide : c.peek.kind ≠ .identifier)
    exact .stuck (bind_of_error hfails) rfl rfl rfl (by rw [hend]; decide) rfl
  | cons t more ih =>
    intro count c hc hlength
    unfold parametersFrom
    dsimp only
    split
    · exact .bound ⟨c.peek, .tooManyParameters⟩ rfl rfl
    · refine DecidesAt.congr ?_ language_parameters.symm
      refine (decides_expect (by decide) c hc).bind (fun name ts d _ hpass _ => ?_) (fits_nil rfl)
      refine .accept (by rintro ⟨⟩ <;> rfl) (by decide) (hpass.stands hc) rfl (fun hpass' => ?_)
        (decidesAt_pure _ .nothing (by simp [Pattern.firsts])) (by decide)
      refine (ih _ _ (hpass'.stands (hpass.stands hc)) ?_).map _
      have hlt := (hpass'.length_lt (List.cons_ne_nil _ _)).trans_le hpass.length_le
      exact Nat.le_of_lt_succ (hlt.trans_le hlength)

theorem decides_parameters :
    Decides parameters looping (.optional (.phrase .parameters)) (Kind.allBut [.rightParen]) := by
  intro c hc
  refine .peek_bind ?_
  split
  · next hstop =>
    refine decidesAt_pure [] (.right .nothing) ?_
    rw [hstop]
    decide
  · next hstop =>
    have hpeek : c.peek.kind ∈ Kind.allBut [.rightParen] := Kind.mem_allBut.2 (by simpa using hstop)
    have hnames := (decidesAt_parametersFrom c.ahead 0 c hc le_rfl).mono
      (by decide : ∀ kind ∈ [Kind.comma], kind ∈ Kind.allBut [.rightParen])
    exact (hnames.left (by simp [Pattern.firsts]) (.inr hpeek)).of_eq rfl

theorem Decides.braced {what : String}
    (hb : Decides block looping (production (.block looping)).rest []) :
    Decides (braced block what) looping (.phrase (.block looping)) [] :=
  Decides.phrase (.expect_bind (by decide) rfl fun _ => hb)

theorem Decides.function (hb : Decides block false (production (.block false)).rest [])
    (word : String) : Decides (function block word) looping (.phrase .function) [] := by
  refine Decides.phrase ?_
  refine .expect_bind (by decide) rfl fun name => ?_
  refine .expect_bind (by decide) rfl fun _ => ?_
  refine decides_parameters.bind (fun params => ?_) (by decide)
  refine .expect_bind (by decide) rfl fun _ => Decides.phrase ?_
  exact .expect_bind (by decide) rfl fun _ => (hb.outsideLoops looping).map _

theorem decides_superclass :
    Decides superclass looping (.optional (.seq (.token [.less]) (.token [.identifier])))
      [.less] :=
  Decides.accept (by rintro ⟨⟩ <;> rfl) (by decide) rfl
    (fun _ => ((decides_expect (by decide)).map _).of_nil) (decides_pure none) (by decide)

theorem Decides.classDecl (hb : Decides block false (production (.block false)).rest []) :
    Decides (classDecl block) looping (production .classDecl).rest [] := by
  refine .expect_bind (by decide) rfl fun name => ?_
  refine decides_superclass.bind (fun parent => ?_) (by decide)
  refine .expect_bind (by decide) rfl fun _ => ?_
  refine ((hb.function "method").many rfl (by decide) (by decide)).bind (fun methods => ?_)
    (by decide)
  exact (decides_expect (by decide)).map _

theorem decides_jumpStmt (keyword : Token) (word : String) (stmt : Stmt) :
    Decides (jumpStmt keyword word stmt) true (.token [.semicolon]) [] := by
  intro c hc
  have hloops : c.loops ≠ 0 := by
    have hpos := hc.loops.2 rfl
    omega
  have hrule : jumpStmt keyword word stmt c =
      (if c.loops = 0 then fail keyword (.outsideLoop word)
        else expect .semicolon ("';' after '" ++ word ++ "'") >>= fun _ => pure stmt) c := rfl
  refine DecidesAt.of_eq ?_ hrule
  rw [if_neg hloops]
  exact (decides_expect (by decide) c hc).map _

/-- Outside of loops the word of a jump begins no statement. It has been passed when it is
reported. -/
theorem decidesAt_jump_outside {kind : Kind} {word : String} {stmt : Stmt}
    (hc : c.Stands false) (hkind : c.peek.kind = kind)
    (hjump : kind = .kwBreak ∨ kind = .kwContinue) :
    DecidesAt (advance >>= fun _ => jumpStmt c.peek word stmt) c
      (production (.statement false)) barred := by
  have hne : c.peek.kind ≠ .eof := by
    rw [hkind]
    rcases hjump with rfl | rfl <;> decide
  have hpass := Cursor.passes_advance hc.close hne
  have hloops : c.advance.loops = 0 := by
    have houtside := hc.loops
    rw [hpass.loops]
    simpa using houtside
  have hfails : (advance >>= fun _ => jumpStmt c.peek word stmt) c =
      ⟨.error ⟨c.peek, .outsideLoop word⟩, c.advance, [⟨c.peek, .outsideLoop word⟩]⟩ := by
    change (if c.advance.loops = 0 then fail c.peek (.outsideLoop word)
        else expect .semicolon ("';' after '" ++ word ++ "'") >>= fun _ => pure stmt) c.advance = _
    rw [if_pos hloops]
    rfl
  have hposition : SyntaxFault.position ⟨c.peek, .outsideLoop word⟩ c.advance = c.position := by
    change c.advance.position - 1 = c.position
    rw [hpass.position]
    rfl
  refine .stuck hfails rfl hposition rfl ?_ rfl
  rw [hkind]
  rcases hjump with rfl | rfl <;> decide

variable (he : Decides expression looping (.phrase (.expr .expression))
  (Symbol.continuing .expression))
include he

theorem Decides.optional {stop : Kind}
    (hfirst : stop ∉ starters) (hcontinuing : stop ∉ Symbol.continuing .expression) :
    Decides (optional expression stop) looping (.optional (.phrase (.expr .expression)))
      (Kind.allBut [stop]) := by
  intro c hc
  refine .peek_bind ?_
  split
  · next hstop =>
    refine decidesAt_pure none (.right .nothing) ?_
    rw [hstop]
    simpa [Pattern.optional, Pattern.firsts, Category.firsts] using hfirst
  · next hstop =>
    have hpeek : c.peek.kind ∈ Kind.allBut [stop] := Kind.mem_allBut.2 (by simpa using hstop)
    have hbarred : ∀ kind ∈ Symbol.continuing .expression, kind ∈ Kind.allBut [stop] := by
      intro kind hkind
      have hne : kind ≠ stop := ne_of_mem_of_not_mem hkind hcontinuing
      exact Kind.mem_allBut.2 (by simpa using hne)
    exact (((he c hc).mono hbarred).map some).left (by simp [Pattern.firsts]) (.inr hpeek)

theorem Decides.varDecl :
    Decides (varDecl expression) looping (production .varDecl).rest [] := by
  refine .expect_bind (by decide) rfl fun name => ?_
  have hsemicolon (initial : Option Expr) : Decides
      (expect .semicolon "';' after variable declaration" >>= fun _ =>
        pure (Stmt.varDecl name initial)) looping (.token [.semicolon]) [] :=
    (decides_expect (by decide)).map _
  -- the semicolon comes behind the value, or at once
  let pattern : Pattern :=
    .either (.seq (.token [.equal]) (.seq (.phrase (.expr .expression)) (.token [.semicolon])))
      (.token [.semicolon])
  refine Decides.congr (p := pattern) ?_ ?_
  · exact Decides.accept (by rintro ⟨⟩ <;> rfl) (by decide) rfl
      (fun _ => (he.map some).bind hsemicolon (by decide)) (hsemicolon none) (by decide)
  · simp only [pattern, Pattern.inOrder, Pattern.optional, Pattern.language_seq,
      Pattern.language_either, Pattern.language_nothing, add_mul, mul_assoc, one_mul]

theorem Decides.expressionStmt :
    Decides (expressionStmt expression) looping (.phrase .exprStmt) [] :=
  Decides.phrase <| he.bind (fun e => (decides_expect (by decide)).map _) (by decide)

theorem Decides.printStmt :
    Decides (printStmt expression) looping (production .printStmt).rest [] :=
  he.bind (fun e => (decides_expect (by decide)).map _) (by decide)

theorem Decides.ifStmt
    (hb : Decides block looping (production (.block looping)).rest []) :
    Decides (ifStmt expression block) looping (production (.ifStmt looping)).rest [.kwElse] := by
  refine .expect_bind (by decide) rfl fun _ => ?_
  refine he.bind (fun condition => ?_) (by cases looping <;> decide)
  refine .expect_bind (by decide) rfl fun _ => ?_
  refine hb.braced.bind (fun body => ?_) (fits_nil rfl)
  exact Decides.accept (by rintro ⟨⟩ <;> rfl) (by decide) rfl (fun _ => (hb.braced.map _).of_nil)
    (decides_pure _) (by decide)

theorem Decides.whileStmt
    (hb : Decides block true (production (.block true)).rest []) :
    Decides (whileStmt expression block) looping (production .whileStmt).rest [] := by
  refine .expect_bind (by decide) rfl fun _ => ?_
  refine he.bind (fun condition => ?_) (by decide)
  refine .expect_bind (by decide) rfl fun _ => ?_
  exact (hb.braced.inLoop looping).map _

theorem Decides.forInitial :
    Decides (forInitial expression) looping
      (.oneOf [.phrase .varDecl, .phrase .exprStmt, .token [.semicolon]]) [] := by
  intro c hc
  refine .peek_bind ?_
  split
  · next h => exact (DecidesAt.word_pure hc h (by decide) _).oneOf (by rw [h]; decide)
  · next h => exact .keyword .varDecl hc h (by decide) rfl rfl (he.varDecl.map some) (by decide)
  · next hsemicolon hvar =>
    exact ((he.expressionStmt c hc).map some).oneOf_default [.semicolon, .kwVar] (by decide)
      (by simpa using ⟨hsemicolon, hvar⟩) (by decide)

theorem Decides.forStmt
    (hb : Decides block true (production (.block true)).rest []) :
    Decides (forStmt expression block) looping (production .forStmt).rest [] := by
  refine .expect_bind (by decide) rfl fun _ => ?_
  refine he.forInitial.bind (fun initial => ?_) (fits_nil rfl)
  refine (he.optional (by decide) (by decide)).bind (fun condition => ?_) (by decide)
  refine .expect_bind (by decide) rfl fun _ => ?_
  refine (he.optional (by decide) (by decide)).bind (fun step => ?_) (by decide)
  refine .expect_bind (by decide) rfl fun _ => ?_
  exact (hb.braced.inLoop looping).map _

theorem Decides.returnStmt (keyword : Token) :
    Decides (returnStmt expression keyword) looping (production .returnStmt).rest [] :=
  (he.optional (by decide) (by decide)).bind (fun value => (decides_expect (by decide)).map _)
    (by decide)

theorem Decides.statement
    (hb : ∀ looping, Decides block looping (production (.block looping)).rest []) :
    Decides (statement expression block) looping (.phrase (.statement looping)) [.kwElse] := by
  refine Decides.phrase fun c hc => ?_
  refine .peek_bind ?_
  split
  · next h =>
    exact .keyword .printStmt hc h (by decide) rfl rfl he.printStmt.of_nil
      (by cases looping <;> decide)
  · next h =>
    exact .keyword (.ifStmt looping) hc h (by decide) rfl rfl (he.ifStmt (hb looping))
      (by cases looping <;> decide)
  · next h =>
    exact .keyword .whileStmt hc h (by decide) rfl rfl (he.whileStmt (hb true)).of_nil
      (by cases looping <;> decide)
  · next h =>
    exact .keyword .forStmt hc h (by decide) rfl rfl (he.forStmt (hb true)).of_nil
      (by cases looping <;> decide)
  · next h =>
    exact .keyword .returnStmt hc h (by decide) rfl rfl (he.returnStmt c.peek).of_nil
      (by cases looping <;> decide)
  · next h =>
    cases looping with
    | false => exact decidesAt_jump_outside hc h (.inl rfl)
    | true =>
      exact .keyword .breakStmt hc h (by decide) rfl rfl (decides_jumpStmt _ _ _).of_nil (by decide)
  · next h =>
    cases looping with
    | false => exact decidesAt_jump_outside hc h (.inr rfl)
    | true =>
      exact .keyword .continueStmt hc h (by decide) rfl rfl (decides_jumpStmt _ _ _).of_nil
        (by decide)
  · next h =>
    exact .keyword (.block looping) hc h (by decide) rfl rfl ((hb looping).map _).of_nil
      (by cases looping <;> decide)
  · next h =>
    exact (DecidesAt.word_pure hc h (by decide) _).oneOf (by rw [h]; cases looping <;> decide)
  · next hprint hif hwhile hfor hreturn hbreak hcontinue hbrace hsemicolon =>
    refine (he.expressionStmt c hc).of_nil.oneOf_default (openers.drop 3)
      (by cases looping <;> decide) ?_ (by cases looping <;> decide)
    have hopeners : openers.drop 3 = [.kwPrint, .kwIf, .kwWhile, .kwFor, .kwReturn, .kwBreak,
      .kwContinue, .leftBrace, .semicolon] := rfl
    rw [hopeners]
    simpa using ⟨hprint, hif, hwhile, hfor, hreturn, hbreak, hcontinue, hbrace, hsemicolon⟩

theorem Decides.declaration
    (hb : ∀ looping, Decides block looping (production (.block looping)).rest []) :
    Decides (declaration expression block) looping (.phrase (.declaration looping)) [.kwElse] := by
  refine Decides.phrase fun c hc => ?_
  refine .peek_bind ?_
  split
  · next h =>
    exact .keyword .classDecl hc h (by decide) rfl rfl (hb false).classDecl.of_nil
      (by cases looping <;> decide)
  · next h =>
    exact .keyword .funDecl hc h (by decide) rfl rfl (((hb false).function "function").map _).of_nil
      (by cases looping <;> decide)
  · next h =>
    exact .keyword .varDecl hc h (by decide) rfl rfl he.varDecl.of_nil (by cases looping <;> decide)
  · next hclass hfun hvar =>
    exact (he.statement hb c hc).oneOf_default [.kwClass, .kwFun, .kwVar] (by simp)
      (by simpa using ⟨hclass, hfun, hvar⟩) (by cases looping <;> decide)

end Statements

end Rule

end Lox
