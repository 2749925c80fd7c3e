import Lox.Proofs.StatementSoundness

/-!
# What is a statement is read as one

Every phrase of the grammar is read cleanly by its rule, and what is read is what
the phrase stands for. The induction is on the derivation. A statement needs to know
that no `else` comes behind it, and statements in a row that a stop comes behind
them; the first tokens of phrases show that this is so inside a program. With the
other direction this makes the clean readings of a program exactly its derivations.
-/
namespace Lox.Rule

open Grammar

variable {room : Nat} {inLoop : Bool} {c c' : Cursor} {ts us : List Token}

/-! ### The parts of statements -/

theorem reads_expression {e : Expr} (h : Derives room .expression ts e) (hp : c.Passes ts c')
    (hstop : c'.peek.kind ∉ Symbol.expression.continuing) : (expression room).Reads c e c' :=
  (complete_of_derives h).reads hp hstop

theorem reads_optional {o : Option Expr} (stop : Kind) (h : DerivesOptional room ts o)
    (hp : c.Passes ts c') (hend : c'.peek.kind = stop)
    (hstop : stop ∉ starters ++ Symbol.expression.continuing) :
    (optional (expression room) stop).Reads c o c' := by
  rw [optional, reads_peek_bind]
  simp only [List.mem_append, not_or] at hstop
  cases o with
  | none =>
    obtain rfl : ts = [] := h
    obtain rfl := Cursor.passes_nil.1 hp
    rw [if_pos hend]
    exact reads_pure.2 ⟨rfl, rfl⟩
  | some e =>
    obtain ⟨t, us, rfl, ht⟩ := Derives.head h
    have hne : t.kind ≠ stop := fun heq => hstop.1 (heq ▸ ht)
    rw [hp.peek_eq, if_neg hne]
    simp only [reads_bind, reads_pure]
    exact ⟨e, c', reads_expression h hp (hend ▸ hstop.2), rfl, rfl⟩

theorem reads_parametersFrom {params : List Token} (h : DerivesNames ts params) :
    ∀ {c c' : Cursor} {bound : List Token} {count : Nat}, c.Passes ts c' →
      c'.peek.kind ≠ .comma → ts.length ≤ bound.length → count + params.length ≤ 255 →
      (parametersFrom count bound).Reads c params c' := by
  induction h with
  | @one name hname =>
    intro c c' bound count hp hcomma hlen hcount
    obtain _ | ⟨_, more⟩ := bound
    · exact absurd hlen (by simp)
    · have hle : ¬255 ≤ count := by simp only [List.length_cons, List.length_nil] at hcount; omega
      simp only [parametersFrom, hle, if_false, reads_bind]
      refine ⟨name, c', reads_expect hname hp, none, c', reads_accept_none ?_, ?_⟩
      · simpa using hcomma
      · exact reads_pure.2 ⟨rfl, rfl⟩
  | @more name comma ts names hname hk _ ih =>
    intro c c' bound count hp hcomma hlen hcount
    obtain ⟨d, hd, hp⟩ := Cursor.passes_cons.1 hp
    obtain ⟨d', hd', hp⟩ := Cursor.passes_cons.1 hp
    simp only [List.length_cons] at hlen hcount
    obtain _ | ⟨_, more⟩ := bound
    · exact absurd hlen (by simp)
    · have hle : ¬255 ≤ count := by omega
      simp only [parametersFrom, hle, if_false, reads_bind]
      refine ⟨name, d, reads_expect hname hd, some comma, d',
        reads_accept_some (by simpa using hk) hd', ?_⟩
      simp only [reads_bind, reads_pure]
      refine ⟨names, c', ih hp hcomma ?_ (by omega), rfl, rfl⟩
      simp only [List.length_cons] at hlen
      omega

theorem reads_parameters {params : List Token} (h : DerivesParameters ts params)
    (hp : c.Passes ts c') (hend : c'.peek.kind = .rightParen) :
    parameters.Reads c params c' := by
  rw [parameters, reads_peek_bind]
  rcases h with ⟨rfl, rfl⟩ | ⟨hnames, hle⟩
  · obtain rfl := Cursor.passes_nil.1 hp
    rw [if_pos hend]
    exact reads_pure.2 ⟨rfl, rfl⟩
  · have hhead : c.peek.kind = .identifier := by
      cases hnames with
      | one hname | more hname => rw [hp.peek_eq, hname]
    have hlen : ts.length ≤ c.ahead.length := by simp [hp.ahead]
    rw [if_neg (by simp [hhead]), reads_ahead_bind]
    exact reads_parametersFrom hnames hp (by simp [hend]) hlen (by omega)

theorem reads_superclass {parent : Option Token} (h : DerivesSuperclass ts parent)
    (hp : c.Passes ts c') (hend : c'.peek.kind = .leftBrace) : superclass.Reads c parent c' := by
  simp only [superclass, reads_bind]
  cases h with
  | none =>
    obtain rfl := Cursor.passes_nil.1 hp
    exact ⟨none, c', reads_accept_none (by simp [hend]), reads_pure.2 ⟨rfl, rfl⟩⟩
  | @some less name hless hname =>
    obtain ⟨d, hd, hp⟩ := Cursor.passes_cons.1 hp
    refine ⟨some less, d, reads_accept_some (by simpa using hless) hd, ?_⟩
    simp only [reads_bind, reads_pure]
    exact ⟨name, c', reads_expect hname hp, rfl, rfl⟩

/-! ### Phrases -/

/-- The phrase is read cleanly by its rule wherever its tokens come next. -/
def Readable (room : Nat) (inLoop : Bool) : Phrase → List Token → Prop
  | .declarations body, ts => ∀ ⦃c c' : Cursor⦄ ⦃stop : Kind⦄ ⦃bound : List Token⦄,
      c.Passes ts c' → looping c = inLoop → stop = .rightBrace ∨ stop = .eof →
      c'.peek.kind = stop → ts.length ≤ bound.length →
      (manyUntil stop (recovered (expression room) (block room)) bound).Reads c body c'
  | .declaration stmt, ts => ∀ ⦃c c' : Cursor⦄,
      c.Passes ts c' → looping c = inLoop → c'.peek.kind ≠ .kwElse →
      (declaration (expression room) (block room)).Reads c stmt c'
  | .statement stmt, ts => ∀ ⦃c c' : Cursor⦄,
      c.Passes ts c' → looping c = inLoop → c'.peek.kind ≠ .kwElse →
      (statement (expression room) (block room)).Reads c stmt c'
  | .varDecl stmt, ts => ∃ word us, ts = word :: us ∧ word.kind = .kwVar ∧ ∀ ⦃c c' : Cursor⦄,
      c.Passes us c' → (varDecl (expression room)).Reads c stmt c'
  | .exprStmt stmt, ts => ∀ ⦃c c' : Cursor⦄,
      c.Passes ts c' → (expressionStmt (expression room)).Reads c stmt c'
  | .initializer stmt, ts => ∀ ⦃c c' : Cursor⦄,
      c.Passes ts c' → (forInitial (expression room)).Reads c (some stmt) c'
  | .block body, ts => ∃ opening us, ts = opening :: us ∧ opening.kind = .leftBrace ∧
      ∀ ⦃c c' : Cursor⦄, c.Passes us c' → looping c = inLoop → (block room).Reads c body c'
  | .function f, ts => ∀ ⦃c c' : Cursor⦄ (word : String),
      c.Passes ts c' → (function (block room) word).Reads c f c'
  | .functions fs, ts => ∀ ⦃c c' : Cursor⦄ ⦃bound : List Token⦄,
      c.Passes ts c' → c'.peek.kind = .rightBrace → ts.length ≤ bound.length →
      (manyUntil .rightBrace (function (block room) "method") bound).Reads c fs c'

namespace Readable

theorem braced {body : List Stmt} (h : Readable room inLoop (.block body) ts) (what : String)
    (hp : c.Passes ts c') (hloop : looping c = inLoop) :
    (braced (Rule.block room) what).Reads c body c' := by
  obtain ⟨opening, us, rfl, hopening, hread⟩ := h
  obtain ⟨d, hd, hp⟩ := Cursor.passes_cons.1 hp
  simp only [Rule.braced, reads_bind]
  exact ⟨opening, d, reads_expect hopening hd,
    hread hp ((looping_of_passes hd).trans hloop)⟩

/-- A loop body is read with one more loop open. -/
theorem loopBody {body : List Stmt} (h : Readable room true (.block body) ts) (what : String)
    (hp : c.Passes ts c') : (Rule.inLoop (Rule.braced (Rule.block room) what)).Reads c body c' := by
  refine reads_inLoop.2 ⟨c'.withLoops (c.loops + 1), h.braced what (hp.withLoops _) ?_, ?_⟩
  · simp [looping, Cursor.withLoops]
  · simpa [Cursor.withLoops] using (hp.withLoops_loops (c.loops + 1)).symm

theorem cons {stmt : Stmt} {rest : List Stmt} (hd : Forms room inLoop (.declaration stmt) ts)
    (hr : Forms room inLoop (.declarations rest) us)
    (h : Readable room inLoop (.declaration stmt) ts)
    (hrest : Readable room inLoop (.declarations rest) us) :
    Readable room inLoop (.declarations (stmt :: rest)) (ts ++ us) := by
  intro c c' stop bound hp hloop hstop hend hlen
  obtain ⟨d, hp1, hp2⟩ := Cursor.passes_append.1 hp
  obtain ⟨t, vs, rfl, ht⟩ := hd.declaration_head
  have hne : t.kind ≠ .rightBrace ∧ t.kind ≠ .eof := by
    constructor <;> intro heq <;> rw [heq] at ht <;> exact absurd ht (by decide)
  -- behind the first statement comes another one or the stop, so no `else`
  have helse : d.peek.kind ≠ .kwElse := by
    cases hr with
    | nil =>
      obtain rfl := Cursor.passes_nil.1 hp2
      rcases hstop with rfl | rfl <;> simp [hend]
    | cons hd' =>
      obtain ⟨t', vs', rfl, ht'⟩ := hd'.declaration_head
      rw [hp2.peek_eq]
      intro heq
      rw [heq] at ht'
      exact absurd ht' (by decide)
  simp only [List.length_append, List.length_cons] at hlen
  have hread := h hp1 hloop helse
  have htail : (manyUntil stop (recovered (expression room) (Rule.block room))
      bound.tail).Reads d rest c' :=
    hrest hp2 ((looping_of_passes hp1).trans hloop) hstop hend (by rw [List.length_tail]; omega)
  have hrec : (recovered (expression room) (Rule.block room)).Reads c stmt d :=
    (reads_recover (loud_declaration (loud_operand_expression room).2 (loud_block room))).2 hread
  refine reads_manyUntil_cons (by omega) ?_ (by rw [hp1.peek_eq]; exact hne.2) hrec htail
  rw [hp1.peek_eq]
  rcases hstop with rfl | rfl
  · exact hne.1
  · exact hne.2

theorem consFunction {f : Function} {rest : List Function}
    (hf : Forms room inLoop (.function f) ts) (h : Readable room inLoop (.function f) ts)
    (hrest : Readable room inLoop (.functions rest) us) :
    Readable room inLoop (.functions (f :: rest)) (ts ++ us) := by
  intro c c' bound hp hend hlen
  obtain ⟨d, hp1, hp2⟩ := Cursor.passes_append.1 hp
  obtain ⟨t, vs, rfl, ht⟩ := hf.function_head
  simp only [List.length_append, List.length_cons] at hlen
  have htail : (manyUntil .rightBrace (Rule.function (Rule.block room) "method")
      bound.tail).Reads d rest c' := hrest hp2 hend (by rw [List.length_tail]; omega)
  exact reads_manyUntil_cons (by omega) (by simp [hp1.peek_eq, ht]) (by simp [hp1.peek_eq, ht])
    (h "method" hp1) htail

theorem classDecl {parent : Option Token} {methods : List Function}
    {word name opening closing : Token} (hword : word.kind = .kwClass)
    (hname : name.kind = .identifier) (hparent : DerivesSuperclass us parent)
    (hopening : opening.kind = .leftBrace) (h : Readable room inLoop (.functions methods) ts)
    (hclosing : closing.kind = .rightBrace) :
    Readable room inLoop (.declaration (.classDecl name parent methods))
      (word :: name :: us ++ opening :: ts ++ [closing]) := by
  intro c c' hp _ _
  obtain ⟨c5, hp, hp5⟩ := Cursor.passes_append.1 hp
  obtain ⟨c3, hp, hp3⟩ := Cursor.passes_append.1 hp
  obtain ⟨c4, hp3, hp4⟩ := Cursor.passes_cons.1 hp3
  obtain ⟨c1, hp0, hp⟩ := Cursor.passes_cons.1 hp
  obtain ⟨c2, hp1, hp2⟩ := Cursor.passes_cons.1 hp
  have hmethods : (many .rightBrace (function (Rule.block room) "method")).Reads c4 methods c5 := by
    rw [many, reads_ahead_bind]
    exact h hp4 (by rw [hp5.peek_eq, hclosing]) (by simp [hp4.ahead])
  rw [declaration, reads_peek_bind]
  simp only [hp0.peek_eq, hword]
  rw [reads_advance_bind, ← hp0.eq_advance]
  simp only [Rule.classDecl, reads_bind, reads_pure]
  exact ⟨name, c2, reads_expect hname hp1, parent, c3,
    reads_superclass hparent hp2 (by rw [hp3.peek_eq, hopening]), opening, c4,
    reads_expect hopening hp3, methods, c5, hmethods, closing, c', reads_expect hclosing hp5,
    rfl, rfl⟩

theorem function {params : List Token} {body : List Stmt} {name opening closing : Token}
    (hname : name.kind = .identifier) (hopening : opening.kind = .leftParen)
    (hparams : DerivesParameters us params) (hclosing : closing.kind = .rightParen)
    (h : Readable room false (.block body) ts) :
    Readable room inLoop (.function (.mk name params body))
      (name :: opening :: us ++ closing :: ts) := by
  intro c c' word hp
  obtain ⟨brace, vs, rfl, hbrace, hread⟩ := h
  obtain ⟨c3, hp, hp3⟩ := Cursor.passes_append.1 hp
  obtain ⟨c4, hp3, hp4⟩ := Cursor.passes_cons.1 hp3
  obtain ⟨c1, hp0, hp⟩ := Cursor.passes_cons.1 hp
  obtain ⟨c2, hp1, hp2⟩ := Cursor.passes_cons.1 hp
  obtain ⟨c5, hp4, hp5⟩ := Cursor.passes_cons.1 hp4
  have hbody : (outsideLoops (Rule.block room)).Reads c5 body c' :=
    reads_outsideLoops.2 ⟨c'.withLoops 0, hread (hp5.withLoops 0) rfl, (hp5.withLoops_loops 0).symm⟩
  simp only [Rule.function, reads_bind, reads_pure]
  exact ⟨name, c1, reads_expect hname hp0, opening, c2, reads_expect hopening hp1, params, c3,
    reads_parameters hparams hp2 (by rw [hp3.peek_eq, hclosing]), closing, c4,
    reads_expect hclosing hp3, brace, c5, reads_expect hbrace hp4, body, c', hbody, rfl, rfl⟩

theorem varDecl {initial : Option Expr} {word name semicolon : Token}
    (hword : word.kind = .kwVar) (hname : name.kind = .identifier)
    (hinitial : DerivesInitial room ts initial) (hsemicolon : semicolon.kind = .semicolon) :
    Readable room inLoop (.varDecl (.varDecl name initial))
      (word :: name :: ts ++ [semicolon]) := by
  refine ⟨word, name :: ts ++ [semicolon], rfl, hword, fun c c' hp => ?_⟩
  obtain ⟨c3, hp, hp3⟩ := Cursor.passes_append.1 hp
  obtain ⟨c1, hp0, hp1⟩ := Cursor.passes_cons.1 hp
  simp only [Rule.varDecl, reads_bind]
  refine ⟨name, c1, reads_expect hname hp0, ?_⟩
  cases hinitial with
  | none =>
    obtain rfl := Cursor.passes_nil.1 hp1
    refine ⟨none, c3, reads_accept_none (by simp [hp3.peek_eq, hsemicolon]), ?_⟩
    simp only [reads_bind, reads_pure]
    exact ⟨none, c3, ⟨rfl, rfl⟩, semicolon, c', reads_expect hsemicolon hp3, rfl, rfl⟩
  | @some us e equals hequals hderives =>
    obtain ⟨c2, hp1, hp2⟩ := Cursor.passes_cons.1 hp1
    have hstop : c3.peek.kind ∉ Symbol.expression.continuing := by
      rw [hp3.peek_eq, hsemicolon]
      decide
    refine ⟨some equals, c2, reads_accept_some (by simpa using hequals) hp1, ?_⟩
    simp only [reads_bind, reads_map, reads_pure]
    exact ⟨some e, c3, ⟨e, reads_expression hderives hp2 hstop, rfl⟩, semicolon, c',
      reads_expect hsemicolon hp3, rfl, rfl⟩

theorem exprStmt {e : Expr} {semicolon : Token} (h : Derives room .expression ts e)
    (hsemicolon : semicolon.kind = .semicolon) :
    Readable room inLoop (.exprStmt (.expression e)) (ts ++ [semicolon]) := by
  intro c c' hp
  obtain ⟨d, hp1, hp2⟩ := Cursor.passes_append.1 hp
  have hstop : d.peek.kind ∉ Symbol.expression.continuing := by
    rw [hp2.peek_eq, hsemicolon]
    decide
  simp only [expressionStmt, reads_bind, reads_pure]
  exact ⟨e, d, reads_expression h hp1 hstop, semicolon, c', reads_expect hsemicolon hp2, rfl, rfl⟩

/-- The first token of an expression sends every choice to the rule for expressions. -/
theorem expression {stmt : Stmt} (hf : Forms room inLoop (.exprStmt stmt) ts)
    (h : Readable room inLoop (.exprStmt stmt) ts) :
    Readable room inLoop (.statement stmt) ts := by
  intro c c' hp _ _
  obtain ⟨t, us, rfl, ht⟩ := hf.exprStmt_head
  rw [Rule.statement, reads_peek_bind, hp.peek_eq]
  simp only [starters, List.mem_cons, List.not_mem_nil, or_false] at ht
  rcases ht with ht | ht | ht | ht | ht | ht | ht | ht | ht <;> simp only [ht] <;> exact h hp

theorem initialDecl {stmt : Stmt} (h : Readable room inLoop (.varDecl stmt) ts) :
    Readable room inLoop (.initializer stmt) ts := by
  intro c c' hp
  obtain ⟨word, us, rfl, hword, hread⟩ := h
  obtain ⟨d, hp1, hp2⟩ := Cursor.passes_cons.1 hp
  rw [forInitial, reads_peek_bind]
  simp only [hp1.peek_eq, hword]
  rw [reads_advance_bind, ← hp1.eq_advance]
  simp only [reads_bind, reads_pure]
  exact ⟨stmt, c', hread hp2, rfl, rfl⟩

theorem initialExpr {stmt : Stmt} (hf : Forms room inLoop (.exprStmt stmt) ts)
    (h : Readable room inLoop (.exprStmt stmt) ts) :
    Readable room inLoop (.initializer stmt) ts := by
  intro c c' hp
  obtain ⟨t, us, rfl, ht⟩ := hf.exprStmt_head
  rw [forInitial, reads_peek_bind, hp.peek_eq]
  simp only [starters, List.mem_cons, List.not_mem_nil, or_false] at ht
  rcases ht with ht | ht | ht | ht | ht | ht | ht | ht | ht <;>
    simp only [ht, reads_bind, reads_pure] <;> exact ⟨stmt, c', h hp, rfl, rfl⟩

theorem varDeclaration {stmt : Stmt} (h : Readable room inLoop (.varDecl stmt) ts) :
    Readable room inLoop (.declaration stmt) ts := by
  intro c c' hp _ _
  obtain ⟨word, us, rfl, hword, hread⟩ := h
  obtain ⟨d, hp1, hp2⟩ := Cursor.passes_cons.1 hp
  rw [declaration, reads_peek_bind]
  simp only [hp1.peek_eq, hword]
  rw [reads_advance_bind, ← hp1.eq_advance]
  exact hread hp2

theorem funDecl {f : Function} {word : Token} (hword : word.kind = .kwFun)
    (h : Readable room inLoop (.function f) ts) :
    Readable room inLoop (.declaration (.functionDecl f)) (word :: ts) := by
  intro c c' hp _ _
  obtain ⟨d, hp1, hp2⟩ := Cursor.passes_cons.1 hp
  rw [declaration, reads_peek_bind]
  simp only [hp1.peek_eq, hword]
  rw [reads_advance_bind, ← hp1.eq_advance]
  simp only [reads_bind, reads_pure]
  exact ⟨f, c', h "function" hp2, rfl, rfl⟩

/-- A statement opens with no word of a declaration. -/
theorem declaration {stmt : Stmt} (hf : Forms room inLoop (.statement stmt) ts)
    (h : Readable room inLoop (.statement stmt) ts) :
    Readable room inLoop (.declaration stmt) ts := by
  intro c c' hp hloop helse
  obtain ⟨t, us, rfl, ht⟩ := hf.statement_head
  have hne : t.kind ≠ .kwClass ∧ t.kind ≠ .kwFun ∧ t.kind ≠ .kwVar := by
    refine ⟨?_, ?_, ?_⟩ <;> intro heq <;> rw [heq] at ht <;> exact absurd ht (by decide)
  rw [Rule.declaration, reads_peek_bind, hp.peek_eq]
  split
  case h_1 hk => exact absurd hk hne.1
  case h_2 hk => exact absurd hk hne.2.1
  case h_3 hk => exact absurd hk hne.2.2
  case h_4 => exact h hp hloop helse

theorem printStmt {e : Expr} {word semicolon : Token} (hword : word.kind = .kwPrint)
    (h : Derives room .expression ts e) (hsemicolon : semicolon.kind = .semicolon) :
    Readable room inLoop (.statement (.print e)) (word :: ts ++ [semicolon]) := by
  intro c c' hp _ _
  obtain ⟨c2, hp, hp2⟩ := Cursor.passes_append.1 hp
  obtain ⟨c1, hp0, hp1⟩ := Cursor.passes_cons.1 hp
  have hstop : c2.peek.kind ∉ Symbol.expression.continuing := by
    rw [hp2.peek_eq, hsemicolon]
    decide
  rw [Rule.statement, reads_peek_bind]
  simp only [hp0.peek_eq, hword]
  rw [reads_advance_bind, ← hp0.eq_advance]
  simp only [Rule.printStmt, reads_bind, reads_pure]
  exact ⟨e, c2, reads_expression h hp1 hstop, semicolon, c',
    reads_expect hsemicolon hp2, rfl, rfl⟩

/-- The parts of an `if` statement up to its alternative. -/
theorem ifHead {condition : Expr} {body : List Stmt} {opening closing : Token}
    (hopening : opening.kind = .leftParen) (h : Derives room .expression ts condition)
    (hclosing : closing.kind = .rightParen) (hb : Readable room inLoop (.block body) us)
    (hp : c.Passes (opening :: ts ++ closing :: us) c') (hloop : looping c = inLoop) :
    ∃ c1 c2 c3, (expect .leftParen "'(' after 'if'").Reads c opening c1 ∧
      (Rule.expression room).Reads c1 condition c2 ∧
      (expect .rightParen "')' after if condition").Reads c2 closing c3 ∧
      (Rule.braced (Rule.block room) "'\x7b' before if body").Reads c3 body c' := by
  obtain ⟨c2, hp, hp2⟩ := Cursor.passes_append.1 hp
  obtain ⟨c1, hp0, hp1⟩ := Cursor.passes_cons.1 hp
  obtain ⟨c3, hp2, hp3⟩ := Cursor.passes_cons.1 hp2
  have hstop : c2.peek.kind ∉ Symbol.expression.continuing := by
    rw [hp2.peek_eq, hclosing]
    decide
  have hloop' := (looping_of_passes (hp0.trans (hp1.trans hp2))).trans hloop
  exact ⟨c1, c2, c3, reads_expect hopening hp0, reads_expression h hp1 hstop,
    reads_expect hclosing hp2, hb.braced _ hp3 hloop'⟩

theorem ifThen {condition : Expr} {body : List Stmt} {word opening closing : Token}
    (hword : word.kind = .kwIf) (hopening : opening.kind = .leftParen)
    (h : Derives room .expression ts condition) (hclosing : closing.kind = .rightParen)
    (hb : Readable room inLoop (.block body) us) :
    Readable room inLoop (.statement (.ifThen condition body))
      (word :: opening :: ts ++ closing :: us) := by
  intro c c' hp hloop helse
  obtain ⟨d, hp0, hp1⟩ := Cursor.passes_cons.1 hp
  obtain ⟨c1, c2, c3, h1, h2, h3, h4⟩ :=
    ifHead hopening h hclosing hb hp1 ((looping_of_passes hp0).trans hloop)
  rw [Rule.statement, reads_peek_bind]
  simp only [hp0.peek_eq, hword]
  rw [reads_advance_bind, ← hp0.eq_advance]
  simp only [ifStmt, reads_bind]
  refine ⟨opening, c1, h1, condition, c2, h2, closing, c3, h3, body, c', h4,
    none, c', reads_accept_none (by simpa using helse), ?_⟩
  exact reads_pure.2 ⟨rfl, rfl⟩

theorem ifElse {condition : Expr} {body alternative : List Stmt} {vs : List Token}
    {word opening closing other : Token} (hword : word.kind = .kwIf)
    (hopening : opening.kind = .leftParen) (h : Derives room .expression ts condition)
    (hclosing : closing.kind = .rightParen) (hb : Readable room inLoop (.block body) us)
    (hother : other.kind = .kwElse) (ha : Readable room inLoop (.block alternative) vs) :
    Readable room inLoop (.statement (.ifElse condition body alternative))
      (word :: opening :: ts ++ closing :: us ++ other :: vs) := by
  intro c c' hp hloop _
  obtain ⟨c4, hp, hp4⟩ := Cursor.passes_append.1 hp
  obtain ⟨c5, hp4, hp5⟩ := Cursor.passes_cons.1 hp4
  obtain ⟨d, hp0, hp1⟩ := Cursor.passes_cons.1 hp
  obtain ⟨c1, c2, c3, h1, h2, h3, h4⟩ :=
    ifHead hopening h hclosing hb hp1 ((looping_of_passes hp0).trans hloop)
  have hloop' := (looping_of_passes (hp.trans hp4)).trans hloop
  rw [Rule.statement, reads_peek_bind]
  simp only [hp0.peek_eq, hword]
  rw [reads_advance_bind, ← hp0.eq_advance]
  simp only [ifStmt, reads_bind]
  refine ⟨opening, c1, h1, condition, c2, h2, closing, c3, h3, body, c4, h4,
    some other, c5, reads_accept_some (by simpa using hother) hp4, ?_⟩
  simp only [reads_bind, reads_pure]
  exact ⟨alternative, c', ha.braced _ hp5 hloop', rfl, rfl⟩

theorem whileStmt {condition : Expr} {body : List Stmt} {word opening closing : Token}
    (hword : word.kind = .kwWhile) (hopening : opening.kind = .leftParen)
    (h : Derives room .expression ts condition) (hclosing : closing.kind = .rightParen)
    (hb : Readable room true (.block body) us) :
    Readable room inLoop (.statement (.whileLoop condition body none))
      (word :: opening :: ts ++ closing :: us) := by
  intro c c' hp _ _
  obtain ⟨c2, hp, hp2⟩ := Cursor.passes_append.1 hp
  obtain ⟨d, hp0, hp⟩ := Cursor.passes_cons.1 hp
  obtain ⟨c1, hpo, hp1⟩ := Cursor.passes_cons.1 hp
  obtain ⟨c3, hp2, hp3⟩ := Cursor.passes_cons.1 hp2
  have hstop : c2.peek.kind ∉ Symbol.expression.continuing := by
    rw [hp2.peek_eq, hclosing]
    decide
  rw [Rule.statement, reads_peek_bind]
  simp only [hp0.peek_eq, hword]
  rw [reads_advance_bind, ← hp0.eq_advance]
  simp only [Rule.whileStmt, reads_bind, reads_pure]
  exact ⟨opening, c1, reads_expect hopening hpo, condition, c2,
    reads_expression h hp1 hstop, closing, c3, reads_expect hclosing hp2, body, c',
    hb.loopBody _ hp3, rfl, rfl⟩

/-- A `for` loop behind what comes first in its parentheses. -/
theorem forTail {initial : Option Stmt} {condition step : Option Expr} {body : List Stmt}
    {is vs : List Token} {word opening second closing : Token} (hword : word.kind = .kwFor)
    (hopening : opening.kind = .leftParen)
    (hi : ∀ ⦃c c' : Cursor⦄, c.Passes is c' →
      (forInitial (Rule.expression room)).Reads c initial c')
    (hcondition : DerivesOptional room ts condition) (hsecond : second.kind = .semicolon)
    (hstep : DerivesOptional room us step) (hclosing : closing.kind = .rightParen)
    (hb : Readable room true (.block body) vs) :
    Readable room inLoop (.statement (forLoop initial condition step body))
      (word :: opening :: is ++ ts ++ second :: us ++ closing :: vs) := by
  intro c c' hp _ _
  obtain ⟨c5, hp, hp5⟩ := Cursor.passes_append.1 hp
  obtain ⟨c6, hp5, hp6⟩ := Cursor.passes_cons.1 hp5
  obtain ⟨c3, hp, hp3⟩ := Cursor.passes_append.1 hp
  obtain ⟨c4, hp3, hp4⟩ := Cursor.passes_cons.1 hp3
  obtain ⟨c2, hp, hp2⟩ := Cursor.passes_append.1 hp
  obtain ⟨d, hp0, hp⟩ := Cursor.passes_cons.1 hp
  obtain ⟨c1, hpo, hp1⟩ := Cursor.passes_cons.1 hp
  have hcond := reads_optional .semicolon hcondition hp2
    (by rw [hp3.peek_eq, hsecond]) (by decide)
  have hst := reads_optional .rightParen hstep hp4
    (by rw [hp5.peek_eq, hclosing]) (by decide)
  rw [Rule.statement, reads_peek_bind]
  simp only [hp0.peek_eq, hword]
  rw [reads_advance_bind, ← hp0.eq_advance]
  simp only [Rule.forStmt, reads_bind, reads_pure]
  exact ⟨opening, c1, reads_expect hopening hpo, initial, c2, hi hp1,
    condition, c3, hcond, second, c4, reads_expect hsecond hp3, step, c5, hst, closing, c6,
    reads_expect hclosing hp5, body, c', hb.loopBody _ hp6, rfl, rfl⟩

theorem forStmt {condition step : Option Expr} {body : List Stmt} {vs : List Token}
    {word opening first second closing : Token} (hword : word.kind = .kwFor)
    (hopening : opening.kind = .leftParen) (hfirst : first.kind = .semicolon)
    (hcondition : DerivesOptional room ts condition) (hsecond : second.kind = .semicolon)
    (hstep : DerivesOptional room us step) (hclosing : closing.kind = .rightParen)
    (hb : Readable room true (.block body) vs) :
    Readable room inLoop (.statement (loop condition step body))
      (word :: opening :: first :: ts ++ second :: us ++ closing :: vs) := by
  have hi : ∀ ⦃c c' : Cursor⦄, c.Passes [first] c' →
      (forInitial (Rule.expression room)).Reads c none c' := by
    intro c c' hp
    rw [forInitial, reads_peek_bind]
    simp only [hp.peek_eq, hfirst]
    exact reads_advance_pure.2 ⟨rfl, hp.eq_advance⟩
  exact forTail hword hopening hi hcondition hsecond hstep hclosing hb

theorem returnStmt {value : Option Expr} {word semicolon : Token} (hword : word.kind = .kwReturn)
    (h : DerivesOptional room ts value) (hsemicolon : semicolon.kind = .semicolon) :
    Readable room inLoop (.statement (.returnValue word value)) (word :: ts ++ [semicolon]) := by
  intro c c' hp _ _
  obtain ⟨c2, hp, hp2⟩ := Cursor.passes_append.1 hp
  obtain ⟨c1, hp0, hp1⟩ := Cursor.passes_cons.1 hp
  have hvalue := reads_optional .semicolon h hp1 (by rw [hp2.peek_eq, hsemicolon]) (by decide)
  rw [Rule.statement, reads_peek_bind]
  simp only [hp0.peek_eq, hword]
  rw [reads_advance_bind, ← hp0.eq_advance]
  simp only [Rule.returnStmt, reads_bind, reads_pure]
  exact ⟨value, c2, hvalue, semicolon, c', reads_expect hsemicolon hp2,
    rfl, rfl⟩

theorem jumpStmt {stmt : Stmt} {keyword semicolon : Token} (word : String)
    (hsemicolon : semicolon.kind = .semicolon) (hp : c.Passes [semicolon] c')
    (hloop : looping c = true) : (Rule.jumpStmt keyword word stmt).Reads c stmt c' := by
  have hloops : c.loops ≠ 0 := by simpa [looping, Nat.pos_iff_ne_zero] using hloop
  rw [Rule.jumpStmt, reads_loops_bind, if_neg hloops]
  simp only [reads_bind, reads_pure]
  exact ⟨semicolon, c', reads_expect hsemicolon hp, trivial, rfl⟩

theorem breakStmt {word semicolon : Token} (hword : word.kind = .kwBreak)
    (hsemicolon : semicolon.kind = .semicolon) :
    Readable room true (.statement (.breakLoop word)) [word, semicolon] := by
  intro c c' hp hloop _
  obtain ⟨d, hp0, hp1⟩ := Cursor.passes_cons.1 hp
  rw [Rule.statement, reads_peek_bind]
  simp only [hp0.peek_eq, hword]
  rw [reads_advance_bind, ← hp0.eq_advance]
  exact jumpStmt _ hsemicolon hp1 ((looping_of_passes hp0).trans hloop)

theorem continueStmt {word semicolon : Token} (hword : word.kind = .kwContinue)
    (hsemicolon : semicolon.kind = .semicolon) :
    Readable room true (.statement (.continueLoop word)) [word, semicolon] := by
  intro c c' hp hloop _
  obtain ⟨d, hp0, hp1⟩ := Cursor.passes_cons.1 hp
  rw [Rule.statement, reads_peek_bind]
  simp only [hp0.peek_eq, hword]
  rw [reads_advance_bind, ← hp0.eq_advance]
  exact jumpStmt _ hsemicolon hp1 ((looping_of_passes hp0).trans hloop)

theorem blockStmt {body : List Stmt} (h : Readable room inLoop (.block body) ts) :
    Readable room inLoop (.statement (.block body)) ts := by
  intro c c' hp hloop _
  obtain ⟨opening, us, rfl, hopening, hread⟩ := h
  obtain ⟨d, hp0, hp1⟩ := Cursor.passes_cons.1 hp
  rw [Rule.statement, reads_peek_bind]
  simp only [hp0.peek_eq, hopening]
  rw [reads_advance_bind, ← hp0.eq_advance]
  simp only [reads_bind, reads_pure]
  exact ⟨body, c', hread hp1 ((looping_of_passes hp0).trans hloop), rfl, rfl⟩

theorem empty {semicolon : Token} (hsemicolon : semicolon.kind = .semicolon) :
    Readable room inLoop (.statement .empty) [semicolon] := by
  intro c c' hp _ _
  rw [Rule.statement, reads_peek_bind]
  simp only [hp.peek_eq, hsemicolon]
  exact reads_advance_pure.2 ⟨rfl, hp.eq_advance⟩

theorem block {body : List Stmt} {opening closing : Token} (hopening : opening.kind = .leftBrace)
    (h : Readable room inLoop (.declarations body) ts) (hclosing : closing.kind = .rightBrace) :
    Readable (room + 1) inLoop (.block body) (opening :: ts ++ [closing]) := by
  refine ⟨opening, ts ++ [closing], rfl, hopening, fun c c' hp hloop => ?_⟩
  obtain ⟨d, hp1, hp2⟩ := Cursor.passes_append.1 hp
  have hbody : (many .rightBrace (recovered (Rule.expression room) (Rule.block room))).Reads
      c.deeper body d.deeper := by
    rw [many, reads_ahead_bind]
    refine h hp1.deeper hloop (.inl rfl) ?_ (by simp [hp1.deeper.ahead])
    exact (congrArg Token.kind hp2.deeper.peek_eq).trans hclosing
  rw [Rule.block]
  refine reads_nested.2 ⟨c'.deeper, ?_, rfl⟩
  simp only [reads_bind, reads_pure]
  exact ⟨body, d.deeper, hbody, closing, c'.deeper, reads_expect hclosing hp2.deeper, rfl, rfl⟩

end Readable

/-- Every phrase of the grammar is read cleanly. -/
theorem readable_of_forms {phrase : Phrase} (h : Forms room inLoop phrase ts) :
    Readable room inLoop phrase ts := by
  induction h with
  | nil =>
    intro c c' stop bound hp _ _ hend _
    obtain rfl := Cursor.passes_nil.1 hp
    exact reads_manyUntil_nil (.inl hend)
  | cons hd hr ih ihr => exact .cons hd hr ih ihr
  | classDecl hword hname hparent hopening _ hclosing ih =>
    exact .classDecl hword hname hparent hopening ih hclosing
  | funDecl hword _ ih => exact .funDecl hword ih
  | varDeclaration _ ih => exact .varDeclaration ih
  | statement hf ih => exact .declaration hf ih
  | noFunctions =>
    intro c c' bound hp hend _
    obtain rfl := Cursor.passes_nil.1 hp
    exact reads_manyUntil_nil (.inl hend)
  | consFunction hf _ ih ihr => exact .consFunction hf ih ihr
  | function hname hopening hparams hclosing _ ih =>
    exact .function hname hopening hparams hclosing ih
  | varDecl hword hname hinitial hsemicolon => exact .varDecl hword hname hinitial hsemicolon
  | exprStmt h hsemicolon => exact .exprStmt h hsemicolon
  | initialDecl _ ih => exact .initialDecl ih
  | initialExpr hf ih => exact .initialExpr hf ih
  | expression hf ih => exact .expression hf ih
  | printStmt hword h hsemicolon => exact .printStmt hword h hsemicolon
  | ifThen hword hopening h hclosing _ ih => exact .ifThen hword hopening h hclosing ih
  | ifElse hword hopening h hclosing _ hother _ ih iha =>
    exact .ifElse hword hopening h hclosing ih hother iha
  | whileStmt hword hopening h hclosing _ ih => exact .whileStmt hword hopening h hclosing ih
  | forStmt hword hopening hfirst hcond hsecond hstep hclosing _ ih =>
    exact .forStmt hword hopening hfirst hcond hsecond hstep hclosing ih
  | forInitStmt hword hopening _ hcond hsecond hstep hclosing _ ihi ih =>
    exact .forTail hword hopening ihi hcond hsecond hstep hclosing ih
  | returnStmt hword h hsemicolon => exact .returnStmt hword h hsemicolon
  | breakStmt hword hsemicolon => exact .breakStmt hword hsemicolon
  | continueStmt hword hsemicolon => exact .continueStmt hword hsemicolon
  | blockStmt _ ih => exact .blockStmt ih
  | empty hsemicolon => exact .empty hsemicolon
  | block hopening _ hclosing ih => exact .block hopening ih hclosing

/-- A program is read cleanly exactly if the tokens before the end are one. -/
theorem reads_program {body : List Stmt} (hclose : c.close.kind = .eof)
    (hahead : ∀ t ∈ c.ahead, t.kind ≠ .eof) :
    (∃ c', program.Reads c body c') ↔ Forms maxDepth (looping c) (.declarations body) c.ahead := by
  constructor
  · rintro ⟨c', h⟩
    obtain ⟨ts, hp, hforms, hend⟩ := program_forms hclose h
    have hnil := hp.ahead_eq_nil hahead hend
    rwa [hp.ahead, hnil, List.append_nil]
  · intro h
    refine ⟨c.behind, ?_⟩
    rw [program, many, reads_ahead_bind]
    exact readable_of_forms h c.passes_behind rfl (.inr rfl) hclose le_rfl

end Lox.Rule

namespace Lox

open Grammar

namespace Reading

/-- The clean readings of tokens as a program are the derivations of the program. -/
theorem ofTokens_clean_iff {body : List Token} {close : Token} {program : List Stmt}
    (hclose : close.kind = .eof) (hbody : ∀ t ∈ body, t.kind ≠ .eof) :
    (ofTokens body close).faults = [] ∧ (ofTokens body close).program = program ↔
      Program body program := by
  refine Iff.trans ?_ (Rule.reads_program (c := .start body close) hclose hbody)
  constructor
  · rintro ⟨hfaults, hprogram⟩
    obtain ⟨read, c', h⟩ := Rule.loud_program.reads hfaults
    have heq : read = program := by
      rw [← hprogram, ofTokens]
      simp only [Rule.Reads] at h
      simp [h]
    exact ⟨c', heq ▸ h⟩
  · rintro ⟨c', h⟩
    simp only [Rule.Reads] at h
    simp [ofTokens, h]

/-- Tokens before the end are read without a report exactly if they are a program, and what is read
is then the program they stand for. -/
theorem reports_eq_nil_iff_program (body : List Token) (close : Token)
    (hclose : close.kind = .eof) (hbody : ∀ t ∈ body, t.kind ≠ .eof) :
    ((ofTokens body close).reports = [] ↔ ∃ program, Program body program) ∧
      ∀ program, Program body program → (ofTokens body close).program = program := by
  have hiff : ∀ program, _ ↔ Program body program := fun _ => ofTokens_clean_iff hclose hbody
  refine ⟨?_, fun program h => ((hiff program).2 h).2⟩
  rw [reports, List.map_eq_nil_iff]
  constructor
  · intro h
    exact ⟨_, (hiff _).1 ⟨h, rfl⟩⟩
  · rintro ⟨program, h⟩
    exact ((hiff program).2 h).1

/-- The tokens of `for (var i = a; ; ) { break; }`. -/
def forBreak : List Token :=
  [⟨.kwFor, "for", none, 1⟩, ⟨.leftParen, "(", none, 1⟩, ⟨.kwVar, "var", none, 1⟩,
    ⟨.identifier, "i", none, 1⟩, ⟨.equal, "=", none, 1⟩, ⟨.identifier, "a", none, 1⟩,
    ⟨.semicolon, ";", none, 1⟩, ⟨.semicolon, ";", none, 1⟩, ⟨.rightParen, ")", none, 1⟩,
    ⟨.leftBrace, "\x7b", none, 1⟩, ⟨.kwBreak, "break", none, 1⟩, ⟨.semicolon, ";", none, 1⟩,
    ⟨.rightBrace, "\x7d", none, 1⟩]

/-- They are a program: a loop whose condition is true, in a block of its own. -/
theorem program_forBreak :
    Program forBreak
      [.block [.varDecl ⟨.identifier, "i", none, 1⟩ (some (.ident ⟨.identifier, "a", none, 1⟩)),
        .whileLoop (.literal (.boolean true)) [.breakLoop ⟨.kwBreak, "break", none, 1⟩] none]] := by
  have hboth := reports_eq_nil_iff_program forBreak ⟨.eof, "", none, 1⟩ rfl (by decide)
  obtain ⟨program, h⟩ := hboth.1.1 (by rfl)
  have heq := hboth.2 program h
  rw [← heq] at h
  exact h

end Reading

end Lox
