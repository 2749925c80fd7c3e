import Lox.Rule.Expression
import Lox.Proofs.Grammar
import Lox.Proofs.CleanReading

/-!
# Reading expressions

The rules for expressions read exactly what the grammar derives. That what is read
can be derived follows the rules, one lemma each. That what can be derived is read
is an induction on derivations; there an operand ends where the token behind it
belongs to no operator that binds as tightly, so the claim about a symbol carries
the classes of tokens that would continue it.
-/
namespace Lox

namespace Grammar

/-- A tier as a level of the rules. -/
def Tier.level (t : Tier) : Rule.Level := ⟨fun kind => t.operators.contains kind, t.join⟩

/-- A tier and all tighter ones, the loosest first. -/
def Tier.andTighter : Tier → List Tier
  | logicOr => [logicOr, logicAnd, equality, comparison, term, factor]
  | logicAnd => [logicAnd, equality, comparison, term, factor]
  | equality => [equality, comparison, term, factor]
  | comparison => [comparison, term, factor]
  | term => [term, factor]
  | factor => [factor]

/-- The classes of tokens that continue an expression of a tier. -/
def Tier.continuing (t : Tier) : List Kind := t.andTighter.flatMap operators

/-- The classes of tokens that continue what derives from a symbol. -/
def Symbol.continuing : Symbol → List Kind
  | expression | assignment => .equal :: Tier.logicOr.continuing
  | tier t => t.continuing
  | unary | primary => []

theorem Tier.continuing_eq (t : Tier) : t.continuing = t.operators ++ t.operand.continuing := by
  cases t <;> rfl

/-- An operator ends the operand before it. -/
theorem Tier.operator_not_continuing (t : Tier) {kind : Kind} (h : kind ∈ t.operators) :
    kind ∉ t.operand.continuing := by
  cases t <;> cases kind <;> revert h <;> decide

end Grammar

namespace Rule

open Grammar

variable {room : Nat}

/-- Operands with operators of a tier and of all tighter ones between them. -/
def tier (operand : Rule Expr) (t : Tier) : Rule Expr :=
  (t.andTighter.map Tier.level).foldr chain operand

theorem levels_eq : levels = Tier.logicOr.andTighter.map Tier.level := by
  simp only [levels, Tier.andTighter, List.map, Tier.level, List.cons.injEq, Level.mk.injEq]
  refine ⟨⟨?_, rfl⟩, ⟨?_, rfl⟩, ⟨?_, rfl⟩, ⟨?_, rfl⟩, ⟨?_, rfl⟩, ⟨?_, rfl⟩, trivial⟩ <;>
    (funext kind; cases kind <;> rfl)

theorem operation_eq (operand : Rule Expr) : operation operand = tier operand .logicOr := by
  rw [operation, levels_eq, tier]

/-- The rule for a symbol when `room` more levels of nesting may be opened. -/
def forSymbol (room : Nat) : Symbol → Rule Expr
  | .expression => expression room
  | .assignment => assignment (operand room) (expression room)
  | .tier t => tier (operand room) t
  | .unary => operand room
  | .primary => primary (expression room)

theorem tier_eq (room : Nat) (t : Tier) :
    tier (operand room) t = chain t.level (forSymbol room t.operand) := by
  cases t <;> rfl

theorem operand_eq (room : Nat) :
    operand room = prefixed (match room with | 0 => tooDeep | room + 1 => nested (operand room))
      (expression room) := by
  cases room with
  | zero => rw [operand, expression]
  | succ room => exact operand_succ room

/-! ### What is read can be derived -/

/-- What the rule reads derives from the symbol. -/
def Sound (rule : Rule Expr) (room : Nat) (symbol : Symbol) : Prop :=
  ∀ ⦃c e c'⦄, c.close.kind = .eof → rule.Reads c e c' →
    ∃ ts, c.Passes ts c' ∧ Derives room symbol ts e

/-- Behind a left operand the loop over operators extends its derivation on the right. -/
theorem chainFrom_sound {operand : Rule Expr} {t : Tier} (ho : Sound operand room t.operand) :
    ∀ {bound c left e c' us}, c.close.kind = .eof → Derives room (.tier t) us left →
      (chainFrom t.level operand left bound).Reads c e c' →
      ∃ ts, c.Passes ts c' ∧ Derives room (.tier t) (us ++ ts) e := by
  intro bound
  induction bound with
  | nil =>
    intro c left e c' us _ hleft h
    obtain ⟨rfl, rfl⟩ := reads_pure.1 h
    exact ⟨[], Cursor.passes_nil.2 rfl, by simpa using hleft⟩
  | cons _ more ih =>
    intro c left e c' us hclose hleft h
    simp only [chainFrom, reads_bind] at h
    obtain ⟨o, d, haccept, h⟩ := h
    have heof : t.level.wanted .eof = false := by cases t <;> rfl
    rcases cases_of_accept heof hclose haccept with ⟨op, rfl, hop, hpass⟩ | ⟨rfl, -, rfl⟩
    · simp only [reads_bind] at h
      obtain ⟨right, d', hright, h⟩ := h
      obtain ⟨vs, hvs, hderives⟩ := ho (hpass.close_kind hclose) hright
      have hclose' := hvs.close_kind (hpass.close_kind hclose)
      have hjoin := Derives.join hleft (List.contains_iff_mem.1 hop) hderives
      obtain ⟨ws, hws, hall⟩ := ih hclose' hjoin h
      exact ⟨op :: vs ++ ws, (hpass.trans hvs).trans hws, by simpa using hall⟩
    · obtain ⟨rfl, rfl⟩ := reads_pure.1 h
      exact ⟨[], Cursor.passes_nil.2 rfl, by simpa using hleft⟩

theorem chain_sound {operand : Rule Expr} {t : Tier} (ho : Sound operand room t.operand) :
    Sound (chain t.level operand) room (.tier t) := by
  intro c e c' hclose h
  simp only [chain, reads_bind, reads_ahead] at h
  obtain ⟨left, d, hleft, _, _, ⟨rfl, rfl⟩, h⟩ := h
  obtain ⟨us, hus, hderives⟩ := ho hclose hleft
  obtain ⟨ts, hts, hall⟩ := chainFrom_sound ho (hus.close_kind hclose) (.single hderives) h
  exact ⟨us ++ ts, hus.trans hts, hall⟩

theorem operation_sound {operand : Rule Expr} (ho : Sound operand room .unary) :
    Sound (operation operand) room (.tier .logicOr) := by
  rw [operation_eq]
  have hfactor : Sound _ room (.tier .factor) := chain_sound ho
  have hterm : Sound _ room (.tier .term) := chain_sound hfactor
  have hcomparison : Sound _ room (.tier .comparison) := chain_sound hterm
  have hequality : Sound _ room (.tier .equality) := chain_sound hcomparison
  have hand : Sound _ room (.tier .logicAnd) := chain_sound hequality
  exact chain_sound hand

/-- The target of an assignment is read as an operation; it is a name only if it is one token. -/
theorem assignment_sound {operand expression : Rule Expr} (ho : Sound operand room .unary)
    (he : Sound expression room .expression) :
    Sound (assignment operand expression) room .assignment := by
  intro c e c' hclose h
  simp only [assignment, reads_bind] at h
  obtain ⟨target, d, htarget, o, d', haccept, h⟩ := h
  obtain ⟨us, hus, hderived⟩ := operation_sound ho hclose htarget
  have hclose' := hus.close_kind hclose
  rcases cases_of_accept rfl hclose' haccept with ⟨equals, rfl, heq, hpass⟩ | ⟨rfl, -, rfl⟩
  · simp only [reads_bind] at h
    obtain ⟨value, d'', hvalue, h⟩ := h
    obtain ⟨vs, hvs, hderives⟩ := he (hpass.close_kind hclose') hvalue
    cases hderives with | expression hderives =>
    cases target with
    | ident name =>
      obtain ⟨rfl, rfl⟩ := reads_pure.1 h
      obtain ⟨rfl, hname⟩ := hderived.eq_ident
      exact ⟨_, hus.trans (hpass.trans hvs), .assign hname (by simpa using heq) hderives⟩
    | _ => simp at h
  · obtain ⟨rfl, rfl⟩ := reads_pure.1 h
    exact ⟨us, hus, .operation hderived⟩

theorem primary_sound {expression : Rule Expr} (he : Sound expression room .expression) :
    Sound (primary expression) room .primary := by
  intro c e c' hclose h
  rw [primary, reads_peek_bind] at h
  have hpass := @Cursor.passes_advance c hclose
  split at h
  case h_1 hk =>
    obtain ⟨rfl, rfl⟩ := reads_advance_pure.1 h
    exact ⟨_, hpass (by simp [hk]), .false hk⟩
  case h_2 hk =>
    obtain ⟨rfl, rfl⟩ := reads_advance_pure.1 h
    exact ⟨_, hpass (by simp [hk]), .true hk⟩
  case h_3 hk =>
    obtain ⟨rfl, rfl⟩ := reads_advance_pure.1 h
    exact ⟨_, hpass (by simp [hk]), .nil hk⟩
  case h_4 hk =>
    obtain ⟨rfl, rfl⟩ := reads_advance_pure.1 h
    exact ⟨_, hpass (by simp [hk]), .number hk⟩
  case h_5 hk =>
    obtain ⟨rfl, rfl⟩ := reads_advance_pure.1 h
    exact ⟨_, hpass (by simp [hk]), .string hk⟩
  case h_6 hk =>
    obtain ⟨rfl, rfl⟩ := reads_advance_pure.1 h
    exact ⟨_, hpass (by simp [hk]), .ident hk⟩
  case h_7 hk =>
    rw [reads_advance_bind] at h
    simp only [reads_bind, reads_pure] at h
    obtain ⟨inner, d, hinner, closing, d', hclosing, rfl, rfl⟩ := h
    have hopen := hpass (by simp [hk])
    obtain ⟨us, hus, hderives⟩ := he (hopen.close_kind hclose) hinner
    have hclose' := hus.close_kind (hopen.close_kind hclose)
    obtain ⟨hkind, hlast, -⟩ := passes_of_expect (by decide) hclose' hclosing
    exact ⟨_, (hopen.trans hus).trans hlast, .grouping hk hderives hkind⟩
  case h_8 => exact absurd h reads_fail

theorem prefixed_sound {deeper expression : Rule Expr}
    (hd : ∀ {c e c'}, c.close.kind = .eof → deeper.Reads c e c' →
      ∃ ts n, room = n + 1 ∧ c.Passes ts c' ∧ Derives n .unary ts e)
    (he : Sound expression room .expression) : Sound (prefixed deeper expression) room .unary := by
  intro c e c' hclose h
  simp only [prefixed, reads_bind] at h
  obtain ⟨o, d, haccept, h⟩ := h
  rcases cases_of_accept rfl hclose haccept with ⟨op, rfl, hop, hpass⟩ | ⟨rfl, -, rfl⟩
  · simp only [reads_bind, reads_pure] at h
    obtain ⟨right, d', hright, rfl, rfl⟩ := h
    obtain ⟨ts, n, rfl, hts, hderives⟩ := hd (hpass.close_kind hclose) hright
    exact ⟨_, hpass.trans hts, .unary (by simpa using hop) hderives⟩
  · obtain ⟨ts, hts, hderives⟩ := primary_sound he hclose h
    exact ⟨ts, hts, .primary hderives⟩

theorem nested_sound {rule : Rule Expr} {symbol : Symbol} (hr : Sound rule room symbol) :
    Sound (nested rule) room symbol := by
  intro c e c' hclose h
  obtain ⟨d, hd, rfl⟩ := reads_nested.1 h
  obtain ⟨ts, hts, hderives⟩ := hr (by exact hclose) hd
  exact ⟨ts, hts.shallower, hderives⟩

/-- What the rules for operands and expressions read can be derived. The induction is on the room
left: the rules for one level more are made of those for this level. -/
theorem operand_expression_sound (room : Nat) :
    Sound (operand room) room .unary ∧ Sound (expression room) room .expression := by
  induction room with
  | zero =>
    have he : Sound (expression 0) 0 .expression := by
      intro c e c' _ h
      rw [expression] at h
      exact absurd h reads_tooDeep
    refine ⟨?_, he⟩
    rw [operand_eq]
    exact prefixed_sound (fun _ h => absurd h reads_tooDeep) he
  | succ room ih =>
    have he : Sound (expression (room + 1)) (room + 1) .expression := by
      intro c e c' hclose h
      rw [expression] at h
      obtain ⟨ts, hts, hderives⟩ := nested_sound (assignment_sound ih.1 ih.2) hclose h
      exact ⟨ts, hts, .expression hderives⟩
    refine ⟨?_, he⟩
    rw [operand_eq]
    refine prefixed_sound (fun hclose h => ?_) he
    obtain ⟨ts, hts, hderives⟩ := nested_sound ih.1 hclose h
    exact ⟨ts, room, rfl, hts, hderives⟩

/-! ### What can be derived is read -/

theorem chainFrom_stop {level : Level} {operand : Rule Expr} {left : Expr} {c : Cursor}
    (h : level.wanted c.peek.kind = false) (bound : List Token) :
    (chainFrom level operand left bound).Reads c left c := by
  cases bound with
  | nil => exact reads_pure.2 ⟨rfl, rfl⟩
  | cons _ more =>
    simp only [chainFrom, reads_bind]
    exact ⟨none, c, reads_accept_none h, reads_pure.2 ⟨rfl, rfl⟩⟩

theorem chainFrom_step {level : Level} {operand : Rule Expr} {left right : Expr} {op : Token}
    {bound : List Token} {c d c' : Cursor} (hop : level.wanted op.kind = true)
    (hp : c.Passes [op] d) (hr : operand.Reads d right c') (hbound : 0 < bound.length) :
    chainFrom level operand left bound c =
      chainFrom level operand (level.make left op right) bound.tail c' := by
  obtain _ | ⟨_, more⟩ := bound
  · exact absurd hbound (by simp)
  · have ha := reads_accept_some hop hp
    simp only [Reads] at ha hr
    simp only [chainFrom, bind, ha, hr, List.nil_append, List.tail_cons]

theorem chain_first {level : Level} {operand : Rule Expr} {left : Expr} {c c' : Cursor}
    (h : operand.Reads c left c') :
    chain level operand c = chainFrom level operand left c'.ahead c' := by
  simp only [Reads] at h
  simp only [chain, bind, h, ahead, List.nil_append]

/-- The rule for the symbol reads the expression from the tokens, if no token that would continue
it comes behind them. In a tier the loop over operators may go on, so there the rule is said to
have got as far as the expression. -/
def Complete (room : Nat) : Symbol → List Token → Expr → Prop
  | .tier t, ts, e => ∀ ⦃c c'⦄, c.Passes ts c' → c'.peek.kind ∉ t.operand.continuing →
      ∃ bound, c'.ahead.length ≤ bound.length ∧
        tier (operand room) t c = chainFrom t.level (forSymbol room t.operand) e bound c'
  | symbol, ts, e => ∀ ⦃c c'⦄, c.Passes ts c' → c'.peek.kind ∉ symbol.continuing →
      (forSymbol room symbol).Reads c e c'

namespace Complete

variable {symbol : Symbol} {t : Tier} {ts us : List Token} {e left right : Expr} {op : Token}

theorem reads (h : Complete room symbol ts e) {c c' : Cursor} (hp : c.Passes ts c')
    (hstop : c'.peek.kind ∉ symbol.continuing) : (forSymbol room symbol).Reads c e c' := by
  cases symbol with
  | tier t =>
    rw [Symbol.continuing, Tier.continuing_eq, List.mem_append, not_or] at hstop
    obtain ⟨bound, -, heq⟩ := h hp hstop.2
    have hwanted : t.level.wanted c'.peek.kind = false := by simpa [Tier.level] using hstop.1
    exact heq.trans (chainFrom_stop hwanted bound)
  | expression | assignment | unary | primary => exact h hp hstop

theorem single (h : Complete room t.operand ts e) : Complete room (.tier t) ts e := by
  intro c c' hp hstop
  refine ⟨c'.ahead, le_rfl, ?_⟩
  rw [tier_eq, chain_first (h.reads hp hstop)]

/-- One more round of the loop: the operator ends the operand before it, and the bound is long
enough because it covers the operator. -/
theorem join (hl : Complete room (.tier t) ts left) (hop : op.kind ∈ t.operators)
    (hr : Complete room t.operand us right) :
    Complete room (.tier t) (ts ++ op :: us) (t.join left op right) := by
  intro c c' hp hstop
  obtain ⟨d, hd, hp⟩ := Cursor.passes_append.1 hp
  obtain ⟨d', hd', hp⟩ := Cursor.passes_cons.1 hp
  have hpeek : d.peek.kind ∉ t.operand.continuing := by
    rw [hd'.peek_eq]
    exact t.operator_not_continuing hop
  obtain ⟨bound, hbound, heq⟩ := hl hd hpeek
  have hlen := congrArg List.length hd'.ahead
  have hlen' := congrArg List.length hp.ahead
  simp only [List.length_append, List.length_cons, List.length_nil] at hlen hlen'
  refine ⟨bound.tail, by rw [List.length_tail]; omega, ?_⟩
  have hwanted : t.level.wanted op.kind = true := List.contains_iff_mem.2 hop
  rw [heq, chainFrom_step hwanted hd' (hr.reads hp hstop) (by omega)]
  rfl

theorem unary (hop : op.kind = .bang ∨ op.kind = .minus) (h : Complete room .unary ts e) :
    Complete (room + 1) .unary (op :: ts) (.unary op e) := by
  intro c c' hp hstop
  obtain ⟨d, hd, hp⟩ := Cursor.passes_cons.1 hp
  change (operand (room + 1)).Reads c _ c'
  rw [operand_eq]
  simp only [prefixed, reads_bind]
  refine ⟨some op, d, reads_accept_some (by simpa using hop) hd, ?_⟩
  simp only [reads_bind, reads_pure]
  exact ⟨e, c', reads_nested.2 ⟨c'.deeper, h.reads hp.deeper hstop, rfl⟩, rfl, rfl⟩

theorem primary (hd : Derives room .primary ts e) (h : Complete room .primary ts e) :
    Complete room .unary ts e := by
  intro c c' hp hstop
  obtain ⟨t, us, rfl, hbang, hminus⟩ := hd.primary_head
  change (operand room).Reads c e c'
  rw [operand_eq]
  simp only [prefixed, reads_bind]
  refine ⟨none, c, reads_accept_none ?_, h.reads hp hstop⟩
  simp [hp.peek_eq, hbang, hminus]

/-- A primary expression of one token is read from that token alone. -/
theorem leaf {token : Token} (h : ∀ c : Cursor, c.peek = token →
    Rule.primary (expression room) c = (advance >>= fun _ => pure e : Rule Expr) c) :
    Complete room .primary [token] e := by
  intro c c' hp _
  exact (h c hp.peek_eq).trans (reads_advance_pure.2 ⟨rfl, hp.eq_advance⟩)

theorem ident {name : Token} (hk : name.kind = .identifier) :
    Complete room .primary [name] (.ident name) :=
  leaf fun c hpeek => by simp only [Rule.primary, bind, peek, hpeek, hk, List.nil_append]

theorem grouping {opening closing : Token} (ho : opening.kind = .leftParen)
    (h : Complete room .expression ts e) (hc : closing.kind = .rightParen) :
    Complete room .primary (opening :: ts ++ [closing]) (.grouping e) := by
  intro c c' hp _
  obtain ⟨d, hd, hlast⟩ := Cursor.passes_append.1 hp
  obtain ⟨d', hd', hd⟩ := Cursor.passes_cons.1 hd
  have hstop : d.peek.kind ∉ Symbol.expression.continuing := by
    rw [hlast.peek_eq, hc]
    decide
  rw [forSymbol, Rule.primary, reads_peek_bind]
  simp only [hd'.peek_eq, ho]
  rw [reads_advance_bind, ← hd'.eq_advance]
  simp only [reads_bind, reads_pure]
  exact ⟨e, d, h.reads hd hstop, closing, c', reads_expect hc hlast, rfl, rfl⟩

theorem operation (h : Complete room (.tier .logicOr) ts e) : Complete room .assignment ts e := by
  intro c c' hp hstop
  simp only [Symbol.continuing, List.mem_cons, not_or] at hstop
  simp only [forSymbol, assignment, operation_eq, reads_bind]
  refine ⟨e, c', h.reads hp hstop.2, none, c', reads_accept_none (by simpa using hstop.1), ?_⟩
  exact reads_pure.2 ⟨rfl, rfl⟩

/-- The name before `=` is read as an operation of one operand. -/
theorem assign {name equals : Token} (hname : name.kind = .identifier)
    (hequals : equals.kind = .equal) (h : Complete room .assignment ts e) :
    Complete (room + 1) .assignment (name :: equals :: ts) (.assign name e) := by
  intro c c' hp hstop
  obtain ⟨d, hd, hp⟩ := Cursor.passes_cons.1 hp
  obtain ⟨d', hd', hp⟩ := Cursor.passes_cons.1 hp
  have hunary : Complete (room + 1) .unary [name] (.ident name) :=
    primary (.ident hname) (ident hname)
  have htarget : Complete (room + 1) (.tier .logicOr) [name] (.ident name) :=
    (single <| single <| single <| single <| single <| single hunary)
  have hpeek : d.peek.kind ∉ (Symbol.tier .logicOr).continuing := by
    rw [hd'.peek_eq, hequals]
    decide
  have hvalue : (Rule.expression (room + 1)).Reads d' e c' := by
    rw [Rule.expression]
    exact reads_nested.2 ⟨c'.deeper, h.reads hp.deeper hstop, rfl⟩
  simp only [forSymbol, assignment, operation_eq, reads_bind]
  refine ⟨.ident name, d, htarget.reads hd hpeek, some equals, d',
    reads_accept_some (by simpa using hequals) hd', ?_⟩
  simp only [reads_bind, reads_pure]
  exact ⟨e, c', hvalue, rfl, rfl⟩

theorem expression (h : Complete room .assignment ts e) :
    Complete (room + 1) .expression ts e := by
  intro c c' hp hstop
  change (Rule.expression (room + 1)).Reads c e c'
  rw [Rule.expression]
  exact reads_nested.2 ⟨c'.deeper, h.reads hp.deeper hstop, rfl⟩

end Complete

/-- What can be derived is read. -/
theorem complete_of_derives {symbol : Symbol} {ts : List Token} {e : Expr}
    (h : Derives room symbol ts e) : Complete room symbol ts e := by
  induction h with
  | expression _ ih => exact ih.expression
  | assign hname hequals _ ih => exact ih.assign hname hequals
  | operation _ ih => exact ih.operation
  | single _ ih => exact ih.single
  | join _ hop _ ihl ihr => exact ihl.join hop ihr
  | unary hop _ ih => exact ih.unary hop
  | primary hd ih => exact ih.primary hd
  | ident hk => exact .ident hk
  | grouping ho _ hc ih => exact .grouping ho ih hc
  | number hk | string hk | true hk | false hk | nil hk =>
    refine .leaf fun c hpeek => ?_
    simp only [primary, bind, peek, hpeek, hk, List.nil_append, numberLiteral, Token.payload]

/-- A whole expression is read cleanly exactly if the tokens before the end derive it. -/
theorem reads_wholeExpression {c : Cursor} {e : Expr} (hclose : c.close.kind = .eof)
    (hahead : ∀ t ∈ c.ahead, t.kind ≠ .eof) :
    (∃ c', wholeExpression.Reads c e c') ↔ Derives maxDepth .expression c.ahead e := by
  simp only [wholeExpression, reads_bind, reads_peek, reads_ite, reads_pure]
  constructor
  · rintro ⟨c', e', d, he, _, _, ⟨rfl, rfl⟩, h⟩
    split_ifs at h with hend
    · obtain ⟨rfl, rfl⟩ := h
      obtain ⟨ts, hts, hderives⟩ := (operand_expression_sound maxDepth).2 hclose he
      have hnil := hts.ahead_eq_nil hahead hend
      rwa [hts.ahead, hnil, List.append_nil]
    · exact absurd h reads_fail
  · intro h
    have hend : c.behind.peek.kind = .eof := hclose
    refine ⟨c.behind, e, c.behind, (complete_of_derives h).reads c.passes_behind ?_, _, _,
      ⟨rfl, rfl⟩, ?_⟩
    · rw [hend]
      decide
    rw [if_pos hend]
    exact ⟨rfl, rfl⟩

end Rule

/-! ### No token is lost -/

/-- What a tree keeps of a token: the double of a number, the contents of a string, names and
operators whole, and of a token that has one spelling only its class. -/
inductive Content where
  | number (x : Float)
  | text (contents : String)
  | name (token : Token)
  | word (kind : Kind)
deriving DecidableEq

/-- What is kept of a token. -/
def Token.content (token : Token) : Content :=
  match token.kind with
  | .number => .number (Decimal.toFloat token.payload)
  | .string => .text token.payload
  | .kwTrue | .kwFalse | .kwNil | .leftParen | .rightParen | .equal => .word token.kind
  | _ => .name token

/-- What an expression has kept of its tokens, in order. -/
def Expr.contents : Expr → List Content
  | literal (.number n) => [.number n.toFloat]
  | literal (.string text) => [.text text]
  | literal (.boolean true) => [.word .kwTrue]
  | literal (.boolean false) => [.word .kwFalse]
  | literal .nil => [.word .kwNil]
  | unary op right => .name op :: right.contents
  | binary left op right | logical left op right => left.contents ++ .name op :: right.contents
  | grouping inner => .word .leftParen :: inner.contents ++ [.word .rightParen]
  | ident name => [.name name]
  | assign name value => .name name :: .word .equal :: value.contents

namespace Grammar

theorem Tier.contents_join (t : Tier) (left right : Expr) (op : Token) :
    (t.join left op right).contents = left.contents ++ .name op :: right.contents := by
  cases t <;> rfl

theorem Tier.content_operator (t : Tier) {op : Token} (h : op.kind ∈ t.operators) :
    op.content = .name op := by
  have hnone : ∀ kind ∈ [Kind.number, .string, .kwTrue, .kwFalse, .kwNil, .leftParen,
      .rightParen, .equal], kind ∉ t.operators := by cases t <;> decide
  unfold Token.content
  split
  case h_9 => rfl
  all_goals
    next hk => exact absurd h (hnone _ (by simp [hk]))

/-- Each token is accounted for once and in order. -/
theorem Derives.contents {room symbol ts e} (h : Derives room symbol ts e) :
    e.contents = ts.map Token.content := by
  induction h with
  | expression _ ih | operation _ ih | single _ ih | primary _ ih => exact ih
  | assign hname hequals _ ih => simp [Expr.contents, Token.content, hname, hequals, ih]
  | @join _ t _ _ _ _ _ _ hop _ ihl ihr =>
    simp [t.contents_join, t.content_operator hop, ihl, ihr]
  | unary hop _ ih => rcases hop with hop | hop <;> simp [Expr.contents, Token.content, hop, ih]
  | number hk | string hk | true hk | false hk | nil hk | ident hk =>
    simp [Expr.contents, Token.content, hk, Number.toFloat]
  | grouping ho _ hc ih => simp [Expr.contents, Token.content, ho, hc, ih]

end Grammar

namespace Expr

open Grammar

/-- Tokens before the end are read as an expression without a report exactly if they derive it
within 64 levels, and then the expression accounts for each of them once and in order. -/
theorem parse_ok_iff_derives (body : List Token) (close : Token) (hclose : close.kind = .eof)
    (hbody : ∀ t ∈ body, t.kind ≠ .eof) (e : Expr) :
    ((parse body close).outcome = .ok e ∧ (parse body close).reports = [] ↔
      Derives 64 .expression body e) ∧
    (Derives 64 .expression body e → e.contents = body.map Token.content) := by
  refine ⟨?_, Derives.contents⟩
  refine Iff.trans ?_ (Rule.reads_wholeExpression (c := .start body close) hclose hbody)
  simp only [parse, Rule.Reads]
  rcases Rule.wholeExpression (.start body close) with ⟨outcome, c', reports⟩
  constructor
  · rintro ⟨rfl, rfl⟩
    exact ⟨c', rfl⟩
  · rintro ⟨d, h⟩
    cases h
    exact ⟨rfl, rfl⟩

/-- In `a = -b + c * nil` the sign binds tightest and the assignment loosest. -/
theorem derives_assigned_sum :
    Derives 64 .expression
      [⟨.identifier, "a", none, 1⟩, ⟨.equal, "=", none, 1⟩, ⟨.minus, "-", none, 1⟩,
        ⟨.identifier, "b", none, 1⟩, ⟨.plus, "+", none, 1⟩, ⟨.identifier, "c", none, 1⟩,
        ⟨.star, "*", none, 1⟩, ⟨.kwNil, "nil", none, 1⟩]
      (.assign ⟨.identifier, "a", none, 1⟩
        (.binary (.unary ⟨.minus, "-", none, 1⟩ (.ident ⟨.identifier, "b", none, 1⟩))
          ⟨.plus, "+", none, 1⟩
          (.binary (.ident ⟨.identifier, "c", none, 1⟩) ⟨.star, "*", none, 1⟩ (.literal .nil)))) :=
  (parse_ok_iff_derives _ ⟨.eof, "", none, 1⟩ rfl (by decide) _).1.1 ⟨by rfl, by rfl⟩

end Expr

end Lox
