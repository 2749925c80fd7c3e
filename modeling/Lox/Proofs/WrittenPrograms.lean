import Lox.Proofs.JoinedRuns
import Lox.Proofs.LongestMatch
import Lox.Proofs.NumberText
import Lox.Proofs.PairedRuns

/-!
# Programs that stand in a source

The program read from a source has the tokens of the source in it, each where the grammar
puts one of its class, and all its numbers are without a sign. What a token of a source
is, its text tells: so does the text of a name, an operator or a reserved word in a program.
-/
namespace Lox

/-- The token is what its text says. -/
def Token.Lexical (token : Token) : Prop := Lexeme token.kind token.lexeme.toList token.literal

/-- The token is a name. -/
structure Token.IsName (token : Token) : Prop where
  lexical : token.Lexical
  kind : token.kind = .identifier

/-! ### Tokens of a source -/

theorem Segment.Division.lexeme {segments : List Segment} {cs : List Char}
    (h : Division segments cs) {kind : Kind} {text : List Char} {literal : Option String}
    (hmem : .token kind text literal ∈ segments) : Lexeme kind text literal := by
  induction h with
  | nil => cases hmem
  | cons hleads _ ih =>
    rcases List.mem_cons.1 hmem with rfl | hmem
    · cases hleads with
      | token hlexeme => exact hlexeme
    · exact ih hmem

theorem TokenStream.segment_of_mem_body {line : Nat} {segments : List Segment} {t : Token}
    (h : t ∈ (ofSegments line segments).body) :
    .token t.kind t.lexeme.toList t.literal ∈ segments := by
  induction segments generalizing line with
  | nil => cases h
  | cons segment rest ih =>
    cases segment with
    | token kind text literal =>
      rcases List.mem_cons.1 h with rfl | h
      · simp
      · exact List.mem_cons_of_mem _ (ih h)
    | _ => exact List.mem_cons_of_mem _ (ih h)

theorem TokenStream.lexical_of_mem_body {source : String} {t : Token}
    (h : t ∈ (ofSource source).body) : t.Lexical :=
  (Segment.division_split source.toList).lexeme (segment_of_mem_body h)

/-- A token of a source is known by its text. -/
theorem Token.Lexical.sameText {s t : Token} (hs : s.Lexical) (ht : t.Lexical)
    (h : s.lexeme = t.lexeme) : s.SameText t := by
  have hs' : Lexeme s.kind t.lexeme.toList s.literal := h ▸ hs
  obtain ⟨hkind, hliteral⟩ := hs'.kind_literal_eq ht
  exact ⟨hkind, h, hliteral⟩

theorem Kind.reserved_of_ofWord {word : String} {kind : Kind} (h : Kind.ofWord word = kind)
    (hkind : kind ≠ .identifier) : (word, kind) ∈ Kind.reserved := by
  unfold ofWord at h
  cases hlookup : reserved.lookup word with
  | none =>
    rw [hlookup] at h
    exact absurd h.symm hkind
  | some found =>
    rw [hlookup] at h
    obtain ⟨before, after, heq, -⟩ := List.lookup_eq_some_iff.1 hlookup
    rw [heq, ← h]
    simp

theorem Lexeme.mem_reserved {kind : Kind} {text : List Char} {literal : Option String}
    (h : Lexeme kind text literal) (hkind : kind ∈ Kind.reserved.map Prod.snd) :
    (String.ofList text, kind) ∈ Kind.reserved := by
  have hother : ∀ kind ∈ Kind.reserved.map Prod.snd,
      (∀ entry ∈ Kind.marks, entry.2 ≠ kind) ∧ kind ≠ .number ∧ kind ≠ .string ∧
        kind ≠ .identifier := by decide
  obtain ⟨hmark, hnumber, hstring, hname⟩ := hother _ hkind
  cases h with
  | mark h => exact absurd rfl (hmark _ h)
  | word => exact Kind.reserved_of_ofWord rfl hname
  | number => exact absurd rfl hnumber
  | string => exact absurd rfl hstring

/-- A reserved word is known by its class. -/
theorem Token.Lexical.sameText_of_reserved {s t : Token} (hs : s.Lexical) (ht : t.Lexical)
    (h : s.kind = t.kind) (hkind : s.kind ∈ Kind.reserved.map Prod.snd) : s.SameText t := by
  have hone : ∀ one ∈ Kind.reserved, ∀ other ∈ Kind.reserved,
      one.2 = other.2 → one.1 = other.1 := by decide
  have hlexeme := hone _ (hs.mem_reserved hkind) _ (ht.mem_reserved (h ▸ hkind)) h
  rw [String.ofList_toList, String.ofList_toList] at hlexeme
  exact hs.sameText ht hlexeme

/-! ### Literals -/

/-- A finite number, a string without quotes in it, a truth value or nil. -/
def Value.IsPlain : Value → Prop
  | number n => n.toFloat.isFinite = true
  | string text => '"' ∉ text.toList
  | boolean _ | nil => True

/-- Plain, and without a sign if it is a number. -/
def Value.Written : Value → Prop
  | number n => ∃ x, n = .real x ∧ Binary64.Magnitude x
  | string text => '"' ∉ text.toList
  | boolean _ | nil => True

instance : DecidablePred Value.IsPlain := fun value =>
  match value with
  | .number n => inferInstanceAs (Decidable (n.toFloat.isFinite = true))
  | .string text => inferInstanceAs (Decidable ('"' ∉ text.toList))
  | .boolean _ | .nil => inferInstanceAs (Decidable True)

/-- The literals of an expression, in order. -/
def Expr.literals : Expr → List Value
  | literal value => [value]
  | unary _ right => right.literals
  | binary left _ right | logical left _ right => left.literals ++ right.literals
  | grouping inner => inner.literals
  | ident _ => []
  | assign _ value => value.literals

/-- The literals of an expression that may be missing. -/
def Expr.literalsOf? (e : Option Expr) : List Value := (e.map Expr.literals).getD []

mutual

/-- The literals of a statement, in order. -/
def Stmt.literals : Stmt → List Value
  | .expression e | .print e => e.literals
  | .varDecl _ initial => Expr.literalsOf? initial
  | .block body => Stmt.literalsAll body
  | .ifThen condition body => condition.literals ++ Stmt.literalsAll body
  | .ifElse condition body alternative =>
    condition.literals ++ (Stmt.literalsAll body ++ Stmt.literalsAll alternative)
  | .whileLoop condition body step =>
    condition.literals ++ (Stmt.literalsAll body ++ Expr.literalsOf? step)
  | .functionDecl function => function.literals
  | .returnValue _ value => Expr.literalsOf? value
  | .classDecl _ _ methods => Function.literalsAll methods
  | .breakLoop _ | .continueLoop _ | .empty | .error .. => []

/-- The literals of a list of statements, in order. -/
def Stmt.literalsAll : List Stmt → List Value
  | [] => []
  | stmt :: rest => stmt.literals ++ Stmt.literalsAll rest

/-- The literals of a function, in order. -/
def Function.literals : Function → List Value
  | .mk _ _ body => Stmt.literalsAll body

/-- The literals of a list of functions, in order. -/
def Function.literalsAll : List Function → List Value
  | [] => []
  | function :: rest => function.literals ++ Function.literalsAll rest

end

/-! ### Programs of a source -/

/-- The operators of expressions with two operands that are both evaluated. -/
def Kind.arithmetic : List Kind :=
  [.bangEqual, .equalEqual, .greater, .greaterEqual, .less, .lessEqual, .minus, .plus, .slash,
    .star]

/-- The expression can stand in a source, and its literals are plain. -/
def Expr.Written : Expr → Prop
  | literal value => value.Written
  | unary op right => op.Lexical ∧ (op.kind = .bang ∨ op.kind = .minus) ∧ right.Written
  | binary left op right =>
    left.Written ∧ (op.Lexical ∧ op.kind ∈ Kind.arithmetic) ∧ right.Written
  | logical left op right => left.Written ∧ (op.Lexical ∧ op.kind.IsLogical) ∧ right.Written
  | grouping inner => inner.Written
  | ident name => name.IsName
  | assign name value => name.IsName ∧ value.Written

/-- The expression is missing, or it can stand in a source. -/
def Expr.WrittenOptional (o : Option Expr) : Prop := ∀ e ∈ o, e.Written

mutual

/-- The statement can stand in a source, and its literals are plain. -/
def Stmt.Written : Stmt → Prop
  | .expression e | .print e => e.Written
  | .varDecl name initial => name.IsName ∧ Expr.WrittenOptional initial
  | .block body => Stmt.WrittenAll body
  | .ifThen condition body => condition.Written ∧ Stmt.WrittenAll body
  | .ifElse condition body alternative =>
    condition.Written ∧ Stmt.WrittenAll body ∧ Stmt.WrittenAll alternative
  | .whileLoop condition body step =>
    condition.Written ∧ Stmt.WrittenAll body ∧ Expr.WrittenOptional step
  | .functionDecl function => function.Written
  | .returnValue keyword value =>
    keyword.Lexical ∧ keyword.kind = .kwReturn ∧ Expr.WrittenOptional value
  | .classDecl name superclass methods =>
    name.IsName ∧ (∀ parent ∈ superclass, parent.IsName) ∧ Function.WrittenAll methods
  | .breakLoop keyword => keyword.Lexical ∧ keyword.kind = .kwBreak
  | .continueLoop keyword => keyword.Lexical ∧ keyword.kind = .kwContinue
  | .empty => True
  | .error .. => False

/-- The statements can stand in a source, and their literals are plain. -/
def Stmt.WrittenAll : List Stmt → Prop
  | [] => True
  | stmt :: rest => stmt.Written ∧ Stmt.WrittenAll rest

/-- The function can stand in a source, and its literals are plain. -/
def Function.Written : Function → Prop
  | .mk name params body => name.IsName ∧ (∀ param ∈ params, param.IsName) ∧ Stmt.WrittenAll body

/-- The functions can stand in a source, and their literals are plain. -/
def Function.WrittenAll : List Function → Prop
  | [] => True
  | function :: rest => function.Written ∧ Function.WrittenAll rest

end

namespace Grammar

open Binary64

theorem Tier.written_join {t : Tier} {left right : Expr} {op : Token} (hleft : left.Written)
    (hop : op.Lexical) (hkind : op.kind ∈ t.operators) (hright : right.Written) :
    (t.join left op right).Written := by
  have harithmetic : ∀ t ∈ [Tier.equality, .comparison, .term, .factor],
      ∀ kind ∈ t.operators, kind ∈ Kind.arithmetic := by decide
  cases t with
  | logicOr => exact ⟨hleft, ⟨hop, .inr hkind⟩, hright⟩
  | logicAnd => exact ⟨hleft, ⟨hop, .inl hkind⟩, hright⟩
  | equality | comparison | term | factor =>
    exact ⟨hleft, ⟨hop, harithmetic _ (by simp) _ hkind⟩, hright⟩

theorem Tier.literals_join (t : Tier) (left right : Expr) (op : Token) :
    (t.join left op right).literals = left.literals ++ right.literals := by
  cases t <;> rfl

/-- What derives from tokens of a source can stand in a source. -/
theorem Derives.written {room symbol ts e} (h : Derives room symbol ts e)
    (hts : ∀ t ∈ ts, t.Lexical) (hplain : ∀ v ∈ e.literals, v.IsPlain) : e.Written := by
  induction h with
  | expression _ ih | operation _ ih | single _ ih | primary _ ih => exact ih hts hplain
  | assign hname _ _ ih =>
    simp only [List.forall_mem_cons] at hts
    exact ⟨⟨hts.1, hname⟩, ih hts.2.2 hplain⟩
  | join _ hop _ ihl ihr =>
    simp only [List.forall_mem_append, List.forall_mem_cons] at hts
    rw [Tier.literals_join, List.forall_mem_append] at hplain
    exact Tier.written_join (ihl hts.1 hplain.1) hts.2.1 hop (ihr hts.2.2 hplain.2)
  | unary hop _ ih =>
    simp only [List.forall_mem_cons] at hts
    exact ⟨hts.1, hop, ih hts.2 hplain⟩
  | number => exact ⟨_, rfl, hplain _ List.mem_cons_self, isNegative_toFloat _⟩
  | string => exact hplain _ List.mem_cons_self
  | true | false | nil => trivial
  | ident hname => exact ⟨hts _ List.mem_cons_self, hname⟩
  | grouping _ _ _ ih =>
    simp only [List.cons_append, List.forall_mem_append, List.forall_mem_cons] at hts
    exact ih hts.2.1 hplain

theorem DerivesOptional.written {room ts o} (h : DerivesOptional room ts o)
    (hts : ∀ t ∈ ts, t.Lexical) (hplain : ∀ v ∈ Expr.literalsOf? o, v.IsPlain) :
    Expr.WrittenOptional o := by
  rintro e ⟨⟩
  exact Derives.written h hts hplain

theorem DerivesInitial.written {room ts o} (h : DerivesInitial room ts o)
    (hts : ∀ t ∈ ts, t.Lexical) (hplain : ∀ v ∈ Expr.literalsOf? o, v.IsPlain) :
    Expr.WrittenOptional o := by
  rintro e ⟨⟩
  cases h with
  | some _ h => exact h.written (fun t ht => hts t (List.mem_cons_of_mem _ ht)) hplain

theorem DerivesSuperclass.isName {ts parent} (h : DerivesSuperclass ts parent)
    (hts : ∀ t ∈ ts, t.Lexical) : ∀ name ∈ parent, name.IsName := by
  rintro name ⟨⟩
  cases h with
  | some _ hname => exact ⟨hts name (by simp), hname⟩

theorem DerivesNames.isName {ts names} (h : DerivesNames ts names) (hts : ∀ t ∈ ts, t.Lexical) :
    ∀ name ∈ names, name.IsName := by
  induction h with
  | one hname => simpa using ⟨hts _ List.mem_cons_self, hname⟩
  | more hname _ _ ih =>
    simp only [List.forall_mem_cons] at hts ⊢
    exact ⟨⟨hts.1, hname⟩, ih hts.2.2⟩

theorem DerivesParameters.isName {ts params} (h : DerivesParameters ts params)
    (hts : ∀ t ∈ ts, t.Lexical) : ∀ param ∈ params, param.IsName := by
  rcases h with ⟨-, rfl⟩ | ⟨h, -⟩
  · simp
  · exact h.isName hts

/-- The literals of a phrase, in order. -/
def Phrase.literals : Phrase → List Value
  | declarations body | block body => Stmt.literalsAll body
  | declaration stmt | statement stmt | varDecl stmt | exprStmt stmt | initializer stmt =>
    stmt.literals
  | function f => f.literals
  | functions fs => Function.literalsAll fs

/-- The phrase can stand in a source, and its literals are plain. -/
def Phrase.Written : Phrase → Prop
  | declarations body | block body => Stmt.WrittenAll body
  | declaration stmt | statement stmt | varDecl stmt | exprStmt stmt | initializer stmt =>
    stmt.Written
  | function f => f.Written
  | functions fs => Function.WrittenAll fs

/-- The loop of a `for` statement can stand in a source if its parts can. -/
theorem written_loop {room ts us condition step body}
    (hcondition : DerivesOptional room ts condition)
    (hstep : DerivesOptional room us step) (hts : ∀ t ∈ ts, t.Lexical) (hus : ∀ t ∈ us, t.Lexical)
    (hbody : (∀ v ∈ Stmt.literalsAll body, v.IsPlain) → Stmt.WrittenAll body)
    (hplain : ∀ v ∈ (loop condition step body).literals, v.IsPlain) :
    (loop condition step body).Written := by
  simp only [loop, Stmt.literals, List.forall_mem_append] at hplain
  obtain ⟨hholds, hinside, hafter⟩ := hplain
  refine ⟨?_, hbody hinside, hstep.written hus hafter⟩
  cases condition with
  | none => trivial
  | some e => exact Derives.written hcondition hts hholds

/-- What is formed of tokens of a source can stand in a source. -/
theorem Forms.written {room inLoop phrase ts} (h : Forms room inLoop phrase ts)
    (hts : ∀ t ∈ ts, t.Lexical) (hplain : ∀ v ∈ phrase.literals, v.IsPlain) :
    phrase.Written := by
  induction h with
  | nil | noFunctions => trivial
  | cons _ _ ih ihrest | consFunction _ _ ih ihrest =>
    rw [List.forall_mem_append] at hts
    replace hplain := List.forall_mem_append.1 hplain
    exact ⟨ih hts.1 hplain.1, ihrest hts.2 hplain.2⟩
  | classDecl _ hname hparent _ _ _ ih =>
    simp only [List.forall_mem_append, List.forall_mem_cons] at hts
    obtain ⟨⟨⟨-, hlexical, hus⟩, -, hts⟩, -⟩ := hts
    exact ⟨⟨hlexical, hname⟩, hparent.isName hus, ih hts hplain⟩
  | funDecl _ _ ih =>
    simp only [List.forall_mem_cons] at hts
    exact ih hts.2 hplain
  | varDeclaration _ ih | statement _ ih | initialDecl _ ih | initialExpr _ ih | expression _ ih
  | blockStmt _ ih => exact ih hts hplain
  | function hname _ hparams _ _ ih =>
    simp only [List.forall_mem_append, List.forall_mem_cons] at hts
    obtain ⟨⟨hlexical, -, hus⟩, -, hts⟩ := hts
    exact ⟨⟨hlexical, hname⟩, hparams.isName hus, ih hts hplain⟩
  | varDecl _ hname hinitial =>
    simp only [List.forall_mem_append, List.forall_mem_cons] at hts
    obtain ⟨⟨-, hlexical, hts⟩, -⟩ := hts
    exact ⟨⟨hlexical, hname⟩, hinitial.written hts hplain⟩
  | exprStmt h =>
    simp only [List.forall_mem_append] at hts
    exact h.written hts.1 hplain
  | printStmt _ h =>
    simp only [List.forall_mem_append, List.forall_mem_cons] at hts
    exact h.written hts.1.2 hplain
  | ifThen _ _ hcondition _ _ ih =>
    simp only [List.forall_mem_append, List.forall_mem_cons] at hts
    obtain ⟨⟨-, -, hts⟩, -, hus⟩ := hts
    obtain ⟨hholds, hinside⟩ := List.forall_mem_append.1 hplain
    exact ⟨hcondition.written hts hholds, ih hus hinside⟩
  | whileStmt _ _ hcondition _ _ ih =>
    simp only [List.forall_mem_append, List.forall_mem_cons] at hts
    obtain ⟨⟨-, -, hts⟩, -, hus⟩ := hts
    obtain ⟨hholds, hinside⟩ := List.forall_mem_append.1 hplain
    exact ⟨hcondition.written hts hholds, ih hus (List.forall_mem_append.1 hinside).1, nofun⟩
  | ifElse _ _ hcondition _ _ _ _ ih ihother =>
    simp only [List.forall_mem_append, List.forall_mem_cons] at hts
    obtain ⟨⟨⟨-, -, hts⟩, -, hus⟩, -, hvs⟩ := hts
    obtain ⟨hholds, hbranches⟩ := List.forall_mem_append.1 hplain
    obtain ⟨hinside, hother⟩ := List.forall_mem_append.1 hbranches
    exact ⟨hcondition.written hts hholds, ih hus hinside, ihother hvs hother⟩
  | forStmt _ _ _ hcondition _ hstep _ _ ih =>
    simp only [List.forall_mem_append, List.forall_mem_cons] at hts
    obtain ⟨⟨⟨-, -, -, hts⟩, -, hus⟩, -, hvs⟩ := hts
    exact written_loop hcondition hstep hts hus (ih hvs) hplain
  | forInitStmt _ _ _ hcondition _ hstep _ _ ihinitial ih =>
    simp only [List.forall_mem_append, List.forall_mem_cons] at hts
    obtain ⟨⟨⟨⟨-, -, his⟩, hts⟩, -, hus⟩, -, hvs⟩ := hts
    obtain ⟨hfirst, hmore⟩ := List.forall_mem_append.1 hplain
    have hloop := (List.forall_mem_append.1 hmore).1
    exact ⟨ihinitial his hfirst, written_loop hcondition hstep hts hus (ih hvs) hloop, trivial⟩
  | returnStmt hword hvalue =>
    simp only [List.forall_mem_append, List.forall_mem_cons] at hts
    obtain ⟨⟨hlexical, hts⟩, -⟩ := hts
    exact ⟨hlexical, hword, hvalue.written hts hplain⟩
  | breakStmt hword | continueStmt hword => exact ⟨hts _ List.mem_cons_self, hword⟩
  | empty => trivial
  | block _ _ _ ih =>
    simp only [List.forall_mem_append, List.forall_mem_cons] at hts
    exact ih hts.1.2 hplain

end Grammar

/-- A program read without faults can stand in a source. -/
theorem written_programOf {source : String}
    (hclean : (Reading.ofTokens (TokenStream.ofSource source).body
      (TokenStream.ofSource source).close).faults = [])
    (hplain : ∀ v ∈ Stmt.literalsAll (programOf source), v.IsPlain) :
    Stmt.WrittenAll (programOf source) := by
  have hclose := TokenStream.close_kind_ofSegments 1 (Segment.split source.toList)
  have hbody : ∀ t ∈ (TokenStream.ofSource source).body, t.kind ≠ .eof := fun _ h =>
    TokenStream.kind_ne_eof_of_mem_body h
  have hprogram : Grammar.Program (TokenStream.ofSource source).body (programOf source) :=
    (Reading.ofTokens_clean_iff hclose hbody).1 ⟨hclean, rfl⟩
  exact Grammar.Forms.written hprogram (fun _ h => TokenStream.lexical_of_mem_body h) hplain

end Lox
