import Lox.Proofs.PrefixNotation
import Lox.Proofs.WrittenPrograms

/-!
# Programs as trees

The text of a program in prefix notation is that of a tree for each statement. The words of
these trees are names, operators, literals and the words of the notation. For a program
that stands in a source, all of them are words that can be read back.
-/
namespace Lox

/-! ### Trees of programs -/

/-- A literal as it is shown. -/
def Value.shown : Value → String
  | .string text => "\"" ++ text ++ "\""
  | value => value.text

/-- The tree of an expression. -/
def Expr.tree : Expr → SExpr
  | literal value => .word value.shown
  | unary op right => .form [.word op.lexeme, right.tree]
  | binary left op right | logical left op right =>
    .form [.word op.lexeme, left.tree, right.tree]
  | grouping inner => .form [.word "group", inner.tree]
  | ident name => .word name.lexeme
  | assign name value => .form [.word name.lexeme, .word "=", value.tree]

/-- The word that comes first in the tree of a statement. -/
def Stmt.head : Stmt → String
  | .expression _ => ";"
  | .print _ => "print"
  | .varDecl .. => "var"
  | .block _ => "block"
  | .ifThen .. | .ifElse .. => "if"
  | .whileLoop .. => "while"
  | .functionDecl _ => "fun"
  | .returnValue .. => "return"
  | .classDecl .. => "class"
  | .breakLoop _ => "break"
  | .continueLoop _ => "continue"
  | .empty => "empty"
  | .error .. => "error"

/-- The parts that show the first value of a variable. -/
def Expr.initialTrees : Option Expr → List SExpr
  | none => []
  | some e => [.word "=", e.tree]

/-- The parts that show the step of a loop. -/
def Expr.stepTrees : Option Expr → List SExpr
  | none => []
  | some e => [.form [.word "step", e.tree]]

/-- The parts that show what is returned. -/
def Expr.valueTrees : Option Expr → List SExpr
  | none => []
  | some e => [e.tree]

/-- The parts that show the superclass of a class. -/
def Token.parentTrees : Option Token → List SExpr
  | none => []
  | some name => [.word "<", .word name.lexeme]

mutual

/-- What comes behind the first word in the tree of a statement. -/
def Stmt.parts : Stmt → List SExpr
  | .expression e | .print e => [e.tree]
  | .varDecl name initial => .word name.lexeme :: Expr.initialTrees initial
  | .block body => Stmt.treeAll body
  | .ifThen condition body => [condition.tree, .form (.word "block" :: Stmt.treeAll body)]
  | .ifElse condition body alternative =>
    [condition.tree, .form (.word "block" :: Stmt.treeAll body),
      .form (.word "block" :: Stmt.treeAll alternative)]
  | .whileLoop condition body step =>
    condition.tree :: .form (.word "block" :: Stmt.treeAll body) :: Expr.stepTrees step
  | .functionDecl function => function.parts
  | .returnValue _ value => Expr.valueTrees value
  | .classDecl name superclass methods =>
    .word name.lexeme :: (Token.parentTrees superclass ++ Function.treeAll methods)
  | .breakLoop _ | .continueLoop _ | .empty => []
  | .error _ message => [.word ("\"" ++ message ++ "\"")]

/-- The trees of a list of statements. -/
def Stmt.treeAll : List Stmt → List SExpr
  | [] => []
  | stmt :: rest => .form (.word stmt.head :: stmt.parts) :: Stmt.treeAll rest

/-- What comes behind the first word in the tree of a function. -/
def Function.parts : Function → List SExpr
  | .mk name params body =>
    .word name.lexeme :: .form (params.map fun param => .word param.lexeme) :: Stmt.treeAll body

/-- The trees of a list of functions. -/
def Function.treeAll : List Function → List SExpr
  | [] => []
  | function :: rest => .form (.word "fun" :: function.parts) :: Function.treeAll rest

end

/-- The tree of a statement. -/
def Stmt.tree (stmt : Stmt) : SExpr := .form (.word stmt.head :: stmt.parts)

/-! ### The text is that of the tree -/

namespace SExpr

theorem textAll_eq_map (ts : List SExpr) : textAll ts = ts.map text := by
  induction ts with
  | nil => rfl
  | cons t rest ih => rw [textAll, ih, List.map_cons]

/-- Parts that are the texts of trees, in parentheses, are the text of a form. -/
theorem toList_parenthesize {parts : List String} {ts : List SExpr}
    (h : parts.map String.toList = ts.map text) : (parenthesize parts).toList = (form ts).text := by
  rw [text, textAll_eq_map, ← h]
  simp [parenthesize, String.toList_intercalate]

end SExpr

open SExpr (toList_parenthesize)

theorem Expr.toList_render (e : Expr) : e.render.toList = e.tree.text := by
  induction e with
  | literal value => cases value <;> rfl
  | unary op right ih => exact toList_parenthesize (by simp [ih, SExpr.text])
  | binary left op right ihl ihr | logical left op right ihl ihr =>
    exact toList_parenthesize (by simp [ihl, ihr, SExpr.text])
  | grouping inner ih => exact toList_parenthesize (by simp [ih, SExpr.text])
  | ident name => rfl
  | assign name value ih => exact toList_parenthesize (by simp [ih, SExpr.text])

mutual

theorem Stmt.toList_render (stmt : Stmt) : stmt.render.toList = stmt.tree.text := by
  have hblock (body : List Stmt) (h : (Stmt.renderAll body).map String.toList =
      (Stmt.treeAll body).map SExpr.text) :
      (parenthesize ("block" :: Stmt.renderAll body)).toList =
        (SExpr.form (.word "block" :: Stmt.treeAll body)).text :=
    toList_parenthesize (by simp [h, SExpr.text])
  cases stmt with
  | expression e | print e =>
    exact toList_parenthesize (by simp [e.toList_render, Stmt.head, Stmt.parts, SExpr.text])
  | varDecl name initial =>
    cases initial with
    | none =>
      exact toList_parenthesize (by simp [Stmt.head, Stmt.parts, Expr.initialTrees, SExpr.text])
    | some e =>
      exact toList_parenthesize
        (by simp [e.toList_render, Stmt.head, Stmt.parts, Expr.initialTrees, SExpr.text])
  | block body => exact hblock body (Stmt.toList_renderAll body)
  | ifThen condition body =>
    have hbody := hblock body (Stmt.toList_renderAll body)
    exact toList_parenthesize
      (by simp [condition.toList_render, hbody, Stmt.head, Stmt.parts, SExpr.text])
  | ifElse condition body alternative =>
    have hbody := hblock body (Stmt.toList_renderAll body)
    have halternative := hblock alternative (Stmt.toList_renderAll alternative)
    exact toList_parenthesize
      (by simp [condition.toList_render, hbody, halternative, Stmt.head, Stmt.parts, SExpr.text])
  | whileLoop condition body step =>
    have hbody := hblock body (Stmt.toList_renderAll body)
    cases step with
    | none =>
      exact toList_parenthesize (by
        simp [condition.toList_render, hbody, Stmt.head, Stmt.parts, Expr.stepTrees, SExpr.text])
    | some e =>
      have hstep : (parenthesize ["step", e.render]).toList =
          (SExpr.form [.word "step", e.tree]).text :=
        toList_parenthesize (by simp [e.toList_render, SExpr.text])
      exact toList_parenthesize (by
        simp [condition.toList_render, hbody, hstep, Stmt.head, Stmt.parts, Expr.stepTrees,
          SExpr.text])
  | functionDecl function => exact Function.toList_render function
  | returnValue keyword value =>
    cases value with
    | none =>
      exact toList_parenthesize (by simp [Stmt.head, Stmt.parts, Expr.valueTrees, SExpr.text])
    | some e =>
      exact toList_parenthesize
        (by simp [e.toList_render, Stmt.head, Stmt.parts, Expr.valueTrees, SExpr.text])
  | classDecl name superclass methods =>
    have hmethods := Function.toList_renderAll methods
    cases superclass with
    | none =>
      exact toList_parenthesize
        (by simp [hmethods, Stmt.head, Stmt.parts, Token.parentTrees, SExpr.text])
    | some parent =>
      exact toList_parenthesize
        (by simp [hmethods, Stmt.head, Stmt.parts, Token.parentTrees, SExpr.text])
  | breakLoop | continueLoop | empty | error =>
    exact toList_parenthesize (by simp [Stmt.head, Stmt.parts, SExpr.text])

theorem Stmt.toList_renderAll (body : List Stmt) :
    (Stmt.renderAll body).map String.toList = (Stmt.treeAll body).map SExpr.text := by
  cases body with
  | nil => rfl
  | cons stmt rest =>
    rw [Stmt.renderAll, Stmt.treeAll, List.map_cons, List.map_cons, Stmt.toList_render stmt,
      Stmt.toList_renderAll rest, Stmt.tree]

theorem Function.toList_render (function : Function) :
    function.render.toList = (SExpr.form (.word "fun" :: function.parts)).text := by
  cases function with
  | mk name params body =>
    have hparams : (parenthesize (params.map Token.lexeme)).toList =
        (SExpr.form (params.map fun param => .word param.lexeme)).text :=
      toList_parenthesize (by simp [SExpr.text, Function.comp_def])
    have hbody := Stmt.toList_renderAll body
    exact toList_parenthesize (by simp [hparams, hbody, Function.parts, SExpr.text])

theorem Function.toList_renderAll (functions : List Function) :
    (Function.renderAll functions).map String.toList =
      (Function.treeAll functions).map SExpr.text := by
  cases functions with
  | nil => rfl
  | cons function rest =>
    rw [Function.renderAll, Function.treeAll, List.map_cons, List.map_cons,
      Function.toList_render function, Function.toList_renderAll rest]

end

/-- A program is shown by the trees of its statements, one on each line. -/
theorem Stmt.toList_renderProgram (program : List Stmt) :
    (Stmt.renderProgram program).toList =
      ['\n'].intercalate (SExpr.textAll (Stmt.treeAll program)) := by
  rw [Stmt.renderProgram, String.toList_intercalate, Stmt.toList_renderAll, SExpr.textAll_eq_map]
  rfl

/-! ### The trees can be read -/

open SExpr (IsWord delimiters)

/-- The words of the notation itself. -/
def SExpr.words : List String :=
  ["true", "false", "nil", "group", "=", "<", ";", "print", "var", "block", "if", "while", "step",
    "fun", "return", "class", "break", "continue", "empty", "error"]

theorem SExpr.isWord_of_mem_words {text : String} (h : text ∈ words) : IsWord text.toList := by
  have hall : ∀ word ∈ words, word.toList ≠ [] ∧ ∀ c ∈ word.toList, c ∉ delimiters := by
    simp [words, delimiters]
  obtain ⟨hne, hplain⟩ := hall text h
  exact .plain hne hplain

/-- A lexeme that is neither a parenthesis nor a literal is a word of the notation. -/
theorem Lexeme.isWord {kind : Kind} {text : List Char} {literal : Option String}
    (h : Lexeme kind text literal)
    (hkind : kind ∉ [Kind.leftParen, .rightParen, .string, .number]) : IsWord text := by
  have hmarks : ∀ entry ∈ Kind.marks, entry.2 ∉ [Kind.leftParen, .rightParen, .string, .number] →
      entry.1 ≠ [] ∧ ∀ c ∈ entry.1, c ∉ delimiters := by
    simp [Kind.marks, delimiters]
  have hwords : ∀ c ∈ delimiters, Segment.isWordChar c = false := by
    simp [delimiters, Segment.isWordChar, Segment.isLetter]
  have hplain {c : Char} (hc : Segment.isWordChar c = true) : c ∉ delimiters := fun hmem => by
    rw [hwords c hmem] at hc
    cases hc
  cases h with
  | mark h =>
    obtain ⟨hne, hall⟩ := hmarks _ h hkind
    exact .plain hne hall
  | @word c rest hletter hrest =>
    refine .plain (by simp) (List.forall_mem_cons.2 ⟨hplain ?_, fun d hd => hplain (hrest d hd)⟩)
    simp [Segment.isWordChar, hletter]
  | number | string => simp at hkind

theorem Token.Lexical.isWord {t : Token} (h : t.Lexical)
    (hkind : t.kind ∉ [Kind.leftParen, .rightParen, .string, .number]) : IsWord t.lexeme.toList :=
  Lexeme.isWord h hkind

theorem Token.IsName.isWord {t : Token} (h : t.IsName) : IsWord t.lexeme.toList :=
  h.lexical.isWord (by simp [h.kind])

theorem Decimal.isWord_text (d : Decimal) : IsWord d.text := by
  have hplain : ∀ c ∈ delimiters, isTextChar c = false := by
    simp [delimiters, isTextChar]
  obtain ⟨first, hfirst, -⟩ := d.text_head
  refine .plain (fun hnil => ?_) fun c hc hmem => ?_
  · rw [hnil] at hfirst
    cases hfirst
  · exact Bool.false_ne_true ((hplain c hmem).symm.trans (isTextChar_of_mem_text hc))

theorem Value.Written.isWord {value : Value} (h : value.Written) : IsWord value.shown.toList := by
  cases value with
  | number n =>
    obtain ⟨x, rfl, hx⟩ := h
    change IsWord (Binary64.text x).toList
    rw [hx.text_eq, String.toList_ofList]
    exact Decimal.isWord_text _
  | string text =>
    have hshown : (string text).shown.toList = '"' :: (text.toList ++ ['"']) := by simp [shown]
    rw [hshown]
    exact .quoted h
  | boolean b => cases b <;> exact SExpr.isWord_of_mem_words (by simp [shown, text, SExpr.words])
  | nil => exact SExpr.isWord_of_mem_words (by simp [shown, text, SExpr.words])

/-- The word stands for itself. -/
theorem SExpr.readable_of_mem_words {text : String} (h : text ∈ words) : (word text).Readable :=
  .word (isWord_of_mem_words h)

theorem Expr.Written.readable {e : Expr} (h : e.Written) : e.tree.Readable := by
  induction e with
  | literal value => exact .word (Value.Written.isWord h)
  | unary op right ih =>
    obtain ⟨hop, hkind, hright⟩ := h
    have hword := hop.isWord (by rcases hkind with hkind | hkind <;> simp [hkind])
    exact .form (by simp [SExpr.Readable.word hword, ih hright])
  | binary left op right ihl ihr =>
    obtain ⟨hleft, ⟨hop, hkind⟩, hright⟩ := h
    have hall : ∀ kind ∈ Kind.arithmetic,
        kind ∉ [Kind.leftParen, .rightParen, .string, .number] := by decide
    have hword := hop.isWord (hall _ hkind)
    exact .form (by simp [SExpr.Readable.word hword, ihl hleft, ihr hright])
  | logical left op right ihl ihr =>
    obtain ⟨hleft, ⟨hop, hkind⟩, hright⟩ := h
    have hword := hop.isWord (by rcases hkind.cases with h | h | h | h <;> simp [h])
    exact .form (by simp [SExpr.Readable.word hword, ihl hleft, ihr hright])
  | grouping inner ih =>
    have hword : (SExpr.word "group").Readable :=
      SExpr.readable_of_mem_words (by simp [SExpr.words])
    exact .form (by simp [hword, ih h])
  | ident name => exact .word (Token.IsName.isWord h)
  | assign name value ih =>
    obtain ⟨hname, hvalue⟩ := h
    have hword : (SExpr.word "=").Readable := SExpr.readable_of_mem_words (by simp [SExpr.words])
    exact .form (by simp [SExpr.Readable.word hname.isWord, hword, ih hvalue])

section Parts

variable {o : Option Expr} (h : Expr.WrittenOptional o)

include h

theorem Expr.readable_initialTrees : ∀ t ∈ initialTrees o, t.Readable := by
  have hword : (SExpr.word "=").Readable := SExpr.readable_of_mem_words (by simp [SExpr.words])
  cases o with
  | none => simp [initialTrees]
  | some e => simp [initialTrees, hword, (h e rfl).readable]

theorem Expr.readable_stepTrees : ∀ t ∈ stepTrees o, t.Readable := by
  have hword : (SExpr.word "step").Readable := SExpr.readable_of_mem_words (by simp [SExpr.words])
  cases o with
  | none => simp [stepTrees]
  | some e =>
    have hstep : (SExpr.form [.word "step", e.tree]).Readable :=
      .form (by simp [hword, (h e rfl).readable])
    simp [stepTrees, hstep]

theorem Expr.readable_valueTrees : ∀ t ∈ valueTrees o, t.Readable := by
  cases o with
  | none => simp [valueTrees]
  | some e => simp [valueTrees, (h e rfl).readable]

end Parts

theorem Token.readable_parentTrees {o : Option Token} (h : ∀ parent ∈ o, parent.IsName) :
    ∀ t ∈ parentTrees o, t.Readable := by
  have hword : (SExpr.word "<").Readable := SExpr.readable_of_mem_words (by simp [SExpr.words])
  cases o with
  | none => simp [parentTrees]
  | some parent => simp [parentTrees, hword, SExpr.Readable.word (h parent rfl).isWord]

theorem SExpr.readable_form {text : String} {parts : List SExpr} (htext : text ∈ words)
    (hparts : ∀ t ∈ parts, t.Readable) : (form (word text :: parts)).Readable :=
  .form (List.forall_mem_cons.2 ⟨readable_of_mem_words htext, hparts⟩)

theorem Stmt.head_mem_words (stmt : Stmt) : stmt.head ∈ SExpr.words := by
  cases stmt <;> simp [head, SExpr.words]

mutual

theorem Stmt.readable_parts (stmt : Stmt) (h : stmt.Written) : ∀ t ∈ stmt.parts, t.Readable := by
  have hblock {body : List Stmt} (h : ∀ t ∈ Stmt.treeAll body, t.Readable) :
      (SExpr.form (.word "block" :: Stmt.treeAll body)).Readable :=
    SExpr.readable_form (by simp [SExpr.words]) h
  cases stmt with
  | expression e | print e => simpa [Stmt.parts] using Expr.Written.readable h
  | varDecl name initial =>
    exact List.forall_mem_cons.2 ⟨.word h.1.isWord, Expr.readable_initialTrees h.2⟩
  | block body => exact Stmt.readable_treeAll body h
  | ifThen condition body =>
    have hbody := hblock (Stmt.readable_treeAll body h.2)
    simp [Stmt.parts, h.1.readable, hbody]
  | ifElse condition body alternative =>
    have hbody := hblock (Stmt.readable_treeAll body h.2.1)
    have halternative := hblock (Stmt.readable_treeAll alternative h.2.2)
    simp [Stmt.parts, h.1.readable, hbody, halternative]
  | whileLoop condition body step =>
    refine List.forall_mem_cons.2 ⟨h.1.readable, List.forall_mem_cons.2 ⟨?_, ?_⟩⟩
    · exact hblock (Stmt.readable_treeAll body h.2.1)
    · exact Expr.readable_stepTrees h.2.2
  | functionDecl function => exact Function.readable_parts function h
  | returnValue keyword value => exact Expr.readable_valueTrees h.2.2
  | classDecl name superclass methods =>
    refine List.forall_mem_cons.2 ⟨.word h.1.isWord, List.forall_mem_append.2 ⟨?_, ?_⟩⟩
    · exact Token.readable_parentTrees h.2.1
    · exact Function.readable_treeAll methods h.2.2
  | breakLoop | continueLoop | empty => simp [Stmt.parts]
  | error => exact h.elim

theorem Stmt.readable_treeAll (body : List Stmt) (h : Stmt.WrittenAll body) :
    ∀ t ∈ Stmt.treeAll body, t.Readable := by
  cases body with
  | nil => simp [Stmt.treeAll]
  | cons stmt rest =>
    refine List.forall_mem_cons.2 ⟨?_, Stmt.readable_treeAll rest h.2⟩
    exact SExpr.readable_form stmt.head_mem_words (Stmt.readable_parts stmt h.1)

theorem Function.readable_parts (function : Function) (h : function.Written) :
    ∀ t ∈ function.parts, t.Readable := by
  cases function with
  | mk name params body =>
    obtain ⟨hname, hparams, hbody⟩ := h
    refine List.forall_mem_cons.2 ⟨.word hname.isWord, List.forall_mem_cons.2 ⟨.form ?_, ?_⟩⟩
    · simpa using fun param hparam => SExpr.Readable.word (hparams param hparam).isWord
    · exact Stmt.readable_treeAll body hbody

theorem Function.readable_treeAll (functions : List Function) (h : Function.WrittenAll functions) :
    ∀ t ∈ Function.treeAll functions, t.Readable := by
  cases functions with
  | nil => simp [Function.treeAll]
  | cons function rest =>
    refine List.forall_mem_cons.2 ⟨?_, Function.readable_treeAll rest h.2⟩
    exact SExpr.readable_form (by simp [SExpr.words]) (Function.readable_parts function h.1)

end

end Lox
