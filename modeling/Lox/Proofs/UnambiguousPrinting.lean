import Lox.Proofs.ProgramTrees

/-!
# Programs can be told from their texts

A tree tells the form it stands for: by the class of its head, by the number of its parts,
and by the first character of a word that stands alone. So two programs of a source with
the same text in prefix notation have the same trees, and are the same up to lines.
-/
namespace Lox

/-- The text of a number starts with a digit. -/
theorem Value.Written.number_head {n : Number} (h : (Value.number n).Written) :
    ∃ c rest, (Value.number n).shown.toList = c :: rest ∧ c.isDigit = true := by
  obtain ⟨x, rfl, hx⟩ := h
  obtain ⟨c, hc, hdigit⟩ := (Decimal.ofWord (Binary64.word x)).text_head
  obtain ⟨rest, hrest⟩ := List.head?_eq_some_iff.1 hc
  refine ⟨c, rest, ?_, hdigit⟩
  change (Binary64.text x).toList = c :: rest
  rw [hx.text_eq, String.toList_ofList, hrest]

theorem Value.Written.shown_ne_number {n : Number} (h : (Value.number n).Written) {other : Value}
    (hother : ∀ m, other ≠ .number m) : (Value.number n).shown ≠ other.shown := by
  intro heq
  obtain ⟨c, rest, htext, hdigit⟩ := h.number_head
  rw [heq] at htext
  cases other with
  | number m => exact hother m rfl
  | string text =>
    simp only [shown, String.toList_append, List.append_assoc] at htext
    obtain ⟨rfl, -⟩ := List.cons.inj htext
    cases hdigit
  | boolean b =>
    cases b <;>
    · obtain ⟨rfl, -⟩ := List.cons.inj htext
      cases hdigit
  | nil =>
    obtain ⟨rfl, -⟩ := List.cons.inj htext
    cases hdigit

/-- A literal is known by its text. -/
theorem Value.Written.shown_inj {value value' : Value} (h : value.Written) (h' : value'.Written)
    (heq : value.shown = value'.shown) : value = value' := by
  cases value with
  | number n =>
    cases value' with
    | number m =>
      obtain ⟨x, rfl, hx⟩ := h
      obtain ⟨y, rfl, hy⟩ := h'
      rw [hx.text_inj hy heq]
    | _ => exact absurd heq (h.shown_ne_number (by simp))
  | string text =>
    cases value' with
    | number m => exact absurd heq.symm (h'.shown_ne_number (by simp))
    | string text' =>
      have htext := congrArg String.toList heq
      simp only [shown, String.toList_append, List.append_cancel_right_eq,
        List.append_cancel_left_eq, String.toList_inj] at htext
      rw [htext]
    | boolean b => cases b <;> simp [shown, Value.text, ← String.toList_inj] at heq
    | nil => simp [shown, Value.text, ← String.toList_inj] at heq
  | boolean b =>
    cases value' with
    | number m => exact absurd heq.symm (h'.shown_ne_number (by simp))
    | string text' => cases b <;> simp [shown, Value.text, ← String.toList_inj] at heq
    | boolean b' => cases b <;> cases b' <;> simp_all [shown, Value.text]
    | nil => cases b <;> simp [shown, Value.text] at heq
  | nil =>
    cases value' with
    | number m => exact absurd heq.symm (h'.shown_ne_number (by simp))
    | string text' => simp [shown, Value.text, ← String.toList_inj] at heq
    | boolean b' => cases b' <;> simp [shown, Value.text] at heq
    | nil => rfl

/-- A literal does not look like a name. -/
theorem Value.Written.shown_ne_name {value : Value} (h : value.Written) {name : Token}
    (hname : name.IsName) : value.shown ≠ name.lexeme := by
  intro heq
  have hlexeme : Lexeme .identifier value.shown.toList name.literal := by
    rw [heq, ← hname.kind]
    exact hname.lexical
  cases value with
  | number n =>
    obtain ⟨c, rest, htext, hdigit⟩ := h.number_head
    rw [htext] at hlexeme
    cases (hlexeme.of_digit hdigit).2.1
  | string text =>
    have hshown : (string text).shown.toList = '"' :: (text.toList ++ ['"']) := by simp [shown]
    rw [hshown] at hlexeme
    obtain ⟨_, _, -, -, hkind, -⟩ := hlexeme.of_quote
    cases hkind
  | boolean b => cases b <;> exact absurd (hlexeme.of_letter rfl).2.1 (by decide)
  | nil => exact absurd (hlexeme.of_letter rfl).2.1 (by decide)

/-- The class of a token is known by its text. -/
theorem Token.Lexical.kind_eq {s t : Token} (hs : s.Lexical) (ht : t.Lexical)
    (h : s.lexeme = t.lexeme) : s.kind = t.kind :=
  (hs.sameText ht h).kind

/-- The word for parentheses looks like a name, and like nothing else. -/
theorem Token.Lexical.kind_of_group {t : Token} (ht : t.Lexical) (h : t.lexeme = "group") :
    t.kind = .identifier := by
  unfold Token.Lexical at ht
  rw [h] at ht
  exact (ht.of_letter rfl).2.1.trans (by decide)

theorem Token.IsName.sameName {s t : Token} (hs : s.IsName) (ht : t.IsName)
    (h : s.lexeme = t.lexeme) : s.SameName Token.SameText t :=
  ⟨hs.lexical.sameText ht.lexical h, h⟩

/-- Two operands and an operator are known by their tree. -/
theorem Expr.pair_tree_inj {left left' right right' : Expr} {op op' : Token}
    (h : SExpr.form [.word op.lexeme, left.tree, right.tree] =
      .form [.word op'.lexeme, left'.tree, right'.tree]) :
    op.lexeme = op'.lexeme ∧ left.tree = left'.tree ∧ right.tree = right'.tree := by
  simpa using h

/-- Expressions of a source with the same tree are alike. -/
theorem Expr.Written.like {e e' : Expr} (h : e.Written) (h' : e'.Written) (heq : e.tree = e'.tree) :
    e.Like Token.SameText e' := by
  have harithmetic : ∀ kind ∈ Kind.arithmetic, kind ≠ .identifier ∧ ¬kind.IsLogical := by decide
  have hlogical : ∀ {kind : Kind}, kind.IsLogical → kind ≠ .identifier := by
    intro kind h
    rcases h.cases with rfl | rfl | rfl | rfl <;> decide
  induction e generalizing e' with
  | literal value =>
    cases e' with
    | literal value' =>
      rw [Value.Written.shown_inj h h' (by simpa [tree] using heq)]
      exact .literal value'
    | ident name => exact absurd (by simpa [tree] using heq) (Value.Written.shown_ne_name h h')
    | _ => simp [tree] at heq
  | ident name =>
    cases e' with
    | literal value' =>
      exact absurd (by simpa [tree] using heq.symm) (Value.Written.shown_ne_name h' h)
    | ident name' => exact .ident (h.sameName h' (by simpa [tree] using heq))
    | _ => simp [tree] at heq
  | unary op right ih =>
    obtain ⟨hop, hkind, hright⟩ := h
    cases e' with
    | unary op' right' =>
      obtain ⟨hop', hkind', hright'⟩ := h'
      simp only [tree, SExpr.form.injEq, List.cons.injEq, SExpr.word.injEq, and_true] at heq
      exact .unary (hop.sameText hop' heq.1) (ih hright hright' heq.2)
    | grouping inner' =>
      simp only [tree, SExpr.form.injEq, List.cons.injEq, SExpr.word.injEq, and_true] at heq
      have hname := hop.kind_of_group heq.1
      rcases hkind with hkind | hkind <;> simp [hkind] at hname
    | _ => simp [tree] at heq
  | grouping inner ih =>
    cases e' with
    | unary op' right' =>
      obtain ⟨hop', hkind', -⟩ := h'
      simp only [tree, SExpr.form.injEq, List.cons.injEq, SExpr.word.injEq, and_true] at heq
      have hname := hop'.kind_of_group heq.1.symm
      rcases hkind' with hkind' | hkind' <;> simp [hkind'] at hname
    | grouping inner' => exact .grouping (ih h h' (by simpa [tree] using heq))
    | _ => simp [tree] at heq
  | binary left op right ihl ihr =>
    obtain ⟨hleft, ⟨hop, hkind⟩, hright⟩ := h
    cases e' with
    | binary left' op' right' =>
      obtain ⟨hleft', ⟨hop', hkind'⟩, hright'⟩ := h'
      obtain ⟨hlexeme, hl, hr⟩ := pair_tree_inj heq
      exact .binary (ihl hleft hleft' hl) (hop.sameText hop' hlexeme) (ihr hright hright' hr)
    | logical left' op' right' =>
      obtain ⟨-, ⟨hop', hkind'⟩, -⟩ := h'
      have hsame := hop.kind_eq hop' (pair_tree_inj heq).1
      exact absurd (hsame ▸ hkind') (harithmetic _ hkind).2
    | assign name' value' =>
      simp only [tree, SExpr.form.injEq, List.cons.injEq, SExpr.word.injEq] at heq
      have hsame := hop.kind_eq h'.1.lexical heq.1
      exact absurd (hsame.trans h'.1.kind) (harithmetic _ hkind).1
    | _ => simp [tree] at heq
  | logical left op right ihl ihr =>
    obtain ⟨hleft, ⟨hop, hkind⟩, hright⟩ := h
    cases e' with
    | binary left' op' right' =>
      obtain ⟨-, ⟨hop', hkind'⟩, -⟩ := h'
      have hsame := hop.kind_eq hop' (pair_tree_inj heq).1
      exact absurd (hsame ▸ hkind) (harithmetic _ hkind').2
    | logical left' op' right' =>
      obtain ⟨hleft', ⟨hop', hkind'⟩, hright'⟩ := h'
      obtain ⟨hlexeme, hl, hr⟩ := pair_tree_inj heq
      exact .logical (ihl hleft hleft' hl) (hop.sameText hop' hlexeme) (ihr hright hright' hr)
    | assign name' value' =>
      simp only [tree, SExpr.form.injEq, List.cons.injEq, SExpr.word.injEq] at heq
      have hsame := hop.kind_eq h'.1.lexical heq.1
      exact absurd (hsame.trans h'.1.kind) (hlogical hkind)
    | _ => simp [tree] at heq
  | assign name value ih =>
    obtain ⟨hname, hvalue⟩ := h
    cases e' with
    | binary left' op' right' =>
      obtain ⟨-, ⟨hop', hkind'⟩, -⟩ := h'
      simp only [tree, SExpr.form.injEq, List.cons.injEq, SExpr.word.injEq] at heq
      have hsame := hname.lexical.kind_eq hop' heq.1
      exact absurd (hsame.symm.trans hname.kind) (harithmetic _ hkind').1
    | logical left' op' right' =>
      obtain ⟨-, ⟨hop', hkind'⟩, -⟩ := h'
      simp only [tree, SExpr.form.injEq, List.cons.injEq, SExpr.word.injEq] at heq
      have hsame := hname.lexical.kind_eq hop' heq.1
      exact absurd (hsame.symm.trans hname.kind) (hlogical hkind')
    | assign name' value' =>
      simp only [tree, SExpr.form.injEq, List.cons.injEq, SExpr.word.injEq, and_true, true_and]
        at heq
      exact .assign (hname.sameName h'.1 heq.1) (ih hvalue h'.2 heq.2)
    | _ => simp [tree] at heq

section Parts

variable {o o' : Option Expr} (h : Expr.WrittenOptional o) (h' : Expr.WrittenOptional o')

include h h'

theorem Expr.like_of_initialTrees (heq : initialTrees o = initialTrees o') :
    LikeOptional Token.SameText o o' := by
  cases o <;> cases o' <;> simp only [initialTrees, List.cons.injEq, reduceCtorEq, true_and,
    and_true] at heq
  · exact .none
  · exact .some ((h _ rfl).like (h' _ rfl) heq)

theorem Expr.like_of_stepTrees (heq : stepTrees o = stepTrees o') :
    LikeOptional Token.SameText o o' := by
  cases o <;> cases o' <;> simp only [stepTrees, List.cons.injEq, SExpr.form.injEq, reduceCtorEq,
    true_and, and_true] at heq
  · exact .none
  · exact .some ((h _ rfl).like (h' _ rfl) heq)

theorem Expr.like_of_valueTrees (heq : valueTrees o = valueTrees o') :
    LikeOptional Token.SameText o o' := by
  cases o <;> cases o' <;> simp only [valueTrees, List.cons.injEq, reduceCtorEq, and_true] at heq
  · exact .none
  · exact .some ((h _ rfl).like (h' _ rfl) heq)

end Parts

/-- The methods of a class stand in forms, so the superclass is told apart from them. -/
theorem Token.like_of_parentTrees {o o' : Option Token} {methods methods' : List Function}
    (h : ∀ parent ∈ o, parent.IsName) (h' : ∀ parent ∈ o', parent.IsName)
    (heq : parentTrees o ++ Function.treeAll methods =
      parentTrees o' ++ Function.treeAll methods') :
    Option.Rel (SameName SameText) o o' ∧
      Function.treeAll methods = Function.treeAll methods' := by
  cases o with
  | none =>
    cases o' with
    | none => exact ⟨.none, heq⟩
    | some parent' => cases methods <;> simp [parentTrees, Function.treeAll] at heq
  | some parent =>
    cases o' with
    | none => cases methods' <;> simp [parentTrees, Function.treeAll] at heq
    | some parent' =>
      simp only [parentTrees, List.cons_append, List.nil_append, List.cons.injEq,
        SExpr.word.injEq, true_and] at heq
      exact ⟨.some ((h _ rfl).sameName (h' _ rfl) heq.1), heq.2⟩

theorem Token.like_of_params {params params' : List Token} (h : ∀ param ∈ params, param.IsName)
    (h' : ∀ param ∈ params', param.IsName)
    (heq : (params.map fun param => SExpr.word param.lexeme) =
      params'.map fun param => SExpr.word param.lexeme) :
    List.Forall₂ (SameName SameText) params params' := by
  induction params generalizing params' with
  | nil =>
    cases params' with
    | nil => exact .nil
    | cons => simp at heq
  | cons param rest ih =>
    cases params' with
    | nil => simp at heq
    | cons param' rest' =>
      rw [List.forall_mem_cons] at h h'
      simp only [List.map_cons, List.cons.injEq, SExpr.word.injEq] at heq
      exact .cons (h.1.sameName h'.1 heq.1) (ih h.2 h'.2 heq.2)

mutual

/-- Statements of a source with the same tree are alike. -/
theorem Stmt.like_of_tree (stmt : Stmt) {stmt' : Stmt} (h : stmt.Written) (h' : stmt'.Written)
    (hhead : stmt.head = stmt'.head) (hparts : stmt.parts = stmt'.parts) :
    stmt.Like Token.SameText stmt' := by
  cases stmt with
  | expression e =>
    cases stmt' with
    | expression e' =>
      exact .expression (Expr.Written.like h h' (by simpa [Stmt.parts] using hparts))
    | _ => simp [Stmt.head] at hhead
  | print e =>
    cases stmt' with
    | print e' => exact .print (Expr.Written.like h h' (by simpa [Stmt.parts] using hparts))
    | _ => simp [Stmt.head] at hhead
  | varDecl name initial =>
    cases stmt' with
    | varDecl name' initial' =>
      simp only [Stmt.parts, List.cons.injEq, SExpr.word.injEq] at hparts
      exact .varDecl (h.1.sameName h'.1 hparts.1) (Expr.like_of_initialTrees h.2 h'.2 hparts.2)
    | _ => simp [Stmt.head] at hhead
  | block body =>
    cases stmt' with
    | block body' => exact .block (Stmt.likeAll_of_treeAll body h h' hparts)
    | _ => simp [Stmt.head] at hhead
  | ifThen condition body =>
    cases stmt' with
    | ifThen condition' body' =>
      simp only [Stmt.parts, List.cons.injEq, SExpr.form.injEq, true_and, and_true] at hparts
      exact .ifThen (h.1.like h'.1 hparts.1) (Stmt.likeAll_of_treeAll body h.2 h'.2 hparts.2)
    | ifElse => simp [Stmt.parts] at hparts
    | _ => simp [Stmt.head] at hhead
  | ifElse condition body alternative =>
    cases stmt' with
    | ifThen => simp [Stmt.parts] at hparts
    | ifElse condition' body' alternative' =>
      simp only [Stmt.parts, List.cons.injEq, SExpr.form.injEq, true_and, and_true] at hparts
      exact .ifElse (h.1.like h'.1 hparts.1)
        (Stmt.likeAll_of_treeAll body h.2.1 h'.2.1 hparts.2.1)
        (Stmt.likeAll_of_treeAll alternative h.2.2 h'.2.2 hparts.2.2)
    | _ => simp [Stmt.head] at hhead
  | whileLoop condition body step =>
    cases stmt' with
    | whileLoop condition' body' step' =>
      simp only [Stmt.parts, List.cons.injEq, SExpr.form.injEq, true_and] at hparts
      exact .whileLoop (h.1.like h'.1 hparts.1)
        (Stmt.likeAll_of_treeAll body h.2.1 h'.2.1 hparts.2.1)
        (Expr.like_of_stepTrees h.2.2 h'.2.2 hparts.2.2)
    | _ => simp [Stmt.head] at hhead
  | functionDecl function =>
    cases stmt' with
    | functionDecl function' => exact .functionDecl (Function.like_of_parts function h h' hparts)
    | _ => simp [Stmt.head] at hhead
  | returnValue keyword value =>
    cases stmt' with
    | returnValue keyword' value' =>
      obtain ⟨hlexical, hkind, hvalue⟩ := h
      obtain ⟨hlexical', hkind', hvalue'⟩ := h'
      have hword := hlexical.sameText_of_reserved hlexical' (hkind.trans hkind'.symm)
        (by rw [hkind]; decide)
      exact .returnValue hword (Expr.like_of_valueTrees hvalue hvalue' hparts)
    | _ => simp [Stmt.head] at hhead
  | classDecl name superclass methods =>
    cases stmt' with
    | classDecl name' superclass' methods' =>
      simp only [Stmt.parts, List.cons.injEq, SExpr.word.injEq] at hparts
      obtain ⟨hparent, hmethods⟩ := Token.like_of_parentTrees h.2.1 h'.2.1 hparts.2
      exact .classDecl (h.1.sameName h'.1 hparts.1) hparent
        (Function.likeAll_of_treeAll methods h.2.2 h'.2.2 hmethods)
    | _ => simp [Stmt.head] at hhead
  | breakLoop keyword =>
    cases stmt' with
    | breakLoop keyword' =>
      exact .breakLoop (h.1.sameText_of_reserved h'.1 (h.2.trans h'.2.symm) (by rw [h.2]; decide))
    | _ => simp [Stmt.head] at hhead
  | continueLoop keyword =>
    cases stmt' with
    | continueLoop keyword' =>
      exact .continueLoop (h.1.sameText_of_reserved h'.1 (h.2.trans h'.2.symm)
        (by rw [h.2]; decide))
    | _ => simp [Stmt.head] at hhead
  | empty =>
    cases stmt' with
    | empty => exact .empty
    | _ => simp [Stmt.head] at hhead
  | error => exact h.elim
termination_by structural stmt

/-- Lists of statements of a source with the same trees are alike. -/
theorem Stmt.likeAll_of_treeAll (body : List Stmt) {body' : List Stmt} (h : Stmt.WrittenAll body)
    (h' : Stmt.WrittenAll body') (heq : Stmt.treeAll body = Stmt.treeAll body') :
    Stmt.LikeAll Token.SameText body body' := by
  cases body with
  | nil =>
    cases body' with
    | nil => exact .nil
    | cons => simp [Stmt.treeAll] at heq
  | cons stmt rest =>
    cases body' with
    | nil => simp [Stmt.treeAll] at heq
    | cons stmt' rest' =>
      simp only [Stmt.treeAll, List.cons.injEq, SExpr.form.injEq, SExpr.word.injEq] at heq
      exact .cons (Stmt.like_of_tree stmt h.1 h'.1 heq.1.1 heq.1.2)
        (Stmt.likeAll_of_treeAll rest h.2 h'.2 heq.2)
termination_by structural body

/-- Functions of a source with the same tree are alike. -/
theorem Function.like_of_parts (function : Function) {function' : Function}
    (h : function.Written) (h' : function'.Written) (heq : function.parts = function'.parts) :
    function.Like Token.SameText function' := by
  cases function with
  | mk name params body =>
    cases function' with
    | mk name' params' body' =>
      obtain ⟨hname, hparams, hbody⟩ := h
      obtain ⟨hname', hparams', hbody'⟩ := h'
      simp only [Function.parts, List.cons.injEq, SExpr.word.injEq, SExpr.form.injEq] at heq
      exact .mk (hname.sameName hname' heq.1) (Token.like_of_params hparams hparams' heq.2.1)
        (Stmt.likeAll_of_treeAll body hbody hbody' heq.2.2)
termination_by structural function

/-- Lists of functions of a source with the same trees are alike. -/
theorem Function.likeAll_of_treeAll (functions : List Function) {functions' : List Function}
    (h : Function.WrittenAll functions) (h' : Function.WrittenAll functions')
    (heq : Function.treeAll functions = Function.treeAll functions') :
    List.Forall₂ (Function.Like Token.SameText) functions functions' := by
  cases functions with
  | nil =>
    cases functions' with
    | nil => exact .nil
    | cons => simp [Function.treeAll] at heq
  | cons function rest =>
    cases functions' with
    | nil => simp [Function.treeAll] at heq
    | cons function' rest' =>
      simp only [Function.treeAll, List.cons.injEq, SExpr.form.injEq, true_and] at heq
      exact .cons (Function.like_of_parts function h.1 h'.1 heq.1)
        (Function.likeAll_of_treeAll rest h.2 h'.2 heq.2)
termination_by structural functions

end

/-- Programs read from sources without syntax faults, with finite numbers and no quotes in their
strings, are the same up to lines if they are shown alike. -/
theorem likeAll_of_renderProgram_eq (first second : String)
    (hfirst : (Reading.ofTokens (TokenStream.ofSource first).body
      (TokenStream.ofSource first).close).faults = [])
    (hsecond : (Reading.ofTokens (TokenStream.ofSource second).body
      (TokenStream.ofSource second).close).faults = [])
    (hplain : ∀ v ∈ Stmt.literalsAll (programOf first), v.IsPlain)
    (hplain' : ∀ v ∈ Stmt.literalsAll (programOf second), v.IsPlain)
    (h : Stmt.renderProgram (programOf first) = Stmt.renderProgram (programOf second)) :
    Stmt.LikeAll Token.SameText (programOf first) (programOf second) := by
  have hwritten := written_programOf hfirst hplain
  have hwritten' := written_programOf hsecond hplain'
  have htext := congrArg String.toList h
  rw [Stmt.toList_renderProgram, Stmt.toList_renderProgram] at htext
  have htrees := SExpr.lines_inj (Stmt.readable_treeAll _ hwritten)
    (Stmt.readable_treeAll _ hwritten') htext
  exact Stmt.likeAll_of_treeAll _ hwritten hwritten' htrees

/-- A loop without a declaration and a step. -/
def bareFor : String := "for (; i < 0.5;) \x7b group = -(\"a) (b\"); \x7d"

/-- The loop that it stands for, on lines of its own. -/
def plainWhile : String := "while (i<0.5)\n\x7b\n  group = -(\"a) (b\") ;\n\x7d"

theorem likeAll_bareFor_plainWhile :
    (Reading.ofTokens (TokenStream.ofSource bareFor).body
        (TokenStream.ofSource bareFor).close).faults = [] ∧
      (Reading.ofTokens (TokenStream.ofSource plainWhile).body
        (TokenStream.ofSource plainWhile).close).faults = [] ∧
      (∀ v ∈ Stmt.literalsAll (programOf bareFor), v.IsPlain) ∧
      (∀ v ∈ Stmt.literalsAll (programOf plainWhile), v.IsPlain) ∧
      Stmt.renderProgram (programOf bareFor) = Stmt.renderProgram (programOf plainWhile) ∧
      Stmt.LikeAll Token.SameText (programOf bareFor) (programOf plainWhile) := by
  have hfor : (Reading.ofTokens (TokenStream.ofSource bareFor).body
      (TokenStream.ofSource bareFor).close).faults = [] := by decide +kernel
  have hwhile : (Reading.ofTokens (TokenStream.ofSource plainWhile).body
      (TokenStream.ofSource plainWhile).close).faults = [] := by decide +kernel
  have hplain : ∀ v ∈ Stmt.literalsAll (programOf bareFor), v.IsPlain := by decide +kernel
  have hplain' : ∀ v ∈ Stmt.literalsAll (programOf plainWhile), v.IsPlain := by decide +kernel
  have htext : Stmt.renderProgram (programOf bareFor) =
      Stmt.renderProgram (programOf plainWhile) := by decide +kernel
  exact ⟨hfor, hwhile, hplain, hplain', htext,
    likeAll_of_renderProgram_eq bareFor plainWhile hfor hwhile hplain hplain' htext⟩

end Lox
