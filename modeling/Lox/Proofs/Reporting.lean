import Lox.Rule.Statement
import Lox.Proofs.CleanReading

/-!
# Failing is reported

No rule fails without having reported the fault it fails with. A program that has
been read without a report has therefore been read without recovery.
-/
namespace Lox.Rule

variable {α : Type} {expression : Rule Expr} {block : Rule (List Stmt)}

theorem loud_chainFrom {level : Level} {operand : Rule Expr} (ho : Loud operand)
    (bound : List Token) : ∀ left, Loud (chainFrom level operand left bound) := by
  induction bound with
  | nil => exact fun left => loud_pure
  | cons _ more ih =>
    intro left
    refine loud_bind loud_accept fun o => ?_
    cases o with
    | none => exact loud_pure
    | some op => exact loud_bind ho fun right => ih _

theorem loud_operation {operand : Rule Expr} (ho : Loud operand) : Loud (operation operand) := by
  unfold operation
  induction levels with
  | nil => exact ho
  | cons level rest ih =>
    exact loud_bind ih fun left => loud_bind loud_ahead fun bound => loud_chainFrom ih bound left

theorem loud_assignment {operand : Rule Expr} (ho : Loud operand) (he : Loud expression) :
    Loud (assignment operand expression) := by
  refine loud_bind (loud_operation ho) fun target => loud_bind loud_accept fun o => ?_
  cases o with
  | none => exact loud_pure
  | some equals =>
    refine loud_bind he fun value => ?_
    cases target with
    | ident name => exact loud_pure
    | _ => exact loud_bind loud_report fun _ => loud_pure

theorem loud_primary (he : Loud expression) : Loud (primary expression) := by
  refine loud_bind loud_peek fun token => ?_
  split
  case h_7 =>
    exact loud_bind loud_advance fun _ => loud_bind he fun _ => loud_bind loud_expect fun _ =>
      loud_pure
  case h_8 => exact loud_fail
  all_goals exact loud_bind loud_advance fun _ => loud_pure

theorem loud_prefixed {deeper : Rule Expr} (hd : Loud deeper) (he : Loud expression) :
    Loud (prefixed deeper expression) := by
  refine loud_bind loud_accept fun o => ?_
  cases o with
  | none => exact loud_primary he
  | some op => exact loud_bind hd fun _ => loud_pure

theorem loud_operand_expression (room : Nat) :
    Loud (operand room) ∧ Loud (Rule.expression room) := by
  induction room with
  | zero =>
    rw [operand, Rule.expression]
    exact ⟨loud_prefixed loud_tooDeep loud_tooDeep, loud_tooDeep⟩
  | succ room ih =>
    have he : Loud (Rule.expression (room + 1)) := by
      rw [Rule.expression]
      exact loud_nested (loud_assignment ih.1 ih.2)
    rw [operand_succ]
    exact ⟨loud_prefixed (loud_nested ih.1) he, he⟩

theorem loud_inLoop {rule : Rule α} (h : Loud rule) : Loud (inLoop rule) :=
  loud_bind loud_update fun _ => loud_bind h fun _ => loud_bind loud_update fun _ => loud_pure

theorem loud_outsideLoops {rule : Rule α} (h : Loud rule) : Loud (outsideLoops rule) :=
  loud_bind loud_loops fun _ => loud_bind loud_update fun _ => loud_bind h fun _ =>
    loud_bind loud_update fun _ => loud_pure

theorem loud_braced (hb : Loud block) {what : String} : Loud (braced block what) :=
  loud_bind loud_expect fun _ => hb

theorem loud_optional (he : Loud expression) {stop : Kind} : Loud (optional expression stop) := by
  refine loud_bind loud_peek fun token => ?_
  split
  · exact loud_pure
  · exact loud_bind he fun _ => loud_pure

theorem loud_parametersFrom (bound : List Token) : ∀ count, Loud (parametersFrom count bound) := by
  induction bound with
  | nil => exact fun count => loud_bind loud_expect fun _ => loud_pure
  | cons _ more ih =>
    intro count
    unfold parametersFrom
    dsimp only
    split
    -- a parameter too many is reported before it is read
    on_goal 1 => refine loud_bind loud_peek fun _ => loud_bind loud_report fun _ => ?_
    all_goals
      refine loud_bind loud_expect fun name => loud_bind loud_accept fun o => ?_
      cases o with
      | none => exact loud_pure
      | some comma => exact loud_bind (ih _) fun _ => loud_pure

theorem loud_parameters : Loud parameters := by
  refine loud_bind loud_peek fun token => ?_
  split
  · exact loud_pure
  · exact loud_bind loud_ahead fun bound => loud_parametersFrom bound 0

theorem loud_function (hb : Loud block) (word : String) : Loud (function block word) :=
  loud_bind loud_expect fun _ => loud_bind loud_expect fun _ => loud_bind loud_parameters fun _ =>
    loud_bind loud_expect fun _ => loud_bind loud_expect fun _ =>
    loud_bind (loud_outsideLoops hb) fun _ => loud_pure

theorem loud_superclass : Loud superclass := by
  refine loud_bind loud_accept fun o => ?_
  cases o with
  | none => exact loud_pure
  | some less => exact loud_bind loud_expect fun _ => loud_pure

theorem loud_classDecl (hb : Loud block) : Loud (classDecl block) :=
  loud_bind loud_expect fun _ => loud_bind loud_superclass fun _ => loud_bind loud_expect fun _ =>
    loud_bind (loud_many (loud_function hb _)) fun _ => loud_bind loud_expect fun _ => loud_pure

theorem loud_varDecl (he : Loud expression) : Loud (varDecl expression) := by
  refine loud_bind loud_expect fun name => loud_bind loud_accept fun o => ?_
  cases o with
  | none => exact loud_bind loud_pure fun _ => loud_bind loud_expect fun _ => loud_pure
  | some equals =>
    exact loud_bind (loud_map he) fun _ => loud_bind loud_expect fun _ => loud_pure

theorem loud_expressionStmt (he : Loud expression) : Loud (expressionStmt expression) :=
  loud_bind he fun _ => loud_bind loud_expect fun _ => loud_pure

theorem loud_printStmt (he : Loud expression) : Loud (printStmt expression) :=
  loud_bind he fun _ => loud_bind loud_expect fun _ => loud_pure

theorem loud_ifStmt (he : Loud expression) (hb : Loud block) : Loud (ifStmt expression block) := by
  refine loud_bind loud_expect fun _ => loud_bind he fun _ => loud_bind loud_expect fun _ =>
    loud_bind (loud_braced hb) fun _ => loud_bind loud_accept fun o => ?_
  cases o with
  | none => exact loud_pure
  | some other => exact loud_bind (loud_braced hb) fun _ => loud_pure

theorem loud_whileStmt (he : Loud expression) (hb : Loud block) :
    Loud (whileStmt expression block) :=
  loud_bind loud_expect fun _ => loud_bind he fun _ => loud_bind loud_expect fun _ =>
    loud_bind (loud_inLoop (loud_braced hb)) fun _ => loud_pure

theorem loud_forInitial (he : Loud expression) : Loud (forInitial expression) := by
  refine loud_bind loud_peek fun token => ?_
  split
  · exact loud_bind loud_advance fun _ => loud_pure
  · exact loud_bind loud_advance fun _ => loud_bind (loud_varDecl he) fun _ => loud_pure
  · exact loud_bind (loud_expressionStmt he) fun _ => loud_pure

theorem loud_forStmt (he : Loud expression) (hb : Loud block) :
    Loud (forStmt expression block) :=
  loud_bind loud_expect fun _ => loud_bind (loud_forInitial he) fun _ =>
    loud_bind (loud_optional he) fun _ => loud_bind loud_expect fun _ =>
    loud_bind (loud_optional he) fun _ => loud_bind loud_expect fun _ =>
    loud_bind (loud_inLoop (loud_braced hb)) fun _ => loud_pure

theorem loud_returnStmt (he : Loud expression) (keyword : Token) :
    Loud (returnStmt expression keyword) :=
  loud_bind (loud_optional he) fun _ => loud_bind loud_expect fun _ => loud_pure

theorem loud_jumpStmt (keyword : Token) (word : String) (stmt : Stmt) :
    Loud (jumpStmt keyword word stmt) := by
  refine loud_bind loud_loops fun n => ?_
  split
  · exact loud_fail
  · exact loud_bind loud_expect fun _ => loud_pure

theorem loud_statement (he : Loud expression) (hb : Loud block) :
    Loud (statement expression block) := by
  refine loud_bind loud_peek fun token => ?_
  split
  · exact loud_bind loud_advance fun _ => loud_printStmt he
  · exact loud_bind loud_advance fun _ => loud_ifStmt he hb
  · exact loud_bind loud_advance fun _ => loud_whileStmt he hb
  · exact loud_bind loud_advance fun _ => loud_forStmt he hb
  · exact loud_bind loud_advance fun _ => loud_returnStmt he token
  · exact loud_bind loud_advance fun _ => loud_jumpStmt token _ _
  · exact loud_bind loud_advance fun _ => loud_jumpStmt token _ _
  · exact loud_bind loud_advance fun _ => loud_bind hb fun _ => loud_pure
  · exact loud_bind loud_advance fun _ => loud_pure
  · exact loud_expressionStmt he

theorem loud_declaration (he : Loud expression) (hb : Loud block) :
    Loud (declaration expression block) := by
  refine loud_bind loud_peek fun token => ?_
  split
  · exact loud_bind loud_advance fun _ => loud_classDecl hb
  · exact loud_bind loud_advance fun _ => loud_bind (loud_function hb _) fun _ => loud_pure
  · exact loud_bind loud_advance fun _ => loud_varDecl he
  · exact loud_statement he hb

/-- In a block only the braces can fail; the statements in it recover. -/
theorem loud_block (room : Nat) : Loud (Rule.block room) := by
  cases room with
  | zero => exact loud_tooDeep
  | succ room =>
    exact loud_nested <| loud_bind (loud_many loud_recover) fun _ =>
      loud_bind loud_expect fun _ => loud_pure

theorem loud_program : Loud program := loud_many loud_recover

end Lox.Rule
