import Lox.Segment
import Mathlib.Tactic

/-!
# Lexemes

Which texts are tokens, said without a reader. A lexeme is a mark, a word, a number or
a string. Marks, words, numbers and strings start with different characters, so the
first character of a lexeme tells its sort, and its text tells its class and payload.
-/
namespace Lox

/-- The marks with their classes. -/
def Kind.marks : List (List Char × Kind) :=
  [(['('], leftParen), ([')'], rightParen), (['{'], leftBrace), (['}'], rightBrace),
    ([','], comma), (['.'], dot), (['-'], minus), (['+'], plus), ([';'], semicolon),
    (['*'], star), (['/'], slash), (['='], equal), (['=', '='], equalEqual), (['!'], bang),
    (['!', '='], bangEqual), (['<'], less), (['<', '='], lessEqual), (['>'], greater),
    (['>', '='], greaterEqual), (['&', '&'], andAnd), (['|', '|'], orOr)]

namespace Lexeme

open Segment (isLetter isWordChar isBlank)

/-- The characters that stand for another one behind a backslash. -/
def escapes : List (Char × Char) := [('n', '\n'), ('t', '\t'), ('"', '"'), ('\\', '\\')]

/-- What may be between the quotes of a string, and the contents it stands for. -/
inductive Quoted : List Char → List Char → Prop
  | nil : Quoted [] []
  | plain {c text contents} :
      c ≠ '"' → c ≠ '\\' → Quoted text contents → Quoted (c :: text) (c :: contents)
  | known {c d text contents} :
      (c, d) ∈ escapes → Quoted text contents → Quoted ('\\' :: c :: text) (d :: contents)
  | unknown {c text contents} :
      c ∉ escapes.map Prod.fst → Quoted text contents →
      Quoted ('\\' :: c :: text) ('\\' :: c :: contents)

/-- One digit or more. -/
def Digits (text : List Char) : Prop := text ≠ [] ∧ ∀ d ∈ text, d.isDigit = true

/-- Digits, possibly with a point and more digits behind them. -/
inductive Numeral : List Char → Prop
  | whole {digits} : Digits digits → Numeral digits
  | decimal {digits places} : Digits digits → Digits places → Numeral (digits ++ '.' :: places)

end Lexeme

open Lexeme in
/-- The text is a token of the class with the payload. -/
inductive Lexeme : Kind → List Char → Option String → Prop
  | mark {kind text} : (text, kind) ∈ Kind.marks → Lexeme kind text none
  | word {c rest} :
      Segment.isLetter c = true → (∀ d ∈ rest, Segment.isWordChar d = true) →
      Lexeme (Kind.ofWord (String.ofList (c :: rest))) (c :: rest)
        (some (String.ofList (c :: rest)))
  | number {text} : Numeral text → Lexeme .number text (some (String.ofList text))
  | string {text contents} :
      Quoted text contents →
      Lexeme .string ('"' :: text ++ ['"']) (some (String.ofList contents))

namespace Lexeme

open Segment (isLetter isWordChar isBlank mark? pair?)

/-! ### First characters -/

/-- A mark starts with a character that starts nothing else. -/
theorem mark_head {kind : Kind} {text : List Char} (h : (text, kind) ∈ Kind.marks) :
    ∃ c rest, text = c :: rest ∧ isLetter c = false ∧ c.isDigit = false ∧ c ≠ '"' ∧
      isBlank c = false := by
  have hall : ∀ entry ∈ Kind.marks, entry.1.head?.any fun c =>
      !isLetter c && !c.isDigit && c != '"' && !isBlank c := by decide
  have hentry := hall _ h
  cases text with
  | nil => simp at hentry
  | cons c rest =>
    simp only [List.head?_cons, Option.any_some, Bool.and_eq_true, Bool.not_eq_true', bne_iff_ne]
      at hentry
    obtain ⟨⟨⟨hletter, hdigit⟩, hquote⟩, hblank⟩ := hentry
    exact ⟨c, rest, rfl, hletter, hdigit, hquote, hblank⟩

theorem isLetter_of_isDigit {c : Char} (h : c.isDigit = true) : isLetter c = false := by
  simp only [Char.isDigit, Bool.and_eq_true, decide_eq_true_eq, ge_iff_le,
    UInt32.le_iff_toNat_le] at h
  change 48 ≤ c.toNat ∧ c.toNat ≤ 57 at h
  by_contra hletter
  unfold isLetter Char.isAlpha Char.isUpper Char.isLower at hletter
  simp only [Bool.not_eq_false, Bool.or_eq_true, Bool.and_eq_true, decide_eq_true_eq, ge_iff_le,
    UInt32.le_iff_toNat_le, beq_iff_eq] at hletter
  change ((65 ≤ c.toNat ∧ c.toNat ≤ 90) ∨ 97 ≤ c.toNat ∧ c.toNat ≤ 122) ∨ c = '_' at hletter
  rcases hletter with (hupper | hlower) | rfl
  · omega
  · omega
  · exact absurd h (by decide)

theorem digits_head {text : List Char} (h : Digits text) :
    ∃ c rest, text = c :: rest ∧ c.isDigit = true := by
  obtain ⟨hne, hall⟩ := h
  cases text with
  | nil => exact absurd rfl hne
  | cons c rest => exact ⟨c, rest, rfl, hall c List.mem_cons_self⟩

theorem numeral_head {text : List Char} (h : Numeral text) :
    ∃ c rest, text = c :: rest ∧ c.isDigit = true := by
  cases h with
  | whole h => exact digits_head h
  | decimal h _ =>
    obtain ⟨c, rest, rfl, hc⟩ := digits_head h
    exact ⟨c, _, rfl, hc⟩

variable {kind : Kind} {c : Char} {rest : List Char} {literal : Option String}

/-- What starts with a letter is a word. -/
theorem of_letter (h : Lexeme kind (c :: rest) literal) (hc : isLetter c = true) :
    (∀ d ∈ rest, isWordChar d = true) ∧ kind = Kind.ofWord (String.ofList (c :: rest)) ∧
      literal = some (String.ofList (c :: rest)) := by
  cases h with
  | mark h =>
    obtain ⟨_, _, heq, hletter, -⟩ := mark_head h
    cases heq
    rw [hc] at hletter
    cases hletter
  | word _ hrest => exact ⟨hrest, rfl, rfl⟩
  | number h =>
    obtain ⟨_, _, heq, hdigit⟩ := numeral_head h
    cases heq
    rw [isLetter_of_isDigit hdigit] at hc
    cases hc
  | string h => cases hc

/-- What starts with a digit is a number. -/
theorem of_digit (h : Lexeme kind (c :: rest) literal) (hc : c.isDigit = true) :
    Numeral (c :: rest) ∧ kind = .number ∧ literal = some (String.ofList (c :: rest)) := by
  cases h with
  | mark h =>
    obtain ⟨_, _, heq, -, hdigit, -⟩ := mark_head h
    cases heq
    rw [hc] at hdigit
    cases hdigit
  | word hletter =>
    rw [isLetter_of_isDigit hc] at hletter
    cases hletter
  | number h => exact ⟨h, rfl, rfl⟩
  | string h => cases hc

/-- What starts with a quote is a string. -/
theorem of_quote (h : Lexeme kind ('"' :: rest) literal) :
    ∃ text contents, Quoted text contents ∧ rest = text ++ ['"'] ∧ kind = .string ∧
      literal = some (String.ofList contents) := by
  generalize htext : '"' :: rest = text at h
  cases h with
  | mark h =>
    obtain ⟨_, _, heq, -, -, hquote, -⟩ := mark_head h
    subst htext
    cases heq
    exact absurd rfl hquote
  | word hletter =>
    cases htext
    cases hletter
  | number h =>
    obtain ⟨_, _, heq, hdigit⟩ := numeral_head h
    subst htext
    cases heq
    cases hdigit
  | string h =>
    cases htext
    exact ⟨_, _, h, rfl, rfl, rfl⟩

/-- What starts with another character is a mark. -/
theorem of_other (h : Lexeme kind (c :: rest) literal) (hletter : isLetter c = false)
    (hdigit : c.isDigit = false) (hquote : c ≠ '"') :
    (c :: rest, kind) ∈ Kind.marks ∧ literal = none := by
  cases h with
  | mark h => exact ⟨h, rfl⟩
  | word h =>
    rw [hletter] at h
    cases h
  | number h =>
    obtain ⟨_, _, heq, h⟩ := numeral_head h
    cases heq
    rw [hdigit] at h
    cases h
  | string h => exact absurd rfl hquote

theorem isLetter_of_isBlank {c : Char} (h : isBlank c = true) :
    isLetter c = false ∧ c.isDigit = false ∧ c ≠ '"' := by
  simp only [isBlank, Bool.or_eq_true, beq_iff_eq] at h
  rcases h with ((rfl | rfl) | rfl) | rfl <;> decide

/-- A lexeme is not empty and starts with no blank character. -/
theorem head {text : List Char} (h : Lexeme kind text literal) :
    ∃ c rest, text = c :: rest ∧ isBlank c = false := by
  cases text with
  | nil =>
    exfalso
    generalize htext : ([] : List Char) = text at h
    cases h with
    | mark h =>
      obtain ⟨_, _, heq, -⟩ := mark_head h
      rw [heq] at htext
      cases htext
    | word | string => cases htext
    | number h =>
      obtain ⟨_, _, heq, -⟩ := numeral_head h
      rw [heq] at htext
      cases htext
  | cons c rest =>
    refine ⟨c, rest, rfl, ?_⟩
    by_contra hblank
    obtain ⟨hletter, hdigit, hquote⟩ := isLetter_of_isBlank (Bool.not_eq_false _ ▸ hblank)
    obtain ⟨_, _, heq, -, -, -, h⟩ := mark_head (of_other h hletter hdigit hquote).1
    cases heq
    exact hblank h

/-! ### The text tells all -/

/-- The text between quotes has one meaning. -/
theorem Quoted.contents_eq {text contents contents' : List Char} (h : Quoted text contents)
    (h' : Quoted text contents') : contents = contents' := by
  induction h generalizing contents' with
  | nil =>
    cases h'
    rfl
  | plain _ hc _ ih =>
    cases h' with
    | plain _ _ h => rw [ih h]
    | known _ h => exact absurd rfl hc
    | unknown _ h => exact absurd rfl hc
  | @known c d text contents hmem _ ih =>
    cases h' with
    | plain _ hc _ => exact absurd rfl hc
    | @known _ e _ _ hmem' h =>
      have hone : ∀ one ∈ escapes, ∀ other ∈ escapes, one.1 = other.1 → one.2 = other.2 := by decide
      have heq : d = e := hone _ hmem _ hmem' rfl
      rw [heq, ih h]
    | unknown hnot h => exact absurd (List.mem_map_of_mem hmem) hnot
  | unknown hnot _ ih =>
    cases h' with
    | plain _ hc _ => exact absurd rfl hc
    | known hmem h => exact absurd (List.mem_map_of_mem hmem) hnot
    | unknown _ h => rw [ih h]

theorem kind_literal_eq {kind' : Kind} {literal' : Option String} {text : List Char}
    (h : Lexeme kind text literal) (h' : Lexeme kind' text literal') :
    kind = kind' ∧ literal = literal' := by
  obtain ⟨c, rest, rfl, -⟩ := h.head
  by_cases hletter : isLetter c = true
  · obtain ⟨-, hkind, hliteral⟩ := h.of_letter hletter
    obtain ⟨-, hkind', hliteral'⟩ := h'.of_letter hletter
    exact ⟨hkind.trans hkind'.symm, hliteral.trans hliteral'.symm⟩
  by_cases hdigit : c.isDigit = true
  · obtain ⟨-, hkind, hliteral⟩ := h.of_digit hdigit
    obtain ⟨-, hkind', hliteral'⟩ := h'.of_digit hdigit
    exact ⟨hkind.trans hkind'.symm, hliteral.trans hliteral'.symm⟩
  by_cases hquote : c = '"'
  · subst hquote
    obtain ⟨text, contents, hquoted, rfl, hkind, hliteral⟩ := h.of_quote
    obtain ⟨text', contents', hquoted', heq, hkind', hliteral'⟩ := h'.of_quote
    obtain rfl := List.append_cancel_right heq
    rw [hquoted.contents_eq hquoted'] at hliteral
    exact ⟨hkind.trans hkind'.symm, hliteral.trans hliteral'.symm⟩
  rw [Bool.not_eq_true] at hletter hdigit
  obtain ⟨hmark, hliteral⟩ := h.of_other hletter hdigit hquote
  obtain ⟨hmark', hliteral'⟩ := h'.of_other hletter hdigit hquote
  have hone : ∀ one ∈ Kind.marks, ∀ other ∈ Kind.marks, one.1 = other.1 → one.2 = other.2 := by
    decide
  exact ⟨hone _ hmark _ hmark' rfl, hliteral.trans hliteral'.symm⟩

end Lexeme

end Lox
