import Lox.Token

/-!
# Segments of a source text

A source text is read as consecutive segments: tokens, single blank characters,
comments, characters that start nothing, and a string that never closes. Each
segment is the longest one that starts at its place, and joining the texts of all
segments gives the source back.
-/
namespace Lox

/-- One piece of a source text. -/
inductive Segment where
  /-- The text of a token with its payload. -/
  | token (kind : Kind) (text : List Char) (literal : Option String)
  /-- A space, carriage return, tab or line feed. -/
  | blank (c : Char)
  /-- A comment with its two slashes and without the line feed that ends it. -/
  | comment (text : List Char)
  /-- A character with which no other segment starts. -/
  | stray (c : Char)
  /-- A string without its closing quote; it runs to the end of the source. -/
  | unclosed (text : List Char)
deriving DecidableEq, Repr

namespace Segment

/-- The characters that a segment covers. -/
def text : Segment → List Char
  | token _ text _ => text
  | blank c => [c]
  | comment text => text
  | stray c => [c]
  | unclosed text => text

/-- The number of line feeds that a segment covers. -/
def newlines (segment : Segment) : Nat := segment.text.count '\n'

/-- Letters are ASCII letters and the underscore. -/
def isLetter (c : Char) : Bool := c.isAlpha || c == '_'

/-- Words continue with letters and ASCII digits. -/
def isWordChar (c : Char) : Bool := isLetter c || c.isDigit

/-- Blank characters separate tokens and mean nothing else. -/
def isBlank (c : Char) : Bool := c == ' ' || c == '\r' || c == '\t' || c == '\n'

/-- Marks of one character that start no longer token. -/
def mark? : Char → Option Kind
  | '(' => some .leftParen
  | ')' => some .rightParen
  | '{' => some .leftBrace
  | '}' => some .rightBrace
  | ',' => some .comma
  | '.' => some .dot
  | '-' => some .minus
  | '+' => some .plus
  | ';' => some .semicolon
  | '*' => some .star
  | _ => none

/-- Marks that may have a second character: that character, the class of the pair, and the
class of the first character alone if it is a token at all. -/
def pair? : Char → Option (Char × Kind × Option Kind)
  | '!' => some ('=', .bangEqual, some .bang)
  | '=' => some ('=', .equalEqual, some .equal)
  | '<' => some ('=', .lessEqual, some .less)
  | '>' => some ('=', .greaterEqual, some .greater)
  | '&' => some ('&', .andAnd, none)
  | '|' => some ('|', .orOr, none)
  | _ => none

/-- What a backslash and `c` stand for in a string. An unknown escape stands for itself. -/
def unescape : Char → List Char
  | 'n' => ['\n']
  | 't' => ['\t']
  | '"' => ['"']
  | '\\' => ['\\']
  | c => ['\\', c]

/-- Reads a string from behind its opening quote: the text up to and with the closing quote,
the contents it stands for, and the rest. `none` if no quote closes it. -/
def closeString : List Char → Option (List Char × List Char × List Char)
  | [] => none
  | '"' :: rest => some (['"'], [], rest)
  | '\\' :: c :: rest =>
    (closeString rest).map fun (text, contents, rest) =>
      ('\\' :: c :: text, unescape c ++ contents, rest)
  | c :: rest =>
    (closeString rest).map fun (text, contents, rest) => (c :: text, c :: contents, rest)

/-- Reads a string whose opening quote has been read. -/
def string (rest : List Char) : Segment × List Char :=
  match closeString rest with
  | some (text, contents, rest) =>
    (token .string ('"' :: text) (some (String.ofList contents)), rest)
  | none => (unclosed ('"' :: rest), [])

/-- Reads the point and the digits of a fraction; nothing unless a digit follows the point. -/
def fraction : List Char → List Char × List Char
  | '.' :: d :: rest =>
    if d.isDigit then ('.' :: d :: rest.takeWhile Char.isDigit, rest.dropWhile Char.isDigit)
    else ([], '.' :: d :: rest)
  | rest => ([], rest)

/-- Reads a number whose first digit is `c`. -/
def number (c : Char) (rest : List Char) : Segment × List Char :=
  let (part, after) := fraction (rest.dropWhile Char.isDigit)
  let text := c :: (rest.takeWhile Char.isDigit ++ part)
  (token .number text (some (String.ofList text)), after)

/-- Reads a word whose first letter is `c`. -/
def word (c : Char) (rest : List Char) : Segment × List Char :=
  let text := c :: rest.takeWhile isWordChar
  let name := String.ofList text
  (token (Kind.ofWord name) text (some name), rest.dropWhile isWordChar)

/-- Reads a mark that may have a second character. -/
def pair (c second : Char) (both : Kind) (alone : Option Kind) (rest : List Char) :
    Segment × List Char :=
  if rest.head? = some second then (token both [c, second] none, rest.tail)
  else match alone with
    | some kind => (token kind [c] none, rest)
    | none => (stray c, rest)

/-- Reads what starts with a slash: a comment after a second slash, otherwise a mark. -/
def slash (rest : List Char) : Segment × List Char :=
  if rest.head? = some '/' then
    (comment ('/' :: rest.takeWhile (· != '\n')), rest.dropWhile (· != '\n'))
  else (token .slash ['/'] none, rest)

/-- The first segment of the text `c :: rest`, and the text that follows it. -/
def first (c : Char) (rest : List Char) : Segment × List Char :=
  match mark? c with
  | some kind => (token kind [c] none, rest)
  | none => match pair? c with
    | some (second, both, alone) => pair c second both alone rest
    | none =>
      if c = '/' then slash rest
      else if isBlank c then (blank c, rest)
      else if c = '"' then string rest
      else if c.isDigit then number c rest
      else if isLetter c then word c rest
      else (stray c, rest)

theorem closeString_append {cs text contents rest : List Char}
    (h : closeString cs = some (text, contents, rest)) : text ++ rest = cs := by
  fun_induction closeString cs generalizing text contents rest with
  | case1 => simp at h
  | case2 r => simp at h; obtain ⟨rfl, rfl, rfl⟩ := h; rfl
  | case3 c r ih =>
    obtain ⟨⟨t, k, q⟩, hr, he⟩ := Option.map_eq_some_iff.1 h
    simp at he
    obtain ⟨rfl, rfl, rfl⟩ := he
    simp [ih hr]
  | case4 c r _ _ ih =>
    obtain ⟨⟨t, k, q⟩, hr, he⟩ := Option.map_eq_some_iff.1 h
    simp at he
    obtain ⟨rfl, rfl, rfl⟩ := he
    simp [ih hr]

theorem fraction_append (cs : List Char) : (fraction cs).1 ++ (fraction cs).2 = cs := by
  unfold fraction
  split
  · split <;> simp
  · rfl

/-- Reading the first segment loses no character. -/
theorem first_text_append (c : Char) (rest : List Char) :
    (first c rest).1.text ++ (first c rest).2 = c :: rest := by
  unfold first
  split
  · rfl
  split
  · unfold pair
    split
    · cases rest <;> simp_all [text]
    · split <;> rfl
  split
  · unfold slash
    split
    · simp_all [text]
    · simp_all [text]
  split
  · rfl
  split
  · unfold string
    split
    · next h => have := closeString_append h; simp_all [text]
    · simp_all [text]
  split
  · simp [number, text, fraction_append]
  split
  · simp [word, text]
  · rfl

theorem first_text_ne_nil (c : Char) (rest : List Char) : (first c rest).1.text ≠ [] := by
  unfold first pair slash string number word
  repeat' split
  all_goals simp [text]

theorem first_length_lt (c : Char) (rest : List Char) :
    (first c rest).2.length < (c :: rest).length := by
  have happ := congrArg List.length (first_text_append c rest)
  have hpos := List.length_pos_iff.2 (first_text_ne_nil c rest)
  simp only [List.length_append] at happ
  omega

/-- Divides a source text into its segments. -/
def split : List Char → List Segment
  | [] => []
  | c :: rest => (first c rest).1 :: split (first c rest).2
termination_by cs => cs.length
decreasing_by exact first_length_lt c rest

/-- The segments cover the whole source in order. -/
theorem flatMap_text_split (cs : List Char) : (split cs).flatMap text = cs := by
  fun_induction split cs with
  | case1 => rfl
  | case2 c rest ih => rw [List.flatMap_cons, ih, first_text_append]

end Segment

end Lox
