import Lox.Text.Unassigned

/-!
# Quoted text

A text is shown between single quotes, or between double quotes if it holds a
single quote and no double one. The quote in use, the backslash and every
character that does not print are escaped.
-/
namespace Lox.Text

/-- First and last code point of each range of controls, separators, format characters and
private characters, in order; the space is among them. -/
def unprintedRanges : List (Nat × Nat) :=
  [(0x00, 0x20), (0x7F, 0xA0), (0xAD, 0xAD), (0x600, 0x605), (0x61C, 0x61C), (0x6DD, 0x6DD),
    (0x70F, 0x70F), (0x890, 0x891), (0x8E2, 0x8E2), (0x1680, 0x1680), (0x180E, 0x180E),
    (0x2000, 0x200F), (0x2028, 0x202F), (0x205F, 0x2064), (0x2066, 0x206F), (0x3000, 0x3000),
    (0xE000, 0xF8FF), (0xFEFF, 0xFEFF), (0xFFF9, 0xFFFB), (0x110BD, 0x110BD),
    (0x110CD, 0x110CD), (0x13430, 0x13438), (0x1BCA0, 0x1BCA3), (0x1D173, 0x1D17A),
    (0xE0001, 0xE0001), (0xE0020, 0xE007F), (0xF0000, 0xFFFFD), (0x100000, 0x10FFFD)]

/-- The space prints, and so does every assigned character outside the ranges. -/
def isPrinted (c : Char) : Bool :=
  c == ' ' || !(inRanges unprintedRanges c || isUnassigned c)

/-- Hexadecimal digits of a code point, filled up with zeros on the left. -/
def hex (width : Nat) (c : Char) : List Char := (Nat.toDigits 16 c.toNat).leftpad width '0'

/-- How a character is written between two `quote` characters. -/
def escape (quote c : Char) : List Char :=
  if c = quote || c = '\\' then ['\\', c]
  else if c = '\n' then ['\\', 'n']
  else if c = '\r' then ['\\', 'r']
  else if c = '\t' then ['\\', 't']
  else if isPrinted c then [c]
  else if c.toNat < 0x100 then '\\' :: 'x' :: hex 2 c
  else if c.toNat < 0x10000 then '\\' :: 'u' :: hex 4 c
  else '\\' :: 'U' :: hex 8 c

/-- The quote that a text is shown with. -/
def quoteFor (cs : List Char) : Char := if cs.contains '\'' && !cs.contains '"' then '"' else '\''

/-- The text between its quotes, with escapes. -/
def quoted (text : String) : String :=
  let quote := quoteFor text.toList
  String.ofList (quote :: text.toList.flatMap (escape quote) ++ [quote])

end Lox.Text
