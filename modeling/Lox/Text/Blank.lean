/-!
# Blank characters

The characters that Unicode gives the white-space property, with the four
information separators, and the removal of such characters from both ends of a
text.
-/
namespace Lox.Text

/-- First and last code point of each range of blank characters, in order. -/
def blankRanges : List (Nat × Nat) :=
  [(0x09, 0x0D), (0x1C, 0x20), (0x85, 0x85), (0xA0, 0xA0), (0x1680, 0x1680),
    (0x2000, 0x200A), (0x2028, 0x2029), (0x202F, 0x202F), (0x205F, 0x205F), (0x3000, 0x3000)]

/-- The character lies in one of the ranges. -/
def inRanges (ranges : List (Nat × Nat)) (c : Char) : Bool :=
  ranges.any fun (low, high) => low ≤ c.toNat && c.toNat ≤ high

/-- The character is blank. -/
def isBlank (c : Char) : Bool := inRanges blankRanges c

/-- Removes the blanks at the left end. -/
def stripLeft (cs : List Char) : List Char := cs.dropWhile isBlank

/-- Removes the blanks at both ends. -/
def strip (cs : List Char) : List Char := (stripLeft (stripLeft cs).reverse).reverse

end Lox.Text
