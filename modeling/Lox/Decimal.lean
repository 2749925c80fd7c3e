import Lox.Binary64

/-!
# Decimals

A decimal is a coefficient over a power of ten. Reading a number rounds its
decimal to the nearest double. Writing a double takes the decimal with the fewest
places that reads back; a whole number has none and is written with all its
digits.
-/
namespace Lox

/-- The number `coefficient / 10 ^ places`. -/
structure Decimal where
  coefficient : Nat
  places : Nat
deriving DecidableEq, Repr

namespace Decimal

/-- The power of ten with as many zeros as there are places. -/
def scale (places : Nat) : Nat := Nat.pow 10 places

open Binary64 in
/-- The word of the nearest double. -/
def word (d : Decimal) : Nat := nearest d.coefficient (scale d.places)

/-- Reads digits that may have a point and more digits after them. Number tokens carry nothing
else, so it does not matter what other texts are read as. -/
def ofChars (cs : List Char) : Decimal :=
  let whole := cs.takeWhile Char.isDigit
  let part := ((cs.dropWhile Char.isDigit).drop 1).takeWhile Char.isDigit
  ⟨Nat.ofDigitChars 10 (whole ++ part) 0, part.length⟩

/-- The double that the text of a number denotes. -/
def toFloat (text : String) : Float := Binary64.ofWord (ofChars text.toList).word

open Binary64 in
/-- A decimal with the given places that reads back as `word`, if there is one: the neighbour
below or above, and the nearer one, with the even coefficient on a tie, if both do. -/
def withPlaces? (word places : Nat) : Option Decimal :=
  let steps := grains word * scale places
  let below : Decimal := ⟨steps / grain, places⟩
  let above : Decimal := ⟨steps / grain + 1, places⟩
  if below.word = word then
    if above.word = word then some ⟨roundEven steps grain, places⟩ else some below
  else if above.word = word then some above
  else none

open Binary64 in
/-- The search for the fewest places, from `places` on and for at most `more` further ones. -/
def shortestFrom (word places : Nat) : Nat → Decimal
  | 0 => ⟨grains word * scale places / grain, places⟩
  | more + 1 => (withPlaces? word places).getD (shortestFrom word (places + 1) more)

/-- The decimal with the fewest places that reads back as `word`. With 1074 places every double
is exact, so the search always ends with a hit. -/
def ofWord (word : Nat) : Decimal := shortestFrom word 0 1074

/-- Digits filled up with zeros on the left to at least `width`. -/
def digits (width n : Nat) : List Char := (Nat.toDigits 10 n).leftpad width '0'

/-- Digits with a point before the last places; the point is left out if there are none. -/
def positional (d : Decimal) : List Char :=
  let whole := Nat.toDigits 10 (d.coefficient / scale d.places)
  if d.places = 0 then whole
  else whole ++ '.' :: digits d.places (d.coefficient % scale d.places)

/-- One digit, the other digits after a point, and a negative exponent of at least two digits. -/
def scientific (d : Decimal) : List Char :=
  match Nat.toDigits 10 d.coefficient with
  | [] => []
  | lead :: others =>
    let mantissa := if others.isEmpty then [lead] else lead :: '.' :: others
    mantissa ++ 'e' :: '-' :: digits 2 (d.places - others.length)

/-- Numbers below `10 ^ -4` are written with an exponent, all others without. -/
def text (d : Decimal) : List Char :=
  if d.places ≤ (Nat.toDigits 10 d.coefficient).length + 3 then d.positional else d.scientific

end Decimal

/-- The text of a double. The zeros are both written without a sign. -/
def Binary64.text (x : Float) : String :=
  if x.isNaN then "nan"
  else
    let magnitude :=
      if Binary64.word x = Binary64.infinity then "inf".toList
      else (Decimal.ofWord (Binary64.word x)).text
    String.ofList
      (if Binary64.isNegative x && Binary64.word x != 0 then '-' :: magnitude else magnitude)

end Lox
