/-!
# Doubles as counts of the least double

Without its sign a finite double is a whole number of steps of size `2 ^ -1074`.
Its word, the 63 bits below the sign, grows with the value, and the word of a
quotient of natural numbers is found by one division and one rounding.
-/
namespace Lox.Binary64

/-- The number of least steps in the double `1`. -/
def grain : Nat := 1 <<< 1074

/-- The word of infinity; the words of the finite doubles are below it. -/
def infinity : Nat := 2047 <<< 52

/-- The exponent of a word: neighbours of its double lie `2 ^ exponent` least steps apart. -/
def exponent (word : Nat) : Nat := (word >>> 52) - 1

/-- How many least steps the double with this word is from zero. -/
def grains (word : Nat) : Nat := (word - exponent word <<< 52) <<< exponent word

/-- The natural number nearest to `n / d`; a half goes to the even neighbour. -/
def roundEven (n d : Nat) : Nat :=
  let twice := 2 * (n % d)
  if twice < d then n / d
  else if d < twice then n / d + 1
  else n / d + n / d % 2

/-- The word of the double nearest to `n / d`, ties to even, or of infinity if it is too large. -/
def nearest (n d : Nat) : Nat :=
  let steps := n * grain
  let k := (steps / d).log2 - 52
  min ((k <<< 52) + roundEven steps (d <<< k)) infinity

/-- The double without a sign that has this word. -/
def ofWord (word : Nat) : Float := Float.ofBits (UInt64.ofNat word)

/-- The bits of a double below its sign. -/
def word (x : Float) : Nat := x.toBits.toNat % (1 <<< 63)

/-- The sign bit is set. -/
def isNegative (x : Float) : Bool := 1 <<< 63 ≤ x.toBits.toNat

end Lox.Binary64
