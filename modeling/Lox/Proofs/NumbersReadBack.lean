import Lox.Execution
import Lox.Proofs.ExpressionReading
import Lox.Proofs.NumberText
import Lox.Proofs.Rescanning
import Mathlib

/-!
# Printed numbers are read back

The text of a finite double that is zero or at least `10 ^ -4` in size is an expression: a
number literal, with a minus sign in front if the double is negative. No diagnostic is
reported, and the value of the expression is the double again, except that a zero loses its
sign. A whole number is printed with all its digits.

A double stands for a rational number, by its sign, mantissa and exponent. That number is
the one that the word of the double counts out in least steps, so what is known of words
carries over to it.
-/
namespace Lox

namespace Binary64

open Float.Model (UnpackedFloat Format)

/-! ### The number that a double stands for -/

/-- The number that an unpacked double stands for, if it is finite. -/
def unpackedRat : UnpackedFloat → ℚ
  | .finite sign mantissa exponent _ => sign.apply mantissa * 2 ^ exponent
  | _ => 0

/-- The number that a finite double stands for. -/
def toRat (x : Float) : ℚ := unpackedRat x.toModel.unpack

theorem ofBitVec_unpackSign (x : Float) :
    .ofBitVec (@UnpackedFloat.unpackSign .binary64 x.toBits.toBitVec) =
      if isNegative x then UnpackedFloat.Sign.negative else .positive := by
  have hbits := x.toBits.toNat_lt
  have hzero : @UnpackedFloat.unpackSign .binary64 x.toBits.toBitVec = 0#1 ↔
      ¬isNegative x = true := by
    rw [isNegative, decide_eq_true_eq, Nat.one_shiftLeft, ← BitVec.toNat_inj]
    simp [UnpackedFloat.unpackSign, Nat.shiftRight_eq_div_pow]
    omega
  unfold UnpackedFloat.Sign.ofBitVec
  by_cases hneg : isNegative x = true <;> simp [hzero, hneg]

/-- Below the sign a double has eleven bits for its exponent and 52 for its mantissa. -/
theorem word_eq (x : Float) :
    word x = x.toBits.toNat / 2 ^ 52 % 2 ^ 11 * 2 ^ 52 + x.toBits.toNat % 2 ^ 52 := by
  rw [word, Nat.one_shiftLeft]
  omega

/-- Without an exponent the mantissa counts least steps. -/
theorem grains_of_subnormal {x : Float} (h : x.toBits.toNat / 2 ^ 52 % 2 ^ 11 = 0) :
    grains (word x) = x.toBits.toNat % 2 ^ 52 := by
  have hexponent := exponent_eq (word x)
  have hword := word_eq x
  have hnone : exponent (word x) = 0 := by omega
  rw [grains_eq, hnone]
  omega

/-- The exponent counts from one, and the bit before the mantissa is not written. -/
theorem grains_of_normal {x : Float} (h : x.toBits.toNat / 2 ^ 52 % 2 ^ 11 ≠ 0) :
    grains (word x) = (2 ^ 52 + x.toBits.toNat % 2 ^ 52) *
      2 ^ (x.toBits.toNat / 2 ^ 52 % 2 ^ 11 - 1) := by
  have hexponent := exponent_eq (word x)
  have hword := word_eq x
  have hless : exponent (word x) = x.toBits.toNat / 2 ^ 52 % 2 ^ 11 - 1 := by omega
  have hmantissa : word x - exponent (word x) * 2 ^ 52 = 2 ^ 52 + x.toBits.toNat % 2 ^ 52 := by
    omega
  rw [grains_eq, hmantissa, hless]

theorem mul_zpow_eq (mantissa k : Nat) :
    (mantissa : ℚ) * 2 ^ ((k : ℤ) - 1074) = (mantissa * 2 ^ k : ℕ) / (grain : ℚ) := by
  have hshift (n : Nat) : ((1 <<< n : ℕ) : ℚ) = 2 ^ (n : ℤ) := by
    rw [Nat.one_shiftLeft, Nat.cast_pow, Nat.cast_ofNat, zpow_natCast]
  have hgrain : (grain : ℚ) = 2 ^ (1074 : ℤ) := hshift 1074
  rw [zpow_sub₀ two_ne_zero, zpow_natCast, hgrain, Nat.cast_mul, Nat.cast_pow, Nat.cast_ofNat,
    mul_div_assoc]

/-- A finite double is its number of least steps, with its sign. -/
theorem toRat_eq {x : Float} (h : x.isFinite = true) :
    toRat x = (if isNegative x then -1 else 1) * (grains (word x) / grain : ℚ) := by
  have hsign (n : Nat) : (((if isNegative x then UnpackedFloat.Sign.negative else .positive).apply
      n : ℤ) : ℚ) = (if isNegative x then -1 else 1) * (n : ℚ) := by
    split <;> simp [UnpackedFloat.Sign.apply]
  have hE := toNat_unpackExponent x.toBits
  have hM := toNat_unpackMantissa x.toBits
  have hbias : (Format.binary64.exponentBias : ℤ) = 1023 := rfl
  change unpackedRat (UnpackedFloat.unpack .binary64 x.toBits.toBitVec) = _
  unfold UnpackedFloat.unpack
  dsimp only
  rw [if_neg (unpackExponent_ne h), ofBitVec_unpackSign]
  split
  case isTrue hsub =>
    have hzero : x.toBits.toNat / 2 ^ 52 % 2 ^ 11 = 0 := by
      rw [← hE, hsub]
      rfl
    rw [grains_of_subnormal hzero, ← hM]
    split
    case isTrue hnothing =>
      rw [hnothing]
      simp [unpackedRat]
    case isFalse =>
      have hexponent : ((@UnpackedFloat.unpackExponent .binary64 x.toBits.toBitVec).toNat : ℤ) -
          (Format.binary64.exponentBias + (52 : ℕ)) + 1 = (0 : ℕ) - 1074 := by omega
      rw [unpackedRat, hsign, mul_assoc, hexponent, mul_zpow_eq, Nat.pow_zero, Nat.mul_one]
  case isFalse hsub =>
    have hpos : x.toBits.toNat / 2 ^ 52 % 2 ^ 11 ≠ 0 := fun hzero =>
      hsub (BitVec.eq_of_toNat_eq (hE.trans hzero))
    have hmantissa : (1#1 ++ @UnpackedFloat.unpackMantissa .binary64 x.toBits.toBitVec).toNat =
        2 ^ 52 + x.toBits.toNat % 2 ^ 52 := by
      have hlt : x.toBits.toNat % 2 ^ 52 < 2 ^ 52 := Nat.mod_lt _ (by decide)
      rw [BitVec.toNat_append, hM]
      exact (Nat.shiftLeft_add_eq_or_of_lt hlt 1).symm
    have hexponent : ((@UnpackedFloat.unpackExponent .binary64 x.toBits.toBitVec).toNat : ℤ) -
        (Format.binary64.exponentBias + (52 : ℕ)) =
          (x.toBits.toNat / 2 ^ 52 % 2 ^ 11 - 1 : ℕ) - 1074 := by omega
    rw [unpackedRat, hsign, mul_assoc, hmantissa, grains_of_normal hpos, hexponent, mul_zpow_eq]

theorem grain_pos : 0 < grain := by
  rw [grain, Nat.one_shiftLeft]
  positivity

theorem grains_eq_zero_iff (word : Nat) : grains word = 0 ↔ word = 0 := by
  have hexponent := exponent_eq word
  have hpow : 2 ^ exponent word ≠ 0 := by positivity
  rw [grains_eq, Nat.mul_eq_zero, or_iff_left hpow]
  omega

variable {x y : Float}

theorem abs_toRat (h : x.isFinite = true) : |toRat x| = grains (word x) / grain := by
  have hsize : (0 : ℚ) ≤ grains (word x) / grain := by positivity
  rw [toRat_eq h]
  split
  · rw [neg_one_mul, abs_neg, abs_of_nonneg hsize]
  · rw [one_mul, abs_of_nonneg hsize]

theorem toRat_eq_zero_iff (h : x.isFinite = true) : toRat x = 0 ↔ word x = 0 := by
  have hgrain : (grain : ℚ) ≠ 0 := Nat.cast_ne_zero.2 grain_pos.ne'
  rw [← abs_eq_zero, abs_toRat h, div_eq_zero_iff, or_iff_left hgrain, Nat.cast_eq_zero,
    grains_eq_zero_iff]

theorem toRat_neg_iff (h : x.isFinite = true) :
    toRat x < 0 ↔ isNegative x = true ∧ word x ≠ 0 := by
  have hsize : (0 : ℚ) ≤ grains (word x) / grain := by positivity
  rw [lt_iff_le_and_ne, Ne, toRat_eq_zero_iff h, toRat_eq h]
  refine and_congr_left fun hword => ?_
  rw [← toRat_eq_zero_iff h, ← abs_eq_zero, abs_toRat h] at hword
  split
  case isTrue hneg => simp [hneg, hsize]
  case isFalse hneg => simp [hneg, lt_of_le_of_ne hsize (Ne.symm hword)]

/-! ### Signs -/

/-- A double with the other sign is the negated one. -/
theorem neg_eq_of_word (hword : word x = word y) (hsign : isNegative x = !isNegative y) :
    -y = x := by
  have hx := word_eq x
  have hy := word_eq y
  have hexponent : @UnpackedFloat.unpackExponent .binary64 y.toBits.toBitVec =
      @UnpackedFloat.unpackExponent .binary64 x.toBits.toBitVec := by
    refine BitVec.eq_of_toNat_eq ?_
    rw [toNat_unpackExponent, toNat_unpackExponent]
    omega
  have hmantissa : @UnpackedFloat.unpackMantissa .binary64 y.toBits.toBitVec =
      @UnpackedFloat.unpackMantissa .binary64 x.toBits.toBitVec := by
    refine BitVec.eq_of_toNat_eq ?_
    rw [toNat_unpackMantissa, toNat_unpackMantissa]
    omega
  have hopposite : (if isNegative x then UnpackedFloat.Sign.negative else .positive) =
      -(if isNegative y then UnpackedFloat.Sign.negative else .positive) := by
    rw [hsign]
    cases isNegative y <;> rfl
  have hneg : (UnpackedFloat.unpack .binary64 y.toBits.toBitVec).neg =
      UnpackedFloat.unpack .binary64 x.toBits.toBitVec := by
    unfold UnpackedFloat.unpack
    simp only [ofBitVec_unpackSign, hopposite, hexponent, hmantissa]
    split
    · split <;> rfl
    · split
      · split <;> rfl
      · rfl
  have hpack := UnpackedFloat.pack_unpack_of_valid x.toModel.valid (by decide)
  rw [← Float.toBits_inj]
  change UInt64.ofBitVec (UnpackedFloat.pack .binary64
    (UnpackedFloat.unpack .binary64 y.toBits.toBitVec).neg) = x.toBits
  rw [hneg]
  exact congrArg UInt64.ofBitVec hpack

theorem isNegative_ofWord {w : Nat} (h : w ≤ infinity) : isNegative (ofWord w) = false := by
  have hbits := toBits_ofWord h
  have hinfinity := infinity_eq
  rw [isNegative, hbits, Nat.one_shiftLeft, decide_eq_false_iff_not]
  omega

theorem word_ofWord {w : Nat} (h : w ≤ infinity) : word (ofWord w) = w := by
  have hbits := toBits_ofWord h
  have hinfinity := infinity_eq
  rw [word, hbits, Nat.one_shiftLeft]
  omega

/-- A double without a sign is the one that its word tells. -/
theorem Magnitude.ofWord_word (h : Magnitude x) : ofWord (word x) = x := by
  have hword := (word_lt_infinity h.finite).le
  rw [← Float.toBits_inj, ← UInt64.toNat_inj, toBits_ofWord hword, h.toNat_toBits]

/-- A double with a sign is the negated one that its word tells. -/
theorem neg_ofWord_word (h : x.isFinite = true) (hneg : isNegative x = true) :
    -ofWord (word x) = x := by
  have hword := (word_lt_infinity h).le
  refine neg_eq_of_word (word_ofWord hword).symm ?_
  rw [hneg, isNegative_ofWord hword]
  rfl

/-- A double that is not negative is the one that its word tells, but for the sign of a zero. -/
theorem ofWord_word_of_nonneg (h : x.isFinite = true) (hpos : ¬toRat x < 0) :
    ofWord (word x) = if toRat x = 0 then 0 else x := by
  split
  case isTrue hzero =>
    rw [(toRat_eq_zero_iff h).1 hzero]
    rfl
  case isFalse hne =>
    have hunsigned : isNegative x = false := by
      rw [toRat_neg_iff h, not_and_not_right, ← toRat_eq_zero_iff h] at hpos
      exact Bool.eq_false_of_not_eq_true fun hsign => hne (hpos hsign)
    exact Magnitude.ofWord_word ⟨h, hunsigned⟩

/-- The text of a finite double is that of its decimal, with a sign if it is negative. -/
theorem text_of_isFinite (h : x.isFinite = true) :
    text x = String.ofList (if toRat x < 0 then '-' :: (Decimal.ofWord (word x)).text
      else (Decimal.ofWord (word x)).text) := by
  have hinfinity := (word_lt_infinity h).ne
  unfold text
  rw [isNaN_of_isFinite h, if_neg Bool.false_ne_true]
  dsimp only
  rw [if_neg hinfinity]
  simp only [toRat_neg_iff h, Bool.and_eq_true, bne_iff_ne]

end Binary64

namespace Decimal

open Binary64

/-! ### The layout of a decimal -/

/-- The coefficient of a decimal is not less than that of the neighbour below. -/
theorem le_coefficient_withPlaces? {word places : Nat} {d : Decimal}
    (h : withPlaces? word places = some d) : grains word * scale d.places / grain ≤ d.coefficient := by
  unfold withPlaces? at h
  dsimp only at h
  split at h
  case isTrue =>
    split at h
    case isTrue =>
      cases h
      rcases roundEven_cases (grains word * scale places) grain with hround | hround
      · exact hround.ge
      · exact hround.ge.trans' (Nat.le_succ _)
    case isFalse =>
      cases h
      exact Nat.le_refl _
  case isFalse =>
    split at h
    case isTrue =>
      cases h
      exact Nat.le_succ _
    case isFalse => cases h

theorem le_coefficient_shortestFrom (word more : Nat) : ∀ places,
    grains word * scale (shortestFrom word places more).places / grain ≤
      (shortestFrom word places more).coefficient := by
  induction more with
  | zero => exact fun places => Nat.le_refl _
  | succ more ih =>
    intro places
    rw [shortestFrom]
    cases hhit : withPlaces? word places with
    | some d => exact le_coefficient_withPlaces? hhit
    | none => exact ih (places + 1)

/-- A decimal that is not less than `10 ^ -4` is written without an exponent. -/
theorem text_ofWord_of_le {word : Nat} (h : grain ≤ grains word * 10 ^ 4) :
    (ofWord word).text = (ofWord word).positional := by
  have hcoefficient : grains word * scale (ofWord word).places / grain ≤ (ofWord word).coefficient :=
    le_coefficient_shortestFrom word 1074 0
  generalize ofWord word = d at hcoefficient ⊢
  refine if_pos ?_
  by_contra hlong
  obtain ⟨more, hplaces⟩ := Nat.exists_eq_add_of_le (show 4 ≤ d.places by omega)
  have hpos : 0 < (Nat.toDigits 10 d.coefficient).length :=
    List.length_pos_iff.2 Nat.toDigits_ne_nil
  have hlength : d.coefficient < 10 ^ more :=
    (Nat.length_toDigits_le_iff (by decide) (by omega)).1 (by omega)
  have hlow : 10 ^ more ≤ grains word * scale d.places / grain := by
    rw [Nat.le_div_iff_mul_le grain_pos, scale, hplaces]
    calc 10 ^ more * grain ≤ 10 ^ more * (grains word * 10 ^ 4) := Nat.mul_le_mul_left _ h
      _ = grains word * 10 ^ (4 + more) := by ring
  omega

/-- A whole number has no places, and its coefficient is the number. -/
theorem ofWord_of_eq_mul {word n : Nat} (hword : word < infinity) (h : grains word = n * grain) :
    ofWord word = ⟨n, 0⟩ := by
  have hscale : scale 0 = 1 := rfl
  have hbelow : (⟨n, 0⟩ : Decimal).word = word :=
    nearest_of_exact (scale_pos 0) hword (by rw [hscale, Nat.mul_one, h])
  have hfirst : withPlaces? word 0 = some ⟨n, 0⟩ := by
    unfold withPlaces?
    dsimp only
    rw [hscale, Nat.mul_one, h, Nat.mul_div_cancel n grain_pos, roundEven_mul n grain_pos,
      if_pos hbelow]
    split <;> rfl
  rw [ofWord, shortestFrom, hfirst, Option.getD_some]

open Lexeme (Digits Numeral)

theorem digits_toDigits (n : Nat) : Digits (Nat.toDigits 10 n) :=
  ⟨Nat.toDigits_ne_nil, fun _ => isDigit_of_mem_toDigits⟩

/-- Digits with a point are a numeral of the language. -/
theorem numeral_positional (d : Decimal) : Numeral d.positional := by
  unfold positional
  dsimp only
  split
  case isTrue => exact .whole (digits_toDigits _)
  case isFalse hplaces =>
    have hlength : (digits d.places (d.coefficient % scale d.places)).length = d.places :=
      length_digits (Nat.pos_of_ne_zero hplaces) (Nat.mod_lt _ (scale_pos d.places))
    refine .decimal (digits_toDigits _) ⟨?_, fun _ => isDigit_of_mem_digits⟩
    intro hnil
    rw [hnil] at hlength
    exact hplaces hlength.symm

end Decimal

/-! ### Reading numerals -/

namespace Segment

open Lexeme (Numeral)

theorem division_numeral {text : List Char} (h : Numeral text) :
    Division [.token .number text (some (String.ofList text))] text := by
  have hleads : Leads (.token .number text (some (String.ofList text))) [] :=
    leads_of_lexeme (.number h) (by simp)
  simpa [Segment.text] using Division.cons hleads .nil

theorem split_numeral {text : List Char} (h : Numeral text) :
    split text = [.token .number text (some (String.ofList text))] :=
  (division_split text).unique (division_numeral h)

theorem split_negated {text : List Char} (h : Numeral text) :
    split ('-' :: text) =
      [.token .minus ['-'] none, .token .number text (some (String.ofList text))] := by
  have hleads : Leads (.token .minus ['-'] none) text := leads_mark rfl text
  exact (division_split _).unique (.cons hleads (division_numeral h))

end Segment

namespace Expr

open Grammar

/-- An operand alone is an expression. -/
theorem derives_of_unary {room : Nat} {ts : List Token} {e : Expr} (h : Derives room .unary ts e) :
    Derives (room + 1) .expression ts e :=
  .expression (.operation (.single (.single (.single (.single (.single (.single h)))))))

theorem parse_of_derives {body : List Token} {close : Token} {e : Expr}
    (h : Derives Rule.maxDepth .expression body e) (hclose : close.kind = .eof)
    (hbody : ∀ t ∈ body, t.kind ≠ .eof) :
    (parse body close).outcome = .ok e ∧ (parse body close).reports = [] := by
  obtain ⟨c', hreads⟩ := (Rule.reads_wholeExpression (c := .start body close) hclose hbody).2 h
  have hparse : parse body close = ⟨.ok e, c', []⟩ := hreads
  rw [hparse]
  exact ⟨rfl, rfl⟩

/-- The source is read as the expression, and nothing is reported about it. -/
def ReadFrom (source : String) (e : Expr) : Prop :=
  let stream := TokenStream.ofSource source
  let step := parse stream.body stream.close
  stream.faults = [] ∧ step.outcome = .ok e ∧ step.reports = []

open Lexeme (Numeral)

theorem readFrom_numeral {text : List Char} (h : Numeral text) :
    ReadFrom (String.ofList text)
      (.literal (.number (.real (Decimal.toFloat (String.ofList text))))) := by
  unfold ReadFrom TokenStream.ofSource
  rw [String.toList_ofList, Segment.split_numeral h]
  refine ⟨rfl, parse_of_derives (derives_of_unary ?_) rfl ?_⟩
  · exact .primary (.number rfl)
  · simp [TokenStream.ofSegments]

theorem readFrom_negated {text : List Char} (h : Numeral text) : ∃ op : Token, op.kind = .minus ∧
    ReadFrom (String.ofList ('-' :: text))
      (.unary op (.literal (.number (.real (Decimal.toFloat (String.ofList text)))))) := by
  refine ⟨⟨.minus, "-", none, 1⟩, rfl, ?_⟩
  unfold ReadFrom TokenStream.ofSource
  rw [String.toList_ofList, Segment.split_negated h]
  refine ⟨rfl, parse_of_derives (derives_of_unary ?_) rfl ?_⟩
  · exact .unary (.inr rfl) (.primary (.number rfl))
  · simp [TokenStream.ofSegments]

end Expr

namespace Binary64

open Exec

variable {x : Float}

/-- The decimal of a double reads back as the double without its sign. -/
theorem toFloat_positional (h : x.isFinite = true) :
    Decimal.toFloat (String.ofList (Decimal.ofWord (word x)).positional) = ofWord (word x) := by
  rw [Decimal.toFloat, String.toList_ofList, Decimal.ofChars_positional,
    Decimal.word_ofWord (word_lt_infinity h)]

/-- A double is at least `10 ^ -4` in size if its least steps are that many. -/
theorem le_abs_toRat_iff (h : x.isFinite = true) :
    1 / 10 ^ 4 ≤ |toRat x| ↔ grain ≤ grains (word x) * 10 ^ 4 := by
  have hgrain : (0 : ℚ) < grain := Nat.cast_pos.2 grain_pos
  rw [abs_toRat h, div_le_div_iff₀ (by positivity) hgrain, one_mul]
  exact_mod_cast Iff.rfl

theorem text_ofWord_of_range (h : x.isFinite = true)
    (hrange : toRat x = 0 ∨ 1 / 10 ^ 4 ≤ |toRat x|) :
    (Decimal.ofWord (word x)).text = (Decimal.ofWord (word x)).positional := by
  rcases hrange with hzero | hsize
  · rw [(toRat_eq_zero_iff h).1 hzero,
      Decimal.ofWord_of_eq_mul (by decide) (show grains 0 = 0 * grain by rw [Nat.zero_mul]; rfl)]
    rfl
  · exact Decimal.text_ofWord_of_le ((le_abs_toRat_iff h).1 hsize)

/-- The text of a whole number is the number. -/
theorem text_of_toRat_eq (h : x.isFinite = true) {n : ℤ} (hn : toRat x = n) :
    text x = toString n := by
  have hgrain : (grain : ℚ) ≠ 0 := Nat.cast_ne_zero.2 grain_pos.ne'
  have hsize : grains (word x) = n.natAbs * grain := by
    have habs := abs_toRat h
    rw [hn, eq_div_iff hgrain, ← Int.cast_abs, Int.abs_eq_natAbs] at habs
    exact_mod_cast habs.symm
  rw [text_of_isFinite h, Decimal.ofWord_of_eq_mul (word_lt_infinity h) hsize, hn]
  have hdigits : (⟨n.natAbs, 0⟩ : Decimal).text = Nat.toDigits 10 n.natAbs := by
    simp [Decimal.text, Decimal.positional, Decimal.scale]
  rw [hdigits]
  cases n with
  | ofNat m =>
    rw [if_neg (by simp)]
    rfl
  | negSucc m =>
    rw [if_pos (by exact_mod_cast Int.negSucc_lt_zero m), String.ofList_cons]
    rfl

/-- A stack has room for an expression and its operand. -/
theorem exists_limit_eq (stack : Stack) : ∃ rest, stack.limit = rest + 2 :=
  Nat.exists_eq_add_of_le' (by have := stack.enough; omega)

/-- The value of a number literal. -/
theorem runOn_evaluate_literal (settings : Settings) (machine : Machine) (y : Float) :
    (runOn machine ((Expr.literal (.number (.real y))).evaluate settings
      settings.stack.limit)).1 = .ok (.number (.real y)) := by
  obtain ⟨rest, hlimit⟩ := exists_limit_eq settings.stack
  rw [hlimit]
  rfl

/-- The value of a negated number literal. -/
theorem runOn_evaluate_negated (settings : Settings) (machine : Machine) {op : Token}
    (hop : op.kind = .minus) (y : Float) :
    (runOn machine ((Expr.unary op (.literal (.number (.real y)))).evaluate settings
      settings.stack.limit)).1 = .ok (.number (.ofFloat (.computed machine.serial) (-y))) := by
  obtain ⟨rest, hlimit⟩ := exists_limit_eq settings.stack
  rw [hlimit]
  change (runOn machine (apply (Operator.unary · op (.number (.real y))))).1 = _
  have hresult (origin : Origin) : Operator.unary origin op (.number (.real y)) =
      .ok (.number (.ofFloat origin (-y))) := by
    rw [Operator.unary, hop]
    rfl
  simp only [hresult]
  rfl

/-- The text of a finite double, zero or at least `10 ^ -4` in size, is read without a report as a
number literal, or as one with a minus sign if the double is negative. The value of the expression
is the double, where both zeros are read as the one without a sign. A whole number is printed as
the integer it is. -/
theorem text_reads_back (x : Float) (hfinite : x.isFinite = true)
    (hrange : toRat x = 0 ∨ 1 / 10 ^ 4 ≤ |toRat x|) :
    (∃ e : Expr, e.ReadFrom (Value.number (.real x)).text ∧
      (0 ≤ toRat x → ∃ n, e = .literal (.number n)) ∧
      (toRat x < 0 → ∃ op n, op.kind = .minus ∧ e = .unary op (.literal (.number n))) ∧
      ∀ settings machine, (runOn machine (e.evaluate settings settings.stack.limit)).1 =
        .ok (.number (.real (if toRat x = 0 then 0 else x)))) ∧
    ∀ n : ℤ, toRat x = n → (Value.number (.real x)).text = toString n := by
  refine ⟨?_, fun n => text_of_toRat_eq hfinite⟩
  have hnumeral := (Decimal.ofWord (word x)).numeral_positional
  have htext : (Value.number (.real x)).text =
      String.ofList (if toRat x < 0 then '-' :: (Decimal.ofWord (word x)).positional
        else (Decimal.ofWord (word x)).positional) := by
    rw [← text_ofWord_of_range hfinite hrange, ← text_of_isFinite hfinite]
    rfl
  rw [htext]
  by_cases hnegative : toRat x < 0
  · obtain ⟨op, hop, hread⟩ := Expr.readFrom_negated hnumeral
    rw [toFloat_positional hfinite] at hread
    rw [if_pos hnegative, if_neg hnegative.ne]
    refine ⟨_, hread, fun hpos => absurd hnegative (not_lt.2 hpos), fun _ => ⟨op, _, hop, rfl⟩, ?_⟩
    intro settings machine
    have hsign := ((toRat_neg_iff hfinite).1 hnegative).1
    rw [runOn_evaluate_negated settings machine hop, neg_ofWord_word hfinite hsign, Number.ofFloat,
      isNaN_of_isFinite hfinite]
    rfl
  · have hread := Expr.readFrom_numeral hnumeral
    rw [toFloat_positional hfinite] at hread
    rw [if_neg hnegative]
    refine ⟨_, hread, fun _ => ⟨_, rfl⟩, fun hneg => absurd hneg hnegative, ?_⟩
    intro settings machine
    rw [runOn_evaluate_literal settings machine, ofWord_word_of_nonneg hfinite hnegative]

/-- The double nearest to `-0.1`. -/
def minusTenth : Float := Float.ofBits 0xBFB999999999999A

/-- A negative fraction is printed with its sign and read back as a negated literal. -/
theorem minusTenth_reads_back :
    (Value.number (.real minusTenth)).text = "-0.1" ∧
      ∃ op n, op.kind = .minus ∧
        (Expr.unary op (.literal (.number n))).ReadFrom "-0.1" ∧
        (runOn (.start .empty 0) ((Expr.unary op (.literal (.number n))).evaluate
          ⟨0, 8, .standard⟩ 996)).1 = .ok (.number (.real minusTenth)) := by
  have hfinite : minusTenth.isFinite = true := by decide +kernel
  have hnegative : toRat minusTenth < 0 := (toRat_neg_iff hfinite).2 (by decide +kernel)
  have hsize : 1 / 10 ^ 4 ≤ |toRat minusTenth| := (le_abs_toRat_iff hfinite).2 (by decide +kernel)
  have htext : (Value.number (.real minusTenth)).text = "-0.1" := by decide +kernel
  obtain ⟨⟨e, hread, -, hshape, hvalue⟩, -⟩ := text_reads_back minusTenth hfinite (.inr hsize)
  obtain ⟨op, n, hop, rfl⟩ := hshape hnegative
  rw [htext] at hread
  have hvalue := hvalue ⟨0, 8, .standard⟩ (.start .empty 0)
  rw [if_neg hnegative.ne] at hvalue
  exact ⟨htext, op, n, hop, hread, hvalue⟩

end Binary64

end Lox
