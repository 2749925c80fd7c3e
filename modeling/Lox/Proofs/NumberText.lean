import Lox.Decimal
import Mathlib

/-!
# The texts of numbers

The text of a number is as good as the number. The decimal that is chosen for a finite
double reads back as that double, whether the search for the fewest places ends with a
hit or with the exact value. The text of a decimal tells its digits and its places, in both
layouts, and the layouts are told apart by the letter of the exponent.
-/
namespace Lox

/-- A text that is read up to the first character of another sort is read in one way. -/
theorem Text.append_inj_of_stop {p : Char → Bool} {text text' rest rest' : List Char}
    (htext : ∀ c ∈ text, p c = true) (htext' : ∀ c ∈ text', p c = true)
    (hrest : ∀ c ∈ rest.head?, p c = false) (hrest' : ∀ c ∈ rest'.head?, p c = false)
    (h : text ++ rest = text' ++ rest') : text = text' ∧ rest = rest' := by
  have htake {us vs : List Char} (hus : ∀ c ∈ us, p c = true) (hvs : ∀ c ∈ vs.head?, p c = false) :
      (us ++ vs).takeWhile p = us := by
    rw [List.takeWhile_append_of_pos hus]
    cases vs with
    | nil => simp
    | cons c more => simp [hvs c rfl]
  have hsame : text = text' := by rw [← htake htext hrest, h, htake htext' hrest']
  subst hsame
  exact ⟨rfl, List.append_cancel_left h⟩

namespace Binary64

/-! ### Reading back -/

/-- The least steps between neighbours, and how many of them make up the double. -/
theorem grains_eq (word : Nat) :
    grains word = (word - exponent word * 2 ^ 52) * 2 ^ exponent word := by
  rw [grains, Nat.shiftLeft_eq, Nat.shiftLeft_eq]

theorem exponent_eq (word : Nat) : exponent word = word / 2 ^ 52 - 1 := by
  rw [exponent, Nat.shiftRight_eq_div_pow]

/-- The exponent can be read from the number of least steps. -/
theorem log2_grains (word : Nat) : (grains word).log2 - 52 = exponent word := by
  have hexponent := exponent_eq word
  rw [grains_eq]
  generalize exponent word = e at hexponent ⊢
  rcases Nat.eq_zero_or_pos e with rfl | hpos
  · -- a word below `2 ^ 53` counts least steps
    have hsmall : word < 2 ^ 53 := by omega
    rw [Nat.zero_mul, Nat.pow_zero, Nat.mul_one, Nat.sub_zero]
    rcases Nat.eq_zero_or_pos word with rfl | hword
    · rfl
    · have := (Nat.log2_lt hword.ne').2 hsmall
      omega
  · have hlow : 2 ^ 52 ≤ word - e * 2 ^ 52 := by omega
    have hhigh : word - e * 2 ^ 52 < 2 ^ 53 := by omega
    generalize word - e * 2 ^ 52 = m at hlow hhigh
    have hlog : (m * 2 ^ e).log2 = 52 + e := by
      rw [Nat.log2_eq_iff (by positivity)]
      constructor
      · rw [Nat.pow_add]
        exact Nat.mul_le_mul_right _ hlow
      · rw [show 52 + e + 1 = 53 + e by omega, Nat.pow_add]
        exact Nat.mul_lt_mul_of_pos_right hhigh (by positivity)
    omega

theorem roundEven_mul (n : Nat) {d : Nat} (h : 0 < d) : roundEven (n * d) d = n := by
  simp [roundEven, Nat.mul_mod_left, Nat.mul_div_cancel n h, h]

/-- A rounded quotient is one of the two neighbours. -/
theorem roundEven_cases (n d : Nat) : roundEven n d = n / d ∨ roundEven n d = n / d + 1 := by
  unfold roundEven
  dsimp only
  split
  · exact .inl rfl
  split
  · exact .inr rfl
  · rcases Nat.mod_two_eq_zero_or_one (n / d) with h | h <;> simp [h]

/-- A quotient that is a double is nearest to itself. -/
theorem nearest_of_exact {n d word : Nat} (hd : 0 < d) (hword : word < infinity)
    (h : n * grain = grains word * d) : nearest n d = word := by
  have hexponent := exponent_eq word
  have hquotient : n * grain / d = grains word := by rw [h, Nat.mul_div_cancel _ hd]
  unfold nearest
  dsimp only
  rw [hquotient, log2_grains, h, grains_eq, Nat.shiftLeft_eq, Nat.shiftLeft_eq, Nat.mul_assoc,
    Nat.mul_comm (2 ^ exponent word) d, roundEven_mul _ (by positivity)]
  omega

/-! ### The bits of a double -/

open Float.Model (UnpackedFloat)

theorem infinity_eq : infinity = 2047 * 2 ^ 52 := Nat.shiftLeft_eq _ _

theorem toNat_unpackExponent (bits : UInt64) :
    (@UnpackedFloat.unpackExponent .binary64 bits.toBitVec).toNat =
      bits.toNat / 2 ^ 52 % 2 ^ 11 := by
  simp [UnpackedFloat.unpackExponent, Nat.shiftRight_eq_div_pow]

theorem toNat_unpackMantissa (bits : UInt64) :
    (@UnpackedFloat.unpackMantissa .binary64 bits.toBitVec).toNat = bits.toNat % 2 ^ 52 := by
  simp [UnpackedFloat.unpackMantissa]

/-- The bits of a finite double say so. -/
theorem unpackExponent_ne {x : Float} (h : x.isFinite = true) :
    @UnpackedFloat.unpackExponent .binary64 x.toBits.toBitVec ≠ -1#11 := by
  intro hexponent
  change (UnpackedFloat.unpack .binary64 x.toBits.toBitVec).isFinite = true at h
  unfold UnpackedFloat.unpack at h
  dsimp only at h
  rw [if_pos hexponent] at h
  split at h <;> cases h

theorem word_lt_infinity {x : Float} (h : x.isFinite = true) : word x < infinity := by
  have hexponent := unpackExponent_ne h
  rw [Ne, ← BitVec.toNat_inj, toNat_unpackExponent, show (-1#11).toNat = 2047 from rfl] at hexponent
  have hbits := x.toBits.toNat_lt
  rw [word, infinity_eq, Nat.one_shiftLeft]
  omega

theorem isNaN_of_isFinite {x : Float} (h : x.isFinite = true) : x.isNaN = false := by
  change x.toModel.unpack.isFinite = true at h
  change x.toModel.unpack.isNaN = false
  cases hunpack : x.toModel.unpack with
  | notANumber =>
    rw [hunpack] at h
    cases h
  | _ => rfl

/-- Bits that are not those of a NaN are kept. -/
theorem toBits_ofWord {w : Nat} (h : w ≤ infinity) : (ofWord w).toBits.toNat = w := by
  have hinfinity := infinity_eq
  have hword : (UInt64.ofNat w).toNat = w := UInt64.toNat_ofNat_of_lt'
    (by rw [show UInt64.size = 2 ^ 64 from rfl]; omega)
  have hnumber : @UnpackedFloat.isNaNBits .binary64 (UInt64.ofNat w).toBitVec = false := by
    unfold UnpackedFloat.isNaNBits
    rw [decide_eq_false_iff_not, ← BitVec.toNat_inj, Ne, ← BitVec.toNat_inj, toNat_unpackExponent,
      toNat_unpackMantissa, hword, show (-1#11).toNat = 2047 from rfl]
    change ¬(_ ∧ ¬_ = 0)
    omega
  have hpack := @UnpackedFloat.pack_unpack .binary64 (UInt64.ofNat w).toBitVec (by decide)
  rw [hnumber, if_neg Bool.false_ne_true] at hpack
  change (UnpackedFloat.pack .binary64 (UnpackedFloat.unpack .binary64
    (UInt64.ofNat w).toBitVec)).toNat = w
  rw [hpack]
  exact hword

end Binary64

namespace Decimal

open Binary64

/-! ### The decimal of a double -/

theorem scale_pos (places : Nat) : 0 < scale places := Nat.pow_pos (by decide)

theorem shiftLeft_dvd_scale (places : Nat) : 1 <<< places ∣ scale places := by
  rw [Nat.one_shiftLeft]
  exact pow_dvd_pow_of_dvd (by decide) places

/-- With places enough the decimal is exact. -/
theorem word_exact {word places : Nat} (hword : word < infinity) (h : grain ∣ scale places) :
    (⟨grains word * scale places / grain, places⟩ : Decimal).word = word :=
  nearest_of_exact (scale_pos places) hword (Nat.div_mul_cancel (h.mul_left _))

theorem word_withPlaces? {word places : Nat} {d : Decimal}
    (h : withPlaces? word places = some d) : d.word = word := by
  unfold withPlaces? at h
  dsimp only at h
  split at h
  case isTrue hbelow =>
    split at h
    case isTrue habove =>
      cases h
      rcases roundEven_cases (grains word * scale places) grain with hround | hround
      · rw [hround]
        exact hbelow
      · rw [hround]
        exact habove
    case isFalse =>
      cases h
      exact hbelow
  case isFalse =>
    split at h
    case isTrue habove =>
      cases h
      exact habove
    case isFalse => cases h

theorem word_shortestFrom {word : Nat} (hword : word < infinity) (more : Nat) :
    ∀ places, grain ∣ scale (places + more) → (shortestFrom word places more).word = word := by
  induction more with
  | zero =>
    intro places h
    rw [shortestFrom]
    exact word_exact hword h
  | succ more ih =>
    intro places h
    rw [shortestFrom]
    cases hhit : withPlaces? word places with
    | some d => exact word_withPlaces? hhit
    | none => exact ih (places + 1) (by rwa [Nat.add_right_comm])

/-- The decimal chosen for a finite double reads back as the double. -/
theorem word_ofWord {word : Nat} (hword : word < infinity) : (ofWord word).word = word :=
  word_shortestFrom hword 1074 0 (shiftLeft_dvd_scale 1074)

/-! ### The text of a decimal -/

theorem isDigit_of_mem_digits {width n : Nat} {c : Char} (h : c ∈ digits width n) :
    c.isDigit = true := by
  rw [digits, List.leftpad, List.mem_append, List.mem_replicate] at h
  rcases h with ⟨-, rfl⟩ | h
  · rfl
  · exact Nat.isDigit_of_mem_toDigits (by decide) (by decide) h

theorem ofDigitChars_digits (width n : Nat) : Nat.ofDigitChars 10 (digits width n) 0 = n := by
  rw [digits, List.leftpad, Nat.ofDigitChars_append, Nat.ofDigitChars_replicate_zero, Nat.mul_zero,
    Nat.ofDigitChars_ten_toDigits]

theorem digits_inj {width n m : Nat} (h : digits width n = digits width m) : n = m := by
  rw [← ofDigitChars_digits width n, h, ofDigitChars_digits]

theorem length_digits {width n : Nat} (hwidth : 0 < width) (h : n < 10 ^ width) :
    (digits width n).length = width := by
  have hlength := (Nat.length_toDigits_le_iff (by decide) hwidth).2 h
  rw [digits, List.length_leftpad]
  omega

theorem toDigits_inj {n m : Nat} (h : Nat.toDigits 10 n = Nat.toDigits 10 m) : n = m := by
  rw [← Nat.ofDigitChars_ten_toDigits (n := n), h, Nat.ofDigitChars_ten_toDigits]

theorem isDigit_of_mem_toDigits {n : Nat} {c : Char} (h : c ∈ Nat.toDigits 10 n) :
    c.isDigit = true :=
  Nat.isDigit_of_mem_toDigits (by decide) (by decide) h

/-- Digits with a point read back as the decimal they were written for. -/
theorem ofChars_positional (d : Decimal) : ofChars d.positional = d := by
  obtain ⟨coefficient, places⟩ := d
  have hwhole := @isDigit_of_mem_toDigits (coefficient / scale places)
  rcases Nat.eq_zero_or_pos places with rfl | hplaces
  · have htake := List.takeWhile_eq_self_iff.2 fun _ => hwhole
    have hdrop := List.dropWhile_eq_nil_iff.2 fun _ => hwhole
    simp only [positional, ofChars, if_true, htake, hdrop]
    simp [scale, Nat.ofDigitChars_ten_toDigits]
  · have hpart := @isDigit_of_mem_digits places (coefficient % scale places)
    have hlength : (digits places (coefficient % scale places)).length = places :=
      length_digits hplaces (Nat.mod_lt _ (scale_pos places))
    simp only [positional, ofChars, if_neg hplaces.ne',
      List.takeWhile_append_of_pos fun _ => hwhole, List.dropWhile_append_of_pos fun _ => hwhole]
    simp only [show Char.isDigit '.' = false from rfl, Bool.false_eq_true, not_false_eq_true,
      List.takeWhile_cons_of_neg, List.dropWhile_cons_of_neg, List.drop_succ_cons, List.drop_zero,
      List.append_nil, List.takeWhile_eq_self_iff.2 fun _ => hpart, hlength,
      Nat.ofDigitChars_append]
    rw [Nat.ofDigitChars_eq_ofDigitChars_zero, ofDigitChars_digits, hlength,
      Nat.ofDigitChars_ten_toDigits]
    exact congrArg (mk · places) (Nat.div_add_mod _ _)

/-- The digits before an exponent, with a point behind the first one of several. -/
def mantissa (lead : Char) (others : List Char) : List Char :=
  if others.isEmpty then [lead] else lead :: '.' :: others

theorem mantissa_inj {lead lead' : Char} {others others' : List Char}
    (h : mantissa lead others = mantissa lead' others') : lead = lead' ∧ others = others' := by
  cases others <;> cases others' <;> simp_all [mantissa]

theorem mem_mantissa {lead : Char} {others : List Char} {c : Char} (h : c ∈ mantissa lead others) :
    c = '.' ∨ c ∈ lead :: others := by
  cases others with
  | nil => exact .inr h
  | cons d others =>
    change c ∈ lead :: '.' :: d :: others at h
    simp only [List.mem_cons] at h ⊢
    tauto

theorem scientific_eq (d : Decimal) : ∃ lead others,
    Nat.toDigits 10 d.coefficient = lead :: others ∧
      d.scientific = mantissa lead others ++ 'e' :: '-' :: digits 2 (d.places - others.length) := by
  unfold scientific
  cases hdigits : Nat.toDigits 10 d.coefficient with
  | nil => exact absurd hdigits Nat.toDigits_ne_nil
  | cons lead others => exact ⟨lead, others, rfl, rfl⟩

/-- The characters of numbers. -/
def isTextChar (c : Char) : Bool := c.isDigit || c == '.' || c == 'e' || c == '-'

theorem mem_positional {d : Decimal} {c : Char} (h : c ∈ d.positional) :
    c.isDigit = true ∨ c = '.' := by
  unfold positional at h
  dsimp only at h
  split at h
  · exact .inl (isDigit_of_mem_toDigits h)
  · rcases List.mem_append.1 h with h | h
    · exact .inl (isDigit_of_mem_toDigits h)
    · rcases List.mem_cons.1 h with h | h
      · exact .inr h
      · exact .inl (isDigit_of_mem_digits h)

theorem scientific_inj {d d' : Decimal} (hd : (Nat.toDigits 10 d.coefficient).length ≤ d.places)
    (hd' : (Nat.toDigits 10 d'.coefficient).length ≤ d'.places)
    (h : d.scientific = d'.scientific) : d = d' := by
  obtain ⟨lead, others, hdigits, htext⟩ := d.scientific_eq
  obtain ⟨lead', others', hdigits', htext'⟩ := d'.scientific_eq
  rw [htext, htext'] at h
  have hplain {n : Nat} {lead : Char} {others : List Char}
      (hdigits : Nat.toDigits 10 n = lead :: others) :
      ∀ c ∈ mantissa lead others, (c != 'e') = true := by
    intro c hc
    rcases mem_mantissa hc with rfl | hc
    · rfl
    · have := isDigit_of_mem_toDigits (hdigits ▸ hc)
      rw [bne_iff_ne]
      rintro rfl
      cases this
  obtain ⟨hmantissa, hrest⟩ := Text.append_inj_of_stop (hplain hdigits) (hplain hdigits')
    (by simp) (by simp) h
  obtain ⟨rfl, rfl⟩ := mantissa_inj hmantissa
  have hcoefficient := toDigits_inj (hdigits.trans hdigits'.symm)
  have hexponent : d.places - others.length = d'.places - others.length := by
    simp only [List.cons.injEq, true_and] at hrest
    exact digits_inj hrest
  rw [hdigits, List.length_cons] at hd
  rw [hdigits', List.length_cons] at hd'
  obtain ⟨coefficient, places⟩ := d
  obtain ⟨coefficient', places'⟩ := d'
  simp only [mk.injEq]
  exact ⟨hcoefficient, by dsimp only at *; omega⟩

/-- The text of a decimal tells the decimal. -/
theorem text_inj {d d' : Decimal} (h : d.text = d'.text) : d = d' := by
  have hmixed {d d' : Decimal} (h : d.positional = d'.scientific) : False := by
    obtain ⟨lead, others, -, htext⟩ := d'.scientific_eq
    have hmem : 'e' ∈ d.positional := by rw [h, htext]; simp
    rcases mem_positional hmem with h | h <;> cases h
  unfold text at h
  split at h <;> split at h
  · rw [← d.ofChars_positional, h, d'.ofChars_positional]
  · exact (hmixed h).elim
  · exact (hmixed h.symm).elim
  · exact scientific_inj (by omega) (by omega) h

theorem positional_head (d : Decimal) : ∃ c ∈ d.positional.head?, c.isDigit = true := by
  cases hwhole : Nat.toDigits 10 (d.coefficient / scale d.places) with
  | nil => exact absurd hwhole Nat.toDigits_ne_nil
  | cons c more =>
    refine ⟨c, ?_, isDigit_of_mem_toDigits (hwhole ▸ List.mem_cons_self)⟩
    unfold positional
    dsimp only
    rw [hwhole]
    split <;> rfl

theorem scientific_head (d : Decimal) : ∃ c ∈ d.scientific.head?, c.isDigit = true := by
  obtain ⟨lead, others, hdigits, htext⟩ := d.scientific_eq
  refine ⟨lead, ?_, isDigit_of_mem_toDigits (hdigits ▸ List.mem_cons_self)⟩
  rw [htext]
  cases others <;> rfl

/-- A text starts with a digit. -/
theorem text_head (d : Decimal) : ∃ c ∈ d.text.head?, c.isDigit = true := by
  unfold text
  split
  · exact d.positional_head
  · exact d.scientific_head

theorem isTextChar_of_mem_text {d : Decimal} {c : Char} (h : c ∈ d.text) : isTextChar c = true := by
  have hdigit {c : Char} (h : c.isDigit = true) : isTextChar c = true := by simp [isTextChar, h]
  unfold text at h
  split at h
  · rcases mem_positional h with h | rfl
    · exact hdigit h
    · rfl
  · obtain ⟨lead, others, hdigits, htext⟩ := d.scientific_eq
    rw [htext, List.mem_append, List.mem_cons, List.mem_cons] at h
    rcases h with h | rfl | rfl | h
    · rcases mem_mantissa h with rfl | h
      · rfl
      · exact hdigit (isDigit_of_mem_toDigits (hdigits ▸ h))
    · rfl
    · rfl
    · exact hdigit (isDigit_of_mem_digits h)

end Decimal

/-! ### The text of a double -/

namespace Binary64

/-- A finite double without a sign. -/
structure Magnitude (x : Float) : Prop where
  finite : x.isFinite = true
  unsigned : isNegative x = false

variable {x y : Float}

theorem Magnitude.text_eq (h : Magnitude x) :
    text x = String.ofList (Decimal.ofWord (word x)).text := by
  have hinfinity := (word_lt_infinity h.finite).ne
  unfold text
  rw [isNaN_of_isFinite h.finite, if_neg Bool.false_ne_true]
  dsimp only
  rw [if_neg hinfinity, h.unsigned, Bool.false_and, if_neg Bool.false_ne_true]

theorem Magnitude.toNat_toBits (h : Magnitude x) : x.toBits.toNat = word x := by
  have hsign := h.unsigned
  rw [isNegative, decide_eq_false_iff_not, Nat.not_le] at hsign
  rw [word, Nat.mod_eq_of_lt hsign]

/-- The text of a number tells the number. -/
theorem Magnitude.text_inj (hx : Magnitude x) (hy : Magnitude y) (h : text x = text y) : x = y := by
  rw [hx.text_eq, hy.text_eq, String.ofList_inj] at h
  have hword : word x = word y := by
    rw [← Decimal.word_ofWord (word_lt_infinity hx.finite), Decimal.text_inj h,
      Decimal.word_ofWord (word_lt_infinity hy.finite)]
  rw [← hx.toNat_toBits, ← hy.toNat_toBits, UInt64.toNat_inj] at hword
  exact Float.toBits_inj.1 hword

/-- A number is read without a sign. -/
theorem isNegative_toFloat (text : String) : isNegative (Decimal.toFloat text) = false := by
  have hword : (Decimal.ofChars text.toList).word ≤ infinity := Nat.min_le_right _ _
  have hbits := toBits_ofWord hword
  have hinfinity := infinity_eq
  rw [isNegative, decide_eq_false_iff_not, Nat.one_shiftLeft]
  rw [← Decimal.toFloat] at hbits
  omega

end Binary64

end Lox
