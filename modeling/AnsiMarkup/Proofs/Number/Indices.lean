import AnsiMarkup.Proofs.Number.SafeIntegers
import Mathlib.Data.Nat.Digits.Defs

/-! Integers of any size as indices. An integer from 2^53 on is rounded, but never below 2^53, so that
it is read as no index below that. -/

namespace AnsiMarkup

namespace Text

def naturalValue (text : Text) : Nat := Nat.ofDigits 10 (text.reverse.map fun u => u.toNat - 48)

def integerValue : Text → Int
  | 45 :: digits => -(naturalValue digits : Int)
  | digits => naturalValue digits

theorem digitsValue_eq_naturalValue (text : Text) : digitsValue text = naturalValue text := by
  rw [digitsValue, naturalValue, Nat.ofDigits_eq_foldr, List.foldr_map, List.foldr_reverse]
  simp only [Nat.cast_id, Nat.add_comm, Nat.mul_comm]

end Text

namespace Number

theorem toIndex?_eq_some_iff (number : Number) (i : Nat) :
    number.toIndex? = some i ↔ number.toInt? = some (i : Int) := by
  rw [toIndex?]
  cases number.toInt? with
  | none => simp
  | some value =>
    cases value with
    | ofNat n =>
      change some n = some i ↔ some (n : Int) = some (i : Int)
      rw [Option.some_inj, Option.some_inj, Int.ofNat_inj]
    | negSucc n => simp

theorem toInt?_finite (q : ℚ) (i : Int) : toInt? (.finite q) = some i ↔ q = i := by
  simp only [toInt?, toRat?]
  constructor
  · intro found
    split at found
    · next whole =>
      rw [Option.some_inj] at found
      rw [← found]
      exact (Rat.den_eq_one_iff q).mp whole |>.symm
    · cases found
  · rintro rfl
    simp

theorem log2_natCast (n : Nat) (positive : n ≠ 0) : log2 (n : ℚ) = n.log2 := by
  have one : Nat.log2 1 = 0 := rfl
  have below : power 2 (n.log2 : Int) ≤ n := by
    rw [power_two, zpow_natCast]
    exact_mod_cast Nat.log2_self_le positive
  simp only [log2, Rat.num_natCast, Rat.den_natCast, Int.toNat_natCast, one, Nat.cast_zero, sub_zero,
    if_pos below]

/-- Rounding does not cross the power of two from which on integers are rounded. -/
theorem safeLimit_le_ofMagnitude (n : Nat) (large : safeLimit ≤ n) :
    ofMagnitude (n : ℚ) = .posInfinity ∨
      ∃ q : ℚ, ofMagnitude (n : ℚ) = .finite q ∧ (safeLimit : ℚ) ≤ q := by
  have nonzero : n ≠ 0 := by
    rintro rfl
    cases large
  have positive : ¬ (n : ℚ) ≤ 0 := by
    rw [not_le]
    exact_mod_cast Nat.pos_of_ne_zero nonzero
  have bits : 53 ≤ n.log2 := (Nat.le_log2 nonzero).mpr large
  obtain ⟨k, exponent⟩ : ∃ k, n.log2 = k + 52 := ⟨n.log2 - 52, by omega⟩
  have scale : max (-1074) (log2 (n : ℚ) - 52) = (k : Int) := by
    rw [log2_natCast n nonzero]
    omega
  have unit : (0 : ℚ) < power 2 k := by
    rw [power_two]
    exact zpow_pos (by norm_num) _
  -- The quotient has 53 bits before it is rounded, so it cannot fall below the least of that size.
  have whole : (2 ^ 52 : Int) ≤ roundHalfEven (n / power 2 k) := by
    refine le_trans (Rat.le_floor_iff.mpr ?_) (floor_le_roundHalfEven _)
    rw [le_div_iff₀ unit, power_two, zpow_natCast]
    have least := Nat.log2_self_le nonzero
    rw [exponent, Nat.add_comm, pow_add] at least
    exact_mod_cast least
  have bound : (safeLimit : ℚ) ≤ roundHalfEven (n / power 2 k) * power 2 k := by
    calc
      (safeLimit : ℚ) = 2 ^ 52 * 2 ^ 1 := by norm_num [safeLimit]
      _ ≤ 2 ^ 52 * 2 ^ k :=
        mul_le_mul_of_nonneg_left (pow_le_pow_right₀ one_le_two (by omega)) (by positivity)
      _ = 2 ^ 52 * power 2 k := by rw [power_two, zpow_natCast]
      _ ≤ roundHalfEven (n / power 2 k) * power 2 k :=
        mul_le_mul_of_nonneg_right (by exact_mod_cast whole) unit.le
  rw [ofMagnitude, if_neg positive]
  simp only [scale]
  split
  · exact .inr ⟨_, rfl, bound⟩
  · exact .inl rfl

theorem toInt?_ofMagnitude (n k : Nat) (small : k < safeLimit) :
    toInt? (ofMagnitude (n : ℚ)) = some (k : Int) ↔ n = k := by
  rcases Nat.lt_or_ge n safeLimit with exact_value | large
  · rw [ofMagnitude_natCast n exact_value, toInt?_finite]
    exact_mod_cast Iff.rfl
  · have apart : n ≠ k := fun same => Nat.not_lt.mpr large (same ▸ small)
    rcases safeLimit_le_ofMagnitude n large with infinite | ⟨q, rounded, bound⟩
    · rw [infinite]
      simp [toInt?, toRat?, apart]
    · rw [rounded, toInt?_finite]
      refine iff_of_false ?_ apart
      rintro rfl
      exact Nat.not_lt.mpr (by exact_mod_cast bound) small

theorem toInt?_neg_ofMagnitude (n k : Nat) :
    toInt? (ofMagnitude (n : ℚ)).neg = some (k : Int) ↔ -(n : Int) = k := by
  have below (q : ℚ) (positive : 0 < q) : toInt? (neg (.finite q)) ≠ some (k : Int) := by
    rw [neg, if_neg positive.ne', ne_eq, toInt?_finite]
    rintro same
    have natural : (0 : ℚ) ≤ ((k : Int) : ℚ) := by exact_mod_cast Nat.zero_le k
    linarith
  by_cases zero : n = 0
  · subst zero
    have rounded : ofMagnitude ((0 : Nat) : ℚ) = .finite 0 := rfl
    rw [rounded]
    simp [neg, toInt?, toRat?]
  · have apart : -(n : Int) ≠ k := by omega
    refine iff_of_false ?_ apart
    rcases Nat.lt_or_ge n safeLimit with exact_value | large
    · rw [ofMagnitude_natCast n exact_value]
      exact below n (by exact_mod_cast Nat.pos_of_ne_zero zero)
    · rcases safeLimit_le_ofMagnitude n large with infinite | ⟨q, rounded, bound⟩
      · rw [infinite]
        simp [neg, toInt?, toRat?]
      · rw [rounded]
        refine below q (lt_of_lt_of_le ?_ bound)
        norm_num [safeLimit]

theorem ofIntegerText_cases (text : Text) :
    ∃ n : Nat,
      (text.integerValue = -(n : Int) ∧ ofIntegerText text = (ofMagnitude (n : ℚ)).neg) ∨
        (text.integerValue = n ∧ ofIntegerText text = ofMagnitude (n : ℚ)) := by
  by_cases minus : ∃ digits, text = 45 :: digits
  · obtain ⟨digits, rfl⟩ := minus
    refine ⟨Text.digitsValue digits, .inl ⟨?_, rfl⟩⟩
    rw [Text.integerValue, Text.digitsValue_eq_naturalValue]
  · have plain : ∀ digits, text = 45 :: digits → False := fun digits same => minus ⟨digits, same⟩
    refine ⟨Text.digitsValue text, .inr ⟨?_, ?_⟩⟩
    · rw [Text.integerValue, Text.digitsValue_eq_naturalValue]
      exact plain
    · rw [ofIntegerText]
      · rfl
      · exact plain

/-- The number read for an integer is an index below 2^53 only if the integer is that index. -/
theorem toIndex?_ofIntegerText (text : Text) (k : Nat) (small : k < safeLimit) :
    (ofIntegerText text).toIndex? = some k ↔ text.integerValue = k := by
  rw [toIndex?_eq_some_iff]
  obtain ⟨n, ⟨value, read⟩ | ⟨value, read⟩⟩ := ofIntegerText_cases text
  · rw [value, read]
    exact toInt?_neg_ofMagnitude n k
  · rw [value, read, Int.ofNat_inj]
    exact toInt?_ofMagnitude n k small

theorem toInt?_neg_finite (n : Nat) : toInt? (neg (.finite (n : ℚ))) = some (-(n : Int)) := by
  by_cases zero : n = 0
  · subst zero
    rfl
  · rw [neg, if_neg (by exact_mod_cast zero), toInt?_finite]
    push_cast
    rfl

theorem toInt?_ofIntegerText (text : Text) (small : text.integerValue.natAbs < safeLimit) :
    (ofIntegerText text).toInt? = some text.integerValue := by
  obtain ⟨n, ⟨value, read⟩ | ⟨value, read⟩⟩ := ofIntegerText_cases text
  · rw [value, Int.natAbs_neg, Int.natAbs_natCast] at small
    rw [value, read, ofMagnitude_natCast n small, toInt?_neg_finite]
  · rw [value, Int.natAbs_natCast] at small
    rw [value, read]
    exact (toInt?_ofMagnitude n n small).mpr rfl

end Number

end AnsiMarkup
