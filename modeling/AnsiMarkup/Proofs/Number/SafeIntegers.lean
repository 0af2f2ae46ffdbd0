import AnsiMarkup.Number.Shortest
import Mathlib.Data.Rat.Floor

namespace AnsiMarkup

namespace Text

theorem ofChar_digit (c : Char) (digit : c.isDigit = true) :
    ∃ u : CodeUnit, ofChar c = [u] ∧ u.isDigit = true ∧ u.toNat = c.toNat := by
  have range : 48 ≤ c.toNat ∧ c.toNat ≤ 57 := by
    simpa [Char.isDigit, UInt32.le_iff_toNat_le] using digit
  have small : c.toNat.toUInt16.toNat = c.toNat := by
    simp only [Nat.toUInt16, UInt16.toNat_ofNat']
    omega
  refine ⟨c.toNat.toUInt16, ?_, ?_, small⟩
  · rw [ofChar, ofCodePoint, if_pos (by omega)]
  · simp only [CodeUnit.isDigit, Bool.and_eq_true, decide_eq_true_eq, UInt16.le_iff_toNat_le, small]
    exact range

theorem foldl_digits (digits : List Char) (all : ∀ c ∈ digits, c.isDigit = true) (n : Nat) :
    (digits.flatMap ofChar).foldl (fun n u => n * 10 + (u.toNat - 48)) n =
      Nat.ofDigitChars 10 digits n := by
  induction digits generalizing n with
  | nil => rfl
  | cons c digits ih =>
    obtain ⟨first, rest⟩ := List.forall_mem_cons.mp all
    obtain ⟨u, written, -, value⟩ := ofChar_digit c first
    rw [List.flatMap_cons, written, List.singleton_append, List.foldl_cons, ih rest,
      Nat.ofDigitChars_cons, value, Nat.mul_comm]
    rfl

theorem digitsValue_ofNat (n : Nat) : digitsValue (ofNat n) = n := by
  have digits : ∀ c ∈ Nat.toDigits 10 n, c.isDigit = true := by
    intro c member
    exact Nat.isDigit_of_mem_toDigits (by decide) (by decide) member
  rw [digitsValue, ofNat, foldl_digits _ digits, Nat.ofDigitChars_ten_toDigits]

theorem isDigit_ofNat (n : Nat) : ∀ u ∈ ofNat n, u.isDigit = true := by
  intro u member
  obtain ⟨c, inDigits, inUnits⟩ := List.mem_flatMap.mp member
  obtain ⟨v, written, digit, -⟩ := ofChar_digit c
    (Nat.isDigit_of_mem_toDigits (by decide) (by decide) inDigits)
  rw [written, List.mem_singleton] at inUnits
  rw [inUnits]
  exact digit

theorem not_mem_ofNat (n : Nat) (u : CodeUnit) (other : u.isDigit = false) : u ∉ ofNat n := by
  intro member
  rw [isDigit_ofNat n u member] at other
  cases other

theorem ofNat_ne_nil (n : Nat) : ofNat n ≠ [] := by
  intro blank
  cases digits : Nat.toDigits 10 n with
  | nil => exact Nat.toDigits_ne_nil digits
  | cons c rest =>
    have digit : c.isDigit = true :=
      Nat.isDigit_of_mem_toDigits (b := 10) (n := n) (by decide) (by decide) (by simp [digits])
    obtain ⟨u, written, -, -⟩ := ofChar_digit c digit
    rw [ofNat, digits, List.flatMap_cons, written] at blank
    cases blank

theorem ofNat_injective : Function.Injective ofNat := Function.LeftInverse.injective digitsValue_ofNat

theorem ofNat_of_ten_le (n : Nat) (large : 10 ≤ n) : ofNat n = ofNat (n / 10) ++ ofNat (n % 10) := by
  have last : Nat.toDigits 10 (n % 10) = [(n % 10).digitChar] :=
    Nat.toDigits_of_lt_base (Nat.mod_lt n (by decide))
  rw [ofNat, Nat.toDigits_of_base_le (by decide) large, List.flatMap_append, ← last]
  rfl

theorem head?_ofNat_of_ten_le (n : Nat) (large : 10 ≤ n) : (ofNat n).head? = (ofNat (n / 10)).head? := by
  rw [ofNat_of_ten_le n large, List.head?_append_of_ne_nil _ (ofNat_ne_nil (n / 10))]

end Text

namespace Number

theorem power_eq (base : Nat) (e : Int) : power base e = (base : ℚ) ^ e := by
  cases e with
  | ofNat n => simp [power]
  | negSucc n => simp [power, zpow_negSucc, Rat.mkRat_eq_div]

theorem power_two (e : Int) : power 2 e = (2 : ℚ) ^ e := power_eq 2 e

theorem roundHalfEven_intCast (i : Int) : roundHalfEven (i : ℚ) = i := by
  have half : (0 : ℚ) < mkRat 1 2 := by norm_num [Rat.mkRat_eq_div]
  rw [roundHalfEven, Rat.floor_intCast, sub_self]
  exact if_pos half

theorem floor_le_roundHalfEven (q : ℚ) : q.floor ≤ roundHalfEven q := by
  simp only [roundHalfEven]
  split
  · exact le_rfl
  · split
    · omega
    · have parity := Int.emod_nonneg q.floor (b := 2) (by decide)
      omega

theorem log2_le (q : ℚ) : log2 q ≤ (q.num.toNat.log2 : Int) - (q.den.log2 : Int) := by
  simp only [log2]
  split <;> omega

theorem ofMagnitude_natCast (n : Nat) (small : n < safeLimit) :
    ofMagnitude (n : ℚ) = .finite n := by
  rw [ofMagnitude]
  by_cases zero : n = 0
  · subst zero
    rfl
  · have positive : ¬ (n : ℚ) ≤ 0 := by
      rw [not_le]
      exact_mod_cast Nat.pos_of_ne_zero zero
    have bits : n.log2 < 53 := (Nat.log2_lt zero).mpr small
    have exponent : ∃ k : Nat, max (-1074) (log2 (n : ℚ) - 52) = -(k : Int) := by
      have bound := log2_le (n : ℚ)
      rw [Rat.num_natCast, Rat.den_natCast, Int.toNat_natCast] at bound
      have one : Nat.log2 1 = 0 := rfl
      exact ⟨(-(max (-1074) (log2 (n : ℚ) - 52))).toNat, by omega⟩
    obtain ⟨k, exponent⟩ := exponent
    have scaled : (n : ℚ) / power 2 (-(k : Int)) = ((n * 2 ^ k : Nat) : Int) := by
      rw [power_two, zpow_neg, zpow_natCast, div_inv_eq_mul]
      push_cast
      rfl
    have restored : ((n * 2 ^ k : Nat) : Int) * power 2 (-(k : Int)) = (n : ℚ) := by
      rw [power_two, zpow_neg, zpow_natCast]
      push_cast
      field_simp
    have bounded : (n : ℚ) < power 2 1024 := by
      rw [power_two]
      have fits : (n : ℚ) < (2 : ℚ) ^ (53 : Int) := by exact_mod_cast small
      exact fits.trans_le (zpow_le_zpow_right₀ (by norm_num) (by norm_num))
    rw [if_neg positive]
    simp only [exponent, scaled, roundHalfEven_intCast, restored, if_pos bounded]

theorem ofIntegerText_digits (digits : Text) (plain : ∀ u ∈ digits, u.isDigit = true) :
    ofIntegerText digits = ofSigned false (Text.digitsValue digits) := by
  rw [ofIntegerText]
  rintro rest rfl
  exact absurd (plain 45 List.mem_cons_self) (by decide)

theorem ofIntegerText_ofInt (i : Int) (small : i.natAbs < safeLimit) :
    ofIntegerText (Text.ofInt i) = .finite i := by
  cases i with
  | ofNat n =>
    rw [Text.ofInt, ofIntegerText_digits _ (Text.isDigit_ofNat n), Text.digitsValue_ofNat]
    exact ofMagnitude_natCast n small
  | negSucc n =>
    have negative : ofIntegerText (Text.ofInt (.negSucc n)) =
        (ofMagnitude ((n + 1 : Nat) : ℚ)).neg := by
      rw [← Text.digitsValue_ofNat (n + 1)]
      rfl
    have nonzero : ((n + 1 : Nat) : ℚ) ≠ 0 := by exact_mod_cast Nat.succ_ne_zero n
    rw [negative, ofMagnitude_natCast (n + 1) small, neg]
    simp only [if_neg nonzero]
    push_cast
    rfl

theorem toText_intCast (i : Int) (small : i.natAbs < safeLimit) :
    toText (.finite i) = Text.ofInt i := by
  have safe : toSafeInt? (.finite i) = some i := by
    simp [toSafeInt?, toInt?, toRat?, small]
  rw [toText, safe]

theorem toText_ofNat (n : Nat) (small : n < safeLimit) : toText (ofNat n) = Text.ofNat n := by
  have written := toText_intCast (n : Int) small
  rwa [Int.cast_natCast] at written

end Number

end AnsiMarkup
