import AnsiMarkup.FlagTable
import Mathlib.Data.Nat.Bitwise

namespace AnsiMarkup

namespace Combination

def unions (styles : List Combination) : Combination := styles.foldl union 0

theorem unions_append (front back : List Combination) :
    unions (front ++ back) = back.foldl union (unions front) :=
  List.foldl_append

theorem holds_foldl_union (styles : List Combination) (c : Combination) (place : Nat) :
    holds (styles.foldl union c) place = (c.holds place || styles.any (holds · place)) := by
  induction styles generalizing c with
  | nil => simp
  | cons style styles ih =>
    rw [List.foldl_cons, ih, holds_union, List.any_cons, Bool.or_assoc]

theorem holds_unions (styles : List Combination) (place : Nat) :
    (unions styles).holds place = styles.any (holds · place) := by
  have none : holds 0 place = false := Nat.zero_testBit place
  rw [unions, holds_foldl_union, none, Bool.false_or]

theorem union_nonneg (a b : Combination) (first : 0 ≤ a) (second : 0 ≤ b) : 0 ≤ a.union b := by
  cases a with
  | negSucc m => exact absurd first (by simp)
  | ofNat m =>
    cases b with
    | negSucc n => exact absurd second (by simp)
    | ofNat n => exact Int.natCast_nonneg _

theorem unions_nonneg (styles : List Combination) (all : ∀ style ∈ styles, 0 ≤ style) :
    0 ≤ unions styles := by
  have kept (c : Combination) (first : 0 ≤ c) : 0 ≤ styles.foldl union c := by
    induction styles generalizing c with
    | nil => exact first
    | cons style styles ih =>
      obtain ⟨here, later⟩ := List.forall_mem_cons.mp all
      exact ih later _ (union_nonneg c style first here)
  exact kept 0 (Int.le_refl 0)

theorem bit_nonneg (place : Nat) : 0 ≤ bit place := Int.natCast_nonneg _

section

variable {a b c : Combination}

theorem eq_of_holds (first : 0 ≤ a) (second : 0 ≤ b) (same : ∀ place, a.holds place = b.holds place) :
    a = b := by
  obtain ⟨m, rfl⟩ := Int.eq_ofNat_of_zero_le first
  obtain ⟨n, rfl⟩ := Int.eq_ofNat_of_zero_le second
  exact congrArg Int.ofNat (Nat.eq_of_testBit_eq same)

theorem lt_bit_iff (natural : 0 ≤ c) (n : Nat) :
    c < bit n ↔ ∀ place, n ≤ place → c.holds place = false := by
  obtain ⟨m, rfl⟩ := Int.eq_ofNat_of_zero_le natural
  have power : bit n = ((2 ^ n : Nat) : Int) := congrArg Int.ofNat (Nat.one_shiftLeft n)
  rw [power, Int.ofNat_lt]
  constructor
  · intro below place beyond
    exact Nat.testBit_lt_two_pow (lt_of_lt_of_le below (Nat.pow_le_pow_right (by decide) beyond))
  · intro outside
    exact Nat.lt_pow_two_of_testBit m outside

theorem one_le_iff (natural : 0 ≤ c) : 1 ≤ c ↔ ∃ place, c.holds place = true := by
  obtain ⟨m, rfl⟩ := Int.eq_ofNat_of_zero_le natural
  calc
    (1 : Int) ≤ (m : Int) ↔ 0 < m := Int.ofNat_le (m := 1)
    _ ↔ ∃ place, m.testBit place = true := by
      constructor
      · intro positive
        exact Nat.exists_testBit_of_ne_zero positive.ne'
      · rintro ⟨place, held⟩
        apply Nat.pos_of_ne_zero
        rintro rfl
        rw [Nat.zero_testBit] at held
        cases held

end

theorem bit_eq (place : Nat) : bit place = 2 ^ place := by
  calc
    bit place = ((2 ^ place : Nat) : Int) := congrArg Int.ofNat (Nat.one_shiftLeft place)
    _ = 2 ^ place := Int.natCast_pow 2 place

theorem holds_iff (c : Int) (place : Nat) : holds c place = true ↔ c / 2 ^ place % 2 = 1 := by
  cases c with
  | ofNat n =>
    have quotient : Int.ofNat n / 2 ^ place = ((n / 2 ^ place : Nat) : Int) := by
      push_cast
      rfl
    rw [holds, quotient, Nat.testBit_eq_decide_div_mod_eq, decide_eq_true_iff]
    generalize n / 2 ^ place = q
    omega
  | negSucc n =>
    have quotient : Int.negSucc n / 2 ^ place = -(((n / 2 ^ place : Nat) : Int) + 1) := by
      rw [Int.negSucc_ediv n (Int.pow_pos (by decide))]
      push_cast
      rfl
    rw [holds, quotient, Nat.testBit_eq_decide_div_mod_eq, Bool.not_eq_true', decide_eq_false_iff_not]
    generalize n / 2 ^ place = q
    omega

theorem holds_emod (c : Int) (n place : Nat) (inside : place < n) :
    holds (c % 2 ^ n) place = holds c place := by
  have power : (2 : Int) ^ n = 2 ^ place * (2 * 2 ^ (n - place - 1)) := by
    rw [← pow_succ', ← pow_add]
    congr 1
    omega
  have positive : (0 : Int) < 2 ^ place := Int.pow_pos (by decide)
  have quotient : (c % 2 ^ n) / 2 ^ place = c / 2 ^ place - 2 * (2 ^ (n - place - 1) * (c / 2 ^ n)) := by
    calc
      (c % 2 ^ n) / 2 ^ place
        = (c - 2 ^ place * (2 * (2 ^ (n - place - 1) * (c / 2 ^ n)))) / 2 ^ place := by
          rw [Int.emod_def, ← mul_assoc 2, ← mul_assoc (2 ^ place), ← power]
      _ = c / 2 ^ place - 2 * (2 ^ (n - place - 1) * (c / 2 ^ n)) :=
          Int.sub_mul_ediv_left c _ (Int.ne_of_gt positive)
  rw [Bool.eq_iff_iff, holds_iff, holds_iff, quotient]
  generalize 2 ^ (n - place - 1) * (c / 2 ^ n) = k
  generalize c / 2 ^ place = q
  omega

end Combination

end AnsiMarkup
