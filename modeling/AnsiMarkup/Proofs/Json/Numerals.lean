import AnsiMarkup.Json.Writing
import AnsiMarkup.Json.Token
import AnsiMarkup.Proofs.Number.SafeIntegers
import Mathlib.Data.List.DropRight

namespace AnsiMarkup

namespace Text

theorem head?_ofNat (n : Nat) (positive : n ≠ 0) : (ofNat n).head? ≠ some 48 := by
  induction n using Nat.strongRecOn with
  | ind n ih =>
    by_cases small : n < 10
    · have digit : ∀ d < 10, d ≠ 0 → (ofNat d).head? ≠ some 48 := by decide
      exact digit n small positive
    · rw [head?_ofNat_of_ten_le n (Nat.not_lt.mp small)]
      exact ih (n / 10) (by omega) (by omega)

end Text

namespace Number

theorem power_ten (e : Int) : power 10 e = (10 : ℚ) ^ e := power_eq 10 e

theorem length_toDigits_bounds (n : Nat) (positive : 0 < n) :
    10 ^ ((Nat.toDigits 10 n).length - 1) ≤ n ∧ n < 10 ^ (Nat.toDigits 10 n).length := by
  have present : 0 < (Nat.toDigits 10 n).length := Nat.length_toDigits_pos
  refine ⟨?_, (Nat.length_toDigits_le_iff (by decide) present).mp le_rfl⟩
  by_cases one : (Nat.toDigits 10 n).length = 1
  · rw [one]
    exact positive
  · refine Nat.le_of_not_lt fun smaller => ?_
    have fewer := (Nat.length_toDigits_le_iff (by decide) (by omega)).mpr smaller
    omega

theorem power_decimalPoint_le (q : ℚ) (positive : 0 < q) : power 10 (decimalPoint q - 1) ≤ q := by
  let e : Int := (Nat.toDigits 10 q.num.toNat).length - (Nat.toDigits 10 q.den).length
  have point : decimalPoint q = if power 10 e ≤ q then e + 1 else e := rfl
  rw [point]
  split
  · next fits => rwa [add_sub_cancel_right]
  · have num : 0 < q.num := Rat.num_pos.mpr positive
    obtain ⟨least, -⟩ := length_toDigits_bounds q.num.toNat (by omega)
    obtain ⟨-, most⟩ := length_toDigits_bounds q.den q.den_pos
    have present : 0 < (Nat.toDigits 10 q.num.toNat).length := Nat.length_toDigits_pos
    have least : (10 : ℚ) ^ ((Nat.toDigits 10 q.num.toNat).length - 1) ≤ q.num := by
      exact_mod_cast (Int.ofNat_le.mpr least).trans_eq (Int.toNat_of_nonneg num.le)
    have most : (q.den : ℚ) ≤ 10 ^ (Nat.toDigits 10 q.den).length := by exact_mod_cast most.le
    have exponent : e - 1 = (((Nat.toDigits 10 q.num.toNat).length - 1 : Nat) : Int) -
        (Nat.toDigits 10 q.den).length := by omega
    have den : (0 : ℚ) < q.den := by exact_mod_cast q.den_pos
    calc
      power 10 (e - 1)
        = 10 ^ ((Nat.toDigits 10 q.num.toNat).length - 1) / 10 ^ (Nat.toDigits 10 q.den).length := by
          rw [power_ten, exponent, zpow_sub₀ (by norm_num), zpow_natCast, zpow_natCast]
      _ ≤ q.num / q.den := div_le_div₀ (least.trans' (by positivity)) least den most
      _ = q := Rat.num_div_den q

theorem shortestDecimal_ne_zero (q : ℚ) (positive : 0 < q) : (shortestDecimal q).1 ≠ 0 := by
  rw [shortestDecimal]
  cases found : (List.range 17).findSome? fun k => decimalOf? q (decimalPoint q) (k + 1) with
  | some decimal =>
    obtain ⟨k, -, found⟩ := List.exists_of_findSome?_eq_some found
    obtain ⟨digits, -, reads⟩ := List.exists_of_findSome?_eq_some found
    split at reads
    · next same =>
      cases reads
      rintro (rfl : digits = 0)
      rw [Nat.cast_zero, zero_mul] at same
      cases same
      exact lt_irrefl _ positive
    · cases reads
  | none =>
    -- The seventeen digits that are left are those of a quotient that is at least one.
    have positive_power : (0 : ℚ) < power 10 (decimalPoint q - 17) := by
      rw [power_ten]
      exact zpow_pos (by norm_num) _
    have smaller : power 10 (decimalPoint q - 17) ≤ power 10 (decimalPoint q - 1) := by
      rw [power_ten, power_ten]
      exact zpow_le_zpow_right₀ (by norm_num) (by omega)
    have one : (1 : ℚ) ≤ q / power 10 (decimalPoint q - 17) :=
      (one_le_div positive_power).mpr (smaller.trans (power_decimalPoint_le q positive))
    have floor : 1 ≤ (q / power 10 (decimalPoint q - 17)).floor :=
      Rat.le_floor_iff.mpr (by exact_mod_cast one)
    have rounded := floor.trans (floor_le_roundHalfEven _)
    rw [Option.getD_none]
    omega

end Number

namespace Json

inductive IsFraction : Text → Prop
  | none : IsFraction []
  | point (digits : Text) (present : digits ≠ []) (all : ∀ u ∈ digits, u.isDigit = true) :
      IsFraction (46 :: digits)

inductive IsExponent : Text → Prop
  | none : IsExponent []
  | signed (sign : CodeUnit) (legal : sign = 43 ∨ sign = 45) (digits : Text) (present : digits ≠ [])
      (all : ∀ u ∈ digits, u.isDigit = true) : IsExponent (101 :: sign :: digits)

/-- A text that spells a number without a sign. It has no leading zero, and digits on both sides of a
point. -/
inductive IsMagnitude : Text → Prop
  | mk (whole fraction exponent : Text) (present : whole ≠ []) (all : ∀ u ∈ whole, u.isDigit = true)
      (first : whole.head? ≠ some 48 ∨ whole = [48]) (behind : IsFraction fraction)
      (power : IsExponent exponent) : IsMagnitude (whole ++ (fraction ++ exponent))

inductive IsNumeral : Text → Prop
  | unsigned (magnitude : Text) (legal : IsMagnitude magnitude) : IsNumeral magnitude
  | negative (magnitude : Text) (legal : IsMagnitude magnitude) : IsNumeral (45 :: magnitude)

theorem IsExponent.not_digit {exponent : Text} (power : IsExponent exponent) :
    exponent.takeWhile CodeUnit.isDigit = [] := by
  cases power <;> rfl

theorem IsFraction.not_digit {fraction exponent : Text} (behind : IsFraction fraction)
    (power : IsExponent exponent) : (fraction ++ exponent).takeWhile CodeUnit.isDigit = [] := by
  cases behind with
  | none => exact power.not_digit
  | point digits present all => rfl

theorem span_digits (digits rest : Text) (all : ∀ u ∈ digits, u.isDigit = true)
    (apart : rest.takeWhile CodeUnit.isDigit = []) :
    (digits ++ rest).takeWhile CodeUnit.isDigit = digits ∧
      (digits ++ rest).dropWhile CodeUnit.isDigit = rest := by
  have kept := List.takeWhile_append_dropWhile (p := CodeUnit.isDigit) (l := rest)
  rw [apart, List.nil_append] at kept
  rw [List.takeWhile_append_of_pos all, apart, List.append_nil, List.dropWhile_append_of_pos all, kept]
  exact ⟨rfl, rfl⟩

theorem IsExponent.exists_exponent? {exponent : Text} (power : IsExponent exponent) :
    ∃ value, exponent? exponent = some value := by
  cases power with
  | none => exact ⟨0, rfl⟩
  | signed sign legal digits present all =>
    have digits_all : digits.all CodeUnit.isDigit = true := List.all_eq_true.mpr all
    rcases legal with rfl | rfl <;> simp [exponent?, present, digits_all]

theorem IsFraction.fraction?_append {fraction exponent : Text} (behind : IsFraction fraction)
    (power : IsExponent exponent) :
    ∃ digits, fraction? (fraction ++ exponent) = some (digits, exponent) := by
  cases behind with
  | none =>
    refine ⟨[], ?_⟩
    cases power <;> rfl
  | point digits present all =>
    obtain ⟨taken, left⟩ := span_digits digits exponent all power.not_digit
    refine ⟨digits, ?_⟩
    rw [List.cons_append, fraction?]
    simp only [taken, left, if_neg present]

theorem IsMagnitude.exists_number? {magnitude : Text} (legal : IsMagnitude magnitude) :
    (∃ n, number? magnitude = some n) ∧ ∃ n, number? (45 :: magnitude) = some n := by
  cases legal with
  | mk whole fraction exponent present all first behind power =>
    obtain ⟨taken, left⟩ := span_digits whole (fraction ++ exponent) all (behind.not_digit power)
    obtain ⟨digits, fractional⟩ := behind.fraction?_append power
    obtain ⟨value, scaled⟩ := power.exists_exponent?
    have legal : ¬(whole = [] ∨ whole.head? = some 48 ∧ whole ≠ [48]) := by
      rintro (none | ⟨zero, more⟩)
      · exact present none
      · exact first.elim (fun other => other zero) more
    have unsigned : (whole ++ (fraction ++ exponent)).head? ≠ some 45 := by
      rw [List.head?_append_of_ne_nil _ present]
      intro minus
      exact absurd (all 45 (List.mem_of_head? minus)) (by decide)
    constructor
    · simp only [number?, if_neg unsigned, taken, left, fractional, Option.bind_eq_bind,
        Option.bind_some, scaled, if_neg legal]
      exact ⟨_, rfl⟩
    · simp only [number?, List.head?_cons, if_true, List.tail_cons, taken, left, fractional,
        Option.bind_eq_bind, Option.bind_some, scaled, if_neg legal]
      exact ⟨_, rfl⟩

theorem IsNumeral.exists_number? {word : Text} (numeral : IsNumeral word) :
    ∃ n, number? word = some n := by
  cases numeral with
  | unsigned _ legal => exact legal.exists_number?.1
  | negative _ legal => exact legal.exists_number?.2

theorem IsMagnitude.ne_nil {magnitude : Text} (legal : IsMagnitude magnitude) : magnitude ≠ [] := by
  cases legal with
  | mk whole fraction exponent present all first behind power =>
    exact List.append_ne_nil_of_left_ne_nil present _

theorem endsWord_cases (u : CodeUnit) (ends : Lexer.endsWord u = true) :
    u ∈ ([9, 10, 13, 32, 34, 44, 58, 91, 93, 123, 125] : Text) := by
  simp only [Lexer.endsWord, isSpace, quote, Bool.or_eq_true, beq_iff_eq] at ends
  rcases ends with ((((rfl | rfl) | rfl) | rfl) | rfl) | mark
  any_goals decide
  unfold punctuation? at mark
  split at mark
  any_goals decide
  cases mark

theorem not_endsWord_of_isDigit (u : CodeUnit) (digit : u.isDigit = true) :
    Lexer.endsWord u = false := by
  have apart : ([9, 10, 13, 32, 34, 44, 58, 91, 93, 123, 125] : Text).any CodeUnit.isDigit = false :=
    rfl
  by_contra ends
  have member := endsWord_cases u (Bool.not_eq_false _ ▸ ends)
  exact List.any_eq_false.mp apart u member digit

theorem IsMagnitude.not_endsWord {magnitude : Text} (legal : IsMagnitude magnitude) :
    ∀ u ∈ magnitude, Lexer.endsWord u = false := by
  cases legal with
  | mk whole fraction exponent present all first behind power =>
    have digits (text : Text) (all : ∀ u ∈ text, u.isDigit = true) :
        ∀ u ∈ text, Lexer.endsWord u = false := fun u member =>
      not_endsWord_of_isDigit u (all u member)
    rw [List.forall_mem_append, List.forall_mem_append]
    refine ⟨digits whole all, ?_, ?_⟩
    · cases behind with
      | none => simp
      | point fractional present all => exact List.forall_mem_cons.mpr ⟨rfl, digits fractional all⟩
    · cases power with
      | none => simp
      | signed sign legal exponential present all =>
        refine List.forall_mem_cons.mpr ⟨rfl, List.forall_mem_cons.mpr ⟨?_, digits exponential all⟩⟩
        rcases legal with rfl | rfl <;> rfl

theorem IsNumeral.not_endsWord {word : Text} (numeral : IsNumeral word) :
    word ≠ [] ∧ ∀ u ∈ word, Lexer.endsWord u = false := by
  cases numeral with
  | unsigned _ legal => exact ⟨legal.ne_nil, legal.not_endsWord⟩
  | negative _ legal =>
    exact ⟨List.cons_ne_nil _ _, List.forall_mem_cons.mpr ⟨rfl, legal.not_endsWord⟩⟩

theorem isDigit_zeros (n : Nat) : ∀ u ∈ Number.zeros n, u.isDigit = true := by
  intro u member
  rw [(List.mem_replicate.mp member).2]
  rfl

theorem isMagnitude_digits (digits : Text) (present : digits ≠ [])
    (all : ∀ u ∈ digits, u.isDigit = true) (first : digits.head? ≠ some 48 ∨ digits = [48]) :
    IsMagnitude digits := by
  have legal := IsMagnitude.mk digits [] [] present all first .none .none
  rwa [List.append_nil, List.append_nil] at legal

theorem isMagnitude_ofNat (n : Nat) : IsMagnitude (Text.ofNat n) := by
  refine isMagnitude_digits _ (Text.ofNat_ne_nil n) (Text.isDigit_ofNat n) ?_
  cases n with
  | zero => exact .inr rfl
  | succ n => exact .inl (Text.head?_ofNat _ n.succ_ne_zero)

theorem isMagnitude_decimalText (digits : Text) (point : Int) (present : digits ≠ [])
    (all : ∀ u ∈ digits, u.isDigit = true) (first : digits.head? ≠ some 48) :
    IsMagnitude (Number.decimalText digits point) := by
  unfold Number.decimalText
  simp only
  split
  · refine isMagnitude_digits _ (List.append_ne_nil_of_left_ne_nil present _) ?_ (.inl ?_)
    · exact List.forall_mem_append.mpr ⟨all, isDigit_zeros _⟩
    · rwa [List.head?_append_of_ne_nil _ present]
  · split
    · next long inside =>
      have among : 0 < point.toNat ∧ point.toNat < digits.length := by omega
      have before : digits.take point.toNat ≠ [] := by
        exact fun none => (List.take_eq_nil_iff.mp none).elim (Nat.ne_of_gt among.1) present
      have behind : digits.drop point.toNat ≠ [] := by
        exact fun none => absurd (List.drop_eq_nil_iff.mp none) (by omega)
      have legal := IsMagnitude.mk (digits.take point.toNat) (46 :: digits.drop point.toNat) []
        before (fun u member => all u (List.mem_of_mem_take member))
        (.inl (by rwa [List.head?_take, if_neg (Nat.ne_of_gt among.1)]))
        (.point _ behind fun u member => all u (List.mem_of_mem_drop member)) .none
      rw [List.append_nil] at legal
      rw [List.append_assoc]
      exact legal
    · split
      · have legal := IsMagnitude.mk [48] (46 :: (Number.zeros (-point).toNat ++ digits)) []
          (by decide) (List.all_eq_true.mp rfl) (.inr rfl)
          (.point _ (List.append_ne_nil_of_right_ne_nil _ present)
            (List.forall_mem_append.mpr ⟨isDigit_zeros _, all⟩)) .none
        rw [List.append_nil] at legal
        rw [List.append_assoc]
        exact legal
      · next far near small =>
        have power : IsExponent
            (if 0 < point then "e+" ++ Text.ofInt (point - 1) else "e" ++ Text.ofInt (point - 1)) := by
          split
          · next positive =>
            obtain ⟨n, same⟩ := Int.eq_ofNat_of_zero_le (a := point - 1) (by omega)
            rw [same]
            exact .signed 43 (.inl rfl) (Text.ofNat n) (Text.ofNat_ne_nil n) (Text.isDigit_ofNat n)
          · next negative =>
            obtain ⟨n, same⟩ := Int.eq_negSucc_of_lt_zero (a := point - 1) (by omega)
            rw [same]
            exact .signed 45 (.inr rfl) (Text.ofNat (n + 1)) (Text.ofNat_ne_nil _)
              (Text.isDigit_ofNat _)
        split
        · next u v rest =>
          have legal := IsMagnitude.mk [u] (46 :: v :: rest) _ (by simp)
            (fun w member => all w (by simp_all)) (.inl first)
            (.point (v :: rest) (by simp) fun w member => all w (List.mem_cons_of_mem _ member)) power
          exact legal
        · have legal := IsMagnitude.mk digits [] _ present all (.inl first) .none power
          exact legal

theorem isMagnitude_magnitudeText (q : ℚ) (positive : 0 < q) :
    IsMagnitude (Number.magnitudeText q) := by
  have nonzero := Number.shortestDecimal_ne_zero q positive
  let written := Text.ofNat (Number.shortestDecimal q).1
  let kept := written.rdropWhile (· == 48)
  have part : kept <+: written := List.rdropWhile_prefix _ written
  have first : written.head? ≠ some 48 := Text.head?_ofNat _ nonzero
  have present : kept ≠ [] := by
    intro none
    have zeros : ∀ u ∈ written, (u == 48) = true := List.rdropWhile_eq_nil_iff.mp none
    have same : written = written.head (Text.ofNat_ne_nil _) :: written.tail :=
      (List.cons_head_tail _).symm
    refine first ?_
    rw [same, List.head?_cons, beq_iff_eq.mp (zeros _ (List.head_mem _))]
  refine isMagnitude_decimalText kept _ present ?_ ?_
  · exact fun u member => Text.isDigit_ofNat _ u (part.subset member)
  · obtain ⟨rest, same⟩ := part
    rwa [← same, List.head?_append_of_ne_nil _ present] at first

theorem isNumeral_ofInt (i : Int) : IsNumeral (Text.ofInt i) := by
  cases i with
  | ofNat n => exact .unsigned _ (isMagnitude_ofNat n)
  | negSucc n => exact .negative _ (isMagnitude_ofNat (n + 1))

theorem numberText_cases (n : Number) : numberText n = "null" ∨ IsNumeral (numberText n) := by
  cases n with
  | nan => exact .inl rfl
  | posInfinity => exact .inl rfl
  | negInfinity => exact .inl rfl
  | negZero => exact .inr (isNumeral_ofInt 0)
  | finite q =>
    right
    change IsNumeral (Number.finite q).toText
    cases safe : (Number.finite q).toSafeInt? with
    | some i =>
      rw [Number.toText.eq_def, safe]
      exact isNumeral_ofInt i
    | none =>
      rw [Number.toText.eq_def, safe]
      simp only
      split
      · next below => exact .negative _ (isMagnitude_magnitudeText (-q) (neg_pos.mpr below))
      · next above =>
        have nonzero : q ≠ 0 := by
          rintro rfl
          cases safe
        exact .unsigned _
          (isMagnitude_magnitudeText q (lt_of_le_of_ne (not_lt.mp above) nonzero.symm))

end Json

end AnsiMarkup
