import AnsiMarkup.Position
import AnsiMarkup.Proofs.Number.SafeIntegers
import Mathlib.Data.Nat.Log

/-! Ordinals of positive integers. The article is chosen by the number that is spoken first, which is
the leading group of the decimal digits in groups of three. -/

namespace AnsiMarkup

namespace Text

theorem length_ofNat_of_lt_ten (n : Nat) (small : n < 10) : (ofNat n).length = 1 := by
  have digit : ∀ d < 10, (ofNat d).length = 1 := by decide
  exact digit n small

theorem length_ofNat_of_lt_thousand (n : Nat) (small : n < 1000) : (ofNat n).length ≤ 3 := by
  have step (k : Nat) : (ofNat k).length ≤ (ofNat (k / 10)).length + 1 := by
    by_cases single : k < 10
    · rw [length_ofNat_of_lt_ten k single]
      exact Nat.succ_le_succ (Nat.zero_le _)
    · rw [ofNat_of_ten_le k (Nat.not_lt.mp single), List.length_append,
        length_ofNat_of_lt_ten (k % 10) (by omega)]
  have first := length_ofNat_of_lt_ten (n / 10 / 10) (by omega)
  have second := step (n / 10)
  have third := step n
  omega

theorem ofNat_of_thousand_le (n : Nat) (large : 1000 ≤ n) :
    ∃ digits, ofNat n = ofNat (n / 1000) ++ digits ∧ digits.length = 3 := by
  refine ⟨ofNat (n / 100 % 10) ++ (ofNat (n / 10 % 10) ++ ofNat (n % 10)), ?_, ?_⟩
  · rw [ofNat_of_ten_le n (by omega), ofNat_of_ten_le (n / 10) (by omega), Nat.div_div_eq_div_mul,
      ofNat_of_ten_le (n / (10 * 10)) (by omega), Nat.div_div_eq_div_mul]
    simp only [List.append_assoc]
  · rw [List.length_append, List.length_append, length_ofNat_of_lt_ten _ (by omega),
      length_ofNat_of_lt_ten _ (by omega), length_ofNat_of_lt_ten _ (by omega)]

end Text

namespace Number

theorem remainder_natCast (n m : Nat) (positive : 0 < m) :
    remainder (n : ℚ) m = ((n % m : Nat) : ℚ) := by
  have nonneg : ¬ (n : ℚ) / m < 0 := not_lt.mpr (by positivity)
  have quotient : truncate ((n : ℚ) / m) = ((n / m : Nat) : Int) := by
    rw [truncate, if_neg nonneg]
    exact Rat.floor_natCast_div_natCast n m
  rw [remainder, quotient, Int.cast_natCast, sub_eq_iff_eq_add]
  exact_mod_cast (Nat.mod_add_div n m).symm

end Number

namespace Ordinal

/-- The quotient by the largest power of a thousand that is not above the number. -/
def leading (n : Nat) : Nat := n / 1000 ^ Nat.log 1000 n

theorem leading_of_lt (n : Nat) (small : n < 1000) : leading n = n := by
  rw [leading, Nat.log_of_lt small, pow_zero, Nat.div_one]

theorem leading_of_le (n : Nat) (large : 1000 ≤ n) : leading n = leading (n / 1000) := by
  rw [leading, leading, Nat.log_of_one_lt_of_le (by decide) large, pow_succ', Nat.div_div_eq_div_mul]

theorem leading_lt (n : Nat) : leading n < 1000 := by
  apply Nat.div_lt_of_lt_mul
  rw [← pow_succ]
  exact Nat.lt_pow_succ_log_self (by decide) n

theorem leading_pos (n : Nat) (positive : 0 < n) : 0 < leading n :=
  Nat.div_pos (Nat.pow_log_le_self 1000 (Nat.ne_of_gt positive)) (by positivity)

section Digits

theorem leadingGroup_append (front back : Text) (front_ne : front ≠ []) (three : back.length = 3) :
    leadingGroup (front ++ back) = leadingGroup front := by
  have positive := List.length_pos_iff.mpr front_ne
  rw [leadingGroup, leadingGroup, List.length_append, three, Nat.add_mod_right]
  apply List.take_append_of_le_length
  split <;> omega

theorem leadingGroup_of_length_le (digits : Text) (short : digits.length ≤ 3) :
    leadingGroup digits = digits := by
  apply List.take_of_length_le
  split <;> omega

theorem head?_leadingGroup (digits : Text) : (leadingGroup digits).head? = digits.head? := by
  rw [leadingGroup, List.head?_take, if_neg]
  split <;> omega

theorem leadingGroup_ofNat (n : Nat) : leadingGroup (Text.ofNat n) = Text.ofNat (leading n) := by
  -- By the digits without the last group of three.
  induction n using Nat.strongRecOn with
  | ind n ih =>
    by_cases small : n < 1000
    · rw [leading_of_lt n small]
      exact leadingGroup_of_length_le _ (Text.length_ofNat_of_lt_thousand n small)
    · have large : 1000 ≤ n := Nat.not_lt.mp small
      obtain ⟨digits, whole, three⟩ := Text.ofNat_of_thousand_le n large
      rw [whole, leadingGroup_append _ _ (Text.ofNat_ne_nil _) three, leading_of_le n large]
      exact ih (n / 1000) (by omega)

/-- The numbers below a thousand whose names start with eight, eighty, eleven or eighteen. -/
def VowelGroup (g : Nat) : Prop :=
  g = 8 ∨ g = 11 ∨ g = 18 ∨ (80 ≤ g ∧ g ≤ 89) ∨ (800 ≤ g ∧ g ≤ 899)

instance (g : Nat) : Decidable (VowelGroup g) := inferInstanceAs (Decidable (_ ∨ _))

theorem head?_ofNat_eq_eight_iff (g : Nat) (small : g < 1000) :
    (Text.ofNat g).head? = some 56 ↔ g = 8 ∨ g / 10 = 8 ∨ g / 100 = 8 := by
  have digit : ∀ d < 10, ((Text.ofNat d).head? = some 56 ↔ d = 8) := by decide
  by_cases one : g < 10
  · rw [digit g one]
    omega
  · rw [Text.head?_ofNat_of_ten_le g (by omega)]
    by_cases two : g < 100
    · rw [digit (g / 10) (by omega)]
      omega
    · rw [Text.head?_ofNat_of_ten_le (g / 10) (by omega), digit (g / 10 / 10) (by omega)]
      omega

theorem article_ofNat (n : Nat) :
    article (Text.ofNat n) = if VowelGroup (leading n) then ("an" : Text) else "a" := by
  have eleven : Text.ofNat (leading n) = [49, 49] ↔ leading n = 11 :=
    Text.ofNat_injective.eq_iff (b := 11)
  have eighteen : Text.ofNat (leading n) = [49, 56] ↔ leading n = 18 :=
    Text.ofNat_injective.eq_iff (b := 18)
  have spoken : ((Text.ofNat n).head? = some 56 ∨ leadingGroup (Text.ofNat n) = [49, 49] ∨
      leadingGroup (Text.ofNat n) = [49, 56]) ↔ VowelGroup (leading n) := by
    have small := leading_lt n
    rw [← head?_leadingGroup, leadingGroup_ofNat, head?_ofNat_eq_eight_iff _ small, eleven, eighteen,
      VowelGroup]
    omega
  simp only [article, spoken]

end Digits

section Words

def smallNames : List Text :=
  ["zero", "one", "two", "three", "four", "five", "six", "seven", "eight", "nine", "ten", "eleven",
    "twelve", "thirteen", "fourteen", "fifteen", "sixteen", "seventeen", "eighteen", "nineteen"]

def tensNames : List Text :=
  ["zero", "ten", "twenty", "thirty", "forty", "fifty", "sixty", "seventy", "eighty", "ninety"]

def scaleNames : List Text := ["", "thousand", "million", "billion", "trillion", "quadrillion"]

def smallName (n : Nat) : Text := smallNames.getD n []

def tensName (n : Nat) : Text := tensNames.getD n []

def hundredWords (n : Nat) : List Text :=
  if n = 0 then []
  else if n < 20 then [smallName n]
  else tensName (n / 10) :: if n % 10 = 0 then [] else [smallName (n % 10)]

def thousandWords (n : Nat) : List Text :=
  if n < 100 then hundredWords n else smallName (n / 100) :: "hundred" :: hundredWords (n % 100)

def groupWords (scale n : Nat) : List Text :=
  if n = 0 then [] else thousandWords n ++ if scale = 0 then [] else [scaleNames.getD scale []]

/-- The name of a number, counted in thousands to the power of `scale`. -/
def words (scale n : Nat) : List Text :=
  if n < 1000 then groupWords scale n
  else words (scale + 1) (n / 1000) ++ groupWords scale (n % 1000)

def spokenWords (n : Nat) : List Text := words 0 n

def vowelWords : List Text := ["eight", "eighty", "eleven", "eighteen"]

theorem thousandWords_ne_nil (n : Nat) (positive : 0 < n) : thousandWords n ≠ [] := by
  rw [thousandWords, hundredWords]
  split
  · rw [if_neg (Nat.ne_of_gt positive)]
    split <;> exact List.cons_ne_nil _ _
  · exact List.cons_ne_nil _ _

theorem head?_groupWords (scale n : Nat) (positive : 0 < n) :
    (groupWords scale n).head? = (thousandWords n).head? := by
  rw [groupWords, if_neg (Nat.ne_of_gt positive),
    List.head?_append_of_ne_nil _ (thousandWords_ne_nil n positive)]

theorem head?_words (scale n : Nat) (positive : 0 < n) :
    (words scale n).head? = (thousandWords (leading n)).head? := by
  induction n using Nat.strongRecOn generalizing scale with
  | ind n ih =>
    rw [words]
    split
    · next small => rw [leading_of_lt n small, head?_groupWords scale n positive]
    · next small =>
      have large : 1000 ≤ n := Nat.not_lt.mp small
      have thousands := ih (n / 1000) (by omega) (scale + 1) (by omega)
      have spoken : words (scale + 1) (n / 1000) ≠ [] := by
        intro blank
        rw [blank] at thousands
        exact thousandWords_ne_nil _ (leading_pos _ (by omega)) (List.head?_eq_none_iff.mp thousands.symm)
      rw [List.head?_append_of_ne_nil _ spoken, thousands, leading_of_le n large]

theorem smallName_mem_vowelWords (d : Nat) (bound : d < 20) :
    smallName d ∈ vowelWords ↔ d = 8 ∨ d = 11 ∨ d = 18 := by
  have all : ∀ d < 20, smallName d ∈ vowelWords ↔ d = 8 ∨ d = 11 ∨ d = 18 := by decide
  exact all d bound

theorem tensName_mem_vowelWords (d : Nat) (bound : d < 10) : tensName d ∈ vowelWords ↔ d = 8 := by
  have all : ∀ d < 10, tensName d ∈ vowelWords ↔ d = 8 := by decide
  exact all d bound

theorem vowelGroup_iff (g : Nat) (positive : 0 < g) (small : g < 1000) :
    VowelGroup g ↔ ∃ word ∈ (thousandWords g).head?, word ∈ vowelWords := by
  rw [thousandWords, hundredWords, if_neg (Nat.ne_of_gt positive), VowelGroup]
  split
  · split
    · next below =>
      simp only [List.head?_cons, Option.mem_some_iff, exists_eq_left', smallName_mem_vowelWords g below]
      omega
    · simp only [List.head?_cons, Option.mem_some_iff, exists_eq_left',
        tensName_mem_vowelWords (g / 10) (by omega)]
      omega
  · simp only [List.head?_cons, Option.mem_some_iff, exists_eq_left',
      smallName_mem_vowelWords (g / 100) (by omega)]
    omega

end Words

def digitSuffix (n : Nat) : Text :=
  if n % 100 = 11 ∨ n % 100 = 12 ∨ n % 100 = 13 then "th"
  else if n % 10 = 1 then "st"
  else if n % 10 = 2 then "nd"
  else if n % 10 = 3 then "rd"
  else "th"

theorem suffix_ofNat (n : Nat) : suffix (Number.ofNat n) = digitSuffix n := by
  have hundred := Number.remainder_natCast n 100 (by decide)
  have ten := Number.remainder_natCast n 10 (by decide)
  have below : Number.remainder (n : ℚ) 100 < 11 ↔ n % 100 < 11 := by
    rw [hundred]
    exact_mod_cast Iff.rfl
  have above : 13 < Number.remainder (n : ℚ) 100 ↔ 13 < n % 100 := by
    rw [hundred]
    exact_mod_cast Iff.rfl
  have last (d : Nat) : Number.remainder (n : ℚ) 10 = (d : ℚ) ↔ n % 10 = d := by
    rw [ten]
    exact Nat.cast_inj
  have one := last 1
  have two := last 2
  have three := last 3
  push_cast at one two three
  simp only [suffix, Number.ofNat, Number.toRat?, below, above, one, two, three]
  rw [digitSuffix]
  by_cases teens : n % 100 = 11 ∨ n % 100 = 12 ∨ n % 100 = 13
  · rw [if_pos teens, if_neg (by omega)]
  · rw [if_neg teens, if_pos (by omega)]

end Ordinal

/-- A positive integer is written with its digits between an article and a suffix. The article is that
of the group of digits spoken first, and so of the first word of the number's name. -/
theorem ordinal_spoken (n : Nat) (positive : 1 ≤ n) (small : n < 2 ^ 53) :
    (ordinal (Number.ofNat n) =
      (if Ordinal.VowelGroup (Ordinal.leading n) then ("an" : Text) else "a") ++ " " ++
        Text.ofNat n ++ Ordinal.digitSuffix n) ∧
      (Ordinal.VowelGroup (Ordinal.leading n) ↔
        ∃ word ∈ (Ordinal.spokenWords n).head?, word ∈ Ordinal.vowelWords) := by
  constructor
  · rw [ordinal, Number.toText_ofNat n small, Ordinal.article_ofNat, Ordinal.suffix_ofNat]
  · rw [Ordinal.spokenWords, Ordinal.head?_words 0 n positive]
    exact Ordinal.vowelGroup_iff _ (Ordinal.leading_pos n positive) (Ordinal.leading_lt n)

/-- Eighteen thousand is spoken with a vowel first, a hundred and eighty-one is not. -/
theorem ordinal_spoken_thousands :
    (1 ≤ 18000 ∧ 18000 < 2 ^ 53) ∧
      ordinal (Number.ofNat 18000) = ("an 18000th" : Text) ∧
      (∃ word ∈ (Ordinal.spokenWords 18000).head?, word ∈ Ordinal.vowelWords) ∧
      ordinal (Number.ofNat 181) = ("a 181st" : Text) ∧
      ¬ ∃ word ∈ (Ordinal.spokenWords 181).head?, word ∈ Ordinal.vowelWords := by
  have group : Ordinal.leading 18000 = 18 := by
    rw [Ordinal.leading_of_le _ (by decide), Ordinal.leading_of_lt _ (by decide)]
  have vowel : Ordinal.VowelGroup (Ordinal.leading 18000) := by
    rw [group]
    decide
  have consonant : ¬ Ordinal.VowelGroup (Ordinal.leading 181) := by
    rw [Ordinal.leading_of_lt _ (by decide)]
    decide
  obtain ⟨written, spoken⟩ := ordinal_spoken 18000 (by decide) (by decide)
  obtain ⟨other, silent⟩ := ordinal_spoken 181 (by decide) (by decide)
  refine ⟨⟨by decide, by decide⟩, ?_, spoken.mp vowel, ?_, consonant ∘ silent.mpr⟩
  · rw [written, if_pos vowel]
    decide
  · rw [other, if_neg consonant]
    decide

end AnsiMarkup
