import AnsiMarkup.Proofs.FlagTable.Combinations
import AnsiMarkup.Proofs.FlagTable.Declared

/-! The bits of a table: a power of two for each flag, and the limit above all of them. -/

namespace AnsiMarkup

namespace FlagTable

structure Numbers (specs : List CategorySpec) (table : FlagTable) : Prop where
  kept : table.categories.map Category.spec = specs
  bits : ∀ i flag, table.flags[i]? = some flag → flag.bit = (2 : Int) ^ i
  lookup : ∀ name c, table.bitOf name = .ok c ↔
    ∃ i spec, (declaredFlags specs)[i]? = some spec ∧ spec.name = name ∧ c = (2 : Int) ^ i
  apart : table.flags.Pairwise fun a b =>
    ∀ place, a.bit.holds place = true → b.bit.holds place = false
  limit : table.limit = (2 : Int) ^ (declaredFlags specs).length
  union : table.limit = Combination.unions (table.flags.map Flag.bit) + 1

namespace InOrder

variable {flags : List Flag}

theorem unions_bits (order : InOrder flags) :
    Combination.unions (flags.map Flag.bit) = Combination.bit flags.length - 1 := by
  have power : Combination.bit flags.length - 1 = ((2 ^ flags.length - 1 : Nat) : Int) := by
    rw [Combination.bit_eq, Int.natCast_sub Nat.one_le_two_pow]
    push_cast
    rfl
  rw [power]
  apply Combination.eq_of_holds (unions_bits_nonneg flags) (Int.natCast_nonneg _)
  intro place
  calc
    (Combination.unions (flags.map Flag.bit)).holds place = decide (place < flags.length) := by
      rw [Bool.eq_iff_iff, holds_unions_bits, decide_eq_true_iff]
      constructor
      · intro ⟨flag, member, same⟩
        rw [← same]
        exact order.place_lt member
      · exact order.exists_place place
    _ = (2 ^ flags.length - 1 : Nat).testBit place := (Nat.testBit_two_pow_sub_one _ _).symm

end InOrder

section

variable {specs : List CategorySpec} {table : FlagTable}

theorem bitOf_eq_ok_iff (order : InOrder table.flags) (name : Text) (c : Combination) :
    table.bitOf name = .ok c ↔ ∃ flag, table.Names name flag ∧ c = flag.bit := by
  constructor
  · intro found
    by_cases declares : table.Declares name
    · rcases declares with ⟨flag, names⟩
      rw [bitOf_of_names order names] at found
      exact ⟨flag, names, (Except.ok.inj found).symm⟩
    · rw [bitOf_of_not_declares declares] at found
      cases found
  · intro ⟨flag, names, same⟩
    rw [same]
    exact bitOf_of_names order names

theorem numbers_of_ofSpecs (declared : ofSpecs specs = .ok table) : Numbers specs table := by
  have order := inOrder_of_ofSpecs specs table declared
  have flags := (flags_of_ofSpecs declared).2
  have length : table.flags.length = (declaredFlags specs).length := by rw [flags, length_numbered]
  constructor
  case kept => exact map_spec_ofSpecs declared
  case bits =>
    intro i flag found
    rw [flags, getElem?_numbered, Option.map_eq_some_iff] at found
    rcases found with ⟨spec, -, rfl⟩
    rw [Flag.bit, Nat.zero_add, Combination.bit_eq]
  case lookup =>
    intro name c
    calc
      table.bitOf name = .ok c
        ↔ ∃ flag ∈ numbered 0 (declaredFlags specs), flag.name = name ∧ c = flag.bit := by
          rw [bitOf_eq_ok_iff order, ← flags]
          simp only [Names, and_assoc]
      _ ↔ ∃ i spec, (declaredFlags specs)[i]? = some spec ∧ spec.name = name ∧
            c = Combination.bit i := by
          simp only [mem_numbered_iff]
          constructor
          · intro named
            rcases named with ⟨flag, ⟨i, spec, found, rfl⟩, name, bit⟩
            exact ⟨i, spec, found, name, bit⟩
          · intro placed
            rcases placed with ⟨i, spec, found, name, bit⟩
            exact ⟨_, ⟨i, spec, found, rfl⟩, name, bit⟩
      _ ↔ ∃ i spec, (declaredFlags specs)[i]? = some spec ∧ spec.name = name ∧ c = (2 : Int) ^ i := by
          simp only [Combination.bit_eq]
  case apart =>
    apply (List.pairwise_map.mp order.nodup_places).imp
    intro a b other place held
    rw [Flag.bit, Combination.holds_bit, decide_eq_true_iff] at held
    rw [Flag.bit, Combination.holds_bit, decide_eq_false_iff_not, ← held]
    exact other.symm
  case limit => rw [FlagTable.limit, Combination.bit_eq, length]
  case union => rw [order.unions_bits, FlagTable.limit, Int.sub_add_cancel]

/-- Categories make a table if no name and no code comes twice among all their flags. The flags of the
table are numbered in the order of declaration. Otherwise the first flag that repeats one before it is
named, for its name rather than for its code. -/
theorem ofSpecs_numbers (specs : List CategorySpec) :
    ((∃ table, ofSpecs specs = .ok table) ↔ Distinct (declaredFlags specs)) ∧
      (∀ table, ofSpecs specs = .ok table → Numbers specs table) ∧
      ∀ error, (ofSpecs specs = .error error ↔ FirstRepeat (declaredFlags specs) error) ∧
        (FirstRepeat (declaredFlags specs) error → error.kind = .flag) := by
  refine ⟨⟨?_, ?_⟩, fun table => numbers_of_ofSpecs, ?_⟩
  · intro ⟨table, declared⟩
    exact (flags_of_ofSpecs declared).1
  · intro distinct
    cases outcome : ofSpecs specs with
    | ok table => exact ⟨table, rfl⟩
    | error error => exact absurd distinct (firstRepeat_of_ofSpecs outcome).not_distinct
  · intro error
    exact ⟨⟨firstRepeat_of_ofSpecs, ofSpecs_of_firstRepeat⟩, FirstRepeat.kind_eq⟩

end

/-- Two categories with the codes zero and NaN. A third flag with the other zero repeats the first code,
and one with the first name as well repeats the name. -/
theorem ofSpecs_numbers_zeros :
    let a : FlagSpec := ⟨"a", .finite 0⟩
    let b : FlagSpec := ⟨"b", .nan⟩
    let other : FlagSpec := ⟨"c", .negZero⟩
    let specs : List CategorySpec := [⟨"look", [a]⟩, ⟨"fill", [b]⟩]
    let table : FlagTable := ⟨[⟨"look", [⟨"a", .finite 0, 0⟩]⟩, ⟨"fill", [⟨"b", .nan, 1⟩]⟩]⟩
    Distinct (declaredFlags specs) ∧ ofSpecs specs = .ok table ∧ Numbers specs table ∧
      table.limit = 4 ∧
      ofSpecs [⟨"look", [a, b]⟩, ⟨"fill", [other]⟩] = .error (.duplicateCode .negZero "c") ∧
      ofSpecs [⟨"look", [a]⟩, ⟨"fill", [b, a]⟩] = .error (.duplicateFlag "a") := by
  intro a b other specs table
  have declared : ofSpecs specs = .ok table := rfl
  have distinct : Distinct [a, b] := ⟨by decide, by decide⟩
  have code : FirstRepeat ([a, b] ++ other :: []) (.duplicateCode .negZero "c") :=
    .intro [a, b] other [] _ distinct (.code (by decide) (by decide))
  have name : FirstRepeat ([a, b] ++ a :: []) (.duplicateFlag "a") :=
    .intro [a, b] a [] _ distinct (.name (by decide))
  exact ⟨(ofSpecs_numbers specs).1.mp ⟨table, declared⟩, declared,
    (ofSpecs_numbers specs).2.1 table declared, rfl,
    ((ofSpecs_numbers [⟨"look", [a, b]⟩, ⟨"fill", [other]⟩]).2.2 _).1.mpr code,
    ((ofSpecs_numbers [⟨"look", [a]⟩, ⟨"fill", [b, a]⟩]).2.2 _).1.mpr name⟩

end FlagTable

end AnsiMarkup
