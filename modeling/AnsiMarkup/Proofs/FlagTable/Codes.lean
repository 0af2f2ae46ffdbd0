import AnsiMarkup.FlagTable.Standard
import AnsiMarkup.Proofs.FlagTable.Declared
import AnsiMarkup.Proofs.Markup.Escapes
import AnsiMarkup.Proofs.Number.SafeIntegers
import AnsiMarkup.Proofs.Terminal.Reading
import Mathlib.Data.Finset.Lattice.Lemmas

namespace AnsiMarkup

namespace Number

def IsCode (number : Number) : Prop := ∃ n : Nat, 0 < n ∧ n < safeLimit ∧ number = ofNat n

end Number

namespace FlagTable

/-- Every flag has a code that a terminal adds to its active ones. -/
def Coded (table : FlagTable) : Prop := ∀ flag ∈ table.flags, flag.code.IsCode

theorem coded_of_ofSpecs (specs : List CategorySpec) (table : FlagTable)
    (declared : ofSpecs specs = .ok table)
    (codes : ∀ category ∈ specs, ∀ flag ∈ category.flags, flag.code.IsCode) : table.Coded := by
  intro flag member
  have listed : flag.spec ∈ declaredFlags specs := by
    rw [← map_spec_numbered 0 (declaredFlags specs), ← (flags_of_ofSpecs declared).2]
    exact List.mem_map_of_mem member
  rcases List.mem_flatMap.mp listed with ⟨category, inCategories, inFlags⟩
  exact codes category inCategories flag.spec inFlags

def codeSet (table : FlagTable) (c : Combination) : Finset Nat :=
  ((table.codes c).filterMap Number.toIndex?).toFinset

variable {table : FlagTable}

theorem Coded.isCode (coded : table.Coded) (c : Combination) :
    ∀ code ∈ table.codes c, code.IsCode := by
  intro code member
  rcases List.mem_map.mp member with ⟨flag, selected, rfl⟩
  exact coded flag (List.mem_of_mem_filter selected)

theorem codes_zero (table : FlagTable) : table.codes 0 = [] := by
  have none (place : Nat) : Combination.holds 0 place = false := Nat.zero_testBit place
  simp [codes, none]

theorem codeText_zero (table : FlagTable) : table.codeText 0 = [] := by
  rw [codeText, codes_zero]
  rfl

theorem codeSet_zero (table : FlagTable) : table.codeSet 0 = ∅ := by
  rw [codeSet, codes_zero]
  rfl

theorem Coded.codeText_allowed (coded : table.Coded) (c : Combination) :
    ∀ u ∈ table.codeText c, Terminal.isParameter u = true := by
  intro u present
  rcases Specifier.mem_intercalate Terminal.semicolon u _ present with rfl | ⟨part, inParts, inPart⟩
  · rfl
  · rcases List.mem_map.mp inParts with ⟨code, inCodes, rfl⟩
    rcases coded.isCode c code inCodes with ⟨n, -, small, rfl⟩
    rw [Number.toText_ofNat n small] at inPart
    rw [Terminal.isParameter, Text.isDigit_ofNat n u inPart, Bool.true_or]

theorem splitOn_codeText (c : Combination) (some : table.codes c ≠ [])
    (whole : ∀ code ∈ table.codes c, Terminal.semicolon ∉ code.toText) :
    (table.codeText c).splitOn Terminal.semicolon = (table.codes c).map Number.toText := by
  refine List.splitOn_intercalate Terminal.semicolon ?_ (by simpa using some)
  exact List.forall_mem_map.mpr whole

theorem Coded.splitOn_codeText (coded : table.Coded) (c : Combination) (some : table.codes c ≠ []) :
    (table.codeText c).splitOn Terminal.semicolon = (table.codes c).map Number.toText := by
  apply FlagTable.splitOn_codeText c some
  intro code member
  rcases coded.isCode c code member with ⟨n, -, small, rfl⟩
  rw [Number.toText_ofNat n small]
  exact Text.not_mem_ofNat n Terminal.semicolon rfl

theorem foldl_setCode (codes : List Number) (positive : ∀ code ∈ codes, code.IsCode)
    (active : Finset Nat) :
    (codes.map Number.toText).foldl Terminal.setCode active =
      (codes.filterMap Number.toIndex?).toFinset ∪ active := by
  induction codes generalizing active with
  | nil => simp
  | cons code codes ih =>
    rcases List.forall_mem_cons.mp positive with ⟨⟨n, nonzero, small, rfl⟩, others⟩
    have first : Terminal.setCode active (Number.ofNat n).toText = insert n active := by
      rw [Number.toText_ofNat n small, Terminal.setCode, Text.digitsValue_ofNat, if_neg]
      rintro (blank | zero)
      · exact Text.ofNat_ne_nil n blank
      · omega
    rw [List.map_cons, List.foldl_cons, first, ih others,
      List.filterMap_cons_some (Number.toIndex?_ofNat n), List.toFinset_cons,
      Finset.union_insert, Finset.insert_union]

theorem codeSet_eq_empty_iff (coded : table.Coded) (c : Combination) :
    table.codeSet c = ∅ ↔ table.codes c = [] := by
  constructor
  · intro none
    cases codes : table.codes c with
    | nil => rfl
    | cons code rest =>
      rcases coded.isCode c code (by simp [codes]) with ⟨n, -, -, rfl⟩
      rw [codeSet, codes, List.filterMap_cons_some (Number.toIndex?_ofNat n)] at none
      simp at none
  · intro none
    rw [codeSet, none]
    rfl

/-- A combination without flags has no codes, and the sequence without any clears those active. -/
theorem apply_codeText (coded : table.Coded) (c : Combination) (active : Finset Nat) :
    Terminal.Token.apply active (.select (table.codeText c)) =
      if table.codeSet c = ∅ then ∅ else table.codeSet c ∪ active := by
  by_cases none : table.codes c = []
  · rw [if_pos ((codeSet_eq_empty_iff coded c).mpr none), codeText, none]
    rfl
  · rw [if_neg (none ∘ (codeSet_eq_empty_iff coded c).mp), Terminal.Token.apply,
      coded.splitOn_codeText c none, foldl_setCode _ (coded.isCode c)]
    rfl

theorem apply_zero_codeText (coded : table.Coded) (c : Combination) (active : Finset Nat) :
    Terminal.Token.apply active (.select ("0;" ++ table.codeText c)) = table.codeSet c := by
  have reset : Terminal.Token.apply active (.select ("0;" ++ table.codeText c)) =
      Terminal.Token.apply ∅ (.select (table.codeText c)) := by
    have zero : Terminal.semicolon ∉ [48] := by decide
    change (List.splitOn Terminal.semicolon ([48] ++ Terminal.semicolon :: table.codeText c)).foldl
      Terminal.setCode active = _
    rw [List.splitOn_append_cons_self_of_not_mem zero, List.foldl_cons]
    rfl
  rw [reset, apply_codeText coded]
  split
  · next none => exact none.symm
  · exact Finset.union_empty _

theorem isCode_standardSpecs :
    ∀ category ∈ standardSpecs, ∀ flag ∈ category.flags, flag.code.IsCode := by
  have code (name : String) (n : Nat) (bounds : 0 < n ∧ n < Number.safeLimit) :
      (spec name n).code.IsCode := ⟨n, bounds.1, bounds.2, rfl⟩
  simp [standardSpecs, formatFlags, colorFlags, fillFlags, code, Number.safeLimit]

theorem coded_standard : standard.Coded :=
  coded_of_ofSpecs standardSpecs standard ofSpecs_standardSpecs isCode_standardSpecs

end FlagTable

end AnsiMarkup
