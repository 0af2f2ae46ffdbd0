import AnsiMarkup.Proofs.FlagTable.Combinations
import AnsiMarkup.Proofs.FlagTable.Numbering

namespace AnsiMarkup

namespace FlagTable

/-- Places are counted from zero in the order of the flags, and no name comes twice. -/
structure InOrder (flags : List Flag) : Prop where
  places : flags.map Flag.place = List.range flags.length
  names : (flags.map Flag.name).Nodup

theorem inOrder_of_ofSpecs (specs : List CategorySpec) (table : FlagTable)
    (declared : ofSpecs specs = .ok table) : InOrder table.flags := by
  have flags := flags_of_ofSpecs declared
  constructor
  · rw [flags.2, map_place_numbered, length_numbered, List.range_eq_range']
  · have names := map_numbered FlagSpec.name 0 (declaredFlags specs)
    rw [← flags.2] at names
    exact names ▸ flags.1.names

namespace InOrder

variable {flags : List Flag} {flag other : Flag}

theorem place_lt (order : InOrder flags) (member : flag ∈ flags) : flag.place < flags.length := by
  have place : flag.place ∈ flags.map Flag.place := List.mem_map_of_mem member
  rw [order.places] at place
  exact List.mem_range.mp place

theorem exists_place (order : InOrder flags) (place : Nat) (bound : place < flags.length) :
    ∃ flag ∈ flags, flag.place = place := by
  rw [← List.mem_map, order.places]
  exact List.mem_range.mpr bound

theorem nodup_places (order : InOrder flags) : (flags.map Flag.place).Nodup := by
  rw [order.places]
  exact List.nodup_range

theorem eq_of_place (order : InOrder flags) (member : flag ∈ flags) (other_member : other ∈ flags)
    (same : flag.place = other.place) : flag = other :=
  List.inj_on_of_nodup_map order.nodup_places member other_member same

theorem eq_of_name (order : InOrder flags) (member : flag ∈ flags) (other_member : other ∈ flags)
    (same : flag.name = other.name) : flag = other :=
  List.inj_on_of_nodup_map order.names member other_member same

end InOrder

theorem holds_unions_bits (flags : List Flag) (place : Nat) :
    (Combination.unions (flags.map Flag.bit)).holds place = true ↔ ∃ flag ∈ flags, flag.place = place := by
  rw [Combination.holds_unions, List.any_map, List.any_eq_true]
  simp only [Function.comp_apply, Flag.bit, Combination.holds_bit, decide_eq_true_eq]

theorem unions_bits_nonneg (flags : List Flag) : 0 ≤ Combination.unions (flags.map Flag.bit) := by
  apply Combination.unions_nonneg
  intro style member
  obtain ⟨flag, -, rfl⟩ := List.mem_map.mp member
  exact Combination.bit_nonneg flag.place

def Names (table : FlagTable) (name : Text) (flag : Flag) : Prop :=
  flag ∈ table.flags ∧ flag.name = name

def Declares (table : FlagTable) (name : Text) : Prop := ∃ flag, table.Names name flag

variable {table : FlagTable} {name : Text} {flag : Flag}

theorem bitOf_of_names (order : InOrder table.flags) (names : table.Names name flag) :
    table.bitOf name = .ok flag.bit := by
  have found : table.flags.find? (fun flag => flag.name == name) = some flag := by
    cases found : table.flags.find? (fun flag => flag.name == name) with
    | none =>
      have absent := List.find?_eq_none.mp found flag names.1
      exact absurd (beq_iff_eq.mpr names.2) absent
    | some other =>
      have same : other.name = name := by simpa using List.find?_some found
      have member := List.mem_of_find?_eq_some found
      rw [order.eq_of_name member names.1 (same.trans names.2.symm)]
  rw [bitOf, found]

theorem bitOf_of_not_declares (unknown : ¬ table.Declares name) :
    table.bitOf name = .error (.unknownFlag name) := by
  have absent : table.flags.find? (fun flag => flag.name == name) = none := by
    rw [List.find?_eq_none]
    intro flag member same
    exact unknown ⟨flag, member, beq_iff_eq.mp same⟩
  rw [bitOf, absent]

end FlagTable

end AnsiMarkup
