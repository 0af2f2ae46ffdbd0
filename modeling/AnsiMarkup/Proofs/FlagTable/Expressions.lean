import AnsiMarkup.FlagTable
import AnsiMarkup.Proofs.FlagTable.Combinations
import AnsiMarkup.Proofs.FlagTable.Declared
import AnsiMarkup.Proofs.Text.Trimming
import Mathlib.Data.List.Forall2
import Mathlib.Data.Rat.Cast.Defs

namespace AnsiMarkup

namespace FlagTable

structure Spellable (name : Text) : Prop where
  nonempty : name ≠ []
  trimmed : Text.trim name = name
  joined : plus ∉ name

def Pads (name part : Text) : Prop :=
  ∃ before after, Text.IsBlank before ∧ Text.IsBlank after ∧ part = before ++ name ++ after

section Parts

theorem spellable_of_mem_parts (expression part : Text) (member : part ∈ parts expression)
    (nonempty : part ≠ []) : Spellable part := by
  obtain ⟨piece, inPieces, rfl⟩ := List.mem_map.mp member
  refine ⟨nonempty, Text.trim_trim piece, ?_⟩
  intro present
  exact Text.not_mem_of_mem_splitOn plus expression piece inPieces (Text.mem_of_mem_trim piece plus present)

theorem parts_ne_nil (expression : Text) : parts expression ≠ [] := by
  rw [parts, ne_eq, List.map_eq_nil_iff]
  exact List.splitOn_ne_nil plus expression

theorem plus_not_mem_of_pads {name part : Text} (spellable : Spellable name) (pads : Pads name part) :
    plus ∉ part := by
  obtain ⟨before, after, blank_before, blank_after, rfl⟩ := pads
  have unblank : plus.isBlank = false := by decide
  have absent (t : Text) (blank : t.IsBlank) : plus ∉ t := by
    intro present
    rw [blank plus present] at unblank
    cases unblank
  simp only [List.mem_append, not_or]
  exact ⟨⟨absent before blank_before, spellable.joined⟩, absent after blank_after⟩

theorem trim_of_pads {name part : Text} (spellable : Spellable name) (pads : Pads name part) :
    Text.trim part = name := by
  obtain ⟨before, after, blank_before, blank_after, rfl⟩ := pads
  exact Text.trim_padded before name after blank_before blank_after
    ((Text.trim_eq_self_iff name).mp spellable.trimmed) spellable.nonempty

theorem parts_join (written names : List Text) (nonempty : names ≠ [])
    (pads : List.Forall₂ (fun part name => Pads name part) written names)
    (spellable : ∀ name ∈ names, Spellable name) : parts (Text.join [plus] written) = names := by
  have all : (∀ part ∈ written, plus ∉ part) ∧ written.map Text.trim = names := by
    clear nonempty
    induction pads with
    | nil => exact ⟨by simp, rfl⟩
    | cons here _ ih =>
      obtain ⟨first, rest⟩ := List.forall_mem_cons.mp spellable
      obtain ⟨apart, trimmed⟩ := ih rest
      refine ⟨List.forall_mem_cons.mpr ⟨plus_not_mem_of_pads first here, apart⟩, ?_⟩
      rw [List.map_cons, trim_of_pads first here, trimmed]
  have written_ne : written ≠ [] := by
    rintro rfl
    exact nonempty all.2.symm
  rw [parts, Text.join, List.splitOn_intercalate plus all.1 written_ne]
  exact all.2

end Parts

section Reading

variable {table : FlagTable}

theorem declared_of_names {names : List Text} {flags : List Flag}
    (named : List.Forall₂ table.Names names flags) :
    (∀ name ∈ names, table.Declares name) ∧
      ∀ flag ∈ flags, flag ∈ table.flags ∧ flag.name ∈ names := by
  induction named with
  | nil => exact ⟨by simp, by simp⟩
  | cons here _ ih =>
    obtain ⟨member, same⟩ := here
    refine ⟨List.forall_mem_cons.mpr ⟨⟨_, member, same⟩, ih.1⟩, List.forall_mem_cons.mpr ⟨?_, ?_⟩⟩
    · exact ⟨member, same ▸ List.mem_cons_self⟩
    · intro flag later
      exact (ih.2 flag later).imp_right (List.mem_cons_of_mem _)

theorem ofExpression_of_empty (expression : Text) (empty : [] ∈ parts expression) :
    table.ofExpression expression = .error (.malformedExpression expression) := by
  rw [ofExpression, if_pos]
  exact List.any_eq_true.mpr ⟨[], empty, rfl⟩

theorem ofExpression_of_nonempty (expression : Text) (nonempty : [] ∉ parts expression) :
    table.ofExpression expression = table.unionOf (parts expression) := by
  rw [ofExpression, if_neg]
  intro empty
  obtain ⟨part, member, same⟩ := List.any_eq_true.mp empty
  rw [beq_iff_eq.mp same] at member
  exact nonempty member

theorem ofExpression_of_names (order : InOrder table.flags) (expression : Text) (flags : List Flag)
    (nonempty : [] ∉ parts expression) (named : List.Forall₂ table.Names (parts expression) flags) :
    table.ofExpression expression = .ok (Combination.unions (flags.map Flag.bit)) := by
  have bits : List.Forall₂ (fun part bit => table.bitOf part = .ok bit) (parts expression)
      (flags.map Flag.bit) := by
    rw [List.forall₂_map_right_iff]
    exact named.imp fun part flag here => bitOf_of_names order here
  rw [ofExpression_of_nonempty expression nonempty]
  exact foldlM_of_read table.bitOf Combination.union _ _ bits 0

theorem ofExpression_of_unknown (order : InOrder table.flags) (expression : Text) (before : List Text)
    (name : Text) (after : List Text) (nonempty : [] ∉ parts expression)
    (split : parts expression = before ++ name :: after)
    (known : ∀ earlier ∈ before, table.Declares earlier) (unknown : ¬ table.Declares name) :
    table.ofExpression expression = .error (.unknownFlag name) := by
  rw [ofExpression_of_nonempty expression nonempty, split]
  apply foldlM_of_refused table.bitOf Combination.union before name after
  · intro earlier member
    obtain ⟨flag, here⟩ := known earlier member
    exact ⟨flag.bit, bitOf_of_names order here⟩
  · exact bitOf_of_not_declares unknown

theorem ofExpression_eq_ok (order : InOrder table.flags) (expression : Text) (c : Combination)
    (read : table.ofExpression expression = .ok c) :
    [] ∉ parts expression ∧ ∃ flags, List.Forall₂ table.Names (parts expression) flags ∧
      c = Combination.unions (flags.map Flag.bit) := by
  by_cases empty : [] ∈ parts expression
  · rw [ofExpression_of_empty expression empty] at read
    cases read
  · rcases forall_or_exists_first table.Declares (parts expression) with
      all | ⟨before, name, after, split, known, unknown⟩
    · obtain ⟨flags, named⟩ := exists_forall₂ (parts expression) all
      rw [ofExpression_of_names order expression flags empty named] at read
      cases read
      exact ⟨empty, flags, named, rfl⟩
    · rw [ofExpression_of_unknown order expression before name after empty split known unknown] at read
      cases read

end Reading

theorem ofInteger_of_bounds (table : FlagTable) (value : Value) (c : Combination)
    (whole : value.toInteger = .ok c) (lower : 0 ≤ c) (upper : c < table.limit) :
    table.ofInteger value = .ok c := by
  rw [ofInteger, whole]
  exact if_pos ⟨lower, upper⟩

theorem bounds_of_names {table : FlagTable} (order : InOrder table.flags) (names : List Text)
    (flags : List Flag) (nonempty : names ≠ []) (named : List.Forall₂ table.Names names flags) :
    1 ≤ Combination.unions (flags.map Flag.bit) ∧
      Combination.unions (flags.map Flag.bit) < table.limit := by
  have natural := unions_bits_nonneg flags
  have declared := (declared_of_names named).2
  constructor
  · rw [Combination.one_le_iff natural]
    cases named with
    | nil => exact absurd rfl nonempty
    | @cons _ flag _ others _ _ =>
      exact ⟨flag.place, (holds_unions_bits _ _).mpr ⟨flag, List.mem_cons_self, rfl⟩⟩
  · rw [limit, Combination.lt_bit_iff natural]
    intro place beyond
    rw [Bool.eq_false_iff, ne_eq, holds_unions_bits]
    rintro ⟨flag, member, rfl⟩
    exact Nat.not_lt.mpr beyond (order.place_lt (declared flag member).1)

/-- What reading an expression gives. Empty parts come before unknown names. -/
structure Reads (table : FlagTable) (expression : Text) : Prop where
  succeeds : (∃ c, table.ofExpression expression = .ok c) ↔
    ∀ part ∈ parts expression, part ≠ [] ∧ table.Declares part
  combines : ∀ flags, [] ∉ parts expression → List.Forall₂ table.Names (parts expression) flags →
    table.ofExpression expression = .ok (Combination.unions (flags.map Flag.bit))
  malformed : [] ∈ parts expression →
    table.ofExpression expression = .error (.malformedExpression expression)
  unknown : ∀ before name after, [] ∉ parts expression → parts expression = before ++ name :: after →
    (∀ earlier ∈ before, table.Declares earlier) → ¬ table.Declares name →
    table.ofExpression expression = .error (.unknownFlag name)
  valid : ∀ c, table.ofExpression expression = .ok c →
    1 ≤ c ∧ c < table.limit ∧ table.ofInteger (.integer c) = .ok c

def Lists (table : FlagTable) (c : Combination) (flags : List Flag) : Prop :=
  ∀ flag, flag ∈ flags ↔ flag ∈ table.flags ∧ c.holds flag.place = true

/-- The ways to write a combination: the names of its flags, an integer, and a number if it is one
below 2^53. -/
structure Spells (table : FlagTable) (c : Combination) : Prop where
  names : ∀ flags written, table.Lists c flags →
    List.Forall₂ (fun part flag => Pads flag.name part) written flags →
    table.ofExpression (Text.join [plus] written) = .ok c
  integer : table.ofStyle (.integer c) = .ok c
  number : c < Number.safeLimit → table.ofStyle (.number (.finite (c : Int))) = .ok c

variable {table : FlagTable}

theorem reads (order : InOrder table.flags) (expression : Text) : table.Reads expression := by
  constructor
  · constructor
    · rintro ⟨c, read⟩ part member
      obtain ⟨nonempty, flags, named, -⟩ := ofExpression_eq_ok order expression c read
      exact ⟨fun empty => nonempty (empty ▸ member), (declared_of_names named).1 part member⟩
    · intro all
      have nonempty : [] ∉ parts expression := fun empty => (all [] empty).1 rfl
      obtain ⟨flags, named⟩ := exists_forall₂ (parts expression) fun part member => (all part member).2
      exact ⟨_, ofExpression_of_names order expression flags nonempty named⟩
  · intro flags nonempty named
    exact ofExpression_of_names order expression flags nonempty named
  · exact ofExpression_of_empty expression
  · intro before name after
    exact ofExpression_of_unknown order expression before name after
  · intro c read
    obtain ⟨-, flags, named, rfl⟩ := ofExpression_eq_ok order expression c read
    obtain ⟨lower, upper⟩ := bounds_of_names order _ flags (parts_ne_nil expression) named
    exact ⟨lower, upper, ofInteger_of_bounds table _ _ rfl (unions_bits_nonneg flags) upper⟩

theorem bounds_of_ofInteger (value : Value) (c : Combination) (read : table.ofInteger value = .ok c) :
    0 ≤ c ∧ c < table.limit := by
  obtain ⟨whole, -, checked⟩ := exists_of_bind_eq_ok _ _ _ read
  split at checked
  · next bounds =>
    cases checked
    exact bounds
  · cases checked

theorem bounds_of_ofStyle (order : InOrder table.flags) (style : Value) (c : Combination)
    (read : table.ofStyle style = .ok c) : 0 ≤ c ∧ c < table.limit := by
  cases style with
  | text expression =>
    obtain ⟨lower, upper, -⟩ := (reads order expression).valid c read
    exact ⟨le_trans (by decide) lower, upper⟩
  | _ => exact bounds_of_ofInteger _ c read

theorem unions_of_lists (order : InOrder table.flags) (c : Combination) (lower : 1 ≤ c)
    (upper : c < table.limit) (flags : List Flag) (lists : table.Lists c flags) :
    Combination.unions (flags.map Flag.bit) = c := by
  have natural : 0 ≤ c := le_trans (by decide) lower
  apply Combination.eq_of_holds (unions_bits_nonneg flags) natural
  intro place
  rw [Bool.eq_iff_iff, holds_unions_bits]
  constructor
  · rintro ⟨flag, member, rfl⟩
    exact ((lists flag).mp member).2
  · intro held
    have inside : place < table.flags.length := by
      by_contra beyond
      rw [(Combination.lt_bit_iff natural _).mp upper place (Nat.not_lt.mp beyond)] at held
      cases held
    obtain ⟨flag, member, rfl⟩ := order.exists_place place inside
    exact ⟨flag, (lists flag).mpr ⟨member, held⟩, rfl⟩

theorem ofStyle_finite (c : Combination) (lower : 0 ≤ c) (upper : c < table.limit)
    (small : c < Number.safeLimit) : table.ofStyle (.number (.finite (c : Int))) = .ok c := by
  have size : c.natAbs < Number.safeLimit := by
    obtain ⟨n, rfl⟩ := Int.eq_ofNat_of_zero_le lower
    exact Int.ofNat_lt.mp small
  have whole : Value.toInteger (.number (.finite (c : Int))) = .ok c := by
    simp [Value.toInteger, Number.toSafeInt?, Number.toInt?, Number.toRat?, size]
  exact ofInteger_of_bounds table _ c whole lower upper

theorem spells (order : InOrder table.flags) (c : Combination) (lower : 1 ≤ c) (upper : c < table.limit)
    (spellable : ∀ flag ∈ table.flags, c.holds flag.place = true → Spellable flag.name) :
    table.Spells c := by
  have natural : 0 ≤ c := le_trans (by decide) lower
  refine ⟨?_, ofInteger_of_bounds table _ c rfl natural upper, ofStyle_finite c natural upper⟩
  intro flags written lists padded
  have union := unions_of_lists order c lower upper flags lists
  have named : List.Forall₂ table.Names (flags.map Flag.name) flags := by
    rw [List.forall₂_map_left_iff, List.forall₂_same]
    intro flag member
    exact ⟨((lists flag).mp member).1, rfl⟩
  have names_spellable : ∀ name ∈ flags.map Flag.name, Spellable name := by
    rw [List.forall_mem_map]
    intro flag member
    obtain ⟨declared, held⟩ := (lists flag).mp member
    exact spellable flag declared held
  have names_ne : flags.map Flag.name ≠ [] := by
    intro none
    rw [List.map_eq_nil_iff.mp none] at union
    rw [← union] at lower
    exact absurd lower (by decide)
  have read : parts (Text.join [plus] written) = flags.map Flag.name :=
    parts_join written _ names_ne (List.forall₂_map_right_iff.mpr padded) names_spellable
  rw [← union]
  apply ofExpression_of_names order
  · rw [read]
    intro empty
    exact (names_spellable [] empty).nonempty rfl
  · rw [read]
    exact named

theorem not_holds_of_not_spellable (order : InOrder table.flags) (flag : Flag)
    (member : flag ∈ table.flags) (hidden : ¬ Spellable flag.name) (expression : Text) (c : Combination)
    (read : table.ofExpression expression = .ok c) : c.holds flag.place = false := by
  obtain ⟨nonempty, flags, named, rfl⟩ := ofExpression_eq_ok order expression c read
  rw [Bool.eq_false_iff, ne_eq, holds_unions_bits]
  rintro ⟨other, inFlags, same⟩
  obtain ⟨declared, part⟩ := (declared_of_names named).2 other inFlags
  rw [order.eq_of_place declared member same] at part
  exact hidden (spellable_of_mem_parts expression _ part fun empty => nonempty (empty ▸ part))

/-- Expressions of a table that was declared. All that is read is a combination of the table, and all
combinations whose names can be written are read from them. Other names are found, but never read. -/
theorem expressions_of_ofSpecs (specs : List CategorySpec) (table : FlagTable)
    (declared : ofSpecs specs = .ok table) :
    (∀ expression, table.Reads expression) ∧
      (∀ c, 1 ≤ c → c < table.limit →
        (∀ flag ∈ table.flags, c.holds flag.place = true → Spellable flag.name) → table.Spells c) ∧
      ∀ flag ∈ table.flags,
        flag.name = [] ∨ Text.trim flag.name ≠ flag.name ∨ plus ∈ flag.name →
        table.bitOf flag.name = .ok flag.bit ∧
          ∀ expression c, table.ofExpression expression = .ok c → c.holds flag.place = false := by
  have order := inOrder_of_ofSpecs specs table declared
  refine ⟨reads order, spells order, ?_⟩
  intro flag member odd
  have hidden : ¬ Spellable flag.name := by
    intro spellable
    rcases odd with empty | padded | joined
    · exact spellable.nonempty empty
    · exact padded spellable.trimmed
    · exact spellable.joined joined
  exact ⟨bitOf_of_names order ⟨member, rfl⟩, not_holds_of_not_spellable order flag member hidden⟩

/-- An empty part after an unknown name, names in another order with blanks, and a name that begins with
a blank. -/
theorem expressions_of_ofSpecs_padded :
    let a : Flag := ⟨"a", .ofNat 1, 0⟩
    let b : Flag := ⟨" b", .ofNat 2, 1⟩
    let c : Flag := ⟨"c", .ofNat 3, 2⟩
    let table : FlagTable := ⟨[⟨"look", [a, b, c]⟩]⟩
    ofSpecs [⟨"look", [⟨a.name, a.code⟩, ⟨b.name, b.code⟩, ⟨c.name, c.code⟩]⟩] = .ok table ∧
      table.ofExpression "x++a" = .error (.malformedExpression "x++a") ∧
      (1 ≤ (5 : Combination) ∧ 5 < table.limit ∧
        (∀ flag ∈ table.flags, Combination.holds 5 flag.place = true → Spellable flag.name)) ∧
      table.ofExpression "c+ a\t+c" = .ok 5 ∧
      Text.trim b.name ≠ b.name ∧ table.bitOf " b" = .ok 2 ∧
      ∀ expression c, table.ofExpression expression = .ok c → c.holds 1 = false := by
  intro a b c table
  have declared : ofSpecs [⟨"look", [⟨a.name, a.code⟩, ⟨b.name, b.code⟩, ⟨c.name, c.code⟩]⟩] =
      .ok table := rfl
  have all := expressions_of_ofSpecs _ table declared
  have spellable : ∀ flag ∈ table.flags, Combination.holds 5 flag.place = true → Spellable flag.name := by
    intro flag member held
    have which : flag = a ∨ flag = b ∨ flag = c := by simpa [FlagTable.flags, table] using member
    rcases which with rfl | rfl | rfl
    · exact ⟨by decide, by decide, by decide⟩
    · exact absurd held (by decide)
    · exact ⟨by decide, by decide, by decide⟩
  have lists : table.Lists 5 [c, a, c] := by
    intro flag
    constructor
    · intro member
      have which : flag = c ∨ flag = a ∨ flag = c := by simpa using member
      rcases which with rfl | rfl | rfl
      all_goals exact ⟨by simp [FlagTable.flags, table], by decide⟩
    · rintro ⟨member, held⟩
      have which : flag = a ∨ flag = b ∨ flag = c := by simpa [FlagTable.flags, table] using member
      rcases which with rfl | rfl | rfl
      · simp
      · exact absurd held (by decide)
      · simp
  have written : List.Forall₂ (fun part (flag : Flag) => Pads flag.name part)
      [Text.ofString "c", Text.ofString " a\t", Text.ofString "c"] [c, a, c] := by
    have bare : Pads c.name (Text.ofString "c") := ⟨[], [], by decide, by decide, rfl⟩
    exact .cons bare (.cons ⟨" ", "\t", by decide, by decide, rfl⟩ (.cons bare .nil))
  have padded := (all.2.1 5 (by decide) (by decide) spellable).names _ _ lists written
  have outer : Text.trim b.name ≠ b.name := by decide
  have found := all.2.2 b (by simp [FlagTable.flags, table]) (.inr (.inl outer))
  exact ⟨declared, (all.1 "x++a").malformed (by decide), ⟨by decide, by decide, spellable⟩, padded, outer,
    found⟩

end FlagTable

end AnsiMarkup
