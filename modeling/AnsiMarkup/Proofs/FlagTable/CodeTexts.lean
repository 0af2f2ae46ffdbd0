import AnsiMarkup.Proofs.FlagTable.Bits
import AnsiMarkup.Proofs.FlagTable.Codes

/-! Code texts as lists of codes, from which the combination can be told. -/

namespace AnsiMarkup

namespace Number

def IsSafeInteger (number : Number) : Prop := number.toSafeInt?.isSome = true

instance (number : Number) : Decidable number.IsSafeInteger := inferInstanceAs (Decidable (_ = true))

theorem key_of_toInt? {number : Number} {i : Int} (whole : number.toInt? = some i) :
    number.key = .finite i := by
  cases number with
  | negZero =>
    cases whole
    rfl
  | finite q =>
    have parts : q.den = 1 ∧ q.num = i := by simpa [toInt?, toRat?] using whole
    calc
      (finite q).key = .finite (q.num : ℚ) :=
        congrArg finite (Rat.coe_int_num_of_den_eq_one parts.1).symm
      _ = .finite i := by rw [parts.2]
  | _ => cases whole

theorem IsSafeInteger.exists_int {number : Number} (safe : number.IsSafeInteger) :
    ∃ i : Int, i.natAbs < safeLimit ∧ number.toText = Text.ofInt i ∧ number.key = .finite i := by
  rcases Option.isSome_iff_exists.mp safe with ⟨i, found⟩
  have text : number.toText = Text.ofInt i := by
    unfold toText
    rw [found]
  cases whole : number.toInt? with
  | none =>
    rw [toSafeInt?, whole] at found
    cases found
  | some j =>
    have parts : j.natAbs < safeLimit ∧ j = i := by simpa [toSafeInt?, whole] using found
    exact ⟨i, parts.2 ▸ parts.1, text, parts.2 ▸ key_of_toInt? whole⟩

theorem IsSafeInteger.ofIntegerText_toText {number : Number} (safe : number.IsSafeInteger) :
    ofIntegerText number.toText = number.key := by
  rcases safe.exists_int with ⟨i, small, text, key⟩
  rw [text, key]
  exact ofIntegerText_ofInt i small

theorem IsSafeInteger.semicolon_not_mem {number : Number} (safe : number.IsSafeInteger) :
    Terminal.semicolon ∉ number.toText := by
  rcases safe.exists_int with ⟨i, -, text, -⟩
  rw [text]
  have digits (n : Nat) : Terminal.semicolon ∉ Text.ofNat n := Text.not_mem_ofNat n _ rfl
  cases i with
  | ofNat n => exact digits n
  | negSucc n =>
    rw [Text.ofInt, List.mem_append, not_or]
    exact ⟨by decide, digits (n + 1)⟩

theorem IsSafeInteger.toText_ne_nil {number : Number} (safe : number.IsSafeInteger) : number.toText ≠ [] := by
  rcases safe.exists_int with ⟨i, -, text, -⟩
  rw [text]
  cases i with
  | ofNat n => exact Text.ofNat_ne_nil n
  | negSucc n => exact List.cons_ne_nil _ _

end Number

namespace FlagTable

/-- The parts of a code text between semicolons. A text that is empty has none. -/
def codeParts (text : Text) : List Text :=
  if text = [] then [] else text.splitOn Terminal.semicolon

def selected (specs : List CategorySpec) (c : Int) : List FlagSpec :=
  ((declaredFlags specs).zipIdx.filter fun entry => c / 2 ^ entry.2 % 2 = 1).map Prod.fst

structure ListsCodes (specs : List CategorySpec) (c : Combination) (text : Text) : Prop where
  parts : codeParts text = (selected specs c).map fun spec => spec.code.toText
  numbers : (codeParts text).map Number.ofIntegerText = (selected specs c).map fun spec => spec.code.key
  once : (codeParts text).Nodup
  none : selected specs c = [] → text = []

structure Legible (table : FlagTable) : Prop where
  safe : ∀ flag ∈ table.flags, flag.code.IsSafeInteger
  texts : (table.flags.map fun flag => flag.code.toText).Nodup

section

variable {specs : List CategorySpec} {table : FlagTable}

theorem legible_of_ofSpecs (declared : ofSpecs specs = .ok table)
    (safe : ∀ spec ∈ declaredFlags specs, spec.code.IsSafeInteger) : table.Legible := by
  have flags := flags_of_ofSpecs declared
  have each : ∀ flag ∈ table.flags, flag.code.IsSafeInteger := by
    intro flag member
    apply safe flag.spec
    rw [← map_spec_numbered 0 (declaredFlags specs), ← flags.2]
    exact List.mem_map_of_mem member
  refine ⟨each, ?_⟩
  apply List.Nodup.of_map Number.ofIntegerText
  have keys : (table.flags.map fun flag => flag.code.toText).map Number.ofIntegerText =
      (declaredFlags specs).map fun spec => spec.code.key := by
    calc
      _ = table.flags.map fun flag => flag.code.key := by
        rw [List.map_map]
        exact List.map_congr_left fun flag member => (each flag member).ofIntegerText_toText
      _ = (declaredFlags specs).map fun spec => spec.code.key := by
        rw [flags.2]
        exact map_numbered (fun spec => spec.code.key) 0 (declaredFlags specs)
  rw [keys]
  exact flags.1.codes

theorem codes_of_ofSpecs (declared : ofSpecs specs = .ok table) (c : Combination) :
    table.codes c = (selected specs c).map FlagSpec.code := by
  have numbered : table.flags =
      (declaredFlags specs).zipIdx.map fun entry => ⟨entry.1.name, entry.1.code, entry.2⟩ := by
    rw [(flags_of_ofSpecs declared).2, numbered_eq_zipIdx]
  rw [codes, numbered, List.filter_map, List.map_map, selected, List.map_map]
  congr 1
  apply List.filter_congr
  intro entry _
  rw [Function.comp_apply, Bool.eq_iff_iff, Combination.holds_iff, decide_eq_true_iff]

theorem Legible.isSafeInteger_of_mem_codes (legible : table.Legible) (c : Combination) :
    ∀ code ∈ table.codes c, code.IsSafeInteger := by
  intro code member
  rcases List.mem_map.mp member with ⟨flag, held, rfl⟩
  exact legible.safe flag (List.mem_of_mem_filter held)

theorem Legible.codeParts_codeText (legible : table.Legible) (c : Combination) :
    codeParts (table.codeText c) = (table.codes c).map Number.toText := by
  by_cases none : table.codes c = []
  · rw [codeText, none]
    rfl
  · have split := splitOn_codeText c none fun code member =>
      (legible.isSafeInteger_of_mem_codes c code member).semicolon_not_mem
    rw [codeParts, if_neg, split]
    intro empty
    rw [empty, List.splitOn_nil] at split
    have blank : [] ∈ (table.codes c).map Number.toText := split ▸ List.mem_singleton_self []
    rcases List.mem_map.mp blank with ⟨code, member, text⟩
    exact (legible.isSafeInteger_of_mem_codes c code member).toText_ne_nil text

theorem Legible.mem_codeParts_iff (legible : table.Legible) (c : Combination) (text : Text) :
    text ∈ codeParts (table.codeText c) ↔
      ∃ flag ∈ table.flags, c.holds flag.place = true ∧ flag.code.toText = text := by
  rw [legible.codeParts_codeText, codes, List.map_map, List.mem_map]
  simp only [List.mem_filter, Function.comp_apply, and_assoc]

theorem Legible.toText_mem_codeParts_iff (legible : table.Legible) (c : Combination) (flag : Flag)
    (member : flag ∈ table.flags) :
    flag.code.toText ∈ codeParts (table.codeText c) ↔ c.holds flag.place = true := by
  rw [legible.mem_codeParts_iff]
  constructor
  · intro ⟨other, other_member, held, same⟩
    rwa [List.inj_on_of_nodup_map legible.texts other_member member same] at held
  · intro held
    exact ⟨flag, member, held, rfl⟩

theorem listsCodes_of_ofSpecs (declared : ofSpecs specs = .ok table) (legible : table.Legible)
    (c : Combination) : ListsCodes specs c (table.codeText c) := by
  have parts := legible.codeParts_codeText c
  have codes := codes_of_ofSpecs declared c
  constructor
  · rw [parts, codes, List.map_map]
    rfl
  · calc
      _ = (table.codes c).map fun code => code.key := by
        rw [parts, List.map_map]
        exact List.map_congr_left fun code member =>
          (legible.isSafeInteger_of_mem_codes c code member).ofIntegerText_toText
      _ = (selected specs c).map fun spec => spec.code.key := by
        rw [codes, List.map_map]
        rfl
  · rw [parts, FlagTable.codes, List.map_map]
    exact legible.texts.sublist (List.filter_sublist.map _)
  · intro none
    rw [codeText, codes, none]
    rfl

theorem codeText_emod (order : InOrder table.flags) (c : Combination) :
    table.codeText c = table.codeText (c % table.limit) := by
  have same : table.codes c = table.codes (c % table.limit) := by
    rw [codes, codes]
    congr 1
    apply List.filter_congr
    intro flag member
    rw [limit, Combination.bit_eq]
    exact (Combination.holds_emod c _ flag.place (order.place_lt member)).symm
  rw [codeText, codeText, same]

theorem eq_of_codeText (order : InOrder table.flags) (legible : table.Legible) (a b : Combination)
    (first : 0 ≤ a ∧ a < table.limit) (second : 0 ≤ b ∧ b < table.limit)
    (same : table.codeText a = table.codeText b) : a = b := by
  apply Combination.eq_of_holds first.1 second.1
  intro place
  by_cases inside : place < table.flags.length
  · rcases order.exists_place place inside with ⟨flag, member, rfl⟩
    rw [Bool.eq_iff_iff, ← legible.toText_mem_codeParts_iff a flag member,
      ← legible.toText_mem_codeParts_iff b flag member, same]
  · -- Both are below the limit, so they hold no place from the number of flags on.
    have beyond := Nat.not_lt.mp inside
    rw [(Combination.lt_bit_iff first.1 _).mp first.2 place beyond,
      (Combination.lt_bit_iff second.1 _).mp second.2 place beyond]

theorem toFinset_codeParts_union (legible : table.Legible) (a b : Combination) :
    (codeParts (table.codeText (a.union b))).toFinset =
      (codeParts (table.codeText a)).toFinset ∪ (codeParts (table.codeText b)).toFinset := by
  ext text
  simp only [Finset.mem_union, List.mem_toFinset, legible.mem_codeParts_iff, Combination.holds_union,
    Bool.or_eq_true]
  constructor
  · intro ⟨flag, member, held, same⟩
    rcases held with held | held
    · exact .inl ⟨flag, member, held, same⟩
    · exact .inr ⟨flag, member, held, same⟩
  · intro held
    rcases held with ⟨flag, member, held, same⟩ | ⟨flag, member, held, same⟩
    · exact ⟨flag, member, .inl held, same⟩
    · exact ⟨flag, member, .inr held, same⟩

/-- The code text of an integer lists the codes of its flags in the order of declaration, and depends on
the integer below the limit only. There it tells the combination, and the codes of a union are those of
its two parts. -/
theorem codeTexts_of_ofSpecs (specs : List CategorySpec) (table : FlagTable)
    (declared : ofSpecs specs = .ok table) (safe : ∀ spec ∈ declaredFlags specs, spec.code.IsSafeInteger) :
    (∀ c, ListsCodes specs c (table.codeText c)) ∧
      (∀ c, table.codeText c = table.codeText (c % table.limit)) ∧
      (∀ a b, 0 ≤ a ∧ a < table.limit → 0 ≤ b ∧ b < table.limit →
        table.codeText a = table.codeText b → a = b) ∧
      ∀ a b, (codeParts (table.codeText (a.union b))).toFinset =
        (codeParts (table.codeText a)).toFinset ∪ (codeParts (table.codeText b)).toFinset := by
  have order := inOrder_of_ofSpecs specs table declared
  have legible := legible_of_ofSpecs declared safe
  exact ⟨listsCodes_of_ofSpecs declared legible, codeText_emod order, eq_of_codeText order legible,
    toFinset_codeParts_union legible⟩

end

/-- Three flags in two categories. The integer below zero has all bits but the first. -/
theorem codeTexts_of_ofSpecs_negative :
    let specs : List CategorySpec :=
      [⟨"look", [⟨"a", .finite 31⟩, ⟨"b", .negZero⟩]⟩, ⟨"fill", [⟨"c", .finite (-5)⟩]⟩]
    let table : FlagTable :=
      ⟨[⟨"look", [⟨"a", .finite 31, 0⟩, ⟨"b", .negZero, 1⟩]⟩, ⟨"fill", [⟨"c", .finite (-5), 2⟩]⟩]⟩
    ofSpecs specs = .ok table ∧ (∀ spec ∈ declaredFlags specs, spec.code.IsSafeInteger) ∧
      table.codeText (-2) = "0;-5" ∧ ListsCodes specs (-2) "0;-5" ∧ table.codeText 6 = "0;-5" ∧
      (∀ c, 0 ≤ c ∧ c < table.limit → table.codeText c = "0;-5" → c = 6) ∧
      (codeParts (table.codeText 7)).toFinset =
        (codeParts (table.codeText 6)).toFinset ∪ (codeParts (table.codeText 1)).toFinset := by
  intro specs table
  have declared : ofSpecs specs = .ok table := rfl
  have safe : ∀ spec ∈ declaredFlags specs, spec.code.IsSafeInteger := by decide
  have text : table.codeText (-2) = "0;-5" := by decide
  rcases codeTexts_of_ofSpecs specs table declared safe with ⟨lists, below, injective, union⟩
  have six : table.codeText 6 = "0;-5" := (below (-2)).symm.trans text
  refine ⟨declared, safe, text, text ▸ lists (-2), six, ?_, union 6 1⟩
  intro c inside same
  exact injective c 6 inside (by decide) (same.trans six.symm)

end FlagTable

end AnsiMarkup
