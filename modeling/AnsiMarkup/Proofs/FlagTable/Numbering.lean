import AnsiMarkup.FlagTable
import AnsiMarkup.Proofs.Except.Folds
import Mathlib.Data.List.Induction
import Mathlib.Data.List.Nodup

namespace AnsiMarkup

def Number.key : Number → Number
  | .negZero => .finite 0
  | number => number

theorem Number.sameKey_iff (a b : Number) : a.sameKey b = true ↔ a.key = b.key := by
  have zero (n : Number) : n.toRat? = some 0 ↔ n.key = .finite 0 := by
    cases n <;> simp [toRat?, key]
  rw [sameKey, Bool.or_eq_true, Bool.and_eq_true, beq_iff_eq, beq_iff_eq, beq_iff_eq, zero, zero]
  constructor
  · intro same
    rcases same with same | ⟨first, second⟩
    · rw [same]
    · rw [first, second]
  · intro same
    cases a <;> cases b <;> simp_all [key]

def Flag.spec (flag : Flag) : FlagSpec := ⟨flag.name, flag.code⟩

def Category.spec (category : Category) : CategorySpec :=
  ⟨category.name, category.flags.map Flag.spec⟩

namespace FlagTable

def declaredFlags (specs : List CategorySpec) : List FlagSpec := specs.flatMap CategorySpec.flags

def numbered (first : Nat) : List FlagSpec → List Flag
  | [] => []
  | spec :: rest => ⟨spec.name, spec.code, first⟩ :: numbered (first + 1) rest

structure Distinct (specs : List FlagSpec) : Prop where
  names : (specs.map FlagSpec.name).Nodup
  codes : (specs.map fun spec => spec.code.key).Nodup

/-- What a flag repeats of those before it. A repeated code is told of a flag with a new name only. -/
inductive Repeats (before : List FlagSpec) (spec : FlagSpec) : Error → Prop
  | name (known : spec.name ∈ before.map FlagSpec.name) :
      Repeats before spec (.duplicateFlag spec.name)
  | code (fresh : spec.name ∉ before.map FlagSpec.name)
      (known : spec.code.key ∈ before.map fun spec => spec.code.key) :
      Repeats before spec (.duplicateCode spec.code spec.name)

inductive FirstRepeat : List FlagSpec → Error → Prop
  | intro (before : List FlagSpec) (spec : FlagSpec) (after : List FlagSpec) (error : Error)
      (distinct : Distinct before) (repeats : Repeats before spec error) :
      FirstRepeat (before ++ spec :: after) error

section Lists

theorem length_numbered (first : Nat) (specs : List FlagSpec) :
    (numbered first specs).length = specs.length := by
  induction specs generalizing first with
  | nil => rfl
  | cons spec rest ih => rw [numbered, List.length_cons, ih, List.length_cons]

theorem map_spec_numbered (first : Nat) (specs : List FlagSpec) :
    (numbered first specs).map Flag.spec = specs := by
  induction specs generalizing first with
  | nil => rfl
  | cons spec rest ih =>
    rw [numbered, List.map_cons, ih]
    rfl

theorem map_numbered {α : Type} (f : FlagSpec → α) (first : Nat) (specs : List FlagSpec) :
    (numbered first specs).map (fun flag => f flag.spec) = specs.map f := by
  calc
    (numbered first specs).map (fun flag => f flag.spec)
      = ((numbered first specs).map Flag.spec).map f := List.map_map.symm
    _ = specs.map f := by rw [map_spec_numbered]

theorem map_place_numbered (first : Nat) (specs : List FlagSpec) :
    (numbered first specs).map Flag.place = List.range' first specs.length := by
  induction specs generalizing first with
  | nil => rfl
  | cons spec rest ih => rw [numbered, List.map_cons, ih, List.length_cons, List.range'_succ]

theorem numbered_eq_zipIdx (first : Nat) (specs : List FlagSpec) :
    numbered first specs =
      (specs.zipIdx first).map fun entry => ⟨entry.1.name, entry.1.code, entry.2⟩ := by
  induction specs generalizing first with
  | nil => rfl
  | cons spec rest ih => rw [numbered, ih, List.zipIdx_cons, List.map_cons]

theorem numbered_concat (first : Nat) (before : List FlagSpec) (spec : FlagSpec) :
    numbered first (before ++ [spec]) =
      numbered first before ++ [⟨spec.name, spec.code, first + before.length⟩] := by
  induction before generalizing first with
  | nil => rfl
  | cons other before ih =>
    rw [List.cons_append, numbered, ih, numbered, List.cons_append, List.length_cons,
      Nat.add_right_comm, Nat.add_assoc]

theorem getElem?_numbered (first : Nat) (specs : List FlagSpec) (i : Nat) :
    (numbered first specs)[i]? = specs[i]?.map fun spec => ⟨spec.name, spec.code, first + i⟩ := by
  induction specs generalizing first i with
  | nil => rfl
  | cons spec rest ih =>
    cases i with
    | zero => rfl
    | succ i =>
      rw [numbered, List.getElem?_cons_succ, ih, List.getElem?_cons_succ, Nat.add_assoc,
        Nat.add_comm 1 i]

theorem mem_numbered_iff (specs : List FlagSpec) (flag : Flag) :
    flag ∈ numbered 0 specs ↔
      ∃ i spec, specs[i]? = some spec ∧ (⟨spec.name, spec.code, i⟩ : Flag) = flag := by
  simp only [List.mem_iff_getElem?, getElem?_numbered, Option.map_eq_some_iff, Nat.zero_add]

variable {before : List FlagSpec} {spec : FlagSpec} {error : Error}

theorem Repeats.kind_eq (repeats : Repeats before spec error) : error.kind = .flag := by
  cases repeats <;> rfl

theorem distinct_nil : Distinct [] := ⟨List.nodup_nil, List.nodup_nil⟩

theorem Distinct.of_append {front back : List FlagSpec} (distinct : Distinct (front ++ back)) :
    Distinct front := by
  constructor
  · have names := distinct.names
    rw [List.map_append] at names
    exact names.of_append_left
  · have codes := distinct.codes
    rw [List.map_append] at codes
    exact codes.of_append_left

theorem distinct_concat_iff (before : List FlagSpec) (spec : FlagSpec) :
    Distinct (before ++ [spec]) ↔
      Distinct before ∧ spec.name ∉ before.map FlagSpec.name ∧
        spec.code.key ∉ before.map fun spec => spec.code.key := by
  constructor
  · intro distinct
    have names := distinct.names
    have codes := distinct.codes
    rw [List.map_append, List.map_singleton, ← List.concat_eq_append, List.nodup_concat] at names codes
    exact ⟨⟨names.2, codes.2⟩, names.1, codes.1⟩
  · intro ⟨distinct, name, code⟩
    constructor
    · rw [List.map_append, List.map_singleton, ← List.concat_eq_append, List.nodup_concat]
      exact ⟨name, distinct.names⟩
    · rw [List.map_append, List.map_singleton, ← List.concat_eq_append, List.nodup_concat]
      exact ⟨code, distinct.codes⟩

theorem Repeats.not_distinct (repeats : Repeats before spec error) : ¬Distinct (before ++ [spec]) := by
  rw [distinct_concat_iff]
  intro ⟨_, new_name, new_code⟩
  cases repeats with
  | name known => exact new_name known
  | code _ known => exact new_code known

theorem FirstRepeat.kind_eq {specs : List FlagSpec} (first : FirstRepeat specs error) :
    error.kind = .flag := by
  cases first with
  | intro _ _ _ _ _ repeats => exact repeats.kind_eq

theorem FirstRepeat.not_distinct {specs : List FlagSpec} (first : FirstRepeat specs error) :
    ¬Distinct specs := by
  cases first with
  | intro before spec after _ _ repeats =>
    intro distinct
    rw [List.append_cons] at distinct
    exact repeats.not_distinct distinct.of_append

theorem distinct_or_firstRepeat (specs : List FlagSpec) :
    Distinct specs ∨ ∃ error, FirstRepeat specs error := by
  induction specs using List.reverseRecOn with
  | nil => exact .inl distinct_nil
  | append_singleton before spec ih =>
    rcases ih with distinct | ⟨error, first⟩
    · by_cases name : spec.name ∈ before.map FlagSpec.name
      · exact .inr ⟨_, .intro before spec [] _ distinct (.name name)⟩
      · by_cases code : spec.code.key ∈ before.map fun spec => spec.code.key
        · exact .inr ⟨_, .intro before spec [] _ distinct (.code name code)⟩
        · exact .inl ((distinct_concat_iff before spec).mpr ⟨distinct, name, code⟩)
    · -- A repeat among the flags before stays the first one.
      cases first with
      | intro earlier repeated after _ distinct repeats =>
        rw [List.append_assoc, List.cons_append]
        exact .inr ⟨error, .intro earlier repeated _ error distinct repeats⟩

end Lists

section Declaring

variable {before : List FlagSpec} {spec : FlagSpec} {error : Error}

theorem any_name_iff (before : List FlagSpec) (spec : FlagSpec) :
    (numbered 0 before).any (fun flag => flag.name == spec.name) = true ↔
      spec.name ∈ before.map FlagSpec.name := by
  rw [← map_numbered FlagSpec.name 0, List.any_eq_true, List.mem_map]
  simp only [beq_iff_eq, Flag.spec]

theorem any_code_iff (before : List FlagSpec) (spec : FlagSpec) :
    (numbered 0 before).any (fun flag => flag.code.sameKey spec.code) = true ↔
      spec.code.key ∈ before.map fun spec => spec.code.key := by
  rw [← map_numbered (fun spec => spec.code.key) 0, List.any_eq_true, List.mem_map]
  simp only [Number.sameKey_iff, Flag.spec]

theorem declareFlag_of_distinct (distinct : Distinct (before ++ [spec])) :
    declareFlag (numbered 0 before) spec = .ok ⟨spec.name, spec.code, before.length⟩ := by
  have fresh := (distinct_concat_iff before spec).mp distinct
  rw [declareFlag, if_neg ((any_name_iff before spec).not.mpr fresh.2.1),
    if_neg ((any_code_iff before spec).not.mpr fresh.2.2), length_numbered]

theorem declareFlag_of_repeats (repeats : Repeats before spec error) :
    declareFlag (numbered 0 before) spec = .error error := by
  cases repeats with
  | name known => rw [declareFlag, if_pos ((any_name_iff before spec).mpr known)]
  | code fresh known =>
    rw [declareFlag, if_neg ((any_name_iff before spec).not.mpr fresh),
      if_pos ((any_code_iff before spec).mpr known)]

theorem declareFlags_cons (distinct : Distinct (before ++ [spec])) (rest : List FlagSpec) :
    declareFlags (numbered 0 before) (spec :: rest) =
      (declareFlags (numbered 0 (before ++ [spec])) rest).map
        (⟨spec.name, spec.code, before.length⟩ :: ·) := by
  rw [declareFlags, declareFlag_of_distinct distinct, numbered_concat, Nat.zero_add]
  rfl

theorem declareFlags_of_distinct (before specs : List FlagSpec)
    (distinct : Distinct (before ++ specs)) :
    declareFlags (numbered 0 before) specs = .ok (numbered before.length specs) := by
  -- The flags seen so far are numbered from zero, so the next number is how many there are.
  induction specs generalizing before with
  | nil => rfl
  | cons spec rest ih =>
    rw [List.append_cons] at distinct
    rw [declareFlags_cons distinct.of_append, ih _ distinct, List.length_append]
    rfl

theorem declareFlags_of_repeats (before front after : List FlagSpec)
    (distinct : Distinct (before ++ front)) (repeats : Repeats (before ++ front) spec error) :
    declareFlags (numbered 0 before) (front ++ spec :: after) = .error error := by
  induction front generalizing before with
  | nil =>
    rw [List.append_nil] at repeats
    rw [List.nil_append, declareFlags, declareFlag_of_repeats repeats]
    rfl
  | cons first front ih =>
    rw [List.append_cons] at distinct repeats
    rw [List.cons_append, declareFlags_cons distinct.of_append, ih _ distinct repeats]
    rfl

theorem Distinct.declareFlags_eq {specs : List FlagSpec} (distinct : Distinct specs) :
    declareFlags [] specs = .ok (numbered 0 specs) := declareFlags_of_distinct [] specs distinct

theorem FirstRepeat.declareFlags_eq {specs : List FlagSpec} (first : FirstRepeat specs error) :
    declareFlags [] specs = .error error := by
  cases first with
  | intro before spec after _ distinct repeats =>
    exact declareFlags_of_repeats [] before after distinct repeats

theorem declareFlags_append (seen : List Flag) (front back : List FlagSpec) :
    declareFlags seen (front ++ back) =
      (declareFlags seen front).bind fun flags =>
        (declareFlags (seen ++ flags) back).map (flags ++ ·) := by
  induction front generalizing seen with
  | nil =>
    rw [List.nil_append, declareFlags, Except.bind, List.append_nil]
    cases declareFlags seen back <;> rfl
  | cons spec front ih =>
    rw [List.cons_append, declareFlags, declareFlags]
    cases declareFlag seen spec with
    | error error => rfl
    | ok flag =>
      change (declareFlags (seen ++ [flag]) (front ++ back)).bind _ = _
      rw [ih]
      change _ = ((declareFlags (seen ++ [flag]) front).bind _).bind _
      cases declareFlags (seen ++ [flag]) front with
      | error error => rfl
      | ok flags =>
        change ((declareFlags (seen ++ [flag] ++ flags) back).map _).bind _ =
          (declareFlags (seen ++ flag :: flags) back).map _
        rw [List.append_cons seen flag flags]
        cases declareFlags (seen ++ [flag] ++ flags) back <;> rfl

/-- It does not matter how the flags are divided into categories. -/
theorem map_flags_declareCategories (seen : List Flag) (specs : List CategorySpec) :
    (declareCategories seen specs).map (List.flatMap Category.flags) =
      declareFlags seen (declaredFlags specs) := by
  induction specs generalizing seen with
  | nil => rfl
  | cons spec rest ih =>
    rw [declaredFlags, List.flatMap_cons, declareFlags_append, declareCategories]
    cases declareFlags seen spec.flags with
    | error error => rfl
    | ok flags =>
      calc
        ((declareCategories (seen ++ flags) rest).bind fun categories =>
            .ok (⟨spec.name, flags⟩ :: categories)).map (List.flatMap Category.flags)
          = ((declareCategories (seen ++ flags) rest).map (List.flatMap Category.flags)).map
              (flags ++ ·) := by
            cases declareCategories (seen ++ flags) rest <;> rfl
        _ = (declareFlags (seen ++ flags) (declaredFlags rest)).map (flags ++ ·) := by rw [ih]

theorem map_spec_declareFlags (seen : List Flag) (specs : List FlagSpec) (flags : List Flag)
    (declared : declareFlags seen specs = .ok flags) : flags.map Flag.spec = specs := by
  induction specs generalizing seen flags with
  | nil =>
    cases declared
    rfl
  | cons spec rest ih =>
    rcases exists_of_bind_eq_ok _ _ _ declared with ⟨flag, first, declared⟩
    rcases exists_of_bind_eq_ok _ _ _ declared with ⟨others, later, done⟩
    cases done
    have same : flag.spec = spec := by
      rw [declareFlag] at first
      split at first
      · cases first
      · split at first
        · cases first
        · cases first
          rfl
    rw [List.map_cons, same, ih _ _ later]

theorem map_spec_declareCategories (seen : List Flag) (specs : List CategorySpec)
    (categories : List Category) (declared : declareCategories seen specs = .ok categories) :
    categories.map Category.spec = specs := by
  induction specs generalizing seen categories with
  | nil =>
    cases declared
    rfl
  | cons spec rest ih =>
    rcases exists_of_bind_eq_ok _ _ _ declared with ⟨flags, first, declared⟩
    rcases exists_of_bind_eq_ok _ _ _ declared with ⟨others, later, done⟩
    cases done
    rw [List.map_cons, ih _ _ later, Category.spec, map_spec_declareFlags _ _ _ first]

end Declaring

section Tables

variable {specs : List CategorySpec} {table : FlagTable} {error : Error}

theorem map_spec_ofSpecs (declared : ofSpecs specs = .ok table) :
    table.categories.map Category.spec = specs := by
  rcases exists_of_bind_eq_ok _ _ _ declared with ⟨categories, all, done⟩
  cases done
  exact map_spec_declareCategories [] specs categories all

theorem map_flags_ofSpecs (specs : List CategorySpec) :
    (ofSpecs specs).map flags = declareFlags [] (declaredFlags specs) := by
  rw [← map_flags_declareCategories, ofSpecs]
  cases declareCategories [] specs <;> rfl

theorem ofSpecs_of_firstRepeat (first : FirstRepeat (declaredFlags specs) error) :
    ofSpecs specs = .error error := by
  apply eq_error_of_map_eq_error _ flags
  rw [map_flags_ofSpecs, first.declareFlags_eq]

theorem firstRepeat_of_ofSpecs (failed : ofSpecs specs = .error error) :
    FirstRepeat (declaredFlags specs) error := by
  rcases distinct_or_firstRepeat (declaredFlags specs) with distinct | ⟨cause, first⟩
  · have flat := map_flags_ofSpecs specs
    rw [failed, distinct.declareFlags_eq] at flat
    cases flat
  · rw [ofSpecs_of_firstRepeat first] at failed
    rwa [← Except.error.inj failed]

theorem flags_of_ofSpecs (declared : ofSpecs specs = .ok table) :
    Distinct (declaredFlags specs) ∧ table.flags = numbered 0 (declaredFlags specs) := by
  rcases distinct_or_firstRepeat (declaredFlags specs) with distinct | ⟨error, first⟩
  · have all := map_flags_ofSpecs specs
    rw [declared, distinct.declareFlags_eq] at all
    exact ⟨distinct, Except.ok.inj all⟩
  · rw [ofSpecs_of_firstRepeat first] at declared
    cases declared

end Tables

end FlagTable

end AnsiMarkup
