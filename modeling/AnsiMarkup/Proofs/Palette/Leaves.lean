import AnsiMarkup.Palette
import AnsiMarkup.Proofs.FlagTable.Expressions
import AnsiMarkup.Proofs.Record.Assignments

/-! Palettes as folds over the leaves of their inputs. How leaves are nested in lists is out of sight. -/

namespace AnsiMarkup

inductive StyleLeaf
  | slot (style : Value)
  | entry (key style : Value)
  | other (value : Value)

inductive Styling
  | slot (c : Combination)
  | entry (texts : List Text) (c : Combination)

namespace Styling

def combination : Styling → Combination
  | .slot c | .entry _ c => c

def slot? : Styling → Option Combination
  | .slot c => some c
  | .entry _ _ => none

def styleFor? (text : Text) : Styling → Option Combination
  | .slot _ => none
  | .entry texts c => if text ∈ texts then some c else none

end Styling

namespace StyleLeaf

mutual

/-- The leaves of an input from left to right; a mapping stands for its entries. -/
def ofInput : Value → List StyleLeaf
  | .text t => [.slot (.text t)]
  | .number n => [.slot (.number n)]
  | .integer i => [.slot (.integer i)]
  | .list items => ofInputs items
  | .mapping entries => entries.map fun entry => .entry entry.1 entry.2
  | .record entries => entries.map fun entry => .entry (.text entry.1) entry.2
  | .absent => [.other .absent]
  | .null => [.other .null]
  | .bool b => [.other (.bool b)]

def ofInputs : List Value → List StyleLeaf
  | [] => []
  | input :: rest => ofInput input ++ ofInputs rest

end

def read (table : FlagTable) : StyleLeaf → Except Error Styling
  | .slot style => (table.ofStyle style).map .slot
  | .entry key style =>
    (Palette.keyTexts key).bind fun texts => (table.ofStyle style).map (.entry texts)
  | .other value => .error (.notAStyle value.toText)

theorem ofInputs_append (front back : List Value) :
    ofInputs (front ++ back) = ofInputs front ++ ofInputs back := by
  induction front with
  | nil => rfl
  | cons input front ih => rw [List.cons_append, ofInputs, ofInputs, ih, List.append_assoc]

theorem ofInputs_list (before items after : List Value) :
    ofInputs (before ++ .list items :: after) = ofInputs (before ++ items ++ after) := by
  rw [ofInputs_append, ofInputs, ofInput, ofInputs_append, ofInputs_append, List.append_assoc]

end StyleLeaf

/-- Inputs that differ in one list: its items are spliced in, a run of them becomes a list, or this is
so somewhere inside. -/
inductive Regroups : List Value → List Value → Prop
  | splice (before items after : List Value) :
      Regroups (before ++ .list items :: after) (before ++ items ++ after)
  | group (before items after : List Value) :
      Regroups (before ++ items ++ after) (before ++ .list items :: after)
  | inside (before items others after : List Value) (inner : Regroups items others) :
      Regroups (before ++ .list items :: after) (before ++ .list others :: after)

theorem Regroups.leaves_eq {inputs others : List Value} (regroups : Regroups inputs others) :
    StyleLeaf.ofInputs inputs = StyleLeaf.ofInputs others := by
  induction regroups with
  | splice before items after => exact StyleLeaf.ofInputs_list before items after
  | group before items after => exact (StyleLeaf.ofInputs_list before items after).symm
  | inside before items others after _ ih =>
    simp only [StyleLeaf.ofInputs_append, StyleLeaf.ofInputs, StyleLeaf.ofInput, ih]

namespace Palette

def extend (palette : Palette) : Styling → Palette
  | .slot c => palette.addPositional c
  | .entry texts c => palette.addTexts texts c

def addLeaf (table : FlagTable) (palette : Palette) (leaf : StyleLeaf) : Except Error Palette :=
  (leaf.read table).map palette.extend

variable (table : FlagTable)

theorem addAlways_eq (palette : Palette) (key style : Value) :
    addAlways table palette key style = addLeaf table palette (.entry key style) := by
  rw [addAlways, addLeaf, StyleLeaf.read]
  cases keyTexts key with
  | error error => rfl
  | ok texts => cases table.ofStyle style <;> rfl

theorem addSlot_eq (palette : Palette) (style : Value) :
    (table.ofStyle style).map palette.addPositional =
      [StyleLeaf.slot style].foldlM (addLeaf table) palette := by
  rw [List.foldlM_cons, addLeaf, StyleLeaf.read]
  cases table.ofStyle style <;> rfl

mutual

theorem add_eq_foldlM (palette : Palette) (input : Value) :
    add table palette input = (StyleLeaf.ofInput input).foldlM (addLeaf table) palette := by
  match input with
  | .text t => exact addSlot_eq table palette (.text t)
  | .number n => exact addSlot_eq table palette (.number n)
  | .integer i => exact addSlot_eq table palette (.integer i)
  | .list items => exact addAll_eq_foldlM palette items
  | .mapping entries => simp only [add, StyleLeaf.ofInput, List.foldlM_map, addAlways_eq]
  | .record entries => simp only [add, StyleLeaf.ofInput, List.foldlM_map, addAlways_eq]
  | .absent => rfl
  | .null => rfl
  | .bool b => rfl

theorem addAll_eq_foldlM (palette : Palette) (inputs : List Value) :
    addAll table palette inputs = (StyleLeaf.ofInputs inputs).foldlM (addLeaf table) palette := by
  match inputs with
  | [] => rfl
  | input :: rest =>
    rw [addAll, StyleLeaf.ofInputs, List.foldlM_append, add_eq_foldlM palette input]
    congr 1
    funext after
    exact addAll_eq_foldlM after rest

end

/-- The styles by themselves in their order, and for each text that of the last entry that names it. -/
structure Gathers (palette : Palette) (stylings : List Styling) : Prop where
  positional : palette.positional = stylings.filterMap Styling.slot?
  always : ∀ text, palette.always.get? text = (stylings.filterMap (Styling.styleFor? text)).getLast?

structure Within (palette : Palette) (table : FlagTable) : Prop where
  positional : ∀ c ∈ palette.positional, 0 ≤ c ∧ c < table.limit
  always : ∀ entry ∈ palette.always, 0 ≤ entry.2 ∧ entry.2 < table.limit

variable {table} {palette : Palette} {stylings : List Styling}

theorem get?_extend (palette : Palette) (styling : Styling) (text : Text) :
    (palette.extend styling).always.get? text =
      (styling.styleFor? text).or (palette.always.get? text) := by
  cases styling with
  | slot c => rfl
  | entry texts c =>
    rw [extend, addTexts, Entries.get?_foldl_put, Styling.styleFor?]
    split <;> rfl

theorem Gathers.extend (gathers : palette.Gathers stylings) (styling : Styling) :
    (palette.extend styling).Gathers (stylings ++ [styling]) := by
  constructor
  · rw [List.filterMap_append, ← gathers.positional]
    cases styling with
    | slot c => rfl
    | entry texts c => exact (List.append_nil _).symm
  · intro text
    rw [get?_extend, gathers.always, List.filterMap_append]
    cases named : styling.styleFor? text with
    | none => rw [List.filterMap_cons_none named, List.filterMap_nil, List.append_nil, Option.none_or]
    | some c =>
      rw [List.filterMap_cons_some named, List.filterMap_nil, List.getLast?_concat, Option.some_or]

theorem Gathers.foldl_extend (gathers : palette.Gathers stylings) (more : List Styling) :
    (more.foldl Palette.extend palette).Gathers (stylings ++ more) := by
  induction more generalizing palette stylings with
  | nil => rwa [List.append_nil]
  | cons styling more ih =>
    have all := ih (gathers.extend styling)
    rwa [List.append_assoc] at all

theorem gathers_foldl_extend (stylings : List Styling) :
    (stylings.foldl Palette.extend empty).Gathers stylings := by
  have none_gathered : empty.Gathers [] := ⟨rfl, fun _ => rfl⟩
  exact none_gathered.foldl_extend stylings

theorem Within.extend (within : palette.Within table) (styling : Styling)
    (bounds : 0 ≤ styling.combination ∧ styling.combination < table.limit) :
    (palette.extend styling).Within table := by
  cases styling with
  | slot c =>
    refine ⟨?_, within.always⟩
    intro other member
    rcases List.mem_append.mp member with earlier | last
    · exact within.positional other earlier
    · rw [List.mem_singleton.mp last]
      exact bounds
  | entry texts c =>
    refine ⟨within.positional, ?_⟩
    intro entry member
    rcases Entries.mem_foldl_put texts c palette.always member with same | earlier
    · rw [same]
      exact bounds
    · exact within.always entry earlier

end Palette

theorem StyleLeaf.bounds_of_read {table : FlagTable} (order : FlagTable.InOrder table.flags)
    (leaf : StyleLeaf) (styling : Styling) (read : leaf.read table = .ok styling) :
    0 ≤ styling.combination ∧ styling.combination < table.limit := by
  cases leaf with
  | slot style =>
    obtain ⟨c, found, rfl⟩ := exists_of_map_eq_ok _ _ _ read
    exact FlagTable.bounds_of_ofStyle order style c found
  | entry key style =>
    obtain ⟨texts, -, styled⟩ := exists_of_bind_eq_ok _ _ _ read
    obtain ⟨c, found, rfl⟩ := exists_of_map_eq_ok _ _ _ styled
    exact FlagTable.bounds_of_ofStyle order style c found
  | other value => cases read

namespace Palette

variable {table : FlagTable}

theorem within_foldl_extend (order : FlagTable.InOrder table.flags) {palette : Palette}
    (within : palette.Within table) (leaves : List StyleLeaf) (stylings : List Styling)
    (read : List.Forall₂ (fun leaf styling => leaf.read table = .ok styling) leaves stylings) :
    (stylings.foldl Palette.extend palette).Within table := by
  induction read generalizing palette with
  | nil => exact within
  | cons here _ ih => exact ih (within.extend _ (StyleLeaf.bounds_of_read order _ _ here))

structure Folds (table : FlagTable) (leaves : List StyleLeaf) (compiled : Except Error Palette) :
    Prop where
  succeeds : (∃ palette, compiled = .ok palette) ↔
    ∀ leaf ∈ leaves, ∃ styling, leaf.read table = .ok styling
  gathers : ∀ stylings,
    List.Forall₂ (fun leaf styling => leaf.read table = .ok styling) leaves stylings →
    ∃ palette, compiled = .ok palette ∧ palette.Gathers stylings
  within : ∀ palette, compiled = .ok palette →
    (∃ specs, FlagTable.ofSpecs specs = .ok table) → palette.Within table
  refuses : ∀ before leaf after error, leaves = before ++ leaf :: after →
    (∀ earlier ∈ before, ∃ styling, earlier.read table = .ok styling) →
    leaf.read table = .error error → compiled = .error error

theorem ofInputs_eq_foldlM (table : FlagTable) (inputs : List Value) :
    ofInputs table inputs = (StyleLeaf.ofInputs inputs).foldlM (addLeaf table) empty :=
  addAll_eq_foldlM table empty inputs

theorem ofInputs_of_read (inputs : List Value) (stylings : List Styling)
    (read : List.Forall₂ (fun leaf styling => leaf.read table = .ok styling)
      (StyleLeaf.ofInputs inputs) stylings) :
    ofInputs table inputs = .ok (stylings.foldl extend empty) := by
  rw [ofInputs_eq_foldlM]
  exact foldlM_of_read (StyleLeaf.read table) extend _ stylings read empty

theorem ofInputs_eq_ok (inputs : List Value) (palette : Palette)
    (compiled : ofInputs table inputs = .ok palette) :
    ∃ stylings, List.Forall₂ (fun leaf styling => leaf.read table = .ok styling)
        (StyleLeaf.ofInputs inputs) stylings ∧ palette = stylings.foldl extend empty := by
  rw [ofInputs_eq_foldlM] at compiled
  exact foldlM_eq_ok (StyleLeaf.read table) extend _ empty palette compiled

theorem folds (table : FlagTable) (inputs : List Value) :
    Folds table (StyleLeaf.ofInputs inputs) (ofInputs table inputs) := by
  constructor
  · constructor
    · rintro ⟨palette, compiled⟩
      obtain ⟨stylings, read, -⟩ := ofInputs_eq_ok inputs palette compiled
      intro leaf member
      obtain ⟨i, bound, rfl⟩ := List.getElem_of_mem member
      exact ⟨_, read.get bound (read.length_eq ▸ bound)⟩
    · intro all
      obtain ⟨stylings, read⟩ := exists_forall₂ _ all
      exact ⟨_, ofInputs_of_read inputs stylings read⟩
  · intro stylings read
    exact ⟨_, ofInputs_of_read inputs stylings read, gathers_foldl_extend stylings⟩
  · rintro palette compiled ⟨specs, declared⟩
    obtain ⟨stylings, read, rfl⟩ := ofInputs_eq_ok inputs palette compiled
    exact within_foldl_extend (FlagTable.inOrder_of_ofSpecs specs table declared)
      ⟨by simp [empty], by simp [empty]⟩ _ stylings read
  · intro before leaf after error split earlier refused
    rw [ofInputs_eq_foldlM, split]
    exact foldlM_of_refused (StyleLeaf.read table) extend before leaf after error earlier refused empty

/-- Style inputs are compiled leaf by leaf, so that it does not matter which of them are in a list
together. What one list adds to another comes after it, and for each text before it. -/
theorem ofInputs_folds (table : FlagTable) :
    (∀ inputs, Folds table (StyleLeaf.ofInputs inputs) (ofInputs table inputs)) ∧
      (∀ inputs others, Regroups inputs others → ofInputs table inputs = ofInputs table others) ∧
      ∀ front back first second,
        ofInputs table front = .ok first → ofInputs table back = .ok second →
        ∃ whole, ofInputs table (front ++ back) = .ok whole ∧
          whole.positional = first.positional ++ second.positional ∧
          ∀ text, whole.always.get? text =
            (second.always.get? text).or (first.always.get? text) := by
  refine ⟨folds table, ?_, ?_⟩
  · intro inputs others regroups
    rw [ofInputs_eq_foldlM, ofInputs_eq_foldlM, regroups.leaves_eq]
  · intro front back first second compiled_front compiled_back
    obtain ⟨fronts, read_front, rfl⟩ := ofInputs_eq_ok front first compiled_front
    obtain ⟨backs, read_back, rfl⟩ := ofInputs_eq_ok back second compiled_back
    -- Both palettes are folds from the empty one, and so is that of the two rows together.
    have read : List.Forall₂ (fun leaf styling => leaf.read table = .ok styling)
        (StyleLeaf.ofInputs (front ++ back)) (fronts ++ backs) := by
      rw [StyleLeaf.ofInputs_append]
      exact List.rel_append read_front read_back
    refine ⟨_, ofInputs_of_read (front ++ back) (fronts ++ backs) read, ?_, ?_⟩
    · simp only [(gathers_foldl_extend _).positional, List.filterMap_append]
    · intro text
      simp only [(gathers_foldl_extend _).always, List.filterMap_append, List.getLast?_append]

/-- A later group names a text again; of two refused leaves the one that is nested comes first. -/
theorem ofInputs_folds_nested :
    let table : FlagTable := ⟨[⟨"look", [⟨"a", .ofNat 1, 0⟩, ⟨"b", .ofNat 2, 1⟩]⟩]⟩
    let group : Value := .mapping [(.list [.text "x", .text "y"], .integer 3)]
    let inputs : List Value := [.list [.text "a", .record [("x", .text "b")]], group]
    let flat : List Value := [.text "a", .record [("x", .text "b")], group]
    let refused : List Value := [.text "a", .list [.list [.text "q"]], .integer 4]
    FlagTable.ofSpecs [⟨"look", [⟨"a", .ofNat 1⟩, ⟨"b", .ofNat 2⟩]⟩] = .ok table ∧
      ofInputs table inputs = .ok ⟨[1], [("x", 3), ("y", 3)]⟩ ∧
      Within ⟨[1], [("x", 3), ("y", 3)]⟩ table ∧
      Regroups inputs flat ∧ ofInputs table inputs = ofInputs table flat ∧
      ofInputs table refused = .error (.unknownFlag "q") ∧
      ∃ whole, ofInputs table (inputs ++ [.integer 2]) = .ok whole ∧ whole.positional = [1] ++ [2] := by
  intro table group inputs flat refused
  have declared : FlagTable.ofSpecs [⟨"look", [⟨"a", .ofNat 1⟩, ⟨"b", .ofNat 2⟩]⟩] = .ok table := rfl
  have compiled : ofInputs table inputs = .ok ⟨[1], [("x", 3), ("y", 3)]⟩ := rfl
  have regroups : Regroups inputs flat :=
    .splice [] [.text "a", .record [("x", .text "b")]] [group]
  have folds := ofInputs_folds table
  have first_refused := (folds.1 refused).refuses [.slot (.text "a")] (.slot (.text "q"))
    [.slot (.integer 4)] (.unknownFlag "q") rfl
    (List.forall_mem_singleton.mpr ⟨.slot 1, rfl⟩) rfl
  obtain ⟨whole, both, positional, -⟩ := folds.2.2 inputs [.integer 2] _ ⟨[2], []⟩ compiled rfl
  exact ⟨declared, compiled, (folds.1 inputs).within _ compiled ⟨_, declared⟩, regroups,
    folds.2.1 inputs flat regroups, first_refused, whole, both, positional⟩

end Palette

end AnsiMarkup
