import AnsiMarkup.Config
import AnsiMarkup.Proofs.Palette.Leaves

namespace AnsiMarkup

namespace StyleLeaf

theorem ofInput_of_isStyle (style : Value) (flags : Config.isStyle style = true) :
    ofInput style = [.slot style] := by
  cases style with
  | text t => rfl
  | number n => rfl
  | _ => cases flags

theorem ofInputs_styles (styles : List Value)
    (flags : ∀ style ∈ styles, Config.isStyle style = true) : ofInputs styles = styles.map .slot := by
  induction styles with
  | nil => rfl
  | cons style rest ih =>
    obtain ⟨here, later⟩ := List.forall_mem_cons.mp flags
    rw [ofInputs, ofInput_of_isStyle style here, ih later, List.map_cons, List.singleton_append]

variable {table : FlagTable}

theorem read_slots (styles : List Value) (more : List StyleLeaf) (stylings : List Styling)
    (read : List.Forall₂ (fun leaf styling => StyleLeaf.read table leaf = .ok styling)
      (styles.map .slot ++ more) stylings) :
    ∃ cs rest, styles.mapM table.ofStyle = .ok cs ∧ stylings = cs.map .slot ++ rest ∧
      List.Forall₂ (fun leaf styling => StyleLeaf.read table leaf = .ok styling) more rest := by
  induction styles generalizing stylings with
  | nil => exact ⟨[], stylings, rfl, rfl, read⟩
  | cons style styles ih =>
    cases read with
    | cons here later =>
      obtain ⟨cs, rest, combinations, rfl, others⟩ := ih _ later
      obtain ⟨c, valid, rfl⟩ := exists_of_map_eq_ok _ _ _ here
      refine ⟨c :: cs, rest, ?_, rfl, others⟩
      rw [List.mapM_cons, valid, combinations]
      rfl

theorem read_entries (entries : List (Text × Value)) (stylings : List Styling)
    (read : List.Forall₂ (fun leaf styling => StyleLeaf.read table leaf = .ok styling)
      (entries.map fun entry => .entry (.text entry.1) entry.2) stylings) :
    stylings.filterMap Styling.slot? = [] ∧
      ∀ text, (stylings.filterMap (Styling.styleFor? text)).getLast?.map .ok =
        (Entries.get? text entries.reverse).map table.ofStyle := by
  induction entries generalizing stylings with
  | nil =>
    cases read
    exact ⟨rfl, fun text => rfl⟩
  | cons entry entries ih =>
    obtain ⟨key, style⟩ := entry
    cases read with
    | cons here later =>
      obtain ⟨slots, always⟩ := ih _ later
      have mapped : (table.ofStyle style).map (Styling.entry [key]) = .ok _ := here
      obtain ⟨c, valid, rfl⟩ := exists_of_map_eq_ok _ _ _ mapped
      refine ⟨slots, ?_⟩
      intro text
      have first : ([Styling.entry [key] c].filterMap (Styling.styleFor? text)).getLast?.map .ok =
          (if key = text then some style else none).map table.ofStyle := by
        by_cases same : key = text
        · simp [Styling.styleFor?, same, valid]
        · simp [Styling.styleFor?, same, Ne.symm same]
      rw [List.reverse_cons, Entries.get?_concat, Option.map_or, ← always, ← first,
        ← Option.map_or, ← List.getLast?_append, ← List.filterMap_append, List.singleton_append]

end StyleLeaf

theorem Palette.ofInputs_styles_record {table : FlagTable} (styles : List Value)
    (entries : List (Text × Value)) (palette : Palette)
    (flags : ∀ style ∈ styles, Config.isStyle style = true)
    (compiled : ofInputs table (styles ++ [.record entries]) = .ok palette) :
    styles.mapM table.ofStyle = .ok palette.positional ∧
      ∀ text, (palette.always.get? text).map .ok =
        (Entries.get? text entries.reverse).map table.ofStyle := by
  obtain ⟨stylings, read, rfl⟩ := ofInputs_eq_ok _ palette compiled
  have gathers := gathers_foldl_extend stylings
  rw [StyleLeaf.ofInputs_append, StyleLeaf.ofInputs_styles styles flags, StyleLeaf.ofInputs,
    StyleLeaf.ofInputs, List.append_nil, StyleLeaf.ofInput] at read
  obtain ⟨cs, rest, combinations, rfl, others⟩ := StyleLeaf.read_slots styles _ stylings read
  obtain ⟨none_by_place, always⟩ := StyleLeaf.read_entries entries rest others
  have slots : (cs.map Styling.slot).filterMap Styling.slot? = cs := by
    rw [List.filterMap_map]
    exact List.filterMap_some
  have entry_less (text : Text) :
      (cs.map Styling.slot).filterMap (Styling.styleFor? text) = [] := by
    rw [List.filterMap_map]
    exact List.filterMap_none cs
  constructor
  · rw [gathers.positional, List.filterMap_append, slots, none_by_place, List.append_nil]
    exact combinations
  · intro text
    rw [gathers.always, List.filterMap_append, entry_less, List.nil_append]
    exact always text

end AnsiMarkup
