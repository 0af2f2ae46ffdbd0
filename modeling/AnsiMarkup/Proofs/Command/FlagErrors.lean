import AnsiMarkup.Command.Render
import AnsiMarkup.Painter
import AnsiMarkup.Proofs.Config.Conformance

/-! From a value to checked styles: every way to fail is an error about flags. -/

namespace AnsiMarkup

def FlagSafe {α : Type} (outcome : Except Error α) (holds : α → Prop) : Prop :=
  match outcome with
  | .ok value => holds value
  | .error error => error.kind = .flag

namespace FlagSafe

section

variable {α β ι : Type} {outcome : Except Error α} {holds : α → Prop}

theorem kind_eq (safe : FlagSafe outcome holds) {error : Error} (failed : outcome = .error error) :
    error.kind = .flag := by
  rw [failed] at safe
  exact safe

theorem bind {next : α → Except Error β} {final : β → Prop} (safe : FlagSafe outcome holds)
    (rest : ∀ value, holds value → FlagSafe (next value) final) :
    FlagSafe (outcome >>= next) final := by
  cases outcome with
  | ok value => exact rest value safe
  | error error => exact safe

theorem map {change : α → β} {final : β → Prop} (safe : FlagSafe outcome holds)
    (kept : ∀ value, holds value → final (change value)) : FlagSafe (outcome.map change) final := by
  cases outcome with
  | ok value => exact kept value safe
  | error error => exact safe

theorem foldlM {step : α → ι → Except Error α} (items : List ι)
    (each : ∀ item ∈ items, ∀ state, holds state → FlagSafe (step state item) holds) (state : α)
    (start : holds state) : FlagSafe (items.foldlM step state) holds := by
  induction items generalizing state with
  | nil => exact start
  | cons item items ih =>
    have all := List.forall_mem_cons.mp each
    rw [List.foldlM_cons]
    apply (all.1 state start).bind
    exact ih all.2

end

end FlagSafe

inductive Value.IsStyleInput : Value → Prop
  | style (value : Value) (flags : Config.isStyle value = true) : IsStyleInput value
  | record (entries : Record Value) (each : ∀ entry ∈ entries, Config.isStyle entry.2 = true) :
    IsStyleInput (.record entries)

namespace FlagTable

variable (table : FlagTable)

theorem flagSafe_bitOf (name : Text) : FlagSafe (table.bitOf name) fun _ => True := by
  rw [bitOf]
  split
  · trivial
  · exact rfl

theorem flagSafe_ofExpression (expression : Text) :
    FlagSafe (table.ofExpression expression) fun _ => True := by
  rw [ofExpression]
  split
  · exact rfl
  · apply FlagSafe.foldlM
    · intro name _ c _
      exact (table.flagSafe_bitOf name).map fun _ _ => trivial
    · trivial

/-- A number is checked before it is converted, so that the conversion does not fail. -/
theorem flagSafe_ofInteger (number : Number) :
    FlagSafe (table.ofInteger (.number number)) fun _ => True := by
  have whole : FlagSafe (Value.number number).toInteger fun _ => True := by
    rw [Value.toInteger]
    split
    · trivial
    · exact rfl
  apply whole.bind
  intro c _
  split
  · trivial
  · exact rfl

theorem flagSafe_ofStyle (style : Value) (flags : Config.isStyle style = true) :
    FlagSafe (table.ofStyle style) fun _ => True := by
  cases style with
  | text expression => exact table.flagSafe_ofExpression expression
  | number number => exact table.flagSafe_ofInteger number
  | _ => cases flags

end FlagTable

namespace Palette

variable (table : FlagTable)

theorem flagSafe_add (palette : Palette) (input : Value) (legal : input.IsStyleInput) :
    FlagSafe (add table palette input) fun _ => True := by
  cases legal with
  | style _ flags =>
    have styled := table.flagSafe_ofStyle input flags
    cases input with
    | text _ | number _ => exact styled.map fun _ _ => trivial
    | _ => cases flags
  | record entries each =>
    apply FlagSafe.foldlM
    · intro entry member palette _
      exact (table.flagSafe_ofStyle entry.2 (each entry member)).bind fun _ _ => trivial
    · trivial

theorem flagSafe_addAll (palette : Palette) (inputs : List Value)
    (legal : ∀ input ∈ inputs, input.IsStyleInput) :
    FlagSafe (addAll table palette inputs) fun _ => True := by
  induction inputs generalizing palette with
  | nil => trivial
  | cons input rest ih =>
    have all := List.forall_mem_cons.mp legal
    apply (flagSafe_add table palette input all.1).bind
    intro next _
    exact ih next all.2

end Palette

theorem Painter.flagSafe_ofStyles (table : FlagTable) (styles : List Value)
    (legal : ∀ style ∈ styles, style.IsStyleInput) :
    FlagSafe (ofStyles table styles) fun _ => True :=
  (Palette.flagSafe_addAll table .empty styles legal).map fun _ _ => trivial

namespace Command

theorem flagSafe_alwaysOption (option : Text) : FlagSafe (alwaysOption option) fun _ => True := by
  rw [alwaysOption]
  split
  · exact rfl
  · split
    · exact rfl
    · trivial

theorem flagSafe_assignOptions (always : Record Value) (options : List Text)
    (each : ∀ entry ∈ always, Config.isStyle entry.2 = true) :
    FlagSafe (assignOptions always options) fun assigned =>
      ∀ entry ∈ assigned, Config.isStyle entry.2 = true := by
  induction options generalizing always with
  | nil => exact each
  | cons option rest ih =>
    apply (flagSafe_alwaysOption option).bind
    intro pair _
    apply ih
    intro entry member
    rcases Record.mem_assign member with rfl | earlier
    · rfl
    · exact each entry earlier

theorem flagSafe_styleInputs (config : Config) (styles options : List Text)
    (positional : ∀ style ∈ config.styles, Config.isStyle style = true)
    (always : ∀ entry ∈ config.always, Config.isStyle entry.2 = true) :
    FlagSafe (styleInputs config styles options) fun inputs =>
      ∀ input ∈ inputs, input.IsStyleInput := by
  apply (flagSafe_assignOptions config.always options always).bind
  intro assigned each input member
  rcases List.mem_append.mp member with given | last
  · rcases List.mem_append.mp given with configured | option
    · exact .style input (positional input configured)
    · rcases List.mem_map.mp option with ⟨text, -, rfl⟩
      exact .style _ rfl
  · rw [List.mem_singleton.mp last]
    exact .record assigned each

end Command

namespace Config

theorem isStyle_of_ofValue {source : Text} {raw : Value} {config : Config}
    (done : ofValue source raw = .ok config) :
    (∀ style ∈ config.styles, isStyle style = true) ∧
      ∀ entry ∈ config.always, isStyle entry.2 = true := by
  rcases accepted_of_ofValue done with ⟨accepted, rfl⟩
  refine ⟨accepted.styles.items, ?_⟩
  intro entry member
  rcases Record.mem_assignAll member with stored | given
  · cases stored
  · rcases accepted.always with absent | ⟨-, each⟩
    · rw [absent] at given
      cases given
    · exact each entry given

end Config

/-- A value is a configuration if it is a record or a mapping, and so are its styles of texts, and if
all its styles are texts and numbers. Otherwise its first fault is told. Whatever the options that come
with a configuration, and whatever its numbers, only an error about flags can keep them from making a
painter. -/
theorem ofValue_accepts (source : Text) (raw : Value) :
    ((∃ config, Config.ofValue source raw = .ok config) ↔ Config.Accepted raw) ∧
      (∀ error, Config.ofValue source raw = .error error ↔
        Config.Faulty source raw error ∧ ¬Config.Accepted raw) ∧
      (∀ error, Config.ofValue source raw = .error error → error.kind = .flag) ∧
      ∀ config, Config.ofValue source raw = .ok config →
        config.styles = (raw.member "styles").items ∧
          ∀ (table : FlagTable) (styles options : List Text) (error : Error),
            (do
              let inputs ← Command.styleInputs config styles options
              Painter.ofStyles table inputs) = .error error → error.kind = .flag := by
  refine ⟨⟨?_, ?_⟩, Config.ofValue_eq_error_iff source raw, ?_, ?_⟩
  · intro ⟨config, done⟩
    exact (Config.accepted_of_ofValue done).1
  · intro accepted
    exact ⟨_, Config.ofValue_of_accepted source raw accepted⟩
  · intro error failed
    exact ((Config.ofValue_eq_error_iff source raw error).mp failed).1.kind_eq
  · intro config done
    refine ⟨(Config.ofValue_eq_ok source raw config done).1, ?_⟩
    intro table styles options error failed
    have flags := Config.isStyle_of_ofValue done
    have safe := (Command.flagSafe_styleInputs config styles options flags.1 flags.2).bind
      fun inputs legal => Painter.flagSafe_ofStyles table inputs legal
    exact safe.kind_eq failed

/-- A configuration may have NaN among its styles; it is refused where they are read. What is neither
text nor number is refused before. -/
theorem ofValue_accepts_nan :
    let raw : Value := .record
      [("styles", .list [.number .nan, .text "bold"]), ("always", .record [("X", .number (.finite (1 / 2)))])]
    let config : Config := ⟨[.number .nan, .text "bold"], [("X", .number (.finite (1 / 2)))]⟩
    let refused : Value := .record [("styles", .list [.text "bold", .null]), ("always", .null)]
    Config.Accepted raw ∧ Config.ofValue "c" raw = .ok config ∧
      config.styles = (raw.member "styles").items ∧
      (do
        let inputs ← Command.styleInputs config ["none such"] ["X=red"]
        Painter.ofStyles FlagTable.standard inputs) = .error (.notWhole "NaN") ∧
      (Error.notWhole "NaN").kind = .flag ∧
      ¬Config.Accepted refused ∧ Config.ofValue "c" refused = .error (.configBadStyle "c" 1) ∧
      (Error.configBadStyle "c" 1).kind = .flag := by
  intro raw config refused
  have done : Config.ofValue "c" raw = .ok config := rfl
  have failed : (do
      let inputs ← Command.styleInputs config ["none such"] ["X=red"]
      Painter.ofStyles FlagTable.standard inputs) = .error (.notWhole "NaN") := rfl
  have faulty : Config.ofValue "c" refused = .error (.configBadStyle "c" 1) := rfl
  have accepts := ofValue_accepts "c" raw
  have refuses := ofValue_accepts "c" refused
  have kept := accepts.2.2.2 config done
  exact ⟨accepts.1.mp ⟨config, done⟩, done, kept.1, failed, kept.2 _ _ _ _ failed,
    ((refuses.2.1 _).mp faulty).2, faulty, refuses.2.2.1 _ faulty⟩

end AnsiMarkup
