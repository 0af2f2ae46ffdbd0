import AnsiMarkup.Command.Render
import AnsiMarkup.FlagTable.Standard
import AnsiMarkup.Proofs.Config.Conformance
import AnsiMarkup.Proofs.Palette.Additions
import AnsiMarkup.Proofs.Position.Lines

namespace AnsiMarkup

namespace Command

theorem alwaysOption_append (text style : Text) (last : equals ∉ style) :
    alwaysOption (text ++ equals :: style) =
      if text = [] ∨ style = [] then .error (.badAlwaysOption (text ++ equals :: style))
      else .ok (text, style) := by
  have found := (Text.lastIndexOf_eq_some_iff equals _ text.length).mpr ⟨text, style, rfl, rfl, last⟩
  have behind : (text ++ equals :: style).drop (text.length + 1) = style := by simp
  have sides : (text.length = 0 ∨ text.length + 1 = (text ++ equals :: style).length) ↔
      (text = [] ∨ style = []) := by
    rw [← List.length_eq_zero_iff, ← List.length_eq_zero_iff, List.length_append, List.length_cons]
    omega
  rw [alwaysOption, found]
  simp only [sides, List.take_left, behind]

theorem alwaysOption_eq_ok_iff (option text style : Text) :
    alwaysOption option = .ok (text, style) ↔
      option = text ++ equals :: style ∧ text ≠ [] ∧ style ≠ [] ∧ equals ∉ style := by
  constructor
  · intro accepted
    cases found : option.lastIndexOf equals with
    | none =>
      rw [alwaysOption, found] at accepted
      cases accepted
    | some i =>
      obtain ⟨front, back, rfl, -, last⟩ := (Text.lastIndexOf_eq_some_iff _ _ _).mp found
      rw [alwaysOption_append front back last] at accepted
      split at accepted
      · cases accepted
      · next sides =>
        cases accepted
        obtain ⟨before, behind⟩ := not_or.mp sides
        exact ⟨rfl, before, behind, last⟩
  · rintro ⟨rfl, before, behind, last⟩
    rw [alwaysOption_append text style last, if_neg (not_or.mpr ⟨before, behind⟩)]

theorem options_eq_of_split (options : List Text) (pairs : List (Text × Text))
    (split : options.mapM alwaysOption = .ok pairs) :
    options = pairs.map (fun pair => pair.1 ++ equals :: pair.2) ∧
      ∀ pair ∈ pairs, pair.1 ≠ [] ∧ pair.2 ≠ [] ∧ equals ∉ pair.2 := by
  induction options generalizing pairs with
  | nil =>
    cases split
    exact ⟨rfl, by simp⟩
  | cons option rest ih =>
    rw [List.mapM_cons] at split
    obtain ⟨⟨text, style⟩, first, split⟩ := exists_of_bind_eq_ok _ _ _ split
    obtain ⟨others, later, done⟩ := exists_of_bind_eq_ok _ _ _ split
    cases done
    obtain ⟨rfl, sides⟩ := (alwaysOption_eq_ok_iff option text style).mp first
    obtain ⟨rfl, each⟩ := ih others later
    exact ⟨rfl, List.forall_mem_cons.mpr ⟨sides, each⟩⟩

theorem assignOptions_eq (always : Record Value) (options : List Text) (pairs : List (Text × Text))
    (split : options.mapM alwaysOption = .ok pairs) :
    assignOptions always options =
      .ok (Record.assignAll always (pairs.map fun pair => (pair.1, .text pair.2))) := by
  induction options generalizing always pairs with
  | nil =>
    cases split
    rfl
  | cons option rest ih =>
    rw [List.mapM_cons] at split
    obtain ⟨pair, first, split⟩ := exists_of_bind_eq_ok _ _ _ split
    obtain ⟨others, later, done⟩ := exists_of_bind_eq_ok _ _ _ split
    cases done
    rw [assignOptions, first, List.map_cons, Record.assignAll_cons]
    exact ih _ others later

/-- The style of a text: that of the last option for it, or else that of the configuration. -/
def dueStyle (raw : Value) (pairs : List (Text × Text)) (text : Text) : Option Value :=
  ((Entries.get? text pairs.reverse).map .text).or
    (Entries.get? text (raw.member "always").entries)

theorem get?_assignAll_options (raw : Value) (config : Config) (pairs : List (Text × Text))
    (assigned : config.always = Record.assignAll [] (raw.member "always").entries)
    (distinct : ((raw.member "always").entries.map Prod.fst).Nodup) (text : Text)
    (stored : text ≠ Record.inheritedKey) :
    Entries.get? text
        (Record.assignAll config.always (pairs.map fun pair => (pair.1, .text pair.2))) =
      dueStyle raw pairs text := by
  have configured : Entries.get? text config.always =
      Entries.get? text (raw.member "always").entries := by
    rw [assigned, Record.get?_assignAll _ _ _ stored, Entries.get?_reverse text _ distinct]
    exact Option.or_none
  calc
    _ = (Entries.get? text (pairs.map fun pair => (pair.1, Value.text pair.2)).reverse).or
        (Entries.get? text config.always) := Record.get?_assignAll _ _ _ stored
    _ = ((Entries.get? text pairs.reverse).map .text).or (Entries.get? text config.always) := by
      rw [← List.map_reverse, Entries.get?_map]
    _ = dueStyle raw pairs text := by rw [configured, dueStyle]

end Command

/-- Options that are accepted together with an accepted configuration: if their styles make a palette,
it has the positional styles of the configuration, then those of the options, and each text but one
has the style that is due to it. To the key that every record inherits nothing is assigned, so that
its text has no style. A record that was read from JSON has no key twice. -/
theorem always_styles_due (table : FlagTable) (source : Text) (raw : Value) (config : Config)
    (styles options : List Text) (pairs : List (Text × Text))
    (accepted : Config.ofValue source raw = .ok config)
    (distinct : ((raw.member "always").entries.map Prod.fst).Nodup)
    (split : options.mapM Command.alwaysOption = .ok pairs) :
    options = pairs.map (fun pair => pair.1 ++ Command.equals :: pair.2) ∧
    (∀ pair ∈ pairs, pair.1 ≠ [] ∧ pair.2 ≠ [] ∧ Command.equals ∉ pair.2) ∧
    ∃ inputs, Command.styleInputs config styles options = .ok inputs ∧
      ∀ palette, Palette.ofInputs table inputs = .ok palette →
        ((raw.member "styles").items ++ styles.map Value.text).mapM table.ofStyle =
          .ok palette.positional ∧
        (∀ text, text ≠ Record.inheritedKey →
          (palette.always.get? text).map .ok =
            (Command.dueStyle raw pairs text).map table.ofStyle) ∧
        palette.always.get? Record.inheritedKey = none := by
  obtain ⟨joined, sides⟩ := Command.options_eq_of_split options pairs split
  obtain ⟨configured, flags, assigned⟩ := Config.ofValue_eq_ok source raw config accepted
  have always := Command.assignOptions_eq config.always options pairs split
  let record := Record.assignAll config.always (pairs.map fun pair => (pair.1, .text pair.2))
  have keys : (record.map Prod.fst).Nodup := by
    refine Record.nodup_assignAll _ _ ?_
    rw [assigned]
    exact Record.nodup_assignAll [] _ .nil
  have lost : Entries.get? Record.inheritedKey record = none := by
    refine Record.get?_inheritedKey_assignAll _ _ ?_
    rw [assigned]
    exact Record.get?_inheritedKey_assignAll [] _ rfl
  refine ⟨joined, sides, config.styles ++ styles.map .text ++ [.record record], ?_, ?_⟩
  · rw [Command.styleInputs, always]
    rfl
  · intro palette compiled
    have texts : ∀ style ∈ config.styles ++ styles.map .text, Config.isStyle style = true := by
      intro style member
      rcases List.mem_append.mp member with here | option
      · exact flags style here
      · obtain ⟨text, -, rfl⟩ := List.mem_map.mp option
        rfl
    obtain ⟨positional, each⟩ := Palette.ofInputs_styles_record _ record palette texts compiled
    have style (text : Text) : (palette.always.get? text).map .ok =
        (Entries.get? text record).map table.ofStyle := by
      rw [each, Entries.get?_reverse text record keys]
    refine ⟨?_, ?_, ?_⟩
    · rw [← configured]
      exact positional
    · intro text stored
      rw [style]
      exact congrArg (Option.map table.ofStyle)
        (Command.get?_assignAll_options raw config pairs assigned distinct text stored)
    · have gone := style Record.inheritedKey
      rw [lost] at gone
      exact Option.map_eq_none_iff.mp gone

/-- Of two options for `X` the last one counts, and `Y` keeps its configured style. -/
theorem always_styles_due_last :
    let table := FlagTable.standard
    let content : Text :=
      "\x7b\"styles\":[\"bold\"],\"always\":\x7b\"X\":\"red\",\"Y\":\"dim\"\x7d\x7d"
    let options : List Text := ["X=green", "a=b=blue", "X=cyan"]
    ∃ raw config inputs palette, Json.read? content = some raw ∧
      Config.ofValue "config.json" raw = .ok config ∧
      Command.styleInputs config ["dim"] options = .ok inputs ∧
      Palette.ofInputs table inputs = .ok palette ∧
      [Value.text "bold", .text "dim"].mapM table.ofStyle = .ok palette.positional ∧
      (palette.always.get? "X").map .ok = some (table.ofStyle (.text "cyan")) ∧
      (palette.always.get? "Y").map .ok = some (table.ofStyle (.text "dim")) ∧
      (palette.always.get? "a=b").map .ok = some (table.ofStyle (.text "blue")) ∧
      palette.always.get? "__proto__" = none := by
  intro table content options
  let always : Record Value := [("X", .text "red"), ("Y", .text "dim")]
  let raw : Value := .record [("styles", .list [.text "bold"]), ("always", .record always)]
  let pairs : List (Text × Text) := [("X", "green"), ("a=b", "blue"), ("X", "cyan")]
  have read : Json.read? content = some raw := rfl
  have accepted : Config.ofValue "config.json" raw = .ok ⟨[.text "bold"], always⟩ := rfl
  have split : options.mapM Command.alwaysOption = .ok pairs := rfl
  obtain ⟨-, -, inputs, built, compiled⟩ := always_styles_due table "config.json" raw _ ["dim"]
    options pairs accepted ((Json.isJson_of_read? content raw read).nodup_entries_member "always")
    split
  have palette : ∃ palette, Palette.ofInputs table inputs = .ok palette := by
    cases built
    exact ⟨⟨[1, 2], [("X", 32768), ("Y", 2), ("a=b", 8192)]⟩, by decide +kernel⟩
  obtain ⟨palette, done⟩ := palette
  obtain ⟨positional, due, lost⟩ := compiled palette done
  exact ⟨raw, _, inputs, palette, read, accepted, built, done, positional, due "X" (by decide),
    due "Y" (by decide), due "a=b" (by decide), lost⟩

/-- A style for the text `__proto__` is assigned to the inherited key: that of the configuration and
that of the option are both lost. -/
theorem always_style_lost :
    let raw : Value := .record [("always", .record [("__proto__", .text "dim")])]
    let pairs : List (Text × Text) := [("__proto__", "red")]
    Config.ofValue "config.json" raw = .ok Config.empty ∧
      [("__proto__=red" : Text)].mapM Command.alwaysOption = .ok pairs ∧
      Command.dueStyle raw pairs "__proto__" = some (.text "red") ∧
      FlagTable.standard.ofStyle (.text "red") = .ok 1024 ∧
      ∃ inputs palette, Command.styleInputs Config.empty [] ["__proto__=red"] = .ok inputs ∧
        Palette.ofInputs FlagTable.standard inputs = .ok palette ∧
        palette.always.get? "__proto__" = none := by
  intro raw pairs
  have red : FlagTable.standard.ofStyle (.text "red") = .ok 1024 := by decide +kernel
  exact ⟨rfl, rfl, rfl, red, _, _, rfl, rfl, rfl⟩

end AnsiMarkup
