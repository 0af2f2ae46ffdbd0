import AnsiMarkup.Config
import AnsiMarkup.Proofs.FlagTable.Codes
import AnsiMarkup.Proofs.Json.Keys

namespace AnsiMarkup

def Value.items : Value → List Value
  | .list items => items
  | _ => []

def Value.isKeyed : Value → Bool
  | .record _ | .mapping _ => true
  | _ => false

namespace Config

def StylesConform : Value → Prop
  | .absent => True
  | .list items => ∀ style ∈ items, isStyle style = true
  | _ => False

def AlwaysConform : Value → Prop
  | .absent => True
  | .record entries => ∀ entry ∈ entries, isStyle entry.2 = true
  | _ => False

structure Conforms (raw : Value) : Prop where
  record : ∃ entries, raw = .record entries
  styles : StylesConform (raw.member "styles")
  always : AlwaysConform (raw.member "always")

/-- What is said of a value that does not conform: its first fault, with the key it is under. -/
inductive Faulty (source : Text) (raw : Value) : Error → Prop
  | noRecord (apart : ∀ entries, raw ≠ .record entries) : Faulty source raw (.configNotRecord source)
  | noList (given : raw.member "styles" ≠ .absent)
      (apart : ∀ items, raw.member "styles" ≠ .list items) :
      Faulty source raw (.configStylesNotList source)
  | style (before : List Value) (bad : Value) (after : List Value)
      (split : raw.member "styles" = .list (before ++ bad :: after))
      (earlier : ∀ style ∈ before, isStyle style = true) (refused : isStyle bad = false) :
      Faulty source raw (.configBadStyle source before.length)
  | noEntries (styles : StylesConform (raw.member "styles")) (given : raw.member "always" ≠ .absent)
      (apart : ∀ entries, raw.member "always" ≠ .record entries) :
      Faulty source raw (.configAlwaysNotRecord source)
  | always (styles : StylesConform (raw.member "styles")) (before : List (Text × Value))
      (text : Text) (bad : Value) (after : List (Text × Value))
      (split : raw.member "always" = .record (before ++ (text, bad) :: after))
      (earlier : ∀ entry ∈ before, isStyle entry.2 = true) (refused : isStyle bad = false) :
      Faulty source raw (.configBadAlways source text)

theorem Faulty.kind_eq {source : Text} {raw : Value} {error : Error}
    (faulty : Faulty source raw error) : error.kind = .flag := by
  cases faulty <;> rfl

theorem Faulty.not_conforms {source : Text} {raw : Value} {error : Error}
    (faulty : Faulty source raw error) : ¬Conforms raw := by
  rintro ⟨⟨entries, record⟩, styles, always⟩
  cases faulty with
  | noRecord apart => exact apart entries record
  | noList given apart =>
    cases found : raw.member "styles" with
    | absent => exact given found
    | list items => exact apart items found
    | _ =>
      rw [found] at styles
      exact styles
  | style before bad after split earlier refused =>
    rw [split] at styles
    have accepted := styles bad (List.mem_append_right _ List.mem_cons_self)
    rw [refused] at accepted
    cases accepted
  | noEntries _ given apart =>
    cases found : raw.member "always" with
    | absent => exact given found
    | record entries => exact apart entries found
    | _ =>
      rw [found] at always
      exact always
  | always _ before text bad after split earlier refused =>
    rw [split] at always
    have accepted := always (text, bad) (List.mem_append_right _ List.mem_cons_self)
    rw [refused] at accepted
    cases accepted

theorem checkStyles_of_styles (source : Text) (index : Nat) (styles : List Value)
    (each : ∀ style ∈ styles, isStyle style = true) : checkStyles source index styles = .ok styles := by
  induction styles generalizing index with
  | nil => rfl
  | cons style rest ih =>
    have all := List.forall_mem_cons.mp each
    rw [checkStyles, if_pos all.1, ih (index + 1) all.2]
    rfl

theorem checkStyles_of_bad (source : Text) (index : Nat) (before : List Value) (bad : Value)
    (after : List Value) (earlier : ∀ style ∈ before, isStyle style = true)
    (refused : isStyle bad = false) :
    checkStyles source index (before ++ bad :: after) =
      .error (.configBadStyle source (index + before.length)) := by
  induction before generalizing index with
  | nil =>
    rw [List.nil_append, checkStyles, refused]
    rfl
  | cons style before ih =>
    have all := List.forall_mem_cons.mp earlier
    rw [List.cons_append, checkStyles, if_pos all.1, ih (index + 1) all.2, List.length_cons,
      Nat.add_right_comm, ← Nat.add_assoc]
    rfl

theorem checkAlways_of_styles (source : Text) (always : Record Value) (entries : List (Text × Value))
    (each : ∀ entry ∈ entries, isStyle entry.2 = true) :
    checkAlways source always entries = .ok (Record.assignAll always entries) := by
  induction entries generalizing always with
  | nil => rfl
  | cons entry rest ih =>
    have all := List.forall_mem_cons.mp each
    rw [checkAlways, if_pos all.1]
    exact ih (Record.assign entry.1 entry.2 always) all.2

theorem checkAlways_of_bad (source : Text) (always : Record Value) (before : List (Text × Value))
    (text : Text) (bad : Value) (after : List (Text × Value))
    (earlier : ∀ entry ∈ before, isStyle entry.2 = true) (refused : isStyle bad = false) :
    checkAlways source always (before ++ (text, bad) :: after) =
      .error (.configBadAlways source text) := by
  induction before generalizing always with
  | nil =>
    rw [List.nil_append, checkAlways, refused]
    rfl
  | cons entry before ih =>
    have all := List.forall_mem_cons.mp earlier
    rw [List.cons_append, checkAlways, if_pos all.1]
    exact ih (Record.assign entry.1 entry.2 always) all.2

/-- Styles of texts that are given are in a record or a mapping. The second has no entries to check. -/
def AlwaysAccepted (always : Value) : Prop :=
  always = .absent ∨ always.isKeyed = true ∧ ∀ entry ∈ always.entries, isStyle entry.2 = true

theorem alwaysAccepted_mapping (entries : List (Value × Value)) : AlwaysAccepted (.mapping entries) :=
  .inr ⟨rfl, by simp [Value.entries]⟩

structure Accepted (raw : Value) : Prop where
  keyed : raw.isKeyed = true
  styles : StylesConform (raw.member "styles")
  always : AlwaysAccepted (raw.member "always")

theorem Accepted.conforms {raw : Value} (accepted : Accepted raw) (json : raw.IsJson) :
    Conforms raw := by
  refine ⟨?_, accepted.styles, ?_⟩
  · cases raw with
    | record entries => exact ⟨entries, rfl⟩
    | mapping entries => cases json
    | _ => cases accepted.keyed
  · have inner := json.member "always"
    have always := accepted.always
    cases found : raw.member "always" with
    | absent => trivial
    | record entries =>
      rw [found] at always
      rcases always with absent | ⟨-, each⟩
      · cases absent
      · exact each
    | mapping entries =>
      rw [found] at inner
      rcases inner with absent | spelled
      · cases absent
      · cases spelled
    | _ =>
      rw [found] at always
      rcases always with absent | ⟨keyed, -⟩
      · cases absent
      · cases keyed

theorem stylesOf_of_conform (source : Text) (value : Value) (conform : StylesConform value) :
    stylesOf source value = .ok value.items := by
  cases value with
  | absent => rfl
  | list items => exact checkStyles_of_styles source 0 items conform
  | _ => cases conform

theorem alwaysOf_of_accepted (source : Text) (value : Value) (accepted : AlwaysAccepted value) :
    alwaysOf source value = .ok (Record.assignAll [] value.entries) := by
  rcases accepted with rfl | ⟨keyed, each⟩
  · rfl
  · cases value with
    | record entries => exact checkAlways_of_styles source [] entries each
    | mapping entries => rfl
    | _ => cases keyed

theorem ofValue_of_accepted (source : Text) (raw : Value) (accepted : Accepted raw) :
    ofValue source raw =
      .ok ⟨(raw.member "styles").items, Record.assignAll [] (raw.member "always").entries⟩ := by
  have styles := stylesOf_of_conform source _ accepted.styles
  have always := alwaysOf_of_accepted source _ accepted.always
  have keyed := accepted.keyed
  cases raw with
  | record entries | mapping entries =>
    rw [ofValue, styles, always]
    rfl
  | _ => cases keyed

theorem exists_record_of_member {raw : Value} {key : Text} (given : raw.member key ≠ .absent) :
    ∃ entries, raw = .record entries := by
  cases raw with
  | record entries => exact ⟨entries, rfl⟩
  | _ => exact absurd rfl given

theorem ofValue_of_stylesOf {source : Text} {raw : Value} {error : Error}
    (given : raw.member "styles" ≠ .absent)
    (failed : stylesOf source (raw.member "styles") = .error error) :
    ofValue source raw = .error error := by
  rcases exists_record_of_member given with ⟨entries, rfl⟩
  rw [ofValue, failed]
  rfl

theorem ofValue_of_alwaysOf {source : Text} {raw : Value} {error : Error}
    (styles : StylesConform (raw.member "styles")) (given : raw.member "always" ≠ .absent)
    (failed : alwaysOf source (raw.member "always") = .error error) :
    ofValue source raw = .error error := by
  rcases exists_record_of_member given with ⟨entries, rfl⟩
  rw [ofValue, stylesOf_of_conform source _ styles, failed]
  rfl

theorem ofValue_of_faulty {source : Text} {raw : Value} {error : Error}
    (faulty : Faulty source raw error) (refused : ¬Accepted raw) :
    ofValue source raw = .error error := by
  cases faulty with
  | noRecord apart =>
    cases raw with
    | record entries => exact absurd rfl (apart entries)
    | mapping entries => exact absurd ⟨rfl, trivial, .inl rfl⟩ refused
    | _ => rfl
  | noList given apart =>
    apply ofValue_of_stylesOf given
    cases found : raw.member "styles" with
    | absent => exact absurd found given
    | list items => exact absurd found (apart items)
    | _ => rfl
  | style before bad after split earlier unfit =>
    apply ofValue_of_stylesOf
    · simp [split]
    · rw [split, stylesOf, checkStyles_of_bad source 0 before bad after earlier unfit, Nat.zero_add]
  | noEntries styles given apart =>
    apply ofValue_of_alwaysOf styles given
    have keyed : raw.isKeyed = true := by
      rcases exists_record_of_member given with ⟨entries, rfl⟩
      rfl
    cases found : raw.member "always" with
    | absent => exact absurd found given
    | record entries => exact absurd found (apart entries)
    | mapping entries =>
      -- A mapping is no record, and yet it is accepted.
      have always : AlwaysAccepted (raw.member "always") := found ▸ alwaysAccepted_mapping entries
      exact absurd ⟨keyed, styles, always⟩ refused
    | _ => rfl
  | always styles before text bad after split earlier unfit =>
    apply ofValue_of_alwaysOf styles
    · simp [split]
    · rw [split, alwaysOf, checkAlways_of_bad source [] before text bad after earlier unfit]

theorem faulty_styles (source : Text) (raw : Value)
    (refused : ¬StylesConform (raw.member "styles")) : ∃ error, Faulty source raw error := by
  cases found : raw.member "styles" with
  | absent => exact absurd (found ▸ trivial) refused
  | list items =>
    rcases forall_or_exists_first (fun style => isStyle style = true) items with
      each | ⟨before, bad, after, rfl, earlier, unfit⟩
    · exact absurd (found ▸ each) refused
    · exact ⟨_, .style before bad after found earlier (Bool.eq_false_iff.mpr unfit)⟩
  | _ => exact ⟨_, .noList (by simp [found]) (by simp [found])⟩

theorem faulty_always (source : Text) (raw : Value) (styles : StylesConform (raw.member "styles"))
    (refused : ¬AlwaysAccepted (raw.member "always")) : ∃ error, Faulty source raw error := by
  cases found : raw.member "always" with
  | absent => exact absurd (.inl found) refused
  | mapping entries =>
    rw [found] at refused
    exact absurd (alwaysAccepted_mapping entries) refused
  | record entries =>
    rcases forall_or_exists_first (fun entry => isStyle entry.2 = true) entries with
      each | ⟨before, ⟨text, bad⟩, after, rfl, earlier, unfit⟩
    · rw [found] at refused
      exact absurd (.inr ⟨rfl, each⟩) refused
    · exact ⟨_, .always styles before text bad after found earlier (Bool.eq_false_iff.mpr unfit)⟩
  | _ => exact ⟨_, .noEntries styles (by simp [found]) (by simp [found])⟩

theorem exists_faulty (source : Text) (raw : Value) (refused : ¬Accepted raw) :
    ∃ error, Faulty source raw error := by
  by_cases keyed : raw.isKeyed = true
  · by_cases styles : StylesConform (raw.member "styles")
    · by_cases always : AlwaysAccepted (raw.member "always")
      · exact absurd ⟨keyed, styles, always⟩ refused
      · exact faulty_always source raw styles always
    · exact faulty_styles source raw styles
  · refine ⟨_, .noRecord ?_⟩
    rintro entries rfl
    exact keyed rfl

theorem ofValue_outcomes (source : Text) (raw : Value) :
    (Accepted raw ∧ ofValue source raw =
        .ok ⟨(raw.member "styles").items, Record.assignAll [] (raw.member "always").entries⟩) ∨
      ∃ error, ¬Accepted raw ∧ Faulty source raw error ∧ ofValue source raw = .error error := by
  by_cases accepted : Accepted raw
  · exact .inl ⟨accepted, ofValue_of_accepted source raw accepted⟩
  · rcases exists_faulty source raw accepted with ⟨error, faulty⟩
    exact .inr ⟨error, accepted, faulty, ofValue_of_faulty faulty accepted⟩

theorem accepted_of_ofValue {source : Text} {raw : Value} {config : Config}
    (done : ofValue source raw = .ok config) : Accepted raw ∧
      config = ⟨(raw.member "styles").items, Record.assignAll [] (raw.member "always").entries⟩ := by
  rcases ofValue_outcomes source raw with ⟨accepted, same⟩ | ⟨error, -, -, failed⟩
  · exact ⟨accepted, Except.ok.inj (done.symm.trans same)⟩
  · rw [failed] at done
    cases done

theorem ofValue_eq_error_iff (source : Text) (raw : Value) (error : Error) :
    ofValue source raw = .error error ↔ Faulty source raw error ∧ ¬Accepted raw := by
  constructor
  · intro failed
    rcases ofValue_outcomes source raw with ⟨-, done⟩ | ⟨other, refused, faulty, same⟩
    · rw [done] at failed
      cases failed
    · rw [same] at failed
      cases failed
      exact ⟨faulty, refused⟩
  · intro refused
    exact ofValue_of_faulty refused.1 refused.2

theorem StylesConform.items {value : Value} (conform : StylesConform value) :
    ∀ style ∈ value.items, isStyle style = true := by
  cases value with
  | list items => exact conform
  | _ => simp [Value.items]

theorem ofValue_eq_ok (source : Text) (raw : Value) (config : Config)
    (done : ofValue source raw = .ok config) :
    config.styles = (raw.member "styles").items ∧
      (∀ style ∈ config.styles, isStyle style = true) ∧
      config.always = Record.assignAll [] (raw.member "always").entries := by
  rcases accepted_of_ofValue done with ⟨accepted, rfl⟩
  exact ⟨rfl, accepted.styles.items, rfl⟩

theorem ofValue_cases (source : Text) (raw : Value) (json : raw.IsJson) :
    (Conforms raw ∧ ofValue source raw =
        .ok ⟨(raw.member "styles").items, Record.assignAll [] (raw.member "always").entries⟩) ∨
      ∃ error, Faulty source raw error ∧ ofValue source raw = .error error := by
  rcases ofValue_outcomes source raw with ⟨accepted, done⟩ | ⟨error, -, faulty, failed⟩
  · exact .inl ⟨accepted.conforms json, done⟩
  · exact .inr ⟨error, faulty, failed⟩

theorem load_of_not_json (path : Text) (content : Option Text)
    (none : content.bind Json.read? = none) : load path content = .ok empty := by
  rw [load, stored, none]
  rfl

theorem load_of_null (path : Text) (content : Option Text)
    (read : content.bind Json.read? = some .null) : load path content = .ok empty := by
  rw [load, stored, read]
  rfl

theorem load_of_json (path : Text) (content : Option Text) (raw : Value)
    (read : content.bind Json.read? = some raw) (given : raw ≠ .null) :
    load path content = ofValue path raw := by
  rw [load, stored, read]
  cases raw with
  | null => exact absurd rfl given
  | _ => rfl

end Config

/-- A file that cannot be read or holds no JSON is no configuration, and neither is one that holds
`null`. Any other JSON value is checked: one that conforms is a configuration, and one that does not is
refused for its first fault. -/
theorem absent_or_checked (path : Text) (content : Option Text) :
    (content.bind Json.read? = none → Config.load path content = .ok .empty) ∧
    ∀ raw, content.bind Json.read? = some raw →
      (raw = .null → Config.load path content = .ok .empty) ∧
      (raw ≠ .null → Config.load path content = Config.ofValue path raw) ∧
      (Config.Conforms raw → Config.load path content =
        .ok ⟨(raw.member "styles").items, Record.assignAll [] (raw.member "always").entries⟩) ∧
      (raw ≠ .null → ¬Config.Conforms raw → ∃ error, Config.Faulty path raw error ∧
        error.kind = .flag ∧ Config.load path content = .error error) := by
  refine ⟨Config.load_of_not_json path content, ?_⟩
  intro raw read
  have checked (given : raw ≠ .null) := Config.load_of_json path content raw read given
  obtain ⟨text, -, spelled⟩ := Option.bind_eq_some_iff.mp read
  have outcome := Config.ofValue_cases path raw (Json.isJson_of_read? text raw spelled)
  refine ⟨?_, checked, ?_, ?_⟩
  · rintro rfl
    exact Config.load_of_null path content read
  · intro conforms
    have given : raw ≠ .null := by
      obtain ⟨entries, rfl⟩ := conforms.record
      simp
    rcases outcome with ⟨-, accepted⟩ | ⟨error, faulty, -⟩
    · rw [checked given, accepted]
    · exact absurd conforms faulty.not_conforms
  · intro given apart
    rcases outcome with ⟨conforms, -⟩ | ⟨error, faulty, refused⟩
    · exact absurd conforms apart
    · exact ⟨error, faulty, faulty.kind_eq, (checked given).trans refused⟩

/-- The second style is no style, and the styles of texts are not looked at. -/
theorem absent_or_checked_second :
    let content : Text := "\x7b\"styles\":[\"bold\",null],\"always\":true\x7d"
    let raw : Value :=
      .record [("styles", .list [.text "bold", .null]), ("always", .bool true)]
    Json.read? content = some raw ∧ raw ≠ .null ∧ ¬Config.Conforms raw ∧
      ∃ error, Config.Faulty "config.json" raw error ∧ error.kind = .flag ∧
        Config.load "config.json" (some content) = .error error := by
  intro content raw
  have read : Json.read? content = some raw := rfl
  have given : raw ≠ .null := by simp [raw]
  have faulty : Config.Faulty "config.json" raw (.configBadStyle "config.json" 1) :=
    .style [.text "bold"] .null [] rfl (by decide) rfl
  have refused := ((absent_or_checked "config.json" (some content)).2 raw read).2.2.2 given
    faulty.not_conforms
  exact ⟨read, given, faulty.not_conforms, refused⟩

/-- The value `null` is valid JSON and no record, and yet a file that holds it is not refused. -/
theorem null_passes_for_absent :
    Json.read? "null" = some .null ∧
      Config.ofValue "config.json" .null = .error (.configNotRecord "config.json") ∧
      (Error.configNotRecord "config.json").kind = .flag ∧
      Config.load "config.json" (some "null") = .ok .empty :=
  ⟨rfl, rfl, rfl, rfl⟩

end AnsiMarkup
