import AnsiMarkup.Json.Reading
import AnsiMarkup.Proofs.Record.Assignments

/-! The values that JSON text can spell: none of their records has a key twice. -/

namespace AnsiMarkup

namespace Value

inductive IsJson : Value → Prop
  | null : IsJson .null
  | bool (b : Bool) : IsJson (.bool b)
  | number (n : Number) : IsJson (.number n)
  | text (t : Text) : IsJson (.text t)
  | list (items : List Value) (each : ∀ item ∈ items, IsJson item) : IsJson (.list items)
  | record (entries : List (Text × Value)) (distinct : (entries.map Prod.fst).Nodup)
      (each : ∀ entry ∈ entries, IsJson entry.2) : IsJson (.record entries)

theorem IsJson.cons {item : Value} {items : List Value} (first : item.IsJson)
    (rest : (Value.list items).IsJson) : (Value.list (item :: items)).IsJson := by
  cases rest with
  | list _ each => exact .list _ (List.forall_mem_cons.mpr ⟨first, each⟩)

theorem IsJson.reverse {items : List Value} (json : (Value.list items).IsJson) :
    (Value.list items.reverse).IsJson := by
  cases json with
  | list _ each => exact .list _ fun item member => each item (List.mem_reverse.mp member)

theorem IsJson.put {key : Text} {value : Value} {entries : Record Value} (json : value.IsJson)
    (rest : (Value.record entries).IsJson) : (Value.record (Record.put key value entries)).IsJson := by
  cases rest with
  | record _ distinct each =>
    refine .record _ (Record.nodup_put key value entries distinct) ?_
    intro entry member
    rcases Record.mem_put member with rfl | old
    · exact json
    · exact each entry old

def entries : Value → Record Value
  | .record entries => entries
  | _ => []

theorem IsJson.nodup_entries {value : Value} (json : value.IsJson) :
    (value.entries.map Prod.fst).Nodup := by
  cases json with
  | record entries distinct each => exact distinct
  | _ => exact .nil

theorem IsJson.member {value : Value} (json : value.IsJson) (key : Text) :
    value.member key = .absent ∨ (value.member key).IsJson := by
  cases json with
  | record entries distinct each =>
    rw [Value.member]
    cases found : Entries.get? key entries with
    | none => exact .inl rfl
    | some inner => exact .inr (each _ (Entries.mem_of_get? found))
  | _ => exact .inl rfl

theorem IsJson.nodup_entries_member {value : Value} (json : value.IsJson) (key : Text) :
    ((value.member key).entries.map Prod.fst).Nodup := by
  rcases json.member key with absent | inner
  · rw [absent]
    exact .nil
  · exact inner.nodup_entries

end Value

namespace Json

theorem foldlM_invariant {σ ι : Type} {step : σ → ι → Option σ} (holds : σ → Prop) (items : List ι)
    (kept : ∀ item ∈ items, ∀ state next, holds state → step state item = some next → holds next)
    (start last : σ) (begins : holds start) (run : items.foldlM step start = some last) :
    holds last := by
  induction items generalizing start with
  | nil =>
    cases run
    exact begins
  | cons item rest ih =>
    obtain ⟨here, later⟩ := List.forall_mem_cons.mp kept
    rw [List.foldlM_cons] at run
    obtain ⟨next, first, run⟩ := Option.bind_eq_some_iff.mp run
    exact ih later next (here start next begins first) run

def Token.IsJson : Token → Prop
  | .scalar value => value.IsJson
  | _ => True

theorem isJson_of_wordToken? (word : Text) (token : Token) (read : wordToken? word = some token) :
    token.IsJson := by
  unfold wordToken? at read
  split at read
  · cases read
    exact .null
  · split at read
    · cases read
      exact .bool true
    · split at read
      · cases read
        exact .bool false
      · obtain ⟨n, -, rfl⟩ := Option.map_eq_some_iff.mp read
        exact .number n

theorem isJson_of_punctuation? (u : CodeUnit) (token : Token) (read : punctuation? u = some token) :
    token.IsJson := by
  unfold punctuation? at read
  split at read <;> cases read <;> exact trivial

namespace Lexer

theorem isJson_start (tokens : List Token) (u : CodeUnit) (all : ∀ token ∈ tokens, token.IsJson) :
    ∀ token ∈ (start tokens u).tokens, token.IsJson := by
  rw [start]
  split
  · exact all
  · split
    · exact all
    · split
      · next token found =>
        exact List.forall_mem_cons.mpr ⟨isJson_of_punctuation? u token found, all⟩
      · exact all

theorem isJson_step (u : CodeUnit) (lexer next : Lexer) (all : ∀ token ∈ lexer.tokens, token.IsJson)
    (stepped : step lexer u = some next) : ∀ token ∈ next.tokens, token.IsJson := by
  unfold step at stepped
  split at stepped
  · cases stepped
    exact isJson_start _ u all
  · next units _ =>
    split at stepped
    · obtain ⟨token, read, rfl⟩ := Option.map_eq_some_iff.mp stepped
      exact isJson_start _ u (List.forall_mem_cons.mpr ⟨isJson_of_wordToken? _ token read, all⟩)
    · cases stepped
      exact all
  · split at stepped
    · cases stepped
      exact List.forall_mem_cons.mpr ⟨trivial, all⟩
    · split at stepped
      · cases stepped
        exact all
      · split at stepped <;> cases stepped
        exact all
  · split at stepped
    · cases stepped
      exact all
    · obtain ⟨v, -, rfl⟩ := Option.map_eq_some_iff.mp stepped
      exact all
  · obtain ⟨digit, -, rfl⟩ := Option.map_eq_some_iff.mp stepped
    split <;> exact all

theorem isJson_finish (lexer : Lexer) (tokens : List Token)
    (all : ∀ token ∈ lexer.tokens, token.IsJson) (finished : lexer.finish = some tokens) :
    ∀ token ∈ tokens, token.IsJson := by
  unfold finish at finished
  split at finished
  · cases finished
    simpa using all
  · obtain ⟨token, read, rfl⟩ := Option.map_eq_some_iff.mp finished
    rw [List.reverse_cons, List.forall_mem_append, List.forall_mem_singleton]
    exact ⟨by simpa using all, isJson_of_wordToken? _ token read⟩
  · cases finished

end Lexer

theorem isJson_of_tokens? (text : Text) (tokens : List Token) (read : tokens? text = some tokens) :
    ∀ token ∈ tokens, token.IsJson := by
  obtain ⟨lexer, run, finished⟩ := Option.bind_eq_some_iff.mp read
  have all := foldlM_invariant (fun lexer : Lexer => ∀ token ∈ lexer.tokens, token.IsJson) text
    (fun u _ state next => Lexer.isJson_step u state next) ⟨[], .between⟩ lexer (by simp) run
  exact Lexer.isJson_finish lexer tokens all finished

def Container.value : Container → Value
  | .list items => .list items
  | .record entries _ => .record entries

namespace Expectation

def held : Expectation → List Value
  | .value outer | .firstItem outer | .firstKey outer => outer.map Container.value
  | .nextKey entries outer | .colon entries _ outer | .afterMember entries outer =>
    .record entries :: outer.map Container.value
  | .afterItem items outer => .list items :: outer.map Container.value
  | .done whole => [whole]

variable {outer : List Container}

theorem isJson_complete (whole : Value) (json : whole.IsJson)
    (all : ∀ part ∈ outer.map Container.value, part.IsJson) :
    ∀ part ∈ (complete whole outer).held, part.IsJson := by
  cases outer with
  | nil => exact List.forall_mem_singleton.mpr json
  | cons innermost outer =>
    obtain ⟨here, later⟩ := List.forall_mem_cons.mp all
    cases innermost with
    | list items => exact List.forall_mem_cons.mpr ⟨json.cons here, later⟩
    | record entries key => exact List.forall_mem_cons.mpr ⟨json.put here, later⟩

theorem isJson_startValue (token : Token) (legal : token.IsJson) (next : Expectation)
    (all : ∀ part ∈ outer.map Container.value, part.IsJson)
    (started : startValue outer token = some next) : ∀ part ∈ next.held, part.IsJson := by
  unfold startValue at started
  split at started
  · cases started
    exact all
  · cases started
    exact all
  · cases started
    exact isJson_complete _ (.text _) all
  · cases started
    exact isJson_complete _ legal all
  · cases started

theorem isJson_step (token : Token) (legal : token.IsJson) (state next : Expectation)
    (all : ∀ part ∈ state.held, part.IsJson) (stepped : step state token = some next) :
    ∀ part ∈ next.held, part.IsJson := by
  have no_items : (Value.list []).IsJson := .list [] (by simp)
  have no_entries : (Value.record []).IsJson := .record [] .nil (by simp)
  unfold step at stepped
  split at stepped
  · exact isJson_startValue token legal next all stepped
  · cases stepped
    exact isJson_complete _ no_items all
  · refine isJson_startValue token legal next ?_ stepped
    exact List.forall_mem_cons.mpr ⟨no_items, all⟩
  · cases stepped
    exact isJson_complete _ no_entries all
  · cases stepped
    exact List.forall_mem_cons.mpr ⟨no_entries, all⟩
  · cases stepped
    exact all
  · cases stepped
    exact all
  · cases stepped
    exact all
  · cases stepped
    obtain ⟨here, later⟩ := List.forall_mem_cons.mp all
    exact isJson_complete _ here.reverse later
  · cases stepped
    exact all
  · cases stepped
    obtain ⟨here, later⟩ := List.forall_mem_cons.mp all
    exact isJson_complete _ here later
  · cases stepped

end Expectation

theorem isJson_of_read? (text : Text) (value : Value) (read : read? text = some value) :
    value.IsJson := by
  obtain ⟨tokens, split, read⟩ := Option.bind_eq_some_iff.mp read
  obtain ⟨last, run, read⟩ := Option.bind_eq_some_iff.mp read
  have all := foldlM_invariant (fun state : Expectation => ∀ part ∈ state.held, part.IsJson) tokens
    (fun token member state next =>
      Expectation.isJson_step token (isJson_of_tokens? text tokens split token member) state next)
    (.value []) last (by simp [Expectation.held]) run
  split at read
  · cases read
    exact all value List.mem_cons_self
  · cases read

end Json

end AnsiMarkup
