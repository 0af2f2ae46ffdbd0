import AnsiMarkup.Proofs.Rendering.Recursion
import AnsiMarkup.Proofs.Rendering.Serving

namespace AnsiMarkup

namespace Walk

inductive Call
  | enter (phrase : Phrase) (around : Option Phrase)
  | wrap (phrase : Phrase) (body : Text) (around : Option Phrase)

def Call.entered? : Call → Option Phrase
  | .enter phrase _ => some phrase
  | .wrap _ _ _ => none

end Walk

def Visitor.recorded {σ : Type} (visitor : Visitor (StateM σ)) :
    Visitor (StateM (σ × List Walk.Call)) where
  enter := fun phrase around => ExceptT.mk fun state =>
    let (result, after) := (visitor.enter phrase around).run.run state.1
    (result, after, state.2 ++ [.enter phrase around])
  wrap := fun phrase body around => ExceptT.mk fun state =>
    let (result, after) := (visitor.wrap phrase body around).run.run state.1
    (result, after, state.2 ++ [.wrap phrase body around])

namespace Walk

variable {σ : Type}

/-- How the rest of a text is written: from a state, by these calls, to this result and state. A phrase
is entered before its children are written and wrapped after them, and what fails is the end. -/
inductive Visits (visitor : Visitor (StateM σ)) :
    Option Phrase → Text → Int → List Phrase → σ → List Call → Except Error Text → σ → Prop
  | finished (around : Option Phrase) (text : Text) (last : Int) (state : σ) :
      Visits visitor around text last [] state [] (.ok (text.sliceFrom last)) state
  | unclosed (around : Option Phrase) (text : Text) (last : Int) (phrase : Phrase)
      (rest : List Phrase) (state : σ) (unclosed : phrase.closeIndex = none) :
      Visits visitor around text last (phrase :: rest) state []
        (.error (.renderedUnclosed phrase.text)) state
  | refused (around : Option Phrase) (text : Text) (last : Int) (phrase : Phrase)
      (rest : List Phrase) (state after : σ) (error : Error) (closed : phrase.closeIndex ≠ none)
      (entering : (visitor.enter phrase around).run.run state = (.error error, after)) :
      Visits visitor around text last (phrase :: rest) state [.enter phrase around]
        (.error error) after
  | unfilled (around : Option Phrase) (text : Text) (last : Int) (phrase entered : Phrase)
      (rest : List Phrase) (state inside after : σ) (calls : List Call) (error : Error)
      (closed : phrase.closeIndex ≠ none)
      (entering : (visitor.enter phrase around).run.run state = (.ok entered, inside))
      (filling : Visits visitor (some entered) phrase.text 0 phrase.children inside calls
        (.error error) after) :
      Visits visitor around text last (phrase :: rest) state (.enter phrase around :: calls)
        (.error error) after
  | unwrapped (around : Option Phrase) (text : Text) (last : Int) (phrase entered : Phrase)
      (rest : List Phrase) (state inside filled after : σ) (calls : List Call) (body : Text)
      (error : Error) (closed : phrase.closeIndex ≠ none)
      (entering : (visitor.enter phrase around).run.run state = (.ok entered, inside))
      (filling : Visits visitor (some entered) phrase.text 0 phrase.children inside calls
        (.ok body) filled)
      (wrapping : (visitor.wrap entered body around).run.run filled = (.error error, after)) :
      Visits visitor around text last (phrase :: rest) state
        (.enter phrase around :: (calls ++ [.wrap entered body around])) (.error error) after
  | written (around : Option Phrase) (text : Text) (last close : Int) (phrase entered : Phrase)
      (rest : List Phrase) (state inside filled wrapped after : σ) (calls later : List Call)
      (body piece : Text) (others : Except Error Text) (closed : phrase.closeIndex = some close)
      (entering : (visitor.enter phrase around).run.run state = (.ok entered, inside))
      (filling : Visits visitor (some entered) phrase.text 0 phrase.children inside calls
        (.ok body) filled)
      (wrapping : (visitor.wrap entered body around).run.run filled = (.ok piece, wrapped))
      (following : Visits visitor around text (close + 1) rest wrapped later others after) :
      Visits visitor around text last (phrase :: rest) state
        (.enter phrase around :: (calls ++ .wrap entered body around :: later))
        (others.map fun others => text.slice last phrase.openIndex ++ piece ++ others) after

theorem exists_visits (visitor : Visitor (StateM σ)) (around : Option Phrase) (text : Text)
    (last : Int) (phrases : List Phrase) (state : σ) :
    ∃ calls result after, Visits visitor around text last phrases state calls result after := by
  induction phrases using Phrase.forest_induction generalizing around text last state with
  | nil => exact ⟨_, _, _, .finished around text last state⟩
  | cons phrase rest below right =>
    cases closed : phrase.closeIndex with
    | none => exact ⟨_, _, _, .unclosed around text last phrase rest state closed⟩
    | some close =>
      have shut : phrase.closeIndex ≠ none := by simp [closed]
      rcases entering : (visitor.enter phrase around).run.run state with ⟨error | entered, inside⟩
      · exact ⟨_, _, _, .refused around text last phrase rest state inside error shut entering⟩
      · obtain ⟨calls, error | body, filled, filling⟩ := below (some entered) phrase.text 0 inside
        · exact ⟨_, _, _, .unfilled around text last phrase entered rest state inside filled calls
            error shut entering filling⟩
        · rcases wrapping : (visitor.wrap entered body around).run.run filled with
            ⟨error | piece, wrapped⟩
          · exact ⟨_, _, _, .unwrapped around text last phrase entered rest state inside filled
              wrapped calls body error shut entering filling wrapping⟩
          · obtain ⟨later, others, after, following⟩ := right around text (close + 1) wrapped
            exact ⟨_, _, _, .written around text last close phrase entered rest state inside filled
              wrapped after calls later body piece others closed entering filling wrapping following⟩

/-- The other visitor does the same on states that also hold the calls made so far. -/
structure Follows {τ : Type} (visitor : Visitor (StateM σ)) (other : Visitor (StateM τ))
    (place : σ → List Call → τ) : Prop where
  enter : ∀ phrase around state calls,
    (other.enter phrase around).run.run (place state calls) =
      ((visitor.enter phrase around).run.run state).map id
        fun after => place after (calls ++ [.enter phrase around])
  wrap : ∀ phrase body around state calls,
    (other.wrap phrase body around).run.run (place state calls) =
      ((visitor.wrap phrase body around).run.run state).map id
        fun after => place after (calls ++ [.wrap phrase body around])

theorem follows_self (visitor : Visitor (StateM σ)) :
    Follows visitor visitor fun state _ => state :=
  ⟨fun _ _ _ _ => rfl, fun _ _ _ _ _ => rfl⟩

theorem follows_recorded (visitor : Visitor (StateM σ)) :
    Follows visitor visitor.recorded Prod.mk :=
  ⟨fun _ _ _ _ => rfl, fun _ _ _ _ _ => rfl⟩

variable {visitor : Visitor (StateM σ)} {around : Option Phrase} {text : Text} {last : Int}
  {phrases : List Phrase} {state after : σ} {calls : List Call} {result : Except Error Text}

theorem Visits.run {τ : Type} {other : Visitor (StateM τ)} {place : σ → List Call → τ}
    (visits : Visits visitor around text last phrases state calls result after)
    (follows : Follows visitor other place) (earlier : List Call) :
    (writtenAll other around text last phrases).run.run (place state earlier) =
      (result, place after (earlier ++ calls)) := by
  induction visits generalizing earlier with
  | finished around text last state =>
    rw [writtenAll, List.append_nil]
    rfl
  | unclosed around text last phrase rest state unclosed =>
    rw [writtenAll, unclosed, List.append_nil]
    rfl
  | refused around text last phrase rest state after error closed entering =>
    obtain ⟨close, closed⟩ := Option.ne_none_iff_exists'.mp closed
    rw [writtenAll, closed]
    simp only [written_eq, bind_run, follows.enter, entering, Prod.map, id]
  | unfilled around text last phrase entered rest state inside after calls error closed entering
      filling ih =>
    obtain ⟨close, closed⟩ := Option.ne_none_iff_exists'.mp closed
    rw [writtenAll, closed]
    simp only [written_eq, bind_run, follows.enter, entering, Prod.map, id, ih, List.append_assoc,
      List.singleton_append]
  | unwrapped around text last phrase entered rest state inside filled after calls body error closed
      entering filling wrapping ih =>
    obtain ⟨close, closed⟩ := Option.ne_none_iff_exists'.mp closed
    rw [writtenAll, closed]
    simp only [written_eq, bind_run, follows.enter, follows.wrap, entering, wrapping, Prod.map, id, ih,
      List.append_assoc, List.cons_append, List.nil_append]
  | written around text last close phrase entered rest state inside filled wrapped after calls later
      body piece others closed entering filling wrapping following inner right =>
    rw [writtenAll, closed]
    simp only [written_eq, bind_run, follows.enter, follows.wrap, entering, wrapping, Prod.map, id,
      inner, right, List.append_assoc, List.cons_append]
    cases others <;> rfl

def entered (calls : List Call) : List Phrase := calls.filterMap Call.entered?

theorem entered_around (phrase wrapped : Phrase) (body : Text) (around : Option Phrase)
    (calls later : List Call) :
    entered (.enter phrase around :: (calls ++ .wrap wrapped body around :: later)) =
      phrase :: (entered calls ++ entered later) := by
  simp [entered, List.filterMap_cons, Call.entered?]

theorem Visits.entered_eq (visits : Visits visitor around text last phrases state calls result after)
    (output : Text) (done : result = .ok output) : entered calls = Phrase.order phrases := by
  induction visits generalizing output with
  | finished around text last state => rfl
  | unclosed | refused | unfilled | unwrapped => cases done
  | written around text last close phrase entered rest state inside filled wrapped after calls later
      body piece others closed entering filling wrapping following inner right =>
    cases others with
    | error error => cases done
    | ok others => rw [Phrase.order_cons, entered_around, inner body rfl, right others rfl]

theorem Visits.entered_prefix
    (visits : Visits visitor around text last phrases state calls result after) :
    entered calls <+: Phrase.order phrases := by
  induction visits with
  | finished | unclosed => exact List.nil_prefix
  | refused around text last phrase rest state after error closed entering =>
    rw [Phrase.order_cons]
    exact List.prefix_append [phrase] _
  | unfilled around text last phrase entered rest state inside after calls error closed entering
      filling ih =>
    rw [Phrase.order_cons]
    exact List.cons_prefix_cons.mpr ⟨rfl, ih.trans (List.prefix_append _ _)⟩
  | unwrapped around text last phrase entered rest state inside filled after calls body error closed
      entering filling wrapping ih =>
    rw [Phrase.order_cons, entered_around, filling.entered_eq body rfl]
    exact List.cons_prefix_cons.mpr ⟨rfl, (List.prefix_append_right_inj _).mpr List.nil_prefix⟩
  | written around text last close phrase entered rest state inside filled wrapped after calls later
      body piece others closed entering filling wrapping following inner right =>
    rw [Phrase.order_cons, entered_around, filling.entered_eq body rfl]
    exact List.cons_prefix_cons.mpr ⟨rfl, (List.prefix_append_right_inj _).mpr right⟩

def Call.Throws (visitor : Visitor (StateM σ)) (call : Call) (error : Error) : Prop :=
  ∃ state after, match call with
    | .enter phrase around => (visitor.enter phrase around).run.run state = (.error error, after)
    | .wrap phrase body around =>
      (visitor.wrap phrase body around).run.run state = (.error error, after)

/-- A walk fails at its last call, or at the phrase that comes next in document order and is open. -/
theorem Visits.stopped (visits : Visits visitor around text last phrases state calls result after)
    (error : Error) (failed : result = .error error) :
    (∃ before call, calls = before ++ [call] ∧ call.Throws visitor error) ∨
      ∃ phrase later, Phrase.order phrases = entered calls ++ phrase :: later ∧
        phrase.closeIndex = none ∧ error = .renderedUnclosed phrase.text := by
  induction visits generalizing error with
  | finished => cases failed
  | unclosed around text last phrase rest state unclosed =>
    cases failed
    exact .inr ⟨phrase, _, Phrase.order_cons phrase rest, unclosed, rfl⟩
  | refused around text last phrase rest state after thrown closed entering =>
    cases failed
    exact .inl ⟨[], _, rfl, state, after, entering⟩
  | unfilled around text last phrase entered rest state inside after calls thrown closed entering
      filling ih =>
    rcases ih error failed with ⟨before, call, rfl, throws⟩ | ⟨next, later, order, unclosed, same⟩
    · exact .inl ⟨.enter phrase around :: before, call, rfl, throws⟩
    · refine .inr ⟨next, later ++ Phrase.order rest, ?_, unclosed, same⟩
      rw [Phrase.order_cons, order, List.append_assoc]
      rfl
  | unwrapped around text last phrase entered rest state inside filled after calls body thrown closed
      entering filling wrapping ih =>
    cases failed
    exact .inl ⟨.enter phrase around :: calls, _, rfl, filled, after, wrapping⟩
  | written around text last close phrase entered rest state inside filled wrapped after calls later
      body piece others closed entering filling wrapping following inner right =>
    cases others with
    | ok others => cases failed
    | error thrown =>
      cases failed
      rcases right error rfl with ⟨before, call, rfl, throws⟩ | ⟨next, beyond, order, unclosed, same⟩
      · refine .inl ⟨.enter phrase around :: (calls ++ .wrap entered body around :: before), call, ?_,
          throws⟩
        simp
      · refine .inr ⟨next, beyond, ?_, unclosed, same⟩
        rw [Phrase.order_cons, entered_around, filling.entered_eq body rfl, order]
        simp

theorem Visits.closed_of_entered
    (visits : Visits visitor around text last phrases state calls result after) :
    ∀ phrase ∈ entered calls, phrase.closeIndex ≠ none := by
  induction visits with
  | finished | unclosed => simp [entered]
  | refused around text last phrase rest state after error closed entering =>
    exact List.forall_mem_singleton.mpr closed
  | unfilled around text last phrase entered rest state inside after calls error closed entering
      filling ih => exact List.forall_mem_cons.mpr ⟨closed, ih⟩
  | unwrapped around text last phrase entered rest state inside filled after calls body error closed
      entering filling wrapping ih =>
    rw [entered_around, List.forall_mem_cons, List.forall_mem_append]
    exact ⟨closed, ih, by simp [Walk.entered]⟩
  | written around text last close phrase entered rest state inside filled wrapped after calls later
      body piece others closed entering filling wrapping following inner right =>
    rw [entered_around, List.forall_mem_cons, List.forall_mem_append]
    exact ⟨by simp [closed], inner, right⟩

end Walk

/-- The walk with a stack is a recursion over the forest, for all visitors and whatever indices the
phrases have. Its calls are those of the recursion: no open phrase is entered, and a failure is that of
the last call, or that of an open phrase which comes next. -/
theorem walk_recursive {σ : Type} (visitor : Visitor (StateM σ)) (text : Text)
    (phrases : List Phrase) (parent : Option Phrase) (state : σ) :
    (∀ (m : Type → Type) [Monad m] [LawfulMonad m] (other : Visitor m),
      walk other text phrases parent = Walk.writtenAll other parent text 0 phrases) ∧
    ∃ calls result after,
      (walk visitor text phrases parent).run.run state = (result, after) ∧
      (walk visitor.recorded text phrases parent).run.run (state, []) = (result, after, calls) ∧
      Walk.Visits visitor parent text 0 phrases state calls result after ∧
      (∀ output, result = .ok output → Walk.entered calls = Phrase.order phrases) ∧
      Walk.entered calls <+: Phrase.order phrases ∧
      (∀ phrase ∈ Walk.entered calls, phrase.closeIndex ≠ none) ∧
      (∀ error, result = .error error →
        (∃ before call, calls = before ++ [call] ∧ call.Throws visitor error) ∨
          ∃ phrase later, Phrase.order phrases = Walk.entered calls ++ phrase :: later ∧
            phrase.closeIndex = none ∧ error = .renderedUnclosed phrase.text) ∧
      ((∀ call : Walk.Call, ¬call.Throws visitor .frameWithoutPhrase) →
        result ≠ .error .frameWithoutPhrase) := by
  refine ⟨fun m _ _ other => walk_eq other text phrases parent, ?_⟩
  obtain ⟨calls, result, after, visits⟩ := Walk.exists_visits visitor parent text 0 phrases state
  refine ⟨calls, result, after, ?_, ?_, visits, visits.entered_eq, visits.entered_prefix,
    visits.closed_of_entered, visits.stopped, ?_⟩
  · rw [walk_eq]
    exact visits.run (Walk.follows_self visitor) []
  · rw [walk_eq]
    exact visits.run (Walk.follows_recorded visitor) []
  · intro never failed
    rcases visits.stopped _ failed with ⟨before, call, -, throws⟩ | ⟨phrase, later, -, -, same⟩
    · exact never call throws
    · cases same

/-- The second phrase starts before the first one, ends beyond the text and holds an open one. -/
theorem walk_recursive_open :
    let visitor : Visitor (StateM Nat) :=
      ⟨fun phrase _ => do modify (· + 1); pure phrase, fun _ body _ => pure ("[" ++ body ++ "]")⟩
    let inner : Phrase := ⟨"y", 5, none, [], false, none, []⟩
    let outer : Phrase := ⟨"x", -9, some 7, [], false, none, [inner]⟩
    let first : Phrase := ⟨"z", 2, some 2, [], false, none, []⟩
    LawfulMonad (StateM (Nat × List Walk.Call)) ∧
      (walk visitor.recorded "abc" [first, outer] none).run.run (0, []) =
        (.error (.renderedUnclosed "y"), 2,
          [.enter first none, .wrap first "z" none, .enter outer none]) := by
  intro visitor inner outer first
  have recursive := (walk_recursive visitor "abc" [first, outer] none 0).1
    (StateM (Nat × List Walk.Call)) visitor.recorded
  refine ⟨inferInstance, ?_⟩
  rw [recursive]
  rfl

end AnsiMarkup
