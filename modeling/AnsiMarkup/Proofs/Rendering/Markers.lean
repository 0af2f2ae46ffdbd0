import AnsiMarkup.Painter
import AnsiMarkup.Proofs.Rendering.Painting
import AnsiMarkup.Proofs.Rendering.Trees

/-! A document and its forest say the same: phrases written with their markers give back the text, and
the text without their markers is what stripping gives. -/

namespace AnsiMarkup

namespace Phrase

mutual

def markers (start : Int) : Phrase → List (Int × Marker)
  | ⟨_, openIndex, closeIndex, _, _, _, children⟩ =>
    (start + openIndex, .opening) ::
      (allMarkers (start + openIndex + 1) children ++
        closeIndex.toList.map fun close => (start + close, .closing))

def allMarkers (start : Int) : List Phrase → List (Int × Marker)
  | [] => []
  | phrase :: rest => markers start phrase ++ allMarkers start rest

end

theorem length_allMarkers (start : Int) (phrases : List Phrase)
    (closed : ∀ phrase ∈ order phrases, phrase.closeIndex.isSome = true) :
    (allMarkers start phrases).length = 2 * counts phrases := by
  induction phrases using forest_induction generalizing start with
  | nil => rfl
  | cons phrase rest below right =>
    rw [order_cons] at closed
    rcases List.forall_mem_cons.mp closed with ⟨here, later⟩
    have inner := below (start + phrase.openIndex + 1) fun child member =>
      later child (List.mem_append_left _ member)
    have others := right start fun other member => later other (List.mem_append_right _ member)
    rcases Option.isSome_iff_exists.mp here with ⟨close, closed⟩
    rcases phrase with ⟨text, openIndex, closeIndex, arguments, overrideAlways, styleCode, children⟩
    simp only at closed inner
    rw [allMarkers, markers, counts, count, List.length_append, List.length_cons,
      List.length_append, inner, others, closed]
    simp only [Option.toList_some, List.map_singleton, List.length_singleton]
    omega

end Phrase

def Text.without (places : List Int) (start : Nat) (text : Text) : Text :=
  ((text.zipIdx start).filter fun placed => (placed.2 : Int) ∉ places).map Prod.fst

/-- The markers are units of the text, which stands at `start`, in their order, and `rest` is what else
the text holds. -/
structure Text.Marked (start : Nat) (text : Text) (markers : List (Int × Marker)) (rest : Text) :
    Prop where
  standing : ∀ marker ∈ markers, ∃ n : Nat, marker.1 = start + n ∧ text[n]? = some marker.2.toUnit
  ordered : (markers.map Prod.fst).Pairwise (· < ·)
  without : text.without (markers.map Prod.fst) start = rest
  length : rest.length + markers.length = text.length

namespace Text.Marked

variable {start : Nat} {text front back first second : Text} {markers left right : List (Int × Marker)}

theorem bounds (marked : Marked start text markers first) (place : Int)
    (member : place ∈ markers.map Prod.fst) : start ≤ place ∧ place < start + text.length := by
  rcases List.mem_map.mp member with ⟨marker, here, rfl⟩
  rcases marked.standing marker here with ⟨n, at_n, unit⟩
  have inside := (List.getElem?_eq_some_iff.mp unit).1
  omega

theorem units (start : Nat) (text : Text) : Marked start text [] text := by
  refine ⟨by simp, .nil, ?_, rfl⟩
  simp [Text.without]

theorem marker (start : Nat) (marker : Marker) :
    Marked start marker.toText [((start : Int), marker)] [] := by
  refine ⟨?_, List.pairwise_singleton _ _, ?_, rfl⟩
  · intro other member
    rw [List.mem_singleton] at member
    subst member
    exact ⟨0, (Int.add_zero _).symm, rfl⟩
  · simp [Text.without, Marker.toText]

theorem append (marked : Marked start front left first)
    (marked_back : Marked (start + front.length) back right second) :
    Marked start (front ++ back) (left ++ right) (first ++ second) := by
  have bounds := marked.bounds
  have bounds_back := marked_back.bounds
  refine ⟨?_, ?_, ?_, ?_⟩
  · intro marker member
    rcases List.mem_append.mp member with here | behind
    · obtain ⟨n, place, unit⟩ := marked.standing marker here
      have inside := (List.getElem?_eq_some_iff.mp unit).1
      exact ⟨n, place, by rw [List.getElem?_append_left inside, unit]⟩
    · obtain ⟨n, place, unit⟩ := marked_back.standing marker behind
      refine ⟨front.length + n, by omega, ?_⟩
      rw [List.getElem?_append_right (Nat.le_add_right _ _), Nat.add_sub_cancel_left, unit]
  · rw [List.map_append, List.pairwise_append]
    refine ⟨marked.ordered, marked_back.ordered, ?_⟩
    intro place here other behind
    have before := (bounds place here).2
    have after := (bounds_back other behind).1
    omega
  · rw [← marked.without, ← marked_back.without, Text.without, Text.without, Text.without,
      List.zipIdx_append,
      List.filter_append, List.map_append, List.map_append]
    congr 2
    · apply List.filter_congr
      intro placed member
      have inside := List.snd_lt_of_mem_zipIdx member
      have far : (placed.2 : Int) ∉ right.map Prod.fst := by
        intro behind
        have after := (bounds_back _ behind).1
        omega
      rw [decide_eq_decide, List.mem_append, or_iff_left far]
    · apply List.filter_congr
      intro placed member
      have outside := List.le_snd_of_mem_zipIdx member
      have far : (placed.2 : Int) ∉ left.map Prod.fst := by
        intro here
        have before := (bounds _ here).2
        omega
      rw [decide_eq_decide, List.mem_append, or_iff_right far]
  · rw [List.length_append, List.length_append, List.length_append, ← marked.length,
      ← marked_back.length]
    omega

end Text.Marked

namespace Node

theorem marked_scope (nodes : List Node) (start : Int) (before place : Nat)
    (placed : start + before = place) :
    Text.Marked place (scopeText nodes) (Phrase.allMarkers start (scopePhrases before nodes))
      (scopePlain nodes) := by
  induction nodes using scope_induction generalizing start before place with
  | nil => exact .units place []
  | unit u rest ih =>
    have later := ih start (before + 1) (place + 1) (by omega)
    exact (Text.Marked.units place [u]).append later
  | phrase specifier content rest inner outer =>
    have opening := Text.Marked.marker place .opening
    have body := inner (start + before + 1) 0 (place + 1) (by omega)
    have closing := Text.Marked.marker (place + (Marker.opening.toText ++ scopeText content).length)
      .closing
    have behind := outer start (before + (text (.phrase specifier content)).length)
      (place + (text (.phrase specifier content)).length) (by push_cast; omega)
    have whole := ((opening.append body).append closing).append behind
    rw [scopePhrases, phrases_phrase, List.singleton_append, Phrase.allMarkers, phraseAt,
      Phrase.markers]
    have last : ((place + (Marker.opening.toText ++ scopeText content).length : Nat) : Int) =
        start + (before + 1 + (scopeText content).length) := by
      rw [Marker.toText, List.length_append, List.length_singleton]
      push_cast
      omega
    rw [last, ← placed] at whole
    simpa only [scopeText, text, scopePlain, plain, List.append_assoc, List.nil_append,
      List.cons_append, Option.toList_some, List.map_cons, List.map_nil] using whole

end Node

/-- Each phrase is written between its markers; what was written so is kept, the newest last. -/
def Visitor.marking : Visitor (StateM (List (Phrase × Text))) where
  enter := fun phrase _ => pure phrase
  wrap := fun phrase body _ => do
    modify (· ++ [(phrase, body)])
    pure (Marker.opening.toText ++ body ++ Marker.closing.toText)

theorem Visitor.enter_marking (phrase : Phrase) (around : Option Phrase)
    (before : List (Phrase × Text)) :
    (marking.enter phrase around).run.run before = (.ok phrase, before) := rfl

theorem Visitor.wrap_marking (phrase : Phrase) (body : Text) (around : Option Phrase)
    (before : List (Phrase × Text)) :
    (marking.wrap phrase body around).run.run before =
      (.ok (Marker.opening.toText ++ body ++ Marker.closing.toText), before ++ [(phrase, body)]) := rfl

namespace Node

theorem walkedScope_marking (nodes : List Node) (around : Option Phrase) (start : Nat) :
    ∃ wrapped : List (Phrase × Text),
      wrapped.Perm ((Phrase.order (scopePhrases start nodes)).map fun phrase =>
        (phrase, phrase.text)) ∧
      ∀ before, (walkedScope Visitor.marking around start nodes).run.run before =
        (.ok (scopeText nodes), before ++ wrapped) := by
  induction nodes using scope_induction generalizing around start with
  | nil =>
    refine ⟨[], .nil, ?_⟩
    intro before
    rw [List.append_nil]
    rfl
  | unit u rest ih =>
    obtain ⟨wrapped, each, run⟩ := ih around (start + (text (.unit u)).length)
    refine ⟨wrapped, each, ?_⟩
    intro before
    rw [walkedScope, walked, pure_bind, bind_run, run]
    rfl
  | phrase specifier content rest inner outer =>
    let phrase := phraseAt start specifier content
    obtain ⟨below, each, run⟩ := inner (some phrase) 0
    obtain ⟨right, each_right, run_right⟩ :=
      outer around (start + (text (.phrase specifier content)).length)
    refine ⟨below ++ (phrase, phrase.text) :: right, ?_, ?_⟩
    · rw [scopePhrases, phrases_phrase, List.singleton_append, Phrase.order_cons, List.map_cons,
        List.map_append]
      exact List.perm_middle.trans ((each.append each_right).cons _)
    · intro before
      have here : (walked Visitor.marking around start (.phrase specifier content)).run.run before =
          (.ok (text (.phrase specifier content)), before ++ below ++ [(phrase, phrase.text)]) := by
        rw [walked, bind_run, Visitor.enter_marking]
        simp only
        rw [bind_run, run]
        exact Visitor.wrap_marking phrase (scopeText content) around (before ++ below)
      rw [walkedScope, bind_run, here]
      simp only
      rw [bind_run, run_right, List.append_assoc, List.append_assoc]
      rfl

end Node

/-- Markup stands for one document: writing its phrases between markers again gives back the text, with
every phrase wrapped once around its own text, and the plain text is the text without the two markers of
each phrase. -/
theorem forest_and_text (markup : Text) (document : Document)
    (parsed : (parse markup).result = .ok document) :
    (∃ wrapped : List (Phrase × Text),
      (walk Visitor.marking document.text document.phrases none).run.run [] =
        (.ok document.text, wrapped) ∧
      wrapped.Perm ((Phrase.order document.phrases).map fun phrase => (phrase, phrase.text))) ∧
    ∃ stripped, (plain markup).result = .ok stripped ∧
      document.text.Marked 0 (Phrase.allMarkers 0 document.phrases) stripped ∧
      (Phrase.allMarkers 0 document.phrases).length = 2 * Phrase.counts document.phrases ∧
      stripped.length + 2 * Phrase.counts document.phrases = document.text.length := by
  have closed := fun phrase member => (fresh_of_parse markup document parsed phrase member).closed
  have twice := Phrase.length_allMarkers 0 document.phrases closed
  obtain ⟨nodes, rfl, -, -⟩ := parse_tree markup document parsed
  constructor
  · obtain ⟨wrapped, each, run⟩ := Node.walkedScope_marking nodes none 0
    rw [walk_document]
    exact ⟨wrapped, run [], each⟩
  · have marked := Node.marked_scope nodes 0 0 0 rfl
    refine ⟨Node.scopePlain nodes, ?_, marked, twice, ?_⟩
    · rw [result_plain_of_parse markup _ parsed, Node.strip_document]
    · rw [← twice]
      exact marked.length

/-- A phrase in another one, behind an escaped backslash. -/
theorem forest_and_text_nested :
    let inner : Phrase := ⟨"c", 2, some 4, [], false, none, []⟩
    let outer : Phrase := ⟨"b\\<c>", 2, some 8, [], false, none, [inner]⟩
    let whole : Text := "x <b\\<c>>"
    (parse "x <b\\\\<c>>").result = .ok ⟨whole, [outer]⟩ ∧
      (∃ wrapped : List (Phrase × Text),
        (walk Visitor.marking whole [outer] none).run.run [] = (.ok whole, wrapped) ∧
        wrapped.Perm [(outer, "b\\<c>"), (inner, "c")]) ∧
      ∃ stripped, (plain "x <b\\\\<c>>").result = .ok stripped ∧
        whole.Marked 0 [(2, .opening), (5, .opening), (7, .closing), (8, .closing)] stripped ∧
        stripped.length = 5 := by
  intro inner outer whole
  have parsed : (parse "x <b\\\\<c>>").result = .ok ⟨whole, [outer]⟩ := rfl
  obtain ⟨wrapped, stripped, plain, marked, -, length⟩ := forest_and_text _ _ parsed
  exact ⟨parsed, wrapped, stripped, plain, marked, Nat.add_right_cancel (length.trans rfl)⟩

end AnsiMarkup
