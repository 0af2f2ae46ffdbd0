import AnsiMarkup.Proofs.Markup.Refinement
import AnsiMarkup.Proofs.Markup.Within

namespace AnsiMarkup

def Document.append (first second : Document) : Document :=
  ⟨first.text ++ second.text, first.phrases ++ second.phrases.map (Phrase.shift first.text.length)⟩

def Document.enclose (document : Document) : Document where
  text := Marker.opening.toText ++ document.text ++ Marker.closing.toText
  phrases :=
    [{ text := document.text
       openIndex := 0
       closeIndex := some (1 + document.text.length)
       arguments := []
       overrideAlways := false
       styleCode := none
       children := document.phrases }]

theorem WholeScope.empty_join (scope : WholeScope) : empty.join scope = scope := by
  have still : scope.children.map (Phrase.shift 0) = scope.children := by
    rw [List.map_congr_left fun phrase _ => phrase.shift_zero, List.map_id']
  rw [join, empty, List.length_nil, List.nil_append, List.append_nil, still]

theorem map_index_diagnostics (markup : Text) :
    (parse markup).diagnostics.map Diagnostic.index =
      ((readWhole markup).strays.map Stray.index).reverse := by
  rw [← List.map_reverse, ← diagnostics_parse, List.map_map]
  rfl

/-- After a markup that leaves nothing open, another one is read as on its own. -/
theorem alike_readWhole_append (front back : Text)
    (unescaped : front.endsWith CodeUnit.backslash = false)
    (closed : (readWhole front).opened = []) :
    WholeReader.Alike (readWhole (front ++ back)) ((readWhole front).within (readWhole back)) := by
  have first : WholeReader.Alike (WholeReader.start.readFront back front) (readWhole front) := by
    rw [readWhole, ← WholeReader.readFront_nil]
    exact (WholeReader.Alike.refl _).readFront front back []
  have second := WholeReader.alike_within_readFront (readWhole front) .start
    (WholeReader.start.readFront back front) back [] []
    (first.trans (.of_eq (WholeReader.within_start _).symm))
    (WholeReader.endsWith_readWhole front unescaped) (.inl closed)
  rw [WholeReader.readFront_nil, WholeReader.readFront_nil, ← WholeReader.read_append] at second
  exact second

theorem parse_append (front back : Text) (first second : Document)
    (unescaped : front.endsWith CodeUnit.backslash = false)
    (parsed_front : (parse front).result = .ok first)
    (parsed_back : (parse back).result = .ok second) :
    (parse (front ++ back)).result = .ok (first.append second) := by
  obtain ⟨closed, text, phrases⟩ := (parse_eq_ok_iff front first).mp parsed_front
  obtain ⟨closed_back, text_back, phrases_back⟩ := (parse_eq_ok_iff back second).mp parsed_back
  have alike := alike_readWhole_append front back unescaped closed
  have scope := WholeReader.scope_of_outside (readWhole front) closed
  have joined : (readWhole (front ++ back)).document =
      (readWhole front).document.join (readWhole back).document := by
    rw [alike.document, WholeReader.within, WholeReader.setScope, closed, scope]
  rw [parse_eq_ok_iff, joined]
  refine ⟨?_, ?_, ?_⟩
  · rw [alike.opened, WholeReader.within_of_outside _ _ closed_back, WholeReader.setScope, closed]
  · rw [Document.append, text, text_back, WholeScope.join]
  · rw [Document.append, phrases, phrases_back, text, WholeScope.join, List.reverse_append,
      List.map_reverse]

theorem exists_parse_of_append (front back : Text) (first document : Document)
    (unescaped : front.endsWith CodeUnit.backslash = false)
    (parsed_front : (parse front).result = .ok first)
    (parsed : (parse (front ++ back)).result = .ok document) :
    ∃ second, (parse back).result = .ok second := by
  have closed := ((parse_eq_ok_iff front first).mp parsed_front).1
  have alike := alike_readWhole_append front back unescaped closed
  have none := ((parse_eq_ok_iff _ document).mp parsed).1
  rw [alike.opened, WholeReader.within, List.append_eq_nil_iff,
    WholePhrase.shiftOutermost_eq_nil_iff] at none
  exact ⟨⟨_, _⟩, (parse_eq_ok_iff back _).mpr ⟨none.1, rfl, rfl⟩⟩

theorem map_index_diagnostics_append (front back : Text) (first : Document)
    (unescaped : front.endsWith CodeUnit.backslash = false)
    (parsed_front : (parse front).result = .ok first) :
    (parse (front ++ back)).diagnostics.map Diagnostic.index =
      (parse front).diagnostics.map Diagnostic.index ++
        (parse back).diagnostics.map fun d => d.index + first.text.length := by
  obtain ⟨closed, text, -⟩ := (parse_eq_ok_iff front first).mp parsed_front
  have scope := WholeReader.scope_of_outside (readWhole front) closed
  have alike := alike_readWhole_append front back unescaped closed
  calc
    _ = (((readWhole front).within (readWhole back)).strays.map Stray.index).reverse := by
      rw [map_index_diagnostics, alike.strays]
    _ = ((readWhole front).strays.map Stray.index).reverse ++
        ((readWhole back).strays.map fun stray => stray.index + first.text.length).reverse := by
      rw [WholeReader.within, scope, text, List.map_append, List.reverse_append, List.map_map]
      rfl
    _ = _ := by
      have indices := congrArg (List.map (· + first.text.length)) (map_index_diagnostics back)
      rw [List.map_map, List.map_reverse, List.map_map] at indices
      rw [map_index_diagnostics front]
      exact congrArg _ indices.symm

namespace WholeReader

def alone (scope : WholeScope) : WholeReader := ⟨.empty, [⟨0, [], false, scope⟩], []⟩

theorem within_alone (inner : WholeReader) (closed : inner.opened = []) (silent : inner.strays = []) :
    (alone .empty).within inner = alone inner.document := by
  rw [within_of_outside _ _ closed, silent]
  exact congrArg alone (WholeScope.empty_join inner.document)

theorem meetClosing_alone (scope : WholeScope) (ahead : Text)
    (unspecified : Specifier.ofText? scope.text = none)
    (unescaped : scope.text.endsWith CodeUnit.backslash = false) :
    (alone scope).meetClosing ahead =
      ⟨⟨(Document.enclose ⟨scope.text, scope.children.reverse⟩).text,
        (Document.enclose ⟨scope.text, scope.children.reverse⟩).phrases⟩, [], []⟩ := by
  have resolved : scope.resolve = (scope, false) := by
    rw [WholeScope.resolve, Escaping.ofText_of_not_endsWith _ unescaped]
  simp [alone, meetClosing, unspecified, resolved, closePhrase, setScope, WholeReader.scope,
    WholePhrase.close, WholeScope.addChild, WholeScope.append, WholeScope.empty, Document.enclose]

theorem alike_alone (markup ahead : Text) (closed : (readWhole markup).opened = [])
    (silent : (readWhole markup).strays = []) :
    Alike ((alone .empty).readFront ahead markup) (alone (readWhole markup).document) := by
  have inside := alike_within_readFront (alone .empty) start (alone .empty) markup ahead []
    (.of_eq (within_start _).symm) rfl
  rw [readFront_nil] at inside
  exact (inside (.inr silent)).trans (.of_eq (within_alone _ closed silent))

end WholeReader

theorem parse_enclosed (markup : Text) (document : Document)
    (parsed : (parse markup).result = .ok document) (silent : (parse markup).diagnostics = [])
    (unescaped : markup.endsWith CodeUnit.backslash = false)
    (unspecified : Specifier.ofText? document.text = none) :
    let enclosed := Marker.opening.toText ++ markup ++ Marker.closing.toText
    (parse enclosed).result = .ok document.enclose ∧ (parse enclosed).diagnostics = [] := by
  intro enclosed
  obtain ⟨closed, text, phrases⟩ := (parse_eq_ok_iff markup document).mp parsed
  have ends := WholeReader.endsWith_readWhole markup unescaped
  rw [WholeReader.scope_of_outside _ closed] at ends
  rw [text] at unspecified
  have same : document =
      ⟨(readWhole markup).document.text, (readWhole markup).document.children.reverse⟩ := by
    rw [← text, ← phrases]
  have content := WholeReader.alike_alone markup Marker.closing.toText closed
    ((diagnostics_eq_nil_iff markup).mp silent)
  have read : readWhole enclosed =
      ((WholeReader.alone .empty).readFront Marker.closing.toText markup).meetClosing [] := by
    have whole : enclosed =
        Marker.opening.toUnit :: (markup ++ [Marker.closing.toUnit]) := List.append_assoc _ _ _
    rw [readWhole, whole, WholeReader.read_cons]
    exact (WholeReader.read_append (.alone .empty) markup _).trans
      ((WholeReader.read_cons _ _ _).trans (WholeReader.read_nil _))
  have finished := content.meetClosing [] []
  rw [← read, WholeReader.meetClosing_alone _ [] unspecified ends, ← same] at finished
  constructor
  · rw [parse_eq_ok_iff, finished.opened, finished.document]
    exact ⟨rfl, rfl, rfl⟩
  · rw [diagnostics_eq_nil_iff]
    exact List.map_eq_nil_iff.mp finished.strays

end AnsiMarkup
