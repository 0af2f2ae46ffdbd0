import AnsiMarkup.Proofs.Rendering.Display
import AnsiMarkup.Proofs.Rendering.Turns

/-! Forests rendered again. A phrase is given codes at most once, and a forest whose first phrase has codes
is refused as it is. -/

namespace AnsiMarkup

namespace Phrase

def CodesKept (earlier later : List Phrase) : Prop :=
  ∀ (n : Nat) (code : Text), (codes earlier)[n]? = some (some code) →
    (codes later)[n]? = some (some code)

theorem CodesKept.refl (phrases : List Phrase) : CodesKept phrases phrases := fun _ _ given => given

theorem CodesKept.trans {first second third : List Phrase} (left : CodesKept first second)
    (right : CodesKept second third) : CodesKept first third :=
  fun n code given => right n code (left n code given)

end Phrase

namespace Rendering

theorem serve_eq_ok (table : FlagTable) (supply left : Supply) (phrase : Phrase) (code : Text)
    (served : serve table supply phrase = (.ok code, left)) : phrase.Fresh := by
  unfold serve at served
  split at served
  · cases served
  · next closed =>
    split at served
    · cases served
    · next styled => exact ⟨by simpa [Option.isSome_iff_ne_none] using closed, by simpa using styled⟩

theorem fresh_of_serveAll (table : FlagTable) (supply : Supply) (phrases : List Phrase) (n : Nat)
    (phrase : Phrase) (here : phrases[n]? = some phrase)
    (given : n < (serveAll table supply phrases).codes.length) : phrase.Fresh := by
  induction phrases generalizing supply n with
  | nil => cases here
  | cons first rest ih =>
    rcases outcome : serve table supply first with ⟨result, left⟩
    simp only [serveAll, outcome] at given
    cases result with
    | error error => cases given
    | ok code =>
      cases n with
      | zero =>
        rw [List.getElem?_cons_zero, Option.some_inj] at here
        rw [← here]
        exact serve_eq_ok table supply left first code outcome
      | succ n => exact ih left n here (Nat.lt_of_succ_lt_succ given)

theorem length_serveAll_le (table : FlagTable) (supply : Supply) (phrases : List Phrase) :
    (serveAll table supply phrases).codes.length ≤ phrases.length := by
  induction phrases generalizing supply with
  | nil => exact Nat.le_refl 0
  | cons first rest ih =>
    rcases outcome : serve table supply first with ⟨result, left⟩
    simp only [serveAll, outcome]
    cases result with
    | error error => exact Nat.zero_le _
    | ok code => exact Nat.succ_le_succ (ih left)

theorem codes_setCodes_of_split (table : FlagTable) (phrases : List Phrase)
    (bare : ∀ phrase ∈ Phrase.order phrases, phrase.styleCode = none) (before after : List Phrase)
    (split : Phrase.order phrases = before ++ after) (styles : List Combination)
    (length : styles.length = before.length) :
    Phrase.codes (setCodes phrases (styles.map table.codeText)).1 =
      styles.map (fun style => some (table.codeText style)) ++
        List.replicate after.length none := by
  have enough : (styles.map table.codeText).length ≤ Phrase.counts phrases := by
    rw [List.length_map, length, ← Phrase.length_order, split, List.length_append]
    exact Nat.le_add_right _ _
  have none_yet : Phrase.codes phrases = (before ++ after).map fun _ => none := by
    rw [Phrase.codes, ← split]
    exact List.map_congr_left bare
  rw [(setCodes_of_le phrases _ enough).2, none_yet, List.map_append, List.length_map, length,
    List.drop_left' (List.length_map _), List.map_const', List.map_map]
  rfl

structure Request where
  table : FlagTable
  text : Text
  supply : Supply
  parent : Option Phrase

def Request.run (request : Request) (phrases : List Phrase) : Rendering :=
  render request.table request.text phrases request.supply request.parent

def afterAll (phrases : List Phrase) : List Request → List Phrase
  | [] => phrases
  | request :: later => afterAll (request.run phrases).phrases later

theorem afterAll_append (phrases : List Phrase) (earlier later : List Request) :
    afterAll phrases (earlier ++ later) = afterAll (afterAll phrases earlier) later := by
  induction earlier generalizing phrases with
  | nil => rfl
  | cons request earlier ih => exact ih _

namespace Request

variable (request : Request)

theorem codesKept_run (phrases : List Phrase) :
    Phrase.CodesKept phrases (request.run phrases).phrases := by
  intro n code coded
  rw [Phrase.codes, List.getElem?_map, Option.map_eq_some_iff] at coded
  obtain ⟨phrase, here, coded⟩ := coded
  let given := (serveAll request.table request.supply (Phrase.order phrases)).codes
  have enough : given.length ≤ Phrase.counts phrases := by
    rw [← Phrase.length_order]
    exact length_serveAll_le request.table request.supply _
  -- A phrase with codes is not served, so it comes after those that were.
  have beyond : given.length ≤ n := by
    by_contra within
    have fresh := fresh_of_serveAll _ _ _ n phrase here (Nat.lt_of_not_le within)
    rw [fresh.uncoded] at coded
    cases coded
  have changed : (request.run phrases).phrases = (setCodes phrases given).1 := by
    rw [run, render_eq]
  rw [changed, (setCodes_of_le phrases given enough).2,
    List.getElem?_append_right (by rwa [List.length_map]), List.getElem?_drop, List.length_map,
    Nat.add_sub_cancel' beyond, Phrase.codes, List.getElem?_map, here, ← coded]
  rfl

theorem run_of_styled (first : Phrase) (rest : List Phrase) (closed : first.closeIndex.isSome = true)
    (styled : first.styleCode.isSome = true) :
    request.run (first :: rest) =
      ⟨.error (.styledTwice first.text), first :: rest, request.supply⟩ := by
  have refused : serveAll request.table request.supply (Phrase.order (first :: rest)) =
      ⟨[], some (.styledTwice first.text), request.supply⟩ := by
    obtain ⟨close, closed⟩ := Option.isSome_iff_exists.mp closed
    rw [Phrase.order_cons, serveAll, serve, closed, if_pos styled]
    rfl
  rw [run, render_eq, refused]
  simp only [setCodes_nil]
  rfl

theorem phrases_run_cases (phrases : List Phrase) :
    (request.run phrases).phrases = phrases ∨
      ∃ first rest, (request.run phrases).phrases = first :: rest ∧
        first.closeIndex.isSome = true ∧ first.styleCode.isSome = true := by
  rw [run, render_eq]
  cases phrases with
  | nil => exact .inl rfl
  | cons phrase rest =>
    simp only [Phrase.order_cons, serveAll]
    rcases outcome : serve request.table request.supply phrase with ⟨result, left⟩
    cases result with
    | error error => exact .inl (by simp only [setCodes_nil])
    | ok code =>
      have fresh := serve_eq_ok _ _ _ _ _ outcome
      simp only [setCodes_cons]
      exact .inr ⟨_, _, rfl, fresh.closed, rfl⟩

end Request

/-- In any number of renderings a forest stays as it was until its first phrase has codes. -/
theorem afterAll_cases (phrases : List Phrase) (requests : List Request) :
    afterAll phrases requests = phrases ∨
      ∃ first rest, afterAll phrases requests = first :: rest ∧
        first.closeIndex.isSome = true ∧ first.styleCode.isSome = true := by
  induction requests generalizing phrases with
  | nil => exact .inl rfl
  | cons request later ih =>
    rw [afterAll]
    rcases request.phrases_run_cases phrases with same | ⟨first, rest, served, closed, styled⟩
    · rw [same]
      exact ih phrases
    -- From here on the first phrase has codes, and the forest stays as it is.
    · rcases ih (first :: rest) with same | styled_later
      · exact .inr ⟨first, rest, by rw [served, same], closed, styled⟩
      · rw [served]
        exact .inr styled_later

theorem codesKept_afterAll (phrases : List Phrase) (requests : List Request) :
    Phrase.CodesKept phrases (afterAll phrases requests) := by
  induction requests generalizing phrases with
  | nil => exact .refl phrases
  | cons request later ih => exact (request.codesKept_run phrases).trans (ih _)

end Rendering

/-- A forest without codes is rendered up to the first phrase in document order that is open or has no
style. The phrases before it are given the codes of the styles that are due to them, as many positional
styles are served as of those are sequential, and nothing else changes. Where no phrase is so, all have
codes in the end. Rendering the forest again, however often, by whatever tables and supplies, fails
without any change as soon as its first phrase has codes, and until then the forest is as it was. No
codes are ever changed. -/
theorem styled_once (phrases : List Phrase)
    (bare : ∀ phrase ∈ Phrase.order phrases, phrase.styleCode = none) (table : FlagTable)
    (text : Text) (palette : Palette) (served : Nat) (parent : Option Phrase) :
    let rendering := render table text phrases ⟨palette, served⟩ parent
    let order := Phrase.order phrases
    Phrase.uncodedAll rendering.phrases = phrases ∧
    (∀ output, rendering.output = .ok output →
      (∀ phrase ∈ order, phrase.closeIndex.isSome = true) ∧
      ∃ styles, palette.Dresses served order styles ∧
        Phrase.codes rendering.phrases = styles.map (fun style => some (table.codeText style)) ∧
        rendering.supply = ⟨palette, served + order.countP palette.isSequential⟩) ∧
    (∀ error, rendering.output = .error error →
      ∃ before phrase after styles, order = before ++ phrase :: after ∧
        (∀ earlier ∈ before, earlier.closeIndex.isSome = true) ∧
        palette.Dresses served before styles ∧
        palette.Stops (served + before.countP palette.isSequential) phrase error ∧
        Phrase.codes rendering.phrases =
          styles.map (fun style => some (table.codeText style)) ++
            List.replicate (phrase :: after).length none ∧
        rendering.supply = ⟨palette, served + before.countP palette.isSequential⟩) ∧
    (∀ (earlier : List Rendering.Request) (again : Rendering.Request),
      let forest := Rendering.afterAll phrases earlier
      ∀ first rest, forest = first :: rest →
        (first.styleCode.isSome = true →
          again.run forest = ⟨.error (.styledTwice first.text), forest, again.supply⟩) ∧
        (first.styleCode = none → forest = phrases)) ∧
    ∀ (earlier later : List Rendering.Request) (n : Nat) (code : Text),
      (Phrase.codes (Rendering.afterAll phrases earlier))[n]? = some (some code) →
        (Phrase.codes (Rendering.afterAll phrases (earlier ++ later)))[n]? = some (some code) := by
  intro rendering order
  have rendered : rendering = _ := render_eq table text phrases ⟨palette, served⟩ parent
  rw [rendered]
  refine ⟨?_, ?_, ?_, ?_, ?_⟩
  · rw [Rendering.uncodedAll_setCodes, Phrase.uncodedAll_eq_self phrases bare]
  · intro output done
    rcases Rendering.serveAll_of_uncoded table palette served order bare with
      ⟨styles, closed, dressed, all⟩ | ⟨before, phrase, after, styles, error, -, -, -, -, all⟩
    · refine ⟨closed, styles, dressed, ?_, by rw [all]⟩
      have codes := Rendering.codes_setCodes_of_split table phrases bare order []
        (List.append_nil _).symm styles dressed.length
      rw [List.length_nil, List.replicate_zero, List.append_nil] at codes
      rw [all]
      exact codes
    · rw [all] at done
      cases done
  · intro error failed
    rcases Rendering.serveAll_of_uncoded table palette served order bare with
      ⟨styles, -, -, all⟩ | ⟨before, phrase, after, styles, cause, split, closed, dressed, stops, all⟩
    · rw [all] at failed
      cases failed
    · rw [all] at failed
      cases failed
      refine ⟨before, phrase, after, styles, split, closed, dressed, stops, ?_, by rw [all]⟩
      rw [all]
      exact Rendering.codes_setCodes_of_split table phrases bare before (phrase :: after) split styles
        dressed.length
  · intro earlier again forest first rest here
    rcases Rendering.afterAll_cases phrases earlier with same | ⟨other, others, there, closed, styled⟩
    · refine ⟨?_, fun _ => same⟩
      intro coded
      have member : first ∈ Phrase.order phrases := by
        rw [same.symm.trans here, Phrase.order_cons]
        exact List.mem_cons_self
      rw [bare first member] at coded
      cases coded
    · obtain ⟨rfl, rfl⟩ := List.cons_eq_cons.mp (there.symm.trans here)
      constructor
      · intro _
        rw [here]
        exact again.run_of_styled other others closed styled
      · intro coded
        rw [coded] at styled
        cases styled
  · intro earlier later n code coded
    rw [Rendering.afterAll_append]
    exact Rendering.codesKept_afterAll _ later n code coded

/-- The second of two phrases finds no style left, and a second rendering is refused at the first. -/
theorem styled_once_spent :
    let table : FlagTable := ⟨[⟨"format", [⟨"bold", .finite 1, 0⟩]⟩]⟩
    let a : Phrase := ⟨"a", 0, some 2, [], false, none, []⟩
    let b : Phrase := ⟨"b", 3, some 5, [], false, none, []⟩
    let coded : Phrase := { a with styleCode := some "1" }
    let again : Rendering.Request := ⟨table, "<a><b>", ⟨⟨[0, 0], []⟩, 0⟩, none⟩
    (∀ phrase ∈ Phrase.order [a, b], phrase.styleCode = none) ∧
      render table "<a><b>" [a, b] ⟨⟨[1], []⟩, 0⟩ none =
        ⟨.error (.slotsExhausted 2 "b" 1), [coded, b], ⟨⟨[1], []⟩, 1⟩⟩ ∧
      again.run [coded, b] = ⟨.error (.styledTwice "a"), [coded, b], again.supply⟩ := by
  intro table a b coded again
  have order : Phrase.order [a, b] = [a, b] := rfl
  have bare : ∀ phrase ∈ Phrase.order [a, b], phrase.styleCode = none := by
    simp [order, a, b]
  have rendered : render table "<a><b>" [a, b] ⟨⟨[1], []⟩, 0⟩ none =
      ⟨.error (.slotsExhausted 2 "b" 1), [coded, b], ⟨⟨[1], []⟩, 1⟩⟩ := by
    rw [render_eq]
    rfl
  obtain ⟨-, -, -, repeated, -⟩ := styled_once [a, b] bare table "<a><b>" ⟨[1], []⟩ 0 none
  let first : Rendering.Request := ⟨table, "<a><b>", ⟨⟨[1], []⟩, 0⟩, none⟩
  have left : Rendering.afterAll [a, b] [first] = [coded, b] :=
    congrArg Rendering.phrases rendered
  have refused := (repeated [first] again coded [b] left).1 rfl
  rw [left] at refused
  exact ⟨bare, rendered, refused⟩

end AnsiMarkup
