import AnsiMarkup.Proofs.Record.Assignments
import Mathlib.Data.List.Flatten
import Mathlib.Data.List.Induction
import Mathlib.Data.List.Perm.Basic

namespace AnsiMarkup

namespace Entries

variable {α : Type}

theorem get?_eq_some_iff (key : Text) (value : α) (entries : Entries α)
    (distinct : (entries.map Prod.fst).Nodup) :
    get? key entries = some value ↔ (key, value) ∈ entries := by
  refine ⟨mem_of_get?, ?_⟩
  induction entries with
  | nil => exact nofun
  | cons entry rest ih =>
    obtain ⟨fresh, distinct⟩ := List.nodup_cons.mp distinct
    intro member
    rcases List.mem_cons.mp member with rfl | later
    · exact if_pos rfl
    · have apart : entry.1 ≠ key := by
        intro same
        rw [same] at fresh
        exact fresh (List.mem_map_of_mem later)
      rw [get?, if_neg apart]
      exact ih distinct later

theorem perm_of_get?_eq (first second : Entries α) (distinct : (first.map Prod.fst).Nodup)
    (other : (second.map Prod.fst).Nodup) (same : ∀ key, get? key first = get? key second) :
    first.Perm second := by
  rw [List.perm_ext_iff_of_nodup (.of_map _ distinct) (.of_map _ other)]
  intro ⟨key, value⟩
  rw [← get?_eq_some_iff key value first distinct, ← get?_eq_some_iff key value second other, same]

end Entries

namespace Record

variable {α β : Type}

section Order

theorem precedes_iff (key other : Text) :
    precedes key other = true ↔
      ∃ i, listIndex? key = some i ∧ ∀ j, listIndex? other = some j → i < j := by
  rw [precedes]
  cases listIndex? key with
  | none => simp
  | some i => cases listIndex? other <;> simp

theorem precedes_of_not_precedes {first second third : Text} (before : precedes first second = true)
    (behind : precedes third second = false) : precedes first third = true := by
  obtain ⟨i, index, above⟩ := (precedes_iff first second).mp before
  refine (precedes_iff first third).mpr ⟨i, index, fun k other => ?_⟩
  by_contra below
  have ahead : precedes third second = true :=
    (precedes_iff third second).mpr ⟨k, other, fun j found =>
      Nat.lt_of_le_of_lt (Nat.not_lt.mp below) (above j found)⟩
  exact Bool.false_ne_true (behind.symm.trans ahead)

theorem not_precedes_of_precedes {first second : Text} (before : precedes first second = true) :
    precedes second first = false := by
  rw [Bool.eq_false_iff]
  intro back
  obtain ⟨i, index, above⟩ := (precedes_iff first second).mp before
  obtain ⟨j, other, below⟩ := (precedes_iff second first).mp back
  exact Nat.lt_asymm (above j other) (below i index)

/-- Keys that spell list indices come first and ascend, and the other keys come as they do in `names`. -/
def ComesBefore (names : List Text) (first second : Text) : Prop :=
  precedes first second = true ∨
    (precedes second first = false ∧ names.idxOf first < names.idxOf second)

instance (names : List Text) (first second : Text) : Decidable (ComesBefore names first second) :=
  inferInstanceAs (Decidable (_ ∨ _))

theorem ComesBefore.not_precedes {names : List Text} {first second : Text}
    (order : ComesBefore names first second) : precedes second first = false := by
  rcases order with before | ⟨behind, -⟩
  · exact not_precedes_of_precedes before
  · exact behind

theorem ComesBefore.not_comesBefore {names : List Text} {first second : Text}
    (order : ComesBefore names first second) : ¬ ComesBefore names second first := by
  rintro (before | ⟨behind, index⟩)
  · exact Bool.false_ne_true (order.not_precedes.symm.trans before)
  · rcases order with before | ⟨-, other⟩
    · exact Bool.false_ne_true (behind.symm.trans before)
    · exact Nat.lt_asymm index other

theorem ComesBefore.append {names : List Text} {first second : Text}
    (order : ComesBefore names first second) (first_mem : first ∈ names) (second_mem : second ∈ names)
    (more : List Text) : ComesBefore (names ++ more) first second := by
  refine order.imp_right fun ⟨behind, index⟩ => ⟨behind, ?_⟩
  rwa [List.idxOf_append_of_mem first_mem, List.idxOf_append_of_mem second_mem]

theorem pairwise_append {names keys : List Text} (order : keys.Pairwise (ComesBefore names))
    (known : ∀ key ∈ keys, key ∈ names) (more : List Text) :
    keys.Pairwise (ComesBefore (names ++ more)) := by
  apply order.imp_of_mem
  intro first second first_mem second_mem order
  exact order.append (known first first_mem) (known second second_mem) more

theorem pairwise_insertNew (key : Text) (value : α) (record : Record α) (names : List Text)
    (order : (record.map Prod.fst).Pairwise (ComesBefore names))
    (known : ∀ other ∈ record.map Prod.fst, other ∈ names) (fresh : key ∉ names) :
    ((insertNew key value record).map Prod.fst).Pairwise (ComesBefore (names ++ [key])) := by
  induction record with
  | nil => exact List.pairwise_singleton _ key
  | cons entry rest ih =>
    have whole := pairwise_append order known [key]
    obtain ⟨after, order⟩ := List.pairwise_cons.mp order
    obtain ⟨first_mem, known⟩ := List.forall_mem_cons.mp known
    rw [insertNew]
    split
    · next before =>
      refine List.pairwise_cons.mpr ⟨List.forall_mem_cons.mpr ⟨.inl before, ?_⟩, whole⟩
      intro other member
      exact .inl (precedes_of_not_precedes before (after other member).not_precedes)
    · next behind =>
      refine List.pairwise_cons.mpr ⟨?_, ih order known⟩
      intro other member
      rcases List.mem_cons.mp (((insertNew_perm key value rest).map Prod.fst).mem_iff.mp member) with
        rfl | later
      · refine .inr ⟨Bool.eq_false_iff.mpr behind, ?_⟩
        rw [List.idxOf_append_of_mem first_mem, List.idxOf_append_of_notMem fresh]
        exact Nat.lt_add_right _ (List.idxOf_lt_length_of_mem first_mem)
      · exact (List.pairwise_cons.mp whole).1 other later

theorem assignAll_concat (record : Record α) (pairs : List (Text × α)) (pair : Text × α) :
    assignAll record (pairs ++ [pair]) = assign pair.1 pair.2 (assignAll record pairs) :=
  List.foldl_concat ..

theorem mem_keys_assignAll (pairs : List (Text × α)) (key : Text) :
    key ∈ (assignAll [] pairs).map Prod.fst ↔ key ∈ pairs.map Prod.fst ∧ key ≠ inheritedKey := by
  by_cases inherited : key = inheritedKey
  · subst inherited
    have absent := get?_inheritedKey_assignAll [] pairs rfl
    exact iff_of_false ((Entries.get?_eq_none_iff _ _).mp absent) fun found => found.2 rfl
  · have last := get?_assignAll [] pairs key inherited
    rw [Entries.get?, Option.or_none] at last
    rw [← not_iff_not, ← Entries.get?_eq_none_iff, last, Entries.get?_eq_none_iff, List.map_reverse,
      List.mem_reverse]
    simp [inherited]

theorem pairwise_assignAll (pairs : List (Text × α)) :
    ((assignAll [] pairs).map Prod.fst).Pairwise (ComesBefore (pairs.map Prod.fst)) := by
  -- By the pair assigned last: the others keep their order, and it is the last of the names.
  induction pairs using List.reverseRecOn with
  | nil => exact .nil
  | append_singleton pairs pair ih =>
    have known (key : Text) (member : key ∈ (assignAll [] pairs).map Prod.fst) :
        key ∈ pairs.map Prod.fst := ((mem_keys_assignAll pairs key).mp member).1
    have same := pairwise_append ih known [pair.1]
    rw [assignAll_concat, assign, List.map_append, List.map_singleton]
    split
    · exact same
    · next stored =>
      rw [put]
      split
      · next found =>
        rwa [Entries.map_fst_put _ _ _ ((Entries.contains_iff _ _).mp found)]
      · next absent =>
        apply pairwise_insertNew _ _ _ _ ih known
        intro member
        apply absent
        rw [Entries.contains_iff, mem_keys_assignAll]
        refine ⟨member, fun inherited => stored ⟨inherited, ?_⟩⟩
        simpa using absent

end Order

section Lasting

/-- The pairs whose key is stored and does not come again. -/
def lasting : List (Text × α) → List (Text × α)
  | [] => []
  | pair :: rest =>
    if pair.1 = inheritedKey ∨ Entries.contains rest pair.1 then lasting rest else pair :: lasting rest

theorem lasting_cons (pair : Text × α) (rest : List (Text × α)) :
    lasting (pair :: rest) =
      if pair.1 = inheritedKey ∨ pair.1 ∈ rest.map Prod.fst then lasting rest
      else pair :: lasting rest := by
  simp only [lasting, Entries.contains_iff]

theorem lasting_sublist (pairs : List (Text × α)) : (lasting pairs).Sublist pairs := by
  induction pairs with
  | nil => exact .slnil
  | cons pair rest ih =>
    rw [lasting_cons]
    split
    · exact ih.cons pair
    · exact ih.cons_cons pair

theorem mem_lasting_iff (pairs : List (Text × α)) (pair : Text × α) :
    pair ∈ lasting pairs ↔
      ∃ before after, pairs = before ++ pair :: after ∧
        pair.1 ≠ inheritedKey ∧ pair.1 ∉ after.map Prod.fst := by
  induction pairs with
  | nil => simp [lasting]
  | cons first rest ih =>
    have later (lasts : pair ∈ lasting rest) : ∃ before after, first :: rest = before ++ pair :: after ∧
        pair.1 ≠ inheritedKey ∧ pair.1 ∉ after.map Prod.fst := by
      obtain ⟨before, after, rfl, last⟩ := ih.mp lasts
      exact ⟨first :: before, after, rfl, last⟩
    rw [lasting_cons]
    constructor
    · intro member
      split at member
      · exact later member
      · next kept =>
        rcases List.mem_cons.mp member with rfl | member
        · exact ⟨[], rest, rfl, not_or.mp kept⟩
        · exact later member
    · intro ⟨before, after, split_at, lasts⟩
      cases before with
      | nil =>
        cases split_at
        rw [if_neg (not_or.mpr lasts)]
        exact List.mem_cons_self
      | cons _ before =>
        cases split_at
        have member := ih.mpr ⟨before, after, rfl, lasts⟩
        split
        · exact member
        · exact List.mem_cons_of_mem _ member

theorem nodup_lasting (pairs : List (Text × α)) : ((lasting pairs).map Prod.fst).Nodup := by
  induction pairs with
  | nil => exact List.nodup_nil
  | cons pair rest ih =>
    rw [lasting_cons]
    split
    · exact ih
    · next lasts =>
      refine List.nodup_cons.mpr ⟨fun member => lasts (.inr ?_), ih⟩
      exact ((lasting_sublist rest).map Prod.fst).subset member

theorem get?_inheritedKey_lasting (pairs : List (Text × α)) :
    Entries.get? inheritedKey (lasting pairs) = none := by
  rw [Entries.get?_eq_none_iff]
  intro member
  obtain ⟨pair, lasts, same⟩ := List.mem_map.mp member
  obtain ⟨-, -, -, stored, -⟩ := (mem_lasting_iff pairs pair).mp lasts
  exact stored same

theorem get?_lasting (pairs : List (Text × α)) (key : Text) (stored : key ≠ inheritedKey) :
    Entries.get? key (lasting pairs) = Entries.get? key pairs.reverse := by
  induction pairs with
  | nil => rfl
  | cons pair rest ih =>
    have absent : Entries.get? key rest.reverse = none ↔ key ∉ rest.map Prod.fst := by
      rw [Entries.get?_eq_none_iff, List.map_reverse, List.mem_reverse]
    rw [List.reverse_cons, Entries.get?_concat, lasting_cons]
    by_cases same : pair.1 = key
    · rw [same]
      by_cases again : key ∈ rest.map Prod.fst
      · have found : (Entries.get? key rest.reverse).isSome := by
          rw [Option.isSome_iff_ne_none, ne_eq, absent, not_not]
          exact again
        rw [if_pos (.inr again), ih, Option.or_of_isSome found]
      · rw [if_neg (not_or.mpr ⟨stored, again⟩), Entries.get?, if_pos same, absent.mpr again, if_pos rfl,
          Option.none_or]
    · rw [if_neg same, Option.or_none]
      split
      · exact ih
      · rw [Entries.get?, if_neg same, ih]

theorem assignAll_perm_lasting (pairs : List (Text × α)) : (assignAll [] pairs).Perm (lasting pairs) := by
  apply Entries.perm_of_get?_eq _ _ (nodup_assignAll [] pairs List.nodup_nil) (nodup_lasting pairs)
  intro key
  by_cases inherited : key = inheritedKey
  · rw [inherited, get?_inheritedKey_lasting, get?_inheritedKey_assignAll [] pairs rfl]
  · rw [get?_lasting pairs key inherited, get?_assignAll [] pairs key inherited, Entries.get?,
      Option.or_none]

variable (f : Text × α → List β)

structure KeepsAll (pairs : List (Text × α)) : Prop where
  stored : ∀ pair ∈ pairs, f pair ≠ [] → pair.1 ≠ inheritedKey
  last : pairs.Pairwise fun first later => f first ≠ [] → first.1 ≠ later.1

theorem keepsAll_cons (pair : Text × α) (rest : List (Text × α)) :
    KeepsAll f (pair :: rest) ↔
      (f pair ≠ [] → ¬ (pair.1 = inheritedKey ∨ pair.1 ∈ rest.map Prod.fst)) ∧ KeepsAll f rest := by
  constructor
  · intro ⟨stored, last⟩
    obtain ⟨stored, others⟩ := List.forall_mem_cons.mp stored
    obtain ⟨last, rest_last⟩ := List.pairwise_cons.mp last
    refine ⟨fun holds gone => ?_, others, rest_last⟩
    rcases gone with inherited | again
    · exact stored holds inherited
    · obtain ⟨later, member, same⟩ := List.mem_map.mp again
      exact last later member holds same.symm
  · intro ⟨lasts, others, rest_last⟩
    refine ⟨List.forall_mem_cons.mpr ⟨fun holds inherited => lasts holds (.inl inherited), others⟩,
      List.pairwise_cons.mpr ⟨fun later member holds same => ?_, rest_last⟩⟩
    exact lasts holds (.inr (same ▸ List.mem_map_of_mem member))

def bearing (pairs : List (Text × α)) : List (Text × α) := pairs.filter fun pair => !(f pair).isEmpty

variable {f}

theorem mem_bearing {pairs : List (Text × α)} {pair : Text × α} :
    pair ∈ bearing f pairs ↔ pair ∈ pairs ∧ f pair ≠ [] := by
  simp [bearing]

theorem flatMap_bearing (pairs : List (Text × α)) : (bearing f pairs).flatMap f = pairs.flatMap f := by
  induction pairs with
  | nil => rfl
  | cons pair rest ih =>
    rw [bearing] at ih ⊢
    cases holds : f pair <;> simp [holds, ih]

theorem KeepsAll.bearing_lasting {pairs : List (Text × α)} (keeps : KeepsAll f pairs) :
    bearing f (lasting pairs) = bearing f pairs := by
  induction pairs with
  | nil => rfl
  | cons pair rest ih =>
    obtain ⟨lasts, keeps⟩ := (keepsAll_cons f pair rest).mp keeps
    have same := ih keeps
    rw [bearing, bearing] at same
    rw [bearing, bearing, lasting_cons]
    split
    · next gone =>
      have empty : f pair = [] := not_not.mp fun holds => lasts holds gone
      rw [same, List.filter_cons, empty]
      rfl
    · rw [List.filter_cons, List.filter_cons, same]

theorem keepsAll_of_length_le {pairs : List (Text × α)}
    (whole : (pairs.flatMap f).length ≤ ((lasting pairs).flatMap f).length) : KeepsAll f pairs := by
  -- A pair that is lost makes what is left shorter if it held anything, and nothing makes up for it.
  induction pairs with
  | nil => exact ⟨nofun, .nil⟩
  | cons pair rest ih =>
    have shorter := ((lasting_sublist rest).flatMap f).length_le
    rw [lasting_cons, List.flatMap_cons, List.length_append] at whole
    rw [keepsAll_cons]
    split at whole
    · have empty : (f pair).length = 0 := by omega
      exact ⟨fun holds => absurd (List.length_eq_zero_iff.mp empty) holds, ih (by omega)⟩
    · next lasts =>
      rw [List.flatMap_cons, List.length_append] at whole
      exact ⟨fun _ => lasts, ih (by omega)⟩

theorem KeepsAll.bearing_assignAll {pairs : List (Text × α)} (keeps : KeepsAll f pairs) :
    (bearing f (assignAll [] pairs)).Perm (bearing f pairs) := by
  rw [← keeps.bearing_lasting]
  exact (assignAll_perm_lasting pairs).filter _

theorem pairwise_bearing_iff (order : Text → Text → Prop) (pairs : List (Text × α)) :
    (bearing f pairs).Pairwise (fun first second => order first.1 second.1) ↔
      pairs.Pairwise fun first second => f first ≠ [] → f second ≠ [] → order first.1 second.1 := by
  simp [bearing, List.pairwise_filter]

theorem flatMap_assignAll_perm_iff (pairs : List (Text × α)) :
    ((assignAll [] pairs).flatMap f).Perm (pairs.flatMap f) ↔ KeepsAll f pairs := by
  constructor
  · intro whole
    apply keepsAll_of_length_le
    have left := (assignAll_perm_lasting pairs).flatMap_right f
    exact Nat.le_of_eq (whole.symm.trans left).length_eq
  · intro keeps
    rw [← flatMap_bearing (assignAll [] pairs), ← flatMap_bearing pairs]
    exact keeps.bearing_assignAll.flatMap_right f

theorem pairwise_bearing_assignAll (pairs : List (Text × α)) :
    (bearing f (assignAll [] pairs)).Pairwise fun first second =>
      ComesBefore (pairs.map Prod.fst) first.1 second.1 :=
  (List.pairwise_map.mp (pairwise_assignAll pairs)).sublist List.filter_sublist

theorem pairwise_flatMap_iff (key : β → Text) (told : ∀ pair, ∀ item ∈ f pair, key item = pair.1)
    (order : Text → Text → Prop) (pairs : List (Text × α)) :
    ((pairs.flatMap f).Pairwise fun first second =>
        key first = key second ∨ order (key first) (key second)) ↔
      (bearing f pairs).Pairwise fun first second => first.1 = second.1 ∨ order first.1 second.1 := by
  rw [← flatMap_bearing pairs, List.pairwise_flatMap]
  constructor
  · intro ⟨_, across⟩
    apply across.imp_of_mem
    intro first second first_mem second_mem ordered
    obtain ⟨item, held⟩ := List.exists_mem_of_ne_nil _ (mem_bearing.mp first_mem).2
    obtain ⟨other, other_held⟩ := List.exists_mem_of_ne_nil _ (mem_bearing.mp second_mem).2
    simpa only [told first item held, told second other other_held] using
      ordered item held other other_held
  · intro ordered
    refine ⟨fun pair _ => List.pairwise_of_forall_mem_list fun item held other other_held => .inl ?_,
      ordered.imp fun ordered item held other other_held => ?_⟩
    · rw [told pair item held, told pair other other_held]
    · rwa [told _ item held, told _ other other_held]

/-- Where what a pair holds tells its key, all of it is left in its order exactly when no pair is
lost and the pairs that hold anything come in the order of keys. -/
theorem flatMap_assignAll_eq_iff (key : β → Text) (told : ∀ pair, ∀ item ∈ f pair, key item = pair.1)
    (pairs : List (Text × α)) :
    (assignAll [] pairs).flatMap f = pairs.flatMap f ↔
      KeepsAll f pairs ∧ pairs.Pairwise fun first second => f first ≠ [] → f second ≠ [] →
        ComesBefore (pairs.map Prod.fst) first.1 second.1 := by
  rw [← pairwise_bearing_iff]
  constructor
  · intro same
    have keeps := (flatMap_assignAll_perm_iff pairs).mp (.of_eq same)
    refine ⟨keeps, ?_⟩
    have ordered : (pairs.flatMap f).Pairwise fun first second =>
        key first = key second ∨ ComesBefore (pairs.map Prod.fst) (key first) (key second) := by
      rw [← same, pairwise_flatMap_iff key told]
      exact (pairwise_bearing_assignAll pairs).imp .inr
    rw [pairwise_flatMap_iff key told] at ordered
    have apart := keeps.last.sublist (List.filter_sublist (p := fun pair => !(f pair).isEmpty))
    apply (ordered.and apart).imp_of_mem
    intro first second member _ ⟨ordered, apart⟩
    exact ordered.resolve_left (apart (mem_bearing.mp member).2)
  · intro ⟨keeps, order⟩
    rw [← flatMap_bearing (assignAll [] pairs), ← flatMap_bearing pairs]
    congr 1
    -- Rows of the same pairs that are in one strict order are equal.
    apply List.Perm.eq_of_pairwise _ (pairwise_bearing_assignAll pairs) order keeps.bearing_assignAll
    intro first second _ _ before after
    exact absurd after before.not_comesBefore

end Lasting

end Record

end AnsiMarkup
