import AnsiMarkup.Record
import Mathlib.Data.List.Nodup

namespace AnsiMarkup

namespace Entries

variable {α β : Type}

theorem get?_append (key : Text) (front back : Entries α) :
    get? key (front ++ back) = (get? key front).or (get? key back) := by
  induction front with
  | nil => rfl
  | cons entry front ih =>
    obtain ⟨first, value⟩ := entry
    by_cases same : first = key <;> simp [get?, same, ih]

theorem get?_concat (key first : Text) (value : α) (entries : Entries α) :
    get? key (entries ++ [(first, value)]) =
      (get? key entries).or (if first = key then some value else none) := get?_append key entries _

theorem get?_eq_none_iff (key : Text) (entries : Entries α) :
    get? key entries = none ↔ key ∉ entries.map Prod.fst := by
  induction entries with
  | nil => simp [get?]
  | cons entry rest ih =>
    obtain ⟨first, value⟩ := entry
    by_cases same : first = key
    · simp [get?, same]
    · simp [get?, same, ih, Ne.symm same]

theorem mem_of_get? {key : Text} {value : α} {entries : Entries α}
    (found : get? key entries = some value) : (key, value) ∈ entries := by
  induction entries with
  | nil => cases found
  | cons entry rest ih =>
    obtain ⟨first, other⟩ := entry
    rw [get?] at found
    split at found
    · next same =>
      cases found
      exact same ▸ List.mem_cons_self
    · exact List.mem_cons_of_mem _ (ih found)

theorem contains_iff (key : Text) (entries : Entries α) :
    entries.contains key = true ↔ key ∈ entries.map Prod.fst := by
  rw [contains, Option.isSome_iff_ne_none, ne_eq, get?_eq_none_iff, not_not]

theorem get?_reverse (key : Text) (entries : Entries α) (distinct : (entries.map Prod.fst).Nodup) :
    get? key entries.reverse = get? key entries := by
  induction entries with
  | nil => rfl
  | cons entry rest ih =>
    obtain ⟨first, value⟩ := entry
    obtain ⟨fresh, distinct⟩ := List.nodup_cons.mp distinct
    rw [List.reverse_cons, get?_concat, ih distinct, get?]
    by_cases same : first = key
    · subst same
      rw [(get?_eq_none_iff first rest).mpr fresh, if_pos rfl, Option.none_or]
    · rw [if_neg same, if_neg same, Option.or_none]

theorem get?_map (key : Text) (f : α → β) (entries : Entries α) :
    get? key (entries.map fun entry => (entry.1, f entry.2)) = (get? key entries).map f := by
  induction entries with
  | nil => rfl
  | cons entry rest ih =>
    by_cases same : entry.1 = key <;> simp [get?, same, ih]

theorem map_fst_put (key : Text) (value : α) (entries : Entries α) (known : key ∈ entries.map Prod.fst) :
    (put key value entries).map Prod.fst = entries.map Prod.fst := by
  induction entries with
  | nil => cases known
  | cons entry rest ih =>
    obtain ⟨first, old⟩ := entry
    by_cases same : first = key
    · simp [put, same]
    · have later : key ∈ rest.map Prod.fst := by
        rcases List.mem_cons.mp known with here | later
        · exact absurd here.symm same
        · exact later
      simp only [put, if_neg same, List.map_cons, ih later]

theorem mem_put {key : Text} {value : α} {entries : Entries α} {entry : Text × α}
    (member : entry ∈ put key value entries) : entry = (key, value) ∨ entry ∈ entries := by
  induction entries with
  | nil => exact .inl (List.mem_singleton.mp member)
  | cons first rest ih =>
    obtain ⟨other, old⟩ := first
    rw [put] at member
    split at member
    · next same =>
      rcases List.mem_cons.mp member with rfl | later
      · exact .inl (by rw [same])
      · exact .inr (List.mem_cons_of_mem _ later)
    · rcases List.mem_cons.mp member with rfl | later
      · exact .inr List.mem_cons_self
      · exact (ih later).imp_right (List.mem_cons_of_mem _)

theorem get?_foldl_put (keys : List Text) (value : α) (entries : Entries α) (key : Text) :
    (keys.foldl (fun entries key => put key value entries) entries).get? key =
      if key ∈ keys then some value else entries.get? key := by
  induction keys generalizing entries with
  | nil => rfl
  | cons first keys ih =>
    rw [List.foldl_cons, ih, get?_put]
    by_cases later : key ∈ keys
    · rw [if_pos later, if_pos (List.mem_cons_of_mem first later)]
    · by_cases same : first = key
      · rw [if_neg later, if_pos same, if_pos (same ▸ List.mem_cons_self)]
      · have absent : key ∉ first :: keys := by
          rw [List.mem_cons, not_or]
          exact ⟨Ne.symm same, later⟩
        rw [if_neg later, if_neg same, if_neg absent]

theorem mem_foldl_put (keys : List Text) (value : α) (entries : Entries α) {entry : Text × α}
    (member : entry ∈ keys.foldl (fun entries key => put key value entries) entries) :
    entry.2 = value ∨ entry ∈ entries := by
  induction keys generalizing entries with
  | nil => exact .inr member
  | cons key keys ih =>
    rcases ih _ member with same | earlier
    · exact .inl same
    · exact (mem_put earlier).imp_left (congrArg Prod.snd)

end Entries

namespace Record

variable {α : Type}

theorem insertNew_perm (key : Text) (value : α) (record : Record α) :
    (insertNew key value record).Perm ((key, value) :: record) := by
  induction record with
  | nil => exact .refl _
  | cons entry rest ih =>
    obtain ⟨first, old⟩ := entry
    rw [insertNew]
    split
    · exact .refl _
    · exact (ih.cons _).trans (.swap _ _ _)

theorem get?_insertNew (key other : Text) (value : α) (record : Record α)
    (fresh : key ∉ record.map Prod.fst) :
    Entries.get? other (insertNew key value record) =
      if key = other then some value else Entries.get? other record := by
  induction record with
  | nil => rfl
  | cons entry rest ih =>
    obtain ⟨first, old⟩ := entry
    obtain ⟨apart, fresh⟩ : key ≠ first ∧ key ∉ rest.map Prod.fst := by simpa using fresh
    rw [insertNew]
    split
    · rfl
    · rw [Entries.get?, Entries.get?, ih fresh]
      by_cases same : first = other
      · rw [if_pos same, if_pos same, if_neg (same ▸ apart)]
      · rw [if_neg same, if_neg same]

theorem get?_put (key other : Text) (value : α) (record : Record α) :
    Entries.get? other (put key value record) =
      if key = other then some value else Entries.get? other record := by
  rw [put]
  split
  · exact Entries.get?_put key other value record
  · next fresh => exact get?_insertNew key other value record ((Entries.contains_iff _ _).not.mp fresh)

theorem mem_put {key : Text} {value : α} {record : Record α} {entry : Text × α}
    (member : entry ∈ put key value record) : entry = (key, value) ∨ entry ∈ record := by
  rw [put] at member
  split at member
  · exact Entries.mem_put member
  · exact List.mem_cons.mp ((insertNew_perm key value record).mem_iff.mp member)

theorem nodup_put (key : Text) (value : α) (record : Record α)
    (distinct : (record.map Prod.fst).Nodup) : ((put key value record).map Prod.fst).Nodup := by
  rw [put]
  split
  · next known => rwa [Entries.map_fst_put key value record ((Entries.contains_iff _ _).mp known)]
  · next fresh =>
    have same := (insertNew_perm key value record).map Prod.fst
    rw [same.nodup_iff, List.map_cons, List.nodup_cons]
    exact ⟨(Entries.contains_iff _ _).not.mp fresh, distinct⟩

/-- What is assigned to the inherited key of a record that does not store it is lost. -/
theorem assign_inheritedKey (value : α) (record : Record α)
    (absent : Entries.get? inheritedKey record = none) : assign inheritedKey value record = record := by
  rw [assign, if_pos]
  rw [Entries.contains, absent]
  exact ⟨rfl, rfl⟩

theorem assign_of_ne (key : Text) (value : α) (record : Record α) (other : key ≠ inheritedKey) :
    assign key value record = put key value record := if_neg fun lost => other lost.1

theorem nodup_assign (key : Text) (value : α) (record : Record α)
    (distinct : (record.map Prod.fst).Nodup) : ((assign key value record).map Prod.fst).Nodup := by
  rw [assign]
  split
  · exact distinct
  · exact nodup_put key value record distinct

theorem mem_assign {key : Text} {value : α} {record : Record α} {entry : Text × α}
    (member : entry ∈ assign key value record) : entry = (key, value) ∨ entry ∈ record := by
  rw [assign] at member
  split at member
  · exact .inr member
  · exact mem_put member

theorem get?_assign (key other : Text) (value : α) (record : Record α) (stored : other ≠ inheritedKey) :
    Entries.get? other (assign key value record) =
      if key = other then some value else Entries.get? other record := by
  rw [assign]
  split
  · next lost => rw [if_neg fun same => stored (same.symm.trans lost.1)]
  · exact get?_put key other value record

def assignAll (record : Record α) (pairs : List (Text × α)) : Record α :=
  pairs.foldl (fun record pair => assign pair.1 pair.2 record) record

theorem assignAll_cons (record : Record α) (key : Text) (value : α) (rest : List (Text × α)) :
    assignAll record ((key, value) :: rest) = assignAll (assign key value record) rest := rfl

theorem mem_assignAll {record : Record α} {pairs : List (Text × α)} {entry : Text × α}
    (member : entry ∈ assignAll record pairs) : entry ∈ record ∨ entry ∈ pairs := by
  induction pairs generalizing record with
  | nil => exact .inl member
  | cons pair rest ih =>
    rcases ih member with assigned | later
    · rcases mem_assign assigned with same | earlier
      · exact .inr (same ▸ List.mem_cons_self)
      · exact .inl earlier
    · exact .inr (List.mem_cons_of_mem pair later)

theorem nodup_assignAll (record : Record α) (pairs : List (Text × α))
    (distinct : (record.map Prod.fst).Nodup) : ((assignAll record pairs).map Prod.fst).Nodup := by
  induction pairs generalizing record with
  | nil => exact distinct
  | cons pair rest ih => exact ih _ (nodup_assign pair.1 pair.2 record distinct)

theorem get?_inheritedKey_assignAll (record : Record α) (pairs : List (Text × α))
    (absent : Entries.get? inheritedKey record = none) :
    Entries.get? inheritedKey (assignAll record pairs) = none := by
  induction pairs generalizing record with
  | nil => exact absent
  | cons pair rest ih =>
    obtain ⟨key, value⟩ := pair
    rw [assignAll_cons]
    apply ih
    by_cases inherited : key = inheritedKey
    · rw [inherited, assign_inheritedKey value record absent, absent]
    · rw [assign_of_ne key value record inherited, get?_put, if_neg inherited, absent]

theorem get?_assignAll (record : Record α) (pairs : List (Text × α)) (key : Text)
    (stored : key ≠ inheritedKey) :
    Entries.get? key (assignAll record pairs) =
      (Entries.get? key pairs.reverse).or (Entries.get? key record) := by
  induction pairs generalizing record with
  | nil => rfl
  | cons pair rest ih =>
    obtain ⟨first, value⟩ := pair
    rw [assignAll_cons, ih, get?_assign first key value record stored, List.reverse_cons,
      Entries.get?_concat, Option.or_assoc]
    by_cases same : first = key
    · rw [if_pos same, if_pos same, Option.some_or]
    · rw [if_neg same, if_neg same, Option.none_or]

end Record

end AnsiMarkup
