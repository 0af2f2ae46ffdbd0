import AnsiMarkup.Command.Listing
import AnsiMarkup.Proofs.FlagTable.Declared
import AnsiMarkup.Proofs.Record.KeyOrder

namespace AnsiMarkup

open Record

structure ListedFlag where
  category : Text
  name : Value
  code : Value
  bit : Value

def Category.listing (category : Category) : List ListedFlag :=
  category.flags.map fun flag =>
    ⟨category.name, .text flag.name, .number flag.code, .text (Text.ofInt flag.bit)⟩

namespace FlagTable

def listing (table : FlagTable) : List ListedFlag := table.categories.flatMap Category.listing

/-- No category that has flags is named by the inherited key, or named as a later one. -/
structure KeepsFlags (table : FlagTable) : Prop where
  stored : ∀ category ∈ table.categories, category.flags ≠ [] → category.name ≠ inheritedKey
  last : table.categories.Pairwise fun category later =>
    category.flags ≠ [] → category.name ≠ later.name

instance (table : FlagTable) : Decidable table.KeepsFlags :=
  decidable_of_iff (_ ∧ _) ⟨fun ⟨stored, last⟩ => ⟨stored, last⟩, fun keeps => ⟨keeps.stored, keeps.last⟩⟩

/-- The categories that have flags come in the order that a record gives to their names. -/
def InKeyOrder (table : FlagTable) : Prop :=
  table.categories.Pairwise fun category later =>
    category.flags ≠ [] → later.flags ≠ [] →
      ComesBefore (table.categories.map Category.name) category.name later.name

instance (table : FlagTable) : Decidable table.InKeyOrder := inferInstanceAs (Decidable (List.Pairwise ..))

end FlagTable

namespace Command

def listedUnder : Text × Value → List ListedFlag
  | (category, .list items) =>
    items.map fun item => ⟨category, item.member "name", item.member "code", item.member "bit"⟩
  | _ => []

def listed (record : Record Value) : List ListedFlag := record.flatMap listedUnder

def categoryEntry (category : Category) : Text × Value :=
  (category.name, .list (category.flags.map flagValue))

theorem listedUnder_categoryEntry (category : Category) :
    listedUnder (categoryEntry category) = category.listing := by
  rw [categoryEntry, listedUnder, List.map_map]
  rfl

theorem category_of_mem_listedUnder (entry : Text × Value) (row : ListedFlag)
    (member : row ∈ listedUnder entry) : row.category = entry.1 := by
  obtain ⟨category, value⟩ := entry
  cases value with
  | list items =>
    obtain ⟨item, -, rfl⟩ := List.mem_map.mp member
    rfl
  | _ => cases member

theorem tableRecord_eq (table : FlagTable) :
    tableRecord table = assignAll [] (table.categories.map categoryEntry) := by
  rw [tableRecord, assignAll, List.foldl_map]
  rfl

theorem listedUnder_ne_nil_iff (category : Category) :
    listedUnder (categoryEntry category) ≠ [] ↔ category.flags ≠ [] := by
  rw [listedUnder_categoryEntry, Category.listing, ne_eq, List.map_eq_nil_iff]

theorem listed_entries (categories : List Category) :
    listed (categories.map categoryEntry) = categories.flatMap Category.listing := by
  rw [listed, List.flatMap_map]
  exact List.flatMap_congr fun category _ => listedUnder_categoryEntry category

theorem names_entries (categories : List Category) :
    (categories.map categoryEntry).map Prod.fst = categories.map Category.name :=
  List.map_map ..

theorem keepsAll_iff (table : FlagTable) :
    KeepsAll listedUnder (table.categories.map categoryEntry) ↔ table.KeepsFlags := by
  constructor
  · intro ⟨stored, last⟩
    rw [List.forall_mem_map] at stored
    rw [List.pairwise_map] at last
    simp only [listedUnder_ne_nil_iff] at stored last
    exact ⟨stored, last⟩
  · intro ⟨stored, last⟩
    simp only [← listedUnder_ne_nil_iff] at stored last
    exact ⟨List.forall_mem_map.mpr stored, List.pairwise_map.mpr last⟩

theorem mem_listed_iff (table : FlagTable) (row : ListedFlag) :
    row ∈ listed (tableRecord table) ↔
      ∃ before category after, table.categories = before ++ category :: after ∧
        category.name ≠ inheritedKey ∧ category.name ∉ after.map Category.name ∧
        row ∈ category.listing := by
  rw [tableRecord_eq, listed, List.mem_flatMap]
  simp only [(assignAll_perm_lasting _).mem_iff, mem_lasting_iff]
  constructor
  · intro ⟨entry, ⟨_, _, entries, stored, last⟩, member⟩
    obtain ⟨before, _, categories, -, entries⟩ := List.map_eq_append_iff.mp entries
    obtain ⟨category, after, rfl, rfl, rfl⟩ := List.map_eq_cons_iff.mp entries
    rw [names_entries] at last
    rw [listedUnder_categoryEntry] at member
    exact ⟨before, category, after, categories, stored, last, member⟩
  · intro ⟨before, category, after, categories, stored, last, member⟩
    rw [← listedUnder_categoryEntry] at member
    rw [← names_entries] at last
    refine ⟨categoryEntry category, ⟨before.map categoryEntry, _, ?_, stored, last⟩, member⟩
    rw [categories, List.map_append, List.map_cons]

theorem nodup_listing (table : FlagTable) (order : FlagTable.InOrder table.flags) :
    table.listing.Nodup := by
  have names : table.listing.map ListedFlag.name = (table.flags.map Flag.name).map Value.text := by
    simp only [FlagTable.listing, FlagTable.flags, List.map_flatMap, Category.listing, List.map_map]
    rfl
  apply List.Nodup.of_map ListedFlag.name
  rw [names]
  exact order.names.map fun _ _ => Value.text.inj

theorem nodup_listed (table : FlagTable) (order : FlagTable.InOrder table.flags) :
    (listed (tableRecord table)).Nodup := by
  rw [tableRecord_eq, listed, ((assignAll_perm_lasting _).flatMap_right listedUnder).nodup_iff]
  have within := (lasting_sublist (table.categories.map categoryEntry)).flatMap listedUnder
  apply List.Nodup.sublist within
  rw [← listed, listed_entries]
  exact nodup_listing table order

theorem inKeyOrder_iff (table : FlagTable) :
    (table.categories.map categoryEntry).Pairwise (fun first second =>
        listedUnder first ≠ [] → listedUnder second ≠ [] →
          ComesBefore ((table.categories.map categoryEntry).map Prod.fst) first.1 second.1) ↔
      table.InKeyOrder := by
  simp only [List.pairwise_map, listedUnder_ne_nil_iff, names_entries]
  rfl

/-- A table is written key by key. The flags read back are those of the last category of each name
but the inherited one, each of them once, and the names come in the order of keys. So every flag is
read back exactly when no category that has flags is named as the inherited key or as a later
category, and they are read in the table's order exactly when its categories are in that of keys. -/
theorem listed_of_ofSpecs (specs : List CategorySpec) (table : FlagTable)
    (declared : FlagTable.ofSpecs specs = .ok table) :
    (listed (tableRecord table)).Nodup ∧
      (∀ row, row ∈ listed (tableRecord table) ↔
        ∃ before category after, table.categories = before ++ category :: after ∧
          category.name ≠ inheritedKey ∧ category.name ∉ after.map Category.name ∧
          row ∈ category.listing) ∧
      ((tableRecord table).map Prod.fst).Pairwise
        (ComesBefore (table.categories.map Category.name)) ∧
      ((listed (tableRecord table)).Perm table.listing ↔ table.KeepsFlags) ∧
      (listed (tableRecord table) = table.listing ↔ table.KeepsFlags ∧ table.InKeyOrder) := by
  have order := FlagTable.inOrder_of_ofSpecs specs table declared
  have entries := listed_entries table.categories
  refine ⟨nodup_listed table order, mem_listed_iff table, ?_, ?_, ?_⟩
  · rw [tableRecord_eq, ← names_entries]
    exact pairwise_assignAll _
  · rw [tableRecord_eq, FlagTable.listing, ← entries, ← keepsAll_iff]
    exact flatMap_assignAll_perm_iff _
  · rw [tableRecord_eq, FlagTable.listing, ← entries, ← keepsAll_iff, ← inKeyOrder_iff]
    exact flatMap_assignAll_eq_iff ListedFlag.category category_of_mem_listedUnder _

/-- The standard flags are all read back, in their order. -/
theorem listed_of_ofSpecs_standard :
    FlagTable.ofSpecs FlagTable.standardSpecs = .ok FlagTable.standard ∧
      listed (tableRecord FlagTable.standard) = FlagTable.standard.listing := by
  have declared := FlagTable.ofSpecs_standardSpecs
  have kept : FlagTable.standard.KeepsFlags ∧ FlagTable.standard.InKeyOrder := by decide +kernel
  exact ⟨declared, (listed_of_ofSpecs _ _ declared).2.2.2.2.mpr kept⟩

/-- Two categories of one name: the flag of the first is lost. -/
theorem flags_lost :
    let first : Flag := ⟨"x", Number.ofNat 1, 0⟩
    let second : Flag := ⟨"y", Number.ofNat 2, 1⟩
    let table : FlagTable := ⟨[⟨"a", [first]⟩, ⟨"a", [second]⟩]⟩
    FlagTable.ofSpecs [⟨"a", [⟨"x", Number.ofNat 1⟩]⟩, ⟨"a", [⟨"y", Number.ofNat 2⟩]⟩] = .ok table ∧
      (listed (tableRecord table)).length = 1 ∧
      ¬ (listed (tableRecord table)).Perm table.listing := by
  intro first second table
  have lost : (listed (tableRecord table)).length = 1 := by decide
  have declared : table.listing.length = 2 := by decide
  refine ⟨by decide, lost, fun whole => ?_⟩
  have same := whole.length_eq
  omega

end Command

end AnsiMarkup
