import Lox.Resolution

/-! Tables whose names are replaced by other names, each by its own. -/
namespace Lox

namespace Table

variable {α β : Type}

@[simp] theorem contains_nil (name : Text) : contains ([] : Table α) name = false := rfl

@[simp] theorem contains_insert (table : Table α) (name other : Text) (value : α) :
    (table.insert name value).contains other = (decide (name = other) || table.contains other) := by
  unfold contains
  rw [find?_insert]
  by_cases same : name = other <;> simp [same]

theorem contains_eq_true {table : Table α} : table.contains name = true ↔ ∃ value, table.find? name = some value :=
  Option.isSome_iff_exists

theorem find?_of_absent {table : Table α} (absent : table.contains name = false) : table.find? name = none :=
  Option.not_isSome_iff_eq_none.1 (Bool.eq_false_iff.1 absent)

theorem find?_single (word name : Text) (value : α) :
    find? [(word, value)] name = if word = name then some value else none := rfl

/-- A table with one entry has nothing else. -/
theorem eq_of_find?_single {a b : α} (found : find? [(word, a)] name = some b) : word = name ∧ a = b := by
  rw [find?_single] at found
  split at found
  · exact ⟨‹_›, Option.some.inj found⟩
  · cases found

theorem insert_insert (table : Table α) (name : Text) (a b : α) :
    (table.insert name a).insert name b = table.insert name b := by
  induction table with
  | nil => simp [insert]
  | cons entry rest ih =>
    obtain ⟨key, old⟩ := entry
    by_cases here : key = name
    · simp [insert, here]
    · simp [insert, here, ih]

/-- What is found in a table after insertions was there before or is one of those inserted. -/
theorem exists_of_find?_foldl {key : β → Text} {value : β → α} {entries : List β} {table : Table α}
    (found : (entries.foldl (fun table entry => table.insert (key entry) (value entry)) table).find? name = some a) :
    table.find? name = some a ∨ ∃ entry ∈ entries, key entry = name ∧ value entry = a := by
  induction entries generalizing table with
  | nil => exact .inl found
  | cons first rest ih =>
    rcases ih found with before | ⟨entry, member, holds⟩
    · rw [find?_insert] at before
      by_cases here : key first = name
      · rw [if_pos here] at before
        exact .inr ⟨first, List.mem_cons_self, here, Option.some.inj before⟩
      · rw [if_neg here] at before
        exact .inl before
    · exact .inr ⟨entry, List.mem_cons_of_mem _ member, holds⟩

/-- The table with other names for the same values. -/
def renamed (ρ : Text → Text) (table : Table α) : Table α := table.map fun (key, value) => (ρ key, value)

section Renamed
variable {ρ : Text → Text} (injective : ∀ a b, ρ a = ρ b → a = b)
include injective

theorem find?_renamed (table : Table α) (name : Text) :
    (table.renamed ρ).find? (ρ name) = table.find? name := by
  induction table with
  | nil => rfl
  | cons entry rest ih =>
    obtain ⟨key, value⟩ := entry
    by_cases here : key = name
    · simp [renamed, find?, here]
    · have apart : ρ key ≠ ρ name := fun same => here (injective key name same)
      simpa [renamed, find?, here, apart] using ih

theorem contains_renamed (table : Table α) (name : Text) :
    (table.renamed ρ).contains (ρ name) = table.contains name := by
  rw [contains, find?_renamed injective, contains]

theorem renamed_insert (table : Table α) (name : Text) (value : α) :
    (table.insert name value).renamed ρ = (table.renamed ρ).insert (ρ name) value := by
  induction table with
  | nil => rfl
  | cons entry rest ih =>
    obtain ⟨key, old⟩ := entry
    by_cases here : key = name
    · simp [renamed, insert, here]
    · have apart : ρ key ≠ ρ name := fun same => here (injective key name same)
      simpa [renamed, insert, here, apart] using ih

end Renamed

/-- A name of the renamed table is the new name of one of the old ones. -/
theorem exists_of_contains_renamed {ρ : Text → Text} {table : Table α}
    (bound : (table.renamed ρ).contains name = true) : ∃ old, table.contains old = true ∧ ρ old = name := by
  induction table with
  | nil => cases bound
  | cons entry rest ih =>
    obtain ⟨key, value⟩ := entry
    by_cases here : ρ key = name
    · exact ⟨key, by simp [contains, find?], here⟩
    · obtain ⟨old, later, same⟩ := ih (by simpa [contains, renamed, find?, here] using bound)
      refine ⟨old, ?_, same⟩
      by_cases first : key = old
      · simp [contains, find?, first]
      · simpa [contains, find?, first] using later

theorem renamed_id (table : Table α) : table.renamed id = table := by simp [renamed]

end Table

/-- Names that are not words of the language. -/
def Ordinary (name : Text) : Prop := name ≠ Names.this ∧ name ≠ Names.super

/-- Other names for the names of a scope. -/
structure Renaming where
  apply : Text → Text
  injective : ∀ a b, apply a = apply b → a = b
  this : apply Names.this = Names.this
  super : apply Names.super = Names.super

instance : CoeFun Renaming fun _ => Text → Text := ⟨Renaming.apply⟩

namespace Renaming

/-- Names as they are. -/
def same : Renaming := ⟨id, fun _ _ => id, rfl, rfl⟩

/-- Words of the language are never renamed. -/
theorem word (ρ : Renaming) (word : ¬ Ordinary name) : ρ name = name := by
  by_cases this : name = Names.this
  · rw [this, ρ.this]
  · by_cases super : name = Names.super
    · rw [super, ρ.super]
    · exact absurd ⟨this, super⟩ word

end Renaming

end Lox
