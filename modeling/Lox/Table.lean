import Lox.Text

/-! Tables from names to values. A name occurs at most once: inserting it again replaces its value. -/

namespace Lox

/-- A table: names with their values, in the order of their first insertion. -/
abbrev Table (α : Type) := List (Text × α)

namespace Table

variable {α : Type}

def find? : Table α → Text → Option α
  | [], _ => none
  | (key, value) :: rest, name => if key = name then some value else find? rest name

def contains (table : Table α) (name : Text) : Bool := (table.find? name).isSome

def insert : Table α → Text → α → Table α
  | [], name, value => [(name, value)]
  | (key, old) :: rest, name, value =>
    if key = name then (key, value) :: rest else (key, old) :: insert rest name value

@[simp] theorem find?_nil (name : Text) : find? ([] : Table α) name = none := rfl

@[simp] theorem find?_insert (table : Table α) (name other : Text) (value : α) :
    (table.insert name value).find? other = if name = other then some value else table.find? other := by
  induction table with
  | nil => simp [insert, find?]
  | cons entry rest ih =>
    obtain ⟨key, old⟩ := entry
    unfold insert
    by_cases here : key = name
    · subst here
      by_cases same : key = other <;> simp [find?, same]
    · by_cases same : name = other
      · subst same
        simp [find?, here, ih]
      · simp [find?, here, ih, same]

/-- The entries of a table by name, in byte order. -/
def sorted (table : Table α) : List (Text × α) := table.mergeSort fun a b => a.1 ≤ b.1

end Table
end Lox
