import InlineArrays.Text.Quoted

/-!
# Plain data

Truth values, integers, lists and tables: what a scenario gives as inputs and expects as a result.
The keys of a table are distinct and in increasing order.
-/

namespace InlineArrays

inductive Data where
  | bool (value : Bool)
  | int (value : Int64)
  | list (items : List Data)
  | table (entries : List (String × Data))

/-- Puts an entry into a table ordered by key, in place of one of the same key. -/
def insertEntry {α : Type} (key : String) (value : α) : List (String × α) → List (String × α)
  | [] => [(key, value)]
  | (k, v) :: entries =>
    if key = k then (key, value) :: entries
    else if key < k then (key, value) :: (k, v) :: entries
    else (k, v) :: insertEntry key value entries

def valueAt? {α : Type} (key : String) (entries : List (String × α)) : Option α :=
  (entries.find? (·.1 == key)).map (·.2)

theorem valueAt?_insertEntry {α : Type} (key k : String) (value : α)
    (entries : List (String × α)) :
    valueAt? k (insertEntry key value entries) =
      if key = k then some value else valueAt? k entries := by
  simp only [valueAt?]
  induction entries with
  | nil => by_cases h : key = k <;> simp [insertEntry, h]
  | cons entry entries ih =>
    by_cases h : key = entry.1
    · rw [insertEntry, if_pos h]
      by_cases hk : entry.1 = k <;> simp [h, hk]
    · rw [insertEntry, if_neg h]
      by_cases hlt : key < entry.1
      · rw [if_pos hlt]
        by_cases hk : key = k <;> simp [hk]
      · rw [if_neg hlt]
        by_cases hk : entry.1 = k
        · have : key ≠ k := fun e ↦ h (e.trans hk.symm)
          simp [hk, this]
        · rw [List.find?_cons_of_neg (by simpa using hk), ih,
            List.find?_cons_of_neg (by simpa using hk)]

namespace Data

mutual

/-- A one-line description that tells kind and contents. -/
def describe : Data → String
  | .bool value => s!"Bool({value})"
  | .int value => s!"Int({value.toInt})"
  | .list items => "List([" ++ ", ".intercalate (describeItems items) ++ "])"
  | .table entries => "Table(\x7b" ++ ", ".intercalate (describeEntries entries) ++ "\x7d)"

def describeItems : List Data → List String
  | [] => []
  | item :: items => item.describe :: describeItems items

def describeEntries : List (String × Data) → List String
  | [] => []
  | (key, value) :: entries =>
    (Text.quote key ++ ": " ++ value.describe) :: describeEntries entries

end

end Data

end InlineArrays
