/-!
Entries by name, in the order in which the names first came.
-/

namespace ScanTree

abbrev Entries (α : Type) := List (String × α)

namespace Entries

variable {α : Type}

/-- A name that is there keeps its place and takes the new value; a new name goes to the end. -/
def insert (key : String) (value : α) : Entries α → Entries α
  | [] => [(key, value)]
  | (k, v) :: es => if k = key then (k, value) :: es else (k, v) :: insert key value es

def get? (key : String) : Entries α → Option α
  | [] => none
  | (k, v) :: es => if k = key then some v else get? key es

def ofList (pairs : List (String × α)) : Entries α :=
  pairs.foldl (fun es p => es.insert p.1 p.2) []

def keys (es : Entries α) : List String := es.map (·.1)

theorem keys_insert (key : String) (value : α) (es : Entries α) :
    (es.insert key value).keys = if key ∈ es.keys then es.keys else es.keys ++ [key] := by
  induction es with
  | nil => simp [insert, keys]
  | cons e es ih =>
    by_cases h : e.1 = key
    · simp [insert, keys, h]
    · simp only [keys, List.map_cons, List.mem_cons] at ih ⊢
      by_cases hk : key ∈ es.map (·.1) <;> simp [insert, h, ih, hk, Ne.symm h]

end Entries

end ScanTree
