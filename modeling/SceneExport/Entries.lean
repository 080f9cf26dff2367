/-!
# Lists of entries

A table as a list of pairs, each of a key and the value under it.
-/
namespace SceneExport.Entries

/-- Puts a value under a key: a key that is there keeps its place. -/
def put {κ α : Type} [DecidableEq κ] (key : κ) (a : α) : List (κ × α) → List (κ × α)
  | [] => [(key, a)]
  | (k, v) :: rest => if k = key then (k, a) :: rest else (k, v) :: put key a rest

end SceneExport.Entries
