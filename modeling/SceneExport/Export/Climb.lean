import SceneExport.Project.Basic

/-!
# Climbing to the parents of an object

Before an object is written its parent is, and before that the parent of the parent. The climb goes
up until there is no parent or it is marked already, marking all objects on the way. Each step marks
an identifier that was not marked before, so the climb ends also where objects are their own
ancestors.
-/
namespace SceneExport.Export

open Project (Object)

/-- Where a climb ended. -/
structure Ascent where
  marks : List String
  /-- The objects marked on the way, the topmost first. -/
  chain : List Object
  /-- The name of a parent that does not exist. -/
  missing : Option String

/-- The objects that are not marked. -/
def unmarked (p : Project) (marks : List String) : List Object :=
  p.objects.filter fun o => p.uuid o ∉ marks

theorem length_unmarked_lt {p : Project} {marks : List String} {name : String} {o : Object}
    (found : p.object? name = some o) (fresh : p.uuid o ∉ marks) :
    (unmarked p (p.uuid o :: marks)).length < (unmarked p marks).length := by
  have member : o ∈ p.objects := List.mem_of_find?_eq_some found
  have split : unmarked p (p.uuid o :: marks) =
      (unmarked p marks).filter fun q => p.uuid q ≠ p.uuid o := by
    simp only [unmarked, List.filter_filter]
    congr 1
    funext q
    simp [not_or]
  rw [split]
  have inside : o ∈ unmarked p marks := by simp [unmarked, member, fresh]
  exact List.length_filter_lt_length_iff_exists.2 ⟨o, inside, by simp⟩

/-- Climbs from the object of a name; `chain` are the objects below it, the topmost first. -/
def climb (p : Project) (marks : List String) (chain : List Object) (name : String) : Ascent :=
  match _found : p.object? name with
  | none => ⟨marks, chain, some name⟩
  | some o =>
    if _marked : p.uuid o ∈ marks then ⟨marks, chain, none⟩
    else
      match o.parent with
      | none => ⟨p.uuid o :: marks, o :: chain, none⟩
      | some parent => climb p (p.uuid o :: marks) (o :: chain) parent
termination_by (unmarked p marks).length
decreasing_by exact length_unmarked_lt _found _marked

end SceneExport.Export
