import JobScheduler.Value.Inline

/-!
Settings in environment variables. A variable whose name starts with `CHAIND_`, in any case, holds
the setting that the rest of the name leads to: a double underscore or a point goes one table
deeper. A name with an empty part is passed over, and a variable is laid over those set before it.
-/

namespace JobScheduler.Environment

/-- The variables in the order in which they were first set, each with its last value. -/
def lastValues : List (String × String) → List (String × String) → List (String × String)
  | vars, [] => vars
  | vars, (name, value) :: rest =>
    if vars.any (·.1 = name) then
      lastValues (vars.map fun v => if v.1 = name then (name, value) else v) rest
    else lastValues (vars ++ [(name, value)]) rest

def stem : List Char := "chaind_".toList

/-- A name with a point for each double underscore. -/
def dotted : List Char → List Char
  | '_' :: '_' :: rest => '.' :: dotted rest
  | c :: rest => c :: dotted rest
  | [] => []

/-- The parts of a name between its points. -/
def parts : List Char → List (List Char)
  | [] => [[]]
  | c :: rest =>
    if c = '.' then [] :: parts rest
    else match parts rest with
      | [] => [[c]]
      | part :: more => (c :: part) :: more

/-- The path that a variable's name leads to, if the name is one of a setting. Blanks around the
name do not count, and neither do those around what is left of it after the stem. -/
def path? (name : String) : Option (List String) :=
  let name := (Text.trim name.toList).map Char.toLower
  if stem.isPrefixOf name then
    let path := parts (Text.trim (dotted (name.drop stem.length)))
    if path.any List.isEmpty then none else some (path.map String.ofList)
  else none

/-- A table that holds one value at the end of a path. -/
def nest : List String → Value → Value
  | [], v => v
  | name :: rest, v => .table [(name, nest rest v)]

/-- The table that variables make, each laid over those before it. -/
def table (vars : List (String × String)) : Table :=
  (lastValues [] vars).foldl
    (fun t var =>
      match path? var.1 with
      | some (name :: rest) => Value.layerEntry t (name, nest rest (Inline.read var.2))
      | _ => t)
    []

end JobScheduler.Environment
