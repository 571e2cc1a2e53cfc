/-!
Values as files and variables give them, and how one source is laid over another: tables are merged
name by name, and anything else in the upper source replaces what is below.
-/

namespace JobScheduler

/-- A value. Numbers and dates are kept as they are written, since no setting is one. -/
inductive Value where
  | flag (value : Bool)
  | number (literal : String)
  | letter (value : Char)
  | text (value : String)
  | date (literal : String)
  | list (items : List Value)
  | table (entries : List (String × Value))

/-- The entries of a table; of two entries with one name the first counts. -/
abbrev Table := List (String × Value)

namespace Table

/-- The table with `value` under `name`. -/
def put : Table → String → Value → Table
  | [], name, value => [(name, value)]
  | (n, v) :: rest, name, value =>
    if n = name then (n, value) :: rest else (n, v) :: put rest name value

end Table

namespace Value

/-- The entries of a value that counts as a table. A date is one, without any setting in it. -/
def entries? : Value → Option Table
  | table entries => some entries
  | date _ => some []
  | _ => none

mutual

/-- A value laid over the value `under`. -/
def layer (under : Value) : Value → Value
  | table entries =>
    match under.entries? with
    | some below => table (layerEntries below entries)
    | none => table entries
  | date literal =>
    match under.entries? with
    | some below => table below
    | none => date literal
  | flag value => flag value
  | number literal => number literal
  | letter value => letter value
  | text value => text value
  | list items => list items

/-- The entries of a table laid over the entries `below`. -/
def layerEntries (below : Table) : List (String × Value) → Table
  | [] => below
  | entry :: rest => layerEntries (layerEntry below entry) rest

def layerEntry (below : Table) : String × Value → Table
  | (name, value) =>
    match below.lookup name with
    | some under => Table.put below name (layer under value)
    | none => Table.put below name value

end

end Value

end JobScheduler
