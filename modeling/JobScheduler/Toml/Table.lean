import JobScheduler.Value

/-!
Tables of a TOML text while they are being defined. A table is defined once, by its header or as
the keys of one; what a longer header or a dotted key made on the way can be gone into again, each
only by its own kind. Nothing is defined twice.
-/

namespace JobScheduler.Toml

/-- How a table came to be: by a header of its own, on the way of a longer header, or on the way of
a dotted key. -/
inductive Origin where
  | header
  | way
  | dotted
deriving DecidableEq, Repr

/-- A value, a table that may still grow, or the tables of an array of tables. -/
inductive Node where
  | value (v : Value)
  | table (origin : Origin) (entries : List (String × Node))
  | tables (items : List (List (String × Node)))

abbrev Nodes := List (String × Node)

namespace Node

mutual

/-- The value that a node has become once nothing is added any more. -/
def toValue : Node → Value
  | value v => v
  | table _ entries => .table (toEntries entries)
  | tables items => .list (toItems items)

def toEntries : List (String × Node) → List (String × Value)
  | [] => []
  | entry :: rest => toEntry entry :: toEntries rest

def toEntry : String × Node → String × Value
  | (name, node) => (name, toValue node)

def toItems : List (List (String × Node)) → List Value
  | [] => []
  | entries :: rest => .table (toEntries entries) :: toItems rest

end

end Node

namespace Nodes

/-- The entries with `node` under `name`. -/
def put : Nodes → String → Node → Nodes
  | [], name, node => [(name, node)]
  | (n, old) :: rest, name, node =>
    if n = name then (n, node) :: rest else (n, old) :: put rest name node

/-- Changes the table at the end of a path, making the tables on the way that are not there yet. A
path of a dotted key does not go into a table that has a header; a path of a header goes into the
last table of an array. -/
def change (dotted : Bool) (f : Origin → Nodes → Option Nodes) :
    List String → Origin → Nodes → Option Nodes
  | [], origin, nodes => f origin nodes
  | name :: path, _, nodes =>
    match nodes.lookup name with
    | none =>
      let origin := if dotted then .dotted else .way
      (change dotted f path origin []).map fun inner => nodes.put name (.table origin inner)
    | some (.table origin inner) =>
      if dotted && origin = .header then none
      else (change dotted f path origin inner).map fun inner =>
        nodes.put name (.table origin inner)
    | some (.tables items) =>
      (change dotted f path .header (items.getLast?.getD [])).map fun last =>
        nodes.put name (.tables (items.dropLast ++ [last]))
    | some (.value _) => none

/-- Defines a value under a dotted key, in the entries of a table. -/
def define (key : List String) (v : Value) (origin : Origin) (nodes : Nodes) : Option Nodes :=
  let path := key.dropLast
  let name := key.getLast?.getD ""
  change true
    (fun origin nodes =>
      if (origin == .dotted) == path.isEmpty || (nodes.lookup name).isSome then none
      else some (nodes.put name (.value v)))
    path origin nodes

/-- Defines a table by its header. -/
def openTable (key : List String) (nodes : Nodes) : Option Nodes :=
  let name := key.getLast?.getD ""
  change false
    (fun _ nodes =>
      match nodes.lookup name with
      | none => some (nodes.put name (.table .header []))
      | some (.table .way inner) => some (nodes.put name (.table .header inner))
      | some _ => none)
    key.dropLast .header nodes

/-- Defines one more table of an array of tables by its header. -/
def openItem (key : List String) (nodes : Nodes) : Option Nodes :=
  let name := key.getLast?.getD ""
  change false
    (fun _ nodes =>
      match nodes.lookup name with
      | none => some (nodes.put name (.tables [[]]))
      | some (.tables items) => some (nodes.put name (.tables (items ++ [[]])))
      | some _ => none)
    key.dropLast .header nodes

/-- Defines a value under a dotted key, in the table of a header. -/
def defineIn (header key : List String) (v : Value) (nodes : Nodes) : Option Nodes :=
  change false (define key v) header .header nodes

end Nodes

end JobScheduler.Toml
