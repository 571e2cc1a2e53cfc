import JobScheduler.Settings

/-!
Settings as JSON documents. A structure is an object, in which unknown names are passed over, or
the array of its fields in order, which may end early and may not go on. A format is its name, or
an object with that name alone and nothing in it.
-/

namespace JobScheduler

/-- A JSON document. A number is a mantissa and how many of its digits stand after the point. -/
inductive Json where
  | null
  | flag (value : Bool)
  | number (mantissa : Int) (places : Nat)
  | text (value : String)
  | list (items : List Json)
  | object (fields : List (String × Json))
deriving Inhabited

namespace Json

def fields? (names : List String) : Json → Option (List (String × Json))
  | object fields => some fields
  | list items => if items.length ≤ names.length then some (names.zip items) else none
  | _ => none

def text? : Json → Option String
  | text value => some value
  | _ => none

def flag? : Json → Option Bool
  | flag value => some value
  | _ => none

def format? : Json → Option LogFormat
  | text name => LogFormat.ofName? name
  | object [(name, null)] => LogFormat.ofName? name
  | _ => none

def reading : Reading Json := ⟨fields?, text?, format?, flag?⟩

end Json

namespace Settings

def ofJson? (d : Json) : Option Settings := read Json.reading d

def toJson (s : Settings) : Json :=
  .object [
    ("logging", .object [
      ("level", .text s.logging.level),
      ("format", .text s.logging.format.name)]),
    ("scheduler", .object [("metrics", .flag s.scheduler.metrics)])]

end Settings

end JobScheduler
