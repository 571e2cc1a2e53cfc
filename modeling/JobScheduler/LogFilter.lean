import JobScheduler.Pattern.Written

/-!
Filters of log events: directives that each let the events of a target pass up to a verbosity.

A directive is a verbosity, a target, or both with an equals sign between them, and a target may be
followed by brackets with the name of a span and the names of fields, each with or without a value.
Of the directives that an event fits, the most specific one decides. A directive with the name of a
span or with a value holds inside such spans only, and so for no event outside of any.
-/

namespace JobScheduler

/-- How much passes a filter. -/
inductive Verbosity where
  | off
  | error
  | warn
  | info
  | debug
  | trace
deriving DecidableEq, Repr

namespace Verbosity

/-- How many levels pass, from errors on. -/
def rank : Verbosity → Nat
  | off => 0
  | error => 1
  | warn => 2
  | info => 3
  | debug => 4
  | trace => 5

def all : List Verbosity := [off, error, warn, info, debug, trace]

def name : Verbosity → String
  | off => "off"
  | error => "error"
  | warn => "warn"
  | info => "info"
  | debug => "debug"
  | trace => "trace"

/-- A verbosity by its number or, in any case, by its name. -/
def ofText? (cs : List Char) : Option Verbosity :=
  match Text.unsigned64? cs with
  | some n => all[n]?
  | none => all.find? fun v => v.name.toList = cs.map Char.toLower

end Verbosity

/-- A field in a directive: its name, and whether a value is asked for too. -/
structure FieldMatch where
  name : List Char
  valued : Bool
deriving DecidableEq, Repr

structure Directive where
  target : Option (List Char) := none
  span : Option (List Char) := none
  fields : List FieldMatch := []
  level : Verbosity := .trace
deriving DecidableEq, Repr

namespace Directive

/-- The part of a text between two places, counted in bytes. -/
def cut (source : List Char) (low high : Nat) : List Char :=
  Text.takeBytes (high - low) (Text.dropBytes low source)

/-- What is being read, and where it began. -/
inductive Place where
  | start
  | word (low : Nat)
  | span (low : Nat)
  | field (low : Nat)
  | fields
  | target
  | level (low : Nat)

/-- Whether a text can be asked for as the value of a field: a truth value, a number, or a pattern
for the value. -/
def isFieldValue (cs : List Char) : Bool :=
  ["true", "false"].contains (String.ofList cs) || Text.isBinary cs || Pattern.isUsableText cs

/-- The field that a text asks for: a name, and up to a second equals sign a value. -/
def fieldMatch? (cs : List Char) : Option FieldMatch :=
  let name := cs.takeWhile (· != '=')
  match cs.dropWhile (· != '=') with
  | [] => some ⟨name, false⟩
  | _ :: rest => if isFieldValue (rest.takeWhile (· != '=')) then some ⟨name, true⟩ else none

/-- A field that ends at a place; it may not be empty. -/
def addField (source : List Char) (d : Directive) (low high : Nat) : Option Directive :=
  match cut source low high with
  | [] => none
  | field => (fieldMatch? field).map fun f => { d with fields := d.fields ++ [f] }

/-- The character `c` at a place: what is being read after it. -/
def scan (source : List Char) (d : Directive) (place : Place) (i : Nat) (c : Char) :
    Option (Directive × Place) :=
  match place with
  | .start =>
    if c = '[' then some (d, .span (i + 1))
    else if c = '-' || c = ':' || c = '_' || Text.isAlphanumeric c then some (d, .word i)
    else none
  | .word low =>
    if c = '=' then some ({ d with target := some (cut source low i) }, .level (i + 1))
    else if c = '[' then some ({ d with target := some (cut source low i) }, .span (i + 1))
    else some (d, .word low)
  | .span low =>
    if c = ']' then some ({ d with span := some (cut source low i) }, .target)
    else if c = '{' then
      match cut source low i with
      | [] => some ({ d with span := none }, .field (i + 1))
      | span => some ({ d with span := some span }, .field (i + 1))
    else some (d, .span low)
  | .field low =>
    if c = '}' then (addField source d low i).map (·, .fields)
    else if c = ',' then (addField source d low i).map (·, .field (i + 1))
    else some (d, .field low)
  | .fields => if c = ']' then some (d, .target) else none
  | .target => if c = '=' then some (d, .level (i + 1)) else none
  | .level low => some (d, .level low)

/-- What stands alone is a verbosity if it is the text of one, and otherwise a target of which all
passes. -/
def word (d : Directive) (cs : List Char) : Directive :=
  match cs with
  | [] => { d with target := none, level := .trace }
  | _ =>
    match Verbosity.ofText? cs with
    | some level => { d with target := none, level := level }
    | none => { d with target := some cs, level := .trace }

/-- What the end of the text completes. -/
def finish (source : List Char) (d : Directive) : Place → Option Directive
  | .word low => some (d.word (Text.dropBytes low source))
  | .level low =>
    match Text.dropBytes low source with
    | [] => some { d with level := .trace }
    | cs => (Verbosity.ofText? cs).map fun level => { d with level := level }
  | .target => some d
  | _ => none

/-- Reads a text from a place on. -/
def readFrom (source : List Char) (d : Directive) (place : Place) (i : Nat) :
    List Char → Option Directive
  | [] => finish source d place
  | c :: rest =>
    match scan source d place i c with
    | some (d, place) => readFrom source d place (i + c.utf8Size) rest
    | none => none

/-- The directive that a text is. Places are found in the text without the blanks around it, and
the parts are cut out of the text with them: a blank at its head makes each part begin and end that
much early, and one at its end belongs to the last part. -/
def parse? (cs : List Char) : Option Directive := readFrom cs {} .start 0 (Text.trim cs)

/-- Whether a directive decides on events outside of spans: it asks for no span and no value. -/
def isStatic (d : Directive) : Bool := d.span.isNone && !d.fields.any (·.valued)

/-- Whether an event with a target and the names of its fields fits. Where no fields are given, it
is one that may have any. -/
def fits (d : Directive) (target : List Char) (fields : Option (List (List Char))) : Bool :=
  d.isStatic
    && (match d.target with
      | some t => t.isPrefixOf target
      | none => true)
    && (match fields with
      | some fields => d.fields.all fun f => fields.contains f.name
      | none => true)

/-- Whether a directive is at least as specific as another that fits the same event: it names a
longer target, or as long a one and more fields, or as many that do not stand before the other's. -/
def atLeast (d e : Directive) : Bool :=
  let size (d : Directive) : Nat :=
    match d.target with
    | some t => (String.ofList t).utf8ByteSize + 1
    | none => 0
  let names (d : Directive) : List (List Char) := d.fields.map (·.name)
  let before (m n : List Char) : Bool := m.lex n fun a b => a.toNat < b.toNat
  if size d ≠ size e then size e < size d
  else if d.fields.length ≠ e.fields.length then e.fields.length < d.fields.length
  else !(names d).lex (names e) before

end Directive

/-- The directives of a filter, in the order in which they were given. -/
abbrev LogFilter := List Directive

namespace LogFilter

/-- The pieces of a text between its commas. -/
def pieces : List Char → List (List Char)
  | [] => [[]]
  | c :: rest =>
    if c = ',' then [] :: pieces rest
    else match pieces rest with
      | [] => [[c]]
      | piece :: more => (c :: piece) :: more

/-- The filter that a text is. Empty pieces are passed over. -/
def parse? (text : String) : Option LogFilter :=
  ((pieces text.toList).filter fun piece => !piece.isEmpty).mapM Directive.parse?

/-- How much of the events with a target and the names of their fields passes, or of those with a
target and any fields. Of equally specific directives the last one counts, and without any that fits
nothing passes. -/
def verbosity (f : LogFilter) (target : String) (fields : Option (List String)) : Verbosity :=
  let fitting := f.filter fun d => d.fits target.toList (fields.map (·.map String.toList))
  let best := fitting.foldl
    (fun best d =>
      match best with
      | some b => if d.atLeast b then some d else some b
      | none => some d)
    none
  match best with
  | some d => d.level
  | none => .off

end LogFilter

end JobScheduler
