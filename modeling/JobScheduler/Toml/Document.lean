import JobScheduler.Toml.Date
import JobScheduler.Toml.Number
import JobScheduler.Toml.Table
import JobScheduler.Toml.Text

/-!
TOML texts. A text is a list of statements: headers of tables, headers of tables in arrays, and keys
with their values. `statements?` reads all of a text, and `parse?` makes a table of them; a byte
order mark at the head of the text is passed over.
-/

namespace JobScheduler.Toml

open Text

inductive Statement where
  | table (key : List String)
  | item (key : List String)
  | pair (key : List String) (value : Value)

def isSpace (c : Char) : Bool := c == ' ' || c == '\t'

def dropSpace (cs : List Char) : List Char := cs.dropWhile isSpace

/-- The text after blanks, line breaks and comments; `comment` tells whether one has begun. -/
def dropFiller? (comment : Bool) : List Char → Option (List Char)
  | [] => some []
  | '\n' :: rest => dropFiller? false rest
  | '\r' :: '\n' :: rest => dropFiller? false rest
  | c :: rest =>
    if comment then if isPlain c then dropFiller? true rest else none
    else if isSpace c then dropFiller? false rest
    else if c == '#' then dropFiller? true rest
    else some (c :: rest)

/-- The text after a comment and the line break that ends it. -/
def dropComment? : List Char → Option (List Char)
  | [] => some []
  | '\n' :: rest => some rest
  | '\r' :: '\n' :: rest => some rest
  | c :: rest => if isPlain c then dropComment? rest else none

/-- The text after the end of a line, where nothing but a comment may stand. -/
def dropLineEnd? (cs : List Char) : Option (List Char) :=
  match dropSpace cs with
  | [] => some []
  | '\n' :: rest => some rest
  | '\r' :: '\n' :: rest => some rest
  | '#' :: rest => dropComment? rest
  | _ => none

def isBareKey (c : Char) : Bool := c.isAlphanum || c == '-' || c == '_'

/-- One part of a key: bare, or a string on one line. -/
def part? : List Char → Option (String × List Char)
  | '"' :: rest => (quoted? rest).map fun r => (String.ofList r.1, r.2)
  | '\'' :: rest => (literal? rest).map fun r => (String.ofList r.1, r.2)
  | cs =>
    match cs.takeWhile isBareKey with
    | [] => none
    | name => some (String.ofList name, cs.dropWhile isBareKey)

/-- A key of at most `limit` parts with points between them, and the text after it. -/
def keyFor? : Nat → List Char → Option (List String × List Char)
  | 0, _ => none
  | limit + 1, cs =>
    match part? (dropSpace cs) with
    | none => none
    | some (part, rest) =>
      match dropSpace rest with
      | '.' :: rest => (keyFor? limit rest).map fun r => (part :: r.1, r.2)
      | rest => some ([part], rest)

/-- How many parts a key may have, and how deep values may be nested. -/
def depthLimit : Nat := 79

def key? (cs : List Char) : Option (List String × List Char) := keyFor? depthLimit cs

/-- A key, its equals sign and the blanks around it, and the text after them. -/
def keyEquals? (cs : List Char) : Option (List String × List Char) :=
  match key? cs with
  | some (key, '=' :: rest) => some (key, dropSpace rest)
  | _ => none

/-- A number or a date, and the text after it. -/
def scalar? (cs : List Char) : Option (Value × List Char) :=
  let literal (rest : List Char) := String.ofList (cs.take (cs.length - rest.length))
  match date? cs with
  | some rest => some (.date (literal rest), rest)
  | none => (number? cs).map fun rest => (.number (literal rest), rest)

mutual

/-- A value, of which the nesting is at most `depth`, and the text after it. -/
def value? : Nat → Nat → List Char → Option (Value × List Char)
  | 0, _, _ => none
  | _ + 1, _, 't' :: 'r' :: 'u' :: 'e' :: rest => some (.flag true, rest)
  | _ + 1, _, 'f' :: 'a' :: 'l' :: 's' :: 'e' :: rest => some (.flag false, rest)
  | fuel + 1, depth, '[' :: rest =>
    match depth with
    | 0 => none
    | depth + 1 => (items? fuel depth rest).map fun r => (.list r.1, r.2)
  | fuel + 1, depth, '{' :: rest =>
    match depth with
    | 0 => none
    | depth + 1 =>
      match dropSpace rest with
      | '}' :: rest => some (.table [], rest)
      | rest => (entries? fuel depth [] rest).map fun r => (.table (Node.toEntries r.1), r.2)
  | _ + 1, _, cs =>
    match string? cs with
    | some (s, rest) => some (.text (String.ofList s), rest)
    | none => scalar? cs

/-- The items of an array up to its closing bracket; a comma may stand before that. -/
def items? : Nat → Nat → List Char → Option (List Value × List Char)
  | 0, _, _ => none
  | fuel + 1, depth, cs =>
    match dropFiller? false cs with
    | none => none
    | some (']' :: rest) => some ([], rest)
    | some cs =>
      match value? fuel depth cs with
      | none => none
      | some (v, rest) =>
        match dropFiller? false rest with
        | some (',' :: rest) => (items? fuel depth rest).map fun r => (v :: r.1, r.2)
        | some (']' :: rest) => some ([v], rest)
        | _ => none

/-- The entries of an inline table up to its closing brace, added to those before them. -/
def entries? : Nat → Nat → Nodes → List Char → Option (Nodes × List Char)
  | 0, _, _, _ => none
  | fuel + 1, depth, before, cs =>
    match keyEquals? cs with
    | none => none
    | some (key, rest) =>
      match value? fuel depth rest with
      | none => none
      | some (v, rest) =>
        match before.define key v .header with
        | none => none
        | some nodes =>
          match dropSpace rest with
          | ',' :: rest => entries? fuel depth nodes rest
          | '}' :: rest => some (nodes, rest)
          | _ => none

end

/-- One statement with the rest of its line, and the text after that. -/
def statement? (cs : List Char) : Option (Statement × List Char) :=
  match cs with
  | '[' :: '[' :: rest =>
    match key? rest with
    | some (key, ']' :: ']' :: rest) => (dropLineEnd? rest).map fun rest => (.item key, rest)
    | _ => none
  | '[' :: rest =>
    match key? rest with
    | some (key, ']' :: rest) => (dropLineEnd? rest).map fun rest => (.table key, rest)
    | _ => none
  | _ =>
    match keyEquals? cs with
    | none => none
    | some (key, rest) =>
      match value? (2 * rest.length + 2) depthLimit rest with
      | none => none
      | some (v, rest) => (dropLineEnd? rest).map fun rest => (.pair key v, rest)

/-- At most `fuel` statements. -/
def statementsFor? : Nat → List Char → Option (List Statement)
  | 0, _ => none
  | fuel + 1, cs =>
    match dropFiller? false cs with
    | none => none
    | some [] => some []
    | some cs =>
      match statement? cs with
      | none => none
      | some (s, rest) => (statementsFor? fuel rest).map (s :: ·)

/-- The statements of a text. Each has a character at least. -/
def statements? (cs : List Char) : Option (List Statement) := statementsFor? (cs.length + 1) cs

/-- Carries out statements on the entries defined so far; `header` leads to the table whose keys
come next. -/
def build? : List String → Nodes → List Statement → Option Nodes
  | _, nodes, [] => some nodes
  | header, nodes, .pair key v :: rest =>
    (nodes.defineIn header key v).bind fun nodes => build? header nodes rest
  | _, nodes, .table key :: rest => (nodes.openTable key).bind fun nodes => build? key nodes rest
  | _, nodes, .item key :: rest => (nodes.openItem key).bind fun nodes => build? key nodes rest

def dropMark : List Char → List Char
  | c :: rest => if c.toNat = 0xFEFF then rest else c :: rest
  | [] => []

/-- The table that a text defines, if it is valid. -/
def parse? (text : String) : Option Table :=
  (statements? (dropMark text.toList)).bind fun statements =>
    (build? [] [] statements).map Node.toEntries

end JobScheduler.Toml
