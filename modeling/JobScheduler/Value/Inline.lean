import JobScheduler.Text.Characters
import JobScheduler.Text.Quoted
import JobScheduler.Value

/-!
Values written in one line, as environment variables hold them: truth values, numbers, characters
and strings in quotes, lists in brackets, tables in braces, and anything else as plain text. A line
that is no such value as a whole is a text, just as it stands.
-/

namespace JobScheduler.Inline

open Text

/-- A character that ends a plain word. -/
def isSeparator (c : Char) : Bool :=
  c == ',' || c == '{' || c == '}' || c == '[' || c == ']'

def isNameChar (c : Char) : Bool := c.isAlphanum || c == '-' || c == '_'

/-- The value of a word without quotes or brackets: a number if it is written as one. -/
def plain (word : List Char) : Value :=
  let word := trim word
  if word.contains '.' && isDecimal word then .number (String.ofList word)
  else if (unsigned64? word).isSome || (signed64? word).isSome then .number (String.ofList word)
  else .text (String.ofList word)

theorem plain_cases (word : List Char) :
    (∃ literal, plain word = .number literal) ∨ ∃ text, plain word = .text text := by
  unfold plain
  dsimp only
  split
  · exact .inl ⟨_, rfl⟩
  · split
    · exact .inl ⟨_, rfl⟩
    · exact .inr ⟨_, rfl⟩

/-- The string after an opening quote, and the text after it. Of what stands before its first escape
a string keeps as many bytes as that has characters; without an escape it keeps all. -/
def string? (cs : List Char) : Option (String × List Char) :=
  (quoted? cs).map fun r =>
    let plain := cs.takeWhile fun c => c != '"' && c != '\\'
    match cs.drop plain.length with
    | '\\' :: _ => (String.ofList (takeBytes plain.length plain ++ r.1.drop plain.length), r.2)
    | _ => (String.ofList r.1, r.2)

/-- A name in a table, and the text after it. -/
def name? : List Char → Option (String × List Char)
  | '"' :: rest => string? rest
  | cs =>
    match cs.takeWhile isNameChar with
    | [] => none
    | name => some (String.ofList name, cs.dropWhile isNameChar)

mutual

/-- A value with blanks around it, and the text after them. -/
def value? : Nat → List Char → Option (Value × List Char)
  | 0, _ => none
  | fuel + 1, cs =>
    (bare? fuel (cs.dropWhile isAsciiBlank)).map fun r => (r.1, r.2.dropWhile isAsciiBlank)

def bare? : Nat → List Char → Option (Value × List Char)
  | 0, _ => none
  | _ + 1, 't' :: 'r' :: 'u' :: 'e' :: rest => some (.flag true, rest)
  | _ + 1, 'f' :: 'a' :: 'l' :: 's' :: 'e' :: rest => some (.flag false, rest)
  | fuel + 1, '{' :: rest => (entries? fuel [] rest).map fun r => (.table r.1, r.2)
  | fuel + 1, '[' :: rest => (items? fuel rest).map fun r => (.list r.1, r.2)
  | _ + 1, '"' :: rest => (string? rest).map fun r => (.text r.1, r.2)
  | _ + 1, '\'' :: rest =>
    match rest with
    | c :: '\'' :: rest => some (.letter c, rest)
    | _ => none
  | _ + 1, cs =>
    some (plain (cs.takeWhile fun c => !isSeparator c), cs.dropWhile fun c => !isSeparator c)

/-- The items of a list up to its closing bracket; a comma may stand before that. -/
def items? : Nat → List Char → Option (List Value × List Char)
  | 0, _ => none
  | _ + 1, ']' :: rest => some ([], rest)
  | fuel + 1, cs =>
    match value? fuel cs with
    | some (v, ',' :: rest) => (items? fuel rest).map fun r => (v :: r.1, r.2)
    | some (v, ']' :: rest) => some ([v], rest)
    | _ => none

/-- The entries of a table up to its closing brace, added to those before them; a comma may stand
before the brace. Of two entries with one name the later counts. -/
def entries? : Nat → Table → List Char → Option (Table × List Char)
  | 0, _, _ => none
  | _ + 1, before, '}' :: rest => some (before, rest)
  | fuel + 1, before, cs =>
    match name? (cs.dropWhile isAsciiBlank) with
    | none => none
    | some (name, rest) =>
      match rest.dropWhile isAsciiBlank with
      | '=' :: rest =>
        match value? fuel rest with
        | some (v, ',' :: rest) => entries? fuel (before.put name v) rest
        | some (v, '}' :: rest) => some (before.put name v, rest)
        | _ => none
      | _ => none

end

/-- The value that a line holds. Between a character of the line and the next a reading goes at
most two levels deeper, which bounds the fuel. -/
def read (line : String) : Value :=
  let cs := line.toList
  match value? (2 * cs.length + 4) cs with
  | some (v, []) => v
  | _ => .text line

end JobScheduler.Inline
