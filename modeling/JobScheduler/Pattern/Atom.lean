import JobScheduler.Pattern
import JobScheduler.Text.Characters
import JobScheduler.Text.Quoted

/-!
The smallest parts of a written pattern: characters, and escapes after a backslash. In a `spaced`
part of it blanks count for nothing, and neither do comments, each from a hash sign to the end of
the line.
-/

namespace JobScheduler.Pattern

open Text

/-- The text without the blanks and comments at its head, read in a comment or not. -/
def skipBlanks (comment : Bool) : List Char → List Char
  | [] => []
  | c :: rest =>
    if comment then skipBlanks (c != '\n') rest
    else if isBlank c then skipBlanks false rest
    else if c = '#' then skipBlanks true rest
    else c :: rest

/-- The text from what counts next. -/
def skip (spaced : Bool) (cs : List Char) : List Char := if spaced then skipBlanks false cs else cs

/-- What a character or an escape stands for. -/
inductive Atom where
  | literal (l : Literal)
  | edge (word : Bool)
  | shorthand (negated : Bool)
deriving DecidableEq, Repr

def Atom.toPattern : Atom → Pattern
  | literal l => .literal l
  | edge word => .edge word
  | shorthand negated => .shorthand negated

/-- An atom in brackets, where there are no edges. -/
def Atom.toSet? : Atom → Option CharSet
  | literal l => some (.literal l)
  | edge _ => none
  | shorthand negated => some (.shorthand negated)

def Atom.literal? : Atom → Option Literal
  | literal l => some l
  | _ => none

/-- A number of hexadecimal digits, and the text after them. -/
def hexDigits? (spaced : Bool) : Nat → List Char → Option (List Char × List Char)
  | 0, cs => some ([], cs)
  | n + 1, cs =>
    match skip spaced cs with
    | c :: rest =>
      if isDigit 16 c then (hexDigits? spaced n rest).map fun r => (c :: r.1, r.2) else none
    | [] => none

/-- A character by its code point in a number of digits; a byte has two. -/
def hex? (spaced : Bool) (digits : Nat) (cs : List Char) : Option (Atom × List Char) :=
  (hexDigits? spaced digits cs).bind fun r =>
    (codePoint? r.1).map fun c => (.literal ⟨c, digits == 2⟩, r.2)

/-- What a letter after a backslash stands for, if it is no code point. -/
def lettered? : Char → Option Atom
  | 'd' | 's' | 'w' => some (.shorthand false)
  | 'D' | 'S' | 'W' => some (.shorthand true)
  | 'b' | 'B' | '<' | '>' => some (.edge true)
  | 'A' | 'z' => some (.edge false)
  | 'a' => some (.literal ⟨'\x07', false⟩)
  | 'f' => some (.literal ⟨'\x0c', false⟩)
  | 'n' => some (.literal ⟨'\n', false⟩)
  | 'r' => some (.literal ⟨'\r', false⟩)
  | 't' => some (.literal ⟨'\t', false⟩)
  | 'v' => some (.literal ⟨'\x0b', false⟩)
  | c => if c.toNat < 0x80 && !c.isAlphanum then some (.literal ⟨c, false⟩) else none

/-- The escape after a backslash, and the text after it. -/
def escape? (spaced : Bool) : List Char → Option (Atom × List Char)
  | 'x' :: rest => hex? spaced 2 rest
  | 'u' :: rest => hex? spaced 4 rest
  | 'U' :: rest => hex? spaced 8 rest
  | c :: rest => (lettered? c).map (·, rest)
  | [] => none

/-- The atom at the head of a text, and the text after it. -/
def atom? (spaced : Bool) : List Char → Option (Atom × List Char)
  | '\\' :: rest => escape? spaced rest
  | c :: rest => some (.literal ⟨c, false⟩, rest)
  | [] => none

end JobScheduler.Pattern
