import JobScheduler.Text.Numeral

/-!
Strings in double quotes. A backslash starts an escape: a letter for one of a few characters, or
the code point in four or eight hexadecimal digits. Other control characters than the tab have to
be escaped.
-/

namespace JobScheduler.Text

/-- The character with a code point, unless that is a surrogate or too large. -/
def char? (n : Nat) : Option Char :=
  if h : n.isValidChar then some (Char.ofNatAux n h) else none

/-- The character with a code point written in hexadecimal digits. -/
def codePoint? (digits : List Char) : Option Char := (nat? 16 digits).bind char?

/-- The character that a backslash and a letter stand for. -/
def escaped? : Char → Option Char
  | '"' => some '"'
  | '\\' => some '\\'
  | 'b' => some '\x08'
  | 'f' => some '\x0c'
  | 'n' => some '\n'
  | 'r' => some '\r'
  | 't' => some '\t'
  | _ => none

/-- A character that may stand for itself: no control character but the tab. -/
def isPlain (c : Char) : Bool := c == '\t' || (0x20 ≤ c.toNat && c.toNat != 0x7F)

/-- A reading with one more character at its head. -/
def consRead (c : Char) (read : Option (List Char × List Char)) : Option (List Char × List Char) :=
  read.map fun r => (c :: r.1, r.2)

/-- The content of a string up to its closing quote, read after the opening one, and the text after
it. -/
def quoted? : List Char → Option (List Char × List Char)
  | [] => none
  | '"' :: rest => some ([], rest)
  | '\\' :: 'u' :: a :: b :: c :: d :: rest =>
    (codePoint? [a, b, c, d]).bind fun x => consRead x (quoted? rest)
  | '\\' :: 'U' :: a :: b :: c :: d :: e :: f :: g :: h :: rest =>
    (codePoint? [a, b, c, d, e, f, g, h]).bind fun x => consRead x (quoted? rest)
  | '\\' :: x :: rest => (escaped? x).bind fun x => consRead x (quoted? rest)
  | c :: rest => if isPlain c && c != '\\' then consRead c (quoted? rest) else none

end JobScheduler.Text
