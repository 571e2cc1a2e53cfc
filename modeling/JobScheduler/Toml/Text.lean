import JobScheduler.Text.Quoted

/-!
The four kinds of strings in a TOML text: in double quotes with escapes or in single quotes as they
stand, and each of them on one line or, in three quotes, on several. One or two quotes may stand
right before three that close a string. A line break in a string is a line feed, however it is
written.
-/

namespace JobScheduler.Toml

open Text

/-- Where the reading of a string on several lines is: in its content, after a backslash at the end
of a line, or in the blanks and line breaks that such a backslash takes away. -/
inductive Place where
  | content
  | lineEnd
  | blank
deriving DecidableEq

/-- The content of a string in three double quotes, read after these and the line break that may
follow them, and the text after it. -/
def multiQuoted? : Place → List Char → Option (List Char × List Char)
  | _, [] => none
  | .lineEnd, ' ' :: rest => multiQuoted? .lineEnd rest
  | .lineEnd, '\t' :: rest => multiQuoted? .lineEnd rest
  | .lineEnd, '\n' :: rest => multiQuoted? .blank rest
  | .lineEnd, '\r' :: '\n' :: rest => multiQuoted? .blank rest
  | .lineEnd, _ => none
  | .blank, ' ' :: rest => multiQuoted? .blank rest
  | .blank, '\t' :: rest => multiQuoted? .blank rest
  | .blank, '\n' :: rest => multiQuoted? .blank rest
  | .blank, '\r' :: '\n' :: rest => multiQuoted? .blank rest
  | _, '"' :: '"' :: '"' :: '"' :: '"' :: rest => some (['"', '"'], rest)
  | _, '"' :: '"' :: '"' :: '"' :: rest => some (['"'], rest)
  | _, '"' :: '"' :: '"' :: rest => some ([], rest)
  | _, '\\' :: 'u' :: a :: b :: c :: d :: rest =>
    (codePoint? [a, b, c, d]).bind fun x => consRead x (multiQuoted? .content rest)
  | _, '\\' :: 'U' :: a :: b :: c :: d :: e :: f :: g :: h :: rest =>
    (codePoint? [a, b, c, d, e, f, g, h]).bind fun x => consRead x (multiQuoted? .content rest)
  | _, '\\' :: '\r' :: '\n' :: rest => multiQuoted? .blank rest
  | _, '\\' :: x :: rest =>
    if x == '\n' then multiQuoted? .blank rest
    else if x == ' ' || x == '\t' then multiQuoted? .lineEnd rest
    else (escaped? x).bind fun x => consRead x (multiQuoted? .content rest)
  | _, '\r' :: '\n' :: rest => consRead '\n' (multiQuoted? .content rest)
  | _, c :: rest =>
    if c == '\n' || (isPlain c && c != '\\') then consRead c (multiQuoted? .content rest) else none

/-- The content of a string in single quotes, read after the opening one, and the text after it. -/
def literal? : List Char → Option (List Char × List Char)
  | [] => none
  | '\'' :: rest => some ([], rest)
  | c :: rest => if isPlain c then consRead c (literal? rest) else none

/-- The content of a string in three single quotes, and the text after it. -/
def multiLiteral? : List Char → Option (List Char × List Char)
  | [] => none
  | '\'' :: '\'' :: '\'' :: '\'' :: '\'' :: rest => some (['\'', '\''], rest)
  | '\'' :: '\'' :: '\'' :: '\'' :: rest => some (['\''], rest)
  | '\'' :: '\'' :: '\'' :: rest => some ([], rest)
  | '\r' :: '\n' :: rest => consRead '\n' (multiLiteral? rest)
  | c :: rest => if c == '\n' || isPlain c then consRead c (multiLiteral? rest) else none

/-- The text without a line break at its head. -/
def dropBreak : List Char → List Char
  | '\n' :: rest => rest
  | '\r' :: '\n' :: rest => rest
  | cs => cs

/-- A string of any kind and the text after it. -/
def string? : List Char → Option (List Char × List Char)
  | '"' :: '"' :: '"' :: rest => multiQuoted? .content (dropBreak rest)
  | '"' :: rest => quoted? rest
  | '\'' :: '\'' :: '\'' :: rest => multiLiteral? (dropBreak rest)
  | '\'' :: rest => literal? rest
  | _ => none

end JobScheduler.Toml
