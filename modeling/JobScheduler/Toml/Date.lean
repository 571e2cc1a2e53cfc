import JobScheduler.Text.Numeral

/-!
Dates and times in a TOML text: a date, a time of day, or a date with a time that may have an
offset. Each part has to be within its bounds.
-/

namespace JobScheduler.Toml

open Text

/-- A number in exactly `count` digits between two bounds, and the text after it. -/
def within? (count low high : Nat) (cs : List Char) : Option (Nat × List Char) :=
  if cs.length < count then none
  else (nat? 10 (cs.take count)).bind fun n =>
    if low ≤ n && n ≤ high then some (n, cs.drop count) else none

def daysIn (year month : Nat) : Nat :=
  if month = 2 then
    if year % 4 = 0 && (year % 100 ≠ 0 || year % 400 = 0) then 29 else 28
  else if month = 4 || month = 6 || month = 9 || month = 11 then 30
  else 31

/-- The text after a character. -/
def after? (c : Char) : List Char → Option (List Char)
  | x :: rest => if x = c then some rest else none
  | [] => none

/-- The text after a day. -/
def day? (cs : List Char) : Option (List Char) := do
  let (year, rest) ← within? 4 0 9999 cs
  let rest ← after? '-' rest
  let (month, rest) ← within? 2 1 12 rest
  let rest ← after? '-' rest
  let (_, rest) ← within? 2 1 (daysIn year month) rest
  return rest

/-- The text after an hour and a minute. -/
def minute? (cs : List Char) : Option (List Char) := do
  let (_, rest) ← within? 2 0 23 cs
  let rest ← after? ':' rest
  let (_, rest) ← within? 2 0 59 rest
  return rest

/-- The text after a time of day; the last second of a minute may be a leap second. -/
def time? (cs : List Char) : Option (List Char) := do
  let rest ← minute? cs
  let rest ← after? ':' rest
  let (_, rest) ← within? 2 0 60 rest
  match rest with
  | '.' :: part =>
    if (part.takeWhile (isDigit 10)).isEmpty then none else some (part.dropWhile (isDigit 10))
  | _ => some rest

/-- The text after an offset, if there is one. -/
def dropOffset (cs : List Char) : List Char :=
  match cs with
  | 'Z' :: rest => rest
  | 'z' :: rest => rest
  | '+' :: rest => (minute? rest).getD cs
  | '-' :: rest => (minute? rest).getD cs
  | _ => cs

/-- The text after a date or a time. -/
def date? (cs : List Char) : Option (List Char) :=
  match day? cs with
  | none => time? cs
  | some rest =>
    match rest with
    | c :: more =>
      if c = 'T' || c = 't' || c = ' ' then
        match time? more with
        | some rest => some (dropOffset rest)
        | none => some rest
      else some rest
    | [] => some []

end JobScheduler.Toml
