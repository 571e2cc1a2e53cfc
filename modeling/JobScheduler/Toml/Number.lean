import JobScheduler.Text.Numeral

/-!
Numbers in a TOML text: integers of a signed word of 64 bits, in decimal or in base 16, 8 or 2, and
floating-point numbers, which may not be so large as to become infinite. Single underscores may
stand between digits.
-/

namespace JobScheduler.Toml

open Text

/-- More digits with underscores before some of them, without these, and the text after them. -/
def moreDigits? (base : Nat) : List Char → Option (List Char × List Char)
  | [] => some ([], [])
  | ['_'] => none
  | '_' :: c :: rest =>
    if isDigit base c then (moreDigits? base rest).map fun r => (c :: r.1, r.2) else none
  | c :: rest =>
    if isDigit base c then (moreDigits? base rest).map fun r => (c :: r.1, r.2)
    else some ([], c :: rest)

/-- One digit or more, without the underscores between them, and the text after them. -/
def digits? (base : Nat) : List Char → Option (List Char × List Char)
  | c :: rest =>
    if isDigit base c then (moreDigits? base rest).map fun r => (c :: r.1, r.2) else none
  | [] => none

/-- The digits before a point or a power; a zero at their head stands alone. -/
def whole? : List Char → Option (List Char × List Char)
  | '0' :: rest => some (['0'], rest)
  | cs => digits? 10 cs

/-- The power of ten after the letter for it, and the text after that. -/
def power? (cs : List Char) : Option (Int × List Char) :=
  (digits? 10 (dropSign cs)).bind fun r =>
    (nat? 10 r.1).map fun n => (if cs.head? = some '-' then -(n : Int) else n, r.2)

/-- The least number that becomes infinite: half a unit above the largest double. -/
def infinite : Nat := 1 <<< 1024 - 1 <<< 970

/-- Whether the number with the given digits, of which `places` stand after the point, times ten to
`power` becomes infinite. -/
def overflows (digits : List Char) (places : Nat) (power : Int) : Bool :=
  let significant := digits.dropWhile (· == '0')
  let shift := power - places
  let size := significant.length + shift
  if significant.isEmpty || size < 300 then false
  else if 320 < size then true
  else
    let n := (nat? 10 significant).getD 0
    decide (infinite * Nat.pow 10 (-shift).toNat ≤ n * Nat.pow 10 shift.toNat)

/-- The text after an integer in another base, read after the letter for the base. -/
def based? (base : Nat) (cs : List Char) : Option (List Char) :=
  (digits? base cs).bind fun r =>
    (nat? base r.1).bind fun n => if n < 1 <<< 63 then some r.2 else none

/-- The text after a decimal number, read after its sign. -/
def decimal? (negative : Bool) (cs : List Char) : Option (List Char) :=
  (whole? cs).bind fun w =>
    let float (digits : List Char) (places : Nat) (power : Int) (rest : List Char) :=
      if !negative && overflows digits places power then none else some rest
    let withPower (digits : List Char) (places : Nat) (cs : List Char) :=
      (power? cs).bind fun p => float digits places p.1 p.2
    match w.2 with
    | '.' :: rest =>
      (digits? 10 rest).bind fun part =>
        let digits := w.1 ++ part.1
        match part.2 with
        | 'e' :: rest => withPower digits part.1.length rest
        | 'E' :: rest => withPower digits part.1.length rest
        | rest => float digits part.1.length 0 rest
    | 'e' :: rest => withPower w.1 0 rest
    | 'E' :: rest => withPower w.1 0 rest
    | rest =>
      (nat? 10 w.1).bind fun n =>
        if n < 1 <<< 63 || (negative && n == 1 <<< 63) then some rest else none

/-- The text after a number. -/
def number? : List Char → Option (List Char)
  | '0' :: 'x' :: rest => based? 16 rest
  | '0' :: 'o' :: rest => based? 8 rest
  | '0' :: 'b' :: rest => based? 2 rest
  | cs =>
    match dropSign cs with
    | 'i' :: 'n' :: 'f' :: rest => some rest
    | 'n' :: 'a' :: 'n' :: rest => some rest
    | body => decimal? (cs.head? = some '-') body

end JobScheduler.Toml
