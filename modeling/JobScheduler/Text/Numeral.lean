/-!
Numbers as they are written: digits in a base, machine integers in decimal, and decimal fractions
with powers of ten.
-/

namespace JobScheduler.Text

/-- The value of a digit in a base up to 16. -/
def digit? (base : Nat) (c : Char) : Option Nat :=
  let n :=
    if '0' ≤ c && c ≤ '9' then some (c.toNat - '0'.toNat)
    else if 'a' ≤ c && c ≤ 'f' then some (c.toNat - 'a'.toNat + 10)
    else if 'A' ≤ c && c ≤ 'F' then some (c.toNat - 'A'.toNat + 10)
    else none
  n.filter (· < base)

def isDigit (base : Nat) (c : Char) : Bool := (digit? base c).isSome

/-- The number written by digits, read after the digits that made `n`. -/
def natFrom (base : Nat) (n : Nat) : List Char → Option Nat
  | [] => some n
  | c :: rest =>
    match digit? base c with
    | some d => natFrom base (n * base + d) rest
    | none => none

/-- The number written by one digit or more. -/
def nat? (base : Nat) (cs : List Char) : Option Nat :=
  if cs.isEmpty then none else natFrom base 0 cs

/-- A decimal number below 2^64, which may have a plus sign. -/
def unsigned64? : List Char → Option Nat
  | '+' :: rest => (nat? 10 rest).filter (· < 1 <<< 64)
  | cs => (nat? 10 cs).filter (· < 1 <<< 64)

/-- A decimal number of a signed word of 64 bits, which may have a sign. -/
def signed64? : List Char → Option Int
  | '-' :: rest => ((nat? 10 rest).filter (· ≤ 1 <<< 63)).map fun n => -(n : Int)
  | '+' :: rest => ((nat? 10 rest).filter (· < 1 <<< 63)).map fun n => (n : Int)
  | cs => ((nat? 10 cs).filter (· < 1 <<< 63)).map fun n => (n : Int)

/-- The text without a sign at its head. -/
def dropSign : List Char → List Char
  | '+' :: rest => rest
  | '-' :: rest => rest
  | cs => cs

/-- Whether a text is one digit or more. -/
def isDigits (cs : List Char) : Bool := !cs.isEmpty && cs.all (isDigit 10)

/-- Whether a text is nothing, or a power of ten after a letter. -/
def isPower : List Char → Bool
  | [] => true
  | c :: digits => (c == 'e' || c == 'E') && isDigits (dropSign digits)

/-- Whether a text is a decimal number: digits with or without a point among them or around it, with
an optional sign before and an optional power of ten after. -/
def isDecimal (cs : List Char) : Bool :=
  let cs := dropSign cs
  let whole := cs.takeWhile (isDigit 10)
  match cs.dropWhile (isDigit 10) with
  | '.' :: rest =>
    !(whole.isEmpty && (rest.takeWhile (isDigit 10)).isEmpty)
      && isPower (rest.dropWhile (isDigit 10))
  | rest => !whole.isEmpty && isPower rest

/-- Whether a text is a number as a machine holds it in binary: a decimal one, or the word for an
infinite one or for none at all in any case. -/
def isBinary (cs : List Char) : Bool :=
  isDecimal cs
    || ["inf", "infinity", "nan"].contains (String.ofList ((dropSign cs).map Char.toLower))

end JobScheduler.Text
