import JobScheduler.Pattern.Atom

/-!
Sets of characters in brackets. Ranges have a hyphen between their ends, and the operators are two
ampersands, two hyphens and two tildes, all of one strength and from left to right. Brackets may
stand in brackets, and there also hold the name of a set between colons.
-/

namespace JobScheduler.Pattern

open Text

def setNames : List String :=
  ["alnum", "alpha", "ascii", "blank", "cntrl", "digit", "graph", "lower", "print", "punct",
    "space", "upper", "word", "xdigit"]

/-- The named set after an opening bracket: whether it is negated, and the text after it. -/
def named? : List Char → Option (Bool × List Char)
  | ':' :: rest =>
    let negated := rest.head? == some '^'
    let rest := if negated then rest.tail else rest
    match rest.dropWhile (· != ':') with
    | ':' :: ']' :: after =>
      if setNames.contains (String.ofList (rest.takeWhile (· != ':'))) then some (negated, after)
      else none
    | _ => none
  | _ => none

/-- The character that is seen next after a hyphen. In a spaced pattern that is the next one that is
no blank, with one hash sign passed over, but not the comment after it. -/
def glimpse? (spaced : Bool) (cs : List Char) : Option Char :=
  if spaced then
    match cs.dropWhile isBlank with
    | '#' :: rest => (rest.dropWhile isBlank).head?.or cs.head?
    | rest => rest.head?.or cs.head?
  else cs.head?

/-- Hyphens at the head of a text, and the text after them. -/
def hyphens (spaced : Bool) : Nat → List Char → List CharSet × List Char
  | 0, cs => ([], cs)
  | fuel + 1, cs =>
    match skip spaced cs with
    | '-' :: rest =>
      let (sets, rest) := hyphens spaced fuel rest
      (.literal ⟨'-', false⟩ :: sets, rest)
    | cs => ([], cs)

/-- What is literal at the head of a set: hyphens, or else a closing bracket. -/
def literalHead (spaced : Bool) (cs : List Char) : List CharSet × List Char :=
  match hyphens spaced cs.length cs with
  | ([], ']' :: rest) => ([.literal ⟨']', false⟩], rest)
  | head => head

/-- A range, whose ends have to be literals in order. -/
def range? (low high : Atom) : Option CharSet :=
  match low.literal?, high.literal? with
  | some low, some high =>
    if low.char.toNat ≤ high.char.toNat then some (.range low high) else none
  | _, _ => none

/-- A range or an atom, and the text after it. A hyphen before another one or before the closing
bracket makes no range. -/
def member? (spaced : Bool) (cs : List Char) : Option (CharSet × List Char) :=
  (atom? spaced cs).bind fun low =>
    match skip spaced low.2 with
    | [] => none
    | '-' :: rest =>
      if glimpse? spaced rest = some ']' || glimpse? spaced rest = some '-' then
        low.1.toSet?.map (·, '-' :: rest)
      else
        (atom? spaced (skip spaced rest)).bind fun high =>
          (range? low.1 high.1).map (·, high.2)
    | rest => low.1.toSet?.map (·, rest)

/-- The sets of a union, the last one first, combined with what stands to the left of it. -/
def combine (left : Option CharSet) (sets : List CharSet) : CharSet :=
  match left with
  | some left => .combined left (.union sets.reverse)
  | none => .union sets.reverse

mutual

/-- A set after its opening bracket, and the text after it. -/
def bracket? (spaced : Bool) : Nat → List Char → Option (Bool × CharSet × List Char)
  | 0, _ => none
  | fuel + 1, cs =>
    let cs := skip spaced cs
    let negated := cs.head? == some '^'
    let (sets, rest) := literalHead spaced (if negated then cs.tail else cs)
    (members? spaced fuel none sets.reverse rest).map (negated, ·)

/-- What is left of a set up to its closing bracket. -/
def members? (spaced : Bool) : Nat → Option CharSet → List CharSet → List Char →
    Option (CharSet × List Char)
  | 0, _, _, _ => none
  | fuel + 1, left, sets, cs =>
    match skip spaced cs with
    | ']' :: rest => some (combine left sets, rest)
    | '&' :: '&' :: rest | '-' :: '-' :: rest | '~' :: '~' :: rest =>
      members? spaced fuel (some (combine left sets)) [] rest
    | '[' :: rest =>
      match named? rest with
      | some (negated, rest) => members? spaced fuel left (.named negated :: sets) rest
      | none =>
        match bracket? spaced fuel rest with
        | some (negated, inside, rest) =>
          members? spaced fuel left (.bracket negated inside :: sets) rest
        | none => none
    | cs =>
      match member? spaced cs with
      | some (set, rest) => members? spaced fuel left (set :: sets) rest
      | none => none

end

/-- The set after an opening bracket: whether it is negated, what is in it, and the text after it.
Between a character of the text and the next the reading goes at most two levels deeper. -/
def set? (spaced : Bool) (cs : List Char) : Option (Bool × CharSet × List Char) :=
  bracket? spaced (2 * cs.length + 2) cs

end JobScheduler.Pattern
