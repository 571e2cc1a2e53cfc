/-!
Patterns of texts: literals, sets of characters, repetitions, groups and choices.

A pattern speaks of characters or, with the switch `u` off, of bytes. It is usable if a machine can
be made for it that knows no tables of characters and sees whole characters only. Speaking of
characters, it may then not ask for what a table says: the other case of a letter, the digits, the
blanks, or where a word ends. Speaking of bytes, it may not fit a byte outside of ASCII.
-/

namespace JobScheduler

namespace Pattern

/-- How a part of a pattern is read. -/
structure Mode where
  /-- Whether it speaks of characters, not of bytes. -/
  unicode : Bool := true
  /-- Whether the case of letters does not count. -/
  caseless : Bool := false
deriving DecidableEq, Repr

/-- Letters that turn something on, and after a hyphen off. -/
abbrev Switches := List Char

namespace Switches

/-- What switches make of a letter that was on or off before. -/
def apply (s : Switches) (letter : Char) (before : Bool) : Bool :=
  if (s.takeWhile (· != '-')).contains letter then true
  else if s.contains letter then false
  else before

end Switches

def Mode.switch (m : Mode) (s : Switches) : Mode :=
  { unicode := s.apply 'u' m.unicode
    caseless := s.apply 'i' m.caseless }

/-- A character that stands for itself, and whether it is written as a byte. -/
structure Literal where
  char : Char
  byte : Bool
deriving DecidableEq, Repr

def Literal.isAscii (l : Literal) : Bool := l.char.toNat < 0x80

/-- A set of characters in brackets. -/
inductive CharSet where
  | literal (l : Literal)
  | range (low high : Literal)
  /-- A letter after a backslash that stands for a set or, as a capital, for its complement. -/
  | shorthand (negated : Bool)
  /-- A set known by its name in ASCII. -/
  | named (negated : Bool)
  | bracket (negated : Bool) (inside : CharSet)
  | union (sets : List CharSet)
  /-- Two sets with an operator between them. -/
  | combined (left right : CharSet)

end Pattern

inductive Pattern where
  | literal (l : Pattern.Literal)
  /-- The point, which stands for any character. -/
  | any
  /-- A place: an edge of a word, or an end of a line or of the text. -/
  | edge (word : Bool)
  | shorthand (negated : Bool)
  | bracket (negated : Bool) (inside : Pattern.CharSet)
  | repeated (p : Pattern)
  | group (s : Pattern.Switches) (p : Pattern)
  /-- Switches for the rest of the group. -/
  | switch (s : Pattern.Switches)
  | sequence (parts : List Pattern)
  | choice (branches : List Pattern)

namespace Pattern

/-- Whether a literal is usable outside of brackets. -/
def Literal.usable (m : Mode) (l : Literal) : Bool :=
  if m.unicode then !m.caseless else l.isAscii || !l.byte

/-- Whether a literal is usable in brackets. -/
def Literal.usableInSet (m : Mode) (l : Literal) : Bool :=
  if m.unicode then !m.caseless else l.isAscii

def shorthandUsable (m : Mode) (negated : Bool) : Bool := !m.unicode && !negated

mutual

def CharSet.usable (m : Mode) : CharSet → Bool
  | .literal l => l.usableInSet m
  | .range low high => low.usableInSet m && high.usableInSet m
  | .shorthand negated => shorthandUsable m negated
  | .named negated => if m.unicode then !m.caseless else !negated
  | .bracket negated inside => (m.unicode || !negated) && inside.usable m
  | .union sets => CharSet.allUsable m sets
  | .combined left right => left.usable m && right.usable m

def CharSet.allUsable (m : Mode) : List CharSet → Bool
  | [] => true
  | set :: rest => set.usable m && CharSet.allUsable m rest

end

mutual

/-- The mode after a pattern that begins in a mode, if it is usable. -/
def modeAfter? (m : Mode) : Pattern → Option Mode
  | literal l => if l.usable m then some m else none
  | any => if m.unicode then some m else none
  | edge word => if word && m.unicode then none else some m
  | shorthand negated => if shorthandUsable m negated then some m else none
  | bracket negated inside =>
    if (CharSet.bracket negated inside).usable m then some m else none
  | repeated p => modeAfter? m p
  | group s p => (modeAfter? (m.switch s) p).map fun _ => m
  | switch s => some (m.switch s)
  | sequence parts => modeAfterAll? m parts
  | choice branches => modeAfterAll? m branches

def modeAfterAll? (m : Mode) : List Pattern → Option Mode
  | [] => some m
  | p :: rest => (modeAfter? m p).bind fun m => modeAfterAll? m rest

end

/-- A level more if there are several of what has the given depths. -/
def depthOver (depths : List Nat) : Nat :=
  let deepest := depths.max?.getD 0
  if 1 < depths.length then deepest + 1 else deepest

mutual

def CharSet.depth : CharSet → Nat
  | .bracket _ inside => inside.depth + 1
  | .union sets => depthOver (CharSet.depths sets)
  | .combined left right => max left.depth right.depth + 1
  | .literal _ | .range _ _ | .shorthand _ | .named _ => 0

def CharSet.depths : List CharSet → List Nat
  | [] => []
  | set :: rest => set.depth :: CharSet.depths rest

end

mutual

/-- How many parts enclose each other. -/
def depth : Pattern → Nat
  | bracket _ inside => inside.depth + 1
  | repeated p | group _ p => p.depth + 1
  | sequence parts => depthOver (depths parts)
  | choice branches => depthOver (depths branches)
  | literal _ | any | edge _ | shorthand _ | switch _ => 0

def depths : List Pattern → List Nat
  | [] => []
  | p :: rest => p.depth :: depths rest

end

/-- The greatest depth that a usable pattern has. -/
def depthLimit : Nat := 250

def isUsable (p : Pattern) : Bool := decide (p.depth ≤ depthLimit) && (p.modeAfter? {}).isSome

end Pattern

end JobScheduler
