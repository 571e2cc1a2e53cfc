import JobScheduler.Pattern.Bracket

/-!
Written patterns: choices of sequences, in which groups hold patterns again. A group may have a name
or switches at its head, and switches in parentheses alone hold for the rest of the group they stand
in. Counted repetitions are no part of these patterns.
-/

namespace JobScheduler.Pattern

open Text

/-- The names of groups so far. -/
abbrev Names := List (List Char)

/-- Whether a text can be the name of a group. -/
def isGroupName : List Char → Bool
  | [] => false
  | c :: rest =>
    (c == '_' || isAlphabetic c)
      && rest.all fun c => c == '_' || c == '.' || c == '[' || c == ']' || isAlphanumeric c

/-- Whether a text can be switches: no letter stands twice in it, and a hyphen is not its end. -/
def isSwitches (s : List Char) : Bool :=
  s.all ("imsUuRx-".toList.contains ·) && decide s.Nodup && s.getLast? != some '-'

/-- What an opening parenthesis begins. -/
inductive Opening where
  | group (s : Switches)
  /-- Nothing: only switches stand between the parentheses. -/
  | switch (s : Switches)

/-- A group with a name that is not taken, after the bracket before the name. -/
def namedGroup? (names : Names) (cs : List Char) : Option (Opening × Names × List Char) :=
  let name := cs.takeWhile (· != '>')
  match cs.dropWhile (· != '>') with
  | _ :: rest =>
    if isGroupName name && !names.contains name then some (.group [], name :: names, rest)
    else none
  | [] => none

/-- What follows a question mark in an opening parenthesis: switches, which may only be none before
a colon. -/
def switches? (names : Names) (cs : List Char) : Option (Opening × Names × List Char) :=
  let s := cs.takeWhile fun c => c != ':' && c != ')'
  if isSwitches s then
    match cs.dropWhile fun c => c != ':' && c != ')' with
    | ':' :: rest => some (.group s, names, rest)
    | _ :: rest => if s.isEmpty then none else some (.switch s, names, rest)
    | [] => none
  else none

/-- What an opening parenthesis begins, by the text after it. -/
def opening? (names : Names) : List Char → Option (Opening × Names × List Char)
  | '?' :: 'P' :: '<' :: rest | '?' :: '<' :: rest => namedGroup? names rest
  | '?' :: rest => switches? names rest
  | rest => some (.group [], names, rest)

/-- Whether a part can be repeated. -/
def isRepeatable : Pattern → Bool
  | switch _ => false
  | _ => true

/-- The text after a question mark that makes a repetition a lazy one. -/
def dropLazy : List Char → List Char
  | '?' :: rest => rest
  | cs => cs

/-- A pattern of the branches and of the parts of one more branch, both from the last to the
first. -/
def close (branches parts : List Pattern) : Pattern :=
  match branches with
  | [] => .sequence parts.reverse
  | _ => .choice (.sequence parts.reverse :: branches).reverse

/-- What is left of a group up to its closing parenthesis or to the end of the text, after the
branches and the parts of one more branch that were read. -/
def read? : Nat → Bool → Names → List Pattern → List Pattern → List Char →
    Option (Pattern × Names × List Char)
  | 0, _, _, _, _, _ => none
  | fuel + 1, spaced, names, branches, parts, cs =>
    match skip spaced cs with
    | [] => some (close branches parts, names, [])
    | ')' :: rest => some (close branches parts, names, ')' :: rest)
    | '|' :: rest => read? fuel spaced names (.sequence parts.reverse :: branches) [] rest
    | '(' :: rest =>
      match opening? names (skip spaced rest) with
      | none => none
      | some (.switch s, names, rest) =>
        read? fuel (s.apply 'x' spaced) names branches (.switch s :: parts) rest
      | some (.group s, names, rest) =>
        match read? fuel (s.apply 'x' spaced) names [] [] rest with
        | some (p, names, ')' :: rest) =>
          read? fuel spaced names branches (.group s p :: parts) rest
        | _ => none
    | '?' :: rest | '*' :: rest | '+' :: rest =>
      match parts with
      | [] => none
      | p :: parts =>
        if isRepeatable p then
          read? fuel spaced names branches (.repeated p :: parts) (dropLazy rest)
        else none
    | '{' :: _ => none
    | '[' :: rest =>
      match set? spaced rest with
      | none => none
      | some (negated, inside, rest) =>
        read? fuel spaced names branches (.bracket negated inside :: parts) rest
    | '.' :: rest => read? fuel spaced names branches (.any :: parts) rest
    | '^' :: rest | '$' :: rest => read? fuel spaced names branches (.edge false :: parts) rest
    | cs =>
      match atom? spaced cs with
      | some (atom, rest) => read? fuel spaced names branches (atom.toPattern :: parts) rest
      | none => none

/-- The pattern that a text is. -/
def parse? (cs : List Char) : Option Pattern :=
  match read? (cs.length + 1) false [] [] [] cs with
  | some (p, _, []) => some p
  | _ => none

/-- Whether a text is a usable pattern. -/
def isUsableText (cs : List Char) : Bool :=
  match parse? cs with
  | some p => p.isUsable
  | none => false

end JobScheduler.Pattern
