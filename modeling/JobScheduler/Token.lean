/-!
Cancellation tokens. A token is named by its lineage: its own number and the numbers of the tokens
above it, so that a token is below another if its lineage ends in the other's. Cancelling a token
cancels everything below it, also what is made later.
-/

namespace JobScheduler

/-- A token, as its own number followed by those of its ancestors. -/
abbrev Token := List Nat

namespace Token

/-- Whether `t` is `u` or a descendant of `u`. -/
def below (t u : Token) : Bool := u.isSuffixOf t

end Token

/-- The tokens of a scheduler's callers, by the names they are bound to. -/
structure Tokens where
  names : List (String × Token)
  /-- How many tokens were made. -/
  made : Nat
  /-- The tokens that were cancelled in their own right. -/
  cancelled : List Token
deriving Repr

namespace Tokens

/-- The token that exists from the start. -/
def root : Token := [0]

def rootName : String := "root"

def initial : Tokens := ⟨[(rootName, root)], 1, []⟩

/-- The token bound to a name; a name that was never bound stands for the root token. -/
def named (ts : Tokens) (name : String) : Token := (ts.names.lookup name).getD root

/-- Binds a name to a new token, a child of the token called `above` if one is given. What held the
token that had the name before keeps that one. -/
def bind (ts : Tokens) (name : String) (above : Option String) : Tokens :=
  let lineage := match above with
    | some parent => ts.named parent
    | none => []
  { ts with names := (name, ts.made :: lineage) :: ts.names, made := ts.made + 1 }

def cancel (ts : Tokens) (t : Token) : Tokens := { ts with cancelled := t :: ts.cancelled }

/-- A token is cancelled if it or one of its ancestors was. -/
def isCancelled (ts : Tokens) (t : Token) : Bool := ts.cancelled.any t.below

end Tokens

end JobScheduler
