import JobScheduler.Value

/-!
Tables that hold a value. A table with an entry of one reserved name is no table but the value of
that entry, and its other entries do not count. Another reserved name must not stand in a table.
-/

namespace JobScheduler.Value

/-- The name of the entry whose value a table is. -/
def heldName : String := "___figment_value_value"

/-- The name of an entry that no table may have. -/
def forbiddenName : String := "___figment_value_id"

/-- What a table of entries is. -/
def ofEntries? (entries : Table) : Option Value :=
  if (entries.lookup forbiddenName).isSome then none
  else some ((entries.lookup heldName).getD (table entries))

mutual

/-- The value with all values in it that tables hold, if no table has the forbidden name. -/
def held? : Value → Option Value
  | table entries => (heldEntries? entries).bind ofEntries?
  | list items => (heldItems? items).map list
  | date literal => some (date literal)
  | flag value => some (flag value)
  | number literal => some (number literal)
  | letter value => some (letter value)
  | text value => some (text value)

def heldItems? : List Value → Option (List Value)
  | [] => some []
  | v :: rest => (held? v).bind fun v => (heldItems? rest).map (v :: ·)

/-- The entries with the values that their tables hold. -/
def heldEntries? : List (String × Value) → Option (List (String × Value))
  | [] => some []
  | entry :: rest => (heldPair? entry).bind fun e => (heldEntries? rest).map (e :: ·)

def heldPair? : String × Value → Option (String × Value)
  | (name, v) => (held? v).map (name, ·)

end

end JobScheduler.Value
