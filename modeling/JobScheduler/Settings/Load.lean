import JobScheduler.Error
import JobScheduler.FileTree
import JobScheduler.Settings
import JobScheduler.Settings.Environment
import JobScheduler.Toml.Document
import JobScheduler.Value.Held

/-!
Loading settings: those of a TOML file, with the environment's laid over them. A file that does not
exist has no settings. Without a path the file is in the home directory, or, where none is known,
in the working directory.

In the layers settings are values. A structure is a table, or a list of its fields in order, which
may end early and of which the rest does not count. A text is a string or a single character.
-/

namespace JobScheduler

namespace Value

/-- The fields of a structure: a table, or a list of them in order, of which only as many as there
are fields count. -/
def fields? (names : List String) : Value → Option (List (String × Value))
  | list items => some (names.zip items)
  | v => v.entries?

def text? : Value → Option String
  | text value => some value
  | letter value => some value.toString
  | _ => none

def flag? : Value → Option Bool
  | flag value => some value
  | _ => none

def format? : Value → Option LogFormat
  | text name => LogFormat.ofName? name
  | _ => none

def reading : Reading Value := ⟨fields?, text?, format?, flag?⟩

end Value

/-- The settings in a table. -/
def Settings.ofTable? (t : Table) : Option Settings := read Value.reading (.table t)

/-- A path as it is written, or one from the root of the tree. -/
inductive FilePath where
  | plain (path : String)
  | fromRoot (path : String)

/-- Where settings are loaded. -/
structure Surroundings where
  tree : FileTree
  /-- The working directory. -/
  cwd : Route
  /-- The home directory, if one is set before the variables are. -/
  home : Option FilePath
  /-- The variables in the order in which they were set. -/
  env : List (String × String)

namespace FilePath

/-- The path with a text after it. -/
def append (path : FilePath) (rest : String) : FilePath :=
  match path with
  | plain path => plain (path ++ rest)
  | fromRoot path => fromRoot (path ++ rest)

/-- The content of the file at a path. A plain path from the very top leads out of the tree. -/
def content? (s : Surroundings) : FilePath → Option ByteArray
  | plain path => if path.startsWith "/" then none else s.tree.search? s.cwd path
  | fromRoot path => s.tree.absolute? path

end FilePath

namespace Settings

/-- The home directory, which a variable may set too. -/
def home? (s : Surroundings) : Option FilePath :=
  (((Environment.lastValues [] s.env).lookup "HOME").map .plain).or s.home

/-- The file of settings where no path is given. -/
def defaultFile (s : Surroundings) : FilePath :=
  ((home? s).getD (.plain ".")).append "/.chaind/chaind.toml"

/-- The table of a file's content, with the values that tables below it hold; without a file it is
empty. -/
def fileTable : Option ByteArray → Except SetupError Table
  | none => .ok []
  | some bytes =>
    match String.fromUTF8? bytes with
    | none => .error (.config "the file is not in UTF-8")
    | some text =>
      match (Toml.parse? text).bind Value.heldEntries? with
      | some table => .ok table
      | none => .error (.config "the file is not valid TOML")

/-- The settings of a file's table with those of variables laid over them. -/
def layered (file : Table) (env : List (String × String)) : Except SetupError Settings :=
  match ofTable? (Value.layerEntries file (Environment.table env)) with
  | some settings => .ok settings
  | none => .error (.config "a setting has a value of the wrong kind")

def load (s : Surroundings) (path : Option FilePath) : Except SetupError Settings :=
  (fileTable ((path.getD (defaultFile s)).content? s)).bind fun file => layered file s.env

end Settings

end JobScheduler
