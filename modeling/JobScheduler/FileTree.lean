/-!
A tree of directories and files below one root, and how a path finds a file in it. An absolute path
is looked up from the root. A relative one is looked up in a directory and then in each directory
above it up to the root. Only regular files are found.
-/

namespace JobScheduler

/-- The names on the way down from the root. -/
abbrev Route := List String

structure FileTree where
  dirs : List Route
  files : List (Route × ByteArray)

namespace FileTree

/-- The names in a path, which are separated by slashes. -/
def components (path : String) : List String := path.splitOn "/"

/-- The directory that a name leads to from a directory. Two points lead to the one above, which for
the root is itself. -/
def step (dir : Route) (c : String) : Route :=
  if c = "" ∨ c = "." then dir
  else if c = ".." then dir.dropLast
  else dir ++ [c]

/-- Where a path leads from the root. -/
def route (path : String) : Route := (components path).foldl step []

/-- The directories passed on the way along names, from the first one on. -/
def stops (dir : Route) : List String → List Route
  | [] => [dir]
  | c :: rest => dir :: stops (step dir c) rest

/-- All routes that lead to a part of the way, from the root on. -/
def waypoints : Route → List Route
  | [] => [[]]
  | c :: rest => [] :: (waypoints rest).map (c :: ·)

/-- The tree with the given directories and files and all directories passed on the way to them. -/
def make (dirs : List String) (files : List (String × ByteArray)) : FileTree :=
  { dirs := (dirs.map components ++ files.map fun f => (components f.1).dropLast).flatMap (stops [])
    files := files.map fun f => (route f.1, f.2) }

/-- The file reached from a directory by the names of a path. Two points lead to the directory
above, but never out of the tree, and nothing may come after a file. -/
def walk (t : FileTree) : Route → List String → Option ByteArray
  | _, [] => none
  | dir, c :: rest =>
    if c = "" || c = "." then t.walk dir rest
    else if c = ".." then
      if dir.isEmpty then none else t.walk dir.dropLast rest
    else
      let next := dir ++ [c]
      if t.dirs.contains next then t.walk next rest
      else if rest.isEmpty then t.files.lookup next
      else none

/-- The longest path in bytes below the root. A whole path may have 4095, and the one that leads to
the root takes the rest. -/
def longestPath : Nat := 4070

/-- The bytes of a path when it is written from the root on. -/
def pathBytes (dir : Route) (path : String) : Nat :=
  dir.foldr (fun c n => c.utf8ByteSize + 1 + n) (path.utf8ByteSize + 1)

/-- The file that a path names from a directory. A path that is too long names none. -/
def file? (t : FileTree) (dir : Route) (path : String) : Option ByteArray :=
  if pathBytes dir path ≤ longestPath then t.walk dir (components path) else none

/-- The file that a path names from the root. -/
def absolute? (t : FileTree) (path : String) : Option ByteArray := t.file? [] path

/-- The file that a path names from a directory, or from the nearest one above it. -/
def search? (t : FileTree) (dir : Route) (path : String) : Option ByteArray :=
  (waypoints dir).reverse.findSome? fun d => t.file? d path

end FileTree

end JobScheduler
