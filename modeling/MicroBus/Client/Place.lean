/-!
# Where a path leads

A path is followed name by name through a tree of directories. Only a directory can be gone
through, even by an empty name or a dot at the end of the path, and a name that is too long is
refused where it would be looked up, so a fault further in front comes first.
-/

namespace MicroBus

/-- What a name in a directory stands for. -/
inductive Place where
  /-- Something that is neither a socket nor a directory. -/
  | file
  /-- A socket, and whether somebody listens at it. -/
  | socket (listening : Bool)
  /-- A directory with its entries. -/
  | directory (entries : List (String × Place))

/-- Why a path leads nowhere. -/
inductive DeadEnd where
  /-- A name is not in its directory. -/
  | missing
  /-- Something that is no directory would have to be gone through. -/
  | notDirectory
  /-- A name or the whole path exceeds the limits of the system. -/
  | tooLong
  deriving DecidableEq

/-- The system's text for a dead end. -/
def DeadEnd.message : DeadEnd → String
  | missing => "No such file or directory (os error 2)"
  | notDirectory => "Not a directory (os error 20)"
  | tooLong => "File name too long (os error 36)"

/-- The greatest length of a name in a directory, in octets. -/
def Place.maxNameLength : Nat := 255

/-- Follows names from a place whose ancestors are given, nearest first. -/
def Place.follow (here : Place) (above : List Place) : List String → Except DeadEnd Place
  | [] => .ok here
  | name :: names =>
    match here with
    | .directory entries =>
      if name = "" ∨ name = "." then follow here above names
      else if name = ".." then follow (above.headD here) above.tail names
      else if maxNameLength < name.utf8ByteSize then .error .tooLong
      else
        match entries.lookup name with
        | none => .error .missing
        | some place => follow place (here :: above) names
    | _ => .error .notDirectory

/-- A tree of directories, seen from one of them. -/
structure FileSystem where
  /-- The entries of the topmost directory. -/
  root : List (String × Place)
  /-- The names that lead from the top to where relative paths begin. -/
  workingDirectory : List String

namespace FileSystem

/-- The greatest length of a path, in octets. -/
def maxPathLength : Nat := 4095

/-- Where a path leads. The empty path leads nowhere, and a slash in front begins at the top. -/
def find (s : FileSystem) (path : String) : Except DeadEnd Place :=
  if path = "" then .error .missing
  else if maxPathLength < path.utf8ByteSize then .error .tooLong
  else
    match path.splitOn "/" with
    | "" :: names => (Place.directory s.root).follow [] names
    | names => (Place.directory s.root).follow [] (s.workingDirectory ++ names)

end FileSystem

end MicroBus
