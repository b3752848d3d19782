import Dialect.Text.Blank

/-!
# Files

The files that a command can read, by their paths from the working directory.  A
directory is whatever a file stands in.
-/

namespace Dialect

structure Files where
  contents : List (Text × Text)

/-- Why a path cannot be read. -/
inductive ReadFault where
  | missing
  | notADirectory
  | isADirectory
  deriving DecidableEq, Repr

namespace ReadFault

def message : ReadFault → Text
  | missing => "No such file or directory (os error 2)"
  | notADirectory => "Not a directory (os error 20)"
  | isADirectory => "Is a directory (os error 21)"

end ReadFault

namespace Files

def parts (path : Text) : List Text := path.splitOn '/'

def contentAt? (files : Files) (place : List Text) : Option Text :=
  (files.contents.find? fun file => parts file.1 = place).map Prod.snd

def isDirectory (files : Files) (place : List Text) : Bool :=
  files.contents.any fun file => place.isPrefixOf (parts file.1)

/-- Go on from a directory along the parts of a path. -/
def walk (files : Files) (directory : List Text) : List Text → Except ReadFault Text
  | [] => .error .isADirectory
  | part :: rest =>
    if part = "" ∨ part = "." then files.walk directory rest
    else if part = ".." then
      if directory.isEmpty then .error .missing else files.walk directory.dropLast rest
    else
      let place := directory ++ [part]
      match files.contentAt? place with
      | some content => if rest.isEmpty then .ok content else .error .notADirectory
      | none => if files.isDirectory place then files.walk place rest else .error .missing

/-- The content of the file at a path.  Outside the working directory only the
paths that are listed as they stand are found. -/
def read (files : Files) (path : Text) : Except ReadFault Text :=
  match files.contents.find? fun file => file.1 = path with
  | some (_, content) => .ok content
  | none =>
    if path.isEmpty ∨ path.head? = some '/' then .error .missing
    else files.walk [] (parts path)

end Files
end Dialect
