/-!
# Files

What a run sees of the file system: some files and the directories that hold them. A path is
followed one part at a time, and every part that more text follows must lead to a directory.
-/

namespace SchemaDdl

inductive FileError where
  | notFound
  | notADirectory
  | isADirectory
  | nameTooLong
  deriving DecidableEq, Repr

def FileError.message : FileError → String
  | .notFound => "No such file or directory (os error 2)"
  | .notADirectory => "Not a directory (os error 20)"
  | .isADirectory => "Is a directory (os error 21)"
  | .nameTooLong => "File name too long (os error 36)"

/-- The names on the way to a place, from the root or from the working directory. Names that lead
upwards stand in front of all others. -/
structure Location where
  absolute : Bool
  names : List String := []
  deriving DecidableEq, Repr

namespace Location

/-- The root is its own parent. -/
def parent (l : Location) : Location :=
  match l.names.getLast? with
  | none => if l.absolute then l else { l with names := [".."] }
  | some name => { l with names := if name == ".." then l.names ++ [name] else l.names.dropLast }

def step (l : Location) (part : String) : Location :=
  if part == "" || part == "." then l
  else if part == ".." then l.parent
  else { l with names := l.names ++ [part] }

/-- The parts of a path, between its slashes. -/
def parts (path : String) : List String :=
  (path.toList.splitOn '/').map String.ofList

/-- Where the parts of a path start from. -/
def start (path : String) : Location where
  absolute := path.startsWith "/"

def ofPath (path : String) : Location :=
  (parts path).foldl step (start path)

/-- Whether the place is the working directory or below it. -/
def isInside (l : Location) : Bool :=
  !l.absolute && l.names.head? != some ".."

end Location

/-- Files by path, and their texts. -/
abbrev Files := List (String × String)

namespace Files

/-- A name has at most 255 bytes. -/
def nameLimit : Nat := 255

/-- A path has at most 4095 bytes. -/
def pathLimit : Nat := 4095

/-- A file outside every other directory that reads as empty and keeps nothing. -/
def nullDevice : String × String := ("/dev/null", "")

def text? (files : Files) (l : Location) : Option String :=
  (files.find? fun f => Location.ofPath f.1 == l).map Prod.snd

/-- The root, the working directory, those above it, and those that hold a file. -/
def isDirectory (files : Files) (l : Location) : Bool :=
  l.names.all (· == "..") ||
    files.any fun f =>
      let m := Location.ofPath f.1
      m.absolute == l.absolute && l.names.isPrefixOf m.names.dropLast

/-- Takes the parts of a path one by one, each from a directory. -/
def follow (files : Files) (l : Location) : List String → Except FileError Location
  | [] => .ok l
  | part :: parts =>
    if (files.text? l).isSome then .error .notADirectory
    else if !files.isDirectory l then .error .notFound
    else if nameLimit < part.utf8ByteSize then .error .nameTooLong
    else files.follow (l.step part) parts

def read (files : Files) (path : String) : Except FileError String := do
  if pathLimit < path.utf8ByteSize then
    throw .nameTooLong
  let l ← files.follow (.start path) (Location.parts path)
  match files.text? l with
  | some text => return text
  | none => throw (if files.isDirectory l then .isADirectory else .notFound)

/-- The place of a file to write. Its directory must be there, and a path that ends like that of a
directory is taken for one. -/
def target (files : Files) (path : String) : Except FileError Location := do
  if pathLimit < path.utf8ByteSize then
    throw .nameTooLong
  let backwards := (Location.parts path).reverse
  match backwards.dropWhile (· == "") with
  | [] => throw .isADirectory
  | last :: before =>
    let directory ← files.follow (.start path) (before.reverse ++ [""])
    if backwards.head? == some "" || last == "." || last == ".." then
      throw .isADirectory
    let l ← files.follow directory [last]
    if files.isDirectory l then throw .isADirectory else return l

/-- The path of a file that is written inside the working directory and was not there before. -/
def newPath? (files : Files) (path : String) : Option String :=
  let l := Location.ofPath path
  if l.isInside && (files.text? l).isNone then some ("/".intercalate l.names) else none

end Files

end SchemaDdl
