/-
A directory of files as a value, with the failures that a real one shows.
-/
import ClassLang.CommandLine.Run

namespace ClassLang

/-- Files by the names on their paths, outermost first.  A folder is there if a file lies in it. -/
structure Files where
  entries : List (List String × String)
deriving Repr, DecidableEq

namespace Files

inductive Failure where
  | notFound
  | notFolder
  | isFolder
  | nameTooLong
deriving Repr, DecidableEq

def Failure.text : Failure → String
  | .notFound => "No such file or directory (os error 2)"
  | .notFolder => "Not a directory (os error 20)"
  | .isFolder => "Is a directory (os error 21)"
  | .nameTooLong => "File name too long (os error 36)"

def text? (files : Files) (path : List String) : Option String := files.entries.lookup path

def hasFolder (files : Files) (path : List String) : Bool :=
  path.isEmpty || files.entries.any fun entry => path.length < entry.1.length && path.isPrefixOf entry.1

/-- The longest name of a file, in bytes. -/
def nameLimit : Nat := 255

/-- The longest path, in bytes. -/
def pathLimit : Nat := 4095

/-- Where one more name leads from a folder. -/
def stepInto (here : List String) (name : String) : Except Failure (List String) :=
  if name = "" || name = "." then .ok here
  else if name = ".." then
    if here.isEmpty then .error .notFound else .ok here.dropLast
  else if name.utf8ByteSize > nameLimit then .error .nameTooLong
  else .ok (here ++ [name])

/-- A folder on the way to a file. -/
def enter (files : Files) (here : List String) (name : String) : Except Failure (List String) := do
  let next ← stepInto here name
  if (files.text? next).isSome then throw .notFolder
  if !files.hasFolder next then throw .notFound
  return next

/-- What little is known of what lies outside. -/
inductive Outside where
  | folder
  /-- Reads as an empty file, and takes everything. -/
  | nullDevice
  /-- A file in a folder that takes new files.  It is there once it has been written. -/
  | newFile (place : List String)
deriving Repr, DecidableEq

def isPlainName (name : String) : Bool :=
  name ≠ ".." && name.utf8ByteSize ≤ nameLimit

/-- Outside there are the folder above and one for temporary files. -/
def outside? (path : String) : Option Outside :=
  let names := (path.splitOn "/").filter fun name => name ≠ "" && name ≠ "."
  let newFile folder name :=
    if isPlainName name && !path.endsWith "/" then some (.newFile (folder ++ [name])) else none
  match path.startsWith "/", names with
  | true, [] | true, ["dev"] | true, ["tmp"] | false, [".."] => some .folder
  | true, ["dev", "null"] => some .nullDevice
  | true, ["tmp", name] => newFile ["/", "tmp"] name
  | false, ["..", name] => newFile [".."] name
  | _, _ => none

/-- Places inside begin with neither of the names that those outside begin with. -/
def isOutside (place : List String) : Bool := place.head? = some "/" || place.head? = some ".."

/-- The place that a path names.  All names before the last must be those of folders. -/
def locate (files : Files) (path : String) : Except Failure (List String) := do
  if path.utf8ByteSize > pathLimit then throw .nameTooLong
  if path.startsWith "/" then throw .notFound
  let names := path.splitOn "/"
  let folder ← names.dropLast.foldlM files.enter []
  let last := names.getLastD ""
  if last = ".." && folder.isEmpty then throw .isFolder
  stepInto folder last

def textAt (files : Files) (place : List String) : Except Failure String :=
  match files.text? place with
  | some text => .ok text
  | none => .error .notFound

def read (files : Files) (path : String) : Except Failure String :=
  match outside? path with
  | some .folder => .error .isFolder
  | some .nullDevice => .ok ""
  | some (.newFile place) => files.textAt place
  | none => do
    let place ← files.locate path
    if files.hasFolder place then throw .isFolder
    files.textAt place

/-- The place to write to.  A path that ends in a slash can only be that of a folder. -/
def locateNew (files : Files) (path : String) : Except Failure (List String) := do
  let trimmed := path.dropEndWhile (· = '/') |>.copy
  let place ← files.locate trimmed
  if files.hasFolder place || path ≠ trimmed then throw .isFolder
  return place

def put (files : Files) (place : List String) (text : String) : Files :=
  if (files.text? place).isSome then
    ⟨files.entries.map fun entry => if entry.1 = place then (place, text) else entry⟩
  else ⟨files.entries ++ [(place, text)]⟩

def write (files : Files) (path : String) (text : String) : Except Failure Files :=
  match outside? path with
  | some .folder => .error .isFolder
  | some .nullDevice => .ok files
  | some (.newFile place) => .ok (files.put place text)
  | none => do return files.put (← files.locateNew path) text

/-- Files from their paths. -/
def ofList (l : List (String × String)) : Files :=
  ⟨l.map fun entry => ((entry.1.splitOn "/").filter (fun name => name ≠ "" && name ≠ "."), entry.2)⟩

/-- The files inside that are not in `before`, or not with the same text. -/
def changedSince (files before : Files) : List (String × String) :=
  (files.entries.filter fun entry =>
    !isOutside entry.1 && before.text? entry.1 ≠ some entry.2).map fun entry =>
      ("/".intercalate entry.1, entry.2)

instance : CommandLine.Storage (StateM Files) where
  read path := do
    let files ← get
    return (files.read path).mapError (·.text)
  write path text := do
    let files ← get
    match files.write path text with
    | .ok files => do set files; return .ok ()
    | .error failure => return .error failure.text

end Files

end ClassLang
