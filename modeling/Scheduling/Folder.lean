import Scheduling.Text.Blank

/-!
# Folders

A folder with files, and what paths lead to in it. A path with a slash at its start leads out of the
folder: what is written there is not seen, and nothing can be read there.
-/

namespace Scheduling

/-- A path, cut at slashes. -/
structure FilePath where
  text : String
  /-- Whether it leads out of the folder. -/
  isAbsolute : Bool
  /-- The names on it, without those that stay in place. -/
  names : List String
  /-- Whether it can only be a folder. -/
  isClosed : Bool
deriving DecidableEq, Repr

namespace FilePath

/-- The path of a text. -/
def ofText (text : String) : FilePath :=
  let parts := (splitAtChar '/' text.toList).map String.ofList
  let closed := parts.getLast?.any fun last => last == "" || last == "." || last == ".."
  ⟨text, text.toList.head? == some '/', parts.filter fun p => p ≠ "" ∧ p ≠ ".",
    text ≠ "" && closed⟩

/-- The names on the path of the folder around a file. -/
def parents (p : FilePath) : List String := p.names.dropLast

end FilePath

/-- Why a file cannot be read or written. -/
inductive FileFlaw where
  | notFound
  | isFolder
  | notFolder
  | exists
  | nameTooLong
  | badName
deriving DecidableEq, Repr

/-- The wording of a flaw. -/
def FileFlaw.message : FileFlaw → String
  | .notFound => "No such file or directory (os error 2)"
  | .isFolder => "Is a directory (os error 21)"
  | .notFolder => "Not a directory (os error 20)"
  | .exists => "File exists (os error 17)"
  | .nameTooLong => "File name too long (os error 36)"
  | .badName => "file name contained an unexpected NUL byte"

/-- How many bytes a path has at most. -/
def FilePath.sizeMax : Nat := 4095

/-- Whether a path can lead anywhere. -/
def FilePath.check (p : FilePath) : Except FileFlaw Unit :=
  if p.text.toList.contains '\x00' then .error .badName
  else if p.text.isEmpty then .error .notFound
  else if sizeMax < p.text.utf8ByteSize then .error .nameTooLong
  else .ok ()

/-- A folder: its files, and the folders inside it, by the names that lead to them. -/
structure Folder where
  files : List (List String × String)
  folders : List (List String)
deriving Repr, Inhabited

namespace Folder

/-- The folder without files. -/
def empty : Folder := ⟨[], []⟩

/-- Whether a place is a folder. -/
def isFolder (f : Folder) (place : List String) : Bool := place.isEmpty || f.folders.contains place

/-- The content of the file at a place. -/
def file? (f : Folder) (place : List String) : Option String := f.files.lookup place

/-- Puts a content at a place. -/
def put (f : Folder) (place : List String) (content : String) : Folder :=
  let others := f.files.filter (·.1 != place)
  { f with files := others ++ [(place, content)] }

/-- Whether a name can be that of a file. -/
def checkName (name : String) : Except FileFlaw Unit :=
  if name.toList.contains '\x00' then .error .badName
  else if 255 < name.utf8ByteSize then .error .nameTooLong
  else .ok ()

/-- Follows names from a place to a folder, and makes those that are missing if `make` says so. -/
def follow (f : Folder) (make : Bool) (place : List String) :
    List String → Except FileFlaw (Folder × List String)
  | [] => .ok (f, place)
  | ".." :: rest => follow f make place.dropLast rest
  | name :: rest => do
    checkName name
    let next := place ++ [name]
    if f.isFolder next then follow f make next rest
    else if (f.file? next).isSome then .error (if make then .exists else .notFolder)
    else if make then follow { f with folders := f.folders ++ [next] } make next rest
    else .error .notFound

/-- Writes a file into a folder that is there. -/
def write (f : Folder) (p : FilePath) (content : String) : Except FileFlaw Folder := do
  p.check
  if p.isAbsolute then pure f
  else
    let (f, place) ← f.follow false [] p.parents
    match p.names.getLast? with
    | none => .error .isFolder
    | some name =>
      checkName name
      let place := place ++ [name]
      if f.isFolder place then .error .isFolder
      else if p.isClosed then
        .error (if (f.file? place).isSome then .notFolder else .isFolder)
      else .ok (f.put place content)

/-- The content of the file that a path leads to. -/
def read (f : Folder) (p : FilePath) : Except FileFlaw String := do
  p.check
  match p.names.getLast? with
  | none | some ".." => .error .isFolder
  | some name =>
    if p.isAbsolute then .error .notFound
    else
      let (f, place) ← f.follow false [] p.parents
      checkName name
      let place := place ++ [name]
      match f.file? place with
      | some content => if p.isClosed then .error .notFolder else .ok content
      | none => .error (if f.isFolder place then .isFolder else .notFound)

/-- Makes the folders on the way to a file. -/
def makeParents (f : Folder) (p : FilePath) : Except FileFlaw Folder :=
  if p.isAbsolute then .ok f
  else do
    let (f, _) ← f.follow true [] p.parents
    pure f

/-- The files by the texts of their paths. -/
def entries (f : Folder) : List (String × String) :=
  f.files.map fun (place, content) => ("/".intercalate place, content)

end Folder

end Scheduling
