/-!
Files as a run sees them: texts to read and directories to search. A tree of files in memory is one
way to provide them.
-/
namespace SqlAudit.CommandLine

/-- Why a file could not be read or written. -/
inductive FileError where
  | missing
  | notDirectory
  | isDirectory
  | nameTooLong
  | other (reason : String)
  deriving DecidableEq, Repr

def FileError.message : FileError → String
  | .missing => "No such file or directory (os error 2)"
  | .notDirectory => "Not a directory (os error 20)"
  | .isDirectory => "Is a directory (os error 21)"
  | .nameTooLong => "File name too long (os error 36)"
  | .other reason => reason

/-- What a path leads to. The files below a directory are named by the directories that lead to
them and their own name. -/
inductive Entry where
  | file (text : String)
  | directory (below : List (List String))
  deriving DecidableEq, Repr

abbrev Files := String → Except FileError Entry

namespace Files

def read (files : Files) (path : String) : Except FileError String :=
  match files path with
  | .ok (.file text) => .ok text
  | .ok (.directory _) => .error .isDirectory
  | .error error => .error error

end Files

/-- The parts of a path between its slashes. -/
def pathParts (path : String) : List String :=
  (path.toList.splitOn '/').map String.ofList

/-- The path of something in a directory. -/
def joinPath (directory : String) (parts : List String) : String :=
  let rest := "/".intercalate parts
  if directory.endsWith "/" then directory ++ rest else directory ++ "/" ++ rest

/-- Files in memory, each with the directories that lead to it and its name. A directory exists if
a file is below it. -/
structure Disk where
  files : List (List String × String)
  deriving DecidableEq, Repr

namespace Disk

def ofFiles (files : List (String × String)) : Disk :=
  ⟨files.map fun (path, text) => (pathParts path, text)⟩

def file? (disk : Disk) (parts : List String) : Option String := disk.files.lookup parts

/-- The files below a directory, named from there. -/
def below (disk : Disk) (parts : List String) : List (List String) :=
  disk.files.filterMap fun (path, _) =>
    if parts.isPrefixOf path && parts.length < path.length then some (path.drop parts.length)
    else none

def isDirectory (disk : Disk) (parts : List String) : Bool :=
  parts.isEmpty || !(disk.below parts).isEmpty

/-- Follows a path from `parts` on, part by part. A name has at most 255 bytes. -/
def walk (disk : Disk) (parts : List String) : List String → Except FileError (List String)
  | [] => .ok parts
  | step :: steps =>
    if (disk.file? parts).isSome then .error .notDirectory
    else if !disk.isDirectory parts then .error .missing
    else if step = "" || step = "." then walk disk parts steps
    else if step = ".." then
      if parts.isEmpty then .error .missing else walk disk parts.dropLast steps
    else if 255 < step.utf8ByteSize then .error .nameTooLong
    else walk disk (parts ++ [step]) steps

/-- The place that a path of at most 4095 bytes names; absolute paths lead out of the disk. -/
def locate (disk : Disk) (path : String) : Except FileError (List String) :=
  if 4095 < path.utf8ByteSize then .error .nameTooLong
  else if path.isEmpty || path.startsWith "/" then .error .missing
  else disk.walk [] (pathParts path)

def entry (disk : Disk) (path : String) : Except FileError Entry :=
  match disk.locate path with
  | .error error => .error error
  | .ok parts =>
    match disk.file? parts with
    | some text => .ok (.file text)
    | none =>
      if disk.isDirectory parts then .ok (.directory (disk.below parts)) else .error .missing

/-- The disk after a text is written to a file, which takes the place of one that is there. -/
def write (disk : Disk) (path text : String) : Except FileError Disk :=
  match disk.locate (String.ofList (path.toList.reverse.dropWhile (· = '/')).reverse) with
  | .error error => .error error
  | .ok parts =>
    if disk.isDirectory parts || path.endsWith "/" then .error .isDirectory
    else .ok ⟨(parts, text) :: disk.files.filter fun file => file.1 != parts⟩

end Disk
end SqlAudit.CommandLine
