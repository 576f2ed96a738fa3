import Std.Time.DateTime.Timestamp
import SqlAudit.CommandLine.Run
/-! The program: it reads the files that its arguments name and prints what the run comes to. -/
namespace SqlAudit.CommandLine

open System (FilePath)

def usage : String :=
  "usage: sql-audit [--list-rules] [-v] [-c CATALOG] [-e VERSION] [-d postgres|generic]\n" ++
    "                 [-w COUNT] [-t SECONDS] [-f json|text] [-o FILE] INPUT..."

def fileError : IO.Error → FileError
  | .noFileOrDirectory .. => .missing
  | .inappropriateType _ 21 _ => .isDirectory
  | .inappropriateType .. => .notDirectory
  | .invalidArgument _ 36 _ | .invalidArgument _ _ "name too long" => .nameTooLong
  | error => .other (toString error)

/-- The files below a directory, down to `depth` levels, named from `parts` on. -/
def filesBelow (parts : List String) (directory : FilePath) : Nat → IO (List (List String))
  | 0 => pure []
  | depth + 1 => do
    let mut found := []
    for entry in ← directory.readDir do
      let name := parts ++ [entry.fileName]
      if ← entry.path.isDir then found := found ++ (← filesBelow name entry.path depth)
      else found := found ++ [name]
    pure found

def readEntry (path : String) : IO (Except FileError Entry) := do
  try
    if ← (path : FilePath).isDir then pure (.ok (.directory (← filesBelow [] path 255)))
    else pure (.ok (.file (← IO.FS.readFile path)))
  catch error => pure (.error (fileError error))

/-- The entries of these paths, and of the scripts that they stand for. -/
def readAll (paths : List String) : IO Files := do
  let entries ← paths.mapM fun path => do pure (path, ← readEntry path)
  let look (entries : List (String × Except FileError Entry)) : Files := fun path =>
    (entries.lookup path).getD (.error .missing)
  let scripts ← (paths.flatMap (expand (look entries))).mapM fun path => do
    pure (path, ← readEntry path)
  pure (look (entries ++ scripts))

def now : IO Timestamp := do
  let nanos := (← Std.Time.Timestamp.now).toNanosecondsSinceUnixEpoch.val
  pure ⟨nanos.fdiv 1000000000, (nanos.fmod 1000000000).toNat⟩

/-- Prints a text, or writes it to the file that the options name; the exit code is `code` then. -/
def emit (options : Options) (text : String) (code : Nat) : IO UInt32 := do
  match options.output with
  | none =>
    IO.println text
    pure (UInt32.ofNat code)
  | some path =>
    try
      IO.FS.writeFile path (text ++ "\n")
      pure (UInt32.ofNat code)
    catch error =>
      IO.eprintln (writeFailure path (fileError error)).message
      pure 1

def execute (options : Options) : IO UInt32 := do
  let startedAt ← now
  let start ← IO.monoMsNow
  let files ← readAll (options.catalog.toList ++ options.inputs)
  let ending := run files options (start / 1000)
  if ending.isError then
    IO.eprintln (ending.text options startedAt 0)
    pure (UInt32.ofNat ending.code)
  else
    emit options (ending.text options startedAt ((← IO.monoMsNow) - start)) ending.code

end SqlAudit.CommandLine

def main (arguments : List String) : IO UInt32 := do
  let catalog ← IO.getEnv "LIMITLESS_CATALOG"
  let version ← IO.getEnv "LIMITLESS_ENGINE_VERSION"
  let environment := fun name => if name = "LIMITLESS_CATALOG" then catalog else version
  match SqlAudit.CommandLine.Options.ofArguments environment arguments with
  | .ok options => SqlAudit.CommandLine.execute options
  | .error (.usage reason) =>
    IO.eprintln ("error: " ++ reason ++ "\n\n" ++ SqlAudit.CommandLine.usage)
    pure 2
  | .error _ =>
    IO.println SqlAudit.CommandLine.usage
    pure 0
