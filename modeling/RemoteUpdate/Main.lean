import RemoteUpdate.CommandLine.Execute

/-!
# The program

Reads the command line, takes up what is on disk at the paths that it names, carries out the command on
that, writes the files that have changed, and prints.
-/

namespace RemoteUpdate.CommandLine

def banner : String := "RSU Emulator 0.1.0"

def help : String :=
  asLines (["Usage: rsu-emulator [OPTIONS] --flash <FLASH> <COMMAND>", "", "Commands:"] ++
    topLevel.subcommands.map ("  " ++ ·) ++ ["", "Options:"] ++
    topLevel.options.map ("  --" ++ ·.long))

/-- Tells why there is nothing to carry out. -/
def report : UsageError → IO Unit
  | .displayVersion => IO.println banner
  | .displayHelp => IO.print help
  | .helpForNothing => IO.eprint help
  | e => IO.eprintln ("error: " ++ e.kind)

/-- The path of a location. -/
def pathOf (l : FileLocation) : String :=
  "/" ++ "/".intercalate l

/-- The store with what is on disk at a location. -/
def loadAt (s : FileStore) (l : FileLocation) : IO FileStore := do
  let path := (← IO.currentDir) / pathOf l
  if ← path.isDir then return { s with directories := l :: s.directories }
  else if ← path.pathExists then return s.put l (← IO.FS.readBinFile path)
  else return s

/-- The store with what is on disk on the way of a path. -/
def loadPath (s : FileStore) (path : String) : IO FileStore := do
  let mut s := s
  let mut l := s.start path
  for name in path.splitOn "/" do
    l := FileLocation.enter l name
    s ← loadAt s l
  return s

/-- What is on disk as far as a command needs it. -/
def load (i : Invocation) : IO FileStore := do
  let here := (← IO.currentDir).toString.splitOn "/" |>.filter (· != "")
  let s : FileStore := { directories := [here], workingDirectory := here }
  (i.flash :: i.request.file?.toList).foldlM loadPath s

/-- Writes the files that have changed. -/
def save (before after : FileStore) : IO Unit :=
  for (l, contents) in after.files do
    unless before.files.lookup l == some contents do
      IO.FS.writeBinFile (pathOf l) contents

/-- Carries out a command on the files on disk. -/
def runOnDisk (i : Invocation) : IO UInt32 := do
  let before ← load i
  match (run i before).run #[] with
  | none =>
    IO.eprintln "Error: aborted"
    return 101
  | some ((result, after), log) =>
    save before after
    for e in log do
      if i.logLevel.shows e.severity then IO.eprintln e.line
    match result with
    | .ok text =>
      IO.print text
      return 0
    | .error message =>
      IO.eprintln ("Error: " ++ message)
      return 1

end RemoteUpdate.CommandLine

def main (arguments : List String) : IO UInt32 :=
  match RemoteUpdate.CommandLine.read arguments with
  | .ok i => RemoteUpdate.CommandLine.runOnDisk i
  | .error e => do
    RemoteUpdate.CommandLine.report e
    return e.exitCode
