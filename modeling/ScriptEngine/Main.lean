import ScriptEngine.CommandLine

/-! # The program

Reads the files below the working directory and the standard input, answers the arguments, and
writes back what changed. -/

namespace ScriptEngine.Program

/-- Everything below a directory, each with its location. Links to directories are not followed,
and what cannot be read is left out. -/
partial def load (directory : IO.FS.DirEntry) (place : Location) :
    IO (List (Location × FileContent)) := do
  let mut found : List (Location × FileContent) := []
  for entry in ← directory.path.readDir do
    let here := place ++ [entry.fileName]
    try
      match (← entry.path.symlinkMetadata).type with
      | .dir => found := found ++ (here, .directory) :: (← load entry here)
      | .other => pure ()
      | _ => found := found ++ [(here, .file (← IO.FS.readBinFile entry.path))]
    catch _ => pure ()
  return found

/-- The directories from the root down to a location. -/
def ancestors (place : Location) : List (Location × FileContent) :=
  (List.range place.length).map fun n => (place.take (n + 1), .directory)

def readFiles : IO FileTree := do
  let here ← IO.currentDir
  let working := (Path.parts here.toString).filter (!Path.isIdle ·)
  let entries ← load { root := here, fileName := "." } working
  return { entries := ancestors working ++ entries, working := working }

/-- Writes what is new or differs; nothing ever disappears from a tree. -/
def writeFiles (before after : FileTree) : IO Unit := do
  for (path, content) in after.listing do
    match content, before.find path with
    | .directory, .ok .directory => pure ()
    | .directory, _ => IO.FS.createDirAll path
    | .file new, .ok (.file old) => if new != old then IO.FS.writeBinFile path new
    | .file new, _ => IO.FS.writeBinFile path new

/-- All bytes of the standard input. -/
partial def readInput (input : IO.FS.Stream) (read : ByteArray) : IO ByteArray := do
  let bytes ← input.read 65536
  if bytes.isEmpty then return read else readInput input (read ++ bytes)

end ScriptEngine.Program

open ScriptEngine in
def main (args : List String) : IO UInt32 := do
  let files ← Program.readFiles
  let input ← Program.readInput (← IO.getStdin) ByteArray.empty
  let seed ← IO.rand 0 0xffffffffffffffff
  let r := CommandLine.runArgs Engine.machine ⟨files, input.toList, seed⟩ args
  IO.print r.output
  IO.eprint r.errors
  Program.writeFiles files r.files
  IO.sleep r.waited.toUInt32
  return r.code.toUInt32
