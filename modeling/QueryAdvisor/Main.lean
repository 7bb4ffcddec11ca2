import QueryAdvisor.Footprint
import Std.Time.Format

/-!
# The program

Loads what a command line may look at from the real disk, runs the command,
prints its streams and writes the files it has changed.
-/

namespace QueryAdvisor
namespace Main

/-- The bytes of a string. -/
def textOf (string : String) : Text :=
  string.toUTF8.toList

/-- The string of some bytes.  Invalid encodings cannot be named. -/
def stringOf (text : Text) : String :=
  (String.fromUTF8? text.toByteArray).getD ""

/-- The entry of a path on the real disk that is not a link.  Directories are
loaded empty. -/
def entryOf (file : String) : IO Entry := do
  let path := (← IO.currentDir) / file
  match (← path.metadata).type with
  | .dir => return .directory []
  | .file =>
    try
      return .file (← IO.FS.readBinFile path).toList
    catch _ =>
      return .locked
  | _ => return .special

/-- Load a path and those above it, outermost first, and where links lead to.  A
linked path becomes a link to the path that it stands for. -/
partial def load
    (disk : Disk)
    (path : Path) : IO Disk := do
  let base ← IO.currentDir
  let mut loaded := disk
  for part in (Path.upward path).reverse do
    let file := base / stringOf part
    if (← file.pathExists) && (loaded.entry? (Path.names part)).isNone then
      let real := textOf (toString (← IO.FS.realPath file))
      if real != part then
        loaded := loaded.insert (Path.names part) (.link real)
        loaded ← load loaded real
      else
        loaded := loaded.insert (Path.names part) (← entryOf (stringOf part))
  return loaded

/-- Load everything below a directory.  Linked directories are not entered. -/
partial def loadBelow
    (disk : Disk)
    (path : Path) : IO Disk := do
  let base ← IO.currentDir
  let directory := base / stringOf path
  if !(← directory.isDir) then
    return disk
  let mut loaded := disk
  for entry in ← directory.readDir do
    let inner := textOf (toString entry.path)
    loaded ← load loaded inner
    match loaded.entry? (Path.names inner) with
    | some (.directory _) => loaded ← loadBelow loaded inner
    | _ => pure ()
  return loaded

/-- Load what a command line may look at. -/
def snapshot (arguments : List Text) : IO Disk := do
  let workingDirectory := textOf (toString (← IO.currentDir))
  let mut disk : Disk := { entries := [], workingDirectory := Path.names workingDirectory }
  disk ← load disk workingDirectory
  for path in Footprint.paths workingDirectory arguments do
    disk ← load disk path
  match Project.findRoot disk (Footprint.start workingDirectory arguments) with
  | .error _ => return disk
  | .ok root =>
    disk ← load disk (Project.appDirectory root)
    match disk.resolve (Project.appDirectory root) with
    | .error _ => return disk
    | .ok directory => loadBelow disk directory

/-- Write the changes of a run to the real disk. -/
def commit (changes : List (Place × Entry)) : IO Unit := do
  for (place, entry) in changes do
    match entry with
    | .directory _ => IO.FS.createDirAll (stringOf place.path)
    | .file content => IO.FS.writeBinFile (stringOf place.path) content.toByteArray
    | _ => pure ()

/-- The program has no reader of documents, and says so. -/
def reader : DocumentReader :=
  .refusing (ascii "YAML documents are not supported")

/-- The time of day for log records. -/
def currentTime : IO Text := do
  let now ← Std.Time.DateTime.now
  return textOf (now.format "uuuu-MM-dd'T'HH:mm:ssZ")

end Main
end QueryAdvisor

open QueryAdvisor in
/-- Run a command line. -/
def main (arguments : List String) : IO UInt32 := do
  let words := arguments.map Main.textOf
  let started ← IO.monoMsNow
  let disk ← Main.snapshot words
  let finished ← IO.monoMsNow
  let clock : Clock := ⟨← Main.currentTime, Text.ofNat (finished - started)⟩
  let outcome := Command.run Main.reader clock disk words
  (← IO.getStdout).write outcome.output.toByteArray
  (← IO.getStderr).write outcome.errors.toByteArray
  Main.commit (Footprint.changes disk outcome.disk)
  return outcome.exitCode.toUInt32
