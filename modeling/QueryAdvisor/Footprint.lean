import QueryAdvisor.Command

/-!
# Footprints

Which paths a command line may look at.  A disk that holds these, and the
source files below the project that is found, is as good as the whole disk.
-/

namespace QueryAdvisor
namespace Footprint

/-- The files of a project that are looked for by name. -/
def projectFiles : List Path :=
  [Project.marker, ascii "config/database.yml", ascii "db/schema.rb"]

/-- The options of a command line, if it can be read so far. -/
def options (arguments : List Text) : Options :=
  match Options.ofArguments (arguments.drop 1) with
  | .ok options => options
  | .error _ => {}

/-- The directory in which the search for a project starts. -/
def start
    (workingDirectory : Path)
    (arguments : List Text) : Path :=
  Path.append workingDirectory ((options arguments).root.getD [])

/-- The files that report files may replace. -/
def reportFiles
    (workingDirectory : Path)
    (arguments : List Text) : List Path :=
  match (options arguments).outputDirectory with
  | none => []
  | some directory =>
    [Suite.indexes, .nPlusOne, .config].flatMap fun suite =>
      [".txt", ".json"].map fun extension =>
        Command.reportPath (Path.append workingDirectory directory) suite extension

/-- The paths that a command line may look at, the source files apart. -/
def paths
    (workingDirectory : Path)
    (arguments : List Text) : List Path :=
  let above := (Path.upward (start workingDirectory arguments)).flatMap fun directory =>
    directory :: projectFiles.map (Path.append directory)
  let optionsFile := (options arguments).optionsFile.map (Path.append workingDirectory)
  above ++ optionsFile.toList ++ reportFiles workingDirectory arguments

/-- The directories and files that a run has added or changed, outermost first. -/
def changes
    (before after : Disk) : List (Place × Entry) :=
  (after.below []).filter fun (place, entry) =>
    match entry, before.entry? place with
    | .directory _, some (.directory _) => false
    | .directory _, _ => true
    | .file content, some (.file earlier) => content != earlier
    | .file _, _ => true
    | _, _ => false

end Footprint
end QueryAdvisor
