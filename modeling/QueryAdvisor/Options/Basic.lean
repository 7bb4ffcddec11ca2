import QueryAdvisor.Disk.Canonical
import QueryAdvisor.Log
import QueryAdvisor.Report.Basic

/-!
# Options

What a user may choose for a command.  Options given on the command line take
precedence over those of an options file.
-/

namespace QueryAdvisor

/-- The choices of a user; what is not chosen is absent or empty. -/
structure Options where
  root : Option Path := none
  outputDirectory : Option Path := none
  optionsFile : Option Path := none
  formats : List Text := []
  rules : List Text := []
  reporter : Option Text := none
  level : Option Level := none
  booleanLimit : Option Nat := none
  whereLimit : Option Nat := none
  showHelp : Bool := false
deriving DecidableEq, Repr

namespace Options

/-- Let the second options take precedence.  A nonempty list replaces the whole
list of the first, and whether help is shown is up to the first. -/
def merge
    (first second : Options) : Options where
  root := second.root <|> first.root
  outputDirectory := second.outputDirectory <|> first.outputDirectory
  optionsFile := second.optionsFile <|> first.optionsFile
  formats := if second.formats.isEmpty then first.formats else second.formats
  rules := if second.rules.isEmpty then first.rules else second.rules
  reporter := second.reporter <|> first.reporter
  level := second.level <|> first.level
  booleanLimit := second.booleanLimit <|> first.booleanLimit
  whereLimit := second.whereLimit <|> first.whereLimit
  showHelp := first.showHelp

/-- What the options ask of an analysis. -/
def request
    (disk : Disk)
    (options : Options)
    (suite : Suite) : Request where
  root := options.root.getD disk.workingDirectory.path
  suite := suite
  formats := if options.formats.isEmpty then [ascii "text"] else options.formats
  limits :=
    { booleanPreview := options.booleanLimit.getD 5
      wherePreview := options.whereLimit.getD 10 }

end Options
end QueryAdvisor
