import QueryAdvisor.Finding.Preview
import QueryAdvisor.Suite

/-!
# Reports

What is asked of an analysis, what it did besides finding something, and the
reports it renders.
-/

namespace QueryAdvisor

/-- What is asked of an analysis. -/
structure Request where
  /-- A directory inside the application. -/
  root : Path
  suite : Suite
  /-- The formats of the reports; without any, a plain text is rendered. -/
  formats : List Text
  limits : Limits

/-- A source file that could not be read. -/
structure ScanError where
  file : Path
  message : Text
deriving DecidableEq, Repr

/-- What an analysis looked at. -/
structure Summary where
  projectRoot : Path
  tableCount : Nat
  filesScanned : Nat
  scanErrors : List ScanError
deriving DecidableEq, Repr

/-- The rendered reports; one that is not asked for is empty. -/
structure Report where
  text : Text
  json : Text
deriving DecidableEq, Repr

namespace Request

/-- Whether a format is asked for. -/
def asksFor
    (request : Request)
    (format : Text) : Bool :=
  if request.formats.isEmpty then format == ascii "text"
  else request.formats.contains format

end Request

/-- The exit code of a command.  Only likely N+1 queries make it fail. -/
def Suite.exitCode
    (suite : Suite)
    (aggregate : Aggregate) : Nat :=
  match suite with
  | .nPlusOne => if aggregate.hasWarnings then 1 else 0
  | _ => 0

end QueryAdvisor
