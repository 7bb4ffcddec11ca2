import QueryAdvisor.Text.Recogniser

/-!
# Calls and accesses on a line

Tests on single lines of source code: whether a line fetches records, loads
associations eagerly, assigns an instance variable, or reaches through an
association to one of its members.
-/

namespace QueryAdvisor
namespace Query

open Recogniser

/-- A call of one of the given methods: a full stop and a whole word. -/
def call (methods : List Text) : Recogniser Unit := do
  byte Byte.dot
  let method ← word
  guard (methods.contains method)

/-- Calls that fetch records. -/
def fetchMethods : List Text :=
  [ascii "all", ascii "where", ascii "find_by", ascii "find"]

/-- Calls that load associations together with the records. -/
def eagerMethods : List Text :=
  [ascii "includes", ascii "preload", ascii "eager_load"]

/-- Whether a line fetches records. -/
def isFetch (line : Text) : Bool :=
  (call fetchMethods).occursIn line

/-- Whether a text asks for eager loading. -/
def loadsEagerly (text : Text) : Bool :=
  (call eagerMethods).occursIn text

/-- The assignment of an instance variable, whose value is its name. -/
def assignment : Recogniser Text := do
  byte 64
  let variableName ← word
  spaces
  byte 61
  return variableName

/-- The first instance variable that a line assigns. -/
def assigned? (line : Text) : Option Text :=
  (assignment.first? line).map Occurrence.value

/-- Two successive member accesses, as in `.author.name`. -/
def memberChain : Recogniser Unit := do
  byte Byte.dot
  let _ ← word
  byte Byte.dot
  let _ ← word

/-- A member of a member of the given instance variable. -/
def chainOn (variableName : Text) : Recogniser Unit := do
  byte 64
  literal variableName
  memberChain

/-- Whether a line reaches through a member of the given instance variable.
Only a nonempty word names a variable. -/
def reachesThrough
    (line variableName : Text) : Bool :=
  !variableName.isEmpty && variableName.all Byte.isWord &&
    (chainOn variableName).occursIn line

/-- A member of a member of any name. -/
def associationChain : Recogniser Unit := do
  let _ ← word
  memberChain

/-- Whether a line reaches through an association. -/
def hasAssociationChain (line : Text) : Bool :=
  associationChain.occursIn line

end Query
end QueryAdvisor
