import QueryAdvisor.Disk.Access
import QueryAdvisor.Disk.Canonical
import QueryAdvisor.Schema.Store
import QueryAdvisor.Traced

/-!
# Loading a schema

The schema of a project is read from its dump on the disk.
-/

namespace QueryAdvisor
namespace Schema

/-- Read the schema dump at a path. -/
def load
    (disk : Disk)
    (path : Path) : Traced Schema := do
  if !(← .ofExcept (disk.pathExists path)) then
    .fail (.schemaMissing path)
  else
    match disk.read path with
    | .unopenable => .fail (.schemaUnreadable path)
    | .directory => .fail .directoryRead
    | .content text =>
      let schema := (TableStore.ofText text).schema
      .note .info (ascii "schema.parsed")
        [(ascii "path", path), (ascii "tables", Text.ofNat schema.size)]
      return schema

end Schema
end QueryAdvisor
