import Dialect.Toml.Line

/-!
# TOML documents

The lines of a document build its table one after another.  A header decides
which table the fields below it go to.  A key that is given twice, or a table that
is begun twice, makes the document invalid.
-/

namespace Dialect
namespace Toml

/-- A document read up to some line. -/
structure Draft where
  fields : Fields
  /-- The table that the last header began, by its path from the root. -/
  current : List Text

namespace Draft

def add? (d : Draft) : Line → Option Draft
  | .blank => some d
  | .field path key value => do
    let assign (_ : Origin) (fields : Fields) := fields.assign? path key value
    let fields ← Fields.update? false assign d.current .header d.fields
    return { d with fields }
  | .table path key => do
    return { fields := ← d.fields.openTable? path key, current := path ++ [key] }
  | .item path key => do
    return { fields := ← d.fields.openItem? path key, current := path ++ [key] }

end Draft

/-- The table of a document.  A byte order mark before it does not count. -/
def parse? (s : Text) : Option Fields := do
  let s := if s.head? = some '\uFEFF' then s.drop 1 else s
  let lines ← Reader.readAll? (Reader.many line) s
  let draft ← lines.foldlM Draft.add? { fields := [], current := [] }
  return draft.fields

end Toml
end Dialect
