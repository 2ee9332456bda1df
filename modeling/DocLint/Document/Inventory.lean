import DocLint.Document.Basic
import DocLint.Document.Format

/-!
# Inventories

A document as rules see it: the tree as it was written, the tree in which references are resolved, and
the names of its formats. Resolving is not done here; without a resolved tree the written one is used.
-/
namespace DocLint

/-- The trees of a document with the names of its formats. -/
structure Inventory where
  document : Document
  resolved : Value
  formats : List String

namespace Inventory

/-- The inventory of a document. A resolved tree that is null counts as absent, and without formats
those that the document declares are taken. -/
def ofDocument (d : Document) (resolved : Option Value) (formats : Option (List String)) :
    Inventory :=
  { document := d
    resolved := (resolved.filter (!·.isNull)).getD d.data
    formats := formats.getD ((Format.detect d.data).map Format.name) }

/-- The tree that a rule asks for. -/
def tree (i : Inventory) (resolved : Bool) : Value :=
  if resolved then i.resolved else i.document.data

end Inventory
end DocLint
