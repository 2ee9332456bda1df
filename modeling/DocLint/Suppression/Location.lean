import DocLint.Failure
import DocLint.File.Name

/-!
# Suppressed locations

A location is a place in a document, in every document or in one only, at which the problems of a rule
are not reported. It is written as the name of the document, `#` and a JSON pointer.
-/
namespace DocLint

/-- A place in a document; without a source, in any document. -/
structure Location where
  source : Option String
  path : List String
  deriving DecidableEq, Inhabited

namespace Location

/-- What stands before the first `#` and what behind it. -/
def splitAtHash : List Char → Option (List Char × List Char)
  | [] => none
  | c :: rest =>
    if c == '#' then some ([], rest)
    else (splitAtHash rest).map fun (name, pointer) => (c :: name, pointer)

/-- Reads a location; its source is taken as seen from a base directory inside the working
directory. -/
def parse (workingDir : String) (base : Option String) (written : String) :
    Except Failure Location :=
  match splitAtHash written.toList with
  | none =>
    .error (.refused
      s!"except location '{written}' must contain a '#' followed by a JSON pointer")
  | some (name, pointer) =>
    let source := if name.isEmpty then none
      else some (FileName.canonical workingDir base (String.ofList name))
    match pointer with
    | [] => .ok ⟨source, []⟩
    | '/' :: rest =>
      .ok ⟨source, (FileName.splitAtSlash rest).map fun segment =>
        String.ofList (Pointer.unescapeChars segment)⟩
    | _ =>
      .error (.refused
        s!"except location '{written}': pointer must be empty or start with '/'")

/-- Whether a location has the source of a document: it has none, or the document's canonical one. -/
def coversSource (workingDir : String) (l : Location) (source : Option String) : Bool :=
  match l.source with
  | none => true
  | some own =>
    match source with
    | none => false
    | some source => FileName.canonical workingDir none source == own

/-- Whether a location is a path in a document, its segments compared by their texts. -/
def covers (workingDir : String) (l : Location) (source : Option String) (path : Path) : Bool :=
  l.coversSource workingDir source && l.path == path.texts

/-- Whether a path in a document is one of the given locations. -/
def anyCovers (workingDir : String) (locations : List Location) (source : Option String)
    (path : Path) : Bool :=
  locations.any fun l => l.covers workingDir source path

end Location
end DocLint
