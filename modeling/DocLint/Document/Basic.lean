import DocLint.Document.SourceMap
import DocLint.Failure
import DocLint.Text.Lines
import DocLint.Yaml.Construction

/-!
# Documents

A document is the value of a text together with the text and the name of the place that it comes from.
The ranges of its parts are found by reading the text once more as nodes; `ranges_eq` says that they
are those of the text.
-/
namespace DocLint

/-- The ranges of a text, of which there are none when there is no text. -/
def SourceMap.ofOptional? : Option String → Except YamlError SourceMap
  | none => .ok ⟨[]⟩
  | some text => if text.isEmpty then .ok ⟨[]⟩ else SourceMap.ofText? text

/-- A value with the text that it was read from and the place of that text. -/
structure Document where
  data : Value
  source : Option String
  text : Option String
  ranges : Except YamlError SourceMap := SourceMap.ofOptional? text
  ranges_eq : ranges = SourceMap.ofOptional? text := by rfl

namespace Document

/-- The name of the standard input as a place. -/
def stdin : String := "<STDIN>"

/-- What a text is called that is not well-formed. An empty name of a place is not shown. -/
def shownSource : Option String → String
  | some source => if source.isEmpty then "document" else source
  | none => "document"

/-- Reads a document. -/
def parse (text : String) (source : Option String) : Except Failure Document :=
  match Yaml.load text with
  | .ok data => .ok { data, source, text := some text }
  | .error .malformed => .error (.refused (shownSource source ++ ": invalid YAML/JSON"))
  | .error e => .error (.yaml e)

/-- Whether a document has no place that could be named later. -/
def isStream (d : Document) : Bool :=
  d.source.isNone || d.source == some stdin

/-- The range of the node at a path, or of the closest node around it. -/
def rangeAt (d : Document) (path : Path) : Except Failure Range :=
  match d.ranges with
  | .ok ranges => .ok (ranges.rangeAt path)
  | .error e => .error (.yaml e)

/-- The range of the whole text. -/
def fullRange (d : Document) : Range :=
  let lines := Text.splitLines (d.text.getD "")
  match lines.getLast? with
  | some last => ⟨⟨0, 0⟩, ⟨lines.length - 1, last.length⟩⟩
  | none => Range.empty

end Document
end DocLint
