import DocLint.Diagnostic

/-!
# YAML tokens

The tokens of a YAML text. Indentation and the keys that are recognised by a later colon show as
tokens of their own without characters.
-/
namespace DocLint.Yaml

/-- A line that starts with a percent sign. -/
inductive Directive where
  | version (major minor : Nat)
  | tag (handle expansion : String)
  | other
  deriving DecidableEq

/-- What a token stands for. -/
inductive TokenKind where
  | streamEnd
  | directive (d : Directive)
  | documentStart
  | documentEnd
  | blockSequenceStart
  | blockMappingStart
  | blockEnd
  | flowSequenceStart
  | flowSequenceEnd
  | flowMappingStart
  | flowMappingEnd
  | blockEntry
  | flowEntry
  | key
  | value
  | alias (name : String)
  | anchor (name : String)
  | tag (handle : Option String) (suffix : String)
  | scalar (text : String) (plain : Bool)
  deriving DecidableEq

/-- A token with the stretch of the text that it covers. -/
structure Token where
  kind : TokenKind
  start : Position
  stop : Position

end DocLint.Yaml
