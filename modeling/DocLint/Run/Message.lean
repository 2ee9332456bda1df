import DocLint.Check.Basic
import DocLint.Rule.Basic
import DocLint.Text.Blank
import DocLint.Text.Word
import DocLint.Value.Printed

/-!
# Messages

A message is a template whose placeholders, names between double braces, are replaced by the values of
variables in one pass; names without a variable are replaced by nothing.
-/
namespace DocLint

namespace Template

/-- A piece of a template. -/
inductive Piece where
  | literal (c : Char)
  | placeholder (name : String)
  deriving DecidableEq

/-- The placeholder at the start of some characters, and what follows it. -/
def placeholder? : List Char → Option (String × List Char)
  | '\x7b' :: '\x7b' :: rest =>
    let named := rest.dropWhile Text.isBlank
    let name := named.takeWhile Text.isWord
    match name.isEmpty, (named.dropWhile Text.isWord).dropWhile Text.isBlank with
    | false, '\x7d' :: '\x7d' :: after => some (String.ofList name, after)
    | _, _ => none
  | _ => none

/-- A placeholder takes up characters. -/
theorem placeholder?_length {cs rest : List Char} {name : String}
    (found : placeholder? cs = some (name, rest)) : rest.length < cs.length := by
  unfold placeholder? at found
  split at found
  next body =>
    dsimp only at found
    split at found
    next closing =>
      cases found
      have named : body.dropWhile Text.isBlank <:+ body := List.dropWhile_suffix Text.isBlank
      have closed := ((List.dropWhile_suffix Text.isBlank).trans
        (List.dropWhile_suffix Text.isWord)).trans named
      have bound := closed.length_le
      rw [closing] at bound
      simp only [List.length_cons] at bound ⊢
      omega
    next => cases found
  next => cases found

/-- The pieces of a template, its placeholders found from the left. -/
def pieces (cs : List Char) : List Piece :=
  match cs with
  | [] => []
  | c :: rest =>
    match found : placeholder? (c :: rest) with
    | some (name, after) =>
      have : after.length < rest.length + 1 := placeholder?_length found
      .placeholder name :: pieces after
    | none => .literal c :: pieces rest
termination_by cs.length

/-- What a piece is replaced by. -/
def Piece.filled (values : List (String × String)) : Piece → List Char
  | .literal c => [c]
  | .placeholder name => ((values.lookup name).getD "").toList

/-- The text of a template with its placeholders replaced. -/
def fill (template : String) (values : List (String × String)) : String :=
  String.ofList ((pieces template.toList).flatMap (Piece.filled values))

end Template

namespace Rule

/-- The variables of the message of a finding at a path. An empty message of the check gives way to
the description of the rule. -/
def messageVariables (r : Rule) (finding : Finding) (path : Path) (value : Value) :
    List (String × String) :=
  [("error", if finding.message.isEmpty then r.description else finding.message),
    ("description", r.description),
    ("path", ".".intercalate path.texts),
    ("property", (path.getLast?.map Scalar.text).getD ""),
    ("value", value.printed)]

/-- The template of a rule's messages: its own unless it is empty, or the message of the check. -/
def messageTemplate (r : Rule) : String :=
  match r.message with
  | some template => if template.isEmpty then "\x7b\x7berror\x7d\x7d" else template
  | none => "\x7b\x7berror\x7d\x7d"

/-- The message of a finding at a path. -/
def messageFor (r : Rule) (finding : Finding) (path : Path) (value : Value) : String :=
  Template.fill r.messageTemplate (r.messageVariables finding path value)

end Rule
end DocLint
