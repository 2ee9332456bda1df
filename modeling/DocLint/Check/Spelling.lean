import DocLint.Check.Basic
import DocLint.Pattern.Matching
import DocLint.Pattern.Reader
import DocLint.Value.Printed

/-!
# Checks of spelling

Patterns that a text must match or must not match, and the styles in which names are written. A line
feed at the end of a name is overlooked.
-/
namespace DocLint

/-- A style in which the words of a name are joined. -/
inductive Casing where
  | camel
  | cobol
  | flat
  | kebab
  | macroCase
  | pascal
  | snake
  deriving DecidableEq, Inhabited

namespace Casing

/-- All styles in the alphabetical order of their names. -/
def all : List Casing :=
  [.camel, .cobol, .flat, .kebab, .macroCase, .pascal, .snake]

/-- The name of a style. -/
def name : Casing → String
  | .camel => "camel"
  | .cobol => "cobol"
  | .flat => "flat"
  | .kebab => "kebab"
  | .macroCase => "macro"
  | .pascal => "pascal"
  | .snake => "snake"

/-- A lower-case letter or a digit. -/
def isLowerOrDigit (c : Char) : Bool :=
  c.isLower || c.isDigit

/-- An upper-case letter or a digit. -/
def isUpperOrDigit (c : Char) : Bool :=
  c.isUpper || c.isDigit

/-- Whether characters are words of the given kind with a joint between any two; `started` tells
whether a word has been started. -/
def areWords (joint : Char) (inWord : Char → Bool) : Bool → List Char → Bool
  | started, [] => started
  | started, c :: rest =>
    if inWord c then areWords joint inWord true rest
    else c == joint && started && areWords joint inWord false rest

/-- Whether a name starts with a character of one kind and goes on with those of another. -/
def startsThen (first : Char → Bool) (follow : List Char → Bool) : List Char → Bool
  | [] => false
  | c :: rest => first c && follow rest

/-- Whether a name is written in a style. -/
def fits : Casing → List Char → Bool
  | .flat => startsThen Char.isLower fun rest => rest.all isLowerOrDigit
  | .camel => startsThen Char.isLower fun rest => rest.all Char.isAlphanum
  | .pascal => startsThen Char.isUpper fun rest => rest.all Char.isAlphanum
  | .kebab => startsThen Char.isLower (areWords '-' isLowerOrDigit true)
  | .snake => startsThen Char.isLower (areWords '_' isLowerOrDigit true)
  | .cobol => startsThen Char.isUpper (areWords '-' isUpperOrDigit true)
  | .macroCase => startsThen Char.isUpper (areWords '_' isUpperOrDigit true)

/-- The style with a name. -/
def ofName? (n : String) : Option Casing :=
  all.find? fun c => c.name == n

end Casing

namespace Check

/-- A name must be written in the style that the option `type` names. -/
def casing : Check := fun v options _ =>
  match v.string? with
  | none => .fine
  | some text =>
    if text.isEmpty then .fine
    else
      let style := ((options.field? "type").map Value.text).getD ""
      match Casing.ofName? style with
      | none =>
        .failed (.refused (s!"casing: unknown type '{style}', must be one of " ++
          Text.quotedList (Casing.all.map Casing.name)))
      | some c =>
        if c.fits (Text.withoutFinalNewline text.toList) then .fine
        else .problem (s!"{v.printed} must be {style} case")

/-- The problem with a text whose option gives a pattern; the pattern must occur in the text when
`wanted`, and must not otherwise. -/
def patternProblem (v : Value) (text : String) (option : Option Value) (wanted : Bool)
    (complaint : String) : Except Failure (List Finding) :=
  match option with
  | none => .ok []
  | some given =>
    match Pattern.ofOption? given.text with
    | .error e => .error (.pattern e)
    | .ok p =>
      if p.occursIn text == wanted then .ok []
      else .ok [⟨s!"{v.printed} {complaint} \"{given.text}\"", []⟩]

/-- A text must match the pattern of the option `match` and must not match that of `notMatch`. -/
def pattern : Check := fun v options _ =>
  match v.string? with
  | none => .fine
  | some text =>
    let problems : Except Failure (List Finding) := do
      let first ← patternProblem v text (options.present? "match") true "must match the pattern"
      let second ← patternProblem v text (options.present? "notMatch") false
        "must not match the pattern"
      return first ++ second
    match problems with
    | .ok findings => .answered (some findings)
    | .error failure => .failed failure

end Check
end DocLint
