import DocLint.Text.Likeness
import DocLint.Text.Quoted

/-!
# Wrong usage

What can be wrong with the arguments of a command.
-/
namespace DocLint

/-- What is wrong with the arguments of a command. -/
inductive UsageError where
  /-- There is no such option; some that there are have a like name. -/
  | unknownOption (name : String) (similar : List String)
  | unknownCommand (name : String) (similar : List String)
  /-- Nothing follows an option that takes a value. -/
  | valueMissing (option : String)
  /-- A value is given to an option that takes none. -/
  | valueUnexpected (option : String)
  | commandMissing
  | operandMissing (operand : String)
  | operandsUnexpected (operands : List String)
  /-- The value of an option or an operand is refused. -/
  | valueRefused (subject reason : String)
  deriving DecidableEq

namespace UsageError

/-- The names that may have been meant. -/
def suggestion : List String → String
  | [] => ""
  | [name] => s!" Did you mean {Text.quoted name}?"
  | names =>
    let sorted := names.mergeSort fun a b => a ≤ b
    " (Possible options: " ++ ", ".intercalate (sorted.map Text.quoted) ++ ")"

/-- What is wrong. -/
def message : UsageError → String
  | .unknownOption name similar => s!"No such option {Text.quoted name}." ++ suggestion similar
  | .unknownCommand name similar => s!"No such command {Text.quoted name}." ++ suggestion similar
  | .valueMissing option => s!"Option {Text.quoted option} requires an argument."
  | .valueUnexpected option => s!"Option {Text.quoted option} does not take a value."
  | .commandMissing => "Missing command."
  | .operandMissing operand => s!"Missing argument '{operand}'."
  | .operandsUnexpected [operand] => s!"Got unexpected extra argument ({operand})"
  | .operandsUnexpected operands =>
    "Got unexpected extra arguments (" ++ " ".intercalate operands ++ ")"
  | .valueRefused subject reason => s!"Invalid value for {subject}: {reason}"

end UsageError
end DocLint
