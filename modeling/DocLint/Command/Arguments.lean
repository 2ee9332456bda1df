import DocLint.Command.Usage

/-!
# Arguments of a command

The arguments of a command, sorted into options and operands. An option goes by a long name or, joined
with others behind one dash, by a character. Two dashes alone end the options.
-/
namespace DocLint

/-- An option that a command knows. -/
structure OptionName (κ : Type) where
  key : κ
  long : String
  short : Option Char
  takesValue : Bool

/-- The arguments of a command: the options with their values and the operands, both in the order in
which they are given. An option that takes no value has an empty one. -/
structure Arguments (κ : Type) where
  options : List (κ × String)
  operands : List String

namespace Arguments

variable {κ : Type} [BEq κ]

/-- Whether an option is given. -/
def has (a : Arguments κ) (key : κ) : Bool :=
  a.options.any fun o => o.1 == key

/-- The options that are given, each once with the value given last. -/
def values (a : Arguments κ) : List (κ × String) :=
  (a.options.map Prod.fst).eraseDups.filterMap fun key =>
    (a.options.reverse.lookup key).map fun value => (key, value)

/-- Options that have been read from the start of some arguments, and the arguments that are left. -/
structure Reading (κ : Type) (arguments : List String) where
  options : List (κ × String)
  rest : List String
  length_le : rest.length ≤ arguments.length

/-- Reads the value of an option from the arguments behind it. -/
def readValue (key : κ) (name : String) :
    (behind : List String) → Except UsageError (Reading κ behind)
  | [] => .error (.valueMissing name)
  | value :: rest => .ok ⟨[(key, value)], rest, Nat.le_succ _⟩

/-- Reads options that are joined behind one dash. What follows an option that takes a value is its
value. -/
def readShort (known : List (OptionName κ)) (behind : List String) :
    List Char → Except UsageError (Reading κ behind)
  | [] => .ok ⟨[], behind, Nat.le_refl _⟩
  | c :: more =>
    let name := String.ofList ['-', c]
    match known.find? fun o => o.short == some c with
    | none => .error (.unknownOption name [])
    | some o =>
      if !o.takesValue then do
        let reading ← readShort known behind more
        return { reading with options := (o.key, "") :: reading.options }
      else if more.isEmpty then readValue o.key name behind
      else .ok ⟨[(o.key, String.ofList more)], behind, Nat.le_refl _⟩

/-- Reads an argument that starts with a dash, given the arguments behind it. -/
def readOption (known : List (OptionName κ)) (argument : String) (behind : List String) :
    Except UsageError (Reading κ behind) :=
  let (name, attached) := argument.toList.span (· != '=')
  let name := String.ofList name
  match known.find? fun o => o.long == name with
  | some o =>
    match o.takesValue, attached with
    | true, [] => readValue o.key name behind
    | true, _ :: value => .ok ⟨[(o.key, String.ofList value)], behind, Nat.le_refl _⟩
    | false, [] => .ok ⟨[(o.key, "")], behind, Nat.le_refl _⟩
    | false, _ :: _ => .error (.valueUnexpected name)
  | none =>
    if argument.startsWith "--" then
      .error (.unknownOption name (Text.namesLike name (known.map OptionName.long)))
    else readShort known behind (argument.toList.drop 1)

/-- Whether an argument is an option and no operand. -/
def isOption (argument : String) : Bool :=
  argument.startsWith "-" && argument != "-"

/-- Sorts arguments into options and operands. Options may stand among the operands when `mixed`
holds; otherwise all arguments from the first operand on are operands. -/
def read (known : List (OptionName κ)) (mixed : Bool) :
    List String → Except UsageError (Arguments κ)
  | [] => .ok ⟨[], []⟩
  | argument :: behind =>
    if argument == "--" then .ok ⟨[], behind⟩
    else if isOption argument then do
      let reading ← readOption known argument behind
      let more ← read known mixed reading.rest
      return ⟨reading.options ++ more.options, more.operands⟩
    else if mixed then do
      let more ← read known mixed behind
      return { more with operands := argument :: more.operands }
    else .ok ⟨[], argument :: behind⟩
termination_by arguments => arguments.length
decreasing_by
  · exact Nat.lt_succ_of_le reading.length_le
  · exact Nat.lt_succ_self _

end Arguments
end DocLint
