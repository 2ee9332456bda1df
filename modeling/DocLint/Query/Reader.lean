import DocLint.Query.Step

/-!
# Reading path queries

The steps of a query from its tokens. The readers of nested parts carry a bound that the number of
tokens covers.
-/
namespace DocLint.Query

/-- A reader of tokens. -/
abbrev Reader := StateT (List Token) Option

namespace Reader

/-- The next token, which stays. -/
def peek : Reader (Option Token) := do
  return (← get).head?

/-- Takes the next token, which must be there. -/
def next : Reader Token := do
  match ← get with
  | token :: rest =>
    set rest
    return token
  | [] => failure

/-- Takes a token if it is next. -/
def accept (token : Token) : Reader Bool := do
  match ← get with
  | first :: rest =>
    if first = token then
      set rest
      return true
    else return false
  | [] => return false

/-- Takes a token that must be next. -/
def expect (token : Token) : Reader Unit := do
  unless ← accept token do failure

/-- Takes an integer if it is next. -/
def int? : Reader (Option Int) := do
  match ← get with
  | .int i :: rest =>
    set rest
    return some i
  | _ => return none

end Reader

/-- Names that are kept for joining queries and name no keys unless they are quoted. -/
def reservedNames : List String :=
  ["where", "wherenot"]

/-- The text of a token that names a key. -/
def keyOf? : Token → Option String
  | .name text => if reservedNames.contains text then none else some text
  | .quoted text => some text
  | _ => none

/-- Further keys behind commas. The first argument bounds their number. -/
def readKeys : Nat → Reader (List String)
  | 0 => return []
  | bound + 1 => do
    if ← Reader.accept .comma then
      match keyOf? (← Reader.next) with
      | some key => return key :: (← readKeys bound)
      | none => failure
    else return []

/-- Further positions behind commas. The first argument bounds their number. -/
def readPositions : Nat → Reader (List Int)
  | 0 => return []
  | bound + 1 => do
    if ← Reader.accept .comma then
      match ← Reader.next with
      | .int i => return i :: (← readPositions bound)
      | _ => failure
    else return []

/-- The rest of a slice behind its start. -/
def readSlice (start : Option Int) : Reader Step := do
  Reader.expect .colon
  let stop ← Reader.int?
  if ← Reader.accept .colon then return .slice start stop (← Reader.int?)
  return .slice start stop none

/-- The step that an operator names. -/
def operatorStep? : String → Option Step
  | "this" => some .this
  | "parent" => some .parent
  | "len" => some (.computed .length)
  | "keys" => some (.computed .keys)
  | "path" => some (.computed .path)
  | _ => none

/-- The literal that a token stands for in a comparison. -/
def literal? : Token → Option Scalar
  | .int i => some (.int i)
  | .real x => some (.float x)
  | .quoted text => some (.str text)
  | .name "true" => some (.bool true)
  | .name "false" => some (.bool false)
  | .name "null" => some .null
  | _ => none

mutual

/-- A whole query: its first step and those that follow. -/
def readPath : Nat → Reader (List Step)
  | 0 => failure
  | bound + 1 => do
    let first ← readStep bound
    return first ++ (← readSteps bound)

/-- The steps behind a step. -/
def readSteps : Nat → Reader (List Step)
  | 0 => return []
  | bound + 1 => do
    match ← Reader.peek with
    | some .dot =>
      let _ ← Reader.next
      let steps ← readStep bound
      return steps ++ (← readSteps bound)
    | some .dots =>
      let _ ← Reader.next
      let steps ← readStep bound
      return .descend :: steps ++ (← readSteps bound)
    | some .opening =>
      let steps ← readStep bound
      return steps ++ (← readSteps bound)
    | _ => return []

/-- One step, or a query between parentheses. -/
def readStep : Nat → Reader (List Step)
  | 0 => failure
  | bound + 1 => do
    let token ← Reader.next
    match token with
    | .dollar => return [.root]
    | .current => return [.this]
    | .star => return [.any]
    | .int i => return [.names [toString i]]
    | .operator name =>
      match operatorStep? name with
      | some step => return [step]
      | none => failure
    | .openingGroup =>
      let steps ← readPath bound
      Reader.expect .closingGroup
      return steps
    | .opening =>
      let step ← readBracket bound
      Reader.expect .closing
      return [step]
    | token =>
      match keyOf? token with
      | some key => return [.names (key :: (← readKeys bound))]
      | none => failure

/-- What stands between brackets. -/
def readBracket : Nat → Reader Step
  | 0 => failure
  | bound + 1 => do
    match ← Reader.peek with
    | some .star =>
      let _ ← Reader.next
      return .any
    | some .question =>
      let _ ← Reader.next
      return .filter (← readCondition bound)
    | some .colon => readSlice none
    | some (.int i) =>
      let _ ← Reader.next
      match ← Reader.peek with
      | some .colon => readSlice (some i)
      | _ => return .items (i :: (← readPositions bound))
    | _ =>
      match keyOf? (← Reader.next) with
      | some key => return .names (key :: (← readKeys bound))
      | none => failure

/-- Conditions of which one must hold. -/
def readCondition : Nat → Reader Condition
  | 0 => failure
  | bound + 1 => do
    let first ← readConjunction bound
    if ← Reader.accept .either then return .either first (← readCondition bound)
    return first

/-- Conditions that must all hold. -/
def readConjunction : Nat → Reader Condition
  | 0 => failure
  | bound + 1 => do
    let first ← readTerm bound
    if ← Reader.accept .both then return .both first (← readConjunction bound)
    return first

/-- A single condition, one that is negated, or one between parentheses. -/
def readTerm : Nat → Reader Condition
  | 0 => failure
  | bound + 1 => do
    if ← Reader.accept .negation then return .negated (← readTerm bound)
    if ← Reader.accept .openingGroup then
      let condition ← readCondition bound
      Reader.expect .closingGroup
      return condition
    let left ← readOperand bound
    match ← Reader.peek with
    | some (.comparison c) =>
      let _ ← Reader.next
      return .compare c left (← readOperand bound)
    | _ =>
      match left with
      | .query steps => return .found steps
      | .literal _ => failure

/-- One side of a comparison. -/
def readOperand : Nat → Reader Operand
  | 0 => failure
  | bound + 1 => do
    match (← Reader.peek).bind literal? with
    | some s =>
      let _ ← Reader.next
      return .literal s
    | none => return .query (← readPath bound)

end

/-- The steps of a query. -/
def parse? (expression : String) : Option (List Step) := do
  let tokens ← Token.scan? expression
  let (steps, rest) ← (readPath (8 * tokens.length + 8)).run tokens
  if rest.isEmpty then some steps else none

end DocLint.Query
