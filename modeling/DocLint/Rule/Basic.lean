import DocLint.Check.Basic
import DocLint.Path.Compile
import DocLint.Severity

/-!
# Rules

A rule says which nodes of a document are to be checked and how. A rule whose expressions all compile
is served by the walk of the tree that all such rules share; any other is evaluated by itself, through
path queries.
-/
namespace DocLint

/-- What is done with a node that a rule selects: a check of the node or of what a field leads to. -/
structure Action where
  function : String
  check : Check
  field : Option String
  options : Option Value

/-- How the nodes of a rule are found. -/
inductive Strategy where
  /-- By the shared walk, which compares the path of every node with the expressions. -/
  | walk (expressions : List CompiledPath)
  /-- By a path query for each expression. -/
  | query

/-- A rule. -/
structure Rule where
  name : String
  given : List String
  actions : List Action
  description : String
  message : Option String
  severity : Severity
  enabled : Bool
  /-- The formats of the documents that the rule is for; none means all. -/
  formats : List Format
  resolved : Bool
  documentationUrl : Option String
  strategy : Strategy

namespace Rule

/-- The compiled expressions of a rule that the shared walk serves. -/
def expressions (r : Rule) : List CompiledPath :=
  match r.strategy with
  | .walk expressions => expressions
  | .query => []

/-- Whether the shared walk serves a rule. -/
def isPrecompiled (r : Rule) : Bool :=
  match r.strategy with
  | .walk _ => true
  | .query => false

/-- Whether an expression of a rule selects a path. -/
def «matches» (r : Rule) (path : Path) : Bool :=
  r.expressions.any (·.matches path)

/-- Whether a rule is for documents of the given formats. -/
def matchesFormat (r : Rule) (formats : List String) : Bool :=
  r.formats.isEmpty || r.formats.any fun f => formats.contains f.name

/-- Whether a rule takes part in a run on documents of the given formats. -/
def isAdmitted (r : Rule) (formats : List String) : Bool :=
  r.enabled && r.matchesFormat formats

/-- The rule with its expressions compiled, if all of them compile. -/
def compile (r : Rule) : Rule :=
  match r.given.mapM CompiledPath.ofExpression? with
  | some expressions => { r with strategy := .walk expressions }
  | none => { r with strategy := .query }

/-- The rule with its nodes found by queries. -/
def toPlain (r : Rule) : Rule :=
  { r with strategy := .query }

/-- A rule with a name and expressions, and the settings of a rule that leaves them out. -/
def standard (name : String) (given : List String) : Rule :=
  { name, given
    actions := []
    description := ""
    message := none
    severity := .warning
    enabled := true
    formats := []
    resolved := true
    documentationUrl := none
    strategy := .query }

end Rule

/-- The rules that take part in a run, by how their nodes are found. -/
structure RuleBuckets where
  /-- Rules of the shared walk of the resolved tree. -/
  resolved : List Rule
  /-- Rules of the shared walk of the tree as it was written. -/
  unresolved : List Rule
  plain : List Rule

namespace RuleBuckets

/-- The rules that take part in a run on documents of the given formats. -/
def select (rules : List Rule) (formats : List String) : RuleBuckets :=
  let admitted := rules.filter (·.isAdmitted formats)
  { resolved := admitted.filter fun r => r.isPrecompiled && r.resolved
    unresolved := admitted.filter fun r => r.isPrecompiled && !r.resolved
    plain := admitted.filter fun r => !r.isPrecompiled }

/-- The rules of the shared walks. -/
def precompiled (b : RuleBuckets) : List Rule :=
  b.resolved ++ b.unresolved

/-- The number of rules. -/
def size (b : RuleBuckets) : Nat :=
  b.resolved.length + b.unresolved.length + b.plain.length

end RuleBuckets
end DocLint
