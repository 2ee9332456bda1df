import DocLint.Run.Ledger

/-!
# The switchboard

Rules outlive runs, and every rule of a shared walk tells one listener of its matches: the one attached
last. The switchboard holds the listeners of all rules and what they lead to: the runs, and a list of
the events that were recorded. It also keeps what was told to whom, whatever came of it.
-/
namespace DocLint

/-- What is told of the matches of a rule. -/
inductive Listener where
  /-- Records the path of the match under a label. -/
  | record (label : String)
  /-- Fails for the given reason. -/
  | refuse (reason : String)
  /-- Lints the node for the run with a number. -/
  | lint (run : Nat)
  deriving DecidableEq, Inhabited

/-- The listeners of rules and what they lead to. -/
structure Switchboard where
  listeners : List (String × Listener)
  events : List (String × Path)
  runs : Array Ledger
  /-- The matches that rules were told of, in order. -/
  told : List (Rule × GivenNode)

namespace Switchboard

/-- A switchboard without listeners. -/
def empty : Switchboard :=
  ⟨[], [], #[], []⟩

/-- Attaches a listener to a rule in place of any other. -/
def attach (b : Switchboard) (rule : String) (listener : Listener) : Switchboard :=
  { b with listeners := (rule, listener) :: b.listeners }

/-- Takes the listener of a rule away. -/
def detach (b : Switchboard) (rule : String) : Switchboard :=
  { b with listeners := b.listeners.filter fun e => e.1 != rule }

/-- Attaches a listener to each of some rules. -/
def attachAll (b : Switchboard) (rules : List Rule) (listener : Listener) : Switchboard :=
  rules.foldl (fun b rule => b.attach rule.name listener) b

/-- Lints a node for a run. -/
def lintFor (b : Switchboard) (run : Nat) (rule : Rule) (node : GivenNode) :
    Switchboard × Option Failure :=
  match b.runs[run]? with
  | none => (b, none)
  | some ledger =>
    let (ledger, failure?) := ledger.lint rule (ledger.locationsOf rule.name) node
    ({ b with runs := b.runs.setIfInBounds run ledger }, failure?)

/-- Tells the listener of a rule of a match. -/
def notify (b : Switchboard) (rule : Rule) (node : GivenNode) : Switchboard × Option Failure :=
  let b := { b with told := b.told ++ [(rule, node)] }
  match b.listeners.lookup rule.name with
  | none => (b, some (.unattached rule.name))
  | some (.record label) => ({ b with events := b.events ++ [(label, node.path)] }, none)
  | some (.refuse reason) => (b, some (.aborted reason))
  | some (.lint run) => b.lintFor run rule node

/-- Passes notices on, one after the other. A failure is noted and the others go on. -/
def deliver : Switchboard → List (Rule × GivenNode) → Switchboard × List LogEntry
  | b, [] => (b, [])
  | b, (rule, node) :: rest =>
    let (b, failure?) := b.notify rule node
    let (b, log) := deliver b rest
    (b, (failure?.map (LogEntry.listenerFailed rule.name node.path)).toList ++ log)

/-- What a walk leaves: the switchboard, the number of nodes met and the log. -/
structure Traversal where
  board : Switchboard
  visited : Nat
  log : List LogEntry

/-- Walks a tree for some rules and tells their listeners of the matches. Without rules there is no
walk. -/
def traverse (b : Switchboard) (tree : Value) (rules : List Rule) : Traversal :=
  if rules.isEmpty then ⟨b, 0, []⟩
  else
    let nodes := Walk.nodes tree (Walk.depthLimit rules)
    let (b, log) := b.deliver (Walk.notices rules nodes)
    ⟨b, nodes.length, log ++ [.traversed nodes.length rules.length]⟩

end Switchboard
end DocLint
