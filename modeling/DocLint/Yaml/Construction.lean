import DocLint.Number.Decimal
import DocLint.Number.Integer
import DocLint.Text.Base64
import DocLint.Value.Graph
import DocLint.Yaml.Node.Reader

/-!
# Values of YAML nodes

The value that a node graph stands for. A node used in several places becomes one container used in
several places. Containers are entered when they are met and filled in the order in which they were
entered, so that a node inside itself becomes a container inside itself. The special key `<<` puts
the entries of other mappings in front of a mapping's own ones.
-/
namespace DocLint.Yaml

/-- The kinds of values that are filled after they were entered. -/
inductive Filling where
  | list
  | mapping
  | set
  | pairs
  deriving DecidableEq

/-- The state of building values: the nodes, which merging changes, the value of every node that was
met, the containers, and those to be filled, the last one entered first. -/
structure Builder where
  items : Array Item
  built : List (Nat × Node)
  containers : Array Container
  waiting : List (Nat × Nat × Filling)

/-- A step of building values. -/
abbrev Build := StateT Builder (Except YamlError)

namespace Build

/-- A node by its number. -/
def item (id : Nat) : Build Item := do
  match (← get).items[id]? with
  | some item => return item
  | none => throw .malformed

/-! ## Scalars -/

/-- The text of a scalar, or of the value under the key `=` of a mapping. Going from mapping to mapping in
this way ends after as many steps as there are nodes, or never. -/
def scalarText : Nat → Nat → Build String
  | 0, _ => throw .endless
  | fuel + 1, id => do
    match (← item id).content with
    | .scalar text => return text
    | .sequence _ => throw .malformed
    | .mapping entries =>
      let named ← entries.findM? fun e => return (← item e.1).tag == Schema.standard "value"
      match named with
      | some e => scalarText fuel e.2
      | none => throw .malformed

/-- Characters without underscores. -/
def withoutGaps (s : String) : List Char :=
  s.toList.filter (· != '_')

/-- The sign in front of characters that are not empty, and the rest. -/
def signed (cs : List Char) : Except YamlError (Bool × List Char) :=
  match cs with
  | [] => .error .emptyNumber
  | '-' :: rest => .ok (true, rest)
  | '+' :: rest => .ok (false, rest)
  | cs => .ok (false, cs)

/-- The integer that some characters write in a base. -/
def integerIn (base : Nat) (cs : List Char) : Except YamlError Int :=
  let shown := String.ofList cs
  match if base = 10 then Number.beyondLimit? shown else none with
  | some count => .error (.tooManyDigits count)
  | none =>
    match Number.readInteger? base shown with
    | some i => .ok i
    | none => .error (.notInteger base shown)

/-- The value of an integer. -/
def integer (s : String) : Except YamlError Int := do
  let (negative, cs) ← signed (withoutGaps s)
  let size ← match cs with
    | [] => .error .emptyNumber
    | '0' :: 'b' :: rest => integerIn 2 rest
    | '0' :: 'x' :: rest => integerIn 16 rest
    | ['0'] => .ok 0
    | '0' :: rest => integerIn 8 ('0' :: rest)
    | cs =>
      if cs.contains ':' then do
        let parts ← (Schema.splitColons cs).mapM (integerIn 10)
        pure (parts.foldl (fun total part => total * 60 + part) 0)
      else integerIn 10 cs
  return if negative then -size else size

/-- The floating-point number that some characters write. -/
def floatOf (cs : List Char) : Except YamlError Binary64 :=
  let shown := String.ofList cs
  match Binary64.ofText? 0 shown with
  | some x => .ok x
  | none => .error (.notNumber shown)

/-- The sum of parts below sixty, the last one counting once and every other sixty times as often as
the next. How often a part counts is rounded as well, and must not be beyond the numbers. -/
def sexagesimal (parts : List Binary64) : Except YamlError Binary64 := do
  let (sum, _) ← parts.reverse.foldlM (fun (sum, times) part =>
    match Binary64.nearestNat? times with
    | some weight => .ok (sum.add (part.scale weight), times * 60)
    | none => .error .beyondNumbers) (Binary64.zero false, 1)
  return sum

/-- The value of a floating-point number. -/
def float (s : String) : Except YamlError Binary64 := do
  let (negative, cs) ← signed ((withoutGaps s).map Char.toLower)
  let size ←
    if cs == ".inf".toList then .ok (.infinite false)
    else if cs == ".nan".toList then .ok (.nan 0)
    else if cs.contains ':' then do
      let parts ← (Schema.splitColons cs).mapM floatOf
      sexagesimal parts
    else floatOf cs
  return if negative then size.neg else size

/-- A calendar error as an error of the text. -/
def ofCalendar {α : Type} (r : Except CalendarError α) : Except YamlError α :=
  r.mapError .calendar

/-- The number that digits write. -/
def digitsNat (cs : List Char) : Nat :=
  (Text.decimalNat? cs).getD 0

/-- The first six digits of a fraction as microseconds. -/
def microseconds (fraction : List Char) : Nat :=
  let digits := fraction.take 6
  digitsNat (digits ++ List.replicate (6 - digits.length) '0')

/-- The value of a date or time. One line feed behind it is overlooked. -/
def time (s : String) : Except YamlError Scalar := do
  match Schema.time? (Text.withoutFinalNewline s.toList) with
  | none => .error .notTimestamp
  | some t =>
    let date := Date.of? (digitsNat t.year) (digitsNat t.month) (digitsNat t.day)
    match t.clock with
    | none => return .date (← ofCalendar date)
    | some clock =>
      let offset ← match clock.zone with
        | none => pure none
        | some .utc => pure (some 0)
        | some (.offset negative hours minutes) =>
          let size : Int := digitsNat hours * 60 + digitsNat minutes
          some <$> ofCalendar (DateTime.checkOffset (if negative then -size else size))
      let date ← ofCalendar date
      return .datetime (← ofCalendar (DateTime.of? date (digitsNat clock.hour)
        (digitsNat clock.minute) (digitsNat clock.second) (microseconds clock.fraction) offset))

/-- The truth value of a word. -/
def truth (s : String) : Except YamlError Bool :=
  let word := String.ofList (s.toList.map Char.toLower)
  if ["yes", "true", "on"].contains word then .ok true
  else if ["no", "false", "off"].contains word then .ok false
  else .error .notTruthValue

/-- The bytes that a text writes. -/
def binary (s : String) : Except YamlError (List UInt8) :=
  if s.toList.all fun c => c.toNat < 0x80 then
    match Text.Base64.decode? s with
    | some bytes => .ok bytes
    | none => .error .malformed
  else .error .malformed

/-- The scalar that a text stands for under a tag; nothing when the tag is not one of a scalar. -/
def scalarOf? (tag : String) : Option (String → Except YamlError Scalar) :=
  if tag == Schema.standard "null" then some fun _ => .ok .null
  else if tag == Schema.standard "bool" then some fun s => do return .bool (← truth s)
  else if tag == Schema.standard "int" then some fun s => do return .int (← integer s)
  else if tag == Schema.standard "float" then some fun s => do return .float (← float s)
  else if tag == Schema.standard "binary" then some fun s => do return .bytes (← binary s)
  else if tag == Schema.standard "timestamp" then some time
  else if tag == Schema.standard "str" then some fun s => .ok (.str s)
  else none

/-- The kind of container of a tag. -/
def filling? (tag : String) : Option Filling :=
  if tag == Schema.standard "seq" then some .list
  else if tag == Schema.standard "map" then some .mapping
  else if tag == Schema.standard "set" then some .set
  else if tag == Schema.standard "omap" || tag == Schema.standard "pairs" then some .pairs
  else none

/-! ## Containers -/

/-- Enters a container. -/
def enter (c : Container) : Build Nat := do
  let b ← get
  set { b with containers := b.containers.push c }
  return b.containers.size

/-- Sets the parts of a container. -/
def fill (container : Nat) (c : Container) : Build Unit :=
  modify fun b => { b with containers := b.containers.setIfInBounds container c }

/-- The empty container of a kind. -/
def emptyContainer : Filling → Container
  | .list => .list []
  | .mapping => .mapping []
  | .set => .set []
  | .pairs => .list []

/-- A time is read off the node itself, so it cannot be that of a mapping under `=`. -/
def checkText (item : Item) : Build Unit :=
  match item.content with
  | .scalar _ => return ()
  | _ => if item.tag == Schema.standard "timestamp" then throw .notText else return ()

/-- The value of a node. Containers are left empty until it is their turn. -/
def value (fuel id : Nat) : Build Node := do
  match (← get).built.lookup id with
  | some node => return node
  | none =>
    let found ← item id
    let node ← match scalarOf? found.tag, filling? found.tag with
      | some read, _ => do
        let text ← scalarText fuel id
        checkText found
        pure (Node.scalar (← read text))
      | none, some filling => do
        let container ← enter (emptyContainer filling)
        modify fun b => { b with waiting := (id, container, filling) :: b.waiting }
        pure (.container container)
      | none, none => throw .malformed
    modify fun b => { b with built := (id, node) :: b.built }
    return node

/-- Changes the entries of a mapping. -/
def setEntries (id : Nat) (entries : List (Nat × Nat)) : Build Unit :=
  modify fun b =>
    { b with items := b.items.modify id fun item => { item with content := .mapping entries } }

/-- The entries of a mapping. -/
def entriesOf (id : Nat) : Build (List (Nat × Nat)) := do
  match (← item id).content with
  | .mapping entries => return entries
  | _ => throw .malformed

/-- Goes through entries up to one under the special key `<<`. On the way, `=` becomes a text. The answer
is the position of that entry, the first one being at the given position, and its value. -/
def nextMerge : Nat → List (Nat × Nat) → Build (Option (Nat × Nat))
  | _, [] => return none
  | position, (key, source) :: rest => do
    let tag := (← item key).tag
    if tag == Schema.standard "merge" then return some (position, source)
    else
      if tag == Schema.standard "value" then
        modify fun b =>
          { b with
            items := b.items.modify key fun item => { item with tag := Schema.standard "str" } }
      nextMerge (position + 1) rest

/-- Replaces the special keys of a mapping: under `<<`, the entries of the mappings that are its value
come in front, and `=` becomes a text. The first argument bounds the entries under `<<` that are taken
away on the way. -/
def merge : Nat → Nat → Build Unit
  | 0, _ => throw .malformed
  | fuel + 1, id => do
    let merged ← loop fuel id 0 []
    if !merged.isEmpty then setEntries id (merged ++ (← entriesOf id))
where
  /-- Goes through the entries from a position on, with the entries to be put in front so far. -/
  loop : Nat → Nat → Nat → List (Nat × Nat) → Build (List (Nat × Nat))
    | 0, _, _, _ => throw .malformed
    | fuel + 1, id, position, merged => do
      match ← nextMerge position ((← entriesOf id).drop position) with
      | none => return merged
      | some (position, source) =>
        setEntries id ((← entriesOf id).eraseIdx position)
        let more ← match (← item source).content with
          | .mapping _ => do
            merge fuel source
            entriesOf source
          | .sequence sources => do
            let lists ← sources.mapM fun part => do
              match (← item part).content with
              | .mapping _ => do
                merge fuel part
                entriesOf part
              | _ => throw .malformed
            pure lists.reverse.flatten
          | .scalar _ => throw .malformed
        loop fuel id position (merged ++ more)

/-- Entries with one more; an entry under the same key is replaced in its place. -/
def insertEntry (entries : List (Scalar × Node)) (key : Scalar) (node : Node) :
    List (Scalar × Node) :=
  if entries.any fun e => e.1.same key then
    entries.map fun e => if e.1.same key then (e.1, node) else e
  else entries ++ [(key, node)]

/-- The entries of a mapping as values. Only scalars can be keys. -/
def mappingEntries (fuel id : Nat) : Build (List (Scalar × Node)) := do
  let _ ← entriesOf id
  merge fuel id
  (← entriesOf id).foldlM (fun read (keyId, valueId) => do
    match ← value fuel keyId with
    | .scalar key => return insertEntry read key (← value fuel valueId)
    | .container _ => throw .malformed) []

/-- The items of a list of pairs: every item is a mapping with one entry. -/
def pairItems (fuel id : Nat) : Build (List Node) := do
  match (← item id).content with
  | .sequence parts =>
    parts.mapM fun part => do
      match (← item part).content with
      | .mapping [(keyId, valueId)] =>
        let key ← value fuel keyId
        let node ← value fuel valueId
        return .container (← enter (.tuple [key, node]))
      | _ => throw .malformed
  | _ => throw .malformed

/-- Fills a container from its node. -/
def fillFrom (fuel id container : Nat) : Filling → Build Unit
  | .list => do
    match (← item id).content with
    | .sequence parts => fill container (.list (← parts.mapM (value fuel)))
    | _ => throw .malformed
  | .mapping => do fill container (.mapping (← mappingEntries fuel id))
  | .set => do fill container (.set ((← mappingEntries fuel id).map (·.1)))
  | .pairs => do fill container (.list (← pairItems fuel id))

/-- Fills all containers that wait, in the order in which they were entered. -/
def fillAll (fuel : Nat) : Nat → Build Unit
  | 0 => do
    if (← get).waiting.isEmpty then return () else throw .malformed
  | rounds + 1 => do
    let waiting := (← get).waiting.reverse
    if waiting.isEmpty then return ()
    else
      modify fun b => { b with waiting := [] }
      waiting.forM fun (id, container, filling) => fillFrom fuel id container filling
      fillAll fuel rounds

end Build

namespace NodeGraph

/-- A bound for the nested steps on the nodes and the entries of a document: each goes to another node or
takes an entry away. -/
def entryBound (g : NodeGraph) : Nat :=
  (g.items.toList.map fun item =>
    match item.content with
    | .mapping entries => entries.length + 2
    | _ => 2).foldr (· + ·) 0 * 2 + 2

/-- The value of a document; without a root it is null. -/
def toValue (g : NodeGraph) : Except YamlError Value :=
  match g.root with
  | none => .ok (Value.ofScalar .null)
  | some root => do
    let build : Build Node := do
      let node ← Build.value g.entryBound root
      Build.fillAll g.entryBound (g.items.size + 1)
      return node
    let (node, b) ← build.run ⟨g.items, [], #[], []⟩
    return ⟨⟨b.containers⟩, node⟩

end NodeGraph

/-- The value of the one document of a text. -/
def load (s : String) : Except YamlError Value := do
  (← NodeGraph.ofText? s).toValue

end DocLint.Yaml
