import DocLint.Yaml.Node
import DocLint.Yaml.Schema
import DocLint.Yaml.Token.Lexer

/-!
# Reading nodes from tokens

The nodes of the one document of a text. A collection is entered before its parts are read, so that an
alias among them may refer to it. An empty place reads as an empty plain scalar.
-/
namespace DocLint.Yaml

/-- The state of reading nodes: the tokens that are left, the fault behind them, the nodes that were
entered, the nodes with a name and what the handles of tags stand for. -/
structure Reader where
  tokens : List Token
  fault : Option YamlError
  items : Array Item
  anchors : List (String × Nat)
  handles : List (String × String)

/-- A step of reading nodes. -/
abbrev Read := StateT Reader (Except YamlError)

namespace Read

/-- The handles that every document knows. -/
def standardHandles : List (String × String) :=
  [("!", "!"), ("!!", Schema.standard "")]

/-- The next token. -/
def peek : Read Token := do
  match (← get) with
  | ⟨token :: _, _, _, _, _⟩ => return token
  | ⟨[], fault, _, _, _⟩ => throw (fault.getD .malformed)

/-- The next token, which is consumed. -/
def next : Read Token := do
  let token ← peek
  modify fun r => { r with tokens := r.tokens.tail }
  return token

/-- Whether the next token is of one of some kinds. -/
def atKind (kinds : List TokenKind) : Read Bool := do
  return kinds.contains (← peek).kind

/-- Enters a node, under a name if it has one. A name is given once only. -/
def enter (anchor : Option String) (item : Item) : Read Nat := do
  let r ← get
  let id := r.items.size
  match anchor with
  | none => set { r with items := r.items.push item }
  | some name => set { r with items := r.items.push item, anchors := (name, id) :: r.anchors }
  return id

/-- A name must be new. -/
def checkAnchor : Option String → Read Unit
  | none => pure ()
  | some name => do
    if ((← get).anchors.lookup name).isSome then throw .malformed

/-- Completes a collection that was entered before its parts. -/
def complete (id : Nat) (item : Item) : Read Unit :=
  modify fun r => { r with items := r.items.setIfInBounds id item }

/-- Enters an empty plain scalar at a place. -/
def emptyScalar (place : Position) : Read Nat :=
  enter none ⟨Schema.plainTag "", .scalar "", ⟨place, place⟩⟩

/-- The full tag that a handle and suffix stand for. -/
def expandTag : Option String → String → Read String
  | none, suffix => return suffix
  | some handle, suffix => do
    match (← get).handles.lookup handle with
    | some expansion => return expansion ++ suffix
    | none => throw .malformed

/-- The anchor and the tag in front of a node, in either order, with the place where they start and
end. -/
def properties : Read (Option String × Option String × Option Range) := do
  let readAnchor : Read (Option (String × Range)) := do
    let token ← peek
    match token.kind with
    | .anchor name => let _ ← next; return some (name, ⟨token.start, token.stop⟩)
    | _ => return none
  let readTag : Read (Option (String × Range)) := do
    let token ← peek
    match token.kind with
    | .tag handle suffix =>
      let _ ← next
      return some (← expandTag handle suffix, ⟨token.start, token.stop⟩)
    | _ => return none
  match ← readAnchor with
  | some (name, at₁) =>
    match ← readTag with
    | some (tag, at₂) => return (some name, some tag, some ⟨at₁.start, at₂.stop⟩)
    | none => return (some name, none, some at₁)
  | none =>
    match ← readTag with
    | some (tag, at₁) =>
      match ← readAnchor with
      | some (name, at₂) => return (some name, some tag, some ⟨at₁.start, at₂.stop⟩)
      | none => return (none, some tag, some at₁)
    | none => return (none, none, none)

/-- The tag of a collection. -/
def collectionTag (tag : Option String) (name : String) : String :=
  match tag with
  | none => Schema.standard name
  | some "!" => Schema.standard name
  | some tag => tag

/-- The tag of a scalar: its own, or the one that its form has when it is plain or its tag is
`!`. -/
def scalarTag (tag : Option String) (plain : Bool) (text : String) : String :=
  match tag with
  | none => if plain then Schema.plainTag text else Schema.standard "str"
  | some "!" => Schema.plainTag text
  | some tag => tag

mutual

/-- A node. In a block, collections may be indented; a sequence that is not may be the value of a
key. -/
def node : Nat → Bool → Bool → Read Nat
  | 0, _, _ => throw .malformed
  | fuel + 1, block, indentless => do
    let token ← peek
    match token.kind with
    | .alias name =>
      let _ ← next
      match (← get).anchors.lookup name with
      | some id => return id
      | none => throw .malformed
    | _ =>
      let (anchor, tag, range) ← properties
      let token ← peek
      let start := (range.map (·.start)).getD token.start
      let collection (name : String) (parts : Read (Content × Position)) : Read Nat := do
        checkAnchor anchor
        let id ← enter anchor ⟨collectionTag tag name, .scalar "", ⟨start, start⟩⟩
        let (content, stop) ← parts
        complete id ⟨collectionTag tag name, content, ⟨start, stop⟩⟩
        return id
      match token.kind with
      | .scalar text plain =>
        let _ ← next
        checkAnchor anchor
        enter anchor ⟨scalarTag tag plain text, .scalar text, ⟨start, token.stop⟩⟩
      | .flowSequenceStart =>
        collection "seq" do
          let _ ← next
          let (parts, stop) ← flowSequence fuel true
          return (.sequence parts, stop)
      | .flowMappingStart =>
        collection "map" do
          let _ ← next
          let (entries, stop) ← flowMapping fuel true
          return (.mapping entries, stop)
      | kind =>
        if indentless && kind == .blockEntry then
          collection "seq" do
            let (parts, stop) ← indentlessSequence fuel
            return (.sequence parts, stop)
        else if block && kind == .blockSequenceStart then
          collection "seq" do
            let _ ← next
            let (parts, stop) ← blockSequence fuel
            return (.sequence parts, stop)
        else if block && kind == .blockMappingStart then
          collection "map" do
            let _ ← next
            let (entries, stop) ← blockMapping fuel
            return (.mapping entries, stop)
        else
          match range with
          | some r =>
            checkAnchor anchor
            enter anchor ⟨scalarTag tag (tag == none) "", .scalar "", r⟩
          | none => throw .malformed

/-- A node, or an empty scalar when the next token is of one of some kinds. -/
def nodeUnless : Nat → List TokenKind → Position → Bool → Bool → Read Nat
  | 0, _, _, _, _ => throw .malformed
  | fuel + 1, kinds, place, block, indentless => do
    if ← atKind kinds then emptyScalar place else node fuel block indentless

/-- The entries of an indented sequence and its end. -/
def blockSequence : Nat → Read (List Nat × Position)
  | 0 => throw .malformed
  | fuel + 1 => do
    let token ← next
    match token.kind with
    | .blockEntry =>
      let part ← nodeUnless fuel [.blockEntry, .blockEnd] token.stop true false
      let (parts, stop) ← blockSequence fuel
      return (part :: parts, stop)
    | .blockEnd => return ([], token.stop)
    | _ => throw .malformed

/-- The entries of a sequence without indentation of its own, and the start of what follows. -/
def indentlessSequence : Nat → Read (List Nat × Position)
  | 0 => throw .malformed
  | fuel + 1 => do
    let token ← peek
    match token.kind with
    | .blockEntry =>
      let _ ← next
      let part ← nodeUnless fuel [.blockEntry, .key, .value, .blockEnd] token.stop true false
      let (parts, stop) ← indentlessSequence fuel
      return (part :: parts, stop)
    | _ => return ([], token.start)

/-- The entries of an indented mapping and its end. -/
def blockMapping : Nat → Read (List (Nat × Nat) × Position)
  | 0 => throw .malformed
  | fuel + 1 => do
    let token ← peek
    match token.kind with
    | .key =>
      let _ ← next
      let key ← nodeUnless fuel [.key, .value, .blockEnd] token.stop true true
      let value ← blockValue fuel
      let (entries, stop) ← blockMapping fuel
      return ((key, value) :: entries, stop)
    | .blockEnd =>
      let _ ← next
      return ([], token.stop)
    | _ => throw .malformed

/-- The value behind a key of an indented mapping. -/
def blockValue : Nat → Read Nat
  | 0 => throw .malformed
  | fuel + 1 => do
    let token ← peek
    match token.kind with
    | .value =>
      let _ ← next
      nodeUnless fuel [.key, .value, .blockEnd] token.stop true true
    | _ => emptyScalar token.start

/-- The entries of a sequence in brackets and its end. -/
def flowSequence : Nat → Bool → Read (List Nat × Position)
  | 0, _ => throw .malformed
  | fuel + 1, first => do
    let token ← peek
    match token.kind with
    | .flowSequenceEnd =>
      let _ ← next
      return ([], token.stop)
    | _ =>
      if !first then
        if (← next).kind != .flowEntry then throw .malformed
      let token ← peek
      match token.kind with
      | .flowSequenceEnd =>
        let _ ← next
        return ([], token.stop)
      | .key =>
        let id ← enter none ⟨Schema.standard "map", .scalar "", ⟨token.start, token.start⟩⟩
        let _ ← next
        let key ← nodeUnless fuel [.value, .flowEntry, .flowSequenceEnd] token.stop false false
        let value ← flowValue fuel .flowSequenceEnd
        let stop := (← peek).start
        complete id ⟨Schema.standard "map", .mapping [(key, value)], ⟨token.start, stop⟩⟩
        let (parts, stop) ← flowSequence fuel false
        return (id :: parts, stop)
      | _ =>
        let part ← node fuel false false
        let (parts, stop) ← flowSequence fuel false
        return (part :: parts, stop)

/-- The value behind a key in brackets that are closed by the given token. -/
def flowValue : Nat → TokenKind → Read Nat
  | 0, _ => throw .malformed
  | fuel + 1, closing => do
    let token ← peek
    match token.kind with
    | .value =>
      let _ ← next
      nodeUnless fuel [.flowEntry, closing] token.stop false false
    | _ => emptyScalar token.start

/-- The entries of a mapping in brackets and its end. -/
def flowMapping : Nat → Bool → Read (List (Nat × Nat) × Position)
  | 0, _ => throw .malformed
  | fuel + 1, first => do
    let token ← peek
    match token.kind with
    | .flowMappingEnd =>
      let _ ← next
      return ([], token.stop)
    | _ =>
      if !first then
        if (← next).kind != .flowEntry then throw .malformed
      let token ← peek
      match token.kind with
      | .flowMappingEnd =>
        let _ ← next
        return ([], token.stop)
      | .key =>
        let _ ← next
        let key ← nodeUnless fuel [.value, .flowEntry, .flowMappingEnd] token.stop false false
        let value ← flowValue fuel .flowMappingEnd
        let (entries, stop) ← flowMapping fuel false
        return ((key, value) :: entries, stop)
      | _ =>
        let key ← node fuel false false
        let value ← emptyScalar (← peek).start
        let (entries, stop) ← flowMapping fuel false
        return ((key, value) :: entries, stop)

end

/-- The directives in front of a document: at most one version, which must be of the first edition,
and handles that are all different. -/
def directives : Nat → Bool → Read Unit
  | 0, _ => throw .malformed
  | fuel + 1, versioned => do
    match (← peek).kind with
    | .directive d =>
      let _ ← next
      match d with
      | .version major _ =>
        if versioned || major != 1 then throw .malformed
        directives fuel true
      | .tag handle expansion =>
        if ((← get).handles.lookup handle).isSome then throw .malformed
        modify fun r => { r with handles := (handle, expansion) :: r.handles }
        directives fuel versioned
      | .other => directives fuel versioned
    | _ => return ()

/-- Moves over the marks that end a document. -/
def skipDocumentEnds : Nat → Read Unit
  | 0 => throw .malformed
  | fuel + 1 => do
    if ← atKind [.documentEnd] then
      let _ ← next
      skipDocumentEnds fuel

/-- The document of a text, which must be its only one; an empty text has none. -/
def document (fuel : Nat) : Read (Option Nat) := do
  let root ← do
    if ← atKind [.streamEnd] then pure none
    else if ← atKind [.documentStart] then explicit
    else
      match (← peek).kind with
      | .directive _ => explicit
      | _ =>
        modify fun r => { r with handles := standardHandles }
        some <$> node fuel true false
  skipDocumentEnds fuel
  if ← atKind [.streamEnd] then return root else throw .malformed
where
  /-- A document behind its directives and its start mark. -/
  explicit : Read (Option Nat) := do
    directives fuel false
    modify fun r => { r with handles := r.handles ++ standardHandles }
    if (← next).kind != .documentStart then throw .malformed
    let token ← peek
    match token.kind with
    | .directive _ => some <$> emptyScalar token.start
    | kind =>
      if [.documentStart, .documentEnd, .streamEnd].contains kind then
        some <$> emptyScalar token.start
      else some <$> node fuel true false

end Read

/-- The nodes of the one document of a text. -/
def NodeGraph.ofText? (s : String) : Except YamlError NodeGraph := do
  let (tokens, fault) := Token.scan s
  let reader : Reader := ⟨tokens.toList, fault, #[], [], []⟩
  let (root, reader) ← (Read.document (3 * tokens.size + 3)).run reader
  return ⟨reader.items, root⟩

end DocLint.Yaml
