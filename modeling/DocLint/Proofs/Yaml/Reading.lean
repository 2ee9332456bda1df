import DocLint.Proofs.Yaml.Scanning
import DocLint.Yaml.Node.Reader

/-!
# Faults of reading nodes

Reading nodes from tokens fails for the fault behind them, or because they are none of a document, which is a fault of
the structure. In a text without tags (`Token.isTag`) the nodes have the tags that their forms
give them (`Item.IsPlain`). Both hold in every state on the way (`Reader.Fair`), and so of the nodes of a text
(`NodeGraph.ofText?_settles`).
-/
namespace DocLint.Yaml

/-- Whether a token gives a node a tag of its own. -/
def Token.isTag (t : Token) : Bool :=
  match t.kind with
  | .tag _ _ => true
  | _ => false

/-- Whether a node has a tag that comes from its form: a collection the one of its kind, and a scalar the one
of a plain scalar or of a text. A collection that is not complete shows as a scalar. -/
def Item.IsPlain (item : Item) : Prop :=
  match item.content with
  | .scalar text =>
    item.tag = Schema.plainTag text ∧ text.toList.getLast? ≠ some '\n' ∨ item.tag = Schema.standard "str" ∨
      item.tag = Schema.standard "seq" ∨ item.tag = Schema.standard "map"
  | .sequence _ => item.tag = Schema.standard "seq"
  | .mapping _ => item.tag = Schema.standard "map"

/-- The fault behind the tokens is one of some errors, and no plain scalar has a line end behind it. If there are no
tags, the nodes have those of their forms. -/
structure Reader.Fair (F : Faults) (untagged : Prop) (r : Reader) : Prop where
  fault : ∀ e ∈ r.fault, F.Has e
  tokens : ∀ t ∈ r.tokens, t.EndsInLine ∧ (untagged → t.isTag = false)
  items : untagged → ∀ item ∈ r.items, item.IsPlain

namespace Read
variable {F : Faults} {untagged : Prop}

/-- A step of reading fails with one of some errors and leaves the state as it should be. -/
abbrev Fine {α : Type} (F : Faults) (untagged : Prop) (step : Read α) : Prop :=
  Keeps F (Reader.Fair F untagged) (fun _ => True) step

theorem peek_fine :
    Keeps F (Reader.Fair F untagged) (fun t => t.EndsInLine ∧ (untagged → t.isTag = false)) peek := by
  rintro ⟨tokens, fault, items, anchors, handles⟩ fair
  cases tokens with
  | nil =>
    cases fault with
    | none => exact .malformed
    | some e => exact .failed (fair.fault e rfl)
  | cons token rest => exact .ok ⟨fair.tokens token List.mem_cons_self, fair⟩

theorem next_fine :
    Keeps F (Reader.Fair F untagged) (fun t => t.EndsInLine ∧ (untagged → t.isTag = false)) next := by
  refine peek_fine.bind fun token known => ?_
  refine (Keeps.modify fun r fair => ?_).bind fun _ _ => .pure known
  exact ⟨fair.fault, fun t member => fair.tokens t (List.mem_of_mem_tail member), fair.items⟩

theorem atKind_fine (kinds : List TokenKind) : Fine F untagged (atKind kinds) :=
  peek_fine.bind fun _ _ => .pure trivial

theorem enter_fine (anchor : Option String) {item : Item} (plain : untagged → item.IsPlain) :
    Fine F untagged (enter anchor item) := by
  have grown : ∀ r : Reader, r.Fair F untagged → untagged → ∀ other ∈ r.items.push item, other.IsPlain := by
    intro r fair without other member
    rcases Array.mem_push.mp member with before | rfl
    · exact fair.items without other before
    · exact plain without
  refine Keeps.get.bind fun r fair => ?_
  cases anchor with
  | none =>
    exact (Keeps.set ⟨fair.fault, fair.tokens, grown r fair⟩).bind fun _ _ => .pure trivial
  | some name =>
    exact (Keeps.set ⟨fair.fault, fair.tokens, grown r fair⟩).bind fun _ _ => .pure trivial

theorem checkAnchor_fine (anchor : Option String) : Fine F untagged (checkAnchor anchor) := by
  cases anchor with
  | none => exact .pure trivial
  | some name =>
    refine Keeps.get.bind fun r _ => ?_
    split
    · exact .malformed
    · exact .pure trivial

theorem complete_fine (id : Nat) {item : Item} (plain : untagged → item.IsPlain) :
    Fine F untagged (complete id item) := by
  refine .modify fun r fair => ⟨fair.fault, fair.tokens, fun without other member => ?_⟩
  rcases Array.mem_or_eq_of_mem_setIfInBounds member with before | rfl
  · exact fair.items without other before
  · exact plain without

theorem emptyScalar_fine (place : Position) : Fine F untagged (emptyScalar place) :=
  enter_fine none fun _ => .inl ⟨rfl, by simp⟩

theorem expandTag_fine (handle : Option String) (suffix : String) : Fine F untagged (expandTag handle suffix) := by
  cases handle with
  | none => exact .pure trivial
  | some handle =>
    refine Keeps.get.bind fun r _ => ?_
    split
    · exact .pure trivial
    · exact .malformed

/-- Without tags there is none in front of a node. -/
theorem properties_fine :
    Keeps F (Reader.Fair F untagged) (fun found => untagged → found.2.1 = none) properties := by
  unfold properties
  extract_lets readAnchor readTag
  have anchors : Fine F untagged readAnchor := by
    refine peek_fine.bind fun token _ => ?_
    split
    · exact next_fine.bind fun _ _ => .pure trivial
    · exact .pure trivial
  have tags : Keeps F (Reader.Fair F untagged) (fun found => untagged → found = none) readTag := by
    refine peek_fine.bind fun token known => ?_
    split
    · next handle suffix kind =>
      refine next_fine.bind fun _ _ => (expandTag_fine handle suffix).bind fun _ _ => .pure fun without => ?_
      have other := known.2 without
      rw [Token.isTag, kind] at other
      cases other
    · exact .pure fun _ => rfl
  refine anchors.bind fun anchor _ => ?_
  cases anchor with
  | some named =>
    refine tags.bind fun tag none => ?_
    cases tag with
    | some found => exact .pure fun without => absurd (none without) (by simp)
    | none => exact .pure fun _ => rfl
  | none =>
    refine tags.bind fun tag none => ?_
    cases tag with
    | some found =>
      refine anchors.bind fun anchor _ => ?_
      cases anchor with
      | some named => exact .pure fun without => absurd (none without) (by simp)
      | none => exact .pure fun without => absurd (none without) (by simp)
    | none => exact .pure fun _ => rfl

/-! ### Nodes -/

/-- Reading nodes with some fuel is fine, whatever it starts with. -/
structure AllFine (F : Faults) (untagged : Prop) (fuel : Nat) : Prop where
  node : ∀ block indentless, Fine F untagged (node fuel block indentless)
  nodeUnless : ∀ kinds place block indentless, Fine F untagged (nodeUnless fuel kinds place block indentless)
  blockSequence : Fine F untagged (blockSequence fuel)
  indentlessSequence : Fine F untagged (indentlessSequence fuel)
  blockMapping : Fine F untagged (blockMapping fuel)
  blockValue : Fine F untagged (blockValue fuel)
  flowSequence : ∀ first, Fine F untagged (flowSequence fuel first)
  flowValue : ∀ closing, Fine F untagged (flowValue fuel closing)
  flowMapping : ∀ first, Fine F untagged (flowMapping fuel first)

variable {fuel : Nat}

theorem nodeUnless_fine (below : AllFine F untagged fuel) (kinds : List TokenKind) (place : Position)
    (block indentless : Bool) : Fine F untagged (nodeUnless (fuel + 1) kinds place block indentless) := by
  rw [nodeUnless]
  refine (atKind_fine kinds).bind fun found _ => ?_
  split
  · exact emptyScalar_fine place
  · exact below.node block indentless

theorem blockSequence_fine (below : AllFine F untagged fuel) : Fine F untagged (blockSequence (fuel + 1)) := by
  rw [blockSequence]
  refine next_fine.bind fun token _ => ?_
  split
  · refine (below.nodeUnless _ _ _ _).bind fun part _ => ?_
    exact below.blockSequence.bind fun _ _ => .pure trivial
  · exact .pure trivial
  · exact .malformed

theorem indentlessSequence_fine (below : AllFine F untagged fuel) :
    Fine F untagged (indentlessSequence (fuel + 1)) := by
  rw [indentlessSequence]
  refine peek_fine.bind fun token _ => ?_
  split
  · refine next_fine.bind fun _ _ => (below.nodeUnless _ _ _ _).bind fun part _ => ?_
    exact below.indentlessSequence.bind fun _ _ => .pure trivial
  · exact .pure trivial

theorem blockMapping_fine (below : AllFine F untagged fuel) : Fine F untagged (blockMapping (fuel + 1)) := by
  rw [blockMapping]
  refine peek_fine.bind fun token _ => ?_
  split
  · refine next_fine.bind fun _ _ => (below.nodeUnless _ _ _ _).bind fun key _ => ?_
    refine below.blockValue.bind fun value _ => ?_
    exact below.blockMapping.bind fun _ _ => .pure trivial
  · exact next_fine.bind fun _ _ => .pure trivial
  · exact .malformed

theorem blockValue_fine (below : AllFine F untagged fuel) : Fine F untagged (blockValue (fuel + 1)) := by
  rw [blockValue]
  refine peek_fine.bind fun token _ => ?_
  split
  · exact next_fine.bind fun _ _ => below.nodeUnless _ _ _ _
  · exact emptyScalar_fine _

theorem flowValue_fine (below : AllFine F untagged fuel) (closing : TokenKind) :
    Fine F untagged (flowValue (fuel + 1) closing) := by
  rw [flowValue]
  refine peek_fine.bind fun token _ => ?_
  split
  · exact next_fine.bind fun _ _ => below.nodeUnless _ _ _ _
  · exact emptyScalar_fine _

/-- In front of every entry in brackets but the first there is a comma. -/
theorem comma_fine {α : Type} (first : Bool) {onward : Unit → Read α} (fine : ∀ r, Fine F untagged (onward r)) :
    Fine F untagged (if !first then do
      if (← next).kind != .flowEntry then throw .malformed
      onward ()
    else onward ()) := by
  cases first with
  | true => exact fine _
  | false =>
    refine next_fine.bind fun token _ => ?_
    split
    · exact Keeps.malformed.bind fun r (_ : True) => fine r
    · exact fine _

theorem flowSequence_fine (below : AllFine F untagged fuel) (first : Bool) :
    Fine F untagged (flowSequence (fuel + 1) first) := by
  rw [flowSequence]
  refine peek_fine.bind fun token _ => ?_
  split
  · exact next_fine.bind fun _ _ => .pure trivial
  · extract_lets onward
    refine comma_fine first fun r => peek_fine.bind fun token _ => ?_
    split
    · exact next_fine.bind fun _ _ => .pure trivial
    · refine (enter_fine none fun _ => by simp [Item.IsPlain]).bind fun id _ => ?_
      refine next_fine.bind fun _ _ => (below.nodeUnless _ _ _ _).bind fun key _ => ?_
      refine (below.flowValue _).bind fun value _ => peek_fine.bind fun last _ => ?_
      refine (complete_fine id fun _ => by simp [Item.IsPlain]).bind fun _ _ => ?_
      exact (below.flowSequence false).bind fun _ _ => .pure trivial
    · refine (below.node false false).bind fun part _ => ?_
      exact (below.flowSequence false).bind fun _ _ => .pure trivial

theorem flowMapping_fine (below : AllFine F untagged fuel) (first : Bool) :
    Fine F untagged (flowMapping (fuel + 1) first) := by
  rw [flowMapping]
  refine peek_fine.bind fun token _ => ?_
  split
  · exact next_fine.bind fun _ _ => .pure trivial
  · extract_lets onward
    refine comma_fine first fun r => peek_fine.bind fun token _ => ?_
    split
    · exact next_fine.bind fun _ _ => .pure trivial
    · refine next_fine.bind fun _ _ => (below.nodeUnless _ _ _ _).bind fun key _ => ?_
      refine (below.flowValue _).bind fun value _ => ?_
      exact (below.flowMapping false).bind fun _ _ => .pure trivial
    · refine (below.node false false).bind fun key _ => peek_fine.bind fun last _ => ?_
      refine (emptyScalar_fine _).bind fun value _ => ?_
      exact (below.flowMapping false).bind fun _ _ => .pure trivial

/-- Whether what a collection holds is of the kind that its tag is named for. -/
def IsOf (name : String) : Content → Prop
  | .scalar _ => False
  | .sequence _ => name = "seq"
  | .mapping _ => name = "map"

/-- A collection is entered under its tag, and completed under it. -/
theorem collection_fine (anchor : Option String) {tag : Option String} (plain : untagged → tag = none)
    {name : String} (kind : name = "seq" ∨ name = "map") (start : Position)
    {parts : Read (Content × Position)} (reads : Keeps F (Reader.Fair F untagged) (fun r => IsOf name r.1) parts) :
    Fine F untagged (do
      checkAnchor anchor
      let id ← enter anchor ⟨collectionTag tag name, .scalar "", ⟨start, start⟩⟩
      let (content, stop) ← parts
      complete id ⟨collectionTag tag name, content, ⟨start, stop⟩⟩
      return id) := by
  refine (checkAnchor_fine anchor).bind fun _ _ => ?_
  refine (enter_fine anchor fun without => ?_).bind fun id _ => reads.bind fun r known => ?_
  · rw [plain without]
    rcases kind with rfl | rfl <;> simp [Item.IsPlain, collectionTag]
  · refine (complete_fine id fun without => ?_).bind fun _ _ => .pure trivial
    obtain ⟨content, stop⟩ := r
    rw [plain without]
    cases content with
    | scalar text => exact known.elim
    | sequence parts =>
      cases known
      rfl
    | mapping entries =>
      cases known
      rfl

theorem isPlain_scalar {text : String} {plain : Bool} {range : Range}
    (ends : plain = true → text.toList.getLast? ≠ some '\n') :
    Item.IsPlain ⟨scalarTag none plain text, .scalar text, range⟩ := by
  cases plain with
  | true => exact .inl ⟨rfl, ends rfl⟩
  | false => exact .inr (.inl rfl)

theorem node_fine (below : AllFine F untagged fuel) (block indentless : Bool) :
    Fine F untagged (node (fuel + 1) block indentless) := by
  rw [node]
  refine peek_fine.bind fun token _ => ?_
  split
  · refine next_fine.bind fun _ _ => Keeps.get.bind fun r _ => ?_
    split
    · exact .pure trivial
    · exact .malformed
  · refine properties_fine.bind fun found plain => ?_
    obtain ⟨anchor, tag, range⟩ := found
    replace plain : untagged → tag = none := plain
    refine peek_fine.bind fun token known => ?_
    extract_lets start collection
    have collections : ∀ {name parts}, name = "seq" ∨ name = "map" →
        Keeps F (Reader.Fair F untagged) (fun r => IsOf name r.1) parts → Fine F untagged (collection name parts) :=
      fun kind reads => collection_fine anchor plain kind start reads
    split
    · next text written kind =>
      refine next_fine.bind fun _ _ => (checkAnchor_fine anchor).bind fun _ _ => ?_
      refine enter_fine anchor fun without => ?_
      rw [plain without]
      refine isPlain_scalar fun inLine => known.1 text ?_
      rw [kind, inLine]
    · refine collections (.inl rfl) (next_fine.bind fun _ _ => ?_)
      exact (below.flowSequence true).bind fun _ _ => .pure rfl
    · refine collections (.inr rfl) (next_fine.bind fun _ _ => ?_)
      exact (below.flowMapping true).bind fun _ _ => .pure rfl
    · split
      · exact collections (.inl rfl) (below.indentlessSequence.bind fun _ _ => .pure rfl)
      · split
        · refine collections (.inl rfl) (next_fine.bind fun _ _ => ?_)
          exact below.blockSequence.bind fun _ _ => .pure rfl
        · split
          · refine collections (.inr rfl) (next_fine.bind fun _ _ => ?_)
            exact below.blockMapping.bind fun _ _ => .pure rfl
          · split
            · refine (checkAnchor_fine anchor).bind fun _ _ => enter_fine anchor fun without => ?_
              rw [plain without]
              exact isPlain_scalar (by simp)
            · exact .malformed

theorem allFine (F : Faults) (untagged : Prop) (fuel : Nat) : AllFine F untagged fuel := by
  induction fuel with
  | zero =>
    constructor <;> intros <;> exact .malformed
  | succ fuel below =>
    exact ⟨node_fine below, nodeUnless_fine below, blockSequence_fine below, indentlessSequence_fine below,
      blockMapping_fine below, blockValue_fine below, flowSequence_fine below, flowValue_fine below,
      flowMapping_fine below⟩

/-! ### Documents -/

/-- Handles have nothing to do with what is read. -/
theorem handles_fine (change : List (String × String) → List (String × String)) :
    Fine F untagged (modify fun r : Reader => { r with handles := change r.handles }) :=
  .modify fun _ fair => ⟨fair.fault, fair.tokens, fair.items⟩

theorem directives_fine (fuel : Nat) (versioned : Bool) : Fine F untagged (directives fuel versioned) := by
  induction fuel generalizing versioned with
  | zero => exact .malformed
  | succ fuel ih =>
    rw [directives]
    refine peek_fine.bind fun token _ => ?_
    split
    · refine next_fine.bind fun _ _ => ?_
      split
      · split
        · exact Keeps.malformed.bind fun _ (_ : True) => ih true
        · exact ih true
      · refine Keeps.get.bind fun r _ => ?_
        extract_lets onward
        have known : Fine F untagged (onward ()) := (handles_fine _).bind fun _ _ => ih versioned
        split
        · exact Keeps.malformed.bind fun _ (_ : True) => known
        · exact known
      · exact ih versioned
    · exact .pure trivial

theorem skipDocumentEnds_fine (fuel : Nat) : Fine F untagged (skipDocumentEnds fuel) := by
  induction fuel with
  | zero => exact .malformed
  | succ fuel ih =>
    rw [skipDocumentEnds]
    refine (atKind_fine _).bind fun found _ => ?_
    split
    · exact next_fine.bind fun _ _ => ih
    · exact .pure trivial

theorem explicit_fine (fuel : Nat) : Fine F untagged (document.explicit fuel) := by
  have all := allFine F untagged fuel
  unfold document.explicit
  refine (directives_fine fuel false).bind fun _ _ => ?_
  refine (handles_fine (· ++ standardHandles)).bind fun _ _ => next_fine.bind fun mark _ => ?_
  extract_lets onward
  have known : ∀ r, Fine F untagged (onward r) := by
    intro r
    refine peek_fine.bind fun token _ => ?_
    split
    · exact (emptyScalar_fine _).map
    · split
      · exact (emptyScalar_fine _).map
      · exact (all.node true false).map
  split
  · exact Keeps.malformed.bind fun r (_ : True) => known r
  · exact known ()

theorem document_fine (fuel : Nat) : Fine F untagged (document fuel) := by
  have all := allFine F untagged fuel
  unfold document
  refine (atKind_fine _).bind fun empty _ => ?_
  extract_lets onward
  have known : ∀ root, Fine F untagged (onward root) := by
    intro root
    refine (skipDocumentEnds_fine fuel).bind fun _ _ => (atKind_fine _).bind fun ended _ => ?_
    split
    · exact .pure trivial
    · exact .malformed
  have marked : Fine F untagged (document.explicit fuel >>= onward) :=
    (explicit_fine fuel).bind fun root _ => known root
  split
  · exact known none
  · refine (atKind_fine _).bind fun marks _ => ?_
    split
    · exact marked
    · refine peek_fine.bind fun token _ => ?_
      split
      · exact marked
      · refine (handles_fine fun _ => standardHandles).bind fun _ _ => ?_
        exact (all.node true false).map.bind fun root (_ : True) => known root

end Read

/-- The nodes of a text are read, or there is a fault that the text causes. Without tags they have those of their
forms. -/
theorem NodeGraph.ofText?_settles (text : String) :
    Settles (.of text.toList)
      (fun g => (∀ t ∈ (Token.scan text).1, t.isTag = false) → ∀ item ∈ g.items, item.IsPlain)
      (NodeGraph.ofText? text) := by
  have fair := Token.scan_fair text
  have starts : Reader.Fair (.of text.toList) (∀ t ∈ (Token.scan text).1, t.isTag = false)
      ⟨(Token.scan text).1.toList, (Token.scan text).2, #[], [], []⟩ := by
    refine ⟨fair.1, fun t member => ?_, by simp⟩
    have among : t ∈ (Token.scan text).1 := Array.mem_toList_iff.mp member
    exact ⟨fair.2 t among, fun untagged => untagged t among⟩
  exact (Read.document_fine _ _ starts).bind fun r read => .ok read.2.items

end DocLint.Yaml
