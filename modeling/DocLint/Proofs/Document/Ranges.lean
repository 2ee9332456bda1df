import DocLint.Document.Basic
import DocLint.Proofs.Yaml.Origin

/-!
# Ranges of values

A document is read twice, once as values and once as ranges, and a path is looked up among the ranges by
the texts of its segments. Every path leads to the node from which the value there was built
(`Document.exists_origin`). The range at the path is that of this node where the mappings on the way have
the segments under their texts (`Document.rangeAt_origin`). Keys in other spellings and entries that are
taken over under `<<` are not among the ranges, so a path through them has the range of another node.
-/
namespace DocLint
open Relation

namespace Yaml

/-- Positions are told apart by their texts. -/
theorem toString_injective : Function.Injective (toString : Nat → String) := by
  intro i j same
  have digits : Nat.toDigits 10 i = Nat.toDigits 10 j := String.ofList_injective same
  rw [← Nat.ofDigitChars_ten_toDigits (n := i), digits, Nat.ofDigitChars_ten_toDigits]

section
variable {g : NodeGraph} {fuel id : Nat} {enclosing : List Nat} {path : List String}

/-- All that is recorded for a node and below it goes through the path of the node. -/
theorem prefix_of_mem_collect {e : List String × Range}
    (member : e ∈ SourceMap.collect g fuel enclosing path id) : path <+: e.1 := by
  induction fuel generalizing enclosing path id with
  | zero => cases member
  | succ fuel ih =>
    rw [SourceMap.collect] at member
    split at member
    · cases member
    · rcases List.mem_cons.mp member with rfl | member
      · exact List.prefix_rfl
      · split at member
        · cases member
        · obtain ⟨child, _, below⟩ := List.mem_flatMap.mp member
          exact (List.prefix_append path [child.1]).trans (ih below)

/-- For a path that does not go through a node nothing is recorded there. -/
theorem find?_collect_eq_none {q : List String} (elsewhere : ¬ path <+: q) :
    (SourceMap.collect g fuel enclosing path id).reverse.find? (fun e => e.1 == q) = none := by
  refine List.find?_eq_none.mpr fun e member same => elsewhere ?_
  rw [← eq_of_beq same]
  exact prefix_of_mem_collect (List.mem_reverse.mp member)

/-- For the path of a node the range of that node is recorded last. -/
theorem find?_collect_self {item : Item} (here : g.items[id]? = some item) :
    (SourceMap.collect g (fuel + 1) enclosing path id).reverse.find? (fun e => e.1 == path) =
      some (path, item.range) := by
  rw [SourceMap.collect, here]
  dsimp only
  split
  · simp
  · rw [List.reverse_cons, List.find?_append, List.reverse_flatMap, List.find?_flatMap,
      List.findSome?_eq_none_iff.mpr, Option.none_or]
    · simp
    · intro child _
      refine find?_collect_eq_none fun longer => ?_
      have shorter := longer.length_le
      rw [List.length_append] at shorter
      exact Nat.not_succ_le_self _ shorter

/-- For a path through a node, what is recorded last below the last child on the way is recorded last. -/
theorem find?_collect_child {item : Item} (here : g.items[id]? = some item) (fresh : id ∉ enclosing)
    {name : String} {child : Nat} {rest : List String} {r : List String × Range}
    (last : (g.children id).reverse.find? (fun e => e.1 == name) = some (name, child))
    (below : (SourceMap.collect g fuel (id :: enclosing) (path ++ [name]) child).reverse.find?
      (fun e => e.1 == path ++ name :: rest) = some r) :
    (SourceMap.collect g (fuel + 1) enclosing path id).reverse.find?
      (fun e => e.1 == path ++ name :: rest) = some r := by
  rw [SourceMap.collect, here]
  dsimp only
  rw [if_neg fresh, List.reverse_cons, List.find?_append, List.reverse_flatMap,
    find?_flatMap_of_find? ?_ last below, Option.some_or]
  intro other apart
  refine find?_collect_eq_none fun goesOn => ?_
  have same : other.1 = name := by simpa using goesOn
  simp [same] at apart

end

namespace Builder

/-- Whether a collection has a segment under its text: in a mapping, the last key that was read as the
segment is the last one with its text. -/
def spellsAt (b : Builder) (g : NodeGraph) (id : Nat) (s : Segment) : Bool :=
  match g.content? id with
  | some (.mapping entries) =>
    let last := entries.reverse.find? fun e => g.keyText e.1 == s.text
    last.isSome && entries.reverse.find? (fun e => b.reads s e.1) == last
  | _ => true

/-- Whether all collections on the way along a path have the segments under their texts. -/
def spells (b : Builder) (g : NodeGraph) : Nat → Path → Bool
  | _, [] => true
  | id, s :: rest =>
    spellsAt b g id s &&
      match b.part? id s with
      | some part => spells b g part rest
      | none => true

variable {g : NodeGraph} {b : Builder}

/-- A key that was read is not the special one. -/
theorem Sound.not_isMerge_of_reads (sound : Sound g [] b) {s : Segment} {key : Nat}
    (read : b.reads s key = true) : isMerge g.items key = false := by
  unfold reads at read
  split at read
  · next known => exact sound.items.special ▸ (sound.present known).2
  · cases read

/-- The keys that were read are among the own entries. -/
theorem Sound.find?_ownEntries (sound : Sound g [] b) (s : Segment) (entries : List (Nat × Nat)) :
    (ownEntries g.items entries).reverse.find? (fun e => b.reads s e.1) =
      entries.reverse.find? fun e => b.reads s e.1 := by
  rw [ownEntries, ← List.filter_reverse, List.find?_filter]
  congr 1
  funext e
  cases read : b.reads s e.1 with
  | true => simp [sound.not_isMerge_of_reads read]
  | false => simp

/-- Where a collection has a segment under its text, the last part under that text is the one of which the
part of the value was built. -/
theorem Sound.last_child (sound : Sound g [] b) {id part : Nat} {s : Segment}
    (leads : b.part? id s = some part) (spelled : b.spellsAt g id s = true) :
    (g.children id).reverse.find? (fun e => e.1 == s.text) = some (s.text, part) := by
  unfold part? at leads
  split at leads
  · next parts content =>
    split at leads
    · next i =>
      have own : g.content? id = some (.sequence parts) := sound.items.sequence content
      rw [NodeGraph.children, own]
      have distinct : ((parts.zipIdx.map fun e => (toString e.2, e.1)).reverse.map
          Prod.fst).Nodup := by
        have positions : (parts.zipIdx.map Prod.snd).Nodup := by
          rw [List.zipIdx_map_snd]
          exact List.nodup_range'
        rw [List.map_reverse, List.nodup_reverse, List.map_map]
        have numerals := positions.map toString_injective
        rw [List.map_map] at numerals
        exact numerals
      refine (find?_key_eq_some distinct).mpr ⟨?_, rfl⟩
      rw [List.mem_reverse, List.mem_map]
      exact ⟨(part, i), List.mem_zipIdx_iff_getElem?.mpr leads, rfl⟩
    · cases leads
  · next entries' content =>
    obtain ⟨entries, own, taken, split⟩ := sound.items.mapping content
    have own : g.content? id = some (.mapping entries) := own
    obtain ⟨e, read, rfl⟩ := Option.map_eq_some_iff.mp leads
    rw [spellsAt, own] at spelled
    obtain ⟨present, agrees⟩ := Bool.and_eq_true_iff.mp spelled
    obtain ⟨e', named⟩ := Option.isSome_iff_exists.mp present
    -- the own entries come last, so one of them is the last that was read
    have last : entries'.reverse.find? (fun e => b.reads s e.1) = some e' := by
      have first : entries.reverse.find? (fun e => b.reads s e.1) = some e' :=
        (eq_of_beq agrees).trans named
      rw [← sound.find?_ownEntries, ← split, List.reverse_append, List.find?_append,
        sound.find?_ownEntries, first, Option.some_or]
    cases read.symm.trans last
    rw [NodeGraph.children, own]
    have same : g.keyText e.1 = s.text := by simpa using List.find?_some named
    rw [← List.map_reverse, List.find?_map]
    exact (congrArg _ named).trans (by simp [same])
  · cases leads

/-- Nodes around a node: each of them once, and the value of each on the way to the value of that node. -/
structure Surrounds (g : NodeGraph) (b : Builder) (enclosing : List Nat) (n : Node) : Prop where
  nodup : enclosing.Nodup
  inRange : ∀ id ∈ enclosing, id < g.items.size
  above : ∀ id ∈ enclosing, ∃ m, b.built.lookup id = some m ∧
    TransGen (Graph.HasPart ⟨b.containers⟩) m n

namespace Surrounds
variable {enclosing : List Nat} {id : Nat} {n m : Node}

theorem nil (g : NodeGraph) (b : Builder) (n : Node) : Surrounds g b [] n :=
  ⟨List.nodup_nil, by simp, by simp⟩

/-- There are no more nodes around a node than the text has. -/
theorem length_le (around : Surrounds g b enclosing n) : enclosing.length ≤ g.items.size := by
  have bounded : enclosing ⊆ List.range g.items.size := fun id member =>
    List.mem_range.mpr (around.inRange id member)
  simpa using around.nodup.length_le_of_subset bounded

/-- So there is fuel left for a node. -/
theorem exists_fuel (around : Surrounds g b enclosing n) {fuel : Nat}
    (enough : fuel + enclosing.length = g.depthBound) : ∃ k, fuel = k + 1 := by
  refine Nat.exists_eq_succ_of_ne_zero ?_
  have bound := around.length_le
  rw [NodeGraph.depthBound] at enough
  omega

/-- A node is not around itself when its value is not inside itself. -/
theorem not_mem (around : Surrounds g b enclosing n) (given : b.built.lookup id = some n)
    (acyclic : Value.Acyclic ⟨⟨b.containers⟩, n⟩) : id ∉ enclosing := by
  intro member
  obtain ⟨m, known, above⟩ := around.above id member
  cases given.symm.trans known
  exact acyclic _ .refl above

/-- A part of a node is inside that node as well. -/
theorem step (around : Surrounds g b enclosing n) (given : b.built.lookup id = some n)
    (bound : id < g.items.size) (fresh : id ∉ enclosing) (has : Graph.HasPart ⟨b.containers⟩ n m) :
    Surrounds g b (id :: enclosing) m := by
  refine ⟨List.nodup_cons.mpr ⟨fresh, around.nodup⟩, ?_, ?_⟩
  · intro other member
    rcases List.mem_cons.mp member with rfl | member
    · exact bound
    · exact around.inRange other member
  · intro other member
    rcases List.mem_cons.mp member with rfl | member
    · exact ⟨n, given, .single has⟩
    · obtain ⟨top, known, above⟩ := around.above other member
      exact ⟨top, known, above.tail has⟩

end Surrounds

/-- What is recorded last for a path is the range of the node from which the value there was built, when
the collections on the way have the segments under their texts. -/
theorem Sound.find?_collect (sound : Sound g [] b) (ended : b.waiting = []) {fuel id last : Nat}
    {enclosing : List Nat} {above : List String} {n : Node} {p : Path} {v : Value} {item : Item}
    (built : b.Built id n) (acyclic : Value.Acyclic ⟨⟨b.containers⟩, n⟩)
    (around : Surrounds g b enclosing n) (enough : fuel + enclosing.length = g.depthBound)
    (walk : Value.walk? ⟨⟨b.containers⟩, n⟩ p = some v) (origin : b.origin? id p = some last)
    (here : g.items[last]? = some item) (spelled : b.spells g id p = true) :
    (SourceMap.collect g fuel enclosing above id).reverse.find? (fun e => e.1 == above ++ p.texts) =
      some (above ++ p.texts, item.range) := by
  induction p generalizing fuel id enclosing above n with
  | nil =>
    cases origin
    obtain ⟨fuel, rfl⟩ := around.exists_fuel enough
    rw [Path.texts, List.map_nil, List.append_nil]
    exact find?_collect_self here
  | cons s rest ih =>
    obtain ⟨w, first, others⟩ := Option.bind_eq_some_iff.mp walk
    obtain ⟨m, rfl, member⟩ := Value.child?_eq_some first
    have has : Graph.HasPart ⟨b.containers⟩ n m := ⟨s, member⟩
    obtain ⟨fuel, rfl⟩ := around.exists_fuel enough
    -- a pair ends every path, so the node was given its value
    rcases built with given | pair
    · obtain ⟨part, leads, built⟩ := sound.part ended given member
      obtain ⟨own, there⟩ := sound.exists_item (.inl given)
      obtain ⟨bound, _⟩ := Array.getElem?_eq_some_iff.mp there
      have fresh := around.not_mem given acyclic
      rw [origin?, leads, Option.bind_some] at origin
      rw [spells, leads, Bool.and_eq_true_iff] at spelled
      refine find?_collect_child there fresh (sound.last_child leads spelled.1) ?_
      have enough : fuel + (id :: enclosing).length = g.depthBound := by
        rw [← enough, List.length_cons]
        omega
      have deeper := @ih fuel part (id :: enclosing) (above ++ [s.text]) m built (acyclic.part has)
        (around.step given bound fresh has) enough others origin spelled.2
      rw [List.append_assoc, List.singleton_append] at deeper
      exact deeper
    · rw [pair.children_eq] at member
      cases member

end Builder
end Yaml

namespace SourceMap

/-- The range that is recorded for a path is the one at it. -/
theorem rangeAt_of_find? {m : SourceMap} {p : Path} {r : Range} (recorded : m.find? p.texts = some r) :
    m.rangeAt p = r := by
  have whole : m.find? (p.texts.take p.texts.length) = some r := by rwa [List.take_length]
  simp only [rangeAt, List.range_succ, List.reverse_append, List.reverse_singleton,
    List.singleton_append, List.findSome?_cons, whole, Option.getD_some]

end SourceMap

namespace Document
variable {text : String} {source : Option String} {d : Document}

/-- A document that was read has what its text is loaded as. -/
theorem load_of_parse (parsed : parse text source = .ok d) :
    Yaml.load text = .ok d.data ∧ d.text = some text := by
  rw [parse] at parsed
  cases loaded : Yaml.load text with
  | error e => cases e <;> simp [loaded] at parsed
  | ok data =>
    simp only [loaded, Except.ok.injEq] at parsed
    subst parsed
    exact ⟨rfl, rfl⟩

/-- The ranges of a document that was read are those of the nodes of its text. -/
theorem ranges_of_parse (parsed : parse text source = .ok d) {g : Yaml.NodeGraph}
    (read : Yaml.NodeGraph.ofText? text = .ok g) : d.ranges = .ok (SourceMap.ofNodes g) := by
  rw [d.ranges_eq, (load_of_parse parsed).2, SourceMap.ofOptional?]
  by_cases blank : text.isEmpty
  · have rootless : ((Yaml.NodeGraph.ofText? "").toOption.map Yaml.NodeGraph.root) = some none := by
      decide +kernel
    obtain rfl : text = "" := by simpa using blank
    rw [read] at rootless
    have none : g.root = none := by simpa [Except.toOption] using rootless
    simp [SourceMap.ofNodes, none]
  · simp [blank, SourceMap.ofText?, read, bind, Except.bind, pure, Except.pure]

/-- Every path of a document that was read leads to the node of the text from which the value there was
built, unless the text has no nodes. -/
theorem exists_origin (parsed : parse text source = .ok d) {p : Path} {v : Value}
    (walk : d.data.walk? p = some v) :
    (Yaml.reading? text = .ok none ∧ p = []) ∨
    ∃ r last item, Yaml.reading? text = .ok (some r) ∧ r.value = d.data ∧
      r.built.origin? r.root p = some last ∧ r.built.Built last v.node ∧
      r.nodes.items[last]? = some item := by
  have loaded := (load_of_parse parsed).1
  rw [Yaml.load_eq_reading] at loaded
  cases read : Yaml.reading? text with
  | error e => simp [read, Except.map] at loaded
  | ok found =>
    simp only [read, Except.map, Except.ok.injEq] at loaded
    cases found with
    | none =>
      refine .inl ⟨rfl, ?_⟩
      rw [← loaded] at walk
      cases p with
      | nil => rfl
      | cons s rest =>
        obtain ⟨w, first, _⟩ := Option.bind_eq_some_iff.mp walk
        cases first
    | some r =>
      obtain ⟨nodes, _, builds⟩ := Yaml.Reading.of_reading? read
      obtain ⟨sound, ended, given⟩ := Yaml.Builder.sound_of_building builds
      have whole : r.value = d.data := loaded
      rw [← whole] at walk
      obtain ⟨last, origin, built⟩ := sound.origin ended (.inl given) walk
      obtain ⟨item, here⟩ := sound.exists_item built
      exact .inr ⟨r, last, item, rfl, whole, origin, built, here⟩

/-- In a document without cycles the range at a path is that of the node from which the value there was
built, when the mappings on the way have the segments under their texts. -/
theorem rangeAt_origin (parsed : parse text source = .ok d) (acyclic : d.data.Acyclic) {p : Path}
    {v : Value} (walk : d.data.walk? p = some v) :
    (Yaml.reading? text = .ok none ∧ p = [] ∧ d.rangeAt p = .ok Range.empty) ∨
    ∃ r last item, Yaml.reading? text = .ok (some r) ∧ r.value = d.data ∧
      r.built.origin? r.root p = some last ∧ r.built.Built last v.node ∧
      r.nodes.items[last]? = some item ∧
      (r.built.spells r.nodes r.root p = true → d.rangeAt p = .ok item.range) := by
  rcases exists_origin parsed walk with
    ⟨nothing, rfl⟩ | ⟨r, last, item, read, whole, origin, built, here⟩
  · obtain ⟨g, nodes, rootless⟩ := Yaml.root_of_reading? nothing
    refine .inl ⟨nothing, rfl, ?_⟩
    rw [rangeAt, ranges_of_parse parsed nodes, SourceMap.ofNodes, rootless]
    rfl
  · refine .inr ⟨r, last, item, read, whole, origin, built, here, fun spelled => ?_⟩
    obtain ⟨nodes, rooted, builds⟩ := Yaml.Reading.of_reading? read
    obtain ⟨sound, ended, given⟩ := Yaml.Builder.sound_of_building builds
    rw [← whole] at walk acyclic
    have recorded : (SourceMap.collect r.nodes r.nodes.depthBound [] [] r.root).reverse.find?
        (fun e => e.1 == [] ++ p.texts) = some ([] ++ p.texts, item.range) :=
      sound.find?_collect ended (.inl given) acyclic (.nil _ _ _) rfl walk origin here spelled
    rw [rangeAt, ranges_of_parse parsed nodes, SourceMap.ofNodes, rooted]
    refine congrArg _ (SourceMap.rangeAt_of_find? ?_)
    exact congrArg (Option.map Prod.snd) recorded

/-- A text with a key that comes twice, where a list is used once more under an alias. -/
def repeating : String :=
  "1: a\n1:\n  b: &x [y, z]\n  c: *x\n"

/-- An item that is met under an alias, inside the last value of a repeated key, has its own range. -/
theorem rangeAt_origin_repeating :
    ∃ d, parse repeating none = .ok d ∧ d.data.Acyclic ∧
      ∃ v, d.data.walk? [.int 1, .str "c", .int 1] = some v ∧ v.node = .scalar (.str "z") ∧
        ∃ r last item, Yaml.reading? repeating = .ok (some r) ∧ r.value = d.data ∧
          r.built.origin? r.root [.int 1, .str "c", .int 1] = some last ∧
          r.built.Built last v.node ∧ r.nodes.items[last]? = some item ∧
          r.built.spells r.nodes r.root [.int 1, .str "c", .int 1] = true ∧
          d.rangeAt [.int 1, .str "c", .int 1] = .ok item.range ∧ item.range = ⟨⟨2, 12⟩, ⟨2, 13⟩⟩ := by
  have reads : ((parse repeating none).toOption.map fun d =>
      ((d.data.walk? [.int 1, .str "c", .int 1]).map Value.node, decide <|
        ∀ id < d.data.graph.containers.size,
          ∀ e ∈ d.data.graph.children (.container id), e.2.isBeyond id = true)) =
      some (some (.scalar (.str "z")), true) := by
    decide +kernel
  have places : ((Yaml.reading? repeating).toOption.map fun found => found.map fun r =>
      (r.built.spells r.nodes r.root [.int 1, .str "c", .int 1],
        (r.built.origin? r.root [.int 1, .str "c", .int 1]).bind fun last =>
          r.nodes.items[last]?.map Yaml.Item.range)) =
      some (some (true, some ⟨⟨2, 12⟩, ⟨2, 13⟩⟩)) := by
    decide +kernel
  obtain ⟨d, parsed, known⟩ := exists_ok_of_toOption reads
  obtain ⟨walks, nested⟩ := Prod.mk.inj known
  obtain ⟨v, walk, here⟩ := Option.map_eq_some_iff.mp walks
  have acyclic := d.data.acyclic_of_increasing (of_decide_eq_true nested)
  rcases rangeAt_origin parsed acyclic walk with
    ⟨_, nothing, _⟩ | ⟨r, last, item, read, whole, origin, built, among, ranged⟩
  · cases nothing
  · rw [read] at places
    obtain ⟨spelled, place⟩ := Prod.mk.inj (Option.some.inj (Option.some.inj places))
    rw [origin, Option.bind_some, among] at place
    exact ⟨d, parsed, acyclic, v, walk, here, r, last, item, read, whole, origin, built, among, spelled,
      ranged spelled, Option.some.inj place⟩

/-- A text with a key that is not spelled as the text of its value. -/
def misspelling : String :=
  "yes: 1\n"

/-- A value under a key that reads as a truth value has the range of the mapping around it instead of that
of its own node. -/
theorem rangeAt_misspelling :
    ∃ d, parse misspelling none = .ok d ∧ d.data.Acyclic ∧
      ∃ v, d.data.walk? [.bool true] = some v ∧ v.node = .scalar (.int 1) ∧
        ∃ r last item, Yaml.reading? misspelling = .ok (some r) ∧ r.value = d.data ∧
          r.built.origin? r.root [.bool true] = some last ∧ r.built.Built last v.node ∧
          r.nodes.items[last]? = some item ∧ item.range = ⟨⟨0, 5⟩, ⟨0, 6⟩⟩ ∧
          d.rangeAt [.bool true] = .ok ⟨⟨0, 0⟩, ⟨1, 0⟩⟩ := by
  have reads : ((parse misspelling none).toOption.map fun d =>
      ((d.data.walk? [.bool true]).map Value.node, (d.rangeAt [.bool true]).toOption.map id, decide <|
        ∀ id < d.data.graph.containers.size,
          ∀ e ∈ d.data.graph.children (.container id), e.2.isBeyond id = true)) =
      some (some (.scalar (.int 1)), some ⟨⟨0, 0⟩, ⟨1, 0⟩⟩, true) := by
    decide +kernel
  have places : ((Yaml.reading? misspelling).toOption.map fun found => found.map fun r =>
      (r.built.origin? r.root [.bool true]).bind fun last =>
        r.nodes.items[last]?.map Yaml.Item.range) = some (some (some ⟨⟨0, 5⟩, ⟨0, 6⟩⟩)) := by
    decide +kernel
  obtain ⟨d, parsed, known⟩ := exists_ok_of_toOption reads
  obtain ⟨walks, known⟩ := Prod.mk.inj known
  obtain ⟨ranged, nested⟩ := Prod.mk.inj known
  obtain ⟨v, walk, here⟩ := Option.map_eq_some_iff.mp walks
  obtain ⟨range, found, rfl⟩ := exists_ok_of_toOption ranged
  have acyclic := d.data.acyclic_of_increasing (of_decide_eq_true nested)
  rcases exists_origin parsed walk with
    ⟨_, nothing⟩ | ⟨r, last, item, read, whole, origin, built, among⟩
  · cases nothing
  · rw [read] at places
    have place : (r.built.origin? r.root [.bool true]).bind (fun last =>
        r.nodes.items[last]?.map Yaml.Item.range) = some ⟨⟨0, 5⟩, ⟨0, 6⟩⟩ :=
      Option.some.inj (Option.some.inj places)
    rw [origin, Option.bind_some, among] at place
    exact ⟨d, parsed, acyclic, v, walk, here, r, last, item, read, whole, origin, built, among,
      Option.some.inj place, found⟩

end Document
end DocLint
