import DocLint.Proofs.Lists
import DocLint.Proofs.Tree
import DocLint.Proofs.Yaml.Filling
import Mathlib.Data.List.Induction

/-!
# Where values come from

The nodes of a text from which the parts of its value were built. A part of a list comes from the item of
the sequence at its position, and a part of a mapping from the last entry whose key reads as its segment,
among those that the mapping has when it is built. So every path of the value leads to a node of the text
whose value stands there (`Builder.Sound.origin`).
-/
namespace DocLint.Yaml

/-- Among entries with one more, those under its key have its value and the others are old. -/
theorem mem_insertEntry {entries : List (Scalar × Node)} {key s : Scalar} {node n : Node}
    (member : (s, n) ∈ Build.insertEntry entries key node) :
    (s.same key = true ∧ n = node) ∨ (s.same key = false ∧ (s, n) ∈ entries) := by
  unfold Build.insertEntry at member
  split at member
  · obtain ⟨e, before, same⟩ := List.mem_map.mp member
    cases again : e.1.same key with
    | true =>
      rw [if_pos again] at same
      cases same
      exact .inl ⟨again, rfl⟩
    | false =>
      rw [if_neg (by simp [again])] at same
      subst same
      exact .inr ⟨again, before⟩
  · next new =>
    rcases List.mem_append.mp member with before | this
    · refine .inr ⟨?_, before⟩
      by_contra again
      exact new (List.any_eq_true.mpr ⟨_, before, by simpa using again⟩)
    · cases List.mem_singleton.mp this
      exact .inl ⟨Scalar.same_refl key, rfl⟩

/-- An entry of a mapping that was built has the value that came last under its key. -/
theorem mem_foldl_insertEntry {pairs : List (Scalar × Node)} {s : Scalar} {n : Node}
    (member : (s, n) ∈ pairs.foldl (fun read p => Build.insertEntry read p.1 p.2) []) :
    ∃ t, pairs.reverse.find? (fun p => s.same p.1) = some (t, n) := by
  induction pairs using List.reverseRecOn with
  | nil => cases member
  | append_singleton rest last ih =>
    rw [List.foldl_append] at member
    rw [List.reverse_append, List.reverse_singleton, List.singleton_append, List.find?_cons]
    rcases mem_insertEntry member with ⟨same, rfl⟩ | ⟨unlike, before⟩
    · exact ⟨last.1, by rw [same]⟩
    · rw [unlike]
      exact ih before

namespace Builder

/-- Whether a node was read as a key that counts as a segment. -/
def reads (b : Builder) (s : Segment) (key : Nat) : Bool :=
  match b.built.lookup key with
  | some (.scalar t) => s.same t
  | _ => false

/-- The node from which the part of a value under a segment was built. -/
def part? (b : Builder) (id : Nat) (s : Segment) : Option Nat :=
  match contentAt b.items id with
  | some (.sequence parts) =>
    match s with
    | .int (.ofNat i) => parts[i]?
    | _ => none
  | some (.mapping entries) => (entries.reverse.find? fun e => b.reads s e.1).map Prod.snd
  | _ => none

/-- The node from which the value at a path was built. -/
def origin? (b : Builder) : Nat → Path → Option Nat
  | id, [] => some id
  | id, s :: rest => (b.part? id s).bind fun part => origin? b part rest

/-- A value that was built of a node: the one that the node was given, or a pair. -/
def Built (b : Builder) (id : Nat) (n : Node) : Prop :=
  b.built.lookup id = some n ∨ b.HasPair id n

variable {g : NodeGraph} {b : Builder}

/-- The parts of a value that a node was given were built of the parts of that node. -/
theorem Sound.part (sound : Sound g [] b) (ended : b.waiting = []) {id : Nat} {n m : Node} {s : Segment}
    (given : b.built.lookup id = some n) (member : (s, m) ∈ Graph.children ⟨b.containers⟩ n) :
    ∃ part, b.part? id s = some part ∧ b.Built part m := by
  cases n with
  | scalar x => cases member
  | container c =>
    obtain ⟨k, present, makes⟩ := sound.made ended given
    simp only [Graph.children, present] at member
    -- a list has the values of the parts at their positions
    have ofList : ∀ {parts : List Nat} {nodes : List Node} {related : Nat → Node → Prop},
        contentAt b.items id = some (.sequence parts) → List.Forall₂ related parts nodes →
        (∀ {part n}, related part n → b.Built part n) →
        (s, m) ∈ nodes.zipIdx.map (fun e => (Scalar.int e.2, e.1)) →
        ∃ part, b.part? id s = some part ∧ b.Built part m := by
      intro parts nodes related content made built among
      obtain ⟨⟨n, i⟩, here, same⟩ := List.mem_map.mp among
      cases same
      obtain ⟨part, there, this⟩ := exists_getElem?_of_forall₂ made (List.mem_zipIdx_iff_getElem?.mp here)
      exact ⟨part, by rw [part?, content]; exact there, built this⟩
    cases makes with
    | list content made => exact ofList content made .inl member
    | pairs content made => exact ofList content made .inr member
    | set members => cases member
    | @mapping entries pairs content own made =>
      obtain ⟨t, found⟩ := mem_foldl_insertEntry member
      obtain ⟨e, last, has⟩ := exists_find?_of_forall₂ (p := fun e => b.reads s e.1)
        (List.forall₂_reverse_iff.mpr made) (fun has => by simp only [reads, has.1]) found
      exact ⟨e.2, by rw [part?, content]; exact congrArg (Option.map Prod.snd) last, .inl has.2⟩

/-- A pair has no parts that a path leads to. -/
theorem HasPair.children_eq {part : Nat} {n : Node} (has : b.HasPair part n) :
    Graph.children ⟨b.containers⟩ n = [] := by
  obtain ⟨c, _, _, _, _, rfl, _, _, _, _, _, filled⟩ := has
  simp [Graph.children, filled]

/-- Every path of a value leads to the node from which what stands there was built. -/
theorem Sound.origin (sound : Sound g [] b) (ended : b.waiting = []) {id : Nat} {n : Node} {p : Path}
    {v : Value} (built : b.Built id n) (walk : Value.walk? ⟨⟨b.containers⟩, n⟩ p = some v) :
    ∃ last, b.origin? id p = some last ∧ b.Built last v.node := by
  induction p generalizing id n with
  | nil =>
    cases walk
    exact ⟨id, rfl, built⟩
  | cons s rest ih =>
    obtain ⟨w, first, others⟩ := Option.bind_eq_some_iff.mp walk
    obtain ⟨m, rfl, member⟩ := Value.child?_eq_some first
    rcases built with given | pair
    · obtain ⟨part, leads, built⟩ := sound.part ended given member
      obtain ⟨last, origin, result⟩ := ih built others
      exact ⟨last, by rw [origin?, leads, Option.bind_some, origin], result⟩
    · rw [pair.children_eq] at member
      cases member

/-- A node of which a value was built is one of the nodes of the text. -/
theorem Sound.exists_item (sound : Sound g [] b) {id : Nat} {n : Node} (built : b.Built id n) :
    ∃ item, g.items[id]? = some item := by
  have present : (contentAt b.items id).isSome := by
    rcases built with given | ⟨_, _, _, _, _, _, _, content, _⟩
    · exact (sound.present given).1
    · rw [content]
      rfl
  rw [sound.items.contentAt_isSome, contentAt, Option.isSome_map] at present
  exact Option.isSome_iff_exists.mp present

end Builder
end DocLint.Yaml
