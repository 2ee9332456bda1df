import DocLint.Proofs.Path.Sameness
import DocLint.Proofs.Tree
import Mathlib.Data.List.Forall2
import Mathlib.Data.List.Pairwise

/-!
# Paths of a document

The keys of a mapping are different, also where different scalars count as one key. So in a value with such
mappings (`Graph.HasKeys`) two paths that count as one and lead somewhere are equal (`path_eq_of_same`).
-/
namespace DocLint

namespace Scalar

/-- Sameness of scalars is symmetric. -/
theorem same_symm {a b : Scalar} (same : a.same b = true) : b.same a = true := by
  rw [same_iff] at same ⊢
  rcases same with rfl | ⟨s, t, rfl, rfl, equal⟩ | ⟨some, equal⟩
  · exact Or.inl rfl
  · simp only [DateTime.same, Bool.and_eq_true, beq_iff_eq] at equal
    refine Or.inr (Or.inl ⟨t, s, rfl, rfl, ?_⟩)
    simp only [DateTime.same, equal.1, equal.2, beq_self_eq_true, Bool.and_self]
  · exact Or.inr (Or.inr ⟨equal ▸ some, equal.symm⟩)

end Scalar

/-- Every path counts as one with itself. -/
theorem Path.same_refl (p : Path) : p.same p = true := by
  induction p with
  | nil => rfl
  | cons s rest ih => simpa [Path.same, List.isEqv, Scalar.same_refl] using ih

theorem Path.same_iff (p q : Path) :
    p.same q = true ↔ List.Forall₂ (fun s t : Segment => s.same t = true) p q := by
  induction p generalizing q with
  | nil => cases q <;> simp [Path.same, List.isEqv]
  | cons s p ih =>
    cases q with
    | nil => simp [Path.same, List.isEqv]
    | cons t q =>
      rw [List.forall₂_cons, ← ih q]
      simp [Path.same, List.isEqv]

namespace Graph

/-- No two keys of a mapping count as one, and so no two segments that lead to parts of one node. -/
def HasKeys (g : Graph) : Prop :=
  ∀ n, ((g.children n).map Prod.fst).Pairwise fun a b => a.same b = false

variable {g : Graph}

/-- Segments that lead to parts of one node and count as one are equal. -/
theorem HasKeys.segment_eq (keyed : g.HasKeys) {node : Node} {s t : Segment} {n m : Node}
    (first : (s, n) ∈ g.children node) (second : (t, m) ∈ g.children node)
    (same : s.same t = true) : s = t := by
  have symmetric : Std.Symm fun a b : Scalar => a.same b = false :=
    ⟨fun a b apart => Bool.eq_false_iff.mpr fun same =>
      Bool.eq_false_iff.mp apart (Scalar.same_symm same)⟩
  by_contra different
  have apart := (keyed node).forall (List.mem_map.mpr ⟨_, first, rfl⟩)
    (List.mem_map.mpr ⟨_, second, rfl⟩) different
  exact Bool.eq_false_iff.mp apart same

/-- No two keys of a mapping have the same text. -/
def HasTexts (g : Graph) : Prop :=
  ∀ n, ((g.children n).map fun e => e.1.text).Nodup

/-- The keys of a graph are those of its containers. -/
theorem hasKeys_of_containers (apart : ∀ id < g.containers.size,
    ((g.children (.container id)).map Prod.fst).Pairwise fun a b => a.same b = false) : g.HasKeys :=
  forall_children (fun parts => (parts.map Prod.fst).Pairwise fun a b : Scalar => a.same b = false)
    List.Pairwise.nil apart

end Graph

namespace Value

/-- A value with keys and without cycles is a tree. -/
theorem isTree_of_hasKeys {v : Value} (acyclic : v.Acyclic) (keyed : v.graph.HasKeys) : v.IsTree := by
  refine ⟨acyclic, fun n => (keyed n).imp fun different equal => ?_⟩
  rw [equal, Scalar.same_refl] at different
  exact Bool.noConfusion different

section
variable {g : Graph} {node : Node} {p q : Path} {x y : Value}

/-- Paths that lead somewhere are equal if alike segments that lead to parts of one node are. -/
theorem path_eq_of_alike (alike : Segment → Segment → Prop)
    (apart : ∀ node s t n m, (s, n) ∈ g.children node → (t, m) ∈ g.children node → alike s t → s = t)
    (first : walk? ⟨g, node⟩ p = some x) (second : walk? ⟨g, node⟩ q = some y)
    (same : List.Forall₂ alike p q) : p = q := by
  induction same generalizing node with
  | nil => rfl
  | cons here _ ih =>
    obtain ⟨_, found, onward⟩ := Option.bind_eq_some_iff.mp first
    obtain ⟨_, found', onward'⟩ := Option.bind_eq_some_iff.mp second
    obtain ⟨n, rfl, member⟩ := child?_eq_some found
    obtain ⟨m, rfl, member'⟩ := child?_eq_some found'
    cases apart _ _ _ _ _ member member' here
    cases found.symm.trans found'
    rw [ih onward onward']

/-- Paths that lead somewhere and count as one are equal. -/
theorem path_eq_of_same (keyed : g.HasKeys) (first : walk? ⟨g, node⟩ p = some x)
    (second : walk? ⟨g, node⟩ q = some y) (same : p.same q = true) : p = q :=
  path_eq_of_alike _ (fun _ _ _ _ _ member member' => keyed.segment_eq member member') first second
    ((Path.same_iff p q).mp same)

/-- Paths that lead somewhere and have the same texts are equal. -/
theorem path_eq_of_texts (spelled : g.HasTexts) (first : walk? ⟨g, node⟩ p = some x)
    (second : walk? ⟨g, node⟩ q = some y) (same : p.texts = q.texts) : p = q := by
  refine path_eq_of_alike (fun s t => s.text = t.text) ?_ first second ?_
  · intro parent s t n m member member' equal
    exact congrArg Prod.fst (List.inj_on_of_nodup_map (spelled parent) member member' equal)
  · have listed := List.forall₂_eq_eq_eq (α := String) ▸ same
    rwa [Path.texts, Path.texts, List.forall₂_map_left_iff, List.forall₂_map_right_iff] at listed

end
end Value
end DocLint
