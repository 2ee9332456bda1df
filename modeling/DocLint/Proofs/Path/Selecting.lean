import DocLint.Path.Selector
import Mathlib.Data.List.Infix

/-!
# The paths that selectors select

Selectors select a path in parts, one for each selector: a segment that it accepts, or any part for a descent
(`selects_cons`). The bound on the length of paths only keeps the matcher from trying (`matches_eq_selects`).
-/
namespace DocLint

/-- What is left of a path from one of its segments on. -/
theorem mem_nonemptySuffixes {p q : Path} : q ∈ nonemptySuffixes p ↔ q ≠ [] ∧ q <:+ p := by
  induction p with
  | nil => simp +contextual [nonemptySuffixes]
  | cons s p ih =>
    rw [nonemptySuffixes, List.mem_cons, ih, List.suffix_cons_iff]
    constructor
    · rintro (rfl | ⟨given, later⟩)
      · exact ⟨by simp, .inl rfl⟩
      · exact ⟨given, .inr later⟩
    · rintro ⟨given, rfl | later⟩
      · exact .inl rfl
      · exact .inr ⟨given, later⟩

theorem selects_nil_path (s : Selector) (ss : List Selector) : selects (s :: ss) [] = false := by
  cases s <;> rfl

theorem selects_cons_path {s : Selector} (lands : s ≠ .descend) (ss : List Selector) (segment : Segment) (p : Path) :
    selects (s :: ss) (segment :: p) = (s.accepts segment && selects ss p) := by
  cases s with
  | descend => exact absurd rfl lands
  | any | key | index => rfl

/-- A descent in front of other selectors selects what these select from somewhere on. -/
theorem selects_descend {ss : List Selector} {p : Path} (lands : ss ≠ []) :
    selects (.descend :: ss) p = true ↔ ∃ a b, p = a ++ b ∧ selects ss b = true := by
  obtain ⟨t, ss, rfl⟩ := List.exists_cons_of_ne_nil lands
  change ((nonemptySuffixes p).any fun q => selects (t :: ss) q) = true ↔ _
  rw [List.any_eq_true]
  constructor
  · rintro ⟨b, left, selected⟩
    obtain ⟨_, a, rfl⟩ := mem_nonemptySuffixes.mp left
    exact ⟨a, b, rfl, selected⟩
  · rintro ⟨a, b, rfl, selected⟩
    refine ⟨b, mem_nonemptySuffixes.mpr ⟨?_, List.suffix_append a b⟩, selected⟩
    -- nothing is left behind the path, and there the next selector has nothing to accept
    rintro rfl
    rw [selects_nil_path] at selected
    cases selected

theorem selects_segment {s : Selector} {ss : List Selector} {p : Path} (lands : s ≠ .descend) :
    selects (s :: ss) p = true ↔
      ∃ segment rest, p = segment :: rest ∧ s.accepts segment = true ∧ selects ss rest = true := by
  cases p with
  | nil => simp [selects_nil_path]
  | cons segment rest => simp [selects_cons_path lands]

/-- The paths that a single selector takes: a segment that it accepts, or any path for a descent. -/
def Selector.Takes (s : Selector) (p : Path) : Prop :=
  s = .descend ∨ ∃ segment, p = [segment] ∧ s.accepts segment = true

/-- Selectors select what the first takes and the others select from there. A descent must be followed by
another selector. -/
theorem selects_cons {s : Selector} {ss : List Selector} {p : Path} (lands : s = .descend → ss ≠ []) :
    selects (s :: ss) p = true ↔ ∃ a b, p = a ++ b ∧ s.Takes a ∧ selects ss b = true := by
  by_cases descends : s = .descend
  · simp [descends, selects_descend (lands descends), Selector.Takes]
  · rw [selects_segment descends]
    constructor
    · rintro ⟨segment, rest, rfl, accepted, onward⟩
      exact ⟨[segment], rest, rfl, .inr ⟨segment, rfl, accepted⟩, onward⟩
    · rintro ⟨a, rest, rfl, taken, onward⟩
      obtain ⟨segment, rfl, accepted⟩ := taken.resolve_left descends
      exact ⟨segment, rest, rfl, accepted, onward⟩

/-- Without a descent selectors select paths of their number only. -/
theorem length_of_selects {ss : List Selector} {p : Path} (flat : .descend ∉ ss)
    (selected : selects ss p = true) : p.length = ss.length := by
  induction ss generalizing p with
  | nil => simpa [selects] using selected
  | cons s ss ih =>
    simp only [List.mem_cons, not_or] at flat
    obtain ⟨segment, rest, rfl, _, onward⟩ := (selects_segment (Ne.symm flat.1)).mp selected
    rw [List.length_cons, List.length_cons, ih flat.2 onward]

/-- The bound on the length of paths does not show. -/
theorem CompiledPath.matches_eq_selects (c : CompiledPath) (p : Path) :
    c.matches p = selects c.selectors p := by
  cases flat : c.selectors.any (· == .descend) with
  | true => simp [«matches», maxDepth, flat]
  | false =>
    cases selected : selects c.selectors p with
    | false => simp [«matches», maxDepth, flat, selected]
    | true =>
      have depth := length_of_selects (by simpa using List.any_eq_false.mp flat .descend) selected
      simp [«matches», maxDepth, flat, selected, depth]

end DocLint
