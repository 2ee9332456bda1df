import DocLint.Proofs.Path.Compiling
import DocLint.Proofs.Path.Selecting
import Mathlib.Data.List.Forall2

/-!
# Paths in pieces

What a compiled expression stands for, said without its matcher: it selects the paths that can be cut into
consecutive pieces, one for each selector, of which a descent takes any and every other selector takes a single
segment (`Selector.Covers`). The matcher, which looks for such a cut by trying, finds one exactly if there is
one (`CompiledPath.matches_iff_pieces`). A descent with nothing to land on is left out; no expression compiles
to one.
-/
namespace DocLint

/-- Whether a piece of a path is what a selector stands for: any piece for a descent, and one segment otherwise,
which is any at all, the integer of a position, or a key as a text or as the integer that it spells. -/
def Selector.Covers : Selector → Path → Prop
  | .descend, _ => True
  | .any, piece => ∃ segment, piece = [segment]
  | .index position, piece => piece = [.int position]
  | .key name, piece => piece = [.str name] ∨ ∃ i : Int, toString i = name ∧ piece = [.int i]

/-- Every descent is directly followed by a selector that is none. -/
def DescentsLand (ss : List Selector) : Prop :=
  ∀ i, ss[i]? = some .descend → ∃ s, ss[i + 1]? = some s ∧ s ≠ .descend

namespace DescentsLand
variable {s : Selector} {ss : List Selector}

theorem tail (lands : DescentsLand (s :: ss)) : DescentsLand ss :=
  fun i here => lands (i + 1) here

theorem ne_nil (lands : DescentsLand (s :: ss)) : s = .descend → ss ≠ [] := by
  rintro rfl rfl
  obtain ⟨_, none, _⟩ := lands 0 rfl
  cases none

/-- A descent may be put in front of what begins with another selector. -/
theorem descend_cons (lands : DescentsLand (s :: ss)) (lasts : s ≠ .descend) :
    DescentsLand (.descend :: s :: ss) := by
  intro i here
  cases i with
  | zero => exact ⟨s, rfl, lasts⟩
  | succ i => exact lands i here

theorem cons (lands : DescentsLand ss) (lasts : s ≠ .descend) : DescentsLand (s :: ss) := by
  intro i here
  cases i with
  | zero => exact absurd (Option.some.inj here) lasts
  | succ i => exact lands i here

end DescentsLand

/-- A position accepts its own integer, and neither a truth value nor a text. -/
theorem Selector.accepts_index {position : Nat} {segment : Segment} :
    (Selector.index position).accepts segment = true ↔ segment = .int position := by
  cases segment with
  | int i =>
    change (i == (position : Int)) = true ↔ _
    simp
  | null | bool | float | str | date | datetime | bytes | missing => exact ⟨nofun, nofun⟩

/-- A key accepts itself as a text and the integer that it spells. -/
theorem Selector.accepts_key {name : String} {segment : Segment} :
    (Selector.key name).accepts segment = true ↔
      segment = .str name ∨ ∃ i : Int, toString i = name ∧ segment = .int i := by
  cases segment with
  | int i =>
    change (toString i == name) = true ↔ _
    simp
  | str s =>
    change (s == name) = true ↔ _
    simp
  | null | bool | float | date | datetime | bytes | missing =>
    change false = true ↔ _
    simp

/-- The pieces that the matcher takes for a selector are those that the selector stands for. -/
theorem Selector.takes_iff_covers {s : Selector} {piece : Path} : s.Takes piece ↔ s.Covers piece := by
  cases s with
  | descend => simp [Takes, Covers]
  | any =>
    have all (segment : Segment) : Selector.any.accepts segment = true := rfl
    simp [Takes, Covers, all]
  | index position => simp only [Takes, Covers, accepts_index, reduceCtorEq, false_or, exists_eq_right]
  | key name =>
    constructor
    · intro taken
      obtain ⟨_, rfl, accepted⟩ := taken.resolve_left (by simp)
      rcases accepts_key.mp accepted with rfl | ⟨i, spelled, rfl⟩
      · exact .inl rfl
      · exact .inr ⟨i, spelled, rfl⟩
    · rintro (rfl | ⟨i, spelled, rfl⟩)
      · exact .inr ⟨_, rfl, accepts_key.mpr (.inl rfl)⟩
      · exact .inr ⟨_, rfl, accepts_key.mpr (.inr ⟨i, spelled, rfl⟩)⟩

/-- Selectors select the paths that can be cut into a piece for each of them. -/
theorem selects_iff_pieces {ss : List Selector} (lands : DescentsLand ss) {p : Path} :
    selects ss p = true ↔
      ∃ pieces : List Path, pieces.flatten = p ∧ List.Forall₂ Selector.Covers ss pieces := by
  induction ss generalizing p with
  | nil =>
    constructor
    · intro selected
      exact ⟨[], (List.isEmpty_iff.mp selected).symm, .nil⟩
    · rintro ⟨_, rfl, ⟨⟩⟩
      rfl
  | cons s ss ih =>
    rw [selects_cons lands.ne_nil]
    constructor
    · rintro ⟨a, b, rfl, taken, onward⟩
      obtain ⟨pieces, rfl, covered⟩ := (ih lands.tail).mp onward
      exact ⟨a :: pieces, rfl, .cons (Selector.takes_iff_covers.mp taken) covered⟩
    · rintro ⟨_, rfl, covered⟩
      obtain ⟨a, pieces, taken, onward, rfl⟩ := List.forall₂_cons_left_iff.mp covered
      exact ⟨a, pieces.flatten, rfl, Selector.takes_iff_covers.mpr taken,
        (ih lands.tail).mpr ⟨pieces, rfl, onward⟩⟩

namespace PathForm

/-- No selector of a single place is a descent. -/
theorem Target.selector_ne_descend (t : Target) : t.selector ≠ .descend := by
  cases t with
  | label l => cases l <;> exact nofun
  | bracket b => cases b <;> exact nofun

/-- Steps stand for selectors of which every descent is followed by its target. -/
theorem selectors_land (steps : List Step) : DescentsLand (selectors steps) := by
  induction steps with
  | nil => exact nofun
  | cons step steps ih =>
    cases step with
    | child l => exact ih.cons (Target.label l).selector_ne_descend
    | bracket b => exact ih.cons (Target.bracket b).selector_ne_descend
    | descent t => exact (ih.cons t.selector_ne_descend).descend_cons t.selector_ne_descend

end PathForm

namespace CompiledPath

/-- What compiles stands for the selectors of some steps, so every descent lands. -/
theorem descentsLand_of_ofExpression {expression : String} {c : CompiledPath}
    (compiled : ofExpression expression = .ok c) : DescentsLand c.selectors := by
  unfold ofExpression at compiled
  dsimp only at compiled
  split at compiled
  next rest text =>
    obtain ⟨selectors, read, rfl⟩ := exists_of_bind_pure compiled
    obtain ⟨steps, _, rfl⟩ := exists_of_readSteps read
    exact PathForm.selectors_land steps
  next => cases compiled

/-- An expression of which every descent is directly followed by another selector selects a path exactly if the
path can be cut into consecutive pieces, one for each selector, of the kinds that the selectors stand for. Every
expression that compiles is of this kind. -/
theorem matches_iff_pieces :
    (∀ c : CompiledPath, DescentsLand c.selectors → ∀ p : Path, c.matches p = true ↔
      ∃ pieces : List Path, pieces.flatten = p ∧ List.Forall₂ Selector.Covers c.selectors pieces) ∧
    ∀ expression c, ofExpression expression = .ok c → DescentsLand c.selectors := by
  refine ⟨fun c lands p => ?_, fun _ _ => descentsLand_of_ofExpression⟩
  rw [matches_eq_selects, selects_iff_pieces lands]

/-- Two descents, of which the first may stop early or late: `$..a[1]..*`. -/
def twoDescents : CompiledPath :=
  ⟨"$..a[1]..*", [.descend, .key "a", .index 1, .descend, .any]⟩

/-- A path with the key twice is cut behind its second occurrence, where the position follows. -/
theorem twoDescents_pieces :
    DescentsLand twoDescents.selectors ∧ ofExpression "$..a[1]..*" = .ok twoDescents ∧
    twoDescents.matches [.str "a", .str "a", .int 1, .bool true] = true ∧
    (∃ pieces : List Path, pieces.flatten = [.str "a", .str "a", .int 1, .bool true] ∧
      List.Forall₂ Selector.Covers twoDescents.selectors pieces) ∧
    ¬ ∃ pieces : List Path, pieces.flatten = [.str "a", .bool true, .str "b"] ∧
      List.Forall₂ Selector.Covers twoDescents.selectors pieces := by
  have compiled : ofExpression "$..a[1]..*" = .ok twoDescents := by decide +kernel
  have lands := matches_iff_pieces.2 _ _ compiled
  have selected : twoDescents.matches [.str "a", .str "a", .int 1, .bool true] = true := by decide
  have unselected : twoDescents.matches [.str "a", .bool true, .str "b"] ≠ true := by decide
  exact ⟨lands, compiled, selected, (matches_iff_pieces.1 _ lands _).mp selected,
    fun cut => unselected ((matches_iff_pieces.1 _ lands _).mpr cut)⟩

end CompiledPath
end DocLint
