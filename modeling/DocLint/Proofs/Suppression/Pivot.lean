import DocLint.Proofs.Lists
import DocLint.Suppression.Declaration

/-!
# Declarations by rule

Reading declarations that are all legible gives every named rule the locations declared under its name
(`mem_locations_pivot`), and what one rule gets does not depend on which other rules there are
(`lookup_pivot_congr`).
-/
namespace DocLint

/-- Whether a text is a location does not depend on the directories that it is read in. -/
theorem Location.exists_parse_ok {workingDir workingDir' written : String} {base base' : Option String}
    {l : Location} (ok : parse workingDir base written = .ok l) :
    ∃ l', parse workingDir' base' written = .ok l' := by
  cases hash : splitAtHash written.toList with
  | none => simp [parse, hash] at ok
  | some parts =>
    obtain ⟨name, pointer⟩ := parts
    simp only [parse, hash] at ok ⊢
    split at ok
    · exact ⟨_, rfl⟩
    · exact ⟨_, rfl⟩
    · cases ok

namespace Declarations

/-- All locations can be read. -/
def Legible (workingDir : String) (base : Option String) (d : Declarations) : Prop :=
  ∀ declared ∈ d, ∀ written ∈ declared.2, ∃ l, Location.parse workingDir base written = .ok l

variable {workingDir : String} {base : Option String} {d : Declarations}

theorem Legible.tail {declared : String × List String}
    (legible : Legible workingDir base (declared :: d)) : Legible workingDir base d :=
  fun other member => legible other (List.mem_cons_of_mem _ member)

/-- Legible declarations are read for any rules. -/
theorem Legible.pivot_ok (legible : d.Legible workingDir base) (rules : List String) :
    ∃ suppressions, (d.pivot workingDir base rules).2 = .ok suppressions := by
  induction d with
  | nil => exact ⟨[], rfl⟩
  | cons declared rest ih =>
    obtain ⟨rule, written⟩ := declared
    obtain ⟨others, read⟩ := ih legible.tail
    obtain ⟨locations, mine⟩ := exists_mapM_ok (legible (rule, written) List.mem_cons_self)
    by_cases known : rules.contains rule = true
    · refine ⟨if locations.isEmpty then others else (rule, locations) :: others, ?_⟩
      simp only [pivot, known, if_true, mine, read, Except.map]
    · refine ⟨others, ?_⟩
      simp only [pivot, known, Bool.false_eq_true, if_false, read]

/-- What one step of reading gives: the locations of a known rule in front, unless it has none. -/
theorem pivot_cons {rule : String} {written : List String} {rules : List String}
    {suppressions : Suppressions}
    (read : (pivot workingDir base rules ((rule, written) :: d)).2 = .ok suppressions) :
    ∃ others, (d.pivot workingDir base rules).2 = .ok others ∧
      ((rule ∉ rules ∧ suppressions = others) ∨
        ∃ locations, rule ∈ rules ∧ written.mapM (Location.parse workingDir base) = .ok locations ∧
          suppressions = if locations.isEmpty then others else (rule, locations) :: others) := by
  by_cases known : rules.contains rule = true
  · cases mine : written.mapM (Location.parse workingDir base) with
    | error failure => simp only [pivot, known, if_true, mine, reduceCtorEq] at read
    | ok locations =>
      simp only [pivot, known, if_true, mine] at read
      cases below : (d.pivot workingDir base rules).2 with
      | error failure => simp only [below, Except.map, reduceCtorEq] at read
      | ok others =>
        simp only [below, Except.map, Except.ok.injEq] at read
        exact ⟨others, rfl, Or.inr ⟨locations, by simpa using known, rfl, read.symm⟩⟩
  · simp only [pivot, known, Bool.false_eq_true, if_false] at read
    exact ⟨suppressions, read, Or.inl ⟨by simpa using known, rfl⟩⟩

/-- The locations of a rule do not depend on which other rules are known. -/
theorem lookup_pivot_congr {rules rules' : List String} {suppressions suppressions' : Suppressions}
    (read : (d.pivot workingDir base rules).2 = .ok suppressions)
    (read' : (d.pivot workingDir base rules').2 = .ok suppressions') {name : String}
    (alike : name ∈ rules ↔ name ∈ rules') :
    suppressions.lookup name = suppressions'.lookup name := by
  induction d generalizing suppressions suppressions' with
  | nil =>
    cases read
    cases read'
    rfl
  | cons declared rest ih =>
    obtain ⟨rule, written⟩ := declared
    obtain ⟨others, below, step⟩ := pivot_cons read
    obtain ⟨others', below', step'⟩ := pivot_cons read'
    have same := ih below below'
    have skip : rule ≠ name → ∀ (locations : List Location) (rest : Suppressions),
        (if locations.isEmpty then rest else (rule, locations) :: rest).lookup name =
          rest.lookup name := by
      intro different locations rest
      have unlike : (name == rule) = false := by simpa using Ne.symm different
      split
      · rfl
      · rw [List.lookup_cons, unlike]
    by_cases own : rule = name
    · subst own
      rcases step with ⟨unknown, rfl⟩ | ⟨locations, known, mine, rfl⟩
      · rcases step' with ⟨_, rfl⟩ | ⟨_, known', _⟩
        · exact same
        · exact absurd (alike.mpr known') unknown
      · rcases step' with ⟨unknown', _⟩ | ⟨locations', _, mine', rfl⟩
        · exact absurd (alike.mp known) unknown'
        · rw [mine, Except.ok.injEq] at mine'
          subst locations'
          split
          · exact same
          · simp only [List.lookup_cons_self]
    · rcases step with ⟨_, rfl⟩ | ⟨locations, _, _, rfl⟩ <;>
        rcases step' with ⟨_, rfl⟩ | ⟨locations', _, _, rfl⟩ <;>
        simp only [skip own, same]

/-- The rules that get locations are declared, each as often and in their order. -/
theorem keys_pivot_sublist {rules : List String} {suppressions : Suppressions}
    (read : (d.pivot workingDir base rules).2 = .ok suppressions) :
    (suppressions.map Prod.fst).Sublist (d.map Prod.fst) := by
  induction d generalizing suppressions with
  | nil =>
    cases read
    exact .slnil
  | cons declared rest ih =>
    obtain ⟨rule, written⟩ := declared
    obtain ⟨others, below, step⟩ := pivot_cons read
    rcases step with ⟨_, rfl⟩ | ⟨locations, _, _, rfl⟩
    · exact (ih below).cons rule
    · split
      · exact (ih below).cons rule
      · exact (ih below).cons_cons rule

/-- What is read: the locations of each declaration for a known rule that has any. -/
theorem mem_pivot_iff {rules : List String} {suppressions : Suppressions}
    (read : (d.pivot workingDir base rules).2 = .ok suppressions) (name : String)
    (locations : List Location) :
    (name, locations) ∈ suppressions ↔ name ∈ rules ∧ ∃ written, (name, written) ∈ d ∧ written ≠ [] ∧
      written.mapM (Location.parse workingDir base) = .ok locations := by
  induction d generalizing suppressions with
  | nil =>
    cases read
    simp
  | cons declared rest ih =>
    obtain ⟨rule, written⟩ := declared
    obtain ⟨others, below, step⟩ := pivot_cons read
    simp only [List.mem_cons, Prod.mk.injEq, or_and_right, exists_or, and_or_left, ← ih below]
    rcases step with ⟨unknown, rfl⟩ | ⟨found, known, mine, rfl⟩
    · refine (or_iff_right ?_).symm
      rintro ⟨known, _, ⟨rfl, _⟩, _⟩
      exact unknown known
    · have here : (name ∈ rules ∧ ∃ written', (name = rule ∧ written' = written) ∧ written' ≠ [] ∧
          written'.mapM (Location.parse workingDir base) = .ok locations) ↔
          (name = rule ∧ locations = found) ∧ found ≠ [] := by
        have empty : written ≠ [] ↔ found ≠ [] := by
          rw [← List.length_pos_iff, ← List.length_pos_iff, (forall₂_of_mapM_ok mine).length_eq]
        constructor
        · rintro ⟨_, _, ⟨rfl, rfl⟩, full, read⟩
          exact ⟨⟨rfl, (Except.ok.inj (mine.symm.trans read)).symm⟩, empty.mp full⟩
        · rintro ⟨⟨rfl, rfl⟩, full⟩
          exact ⟨known, written, ⟨rfl, rfl⟩, empty.mpr full, mine⟩
      rw [here]
      split <;> simp_all

/-- Names that are not declared have no locations. -/
theorem lookup_pivot_of_not_mem {rules : List String} {suppressions : Suppressions} {name : String}
    (read : (d.pivot workingDir base rules).2 = .ok suppressions)
    (undeclared : name ∉ d.map Prod.fst) : suppressions.lookup name = none := by
  induction d generalizing suppressions with
  | nil =>
    cases read
    rfl
  | cons declared rest ih =>
    obtain ⟨rule, written⟩ := declared
    obtain ⟨others, below, step⟩ := pivot_cons read
    simp only [List.map_cons, List.mem_cons, not_or] at undeclared
    have unlike : (name == rule) = false := by simpa using undeclared.1
    rcases step with ⟨_, rfl⟩ | ⟨locations, _, _, rfl⟩
    · exact ih below undeclared.2
    · split
      · exact ih below undeclared.2
      · rw [List.lookup_cons, unlike]
        exact ih below undeclared.2

/-- The locations of a known rule are those that are declared under its name. -/
theorem mem_locations_pivot {rules : List String} {suppressions : Suppressions} {name : String}
    (legible : d.Legible workingDir base) (unique : (d.map Prod.fst).Nodup) (known : name ∈ rules)
    (read : (d.pivot workingDir base rules).2 = .ok suppressions) (l : Location) :
    l ∈ (suppressions.lookup name).getD [] ↔
      ∃ declared ∈ d, declared.1 = name ∧
        ∃ written ∈ declared.2, Location.parse workingDir base written = .ok l := by
  induction d generalizing suppressions with
  | nil =>
    cases read
    simp
  | cons declared rest ih =>
    obtain ⟨rule, written⟩ := declared
    obtain ⟨others, below, step⟩ := pivot_cons read
    simp only [List.map_cons, List.nodup_cons] at unique
    have later := ih legible.tail unique.2 below
    simp only [List.mem_cons, exists_eq_or_imp]
    by_cases own : rule = name
    · subst own
      have absent := lookup_pivot_of_not_mem below unique.1
      have elsewhere : ¬ ∃ declared ∈ rest, declared.1 = rule ∧
          ∃ written ∈ declared.2, Location.parse workingDir base written = .ok l := by
        rintro ⟨declared, member, same, _⟩
        exact unique.1 (List.mem_map.mpr ⟨declared, member, same⟩)
      rcases step with ⟨unknown, _⟩ | ⟨locations, _, mine, rfl⟩
      · exact absurd known unknown
      · rw [or_iff_left elsewhere]
        split
        case isTrue empty =>
          rw [List.isEmpty_iff] at empty
          simp [absent, ← mem_mapM_ok mine, empty]
        case isFalse => simp [← mem_mapM_ok mine]
    · have unlike : (name == rule) = false := by simpa using Ne.symm own
      rcases step with ⟨_, rfl⟩ | ⟨locations, _, _, rfl⟩
      · simpa [own] using later
      · split
        · simpa [own] using later
        · simpa [own, List.lookup_cons, unlike] using later

end Declarations
end DocLint
