import DocLint.Check.Ordering
import DocLint.Proofs.Lists
import DocLint.Proofs.Value.Order

/-!
# The first break of an order

The check of order compares neighbours only. Of items that are all texts or all integers it has nothing to report
exactly if no item is greater than one behind it, and otherwise it reports the first item that is greater than the
next one, up to which the items are in order (`Check.alphabetical_reports_first_break`).
-/
namespace DocLint

/-- What an item is compared by: a mapping by what it holds under the key that the option `keyedBy` names, null if
there is nothing, and all else by itself. -/
inductive Value.ComparedBy (keyedBy : Option Value) (item : Value) : Value → Prop
  | unkeyed (absent : keyedBy = none) : ComparedBy keyedBy item item
  | other (noMapping : item.entries? = none) : ComparedBy keyedBy item item
  | keyed {name : Value} {key : Scalar} (given : keyedBy = some name) (isKey : name.scalar? = some key)
      (mapping : item.entries?.isSome) : ComparedBy keyedBy item ((item.get? key).getD (Value.ofScalar .null))

/-- What is compared of a value: what the items of a list are compared by, or the keys of a mapping. -/
inductive Value.Compares (v options : Value) (compared : List Value) : Prop
  | items {items : List Value} (isList : v.view = .list items)
      (each : List.Forall₂ (ComparedBy (options.present? "keyedBy")) items compared)
  | keys {entries : List (Scalar × Value)} (isMapping : v.view = .mapping entries)
      (same : compared = entries.map fun e => Value.ofScalar e.1)

namespace Check
variable {v options : Value} {items compared : List Value} {keyedBy : Option Value}

theorem comparedItems_of_comparedBy (each : List.Forall₂ (Value.ComparedBy keyedBy) items compared) :
    comparedItems items keyedBy = .ok compared := by
  cases keyedBy with
  | none =>
    refine congrArg Except.ok ?_
    induction each with
    | nil => rfl
    | cons first _ ih =>
      rw [ih]
      cases first with
      | keyed given => cases given
      | _ => rfl
  | some name =>
    unfold comparedItems
    dsimp only
    induction each with
    | nil => rfl
    | cons first _ ih =>
      rw [List.mapM_cons, ih]
      cases first with
      | unkeyed absent => cases absent
      | other noMapping =>
        rw [noMapping]
        rfl
      | keyed given isKey mapping =>
        cases given
        obtain ⟨entries, mapping⟩ := Option.isSome_iff_exists.mp mapping
        rw [mapping, isKey]
        rfl

/-- The keys of a mapping are compared by themselves. -/
theorem comparedItems_keys (entries : List (Scalar × Value)) (keyedBy : Option Value) :
    comparedItems (entries.map fun e => Value.ofScalar e.1) keyedBy =
      .ok (entries.map fun e => Value.ofScalar e.1) := by
  refine comparedItems_of_comparedBy (List.forall₂_same.mpr fun key member => .other ?_)
  obtain ⟨e, _, rfl⟩ := List.mem_map.mp member
  rfl

/-- The check reports the first break of what is compared, at its position in a list. -/
theorem alphabetical_of_compares (compares : v.Compares options compared) (c : CheckContext) :
    alphabetical v options c =
      match firstBreak? 0 compared with
      | none => .answered none
      | some (i, current, following) =>
        .answered (some [⟨s!"{current.printed} must be placed after {following.printed}",
          if v.items?.isSome then [.int i] else []⟩]) := by
  cases compares with
  | items isList each =>
    rw [alphabetical, isList]
    simp only [orderProblem, comparedItems_of_comparedBy each, Value.items?, isList, Option.isSome_some, if_true]
    rfl
  | keys isMapping same =>
    rw [alphabetical, isMapping]
    simp only [orderProblem, comparedItems_keys, Value.items?, isMapping, Option.isSome_none,
      Bool.false_eq_true, if_false, same]
    rfl

/-- The search for a break goes on to the end, or stops at the first item that the next one comes before. -/
theorem firstBreak?_cases (start : Nat) (items : List Value) :
    (firstBreak? start items = none ∧ items.IsChain fun v w => precedes w v = false) ∨
      ∃ i current following, firstBreak? start items = some (start + i, current, following) ∧
        items[i]? = some current ∧ items[i + 1]? = some following ∧ precedes following current = true ∧
        (items.take (i + 1)).IsChain fun v w => precedes w v = false := by
  induction items generalizing start with
  | nil => exact .inl ⟨rfl, .nil⟩
  | cons current rest ih =>
    cases rest with
    | nil => exact .inl ⟨rfl, .singleton current⟩
    | cons following rest =>
      rw [firstBreak?]
      cases broken : precedes following current with
      | true => exact .inr ⟨0, current, following, by simp, rfl, rfl, broken, .singleton current⟩
      | false =>
        rcases ih (start + 1) with ⟨none, chain⟩ | ⟨i, x, y, found, here, next, less, chain⟩
        · exact .inl ⟨by simpa using none, .cons_cons broken chain⟩
        · refine .inr ⟨i + 1, x, y, ?_, here, next, less, ?_⟩
          · simpa [Nat.add_comm, Nat.add_left_comm] using found
          · exact .cons_cons broken chain

/-- Among comparable values the search for a break finds none and they are in order, or it finds the first item that
the next one is less than, and up to there they are in order. -/
theorem firstBreak?_of_comparable (comparable : Value.Comparable items) :
    (firstBreak? 0 items = none ∧ Value.InOrder items) ∨
      ∃ i current following, firstBreak? 0 items = some (i, current, following) ∧
        items[i]? = some current ∧ items[i + 1]? = some following ∧ following.IsLess current ∧
        Value.InOrder (items.take (i + 1)) := by
  have ordered : ∀ n, ((items.take n).IsChain fun v w => precedes w v = false) → Value.InOrder (items.take n) := by
    intro n chain
    have among : ∀ {x}, x ∈ items.take n → x ∈ items := fun member => List.mem_of_mem_take member
    refine Value.inOrder_of_isChain (comparable.imp (fun all v member => all v (among member))
      fun all v member => all v (among member)) ?_
    refine chain.imp_of_mem_imp fun v w first second apart less => ?_
    rw [(precedes_iff_isLess comparable (among second) (among first)).mpr less] at apart
    cases apart
  rcases firstBreak?_cases 0 items with ⟨none, chain⟩ | ⟨i, current, following, found, here, next, less, chain⟩
  · refine .inl ⟨none, ?_⟩
    rw [← List.take_length (l := items)] at chain ⊢
    exact ordered _ chain
  · have less' := (precedes_iff_isLess comparable (List.mem_of_getElem? next) (List.mem_of_getElem? here)).mp less
    exact .inr ⟨i, current, following, by simpa using found, here, next, less', ordered _ chain⟩

/-- Of comparable items the check has nothing to report if and only if no item is greater than one behind it.
Otherwise it has one finding: an item that is greater than the next one, which its message puts the other way round,
at its position in a list and without one in a mapping. No such item stands before it: up to it the items are in
order. -/
theorem alphabetical_reports_first_break (c : CheckContext) (compares : v.Compares options compared)
    (comparable : Value.Comparable compared) :
    (alphabetical v options c = .answered none ↔ Value.InOrder compared) ∧
    (¬ Value.InOrder compared → ∃ (i : Nat) (current following : Value),
      compared[i]? = some current ∧ compared[i + 1]? = some following ∧ following.IsLess current ∧
      (∀ (k : Nat) (x y : Value), k < i → compared[k]? = some x → compared[k + 1]? = some y → ¬ y.IsLess x) ∧
      Value.InOrder (compared.take (i + 1)) ∧
      alphabetical v options c =
        .answered (some [⟨s!"{current.printed} must be placed after {following.printed}",
          if v.items?.isSome then [.int i] else []⟩])) := by
  rw [alphabetical_of_compares compares c]
  rcases firstBreak?_of_comparable comparable with
    ⟨none, ordered⟩ | ⟨i, current, following, found, here, next, less, before⟩
  · rw [none]
    exact ⟨iff_of_true rfl ordered, fun broken => absurd ordered broken⟩
  · rw [found]
    have broken : ¬ Value.InOrder compared := fun ordered =>
      ordered.not_isLess (Nat.lt_succ_self i) here next less
    refine ⟨iff_of_false nofun broken, fun _ => ⟨i, current, following, here, next, less, ?_, before, rfl⟩⟩
    -- an earlier break would be one among the items up to this one
    intro k x y earlier first second
    refine before.not_isLess (Nat.lt_succ_self k) ?_ ?_
    · rw [List.getElem?_take_of_lt (by omega), first]
    · rw [List.getElem?_take_of_lt (by omega), second]

/-- A list of tags, each with a name. -/
def tags : Value :=
  ⟨⟨#[.list [.container 1, .container 2, .container 3, .container 4],
      .mapping [(.str "name", .scalar (.str "Pets"))],
      .mapping [(.str "name", .scalar (.str "owners"))],
      .mapping [(.str "name", .scalar (.str "Visits"))],
      .mapping [(.str "name", .scalar (.str "Clinics"))]]⟩, .container 0⟩

/-- The option to compare by name. -/
def byName : Value :=
  ⟨⟨#[.mapping [(.str "keyedBy", .scalar (.str "name"))]]⟩, .container 0⟩

/-- What the tags are compared by: their names. -/
def tagNames : List Value :=
  ["Pets", "owners", "Visits", "Clinics"].map fun name => ⟨tags.graph, .scalar (.str name)⟩

/-- The tags as a document of their own. -/
def atTags : CheckContext where
  rule := "sorted-tags"
  path := []
  inventory := .ofDocument
    { data := tags, source := some "tags.yaml",
      text := some "- name: Pets\n- name: owners\n- name: Visits\n- name: Clinics\n" } none none

theorem tags_first_break :
    tags.Compares byName tagNames ∧ Value.Comparable tagNames ∧
      alphabetical tags byName atTags =
        .answered (some [⟨"\"owners\" must be placed after \"Visits\"", [.int 1]⟩]) ∧
      ¬ Value.InOrder tagNames ∧ Value.InOrder (tagNames.take 2) := by
  have keyed (id : Nat) (name : String) (mapping : (⟨tags.graph, .container id⟩ : Value).entries?.isSome)
      (named : Value.get? ⟨tags.graph, .container id⟩ (.str "name") = some ⟨tags.graph, .scalar (.str name)⟩) :
      Value.ComparedBy (byName.present? "keyedBy") ⟨tags.graph, .container id⟩
        ⟨tags.graph, .scalar (.str name)⟩ := by
    have given : byName.present? "keyedBy" = some ⟨byName.graph, .scalar (.str "name")⟩ := rfl
    have compared := Value.ComparedBy.keyed given rfl mapping
    rwa [named] at compared
  have compares : tags.Compares byName tagNames := by
    have isList : tags.view = .list ([1, 2, 3, 4].map fun id => ⟨tags.graph, .container id⟩) := rfl
    refine .items isList ?_
    exact .cons (keyed 1 "Pets" rfl rfl) (.cons (keyed 2 "owners" rfl rfl)
      (.cons (keyed 3 "Visits" rfl rfl) (.cons (keyed 4 "Clinics" rfl rfl) .nil)))
  have comparable : Value.Comparable tagNames := .inl (by decide)
  have found : alphabetical tags byName atTags =
      .answered (some [⟨"\"owners\" must be placed after \"Visits\"", [.int 1]⟩]) := by
    rfl
  obtain ⟨fine, reports⟩ := alphabetical_reports_first_break atTags compares comparable
  have broken : ¬ Value.InOrder tagNames := fun ordered => by
    rw [fine.mpr ordered] at found
    cases found
  obtain ⟨i, current, following, _, _, _, _, ordered, found'⟩ := reports broken
  have finding := (List.cons.inj (Option.some.inj (Outcome.answered.inj (found.symm.trans found')))).1
  have place : [Scalar.int 1] = [.int i] := congrArg Finding.path finding
  cases place
  exact ⟨compares, comparable, found, broken, ordered⟩

end Check
end DocLint
