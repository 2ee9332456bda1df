import DocLint.Proofs.Query.Places
import DocLint.Proofs.Run.Identity

/-!
# The standard query and the matcher

An expression that compiles is answered by the standard query too, when it stands in a rule that has another
expression which does not compile. On a tree with textual keys both select the same nodes, if both read the
names and blanks of the expression alike and none of its keys spells a position of a list (`standard_agrees`).
Without these conditions they differ (`standard_disagrees`).
-/
namespace DocLint
open Query

namespace PathQuery

/-- Places of a tree are selected with their paths and values. -/
theorem selectionOf_eq_complete {places : List Place} (placed : ∀ p ∈ places, p.computed = none) :
    selectionOf places = .complete (places.map fun p => (p.path, p.value)) := by
  induction places with
  | nil => rfl
  | cons p rest ih =>
    rw [List.forall_mem_cons] at placed
    rw [selectionOf, placed.1, ih placed.2]
    rfl

section
variable {e : String} {c : CompiledPath} {tree : Value}

/-- What the standard query finds for an expression that reads alike is what the matcher selects. -/
theorem agrees_of_readsAlike (compiles : CompiledPath.ofExpression? e = some c) (alike : ReadsAlike e)
    (isTree : tree.IsTree) (textual : tree.graph.IsTextual)
    (unspelled : tree.graph.SpellsNoPosition c.selectors) : standard.Agrees e tree := by
  obtain ⟨ts, scanned, spells⟩ := scan?_of_compiles compiles alike
  have root : ∀ p ∈ [Place.ofRoot tree], p.Inside tree.graph := by
    rintro _ (_ | ⟨_, ⟨⟩⟩)
    exact ⟨rfl, isTree.acyclic⟩
  obtain ⟨places, followed, all⟩ := followSteps_leads isTree.distinct textual c.selectors
    spells.getLast?_ne_descend unspelled [.ofRoot tree] root
  simp only [List.mem_singleton, exists_eq_left] at all
  have placed : ∀ q ∈ places, q.computed = none := by
    intro q member
    obtain ⟨path, _, leads⟩ := (all q).mp member
    exact leads.path_eq.2
  have started : followSteps [.ofRoot tree] (.root :: c.selectors.map Selector.step) = .ok places := by
    rw [followSteps]
    exact followed
  have answer : standard e tree = .complete (places.map fun p => (p.path, p.value)) := by
    simp only [standard, parse?_of_spells scanned spells, started, selectionOf_eq_complete placed]
  refine ⟨by rw [answer]; rfl, fun p v => ?_⟩
  have reached := Place.exists_leads_iff (p := .ofRoot tree) isTree.distinct rfl p v
  have selected : (∃ c', CompiledPath.ofExpression? e = some c' ∧ c'.matches p = true) ↔
      selects c.selectors p = true := by
    simp [compiles, CompiledPath.matches_eq_selects]
  rw [answer, selected]
  simp only [Selection.complete, List.mem_map, Prod.mk.injEq]
  constructor
  · rintro ⟨q, member, rfl, rfl⟩
    obtain ⟨path, selected, leads⟩ := (all q).mp member
    obtain rfl : q.path = path := leads.path_eq.1
    exact ⟨reached.mp ⟨q, leads, rfl⟩, selected⟩
  · rintro ⟨found, selected⟩
    obtain ⟨q, leads, rfl⟩ := reached.mpr found
    exact ⟨q, (all q).mpr ⟨p, selected, leads⟩, leads.path_eq.1, rfl⟩

/-- For an expression whose query agrees with the matcher a rule that is evaluated by queries selects what
it would select for this expression alone in a shared walk. -/
theorem selectsNode_of_agrees (compiles : CompiledPath.ofExpression? e = some c) {context : RunContext}
    {r : Rule} (agrees : context.query.Agrees e (context.inventory.tree r.resolved))
    (plain : r.isPrecompiled = false) {before after : List String} (given : r.given = before ++ e :: after)
    (n : GivenNode) :
    context.SelectsNode r n ↔ context.SelectsNode { r with given := [e] }.compile n ∨
      context.SelectsNode { r with given := before ++ after } n := by
  have walks : { r with given := [e] }.compile = { r with given := [e], strategy := .walk [c] } := by
    simp [Rule.compile, compiles]
  have alone : context.SelectsNode { r with given := [e] }.compile n ↔
      (context.inventory.tree r.resolved).walk? n.path = some n.value ∧ c.matches n.path = true := by
    simp [walks, RunContext.SelectsNode, Rule.isPrecompiled, Rule.matches, Rule.expressions]
  have others : { r with given := before ++ after }.isPrecompiled = false := plain
  have own : (∃ c', CompiledPath.ofExpression? e = some c' ∧ c'.matches n.path = true) ↔
      c.matches n.path = true := by simp [compiles]
  rw [alone, ← own]
  simp only [RunContext.SelectsNode, plain, others, given, Bool.false_eq_true, if_false]
  constructor
  · rintro ⟨leads, e', member, yielded⟩
    rw [List.mem_append, List.mem_cons] at member
    rcases member with member | rfl | member
    · exact .inr ⟨leads, e', List.mem_append_left _ member, yielded⟩
    · exact .inl ⟨leads, (selects_iff (fun _ => agrees) leads).mp yielded⟩
    · exact .inr ⟨leads, e', List.mem_append_right _ member, yielded⟩
  · rintro (⟨leads, selected⟩ | ⟨leads, e', member, yielded⟩)
    · exact ⟨leads, e, by simp, (selects_iff (fun _ => agrees) leads).mpr selected⟩
    · refine ⟨leads, e', ?_, yielded⟩
      rw [List.mem_append] at member ⊢
      exact member.imp_right (List.mem_cons_of_mem e)

/-- For an expression that both read alike the standard query finds what the matcher selects, on a tree with
textual keys and where no key of the expression spells a position of a list. So a rule that is evaluated by
queries because of its other expressions selects for this one what it would select in a shared walk. -/
theorem standard_agrees (compiles : CompiledPath.ofExpression? e = some c) (alike : ReadsAlike e)
    (isTree : tree.IsTree) (textual : tree.graph.IsTextual)
    (unspelled : tree.graph.SpellsNoPosition c.selectors) :
    standard.Agrees e tree ∧
    ∀ (context : RunContext) (r : Rule) (before after : List String), context.query = standard →
      context.inventory.tree r.resolved = tree → r.isPrecompiled = false →
      r.given = before ++ e :: after → ∀ n, context.SelectsNode r n ↔
        context.SelectsNode { r with given := [e] }.compile n ∨
          context.SelectsNode { r with given := before ++ after } n := by
  have agrees := agrees_of_readsAlike compiles alike isTree textual unspelled
  refine ⟨agrees, ?_⟩
  rintro context r before after query rfl plain given
  exact selectsNode_of_agrees compiles (query ▸ agrees) plain given

end

theorem sharedParts_agrees :
    standard.Agrees "$.a..x\n" Value.sharedParts ∧
    ∃ v, ([.str "a", .int 1, .str "x"], v) ∈ (standard "$.a..x\n" Value.sharedParts).found := by
  have compiles : CompiledPath.ofExpression? "$.a..x\n" =
      some ⟨"$.a..x\n", [.key "a", .descend, .key "x"]⟩ := by decide +kernel
  have bare : CompiledPath.bareNames ((Text.trim "$.a..x\n").toList.drop 1) =
      [(['a'], "..x".toList), (['x'], [])] := by decide +kernel
  have alike : ReadsAlike "$.a..x\n" := by
    refine ⟨⟨[], ['\n'], by decide +kernel, by simp [Token.isBetween]⟩, ?_⟩
    rw [bare]
    rintro n (_ | ⟨_, _ | ⟨_, ⟨⟩⟩⟩) <;> exact .word (by decide +kernel) (by simp) (by decide +kernel)
  have textual : Value.sharedParts.graph.IsTextual := by
    intro entries mapping
    have among : entries = [(.str "a", .container 1), (.str "b", .container 2)] ∨
        entries = [(.str "x", .scalar (.int 1))] := by simpa [Value.sharedParts] using mapping
    rcases among with rfl | rfl <;> simp
  have unspelled : Value.sharedParts.graph.SpellsNoPosition [.key "a", .descend, .key "x"] := by
    intro items list
    obtain rfl : items = [.scalar .null, .container 2] := by simpa [Value.sharedParts] using list
    decide
  have isTree := Value.isTree_of_increasing Value.sharedParts (by decide) (by decide)
  have agrees := (standard_agrees compiles alike isTree textual unspelled).1
  exact ⟨agrees, _, (agrees.found _ _).mpr ⟨rfl, _, compiles, by decide⟩⟩

/-- A value with a list. -/
def enumerated : Value :=
  ⟨⟨#[.mapping [(.str "enum", .container 1)], .list [.scalar (.str "a"), .scalar (.str "b")]]⟩,
    .container 0⟩

/-- The root mark as a name is the root for the standard query and a key for the matcher, and a key that
spells a position is that position for the matcher alone. -/
theorem standard_disagrees :
    (RunRequest.markedValue.IsTree ∧ RunRequest.markedValue.graph.IsTextual ∧
      CompiledPath.ofExpression? "$.$" = some ⟨"$.$", [.key "$"]⟩ ∧
      ¬ standard.Agrees "$.$" RunRequest.markedValue) ∧
    enumerated.IsTree ∧ enumerated.graph.IsTextual ∧
      CompiledPath.ofExpression? "$.enum.1" = some ⟨"$.enum.1", [.key "enum", .key "1"]⟩ ∧
      ¬ standard.Agrees "$.enum.1" enumerated := by
  have marked : CompiledPath.ofExpression? "$.$" = some ⟨"$.$", [.key "$"]⟩ := by decide +kernel
  have spelled : CompiledPath.ofExpression? "$.enum.1" = some ⟨"$.enum.1", [.key "enum", .key "1"]⟩ := by
    decide +kernel
  have atRoot : (standard "$.$" RunRequest.markedValue).found.map Prod.fst = [[]] := by decide +kernel
  have nowhere : (standard "$.enum.1" enumerated).found.map Prod.fst = [] := by decide +kernel
  refine ⟨⟨Value.isTree_of_increasing _ (by decide) (by decide), ?_, marked, fun agrees => ?_⟩,
    Value.isTree_of_increasing _ (by decide) (by decide), ?_, spelled, fun agrees => ?_⟩
  · simp [Graph.IsTextual, RunRequest.markedValue, rootMark]
  · have found := (agrees.found [rootMark] _).mpr ⟨rfl, _, marked, by decide⟩
    have path := List.mem_map_of_mem (f := Prod.fst) found
    rw [atRoot] at path
    simp at path
  · simp [Graph.IsTextual, enumerated]
  · have found := (agrees.found [.str "enum", .int 1] _).mpr ⟨rfl, _, spelled, by decide⟩
    have path := List.mem_map_of_mem (f := Prod.fst) found
    rw [nowhere] at path
    cases path

end PathQuery
end DocLint
