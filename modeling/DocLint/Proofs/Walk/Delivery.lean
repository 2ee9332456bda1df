import DocLint.Proofs.Walk.Depth
import DocLint.Run.Switchboard
import Mathlib.Data.List.Perm.Basic

/-!
# Who is told by a shared walk

Rules that share a walk also share its depth limit and its listeners' failures. Neither shows: the walk
tells them what they would be told if every node were listed first and every rule tried on each
(`traverse_tells_as_listed`), and so each rule is told the same with others as alone.
-/
namespace DocLint

namespace Walk

/-- The notices for some of the rules are those of a walk for them alone. -/
theorem notices_filter_rules (rules : List Rule) (nodes : List GivenNode) (mine : Rule → Bool) :
    (notices rules nodes).filter (fun t => mine t.1) = notices (rules.filter mine) nodes := by
  simp only [notices, List.filter_flatMap, List.filter_map, Function.comp_def, List.filter_filter,
    Bool.and_comm]

/-- A rule alone is told of the nodes whose paths it selects. -/
theorem notices_alone (r : Rule) (nodes : List GivenNode) :
    notices [r] nodes = (nodes.filter fun n => r.matches n.path).map fun n => (r, n) := by
  unfold notices
  induction nodes with
  | nil => rfl
  | cons n rest ih =>
    rw [List.flatMap_cons, ih]
    cases selected : r.matches n.path <;> simp [selected]

/-- In another order of the rules the same ones are told of the same nodes. -/
theorem notices_perm {rules rules' : List Rule} (perm : rules.Perm rules') (nodes : List GivenNode) :
    (notices rules nodes).Perm (notices rules' nodes) :=
  List.Perm.flatMap_left nodes fun n _ => (perm.filter (·.matches n.path)).map _

/-- The rules that a shared walk tells of nodes are rules of the walk. -/
theorem rule_of_mem_notices {rules : List Rule} {nodes : List GivenNode} {t : Rule × GivenNode}
    (told : t ∈ notices rules nodes) : t.1 ∈ rules := by
  obtain ⟨node, _, matching⟩ := List.mem_flatMap.mp told
  obtain ⟨rule, selected, rfl⟩ := List.mem_map.mp matching
  exact (List.mem_filter.mp selected).1

end Walk

namespace Switchboard

/-- What a notice adds to the events: those whose listener records are recorded. -/
def recorded (b : Switchboard) (notice : Rule × GivenNode) : Option (String × Path) :=
  match b.listeners.lookup notice.1.name with
  | some (.record label) => some (label, notice.2.path)
  | _ => none

/-- A notice keeps the listeners, is noted and reaches a listener that records, whatever comes of it. -/
theorem notify_effects (b : Switchboard) (rule : Rule) (node : GivenNode) :
    (b.notify rule node).1.listeners = b.listeners ∧
    (b.notify rule node).1.told = b.told ++ [(rule, node)] ∧
    (b.notify rule node).1.events = b.events ++ (b.recorded (rule, node)).toList := by
  unfold notify recorded
  cases found : b.listeners.lookup rule.name with
  | none => simp [found]
  | some listener =>
    cases listener with
    | record label => simp [found]
    | refuse reason => simp [found]
    | lint run => cases present : b.runs[run]? <;> simp [found, lintFor, present]

/-- Notices are passed on to the last one, in order and whichever listeners fail. -/
theorem deliver_effects (b : Switchboard) (notices : List (Rule × GivenNode)) :
    (b.deliver notices).1.listeners = b.listeners ∧
    (b.deliver notices).1.told = b.told ++ notices ∧
    (b.deliver notices).1.events = b.events ++ notices.filterMap b.recorded := by
  induction notices generalizing b with
  | nil => simp [deliver]
  | cons notice rest ih =>
    obtain ⟨rule, node⟩ := notice
    obtain ⟨listeners, told, events⟩ := notify_effects b rule node
    obtain ⟨listeners', told', events'⟩ := ih (b.notify rule node).1
    have same : (b.notify rule node).1.recorded = b.recorded := by
      funext notice
      simp only [recorded, listeners]
    refine ⟨listeners'.trans listeners, ?_, ?_⟩
    · simpa [deliver, told] using told'
    · rw [same] at events'
      simp only [deliver, events', events, List.filterMap_cons, List.append_assoc]
      cases b.recorded (rule, node) <;> rfl

/-- What a walk leaves on the switchboard is what its notices leave. -/
theorem traverse_board (b : Switchboard) (tree : Value) (rules : List Rule) :
    (b.traverse tree rules).board = (b.deliver (Walk.notices rules (Walk.nodes tree none))).1 := by
  by_cases empty : rules = []
  · subst rules
    have silent : Walk.notices [] (Walk.nodes tree none) = [] := by
      simp [Walk.notices, List.flatMap_eq_nil_iff]
    rw [silent]
    rfl
  · simp only [traverse, List.isEmpty_eq_false_iff.mpr empty, Bool.false_eq_true, if_false,
      Walk.notices_depthLimit]

/-- A shared walk of an acyclic value tells its rules what the naive matcher does, which lists all nodes
in pre-order and tries every rule on each, in the order of the rules. So do its listeners record it,
whichever of them fail; and what some of the rules are told is what a walk for them alone tells. -/
theorem traverse_tells_as_listed (b : Switchboard) (tree : Value) (rules : List Rule)
    (acyclic : tree.Acyclic) :
    let listed := tree.preorder.flatMap fun n =>
      (rules.filter fun r => r.matches n.path).map fun r => (r, n)
    (b.traverse tree rules).board.told = b.told ++ listed ∧
    (b.traverse tree rules).board.events = b.events ++ listed.filterMap b.recorded ∧
    ∀ (other : Switchboard) (mine : Rule → Bool) (own : List Rule), rules.filter mine = own →
      (other.traverse tree own).board.told =
        other.told ++ listed.filter fun notice => mine notice.1 := by
  intro listed
  have reference : Walk.notices rules (Walk.nodes tree none) = listed := by
    rw [Walk.nodes_unlimited acyclic]
    rfl
  obtain ⟨_, told, events⟩ := deliver_effects b (Walk.notices rules (Walk.nodes tree none))
  rw [traverse_board, ← reference]
  refine ⟨told, events, ?_⟩
  rintro other mine own rfl
  rw [traverse_board, (deliver_effects other _).2.1, Walk.notices_filter_rules]

/-- Two rules of different depth, of which the first has a listener that fails. -/
def shallowAndDeep : List Rule :=
  [{ Rule.standard "shallow" [] with strategy := .walk [⟨"$.*", [.any]⟩] },
    { Rule.standard "deep" [] with strategy := .walk [⟨"$..x", [.descend, .key "x"]⟩] }]

theorem traverse_sharedParts :
    Value.sharedParts.Acyclic ∧
    (((Switchboard.empty.attach "shallow" (.refuse "no")).attach "deep" (.record "seen")).traverse
        Value.sharedParts shallowAndDeep).board.events =
      [("seen", [.str "a", .int 1, .str "x"]), ("seen", [.str "b", .str "x"])] := by
  have acyclic : Value.sharedParts.Acyclic :=
    (Value.isTree_of_increasing _ (by decide) (by decide)).acyclic
  refine ⟨acyclic, ?_⟩
  rw [(traverse_tells_as_listed _ Value.sharedParts shallowAndDeep acyclic).2.1]
  decide

end Switchboard
end DocLint
