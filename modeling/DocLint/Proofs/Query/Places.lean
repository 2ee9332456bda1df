import DocLint.Proofs.Lists
import DocLint.Proofs.Path.Selecting
import DocLint.Proofs.Query.Reading
import DocLint.Proofs.Tree
import DocLint.Query.Evaluation

/-!
# Where the steps of selectors lead

A path leads from one place of a tree to others (`Place.Leads`). The step of a selector leads along the
segments that the selector accepts (`step_from`), a descent along all paths (`withDescendants_leads`), and so
the steps of selectors lead along the paths that these select (`followSteps_leads`).
-/
namespace DocLint

/-- The keys of all mappings are texts. -/
def Graph.IsTextual (g : Graph) : Prop :=
  ∀ entries, Container.mapping entries ∈ g.containers → ∀ e ∈ entries, ∃ key, e.1 = .str key

/-- No key among some selectors spells a position of a list. -/
def Graph.SpellsNoPosition (g : Graph) (ss : List Selector) : Prop :=
  ∀ items, Container.list items ∈ g.containers →
    ∀ i < items.length, Selector.key (toString (i : Int)) ∉ ss

theorem Graph.SpellsNoPosition.mono {g : Graph} {ss ts : List Selector}
    (unspelled : g.SpellsNoPosition ss) (fewer : ts ⊆ ss) : g.SpellsNoPosition ts :=
  fun items list i inside member => unspelled items list i inside (fewer member)

namespace Query

/-- A path leads from a place to another. -/
inductive Place.Leads : Place → Path → Place → Prop
  | here (p : Place) : Leads p [] p
  | into {p q : Place} {path : Path} {e : Segment × Value} (part : e ∈ p.value.children)
      (onward : Leads (p.below e.1 e.2) path q) : Leads p (e.1 :: path) q

/-- A place in a graph, with no cycle below it. -/
structure Place.Inside (g : Graph) (p : Place) : Prop where
  graph : p.value.graph = g
  acyclic : p.value.Acyclic

namespace Place
variable {g : Graph} {p q m : Place} {a b path : Path}

@[simp] theorem value_below (p : Place) (segment : Segment) (v : Value) : (p.below segment v).value = v :=
  rfl

theorem Leads.append (first : p.Leads a m) (second : m.Leads b q) : p.Leads (a ++ b) q := by
  induction first with
  | here => exact second
  | into part _ ih => exact .into part (ih second)

theorem Leads.exists_of_append (leads : p.Leads (a ++ b) q) : ∃ m, p.Leads a m ∧ m.Leads b q := by
  induction a generalizing p with
  | nil => exact ⟨p, .here p, leads⟩
  | cons s a ih =>
    cases leads with
    | into part onward =>
      obtain ⟨m, first, second⟩ := ih onward
      exact ⟨m, .into part first, second⟩

/-- The place that a path leads to has the path behind it, and is computed no more than the first. -/
theorem Leads.path_eq (leads : p.Leads path q) : q.path = p.path ++ path ∧ q.computed = p.computed := by
  induction leads with
  | here => simp
  | into _ _ ih =>
    refine ⟨?_, ih.2⟩
    rw [ih.1]
    simp [Place.path, Place.below]

theorem Inside.below (inside : p.Inside g) {e : Segment × Value} (part : e ∈ p.value.children) :
    (p.below e.1 e.2).Inside g := by
  obtain ⟨entry, member, rfl⟩ := List.mem_map.mp part
  exact ⟨inside.graph, inside.acyclic.part ⟨_, member⟩⟩

theorem Leads.inside (leads : p.Leads path q) (inside : p.Inside g) : q.Inside g := by
  induction leads with
  | here => exact inside
  | into part _ ih => exact ih (inside.below part)

/-- Paths lead to places of the values that they lead to. -/
theorem exists_leads_iff (distinct : ∀ n, ((g.children n).map Prod.fst).Nodup)
    (here : p.value.graph = g) (path : Path) (v : Value) :
    (∃ q, p.Leads path q ∧ q.value = v) ↔ p.value.walk? path = some v := by
  induction path generalizing p with
  | nil =>
    constructor
    · rintro ⟨q, leads, rfl⟩
      cases leads
      rfl
    · intro found
      exact ⟨p, .here p, Option.some.inj found⟩
  | cons s path ih =>
    rw [Value.walk?, Option.bind_eq_some_iff]
    constructor
    · rintro ⟨q, leads, rfl⟩
      cases leads with
      | into part onward =>
        obtain ⟨entry, member, rfl⟩ := List.mem_map.mp part
        subst here
        exact ⟨_, Value.child?_of_mem (distinct _) member, (ih (value_below p _ _ ▸ rfl)).mp ⟨q, onward, rfl⟩⟩
    · rintro ⟨w, found, onward⟩
      obtain ⟨n, rfl, member⟩ := Value.child?_eq_some found
      have part : (s, (⟨p.value.graph, n⟩ : Value)) ∈ p.value.children :=
        List.mem_map.mpr ⟨(s, n), member, rfl⟩
      obtain ⟨q, leads, equal⟩ := (ih (p := p.below s ⟨p.value.graph, n⟩) here).mpr onward
      exact ⟨q, .into part leads, equal⟩

end Place

/-- What a value is made of: nothing that a segment leads to, the items of a list or the entries of a
mapping. -/
theorem children_cases (v : Value) :
    v.children = [] ∧ v.items? = none ∧ v.entries? = none ∨
    (∃ nodes, Container.list nodes ∈ v.graph.containers ∧ v.entries? = none ∧
      v.items? = some (nodes.map (⟨v.graph, ·⟩)) ∧
      v.children = nodes.zipIdx.map fun e => (.int e.2, ⟨v.graph, e.1⟩)) ∨
    (∃ entries, Container.mapping entries ∈ v.graph.containers ∧ v.items? = none ∧
      v.entries? = some v.children ∧ v.children = entries.map fun e => (e.1, ⟨v.graph, e.2⟩)) := by
  obtain ⟨g, node⟩ := v
  cases node with
  | scalar s => exact .inl ⟨rfl, rfl, rfl⟩
  | container id =>
    cases found : g.containers[id]? with
    | none => simp [Value.children, Graph.children, Value.items?, Value.entries?, Value.view, found]
    | some container =>
      have member : container ∈ g.containers := Array.mem_of_getElem? found
      cases container with
      | list nodes =>
        refine .inr (.inl ⟨nodes, member, ?_⟩)
        simp [Value.children, Graph.children, Value.items?, Value.entries?, Value.view, found]
      | mapping entries =>
        refine .inr (.inr ⟨entries, member, ?_⟩)
        simp [Value.children, Graph.children, Value.items?, Value.entries?, Value.view, found]
      | tuple items => simp [Value.children, Graph.children, Value.items?, Value.entries?, Value.view, found]
      | set members => simp [Value.children, Graph.children, Value.items?, Value.entries?, Value.view, found]

section
variable {g : Graph} {p : Place}

/-- A key leads to the parts that its selector accepts, which are no items of lists. -/
theorem mem_underKeys (distinct : ∀ n, ((g.children n).map Prod.fst).Nodup) (textual : g.IsTextual)
    (here : p.value.graph = g) {key : String} (unspelled : g.SpellsNoPosition [.key key]) (q : Place) :
    q ∈ p.underKeys [key] ↔
      ∃ e ∈ p.value.children, (Selector.key key).accepts e.1 = true ∧ p.below e.1 e.2 = q := by
  subst here
  rcases children_cases p.value with ⟨parts, _, entries⟩ | ⟨nodes, list, entries, _, parts⟩ |
    ⟨es, mapping, _, entries, parts⟩
  · simp [Place.underKeys, parts, entries]
  · simp only [Place.underKeys, entries, List.not_mem_nil, false_iff]
    rintro ⟨e, part, accepted, _⟩
    rw [parts] at part
    obtain ⟨⟨node, i⟩, item, rfl⟩ := List.mem_map.mp part
    have spelled : toString (i : Int) = key := by simpa [Selector.accepts] using accepted
    have inside : i < nodes.length := by simpa using List.snd_lt_of_mem_zipIdx item
    exact unspelled nodes list i inside (by simp [spelled])
  · have texts : ∀ e ∈ p.value.children, ((Selector.key key).accepts e.1 = true ↔ e.1 = .str key) := by
      intro e part
      rw [parts] at part
      obtain ⟨entry, member, rfl⟩ := List.mem_map.mp part
      obtain ⟨text, same⟩ := textual es mapping entry member
      simp [same, Selector.accepts]
    have keys : (p.value.children.map Prod.fst).Nodup := by
      simpa [Value.children, Function.comp_def] using distinct p.value.node
    simp only [Place.underKeys, entries, List.mem_filterMap, List.mem_singleton, exists_eq_left,
      Option.map_eq_some_iff, find?_key_eq_some keys]
    constructor
    · rintro ⟨e, ⟨part, same⟩, rfl⟩
      exact ⟨e, part, (texts e part).mpr same, rfl⟩
    · rintro ⟨e, part, accepted, rfl⟩
      exact ⟨e, ⟨part, (texts e part).mp accepted⟩, rfl⟩

/-- A position leads to the part that its selector accepts, which is no entry of a mapping. -/
theorem mem_atPositions (textual : g.IsTextual) (here : p.value.graph = g) (n : Nat) (q : Place) :
    q ∈ p.atPositions [n] ↔
      ∃ e ∈ p.value.children, (Selector.index n).accepts e.1 = true ∧ p.below e.1 e.2 = q := by
  subst here
  rcases children_cases p.value with ⟨parts, items, _⟩ | ⟨nodes, _, _, items, parts⟩ |
    ⟨es, mapping, items, _, parts⟩
  · simp [Place.atPositions, parts, items]
  · have item : Place.item? (nodes.map (⟨p.value.graph, ·⟩)) n = nodes[n]?.map (⟨p.value.graph, ·⟩) := by
      have least : ¬ (n : Int) < 0 := by omega
      simp [Place.item?, least]
    simp only [Place.atPositions, items, parts, List.mem_filterMap, List.mem_singleton, exists_eq_left,
      item, Option.map_eq_some_iff, List.mem_map]
    constructor
    · rintro ⟨_, ⟨node, listed, rfl⟩, rfl⟩
      exact ⟨_, ⟨(node, n), List.mem_zipIdx_iff_getElem?.mpr listed, rfl⟩, by simp [Selector.accepts], rfl⟩
    · rintro ⟨_, ⟨⟨node, i⟩, listed, rfl⟩, accepted, rfl⟩
      obtain rfl : i = n := Int.ofNat_inj.mp (by simpa [Selector.accepts] using accepted)
      exact ⟨_, ⟨node, List.mem_zipIdx_iff_getElem?.mp listed, rfl⟩, rfl⟩
  · simp only [Place.atPositions, items, List.not_mem_nil, false_iff]
    rintro ⟨e, part, accepted, _⟩
    rw [parts] at part
    obtain ⟨entry, member, rfl⟩ := List.mem_map.mp part
    obtain ⟨text, same⟩ := textual es mapping entry member
    simp [same, Selector.accepts] at accepted

/-- Below a place without cycles are the places that paths lead to from there. -/
theorem withDescendants_leads (fuel : Nat) (enclosing : List Nat) (inside : p.Inside g)
    (within : g.Encloses enclosing p.value.node) (enough : g.containers.size < fuel + enclosing.length) :
    ∃ qs, p.withDescendants fuel enclosing = .ok qs ∧ ∀ q, q ∈ qs ↔ ∃ path, p.Leads path q := by
  have bound := within.length_le
  induction fuel generalizing p enclosing with
  | zero => omega
  | succ fuel ih =>
    rw [Place.withDescendants]
    split
    next s scalar =>
      have bare : p.value.children = [] := by simp [Value.children, scalar, Graph.children]
      refine ⟨_, rfl, fun q => ?_⟩
      constructor
      · intro member
        obtain rfl := List.mem_singleton.mp member
        exact ⟨[], .here _⟩
      · rintro ⟨path, leads⟩
        cases leads with
        | here => exact List.mem_singleton_self _
        | into part => simp [bare] at part
    next id container =>
      have acyclic : Value.Acyclic ⟨g, .container id⟩ := by
        rw [← container, ← inside.graph]
        exact inside.acyclic
      rw [container] at within
      have fresh := acyclic.not_enclosing within
      have deeper : ∀ child ∈ p.children, ∃ qs, child.withDescendants fuel (id :: enclosing) = .ok qs ∧
          ∀ q, q ∈ qs ↔ ∃ path, child.Leads path q := by
        intro child member
        obtain ⟨e, part, rfl⟩ := List.mem_map.mp member
        obtain ⟨entry, has, rfl⟩ := List.mem_map.mp part
        rw [container, inside.graph] at has
        have inner := within.step fresh ⟨_, has⟩
        refine ih (id :: enclosing) (inside.below part) inner ?_ inner.length_le
        simp only [List.length_cons]
        omega
      obtain ⟨lists, gathered, all⟩ := exists_mapM_flatten deeper
      rw [if_neg fresh, gathered]
      refine ⟨_, rfl, fun q => ?_⟩
      rw [List.mem_cons, all]
      constructor
      · rintro (rfl | ⟨child, below, path, onward⟩)
        · exact ⟨[], .here _⟩
        · obtain ⟨e, part, rfl⟩ := List.mem_map.mp below
          exact ⟨_, .into part onward⟩
      · rintro ⟨path, leads⟩
        cases leads with
        | here => exact .inl rfl
        | into part onward => exact .inr ⟨_, List.mem_map.mpr ⟨_, part, rfl⟩, _, onward⟩

/-- The step of a selector leads from a place along the paths that the selector takes. -/
theorem step_from (distinct : ∀ n, ((g.children n).map Prod.fst).Nodup) (textual : g.IsTextual)
    {s : Selector} (unspelled : g.SpellsNoPosition [s]) (inside : p.Inside g) :
    ∃ qs, s.step.from p = .ok qs ∧ ∀ q, q ∈ qs ↔ ∃ path, s.Takes path ∧ p.Leads path q := by
  -- all selectors but a descent lead to the parts whose segments they accept
  have parts : ∀ {qs : List Place}, s ≠ .descend →
      (∀ q, q ∈ qs ↔ ∃ e ∈ p.value.children, s.accepts e.1 = true ∧ p.below e.1 e.2 = q) →
      ∀ q, q ∈ qs ↔ ∃ path, s.Takes path ∧ p.Leads path q := by
    intro qs lands accepted q
    rw [accepted]
    constructor
    · rintro ⟨e, part, accepts, rfl⟩
      exact ⟨[e.1], .inr ⟨e.1, rfl, accepts⟩, .into part (.here _)⟩
    · rintro ⟨path, taken, leads⟩
      obtain ⟨segment, rfl, accepts⟩ := taken.resolve_left lands
      cases leads with
      | into part onward =>
        cases onward
        exact ⟨_, part, accepts, rfl⟩
  have here := inside.graph
  cases s with
  | key key =>
    exact ⟨_, Step.from.eq_def .., parts nofun (mem_underKeys distinct textual here unspelled)⟩
  | index n => exact ⟨_, Step.from.eq_def .., parts nofun (mem_atPositions textual here n)⟩
  | any =>
    refine ⟨_, Step.from.eq_def .., parts nofun fun q => ?_⟩
    simp [Place.children, Selector.accepts]
  | descend =>
    have deep : g.containers.size < p.value.graph.depthBound + 1 + ([] : List Nat).length := by
      simp only [here, Graph.depthBound, List.length_nil]
      omega
    obtain ⟨qs, found, all⟩ := withDescendants_leads _ [] inside (.nil g _) deep
    refine ⟨qs, (Step.from.eq_def ..).trans found, fun q => ?_⟩
    simp [all, Selector.Takes]

/-- The steps of selectors lead along the paths that these select. -/
theorem followSteps_leads (distinct : ∀ n, ((g.children n).map Prod.fst).Nodup) (textual : g.IsTextual)
    (ss : List Selector) (lands : ss.getLast? ≠ some .descend) (unspelled : g.SpellsNoPosition ss)
    (places : List Place) (inside : ∀ p ∈ places, p.Inside g) :
    ∃ qs, followSteps places (ss.map Selector.step) = .ok qs ∧
      ∀ q, q ∈ qs ↔ ∃ p ∈ places, ∃ path, selects ss path = true ∧ p.Leads path q := by
  induction ss generalizing places with
  | nil =>
    refine ⟨places, rfl, fun q => ⟨fun member => ⟨q, member, [], rfl, .here q⟩, ?_⟩⟩
    rintro ⟨p, member, path, selected, leads⟩
    obtain rfl : path = [] := by simpa [selects] using selected
    cases leads
    exact member
  | cons s ss ih =>
    have flows : s = .descend → ss ≠ [] := by
      rintro rfl rfl
      simp at lands
    have first : ∀ p ∈ places, ∃ qs, s.step.from p = .ok qs ∧
        ∀ q, q ∈ qs ↔ ∃ path, s.Takes path ∧ p.Leads path q := fun p member =>
      step_from distinct textual (unspelled.mono (by simp)) (inside p member)
    obtain ⟨lists, gathered, between⟩ := exists_mapM_flatten first
    have settled : ∀ m ∈ lists.flatten, m.Inside g := by
      intro m member
      obtain ⟨p, among, path, _, leads⟩ := (between m).mp member
      exact leads.inside (inside p among)
    have lands' : ss.getLast? ≠ some .descend := by
      cases ss with
      | nil => simp
      | cons t ss => simpa using lands
    obtain ⟨qs, followed, all⟩ := ih lands' (unspelled.mono (by simp)) lists.flatten settled
    refine ⟨qs, ?_, fun q => ?_⟩
    · rw [List.map_cons, followSteps, gathered]
      exact followed
    · rw [all]
      constructor
      · rintro ⟨m, member, b, selected, onward⟩
        obtain ⟨p, among, a, taken, leads⟩ := (between m).mp member
        exact ⟨p, among, a ++ b, (selects_cons flows).mpr ⟨a, b, rfl, taken, selected⟩, leads.append onward⟩
      · rintro ⟨p, among, path, selected, leads⟩
        obtain ⟨a, b, rfl, taken, onward⟩ := (selects_cons flows).mp selected
        obtain ⟨m, there, further⟩ := leads.exists_of_append
        exact ⟨m, (between m).mpr ⟨p, among, a, taken, there⟩, b, onward, further⟩

end

end Query
end DocLint
