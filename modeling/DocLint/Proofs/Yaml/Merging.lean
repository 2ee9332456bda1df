import DocLint.Proofs.Yaml.Steps

/-!
# Merging mappings

Under the special key `<<` a mapping takes over the entries of others. Merging puts them in front of its own
ones, which stay in their order, and takes the special key away (`gives_merge`). It changes nothing else but
a tag of keys, so a mapping without the special key is left as it is.
-/
namespace DocLint.Yaml

/-- Whether a node is the special key under which entries are taken over. -/
def isMerge (items : Array Item) (id : Nat) : Bool :=
  items[id]?.map Item.tag == some (Schema.standard "merge")

/-- The entries of a mapping but for those under the special key. -/
def ownEntries (items : Array Item) (entries : List (Nat × Nat)) : List (Nat × Nat) :=
  entries.filter fun e => !isMerge items e.1

theorem ownEntries_append (items : Array Item) (first second : List (Nat × Nat)) :
    ownEntries items (first ++ second) = ownEntries items first ++ ownEntries items second :=
  List.filter_append _ _

/-- Taking an entry under the special key away leaves the others. -/
theorem ownEntries_eraseIdx {items : Array Item} {entries : List (Nat × Nat)} {i : Nat} {e : Nat × Nat}
    (here : entries[i]? = some e) (merging : isMerge items e.1 = true) :
    ownEntries items (entries.eraseIdx i) = ownEntries items entries := by
  obtain ⟨bound, rfl⟩ := List.getElem?_eq_some_iff.mp here
  have gone : ownEntries items (entries[i] :: entries.drop (i + 1)) =
      ownEntries items (entries.drop (i + 1)) := List.filter_cons_of_neg (by simp [merging])
  rw [List.eraseIdx_eq_take_drop_succ, ownEntries_append, ← gone, ← ownEntries_append,
    ← List.drop_eq_getElem_cons bound, List.take_append_drop]

/-- A mapping with the special key. -/
def TakesOver (items : Array Item) (id : Nat) : Prop :=
  ∃ entries, contentAt items id = some (.mapping entries) ∧ ∃ e ∈ entries, isMerge items e.1 = true

/-- How merging changes nodes: mappings with the special key may have other entries in front of their own
ones. -/
structure Flattens (items items' : Array Item) : Prop where
  ranges : ∀ id : Nat, items'[id]?.map Item.range = items[id]?.map Item.range
  special : isMerge items' = isMerge items
  content : ∀ id c, contentAt items id = some c → contentAt items' id = some c ∨
    ∃ entries entries', c = .mapping entries ∧ contentAt items' id = some (.mapping entries') ∧
      (∃ e ∈ entries, isMerge items e.1 = true) ∧
      ownEntries items entries <:+ ownEntries items entries'

namespace Flattens
variable {items items' items'' : Array Item}

theorem refl (items : Array Item) : Flattens items items :=
  ⟨fun _ => rfl, rfl, fun _ _ here => .inl here⟩

theorem trans (first : Flattens items items') (second : Flattens items' items'') :
    Flattens items items'' := by
  refine ⟨fun id => (second.ranges id).trans (first.ranges id), second.special.trans first.special,
    fun id c here => ?_⟩
  rcases first.content id c here with same | ⟨entries, entries', rfl, changed, merging, suffix⟩
  · have after := second.content id c same
    simpa only [ownEntries, first.special] using after
  · refine .inr ⟨entries, ?_⟩
    rcases second.content id _ changed with same | ⟨between, entries'', held, again, _, suffix'⟩
    · exact ⟨entries', rfl, same, merging, suffix⟩
    · cases held
      simp only [ownEntries, first.special] at suffix'
      exact ⟨entries'', rfl, again, merging, suffix.trans suffix'⟩

/-- A node is among others before and after. -/
theorem contentAt_isSome (flat : Flattens items items') (id : Nat) :
    (contentAt items' id).isSome = (contentAt items id).isSome := by
  have ranges := congrArg Option.isSome (flat.ranges id)
  simpa [contentAt] using ranges

/-- A sequence was one before. -/
theorem sequence (flat : Flattens items items') {id : Nat} {parts : List Nat}
    (after : contentAt items' id = some (.sequence parts)) :
    contentAt items id = some (.sequence parts) := by
  have present := flat.contentAt_isSome id
  rw [after] at present
  obtain ⟨c, before⟩ := Option.isSome_iff_exists.mp present.symm
  rcases flat.content id c before with same | ⟨_, _, _, changed, _⟩
  · rw [before, ← same, after]
  · rw [after] at changed
    cases changed

/-- A sequence stays as it is. -/
theorem sequence_after (flat : Flattens items items') {id : Nat} {parts : List Nat}
    (before : contentAt items id = some (.sequence parts)) :
    contentAt items' id = some (.sequence parts) := by
  rcases flat.content id _ before with same | ⟨_, _, other, _⟩
  · exact same
  · cases other

/-- A mapping was one before, and its own entries are still the last ones. -/
theorem mapping (flat : Flattens items items') {id : Nat} {entries' : List (Nat × Nat)}
    (after : contentAt items' id = some (.mapping entries')) :
    ∃ entries, contentAt items id = some (.mapping entries) ∧
      ownEntries items entries <:+ ownEntries items entries' := by
  have present := flat.contentAt_isSome id
  rw [after] at present
  obtain ⟨c, before⟩ := Option.isSome_iff_exists.mp present.symm
  rcases flat.content id c before with same | ⟨entries, _, rfl, changed, _, suffix⟩
  · cases same.symm.trans after
    exact ⟨entries', before, List.suffix_rfl⟩
  · cases changed.symm.trans after
    exact ⟨entries, before, suffix⟩

/-- A mapping without the special key stays as it is. -/
theorem settled (flat : Flattens items items') {id : Nat} {entries : List (Nat × Nat)}
    (before : contentAt items id = some (.mapping entries))
    (none : ∀ e ∈ entries, isMerge items e.1 = false) :
    contentAt items' id = some (.mapping entries) := by
  rcases flat.content id _ before with same | ⟨_, _, held, _, ⟨e, member, merging⟩, _⟩
  · exact same
  · cases held
    rw [none e member] at merging
    cases merging

end Flattens

/-- Changing a node leaves what the change does not concern. -/
theorem map_modify {α : Type} {items : Array Item} {id : Nat} {change : Item → Item} {part : Item → α}
    (same : ∀ item, part (change item) = part item) (other : Nat) :
    (items.modify id change)[other]?.map part = items[other]?.map part := by
  rw [Array.getElem?_modify]
  split
  · rw [Option.map_map]
    exact congrArg (Option.map · items[other]?) (funext same)
  · rfl

/-- A mapping with the special key may get other entries, of which the own ones are the last. -/
theorem Flattens.setEntries {items items' : Array Item} (flat : Flattens items items') {id : Nat}
    {entries entries' : List (Nat × Nat)} (before : contentAt items id = some (.mapping entries))
    (merging : ∃ e ∈ entries, isMerge items e.1 = true)
    (suffix : ownEntries items entries <:+ ownEntries items entries') :
    Flattens items (items'.modify id fun item => { item with content := .mapping entries' }) := by
  refine ⟨fun other => ?_, funext fun other => ?_, fun other c here => ?_⟩
  · exact (map_modify (by exact fun _ => rfl) other).trans (flat.ranges other)
  · exact (congrArg (· == _) (map_modify (by exact fun _ => rfl) other)).trans
      (congrFun flat.special other)
  · by_cases same : id = other
    · subst other
      cases before.symm.trans here
      have present := flat.contentAt_isSome id
      rw [before] at present
      obtain ⟨c, after⟩ := Option.isSome_iff_exists.mp present
      obtain ⟨item, found, _⟩ := Option.map_eq_some_iff.mp after
      refine .inr ⟨entries, entries', rfl, ?_, merging, suffix⟩
      simp [contentAt, Array.getElem?_modify, found]
    · have elsewhere : contentAt (items'.modify id fun item =>
          { item with content := .mapping entries' }) other = contentAt items' other := by
        simp [contentAt, Array.getElem?_modify, same]
      rw [elsewhere]
      exact flat.content other c here

/-- The special key `=` as a text. -/
theorem flattens_retag {items : Array Item} {key : Nat} {item : Item} (here : items[key]? = some item)
    (named : item.tag = Schema.standard "value") :
    Flattens items (items.modify key fun item => { item with tag := Schema.standard "str" }) := by
  refine ⟨map_modify fun _ => rfl, funext fun other => ?_, fun other c held => .inl ?_⟩
  · rw [isMerge, isMerge, Array.getElem?_modify]
    split
    · subst other
      simp only [here, Option.map_some, named]
      decide
    · rfl
  · exact (map_modify (by exact fun _ => rfl) other).trans held

/-- What merging does to the state of building. -/
def Builder.Merges (s t : Builder) : Prop :=
  t = { s with items := t.items } ∧ Flattens s.items t.items

namespace Builder.Merges
variable {s t u : Builder}

theorem refl (s : Builder) : s.Merges s :=
  ⟨rfl, .refl _⟩

theorem trans (first : s.Merges t) (second : t.Merges u) : s.Merges u := by
  refine ⟨?_, first.2.trans second.2⟩
  rw [second.1, first.1]

end Builder.Merges

namespace Build
variable {s t : Builder}

theorem gives_setEntries {id : Nat} {entries : List (Nat × Nat)} {u : Unit}
    (ran : Gives (setEntries id entries) s u t) :
    { s with items := s.items.modify id fun item => { item with content := .mapping entries } } = t :=
  gives_modify.mp ran

/-- Going on to the special key changes a tag of keys only, and finds an entry under that key. -/
theorem gives_nextMerge {position : Nat} {ahead : List (Nat × Nat)} {found : Option (Nat × Nat)}
    (ran : Gives (nextMerge position ahead) s found t) :
    s.Merges t ∧ contentAt t.items = contentAt s.items ∧ ∀ i source, found = some (i, source) →
      ∃ key, position ≤ i ∧ ahead[i - position]? = some (key, source) ∧ isMerge s.items key = true := by
  induction ahead generalizing position s with
  | nil =>
    obtain ⟨rfl, rfl⟩ := gives_pure.mp ran
    exact ⟨.refl _, rfl, nofun⟩
  | cons e rest ih =>
    obtain ⟨node, v, looks, ran⟩ := gives_bind.mp ran
    obtain ⟨keyed, rfl⟩ := gives_item.mp looks
    by_cases special : node.tag = Schema.standard "merge"
    · rw [if_pos (by simp [special])] at ran
      obtain ⟨rfl, rfl⟩ := gives_pure.mp ran
      refine ⟨.refl _, rfl, ?_⟩
      rintro i source ⟨⟩
      exact ⟨e.1, Nat.le_refl _, by simp, by simp [isMerge, keyed, special]⟩
    · rw [if_neg (by simpa using special)] at ran
      have onward : ∃ u, s.Merges u ∧ contentAt u.items = contentAt s.items ∧
          Gives (nextMerge (position + 1) rest) u found t := by
        by_cases named : node.tag = Schema.standard "value"
        · dsimp only at ran
          rw [if_pos (by simp [named])] at ran
          obtain ⟨_, v, retags, ran⟩ := gives_bind.mp ran
          obtain rfl := gives_modify.mp retags
          refine ⟨_, ⟨rfl, flattens_retag keyed named⟩, ?_, ran⟩
          exact funext fun other => map_modify (by exact fun _ => rfl) other
        · dsimp only at ran
          rw [if_neg (by simpa using named)] at ran
          exact ⟨s, .refl s, rfl, ran⟩
      obtain ⟨u, first, same, ran⟩ := onward
      obtain ⟨walked, kept, finds⟩ := ih ran
      refine ⟨first.trans walked, kept.trans same, fun i source same => ?_⟩
      obtain ⟨key, later, here, merging⟩ := finds i source same
      refine ⟨key, by omega, ?_, first.2.special ▸ merging⟩
      have behind : i - position = i - (position + 1) + 1 := by omega
      rw [behind, List.getElem?_cons_succ]
      exact here

/-- Merging the mappings whose entries are taken over does what merging one of them does. -/
theorem merges_sources {fuel : Nat}
    (merges : ∀ {id : Nat} {u : Unit} {s t : Builder}, Gives (merge fuel id) s u t → s.Merges t)
    {sources : List Nat} {lists : List (List (Nat × Nat))}
    (ran : Gives (sources.mapM fun part => do
      match (← item part).content with
      | .mapping _ => do
        merge fuel part
        entriesOf part
      | _ => throw .malformed) s lists t) : s.Merges t := by
  refine (@gives_mapM _ _ _ _ _ (fun _ => True) Builder.Merges (fun _ _ _ => True) Builder.Merges.refl
    Builder.Merges.trans (fun _ _ => trivial) _ _ (fun part _ s' y t' _ each => ⟨trivial, ?_, trivial⟩)
    trivial ran).2.1
  obtain ⟨inner, u, looks, rest⟩ := gives_bind.mp each
  obtain ⟨_, rfl⟩ := gives_item.mp looks
  cases kind : inner.content with
  | mapping entries =>
    rw [kind] at rest
    obtain ⟨_, v, merged, rest⟩ := gives_bind.mp rest
    obtain ⟨_, rfl⟩ := gives_entriesOf rest
    exact merges merged
  | scalar text =>
    rw [kind] at rest
    exact absurd rest not_gives_throw
  | sequence parts =>
    rw [kind] at rest
    exact absurd rest not_gives_throw

/-- Merging changes mappings with the special key only, and entries are taken over by these only. -/
theorem gives_merge (fuel : Nat) :
    (∀ {id : Nat} {u : Unit} {s t : Builder}, Gives (merge fuel id) s u t → s.Merges t) ∧
    ∀ {id position : Nat} {merged more : List (Nat × Nat)} {s t : Builder},
      Gives (merge.loop fuel id position merged) s more t →
        s.Merges t ∧ (more = merged ∨ TakesOver s.items id) := by
  induction fuel with
  | zero => exact ⟨fun ran => absurd ran not_gives_throw, fun ran => absurd ran not_gives_throw⟩
  | succ fuel ih =>
    obtain ⟨merges, loops⟩ := ih
    constructor
    · intro id u s t ran
      rw [merge] at ran
      obtain ⟨more, v, walks, rest⟩ := gives_bind.mp ran
      obtain ⟨walked, takes⟩ := loops walks
      cases more with
      | nil =>
        obtain ⟨_, rfl⟩ := gives_pure.mp rest
        exact walked
      | cons e more =>
        obtain ⟨entries, w, looks, rest⟩ := gives_bind.mp rest
        obtain ⟨here, rfl⟩ := gives_entriesOf looks
        obtain rfl := gives_setEntries rest
        obtain ⟨own, before, merging⟩ := takes.resolve_left (by simp)
        obtain ⟨own', before', suffix⟩ := walked.2.mapping here
        cases before.symm.trans before'
        have behind := suffix.trans (List.suffix_append (ownEntries s.items (e :: more)) _)
        rw [← ownEntries_append] at behind
        exact ⟨by rw [walked.1], walked.2.setEntries before merging behind⟩
    · intro id position merged more s t ran
      rw [merge.loop] at ran
      obtain ⟨entries, v, looks, ran⟩ := gives_bind.mp ran
      obtain ⟨here, rfl⟩ := gives_entriesOf looks
      obtain ⟨found, v, goesOn, rest⟩ := gives_bind.mp ran
      obtain ⟨walked, kept, finds⟩ := gives_nextMerge goesOn
      cases found with
      | none =>
        obtain ⟨rfl, rfl⟩ := gives_pure.mp rest
        exact ⟨walked, .inl rfl⟩
      | some e =>
        obtain ⟨i, source⟩ := e
        obtain ⟨key, later, found, merging⟩ := finds i source rfl
        have place : entries[i]? = some (key, source) := by
          rw [← found, List.getElem?_drop]
          congr 1
          omega
        have takes : TakesOver s.items id :=
          ⟨entries, here, _, List.mem_of_getElem? place, merging⟩
        refine ⟨?_, .inr takes⟩
        obtain ⟨entries', w, looks, rest⟩ := gives_bind.mp rest
        obtain ⟨here', rfl⟩ := gives_entriesOf looks
        obtain ⟨_, w, sets, rest⟩ := gives_bind.mp rest
        have first : s.Merges w := by
          obtain rfl := gives_setEntries sets
          cases (kept ▸ here').symm.trans here
          refine ⟨by rw [walked.1], walked.2.setEntries here ⟨_, List.mem_of_getElem? place, merging⟩ ?_⟩
          exact (ownEntries_eraseIdx place merging).symm ▸ List.suffix_rfl
        obtain ⟨target, x, looks, rest⟩ := gives_bind.mp rest
        obtain ⟨_, rfl⟩ := gives_item.mp looks
        dsimp only at rest
        cases held : target.content with
        | scalar text =>
          rw [held] at rest
          obtain ⟨_, _, throws, _⟩ := gives_bind.mp rest
          exact absurd throws not_gives_throw
        | mapping entries =>
          rw [held] at rest
          obtain ⟨_, w, nested, rest⟩ := gives_bind.mp rest
          obtain ⟨_, x, looks, rest⟩ := gives_bind.mp rest
          obtain ⟨_, rfl⟩ := gives_entriesOf looks
          exact first.trans ((merges nested).trans (loops rest).1)
        | sequence sources =>
          rw [held] at rest
          obtain ⟨lists, w, nested, rest⟩ := gives_bind.mp rest
          obtain ⟨_, x, last, rest⟩ := gives_bind.mp rest
          obtain ⟨rfl, rfl⟩ := gives_pure.mp last
          exact first.trans ((merges_sources merges nested).trans (loops rest).1)

end Build
end DocLint.Yaml
