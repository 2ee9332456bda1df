import DocLint.Proofs.Yaml.Merging

/-!
# How values are built

What holds of the state of building values all through: every value that was given to a node is still its
value, every container was entered for one node, and it waits to be filled or was filled from what that
node holds (`Builder.Sound`). When nothing waits any more all containers are filled, so the value of the
root is made of the values of the nodes (`sound_of_building`).
-/
namespace DocLint.Yaml

namespace Builder

/-- A key and a value that the nodes of an entry were given. -/
def HasEntry (b : Builder) (e : Nat × Nat) (p : Scalar × Node) : Prop :=
  b.built.lookup e.1 = some (.scalar p.1) ∧ b.built.lookup e.2 = some p.2

/-- A container that no node was given. -/
def IsNameless (b : Builder) (c : Nat) : Prop :=
  ∀ id, b.built.lookup id ≠ some (.container c)

/-- A pair that was made of the one entry of a mapping. -/
def HasPair (b : Builder) (part : Nat) (n : Node) : Prop :=
  ∃ c key value k v, n = .container c ∧ b.IsNameless c ∧
    contentAt b.items part = some (.mapping [(key, value)]) ∧ isMerge b.items key = false ∧
    b.built.lookup key = some k ∧ b.built.lookup value = some v ∧
    b.containers[c]? = some (.tuple [k, v])

/-- A container that is made of what a node holds. -/
inductive Makes (b : Builder) (id : Nat) : Container → Prop
  | list {parts : List Nat} {nodes : List Node} (content : contentAt b.items id = some (.sequence parts))
      (made : List.Forall₂ (fun part n => b.built.lookup part = some n) parts nodes) :
      Makes b id (.list nodes)
  | mapping {entries : List (Nat × Nat)} {pairs : List (Scalar × Node)}
      (content : contentAt b.items id = some (.mapping entries))
      (own : ∀ e ∈ entries, isMerge b.items e.1 = false)
      (made : List.Forall₂ b.HasEntry entries pairs) :
      Makes b id (.mapping (pairs.foldl (fun read p => Build.insertEntry read p.1 p.2) []))
  | set (members : List Scalar) : Makes b id (.set members)
  | pairs {parts : List Nat} {nodes : List Node} (content : contentAt b.items id = some (.sequence parts))
      (made : List.Forall₂ b.HasPair parts nodes) : Makes b id (.list nodes)

/-- What a state keeps of another: the values of nodes and what the nodes hold. -/
structure Keeps (s t : Builder) : Prop where
  items : Flattens s.items t.items
  built : ∀ {id n}, s.built.lookup id = some n → t.built.lookup id = some n
  nameless : ∀ {c}, s.IsNameless c → c < s.containers.size → t.IsNameless c

/-- What a state keeps of another in which containers were entered only. -/
structure Grows (s t : Builder) : Prop extends s.Keeps t where
  containers : ∀ {c : Nat} {k : Container}, s.containers[c]? = some k → t.containers[c]? = some k

section
variable {s t u : Builder} {id c : Nat}

theorem Grows.refl (s : Builder) : s.Grows s :=
  ⟨⟨.refl _, id, fun nameless _ => nameless⟩, id⟩

theorem Grows.size_le (grows : s.Grows t) : s.containers.size ≤ t.containers.size := by
  by_contra shrunk
  obtain ⟨bound, _⟩ := Array.getElem?_eq_some_iff.mp
    (grows.containers (Array.getElem?_eq_getElem (Nat.lt_of_not_le shrunk)))
  exact Nat.lt_irrefl _ bound

theorem Keeps.trans (first : s.Keeps t) (second : t.Keeps u)
    (size : s.containers.size ≤ t.containers.size) : s.Keeps u where
  items := first.items.trans second.items
  built here := second.built (first.built here)
  nameless here bound := second.nameless (first.nameless here bound) (Nat.lt_of_lt_of_le bound size)

theorem Grows.trans (first : s.Grows t) (second : t.Grows u) : s.Grows u :=
  ⟨first.toKeeps.trans second.toKeeps first.size_le, fun here => second.containers (first.containers here)⟩

theorem Merges.grows (merges : s.Merges t) : s.Grows t := by
  obtain ⟨same, flat⟩ := merges
  rw [same]
  exact ⟨⟨flat, id, fun here _ => here⟩, id⟩

theorem Keeps.hasEntry (keeps : s.Keeps t) {e : Nat × Nat} {p : Scalar × Node} (has : s.HasEntry e p) :
    t.HasEntry e p :=
  ⟨keeps.built has.1, keeps.built has.2⟩

/-- A pair lasts when the containers that no node was given do. -/
theorem Keeps.hasPair (keeps : s.Keeps t)
    (kept : ∀ {c : Nat} {k : Container}, s.IsNameless c → s.containers[c]? = some k → t.containers[c]? = some k)
    {part : Nat} {n : Node} (has : s.HasPair part n) : t.HasPair part n := by
  obtain ⟨c, key, value, k, v, rfl, nameless, content, own, hasKey, hasValue, filled⟩ := has
  have bound := (Array.getElem?_eq_some_iff.mp filled).1
  refine ⟨c, key, value, k, v, rfl, keeps.nameless nameless bound, ?_, ?_, keeps.built hasKey,
    keeps.built hasValue, kept nameless filled⟩
  · exact keeps.items.settled content (by simpa using own)
  · rw [keeps.items.special, own]

/-- What a container is made of lasts when the containers that no node was given do. -/
theorem Keeps.makes (keeps : s.Keeps t)
    (kept : ∀ {c : Nat} {k : Container}, s.IsNameless c → s.containers[c]? = some k →
      t.containers[c]? = some k) {k : Container} (makes : s.Makes id k) : t.Makes id k := by
  cases makes with
  | list content made =>
    exact .list (keeps.items.sequence_after content) (made.imp fun _ _ given => keeps.built given)
  | mapping content own made =>
    refine .mapping (keeps.items.settled content own) ?_ (made.imp fun _ _ has => keeps.hasEntry has)
    rw [keeps.items.special]
    exact own
  | set members => exact .set members
  | pairs content made =>
    exact .pairs (keeps.items.sequence_after content) (made.imp fun _ _ has => keeps.hasPair kept has)

/-- A container that is made of what a node holds stays when containers are entered only. -/
theorem Grows.makes (grows : s.Grows t)
    (made : ∃ k, s.containers[c]? = some k ∧ s.Makes id k) :
    ∃ k, t.containers[c]? = some k ∧ t.Makes id k := by
  obtain ⟨k, present, makes⟩ := made
  exact ⟨k, grows.containers present, grows.toKeeps.makes (fun _ present => grows.containers present) makes⟩

end

/-- What holds all through the building of the values of a node graph, with some containers still to be
filled before those that wait. -/
structure Sound (g : NodeGraph) (todo : List (Nat × Nat × Filling)) (b : Builder) : Prop where
  items : Flattens g.items b.items
  present : ∀ {id n}, b.built.lookup id = some n → (contentAt b.items id).isSome ∧
    isMerge b.items id = false
  inRange : ∀ {id c}, b.built.lookup id = some (.container c) → c < b.containers.size
  apart : ∀ {id id' c}, b.built.lookup id = some (.container c) →
    b.built.lookup id' = some (.container c) → id = id'
  owned : ∀ w ∈ todo ++ b.waiting, b.built.lookup w.1 = some (.container w.2.1)
  filled : ∀ {id c}, b.built.lookup id = some (.container c) →
    (∃ filling, (id, c, filling) ∈ todo ++ b.waiting) ∨
      ∃ k, b.containers[c]? = some k ∧ b.Makes id k

section
variable {g : NodeGraph} {todo : List (Nat × Nat × Filling)} {s t : Builder}

theorem sound_start (g : NodeGraph) : Sound g [] ⟨g.items, [], #[], []⟩ where
  items := .refl _
  present here := nomatch here
  inRange here := nomatch here
  apart here := nomatch here
  owned _ member := nomatch member
  filled here := nomatch here

/-- Merging keeps what holds all through. -/
theorem Sound.merges (sound : Sound g todo s) (merges : s.Merges t) : Sound g todo t := by
  have grows := merges.grows
  obtain ⟨same, flat⟩ := merges
  have built : t.built = s.built := by rw [same]
  have waiting : t.waiting = s.waiting := by rw [same]
  have containers : t.containers = s.containers := by rw [same]
  refine ⟨sound.items.trans flat, ?_, ?_, ?_, ?_, ?_⟩ <;> simp only [built, waiting]
  · intro id n here
    rw [flat.contentAt_isSome, flat.special]
    exact sound.present here
  · rw [containers]
    exact sound.inRange
  · exact sound.apart
  · exact sound.owned
  · exact fun here => (sound.filled here).imp_right grows.makes

/-- A container that no node is given can be entered. -/
theorem Sound.enter (sound : Sound g todo s) (k : Container) :
    Sound g todo { s with containers := s.containers.push k } ∧
      s.Grows { s with containers := s.containers.push k } := by
  have grows : s.Grows { s with containers := s.containers.push k } :=
    ⟨⟨.refl _, id, fun here _ => here⟩, fun present => by
      obtain ⟨bound, rfl⟩ := Array.getElem?_eq_some_iff.mp present
      simp [Array.getElem?_push, bound, Nat.ne_of_lt bound]⟩
  refine ⟨{ sound with inRange := ?_, filled := ?_ }, grows⟩
  · intro id c here
    simpa using Nat.lt_succ_of_lt (sound.inRange here)
  · exact fun here => (sound.filled here).imp_right grows.makes

/-- A node can be given a value that is a scalar or a new container, if that waits to be filled. -/
theorem Sound.given (sound : Sound g todo s) {id : Nat} {n : Node} {more : List (Nat × Nat × Filling)}
    (unknown : s.built.lookup id = none)
    (present : (contentAt s.items id).isSome ∧ isMerge s.items id = false)
    (items : t.items = s.items) (built : t.built = (id, n) :: s.built)
    (containers : ∀ {c : Nat} {k : Container}, s.containers[c]? = some k → t.containers[c]? = some k)
    (fresh : ∀ c, n = .container c → c = s.containers.size ∧ c < t.containers.size ∧
      ∃ filling, (id, c, filling) ∈ more)
    (waiting : t.waiting = more ++ s.waiting) (named : ∀ w ∈ more, w.1 = id ∧ n = .container w.2.1) :
    Sound g todo t ∧ s.Grows t ∧ t.built.lookup id = some n := by
  have lookup : ∀ id', t.built.lookup id' = if id' = id then some n else s.built.lookup id' := by
    intro id'
    rw [built]
    by_cases same : id' = id
    · simp [same]
    · rw [List.lookup_cons, if_neg same, beq_eq_false_iff_ne.mpr same]
  have other : ∀ {id' n'}, s.built.lookup id' = some n' → t.built.lookup id' = some n' := by
    intro id' n' known
    rw [lookup, if_neg, known]
    rintro rfl
    cases known.symm.trans unknown
  have old : ∀ {id' n'}, t.built.lookup id' = some n' →
      (id' = id ∧ n' = n) ∨ s.built.lookup id' = some n' := by
    intro id' n' given
    rw [lookup] at given
    split at given
    · next same => exact .inl ⟨same, (Option.some.inj given).symm⟩
    · exact .inr given
  have grows : s.Grows t := by
    refine ⟨⟨items ▸ .refl _, other, fun nameless bound id' given => ?_⟩, containers⟩
    rcases old given with ⟨_, same⟩ | known
    · exact Nat.ne_of_lt bound (fresh _ same.symm).1
    · exact nameless id' known
  have waits : ∀ w, w ∈ todo ++ t.waiting ↔ w ∈ more ∨ w ∈ todo ++ s.waiting := by
    intro w
    simp only [waiting, List.mem_append]
    tauto
  refine ⟨⟨items ▸ sound.items, ?_, ?_, ?_, ?_, ?_⟩, grows, by rw [lookup, if_pos rfl]⟩
  · intro id' n' given
    rw [items]
    rcases old given with ⟨rfl, _⟩ | known
    · exact present
    · exact sound.present known
  · intro id' c given
    rcases old given with ⟨_, same⟩ | known
    · exact (fresh c same.symm).2.1
    · exact Nat.lt_of_lt_of_le (sound.inRange known) grows.size_le
  · intro id' id'' c given given'
    rcases old given with ⟨rfl, same⟩ | known <;> rcases old given' with ⟨rfl, same'⟩ | known'
    · rfl
    · exact absurd (fresh c same.symm).1 (Nat.ne_of_lt (sound.inRange known'))
    · exact absurd (fresh c same'.symm).1 (Nat.ne_of_lt (sound.inRange known))
    · exact sound.apart known known'
  · intro w member
    rcases (waits w).mp member with new | before
    · obtain ⟨rfl, same⟩ := named w new
      rw [lookup, if_pos rfl, same]
    · exact other (sound.owned w before)
  · intro id' c given
    rcases old given with ⟨rfl, same⟩ | known
    · obtain ⟨filling, new⟩ := (fresh c same.symm).2.2
      exact .inl ⟨filling, (waits _).mpr (.inl new)⟩
    · exact (sound.filled known).imp (fun ⟨kind, before⟩ => ⟨kind, (waits _).mpr (.inr before)⟩)
        grows.makes

/-- Giving a node its value keeps what holds all through and leaves the nodes. -/
theorem Sound.value (sound : Sound g todo s) {fuel id : Nat} {n : Node}
    (ran : Build.Gives (Build.value fuel id) s n t) :
    (Sound g todo t ∧ s.Grows t ∧ t.built.lookup id = some n) ∧ t.items = s.items := by
  rcases Build.gives_value ran with ⟨known, rfl⟩ | ⟨unknown, item, here, unlike, made⟩
  · exact ⟨⟨sound, .refl _, known⟩, rfl⟩
  have present : (contentAt s.items id).isSome ∧ isMerge s.items id = false := by
    simp [contentAt, isMerge, here, unlike]
  rcases made with ⟨x, rfl, rfl⟩ | ⟨filling, rfl, rfl⟩
  · exact ⟨@sound.given _ _ _ _ _ _ [] unknown present rfl rfl (fun present => present)
      (fun _ other => by cases other) rfl (by simp), rfl⟩
  · refine ⟨@sound.given _ _ _ _ _ _ [(id, s.containers.size, filling)] unknown present rfl rfl
      (fun present => (sound.enter _).2.containers present) (fun c same => ?_) rfl (by simp), rfl⟩
    cases same
    exact ⟨rfl, by simp, filling, by simp⟩

/-- Reading entries gives their keys and values, of which the last one under a key stays. -/
theorem Sound.readEntries {fuel : Nat} {entries : List (Nat × Nat)} {before after : List (Scalar × Node)}
    (sound : Sound g todo s)
    (ran : Build.Gives (entries.foldlM (fun read (keyId, valueId) => do
      match ← Build.value fuel keyId with
      | .scalar key => return Build.insertEntry read key (← Build.value fuel valueId)
      | .container _ => throw .malformed) before) s after t) :
    (Sound g todo t ∧ s.Grows t) ∧ t.items = s.items ∧
      ∃ pairs, List.Forall₂ t.HasEntry entries pairs ∧
        after = pairs.foldl (fun read p => Build.insertEntry read p.1 p.2) before := by
  induction entries generalizing s before with
  | nil =>
    obtain ⟨rfl, rfl⟩ := Build.gives_pure.mp ran
    exact ⟨⟨sound, .refl _⟩, rfl, [], .nil, rfl⟩
  | cons e rest ih =>
    rw [List.foldlM_cons] at ran
    obtain ⟨between, u, first, others⟩ := Build.gives_bind.mp ran
    obtain ⟨key, v, keys, first⟩ := Build.gives_bind.mp first
    obtain ⟨⟨sound, toV, hasKey⟩, same⟩ := sound.value keys
    cases key with
    | container c => exact absurd first Build.not_gives_throw
    | scalar key =>
      obtain ⟨n, w, values, first⟩ := Build.gives_bind.mp first
      obtain ⟨⟨sound, toW, hasValue⟩, same'⟩ := sound.value values
      obtain ⟨rfl, rfl⟩ := Build.gives_pure.mp first
      obtain ⟨⟨sound, toT⟩, same'', pairs, has, rfl⟩ := ih sound others
      refine ⟨⟨sound, toV.trans (toW.trans toT)⟩, by rw [same'', same', same], (key, n) :: pairs,
        .cons ⟨?_, toT.built hasValue⟩ has, rfl⟩
      exact toT.built (toW.built hasKey)

/-- A mapping is read from what it holds when the entries that it takes over are in front. -/
theorem Sound.mappingEntries {fuel id : Nat} {es : List (Scalar × Node)} (sound : Sound g todo s)
    (ran : Build.Gives (Build.mappingEntries fuel id) s es t) :
    (Sound g todo t ∧ s.Grows t) ∧ ∃ entries pairs,
      contentAt t.items id = some (.mapping entries) ∧ (∀ e ∈ entries, isMerge t.items e.1 = false) ∧
      List.Forall₂ t.HasEntry entries pairs ∧
      es = pairs.foldl (fun read p => Build.insertEntry read p.1 p.2) [] := by
  obtain ⟨_, u, looks, rest⟩ := Build.gives_bind.mp ran
  obtain ⟨_, rfl⟩ := Build.gives_entriesOf looks
  obtain ⟨_, u, merged, rest⟩ := Build.gives_bind.mp rest
  have merges := (Build.gives_merge fuel).1 merged
  obtain ⟨entries, v, looks, rest⟩ := Build.gives_bind.mp rest
  obtain ⟨content, rfl⟩ := Build.gives_entriesOf looks
  obtain ⟨⟨sound, grows⟩, same, pairs, has, rfl⟩ := (sound.merges merges).readEntries rest
  have own := ((List.forall₂_and_left (p := fun e => isMerge t.items e.1 = false) _ _).mp
    (has.imp fun _ _ here => ⟨(sound.present here.1).2, here⟩)).1
  exact ⟨⟨sound, merges.grows.trans grows⟩, entries, pairs, same ▸ content, own, has, rfl⟩

/-- A pair is made of the one entry of a mapping. -/
theorem Sound.pair {fuel part : Nat} {n : Node} (sound : Sound g todo s)
    (ran : Build.Gives (do
      match (← Build.item part).content with
      | .mapping [(keyId, valueId)] =>
        let key ← Build.value fuel keyId
        let node ← Build.value fuel valueId
        return .container (← Build.enter (.tuple [key, node]))
      | _ => throw .malformed) s n t) : Sound g todo t ∧ s.Grows t ∧ t.HasPair part n := by
  obtain ⟨item, u, looks, rest⟩ := Build.gives_bind.mp ran
  obtain ⟨here, rfl⟩ := Build.gives_item.mp looks
  split at rest
  · next keyId valueId held =>
    obtain ⟨key, v, keys, rest⟩ := Build.gives_bind.mp rest
    obtain ⟨⟨sound, toV, hasKey⟩, same⟩ := sound.value keys
    obtain ⟨value, w, values, rest⟩ := Build.gives_bind.mp rest
    obtain ⟨⟨sound, toW, hasValue⟩, same'⟩ := sound.value values
    obtain ⟨c, x, enters, rest⟩ := Build.gives_bind.mp rest
    obtain ⟨rfl, rfl⟩ := Build.gives_enter enters
    obtain ⟨rfl, rfl⟩ := Build.gives_pure.mp rest
    have entered := sound.enter (.tuple [key, value])
    have content : contentAt w.items part = some (.mapping [(keyId, valueId)]) := by
      simp [same', same, contentAt, here, held]
    refine ⟨entered.1, toV.trans (toW.trans entered.2), w.containers.size, keyId, valueId, key, value, rfl,
      fun id given => absurd (sound.inRange given) (Nat.lt_irrefl _), content, ?_, toW.built hasKey,
      hasValue, by simp⟩
    exact (sound.present (toW.built hasKey)).2
  · exact absurd rest Build.not_gives_throw

/-- The items of a list of pairs are made of the entries that their nodes hold. -/
theorem Sound.pairItems {fuel id : Nat} {nodes : List Node} (sound : Sound g todo s)
    (ran : Build.Gives (Build.pairItems fuel id) s nodes t) :
    (Sound g todo t ∧ s.Grows t) ∧ ∃ parts, contentAt t.items id = some (.sequence parts) ∧
      List.Forall₂ t.HasPair parts nodes := by
  obtain ⟨parts, content, rest⟩ := Build.gives_sequence ran
  obtain ⟨sound, grows, has⟩ := @Build.gives_mapM _ _ _ _ _ (Sound g todo) Grows HasPair Grows.refl
    Grows.trans (fun grows => grows.toKeeps.hasPair fun _ present => grows.containers present) _ _
    (fun part _ s n t sound each => sound.pair each) sound rest
  exact ⟨⟨sound, grows⟩, parts, grows.items.sequence_after content, has⟩

/-- When a container is filled from its node, there is one less to be filled. -/
theorem Sound.fill {id c : Nat} {filling : Filling} {k : Container} {u : Unit}
    (sound : Sound g ((id, c, filling) :: todo) s) (makes : s.Makes id k)
    (ran : Build.Gives (Build.fill c k) s u t) : Sound g todo t ∧ s.Keeps t := by
  obtain rfl := Build.gives_modify.mp ran
  have owned := sound.owned _ List.mem_cons_self
  have keeps : s.Keeps { s with containers := s.containers.setIfInBounds c k } :=
    ⟨.refl _, fun given => given, fun here _ => here⟩
  have kept : ∀ {c' : Nat} {k' : Container}, s.IsNameless c' → s.containers[c']? = some k' →
      (s.containers.setIfInBounds c k)[c']? = some k' := by
    intro c' k' nameless present
    rw [Array.getElem?_setIfInBounds_ne, present]
    rintro rfl
    exact nameless id owned
  refine ⟨{ sound with inRange := ?_, owned := ?_, filled := ?_ }, keeps⟩
  · intro id' c' given
    simpa using sound.inRange given
  · exact fun w member => sound.owned w (List.mem_cons_of_mem _ member)
  · intro id' c' given
    by_cases same : c' = c
    · subst c'
      obtain rfl := sound.apart given owned
      exact .inr ⟨k, Array.getElem?_setIfInBounds_self_of_lt (sound.inRange owned),
        keeps.makes kept makes⟩
    · rcases sound.filled given with ⟨kind, waits⟩ | ⟨k', present, makes'⟩
      · rcases List.mem_cons.mp waits with this | later
        · cases this
          exact absurd rfl same
        · exact .inl ⟨kind, later⟩
      · refine .inr ⟨k', ?_, keeps.makes kept makes'⟩
        rw [Array.getElem?_setIfInBounds_ne (Ne.symm same), present]

/-- Filling a container from its node keeps what holds all through. -/
theorem Sound.fillFrom {fuel id c : Nat} {filling : Filling} {u : Unit}
    (sound : Sound g ((id, c, filling) :: todo) s)
    (ran : Build.Gives (Build.fillFrom fuel id c filling) s u t) : Sound g todo t ∧ s.Keeps t := by
  -- whatever is read first only makes the state grow
  have finish : ∀ {k : Container} {v : Builder}, (Sound g ((id, c, filling) :: todo) v ∧ s.Grows v) →
      v.Makes id k → Build.Gives (Build.fill c k) v u t → Sound g todo t ∧ s.Keeps t := by
    rintro k v ⟨sound, grows⟩ makes writes
    obtain ⟨sound, keeps⟩ := sound.fill makes writes
    exact ⟨sound, grows.toKeeps.trans keeps grows.size_le⟩
  cases filling with
  | list =>
    obtain ⟨parts, content, rest⟩ := Build.gives_sequence ran
    obtain ⟨nodes, v, values, rest⟩ := Build.gives_bind.mp rest
    obtain ⟨sound, grows, made⟩ := @Build.gives_mapM _ _ _ _ _ (Sound g ((id, c, .list) :: todo)) Grows
      (fun b part n => b.built.lookup part = some n) Grows.refl Grows.trans
      (fun grows given => grows.built given) _ _
      (fun part _ s n t sound each => (sound.value each).1) sound values
    exact finish ⟨sound, grows⟩ (.list (grows.items.sequence_after content) made) rest
  | mapping =>
    obtain ⟨es, v, reads, rest⟩ := Build.gives_bind.mp ran
    obtain ⟨grown, entries, pairs, content, own, made, rfl⟩ := sound.mappingEntries reads
    exact finish grown (.mapping content own made) rest
  | set =>
    obtain ⟨es, v, reads, rest⟩ := Build.gives_bind.mp ran
    exact finish (sound.mappingEntries reads).1 (.set _) rest
  | pairs =>
    obtain ⟨nodes, v, reads, rest⟩ := Build.gives_bind.mp ran
    obtain ⟨grown, parts, content, made⟩ := sound.pairItems reads
    exact finish grown (.pairs content made) rest

/-- Filling containers one after the other leaves none of them to be filled. -/
theorem Sound.fillEach {fuel : Nat} {u : Unit} (sound : Sound g todo s)
    (ran : Build.Gives (todo.forM fun (id, container, filling) =>
      Build.fillFrom fuel id container filling) s u t) :
    Sound g [] t ∧ ∀ {id n}, s.built.lookup id = some n → t.built.lookup id = some n := by
  induction todo generalizing s with
  | nil =>
    obtain ⟨_, rfl⟩ := Build.gives_pure.mp ran
    exact ⟨sound, fun given => given⟩
  | cons w rest ih =>
    obtain ⟨_, v, first, others⟩ := Build.gives_bind.mp ran
    obtain ⟨sound, keeps⟩ := sound.fillFrom first
    obtain ⟨sound, built⟩ := ih sound others
    exact ⟨sound, fun given => built (keeps.built given)⟩

/-- Filling all containers leaves none that waits. -/
theorem Sound.fillAll {fuel rounds : Nat} {u : Unit} (sound : Sound g [] s)
    (ran : Build.Gives (Build.fillAll fuel rounds) s u t) :
    (Sound g [] t ∧ t.waiting = []) ∧
      ∀ {id n}, s.built.lookup id = some n → t.built.lookup id = some n := by
  induction rounds generalizing s with
  | zero =>
    obtain ⟨_, v, looks, rest⟩ := Build.gives_bind.mp ran
    obtain ⟨rfl, rfl⟩ := Build.gives_get.mp looks
    by_cases none : s.waiting = []
    · rw [if_pos (by simp [none])] at rest
      obtain ⟨_, rfl⟩ := Build.gives_pure.mp rest
      exact ⟨⟨sound, none⟩, fun given => given⟩
    · rw [if_neg (by simpa using none)] at rest
      exact absurd rest Build.not_gives_throw
  | succ rounds ih =>
    obtain ⟨_, v, looks, rest⟩ := Build.gives_bind.mp ran
    obtain ⟨rfl, rfl⟩ := Build.gives_get.mp looks
    dsimp only at rest
    by_cases none : s.waiting = []
    · rw [if_pos (by simp [none])] at rest
      obtain ⟨_, rfl⟩ := Build.gives_pure.mp rest
      exact ⟨⟨sound, none⟩, fun given => given⟩
    · rw [if_neg (by simpa using none)] at rest
      obtain ⟨_, v, takes, rest⟩ := Build.gives_bind.mp rest
      obtain rfl := Build.gives_modify.mp takes
      obtain ⟨_, v, fills, rest⟩ := Build.gives_bind.mp rest
      have taken : Sound g s.waiting.reverse { s with waiting := [] } := by
        have same : s.Grows { s with waiting := [] } :=
          ⟨⟨.refl _, fun given => given, fun here _ => here⟩, fun present => present⟩
        refine { sound with owned := ?_, filled := ?_ }
        · simpa using sound.owned
        · intro id c given
          exact (sound.filled given).imp (fun ⟨kind, waits⟩ => ⟨kind, by simpa using waits⟩) same.makes
      obtain ⟨sound, built⟩ := taken.fillEach fills
      obtain ⟨ended, built'⟩ := ih sound rest
      exact ⟨ended, fun given => built' (built given)⟩

end
end Builder

/-- The building of the value of a root. -/
def NodeGraph.building (g : NodeGraph) (root : Nat) : Build Node := do
  let node ← Build.value g.entryBound root
  Build.fillAll g.entryBound (g.items.size + 1)
  return node

/-- The state in which the building of a value begins. -/
def NodeGraph.unbuilt (g : NodeGraph) : Builder :=
  ⟨g.items, [], #[], []⟩

/-- What a text with a value is read as: its nodes with their root, the value of the root, and the state
in which the building of that value ends. -/
structure Reading where
  nodes : NodeGraph
  root : Nat
  node : Node
  built : Builder

/-- The value that was read. -/
def Reading.value (r : Reading) : Value :=
  ⟨⟨r.built.containers⟩, r.node⟩

/-- The reading of a text, which is nothing when the text has no nodes. -/
def reading? (text : String) : Except YamlError (Option Reading) := do
  let g ← NodeGraph.ofText? text
  match g.root with
  | none => return none
  | some root =>
    let (node, b) ← (g.building root).run g.unbuilt
    return some ⟨g, root, node, b⟩

/-- What a text is loaded as is the value that is read, and null when there is none. -/
theorem load_eq_reading (text : String) :
    load text = (reading? text).map fun found => (found.map Reading.value).getD (.ofScalar .null) := by
  rw [load, reading?]
  cases NodeGraph.ofText? text with
  | error e => rfl
  | ok g =>
    cases rooted : g.root with
    | none => simp [NodeGraph.toValue, rooted, bind, Except.bind, pure, Except.pure, Except.map]
    | some root =>
      have whole : g.toValue =
          (g.building root).run g.unbuilt >>= fun r => .ok ⟨⟨r.2.containers⟩, r.1⟩ := by
        rw [NodeGraph.toValue, rooted]
        rfl
      cases ran : (g.building root).run g.unbuilt <;>
        simp [whole, rooted, ran, bind, Except.bind, pure, Except.pure, Except.map, Reading.value]

/-- A text that is read as nothing has no nodes. -/
theorem root_of_reading? {text : String} (read : reading? text = .ok none) :
    ∃ g, NodeGraph.ofText? text = .ok g ∧ g.root = none := by
  rw [reading?] at read
  cases nodes : NodeGraph.ofText? text with
  | error e => simp [nodes, bind, Except.bind] at read
  | ok g =>
    refine ⟨g, rfl, ?_⟩
    cases rooted : g.root with
    | none => rfl
    | some root =>
      simp only [nodes, rooted, bind, Except.bind] at read
      split at read <;> cases read

/-- A reading is made of the nodes of a text by building the value of their root. -/
theorem Reading.of_reading? {text : String} {r : Reading} (read : reading? text = .ok (some r)) :
    NodeGraph.ofText? text = .ok r.nodes ∧ r.nodes.root = some r.root ∧
      Build.Gives (r.nodes.building r.root) r.nodes.unbuilt r.node r.built := by
  rw [reading?] at read
  cases nodes : NodeGraph.ofText? text with
  | error e => simp [nodes, bind, Except.bind] at read
  | ok g =>
    simp only [nodes, bind, Except.bind] at read
    split at read
    · cases read
    · next root rooted =>
      split at read
      · cases read
      · next result ran =>
        cases read
        exact ⟨rfl, rooted, ran⟩

namespace Builder
variable {g : NodeGraph} {b : Builder} {root : Nat} {n : Node}

/-- What holds when the value of a root is built: the root has that value, and the container of every
node that was given one is made of what the node holds. -/
theorem sound_of_building (ran : Build.Gives (g.building root) g.unbuilt n b) :
    Sound g [] b ∧ b.waiting = [] ∧ b.built.lookup root = some n := by
  obtain ⟨_, s, values, rest⟩ := Build.gives_bind.mp ran
  obtain ⟨⟨sound, _, given⟩, _⟩ := (sound_start g).value values
  obtain ⟨_, t, fills, rest⟩ := Build.gives_bind.mp rest
  obtain ⟨⟨sound, none⟩, built⟩ := sound.fillAll fills
  obtain ⟨rfl, rfl⟩ := Build.gives_pure.mp rest
  exact ⟨sound, none, built given⟩

/-- When nothing waits, the container that a node was given is made of what the node holds. -/
theorem Sound.made (sound : Sound g [] b) (none : b.waiting = []) {id c : Nat}
    (given : b.built.lookup id = some (.container c)) :
    ∃ k, b.containers[c]? = some k ∧ b.Makes id k := by
  refine (sound.filled given).resolve_left ?_
  simp [none]

end Builder
end DocLint.Yaml
