import DocLint.Yaml.Construction
import Mathlib.Data.List.Forall2

/-!
# Steps of building values

What the steps of `Build` do when they succeed. `Gives` says that a step has a result and leaves a state;
a sequence of steps is taken apart by `gives_bind`, and a step for each element of a list by
`gives_mapM`. Looking at a node leaves the state as it is, and giving a node its value adds that value,
with an empty container when it is one (`gives_value`).
-/
namespace DocLint.Yaml

/-- What a node holds among others. -/
def contentAt (items : Array Item) (id : Nat) : Option Content :=
  items[id]?.map Item.content

namespace Build
variable {α β : Type}

/-- A step succeeds with a result and leaves a state. -/
def Gives (step : Build α) (s : Builder) (a : α) (t : Builder) : Prop :=
  step.run s = .ok (a, t)

variable {s t : Builder} {a : α}

theorem gives_pure {a' : α} : Gives (pure a) s a' t ↔ a = a' ∧ s = t := by
  change (.ok (a, s) : Except YamlError _) = .ok (a', t) ↔ _
  simp

theorem gives_bind {step : Build α} {next : α → Build β} {b : β} :
    Gives (step >>= next) s b t ↔ ∃ a u, Gives step s a u ∧ Gives (next a) u b t := by
  rw [Gives, StateT.run_bind]
  constructor
  · intro both
    cases first : step.run s with
    | error e => simp [first, bind, Except.bind] at both
    | ok result =>
      rw [first] at both
      exact ⟨result.1, result.2, first, both⟩
  · rintro ⟨a, u, first, second⟩
    rw [first]
    exact second

theorem gives_get {r : Builder} : Gives get s r t ↔ s = r ∧ s = t :=
  gives_pure

theorem gives_set {r : Builder} {u : PUnit} : Gives (set r) s u t ↔ r = t := by
  change (.ok (⟨⟩, r) : Except YamlError _) = .ok (u, t) ↔ _
  simp

theorem gives_modify {f : Builder → Builder} {u : PUnit} : Gives (modify f) s u t ↔ f s = t :=
  gives_set (s := s)

theorem not_gives_throw {e : YamlError} : ¬ Gives (throw e : Build α) s a t :=
  nofun

theorem gives_lift {attempt : Except YamlError α} :
    Gives (liftM attempt) s a t ↔ attempt = .ok a ∧ s = t := by
  cases attempt with
  | error e => exact ⟨nofun, nofun⟩
  | ok b =>
    change (.ok (b, s) : Except YamlError _) = .ok (a, t) ↔ _
    simp

/-- A step for each element of a list keeps what each of them keeps, takes the state on as each of them
does, and gives what each of them gives if that lasts. -/
theorem gives_mapM {step : α → Build β} (inv : Builder → Prop) {goesOn : Builder → Builder → Prop}
    {holds : Builder → α → β → Prop} (same : ∀ s, goesOn s s)
    (onward : ∀ {s t u}, goesOn s t → goesOn t u → goesOn s u)
    (lasts : ∀ {s t x y}, goesOn s t → holds s x y → holds t x y) {xs : List α} {ys : List β}
    (each : ∀ x ∈ xs, ∀ {s y t}, inv s → Gives (step x) s y t → inv t ∧ goesOn s t ∧ holds t x y)
    (before : inv s) (ran : Gives (xs.mapM step) s ys t) :
    inv t ∧ goesOn s t ∧ List.Forall₂ (holds t) xs ys := by
  induction xs generalizing s ys with
  | nil =>
    obtain ⟨rfl, rfl⟩ := gives_pure.mp ran
    exact ⟨before, same _, .nil⟩
  | cons x rest ih =>
    rw [List.mapM_cons] at ran
    obtain ⟨y, u, first, ran⟩ := gives_bind.mp ran
    obtain ⟨zs, v, others, ran⟩ := gives_bind.mp ran
    obtain ⟨rfl, rfl⟩ := gives_pure.mp ran
    obtain ⟨between, toU, here⟩ := each x List.mem_cons_self before first
    obtain ⟨after, toV, there⟩ := ih (fun z member => each z (List.mem_cons_of_mem x member)) between
      others
    exact ⟨after, onward toU toV, .cons (lasts toV here) there⟩

theorem gives_item {id : Nat} {found : Item} :
    Gives (item id) s found t ↔ s.items[id]? = some found ∧ s = t := by
  rw [item, gives_bind]
  constructor
  · rintro ⟨state, u, looks, rest⟩
    obtain ⟨rfl, rfl⟩ := gives_get.mp looks
    cases here : s.items[id]? with
    | none =>
      rw [here] at rest
      exact absurd rest not_gives_throw
    | some other =>
      rw [here] at rest
      obtain ⟨rfl, rfl⟩ := gives_pure.mp rest
      exact ⟨rfl, rfl⟩
  · rintro ⟨here, rfl⟩
    refine ⟨s, s, gives_get.mpr ⟨rfl, rfl⟩, ?_⟩
    rw [here]
    exact gives_pure.mpr ⟨rfl, rfl⟩

/-- What goes on with the parts of a sequence succeeds for a sequence only. -/
theorem gives_sequence {id : Nat} {next : List Nat → Build α}
    (ran : Gives (do
      match (← item id).content with
      | .sequence parts => next parts
      | _ => throw .malformed) s a t) :
    ∃ parts, contentAt s.items id = some (.sequence parts) ∧ Gives (next parts) s a t := by
  obtain ⟨found, u, looks, rest⟩ := gives_bind.mp ran
  obtain ⟨here, rfl⟩ := gives_item.mp looks
  cases content : found.content with
  | sequence parts =>
    rw [content] at rest
    exact ⟨parts, by simp [contentAt, here, content], rest⟩
  | scalar text =>
    rw [content] at rest
    exact absurd rest not_gives_throw
  | mapping own =>
    rw [content] at rest
    exact absurd rest not_gives_throw

theorem gives_entriesOf {id : Nat} {entries : List (Nat × Nat)} (ran : Gives (entriesOf id) s entries t) :
    contentAt s.items id = some (.mapping entries) ∧ s = t := by
  obtain ⟨found, u, looks, rest⟩ := gives_bind.mp ran
  obtain ⟨here, rfl⟩ := gives_item.mp looks
  cases content : found.content with
  | mapping own =>
    rw [content] at rest
    obtain ⟨rfl, rfl⟩ := gives_pure.mp rest
    exact ⟨by simp [contentAt, here, content], rfl⟩
  | scalar text =>
    rw [content] at rest
    exact absurd rest not_gives_throw
  | sequence parts =>
    rw [content] at rest
    exact absurd rest not_gives_throw

/-- A search that looks only leaves the state as it is. -/
theorem gives_findM? {looks : α → Build Bool} {xs : List α} {found : Option α}
    (only : ∀ x, ∀ {s y t}, Gives (looks x) s y t → s = t) (ran : Gives (xs.findM? looks) s found t) :
    s = t := by
  induction xs generalizing s with
  | nil => exact (gives_pure.mp ran).2
  | cons x rest ih =>
    obtain ⟨here, u, first, others⟩ := gives_bind.mp ran
    obtain rfl := only x first
    cases here with
    | true => exact (gives_pure.mp others).2
    | false => exact ih others

/-- Reading the text of a scalar leaves the state as it is. -/
theorem gives_scalarText {fuel id : Nat} {text : String} (ran : Gives (scalarText fuel id) s text t) :
    s = t := by
  induction fuel generalizing id s with
  | zero => exact absurd ran not_gives_throw
  | succ fuel ih =>
    obtain ⟨found, u, looks, rest⟩ := gives_bind.mp ran
    obtain ⟨_, rfl⟩ := gives_item.mp looks
    cases content : found.content with
    | scalar own =>
      rw [content] at rest
      exact (gives_pure.mp rest).2
    | sequence parts =>
      rw [content] at rest
      exact absurd rest not_gives_throw
    | mapping entries =>
      rw [content] at rest
      obtain ⟨named, v, searches, rest⟩ := gives_bind.mp rest
      have unchanged : s = v := gives_findM? (fun e _ _ _ looks => by
        obtain ⟨_, w, first, last⟩ := gives_bind.mp looks
        exact (gives_item.mp first).2.trans (gives_pure.mp last).2) searches
      subst v
      cases named with
      | none => exact absurd rest not_gives_throw
      | some e => exact ih rest

theorem gives_enter {c : Container} {container : Nat} (ran : Gives (enter c) s container t) :
    s.containers.size = container ∧ { s with containers := s.containers.push c } = t := by
  obtain ⟨_, u, looks, rest⟩ := gives_bind.mp ran
  obtain ⟨rfl, rfl⟩ := gives_get.mp looks
  obtain ⟨_, v, writes, rest⟩ := gives_bind.mp rest
  obtain rfl := gives_set.mp writes
  exact gives_pure.mp rest

/-- Where a text is looked for does not change the state. -/
theorem gives_checkText {found : Item} {u : Unit} (ran : Gives (checkText found) s u t) : s = t := by
  unfold checkText at ran
  split at ran
  · exact (gives_pure.mp ran).2
  · split at ran
    · exact absurd ran not_gives_throw
    · exact (gives_pure.mp ran).2

/-- Giving a node its value adds that value unless it has one: a scalar, or a new container that is empty
and waits to be filled. -/
theorem gives_value {fuel id : Nat} {n : Node} (ran : Gives (value fuel id) s n t) :
    (s.built.lookup id = some n ∧ s = t) ∨
    (s.built.lookup id = none ∧
      ∃ found, s.items[id]? = some found ∧ found.tag ≠ Schema.standard "merge" ∧
        ((∃ x, n = .scalar x ∧ t = { s with built := (id, n) :: s.built }) ∨
        (∃ filling, n = .container s.containers.size ∧
          t = { s with built := (id, n) :: s.built
                       containers := s.containers.push (emptyContainer filling)
                       waiting := (id, s.containers.size, filling) :: s.waiting }))) := by
  obtain ⟨state, u, looks, rest⟩ := gives_bind.mp ran
  obtain ⟨rfl, rfl⟩ := gives_get.mp looks
  cases known : s.built.lookup id with
  | some old =>
    rw [known] at rest
    obtain ⟨rfl, rfl⟩ := gives_pure.mp rest
    exact .inl ⟨rfl, rfl⟩
  | none =>
    rw [known] at rest
    obtain ⟨found, u, looks, rest⟩ := gives_bind.mp rest
    obtain ⟨here, rfl⟩ := gives_item.mp looks
    refine .inr ⟨rfl, found, here, ?_⟩
    dsimp only at rest
    cases reader : scalarOf? found.tag with
    | some read =>
      rw [reader] at rest
      obtain ⟨text, u, reads, rest⟩ := gives_bind.mp rest
      obtain rfl := gives_scalarText reads
      obtain ⟨_, u, checks, rest⟩ := gives_bind.mp rest
      obtain rfl := gives_checkText checks
      obtain ⟨x, u, lifts, rest⟩ := gives_bind.mp rest
      obtain ⟨_, rfl⟩ := gives_lift.mp lifts
      obtain ⟨_, u, makes, rest⟩ := gives_bind.mp rest
      obtain ⟨rfl, rfl⟩ := gives_pure.mp makes
      obtain ⟨_, u, adds, rest⟩ := gives_bind.mp rest
      obtain rfl := gives_modify.mp adds
      obtain ⟨rfl, rfl⟩ := gives_pure.mp rest
      refine ⟨?_, .inl ⟨x, rfl, rfl⟩⟩
      rintro merging
      rw [merging] at reader
      cases reader
    | none =>
      rw [reader] at rest
      cases kind : filling? found.tag with
      | none =>
        rw [kind] at rest
        obtain ⟨_, _, throws, _⟩ := gives_bind.mp rest
        exact absurd throws not_gives_throw
      | some filling =>
        rw [kind] at rest
        obtain ⟨container, u, enters, rest⟩ := gives_bind.mp rest
        obtain ⟨rfl, rfl⟩ := gives_enter enters
        obtain ⟨_, u, waits, rest⟩ := gives_bind.mp rest
        obtain rfl := gives_modify.mp waits
        obtain ⟨_, u, makes, rest⟩ := gives_bind.mp rest
        obtain ⟨rfl, rfl⟩ := gives_pure.mp makes
        obtain ⟨_, u, adds, rest⟩ := gives_bind.mp rest
        obtain rfl := gives_modify.mp adds
        obtain ⟨rfl, rfl⟩ := gives_pure.mp rest
        refine ⟨?_, .inr ⟨filling, rfl, rfl⟩⟩
        rintro merging
        rw [merging] at kind
        cases kind

end Build
end DocLint.Yaml
