import DocLint.Proofs.Yaml.Reading
import DocLint.Proofs.Yaml.Scalars

/-!
# Faults of building values

Which errors building a value fails with is up to the scalars: if each has a value under its tag or fails with one of
some errors (`Item.Sound`), so does the node graph (`NodeGraph.toValue_settles`). Merging and the special key `=`
change nodes on the way, the former the entries of mappings and the latter a tag, after which the nodes are still
such. A mapping can stand for the text under its key `=`, which need not fit its tag; so either there is no such key,
or no mapping has the tag of a scalar. A text whose scalars fit their tags has a value or is refused
(`Readable.load_settled`), and they do in one without tags unless there are too many parts in a scalar
(`Readable.of_untagged`). If every scalar has a value, so has the text or there is a fault of its structure
(`Sound.load_settles`).
-/
namespace DocLint.Yaml

/-- Whether a tag is one of a scalar, or can become one. -/
def namesScalar (tag : String) : Bool :=
  (Build.scalarOf? tag).isSome || tag == Schema.standard "value"

/-- A node whose text fits its tag. If there are keys `=`, it is no mapping with the tag of a scalar; and if there
are none, it is none of them. -/
structure Item.Readable (keyed : Bool) (item : Item) : Prop where
  scalar : ∀ text, item.content = .scalar text → Fits item.tag text
  mapping : keyed = true → ∀ entries, item.content = .mapping entries → namesScalar item.tag = false
  unkeyed : keyed = false → item.tag ≠ Schema.standard "value"

/-- A node whose text has a value under its tag or fails with one of some errors. If there are keys `=`, it is no
mapping with the tag of a scalar; and if there are none, it is none of them. -/
structure Item.Sound (F : Faults) (keyed : Bool) (item : Item) : Prop where
  scalar : ∀ text, item.content = .scalar text → ∀ read, Build.scalarOf? item.tag = some read →
    Settles F (fun _ => True) (read text)
  mapping : keyed = true → ∀ entries, item.content = .mapping entries → namesScalar item.tag = false
  unkeyed : keyed = false → item.tag ≠ Schema.standard "value"

/-- The nodes of readable texts are sound but for refusals. -/
theorem Item.Readable.sound {keyed : Bool} {item : Item} (readable : item.Readable keyed) :
    item.Sound .refusals keyed :=
  ⟨fun text content _ known => Build.scalarOf?_settled known (readable.scalar text content), readable.mapping,
    readable.unkeyed⟩

theorem Fits.standard {name text : String} (other : name ∉ ["bool", "int", "float", "timestamp"]) :
    Fits (Schema.standard name) text := by
  simp only [List.mem_cons, List.not_mem_nil, or_false, not_or] at other
  obtain ⟨truth, integer, float, time⟩ := other
  exact ⟨fun same => absurd (Schema.standard_inj.mp same) truth,
    fun same => absurd (Schema.standard_inj.mp same) integer,
    fun same => absurd (Schema.standard_inj.mp same) float,
    fun same => absurd (Schema.standard_inj.mp same) time⟩

/-- Changing a node to one with a property leaves the others as they are. -/
theorem forall_mem_modify {holds : Item → Prop} {items : Array Item} {id : Nat} {change : Item → Item}
    (all : ∀ item ∈ items, holds item) (changed : ∀ item, items[id]? = some item → holds (change item)) :
    ∀ item ∈ items.modify id change, holds item := by
  intro item member
  obtain ⟨place, here⟩ := Array.getElem?_of_mem member
  rw [Array.getElem?_modify] at here
  split at here
  · next same =>
    obtain ⟨found, before, rfl⟩ := Option.map_eq_some_iff.mp here
    exact changed found (same ▸ before)
  · exact all item (Array.mem_of_getElem? here)

namespace Build
variable {α : Type} {after : α → Prop} {F : Faults} {keyed : Bool}

/-- The nodes are sound. -/
abbrev AllSound (F : Faults) (keyed : Bool) (b : Builder) : Prop :=
  ∀ item ∈ b.items, item.Sound F keyed

theorem AllSound.found {b : Builder} {id : Nat} {item : Item} (sound : AllSound F keyed b)
    (here : b.items[id]? = some item) : item.Sound F keyed :=
  sound item (Array.mem_of_getElem? here)

/-- A step fails with one of some errors and leaves the nodes sound. -/
abbrev Steady (F : Faults) (keyed : Bool) (step : Build α) : Prop :=
  Keeps F (AllSound F keyed) (fun _ => True) step

namespace Steady
variable {β : Type} {step : Build α}

theorem bind {next : α → Build β} (first : Steady F keyed step) (others : ∀ a, Steady F keyed (next a)) :
    Steady F keyed (step >>= next) :=
  Keeps.bind first fun a _ => others a

theorem mapM {each : β → Build α} {bs : List β} (steady : ∀ b, Steady F keyed (each b)) :
    Steady F keyed (bs.mapM each) :=
  (Keeps.mapM fun b _ => steady b).mono fun _ _ => trivial

end Steady

/-- What goes on with a node knows that it is among the nodes. -/
theorem item_keeps {inv : Builder → Prop} {id : Nat} {next : Item → Build α}
    (others : ∀ b, inv b → ∀ found, b.items[id]? = some found →
      Settles F (fun r => after r.1 ∧ inv r.2) ((next found).run b)) :
    Keeps F inv after (item id >>= next) := by
  intro b before
  cases here : b.items[id]? with
  | none =>
    have throws : (item id >>= next).run b = .error .malformed := by
      simp [item, here]
      rfl
    exact throws ▸ .malformed
  | some found =>
    have goesOn : (item id >>= next).run b = (next found).run b := by
      simp [item, here]
    exact goesOn ▸ others b before found here

theorem item_steady (id : Nat) : Steady F keyed (item id) := by
  have alone : Steady F keyed (item id >>= pure) := item_keeps fun b sound found _ => .ok ⟨trivial, sound⟩
  rwa [bind_pure] at alone

/-- Without keys `=` none is found. -/
theorem noKey_keeps {b : Builder} (sound : AllSound F false b) (entries : List (Nat × Nat)) :
    Keeps F (fun s => s = b) (fun named => named = none)
      (entries.findM? fun e => return (← item e.1).tag == Schema.standard "value") := by
  induction entries with
  | nil => exact .pure rfl
  | cons e rest ih =>
    have other : Keeps F (fun s => s = b) (fun here => here = false)
        (do return (← item e.1).tag == Schema.standard "value" : Build Bool) := by
      refine item_keeps fun s same found here => .ok ⟨?_, same⟩
      subst s
      exact beq_eq_false_iff_ne.mpr ((sound.found here).unkeyed rfl)
    refine other.bind ?_
    rintro _ rfl
    exact ih

/-- The text of a node with the tag of a scalar is its own. -/
theorem scalarText_settles {fuel id : Nat} {b : Builder} {found : Item} (sound : AllSound F keyed b)
    (here : b.items[id]? = some found) (named : namesScalar found.tag = true) :
    Settles F (fun r => found.content = .scalar r.1 ∧ r.2 = b) ((scalarText (fuel + 1) id).run b) := by
  have goesOn : Keeps F (fun s => s = b) (fun text => found.content = .scalar text)
      (scalarText (fuel + 1) id) := by
    rw [scalarText]
    refine item_keeps fun s same other there => ?_
    subst s
    cases here.symm.trans there
    cases content : found.content with
    | scalar text => exact .ok ⟨rfl, rfl⟩
    | sequence parts => exact .malformed
    | mapping entries =>
      cases keyed with
      | true =>
        have unnamed := (sound.found here).mapping rfl entries content
        exact absurd named (by simp [unnamed])
      | false =>
        dsimp only
        rw [StateT.run_bind]
        refine (noKey_keeps sound entries b rfl).bind ?_
        rintro ⟨_, s⟩ ⟨rfl, rfl⟩
        exact .malformed
  exact goesOn b rfl

theorem enter_steady (c : Container) : Steady F keyed (enter c) :=
  Keeps.get.bind fun _ sound => Keeps.bind (.set sound) fun _ _ => .pure trivial

theorem fill_steady (container : Nat) (c : Container) : Steady F keyed (fill container c) :=
  .modify fun _ kept => kept

theorem value_steady (fuel id : Nat) : Steady F keyed (value (fuel + 1) id) := by
  unfold value
  refine Keeps.get.bind fun state _ => ?_
  split
  · exact .pure trivial
  · have last (node : Node) : Steady F keyed (do
        modify fun b => { b with built := (id, node) :: b.built }
        return node) :=
      Steady.bind (.modify fun _ kept => kept) fun _ => .pure trivial
    refine item_keeps fun b sound found here => ?_
    dsimp only
    split
    · next known =>
      have named : namesScalar found.tag = true := by simp [namesScalar, known]
      rw [StateT.run_bind]
      refine (scalarText_settles sound here named).bind ?_
      rintro ⟨text, s⟩ ⟨content, rfl⟩
      have reads := (sound.found here).scalar text content _ known
      have checks : checkText found = return () := by rw [checkText, content]
      rw [checks]
      exact Keeps.bind (.lift reads) (fun x _ => last (.scalar x)) s sound
    · next filling _ _ =>
      refine Steady.bind (enter_steady _) (fun container => ?_) b sound
      exact Steady.bind (.modify fun _ kept => kept) fun _ => last (.container container)
    · exact .malformed

theorem entriesOf_steady (id : Nat) : Steady F keyed (entriesOf id) := by
  refine (item_steady id).bind fun found => ?_
  split
  · exact .pure trivial
  · exact .malformed

/-- Changing the entries of a mapping before going on. -/
theorem changeEntries_steady {id : Nat} {change : List (Nat × Nat) → List (Nat × Nat)} {next : Build α}
    (others : Steady F keyed next) :
    Steady F keyed (do
      setEntries id (change (← entriesOf id))
      next) := by
  unfold entriesOf
  rw [bind_assoc]
  refine item_keeps fun b sound found here => ?_
  split
  · next entries content =>
    have changed : ∀ item ∈ b.items.modify id fun item => { item with content := .mapping (change entries) },
        item.Sound F keyed := by
      refine forall_mem_modify sound fun item same => ?_
      cases here.symm.trans same
      have before := sound.found here
      exact ⟨nofun, fun keys _ _ => before.mapping keys entries content, before.unkeyed⟩
    exact others _ changed
  · exact .malformed

/-- Every text is a value as a text. -/
theorem scalarOf?_str : scalarOf? (Schema.standard "str") = some fun text => .ok (.str text) := by
  rfl

/-- The key `=` as a text. -/
theorem retag_sound {b : Builder} {key : Nat} {found : Item} (sound : AllSound F keyed b)
    (here : b.items[key]? = some found) (named : found.tag = Schema.standard "value") :
    ∀ item ∈ b.items.modify key fun item => { item with tag := Schema.standard "str" }, item.Sound F keyed := by
  refine forall_mem_modify sound fun item same => ?_
  cases here.symm.trans same
  have before := sound.found here
  refine ⟨fun text _ read known => ?_, fun keys entries content => ?_, fun _ => ?_⟩
  · cases scalarOf?_str.symm.trans known
    exact .ok trivial
  · have unnamed := before.mapping keys entries content
    simp [namesScalar, named] at unnamed
  · simp [Schema.standard_inj]

theorem nextMerge_steady (position : Nat) (ahead : List (Nat × Nat)) :
    Steady F keyed (nextMerge position ahead) := by
  induction ahead generalizing position with
  | nil => exact .pure trivial
  | cons e rest ih =>
    refine item_keeps fun b sound found here => ?_
    dsimp only
    split
    · exact .ok ⟨trivial, sound⟩
    · split
      · next named =>
        exact ih (position + 1) _ (retag_sound sound here (eq_of_beq named))
      · exact ih (position + 1) b sound

theorem merge_steady (fuel : Nat) :
    (∀ id, Steady F keyed (merge fuel id)) ∧
      ∀ id position merged, Steady F keyed (merge.loop fuel id position merged) := by
  induction fuel with
  | zero => exact ⟨fun _ => .malformed, fun _ _ _ => .malformed⟩
  | succ fuel ih =>
    obtain ⟨merges, loops⟩ := ih
    have taken (part : Nat) {next : List (Nat × Nat) → Build (List (Nat × Nat))}
        (others : ∀ more, Steady F keyed (next more)) : Steady F keyed (do
          merge fuel part
          let more ← entriesOf part
          next more) :=
      (merges part).bind fun _ => (entriesOf_steady part).bind others
    constructor
    · intro id
      rw [merge]
      refine (loops id 0 []).bind fun merged => ?_
      split
      · rw [← bind_pure (_ >>= _), bind_assoc]
        exact changeEntries_steady (.pure trivial)
      · exact .pure trivial
    · intro id position merged
      rw [merge.loop]
      refine (entriesOf_steady id).bind fun entries => (nextMerge_steady position _).bind fun found => ?_
      split
      · exact .pure trivial
      · refine changeEntries_steady ((item_steady _).bind fun source => ?_)
        dsimp only
        split
        · exact taken _ fun more => loops id _ _
        · refine Steady.bind (Steady.mapM fun part => (item_steady part).bind fun inner => ?_) fun lists =>
            loops id _ _
          split
          · rw [← bind_pure (entriesOf part)]
            exact taken part fun more => .pure trivial
          · exact .malformed
        · exact Steady.bind .malformed fun more => loops id _ _

theorem mappingEntries_steady (fuel id : Nat) : Steady F keyed (mappingEntries (fuel + 1) id) := by
  unfold mappingEntries
  refine (entriesOf_steady id).bind fun _ => ((merge_steady (fuel + 1)).1 id).bind fun _ => ?_
  refine (entriesOf_steady id).bind fun entries => Keeps.foldlM (fun read e _ _ => ?_) trivial
  refine (value_steady fuel _).bind fun node => ?_
  split
  · exact (value_steady fuel _).bind fun _ => .pure trivial
  · exact .malformed

theorem pairItems_steady (fuel id : Nat) : Steady F keyed (pairItems (fuel + 1) id) := by
  unfold pairItems
  refine (item_steady id).bind fun found => ?_
  split
  · refine Steady.mapM fun part => (item_steady part).bind fun inner => ?_
    split
    · refine (value_steady fuel _).bind fun key => (value_steady fuel _).bind fun node => ?_
      exact (enter_steady _).bind fun _ => .pure trivial
    · exact .malformed
  · exact .malformed

theorem fillFrom_steady (fuel id container : Nat) (filling : Filling) :
    Steady F keyed (fillFrom (fuel + 1) id container filling) := by
  cases filling with
  | list =>
    refine (item_steady id).bind fun found => ?_
    split
    · exact (Steady.mapM (value_steady fuel)).bind fun _ => fill_steady container _
    · exact .malformed
  | mapping => exact (mappingEntries_steady fuel id).bind fun _ => fill_steady container _
  | set => exact (mappingEntries_steady fuel id).bind fun _ => fill_steady container _
  | pairs => exact (pairItems_steady fuel id).bind fun _ => fill_steady container _

theorem fillAll_steady (fuel rounds : Nat) : Steady F keyed (fillAll (fuel + 1) rounds) := by
  induction rounds with
  | zero =>
    refine Keeps.get.bind fun b _ => ?_
    split
    · exact .pure trivial
    · exact .malformed
  | succ rounds ih =>
    refine Keeps.get.bind fun b _ => ?_
    dsimp only
    split
    · exact .pure trivial
    · refine Steady.bind (.modify fun _ kept => kept) fun _ => ?_
      exact (Keeps.forM fun e _ => fillFrom_steady fuel _ _ _).bind fun _ _ => ih

end Build

/-- Sound nodes have a value or fail with one of the errors. -/
theorem NodeGraph.toValue_settles {F : Faults} {g : NodeGraph} {keyed : Bool}
    (sound : ∀ item ∈ g.items, item.Sound F keyed) : Settles F (fun _ => True) g.toValue := by
  unfold toValue
  split
  · exact .ok trivial
  · next root _ =>
    have builds : Build.Steady F keyed (do
        let node ← Build.value g.entryBound root
        Build.fillAll g.entryBound (g.items.size + 1)
        return node) :=
      (Build.value_steady _ root).bind fun node => (Build.fillAll_steady _ _).bind fun _ => .pure trivial
    exact (builds ⟨g.items, [], #[], []⟩ sound).bind fun _ _ => .ok trivial

/-- The nodes of a text without tags are readable unless there are too many parts in one. -/
theorem Item.readable_of_isPlain {item : Item} (plain : item.IsPlain)
    (few : ∀ text, item.content = .scalar text → text.toList.count ':' < partLimit) : item.Readable true := by
  refine ⟨fun text content => ?_, fun _ entries content => ?_, nofun⟩
  · rw [IsPlain, content] at plain
    rcases plain with ⟨tagged, inLine⟩ | tagged | tagged | tagged
    · exact tagged ▸ fits_plainTag inLine (few text content)
    · exact tagged ▸ .standard (by decide)
    · exact tagged ▸ .standard (by decide)
    · exact tagged ▸ .standard (by decide)
  · rw [IsPlain, content] at plain
    rw [plain]
    decide

/-- A text without an escape far beyond all characters, whose nodes are readable. -/
structure Readable (text : String) : Prop where
  modest : Modest text.toList
  nodes : ∀ g, NodeGraph.ofText? text = .ok g → ∃ keyed, ∀ item ∈ g.items, item.Readable keyed

/-- A readable text has a value or is refused. -/
theorem Readable.load_settled {text : String} (readable : Readable text) : Settled (load text) := by
  have settles := NodeGraph.ofText?_settles text
  unfold load
  cases read : NodeGraph.ofText? text with
  | error e =>
    rw [read] at settles
    cases settles with
    | failed caused => exact .failed (readable.modest.isRefusal caused)
  | ok g =>
    obtain ⟨keyed, nodes⟩ := readable.nodes g read
    exact NodeGraph.toValue_settles fun item member => (nodes item member).sound

/-- A text without tags is readable unless there are too many parts in a scalar. -/
theorem Readable.of_untagged {text : String} (modest : Modest text.toList)
    (untagged : ∀ t ∈ (Token.scan text).1, t.isTag = false)
    (few : ∀ g, NodeGraph.ofText? text = .ok g → ∀ item ∈ g.items, ∀ own, item.content = .scalar own →
      own.toList.count ':' < partLimit) : Readable text := by
  refine ⟨modest, fun g read => ⟨true, fun item member => ?_⟩⟩
  have settles := NodeGraph.ofText?_settles text
  rw [read] at settles
  cases settles with
  | ok plain => exact Item.readable_of_isPlain (plain untagged item member) (few g read item member)

/-- A text that causes nothing but faults of its structure while it is scanned, and in which every scalar has a value
under its tag or such a fault. -/
structure Sound (text : String) : Prop where
  scanned : ∀ e, Causes text.toList e → e = .malformed
  nodes : ∀ g, NodeGraph.ofText? text = .ok g → ∃ keyed, ∀ item ∈ g.items, item.Sound .structural keyed

/-- A sound text has a value or a fault of its structure. -/
theorem Sound.load_settles {text : String} (sound : Sound text) :
    Settles .structural (fun _ => True) (load text) := by
  have settles := NodeGraph.ofText?_settles text
  unfold load
  cases read : NodeGraph.ofText? text with
  | error e =>
    rw [read] at settles
    cases settles with
    | failed caused => exact .failed (sound.scanned e caused)
  | ok g =>
    obtain ⟨keyed, nodes⟩ := sound.nodes g read
    exact NodeGraph.toValue_settles nodes

/-- Characters without a backslash and without the letter that the name of a version begins with cause nothing but
faults of the structure. -/
theorem Causes.eq_malformed {whole : List Char} {e : YamlError} (escapeFree : '\\' ∉ whole)
    (versionFree : 'Y' ∉ whole) (caused : Causes whole e) : e = .malformed := by
  have escape {rest : List Char} {n : Nat} (inside : rest <:+ whole) : longEscape? rest ≠ some n := by
    intro named
    unfold longEscape? at named
    split at named
    · exact escapeFree (inside.subset List.mem_cons_self)
    · cases named
  cases caused with
  | malformed => rfl
  | beyondUnicode inside named large => exact absurd named (escape inside)
  | beyondCharacters inside named large => exact absurd named (escape inside)
  | tooManyDigits inside named behind long =>
    exact absurd (inside.subset (named.subset List.mem_cons_self)) versionFree

/-- Whether a node is sound but for faults of the structure, whatever keys there are. -/
def Item.isSound (item : Item) : Bool :=
  match item.content, Build.scalarOf? item.tag with
  | .scalar text, some read =>
    match read text with
    | .ok _ => true
    | .error e => e == .malformed
  | .scalar _, none => true
  | .sequence _, _ => true
  | .mapping _, _ => !namesScalar item.tag

theorem Item.sound_of_isSound {item : Item} (checked : item.isSound = true) : item.Sound .structural true := by
  refine ⟨fun text content read known => ?_, fun _ entries content => ?_, nofun⟩
  · simp only [isSound, content, known] at checked
    cases result : read text with
    | ok s => exact .ok trivial
    | error e =>
      rw [result] at checked
      exact .failed (eq_of_beq checked)
  · simpa [isSound, content] using checked

end DocLint.Yaml
