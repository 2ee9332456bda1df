import DocLint.Proofs.Path.Address
import DocLint.Proofs.Query.Places
import DocLint.Proofs.Run.Fields

/-!
# Names in fields and in expressions

Names between dots are a field of an action, which is walked part by part, and behind a dollar sign an expression,
whose selectors are compared with whole paths. At a value where a name is read alike by both
(`Value.ReadsAlike`) one step along the name leads where its selector does (`Target.step?_iff_child?`). So where
this holds of all names on the way, the field leads to a node exactly if the expression selects it
(`Target.follow_agrees`). It does not hold of an integer as a key and of a position with leading zeros, and there
the two differ (`Target.follow_disagrees`).
-/
namespace DocLint
open PathForm

namespace Value

/-- A name is read alike at a value: it spells no integer that is a key, and a position of a list that it writes
it writes without leading zeros and in no more digits than are read. -/
structure ReadsAlike (v : Value) (name : String) : Prop where
  key : ∀ entries, v.entries? = some entries → ∀ e ∈ entries, ∀ i : Int, e.1 = .int i → toString i ≠ name
  position : ∀ items, v.items? = some items → ∀ number : Digits, number.chars = name.toList →
    number.value < items.length →
      toString number.value = name ∧ name.toList.length ≤ Number.decimalLimit

/-- Names select a path: each of them accepts its segment. -/
def Selects (names : List String) (p : Path) : Prop :=
  List.Forall₂ (fun name s => (Selector.key name).accepts s = true) names p

/-- Names are read alike from a value on: each is read alike at the nodes that the names before it select. -/
def ReadsAllAlike (v : Value) (names : List String) : Prop :=
  ∀ before name after p w, names = before ++ name :: after → v.walk? p = some w → Selects before p →
    w.ReadsAlike name

variable {v w : Value} {s : Segment} {name : String} {names : List String}

/-- What is below the first step is read alike by the other names. -/
theorem ReadsAllAlike.tail (alike : v.ReadsAllAlike (name :: names)) (found : v.child? s = some w)
    (accepted : (Selector.key name).accepts s = true) : w.ReadsAllAlike names := by
  rintro before next after p x rfl leads selected
  exact alike (name :: before) next after (s :: p) x rfl (by rw [walk?, found]; exact leads)
    (.cons accepted selected)

/-- A key is found as a segment. -/
theorem field?_eq_child? (v : Value) (key : String) : v.field? key = v.child? (.str key) := by
  have same : ∀ a : Scalar, a.same (.str key) = (a == .str key) := by
    intro a
    cases a <;> simp [Scalar.same, Scalar.number?]
  rcases Query.children_cases v with ⟨parts, _, entries⟩ | ⟨nodes, _, entries, _, parts⟩ |
    ⟨_, _, _, entries, _⟩
  · simp [field?, get?, entries, child?, parts]
  · have apart : v.children.find? (fun e => e.1 == .str key) = none := by
      rw [parts, List.find?_eq_none]
      intro e member
      obtain ⟨_, _, rfl⟩ := List.mem_map.mp member
      simp
    simp [field?, get?, entries, child?, apart]
  · simp only [field?, get?, entries, child?, same, Option.bind_eq_bind, Option.bind_some]
    cases v.children.find? (fun e => e.1 == .str key) <;> rfl

/-- What a segment leads to is a part. -/
theorem mem_children_of_child? (found : v.child? s = some w) : (s, w) ∈ v.children := by
  obtain ⟨e, first, rfl⟩ := Option.map_eq_some_iff.mp found
  have same : e.1 = s := by simpa using List.find?_some first
  exact same ▸ List.mem_of_find?_eq_some first

theorem children_of_isMissing (missing : v.isMissing = true) : v.children = [] := by
  have view := view_of_isMissing missing
  rcases Query.children_cases v with ⟨none, _⟩ | ⟨_, _, _, list, _⟩ | ⟨_, _, _, entries, _⟩
  · exact none
  · simp [items?, view] at list
  · simp [entries?, view] at entries

/-- A position of a list is found as a segment. -/
theorem child?_of_items? {items : List Value} (list : v.items? = some items) (n : Nat) :
    v.child? (.int n) = items[n]? := by
  rcases Query.children_cases v with ⟨_, none, _⟩ | ⟨nodes, _, _, list', parts⟩ | ⟨_, _, none, _⟩
  · cases none.symm.trans list
  · obtain rfl := Option.some.inj (list'.symm.trans list)
    have positions : v.children.map Prod.fst = (List.range' 0 nodes.length).map fun n => .int n := by
      rw [parts, List.map_map, ← List.zipIdx_map_snd, List.map_map]
      rfl
    have nodup : (v.children.map Prod.fst).Nodup := by
      rw [positions]
      refine List.Nodup.map (fun m n same => Int.ofNat_inj.mp (Scalar.int.inj same)) ?_
      exact List.nodup_range'
    ext w
    simp only [child?, Option.map_eq_some_iff, find?_key_eq_some nodup]
    simp only [parts, List.mem_map, Prod.exists, List.mem_zipIdx_iff_getElem?, List.getElem?_map,
      Option.map_eq_some_iff]
    constructor
    · rintro ⟨_, _, ⟨⟨node, m, item, same⟩, rfl⟩, rfl⟩
      cases same
      exact ⟨node, item, rfl⟩
    · rintro ⟨node, item, rfl⟩
      exact ⟨_, _, ⟨⟨node, n, item, rfl⟩, rfl⟩, rfl⟩
  · cases none.symm.trans list

end Value

namespace Target
variable {v w : Value} {s : Segment} {name : String} {names : List String} {p : Path}

/-- What a step leads to is a member that the part names. -/
theorem named_of_step (step : step? v name = .ok (some (s, w))) : Names name s ∧ v.member? s = some w := by
  rcases step?_cases v name with ⟨_, _, refused⟩ | ⟨_, ⟨t, x, step', named, found⟩ | ⟨nowhere, _⟩⟩
  · cases refused.symm.trans step
  · cases step'.symm.trans step
    exact ⟨named, found⟩
  · cases nowhere.symm.trans step

/-- A member that is named by a part is where a step leads, unless the part is refused. -/
theorem step_of_named (named : Names name s) (found : v.member? s = some w)
    (free : ¬ (v.items?.isSome ∧ IsUnreadable name)) : step? v name = .ok (some (s, w)) := by
  rcases step?_cases v name with ⟨blocked, _⟩ | ⟨_, ⟨t, x, step, named', found'⟩ | ⟨_, noMember⟩⟩
  · exact absurd blocked free
  · obtain rfl := named.unique named' found found'
    cases found.symm.trans found'
    exact step
  · cases (noMember s named).symm.trans found

/-- Where a name is read alike, a step along it leads to the child that its selector accepts. -/
theorem step?_iff_child? (alike : v.ReadsAlike name) : step? v name = .ok (some (s, w)) ↔
    v.child? s = some w ∧ (Selector.key name).accepts s = true := by
  constructor
  · intro step
    obtain ⟨rfl | ⟨number, chars, rfl⟩, found⟩ := named_of_step step
    · exact ⟨v.field?_eq_child? name ▸ found, Selector.accepts_key.mpr (.inl rfl)⟩
    · obtain ⟨items, list, item⟩ := Option.bind_eq_some_iff.mp found
      have inside : number.value < items.length := (List.getElem?_eq_some_iff.mp item).1
      have plain := (alike.position items list number chars inside).1
      exact ⟨(Value.child?_of_items? list _).trans item, Selector.accepts_key.mpr (.inr ⟨_, plain, rfl⟩)⟩
  · rintro ⟨found, accepted⟩
    rcases Selector.accepts_key.mp accepted with rfl | ⟨i, spelled, rfl⟩
    · have field : v.field? name = some w := (v.field?_eq_child? name).trans found
      refine step_of_named (.inl rfl) field fun ⟨list, _⟩ => ?_
      rw [Value.items?_of_field? field] at list
      cases list
    · have part := Value.mem_children_of_child? found
      rcases Query.children_cases v with ⟨none, _⟩ | ⟨nodes, _, _, list, parts⟩ | ⟨_, _, _, entries, _⟩
      · simp [none] at part
      · obtain ⟨⟨node, n⟩, _, same⟩ := List.mem_map.mp (parts ▸ part)
        obtain ⟨rfl, _⟩ : (n : Int) = i ∧ _ := by simpa using same
        rw [Value.child?_of_items? list] at found
        have chars : (AddressPart.digits n).chars = name.toList := by
          rw [← spelled]
          exact Nat.toList_repr.symm
        have named : Names name (.int n) := by
          refine .inr ⟨AddressPart.digits n, chars, ?_⟩
          rw [AddressPart.digits_value]
        have inside : n < _ := (List.getElem?_eq_some_iff.mp found).1
        obtain ⟨_, few⟩ := alike.position _ list (AddressPart.digits n) chars
          (by rwa [AddressPart.digits_value])
        refine step_of_named named (Option.bind_eq_some_iff.mpr ⟨_, list, found⟩) ?_
        rintro ⟨_, _, _, ⟨c, member, other⟩ | many⟩
        · have decimal := (AddressPart.digits n).decimal c (chars ▸ member)
          exact Bool.noConfusion (other.symm.trans decimal)
        · omega
      · exact absurd spelled (alike.key _ entries _ part i rfl)

/-- Names that are read alike lead along a field to the nodes that they select. -/
theorem follow_iff_walk? (alike : v.ReadsAllAlike names) :
    (follow v names = .ok (p, w) ∧ w.isMissing = false) ↔
      v.walk? p = some w ∧ w.isMissing = false ∧ Value.Selects names p := by
  induction names generalizing v p with
  | nil =>
    constructor
    · rintro ⟨ok, present⟩
      cases ok
      exact ⟨rfl, present, .nil⟩
    · rintro ⟨leads, present, selected⟩
      obtain rfl := List.forall₂_nil_left_iff.mp selected
      cases leads
      exact ⟨rfl, present⟩
  | cons name names ih =>
    have here : v.ReadsAlike name := alike [] name names [] v rfl rfl .nil
    constructor
    · rintro ⟨ok, present⟩
      cases step : step? v name with
      | error failure => cases (follow_of_refused step).symm.trans ok
      | ok next =>
        cases next with
        | none =>
          cases (follow_of_nowhere step).symm.trans ok
          cases present
        | some next =>
          obtain ⟨s, x⟩ := next
          obtain ⟨found, accepted⟩ := (step?_iff_child? here).mp step
          cases missing : x.isMissing with
          | true =>
            cases (follow_of_missing step missing).symm.trans ok
            cases missing.symm.trans present
          | false =>
            rw [follow_of_step step missing] at ok
            obtain ⟨⟨q, _⟩, walked, same⟩ := exists_of_bind_pure ok
            cases same
            obtain ⟨onward, _, selected⟩ := (ih (alike.tail found accepted)).mp ⟨walked, present⟩
            exact ⟨by rw [Value.walk?, found]; exact onward, present, .cons accepted selected⟩
    · rintro ⟨leads, present, selected⟩
      obtain ⟨s, q, accepted, others, rfl⟩ := List.forall₂_cons_left_iff.mp selected
      obtain ⟨x, found, onward⟩ := Option.bind_eq_some_iff.mp leads
      have step := (step?_iff_child? here).mpr ⟨found, accepted⟩
      cases missing : x.isMissing with
      | true =>
        -- nothing is below a missing value, so the path would end there
        cases others with
        | nil =>
          cases onward
          cases missing.symm.trans present
        | cons _ _ =>
          obtain ⟨y, below, _⟩ := Option.bind_eq_some_iff.mp onward
          have part := Value.mem_children_of_child? below
          simp [Value.children_of_isMissing missing] at part
      | false =>
        obtain ⟨walked, _⟩ := (ih (alike.tail found accepted)).mpr ⟨onward, present, others⟩
        rw [follow_of_step step missing, walked]
        exact ⟨rfl, present⟩

/-! ### The names of a field as an expression -/

/-- A name that needs no quotes in an expression. -/
def IsName (name : String) : Prop :=
  name ≠ "" ∧ ∀ c ∈ name.toList, CompiledPath.isNameChar c = true

instance (name : String) : Decidable (IsName name) :=
  decidable_of_iff (name ≠ "" ∧ name.toList.all CompiledPath.isNameChar = true) <| by
    rw [IsName, List.all_eq_true]

/-- The parts of a field with a dot in front of each are the field with a dot in front. -/
theorem flatMap_fieldParts (field : String) :
    ((fieldParts field).flatMap fun part => '.' :: part.toList) = '.' :: field.toList := by
  have parts : ∀ cs : List Char, (splitChars '.' cs).flatMap ('.' :: ·) = '.' :: cs := by
    intro cs
    induction cs with
    | nil => rfl
    | cons c cs ih =>
      rw [splitChars]
      split
      next dot => rw [List.flatMap_cons, ih, beq_iff_eq.mp dot]; rfl
      next =>
        cases split : splitChars '.' cs with
        | nil => simp [split] at ih
        | cons part parts =>
          rw [split, List.flatMap_cons, List.cons_append, List.cons.injEq] at ih
          rw [List.flatMap_cons, List.cons_append, List.cons_append, ih.2]
  rw [← parts, fieldParts, List.flatMap_map]
  simp only [String.toList_ofList]

/-- Names are the steps of an expression. -/
theorem exists_steps (named : ∀ name ∈ names, IsName name) :
    ∃ steps : List Step, written steps = (names.flatMap fun name => '.' :: name.toList) ∧
      PathForm.selectors steps = names.map .key := by
  induction names with
  | nil => exact ⟨[], rfl, rfl⟩
  | cons name names ih =>
    obtain ⟨⟨nonempty, plain⟩, others⟩ := List.forall_mem_cons.mp named
    obtain ⟨steps, text, selectors⟩ := ih others
    let label : PathForm.Name := ⟨name.toList, by simpa using nonempty, plain⟩
    refine ⟨.child (.name label) :: steps, ?_, ?_⟩
    · rw [written, List.flatMap_cons, ← written, text]
      rfl
    · rw [PathForm.selectors, List.flatMap_cons, ← PathForm.selectors, selectors]
      simp [Step.selectors, Label.selector, label]

/-- No character of a name is blank. -/
theorem isBlank_of_isNameChar {c : Char} (named : CompiledPath.isNameChar c = true) :
    Text.isBlank c = false := by
  have kinds : Query.Token.startsName c = true ∨ c.isDigit = true ∨ c = '-' ∨ c = '$' ∨ c = '@' := by
    simp only [CompiledPath.isNameChar, Char.isAlphanum, Bool.or_eq_true, beq_iff_eq] at named
    simp only [Query.Token.startsName, Bool.or_eq_true, beq_iff_eq]
    tauto
  have visible : 33 ≤ c.toNat ∧ c.toNat ≤ 122 := by
    rcases kinds with letter | digit | rfl | rfl | rfl
    · have bounds := Query.Token.toNat_of_startsName letter
      omega
    · have bounds : 48 ≤ c.toNat ∧ c.toNat ≤ 57 := Char.isDigit_iff_toNat.mp digit
      omega
    all_goals decide
  refine Bool.eq_false_iff.mpr fun blank => ?_
  obtain ⟨range, listed, within⟩ := Text.inRanges_iff.mp blank
  have apart : ∀ r ∈ Text.blankRanges, r.2 ≤ 32 ∨ 123 ≤ r.1 := by decide
  have := apart range listed
  omega

/-- Names of a field with a dollar sign in front spell the steps along them: no blank is among them. -/
theorem exists_spelled {field : String} (named : ∀ name ∈ fieldParts field, IsName name) :
    ∃ steps : List Step, Spells ("$." ++ field) steps ∧
      PathForm.selectors steps = (fieldParts field).map .key := by
  obtain ⟨steps, text, selectors⟩ := exists_steps named
  have full : ∀ c ∈ '.' :: field.toList, Text.isBlank c = false := by
    intro c member
    rw [← flatMap_fieldParts] at member
    obtain ⟨name, listed, member⟩ := List.mem_flatMap.mp member
    rcases List.mem_cons.mp member with rfl | member
    · decide
    · exact isBlank_of_isNameChar ((named name listed).2 c member)
  rw [flatMap_fieldParts] at text
  have last := List.getLast_mem (List.cons_ne_nil '.' field.toList)
  have ends : ('$' :: '.' :: field.toList).getLast? = some (('.' :: field.toList).getLast (by simp)) := by
    rw [List.getLast?_cons_cons, List.getLast?_eq_some_getLast]
  have whole : ("$." ++ field).toList = '$' :: '.' :: field.toList := by simp
  refine ⟨steps, ?_, selectors⟩
  rw [Spells, Text.trim, String.toList_ofList, whole,
    Text.trimChars_eq_self rfl ends (by decide) (full _ last), text]

/-- Where all keys are texts, names are read alike that write no position with leading zeros, and none with more
digits than are read. -/
theorem readsAllAlike_of_isTextual (textual : v.graph.IsTextual)
    (plain : ∀ name ∈ names, ∀ n ∈ Text.decimalNat? name.toList,
      toString n = name ∧ name.toList.length ≤ Number.decimalLimit) :
    v.ReadsAllAlike names := by
  rintro before name after p w rfl leads _
  obtain ⟨n, rfl⟩ := Value.graph_of_walk? leads
  have read : ∀ number : Digits, number.chars = name.toList → number.value ∈ Text.decimalNat? name.toList := by
    intro number chars
    rw [Option.mem_def, ← chars, CompiledPath.decimalNat?_digits]
  refine ⟨?_, fun items _ number chars _ => plain name (by simp) number.value (read number chars)⟩
  rintro entries mapping e member i same
  rcases Query.children_cases ⟨v.graph, n⟩ with ⟨_, _, none⟩ | ⟨_, _, none, _⟩ | ⟨es, listed, _, parts, children⟩
  · cases none.symm.trans mapping
  · cases none.symm.trans mapping
  · cases parts.symm.trans mapping
    obtain ⟨entry, own, rfl⟩ := List.mem_map.mp (children ▸ member)
    obtain ⟨key, text⟩ := textual es listed entry own
    cases text.symm.trans same

/-- Where names are read alike, a field of them leads exactly to the nodes, and along the paths, that the expression
of the same names selects. -/
theorem follow_agrees {v : Value} {field : String} (named : ∀ name ∈ fieldParts field, IsName name)
    (alike : v.ReadsAllAlike (fieldParts field)) :
    ∃ c, CompiledPath.ofExpression ("$." ++ field) = .ok c ∧
      ∀ p w, follow v (fieldParts field) = .ok (p, w) ∧ w.isMissing = false ↔
        v.walk? p = some w ∧ w.isMissing = false ∧ c.matches p = true := by
  obtain ⟨steps, spells, selectors⟩ := exists_spelled named
  have text : (Text.trim ("$." ++ field)).toList = '$' :: written steps := spells
  refine ⟨⟨"$." ++ field, PathForm.selectors steps⟩, ?_, fun p w => ?_⟩
  · simp only [CompiledPath.ofExpression, text, CompiledPath.readSteps_written]
    rfl
  · have flat : Selector.descend ∉ (fieldParts field).map Selector.key := by simp
    rw [follow_iff_walk? alike, CompiledPath.matches_eq_selects, selectors, selects_iff_forall₂ flat,
      List.forall₂_map_left_iff, Value.Selects]

theorem sharedParts_follow_agrees :
    (∀ name ∈ fieldParts "a.1.x", IsName name) ∧ Value.sharedParts.ReadsAllAlike (fieldParts "a.1.x") ∧
    ∃ c, CompiledPath.ofExpression "$.a.1.x" = .ok c ∧ c.matches [.str "a", .int 1, .str "x"] = true := by
  have named : ∀ name ∈ fieldParts "a.1.x", IsName name := by decide +kernel
  have textual : Value.sharedParts.graph.IsTextual := by
    simp [Graph.IsTextual, Value.sharedParts, or_imp, forall_and]
  have alike : Value.sharedParts.ReadsAllAlike (fieldParts "a.1.x") :=
    readsAllAlike_of_isTextual textual (by decide +kernel)
  obtain ⟨c, compiled, agree⟩ := follow_agrees named alike
  refine ⟨named, alike, c, compiled, ?_⟩
  refine ((agree [.str "a", .int 1, .str "x"] ⟨Value.sharedParts.graph, .scalar (.int 1)⟩).mp ⟨?_, rfl⟩).2.2
  rfl

/-- A value that has an integer as a key. -/
def codeKey : Value :=
  ⟨⟨#[.mapping [(.int 200, .scalar (.str "ok"))]]⟩, .container 0⟩

/-- An integer as a key is selected by the name that spells it, but a field of that name does not lead to it. And a
field leads along leading zeros to a position that the expression of the same name does not select. -/
theorem follow_disagrees :
    (∀ name ∈ fieldParts "200", IsName name) ∧
    follow codeKey (fieldParts "200") = .ok ([.str "200"], .missing) ∧
    (∃ c w, CompiledPath.ofExpression "$.200" = .ok c ∧ codeKey.walk? [.int 200] = some w ∧
      w.isMissing = false ∧ c.matches [.int 200] = true) ∧
    (∀ name ∈ fieldParts "00", IsName name) ∧
    (∃ w, follow oneText (fieldParts "00") = .ok ([.int 0], w) ∧ w.isMissing = false) ∧
    ∃ c, CompiledPath.ofExpression "$.00" = .ok c ∧ ∀ p w, oneText.walk? p = some w → c.matches p = false := by
  refine ⟨by decide +kernel, rfl, ⟨⟨"$.200", [.key "200"]⟩, _, by decide +kernel, rfl, rfl, by decide⟩,
    by decide +kernel, ⟨⟨oneText.graph, .scalar (.str "a")⟩, rfl, rfl⟩, ⟨"$.00", [.key "00"]⟩,
    by decide +kernel, ?_⟩
  intro p w leads
  refine Bool.eq_false_iff.mpr fun selected => ?_
  rw [CompiledPath.matches_eq_selects] at selected
  obtain ⟨s, rest, rfl, accepted, onward⟩ := (selects_segment (by decide)).mp selected
  obtain ⟨x, found, _⟩ := Option.bind_eq_some_iff.mp leads
  have children : oneText.children = [(.int 0, ⟨oneText.graph, .scalar (.str "a")⟩)] := rfl
  have part := Value.mem_children_of_child? found
  rw [children, List.mem_singleton] at part
  cases part
  exact absurd accepted (by decide)

end Target
end DocLint
