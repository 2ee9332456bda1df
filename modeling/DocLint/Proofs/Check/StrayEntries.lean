import DocLint.Check.Choice
import DocLint.Proofs.Lists
import Mathlib.Algebra.Group.Int.Defs
import Mathlib.Algebra.Group.Nat.Defs
import Mathlib.Data.List.Sort

/-!
# Stray entries of a schema

Which entries of a schema the check of choices reports, said of the values alone: those that are of none of the types
that the schema declares (`Value.IsStrayAt`). The check reports each of them once, by increasing positions
(`typedEnum_eq`, `mem_strayPositions`). Against several types an entry is stray if it is against each of them
(`mem_strays_iff_forall`), and letting null pass is one more type (`strays_nullable`).
-/
namespace DocLint

/-- A number is an integer if it has the value of one. -/
theorem Binary64.isInteger_iff (x : Binary64) : x.isInteger = true ↔ ∃ i : Int, x.compareInt? i = some .eq := by
  cases x with
  | nan origin => simp [isInteger, compareInt?]
  | infinite negative => cases negative <;> simp [isInteger, compareInt?]
  | finite negative m e =>
    simp only [isInteger, compareInt?, Option.some.injEq, compareScaled, compare_eq_iff_eq, Bool.or_eq_true,
      decide_eq_true_eq, beq_iff_eq]
    by_cases positive : 0 ≤ e
    · rw [min_eq_right positive, Int.sub_zero, Int.sub_zero]
      exact iff_of_true (.inl positive) ⟨_, (Int.mul_one _).symm⟩
    -- below the point, the power of two that is divided by must divide the significand
    · rw [min_eq_left (by omega), Int.sub_self, Int.zero_sub]
      have scaled : ∀ i : Int, signed negative m * Int.pow 2 (Int.toNat 0) = i * Int.pow 2 (-e).toNat ↔
          signed negative m = i * (2 ^ (-e).toNat : ℕ) := by
        intro i
        rw [Int.natCast_pow]
        exact Iff.of_eq (congrArg (· = _) (Int.mul_one _))
      have divides : m % 2 ^ (-e).toNat = 0 ↔ ((2 ^ (-e).toNat : ℕ) : Int) ∣ signed negative m := by
        rw [← Nat.dvd_iff_mod_eq_zero, ← Int.natCast_dvd_natCast]
        cases negative <;> simp [signed]
      simp only [positive, false_or, scaled]
      exact divides.trans ⟨fun ⟨i, same⟩ => ⟨i, same.trans (Int.mul_comm _ _)⟩,
        fun ⟨i, same⟩ => ⟨i, same.trans (Int.mul_comm _ _)⟩⟩

namespace SchemaType

/-- The name of a type. -/
def name : SchemaType → String
  | .array => "array"
  | .boolean => "boolean"
  | .integer => "integer"
  | .null => "null"
  | .number => "number"
  | .object => "object"
  | .string => "string"

theorem ofName?_eq_some_iff {n : String} {t : SchemaType} : ofName? n = some t ↔ t.name = n := by
  constructor
  · intro named
    unfold ofName? at named
    split at named
    all_goals cases named
    all_goals rfl
  · rintro rfl
    cases t <;> rfl

end SchemaType

/-- What it is for a value to be of a type. Truth values are no integers; a floating-point number is one if it has
the value of one. -/
def Value.HasType (v : Value) : SchemaType → Prop
  | .array => ∃ items, v.view = .list items
  | .boolean => ∃ b, v.view = .scalar (.bool b)
  | .integer => (∃ i, v.view = .scalar (.int i)) ∨
      ∃ (x : Binary64) (i : Int), v.view = .scalar (.float x) ∧ x.compareInt? i = some .eq
  | .null => v.view = .scalar .null
  | .number => (∃ i, v.view = .scalar (.int i)) ∨ ∃ x, v.view = .scalar (.float x)
  | .object => ∃ entries, v.view = .mapping entries
  | .string => ∃ s, v.view = .scalar (.str s)

theorem SchemaType.admits_iff (t : SchemaType) (v : Value) : t.admits v = true ↔ v.HasType t := by
  cases view : v.view with
  | scalar s =>
    cases t <;> cases s
    all_goals
      simp [admits, Value.HasType, Value.items?, Value.entries?, Value.scalar?, Value.string?, Value.isNull, view,
        Binary64.isInteger_iff]
  | _ =>
    cases t
    all_goals
      simp [admits, Value.HasType, Value.items?, Value.entries?, Value.scalar?, Value.string?, Value.isNull, view]

namespace Value

/-- What it is for a value to conform to the name of a type. To a name that names none every value conforms. -/
def ConformsTo (v : Value) (name : String) : Prop :=
  ∀ t : SchemaType, t.name = name → v.HasType t

/-- The names of types that a value declares: its own text, or those of the members of a list. -/
inductive Declares (declared : Value) : List String → Prop
  | one (noList : declared.items? = none) : Declares declared [declared.text]
  | several {members : List Value} (isList : declared.view = .list members) :
      Declares declared (members.map Value.text)

/-- A mapping that lists entries and declares types for them. -/
structure IsEnumSchema (v : Value) (entries : List Value) (types : List String) (nullable : Bool) : Prop where
  lists : ∃ choices, v.field? "enum" = some choices ∧ choices.view = .list entries
  declares : ∃ declared, v.field? "type" = some declared ∧ declared.isNull = false ∧ declared.Declares types
  nullable : nullable = true ↔ ∃ flag, v.field? "nullable" = some flag ∧ flag.view = .scalar (.bool true)

/-- A value is a schema with an entry at a position that conforms to none of the declared types and is not a null that
the schema lets pass. -/
def IsStrayAt (v : Value) (position : Nat) (entry : Value) : Prop :=
  ∃ entries types nullable, v.IsEnumSchema entries types nullable ∧ entries[position]? = some entry ∧
    (∀ name ∈ types, ¬ entry.ConformsTo name) ∧ ¬ (nullable = true ∧ entry.isNull = true)

/-- Two values are of the same types. -/
def SameTypes (v w : Value) : Prop :=
  ∀ t, v.HasType t ↔ w.HasType t

end Value

namespace Check
variable {v w entry : Value} {entries entries' : List Value} {types types' : List String} {nullable nullable' : Bool}

theorem conforms_iff {name : String} : conforms v name = true ↔ v.ConformsTo name := by
  unfold conforms Value.ConformsTo
  cases named : SchemaType.ofName? name with
  | none =>
    refine iff_of_true rfl fun t own => ?_
    cases named.symm.trans (SchemaType.ofName?_eq_some_iff.mpr own)
  | some t =>
    have only : ∀ t' : SchemaType, t'.name = name ↔ t = t' := fun t' => by
      rw [← SchemaType.ofName?_eq_some_iff, named, Option.some.injEq]
    simp only [SchemaType.admits_iff, only, forall_eq']

theorem declares_iff {declared : Value} : declared.Declares types ↔ declaredTypes declared = types := by
  unfold declaredTypes
  constructor
  · rintro (noList | isList)
    · rw [noList]
    · rw [Value.items?_eq_some_iff.mpr isList]
  · rintro rfl
    cases list : declared.items? with
    | none => exact .one list
    | some members => exact .several (Value.items?_eq_some_iff.mp list)

/-- An entry is reported if it conforms to none of the types and is not a null that is let pass. -/
theorem isStray_iff : isStray types nullable entry = true ↔
    (∀ name ∈ types, ¬ entry.ConformsTo name) ∧ ¬ (nullable = true ∧ entry.isNull = true) := by
  simp only [isStray, Bool.and_eq_true, Bool.not_eq_true', ← Bool.not_eq_true, List.any_eq_true, conforms_iff,
    not_exists, not_and]
  constructor
  · exact fun ⟨passes, conforms⟩ => ⟨conforms, fun flag isNull => passes isNull flag⟩
  · exact fun ⟨conforms, passes⟩ => ⟨fun isNull flag => passes flag isNull, conforms⟩

/-- What the check reads of a schema. -/
def readSchema? (v : Value) : Option (List Value × List String × Bool) := do
  let entries ← (v.field? "enum").bind Value.items?
  let declared ← v.present? "type"
  return (entries, declaredTypes declared, (v.field? "nullable").bind Value.scalar? == some (.bool true))

theorem readSchema?_eq_some_iff :
    readSchema? v = some (entries, types, nullable) ↔ v.IsEnumSchema entries types nullable := by
  have flagged : ((v.field? "nullable").bind Value.scalar? == some (.bool true)) = nullable ↔
      (nullable = true ↔ ∃ flag, v.field? "nullable" = some flag ∧ flag.view = .scalar (.bool true)) := by
    rw [Bool.eq_iff_iff, beq_iff_eq, Option.bind_eq_some_iff]
    simp only [Value.scalar?_eq_some_iff]
    exact Iff.comm
  constructor
  · intro read
    simp only [readSchema?, bind, Option.bind_eq_some_iff, Value.items?_eq_some_iff] at read
    obtain ⟨_, ⟨choices, listed, isList⟩, declared, present, same⟩ := read
    cases same
    obtain ⟨found, notNull⟩ := Value.present?_eq_some_iff.mp present
    exact ⟨⟨choices, listed, isList⟩, ⟨declared, found, notNull, declares_iff.mpr rfl⟩, flagged.mp rfl⟩
  · rintro ⟨⟨choices, listed, isList⟩, ⟨declared, found, notNull, declares⟩, nullable⟩
    simp only [readSchema?, listed, Value.present?_eq_some_iff.mpr ⟨found, notNull⟩, bind, Option.bind_some,
      Value.items?_eq_some_iff.mpr isList, declares_iff.mp declares, flagged.mpr nullable]
    rfl

/-- The positions of entries that are to be reported. -/
def strays (entries : List Value) (types : List String) (nullable : Bool) : List Nat :=
  (entries.zipIdx.filter fun e => isStray types nullable e.1).map Prod.snd

/-- The positions of the stray entries of a schema. -/
def strayPositions (v : Value) : List Nat :=
  ((readSchema? v).map fun s => strays s.1 s.2.1 s.2.2).getD []

theorem mem_strays {i : Nat} : i ∈ strays entries types nullable ↔
    ∃ entry, entries[i]? = some entry ∧ isStray types nullable entry = true := by
  simp only [strays, List.mem_map, List.mem_filter]
  constructor
  · rintro ⟨⟨entry, j⟩, ⟨listed, stray⟩, rfl⟩
    exact ⟨entry, List.mk_mem_zipIdx_iff_getElem?.mp listed, stray⟩
  · rintro ⟨entry, here, stray⟩
    exact ⟨(entry, i), ⟨List.mk_mem_zipIdx_iff_getElem?.mpr here, stray⟩, rfl⟩

theorem strays_increasing : (strays entries types nullable).Pairwise (· < ·) := by
  have positions : (entries.zipIdx.map Prod.snd).Pairwise (· < ·) := by
    rw [List.zipIdx_map_snd]
    exact List.pairwise_lt_range'
  exact positions.sublist (List.filter_sublist.map Prod.snd)

/-- The check reports the stray entries of a schema, at their positions in its list. -/
theorem typedEnum_eq (v options : Value) (c : CheckContext) : ∃ answer, typedEnum v options c = .answered answer ∧
    (answer.getD []).map Finding.path = (strayPositions v).map fun i => [.str "enum", .int i] := by
  unfold typedEnum strayPositions readSchema?
  cases (v.field? "enum").bind Value.items? with
  | none => exact ⟨none, rfl, rfl⟩
  | some entries =>
    cases v.present? "type" with
    | none => exact ⟨none, rfl, rfl⟩
    | some declared =>
      refine ⟨_, rfl, ?_⟩
      simp only [Option.getD_some, bind, Option.bind_some, Option.map_some, strays, List.map_map, pure]
      rfl

theorem strayPositions_of_isEnumSchema (schema : v.IsEnumSchema entries types nullable) :
    strayPositions v = strays entries types nullable := by
  rw [strayPositions, readSchema?_eq_some_iff.mpr schema]
  rfl

theorem strayPositions_increasing (v : Value) : (strayPositions v).Pairwise (· < ·) := by
  unfold strayPositions
  cases readSchema? v with
  | none => exact .nil
  | some s => exact strays_increasing

theorem mem_strayPositions {i : Nat} : i ∈ strayPositions v ↔ ∃ entry, v.IsStrayAt i entry := by
  constructor
  · intro member
    unfold strayPositions at member
    cases read : readSchema? v with
    | none => simp [read] at member
    | some s =>
      rw [read] at member
      obtain ⟨entry, here, stray⟩ := mem_strays.mp member
      exact ⟨entry, _, _, _, readSchema?_eq_some_iff.mp read, here, isStray_iff.mp stray⟩
  · rintro ⟨entry, entries, types, nullable, schema, here, stray⟩
    rw [strayPositions_of_isEnumSchema schema]
    exact mem_strays.mpr ⟨entry, here, isStray_iff.mpr stray⟩

/-! ### Several types, and null -/

theorem isStray_of_sameTypes (alike : v.SameTypes w) : isStray types nullable v = isStray types nullable w := by
  have conforms (name : String) : v.ConformsTo name ↔ w.ConformsTo name :=
    forall_congr' fun t => imp_congr_right fun _ => alike t
  have isNull : v.isNull = true ↔ w.isNull = true := by
    change SchemaType.null.admits v = true ↔ SchemaType.null.admits w = true
    rw [SchemaType.admits_iff, SchemaType.admits_iff, alike]
  rw [Bool.eq_iff_iff, isStray_iff, isStray_iff]
  simp only [conforms, isNull]

/-- Which entries are reported depends on their types alone. -/
theorem strays_of_sameTypes (alike : List.Forall₂ Value.SameTypes entries entries') :
    strays entries types nullable = strays entries' types nullable := by
  refine strays_increasing.eq_of_mem_iff strays_increasing fun i => ?_
  rw [mem_strays, mem_strays]
  constructor
  · rintro ⟨entry, here, stray⟩
    obtain ⟨entry', here', same⟩ := exists_getElem?_of_forall₂ alike.flip here
    exact ⟨entry', here', (isStray_of_sameTypes same).symm.trans stray⟩
  · rintro ⟨entry', here', stray⟩
    obtain ⟨entry, here, same⟩ := exists_getElem?_of_forall₂ alike here'
    exact ⟨entry, here, (isStray_of_sameTypes same).trans stray⟩

/-- What is reported for several types is what is reported for each of them. -/
theorem mem_strays_iff_forall (several : types ≠ []) {i : Nat} :
    i ∈ strays entries types nullable ↔ ∀ name ∈ types, i ∈ strays entries [name] nullable := by
  simp only [mem_strays, isStray_iff, List.forall_mem_singleton]
  constructor
  · rintro ⟨entry, here, conforms, passes⟩ name member
    exact ⟨entry, here, conforms name member, passes⟩
  · intro each
    obtain ⟨first, member⟩ := List.exists_mem_of_ne_nil types several
    obtain ⟨entry, here, _, passes⟩ := each first member
    refine ⟨entry, here, fun name among => ?_, passes⟩
    obtain ⟨_, same, conforms, _⟩ := each name among
    cases here.symm.trans same
    exact conforms

/-- To let null pass has the effect of one more type. -/
theorem strays_nullable (adds : ∀ name, name ∈ types' ↔ name ∈ types ∨ name = "null") :
    strays entries types true = strays entries types' nullable := by
  have isNull : ∀ entry : Value, entry.ConformsTo "null" ↔ entry.isNull = true := fun entry => by
    rw [← conforms_iff]
    rfl
  refine strays_increasing.eq_of_mem_iff strays_increasing fun i => ?_
  simp only [mem_strays, isStray_iff, adds, true_and]
  refine exists_congr fun entry => and_congr_right fun _ => ?_
  constructor
  · rintro ⟨conforms, passes⟩
    refine ⟨?_, fun both => passes both.2⟩
    rintro name (member | rfl)
    · exact conforms name member
    · exact fun isNull' => passes ((isNull entry).mp isNull')
  · rintro ⟨conforms, _⟩
    exact ⟨fun name member => conforms name (.inl member),
      fun isNull' => conforms "null" (.inr rfl) ((isNull entry).mpr isNull')⟩

end Check
end DocLint
