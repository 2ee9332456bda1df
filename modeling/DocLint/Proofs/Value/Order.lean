import DocLint.Check.Measure
import Mathlib.Data.List.Chain
import Mathlib.Data.String.Basic

/-!
# The order of values

Texts have the order of their code points and integers that of the numbers; truth values count as 0 and 1. Where all
values are texts or all are integers, what comes before what for a check of order is told by this order
(`Check.precedes_iff_isLess`), and neighbours in order make a list in order (`Value.inOrder_of_isChain`).
-/
namespace DocLint

/-- Characters come before others in the order of lists. -/
theorem Scalar.charsBefore_iff (as bs : List Char) : charsBefore as bs = true ↔ as < bs := by
  induction as generalizing bs with
  | nil => cases bs <;> simp [charsBefore]
  | cons a as ih =>
    cases bs with
    | nil => simp [charsBefore]
    | cons b bs =>
      rw [charsBefore, Bool.or_eq_true, Bool.and_eq_true, ih, decide_eq_true_eq, beq_iff_eq,
        List.cons_lt_cons_iff]
      exact Iff.rfl

/-- The characters of a text come before those of another if the text does. -/
theorem Scalar.charsBefore_toList (s t : String) : charsBefore s.toList t.toList = true ↔ s < t := by
  rw [charsBefore_iff, String.lt_iff_toList_lt]

namespace Value

/-- The integer that a value is. -/
def integer? (v : Value) : Option Int :=
  v.scalar?.bind fun s => s.number?.bind Sum.getLeft?

/-- One value comes before another by what a key makes of both. -/
def IsLessBy {κ : Type} [LT κ] (key : Value → Option κ) (v w : Value) : Prop :=
  ∃ m n, key v = some m ∧ key w = some n ∧ m < n

/-- One value is less than another: a text than a text, or an integer than an integer. -/
def IsLess (v w : Value) : Prop :=
  IsLessBy string? v w ∨ IsLessBy integer? v w

/-- No value is greater than one behind it. -/
def InOrder (items : List Value) : Prop :=
  items.Pairwise fun v w => ¬ w.IsLess v

/-- Values that have an order: texts, or integers. -/
def Comparable (items : List Value) : Prop :=
  (∀ v ∈ items, v.string?.isSome) ∨ ∀ v ∈ items, v.integer?.isSome

variable {v w : Value}

theorem scalar?_of_string? {s : String} (text : v.string? = some s) : v.scalar? = some (.str s) :=
  scalar?_eq_some_iff.mpr (string?_eq_some_iff.mp text)

theorem integer?_of_string? {s : String} (text : v.string? = some s) : v.integer? = none := by
  rw [integer?, scalar?_of_string? text]
  rfl

/-- A value that is a scalar is one as a node, or a number without a container, which counts as null. -/
theorem node_of_scalar? {a : Scalar} (is : v.scalar? = some a) :
    v.node = .scalar a ∨ a = .null ∧ ∃ id, v.node = .container id ∧ v.graph.containers[id]? = none := by
  obtain ⟨g, node⟩ := v
  cases node with
  | scalar b =>
    cases is
    exact .inl rfl
  | container id =>
    cases found : g.containers[id]? with
    | none =>
      simp only [scalar?, view, found, Option.some.injEq] at is
      exact .inr ⟨is.symm, id, rfl, found⟩
    | some c => cases c <;> simp [scalar?, view, found] at is

/-- The order of scalars as values is their own. -/
theorem before?_of_scalar? {a b : Scalar} (first : v.scalar? = some a) (second : w.scalar? = some b) :
    v.before? w = a.before? b := by
  have null (c : Scalar) : Scalar.null.before? c = none ∧ c.before? .null = none := by
    cases c <;> exact ⟨rfl, rfl⟩
  rw [before?]
  -- either side can be a number without a container, which is null and has no order
  rcases node_of_scalar? first with here | ⟨rfl, i, here, absent⟩ <;>
    rcases node_of_scalar? second with there | ⟨rfl, j, there, absent'⟩
  · rw [here, there, Graph.beforeWithin]
  · rw [here, there, Graph.beforeWithin, (null a).2]
    all_goals simp
  · rw [here, there, Graph.beforeWithin, (null b).1]
    all_goals simp
  · rw [here, there, commonBound, Graph.depthBound, Nat.add_right_comm, Graph.beforeWithin]
    simp [absent, absent', (null .null).1]

/-- An integer is no text. -/
theorem string?_of_integer? {i : Int} (number : v.integer? = some i) : v.string? = none := by
  cases text : v.string? with
  | none => rfl
  | some s => cases (integer?_of_string? text).symm.trans number

/-- A value that is no integer is less than what it is less than as a text, and the other way round. -/
theorem isLess_iff_of_none :
    (v.integer? = none → (v.IsLess w ↔ IsLessBy string? v w)) ∧
      (v.string? = none → (v.IsLess w ↔ IsLessBy integer? v w)) := by
  constructor
  all_goals
    intro absent
    simp [IsLess, IsLessBy, absent]

/-- Values whose order is that of a key that all of them have are in order if neighbours are. -/
theorem inOrder_of_key {κ : Type} [LinearOrder κ] {key : Value → Option κ} {items : List Value}
    (keyed : ∀ v ∈ items, (key v).isSome) (byKey : ∀ v ∈ items, ∀ w, v.IsLess w ↔ IsLessBy key v w)
    (chain : items.IsChain fun v w => ¬ w.IsLess v) : InOrder items := by
  -- not to be less is transitive only among values with a key, so the chain is taken to the order of the keys
  let upTo (v w : Value) : Prop := ∃ m n, key v = some m ∧ key w = some n ∧ m ≤ n
  have transitive : Trans upTo upTo upTo := by
    refine ⟨?_⟩
    rintro a b c ⟨k, m, first, second, below⟩ ⟨_, n, second', third, below'⟩
    cases second.symm.trans second'
    exact ⟨k, n, first, third, below.trans below'⟩
  have ordered : items.IsChain upTo := by
    refine chain.imp_of_mem_imp fun v w first second apart => ?_
    obtain ⟨m, here⟩ := Option.isSome_iff_exists.mp (keyed v first)
    obtain ⟨n, there⟩ := Option.isSome_iff_exists.mp (keyed w second)
    refine ⟨m, n, here, there, le_of_not_gt fun less => apart ?_⟩
    exact (byKey w second v).mpr ⟨n, m, there, here, less⟩
  refine ordered.pairwise.imp_of_mem fun {v w} _ second below less => ?_
  obtain ⟨m, n, here, there, below⟩ := below
  obtain ⟨_, _, there', here', less⟩ := (byKey w second v).mp less
  cases here.symm.trans here'
  cases there.symm.trans there'
  exact below.not_gt less

/-- Comparable values are in order if neighbours are. -/
theorem inOrder_of_isChain {items : List Value} (comparable : Comparable items)
    (chain : items.IsChain fun v w => ¬ w.IsLess v) : InOrder items := by
  rcases comparable with texts | integers
  · refine inOrder_of_key texts (fun v member w => ?_) chain
    obtain ⟨s, text⟩ := Option.isSome_iff_exists.mp (texts v member)
    exact isLess_iff_of_none.1 (integer?_of_string? text)
  · refine inOrder_of_key integers (fun v member w => ?_) chain
    obtain ⟨i, number⟩ := Option.isSome_iff_exists.mp (integers v member)
    exact isLess_iff_of_none.2 (string?_of_integer? number)

/-- Of values in order none is less than one in front of it. -/
theorem InOrder.not_isLess {items : List Value} (ordered : InOrder items) {i j : Nat} {x y : Value} (before : i < j)
    (here : items[i]? = some x) (there : items[j]? = some y) : ¬ y.IsLess x := by
  obtain ⟨inside, rfl⟩ := List.getElem?_eq_some_iff.mp here
  obtain ⟨inside', rfl⟩ := List.getElem?_eq_some_iff.mp there
  exact List.pairwise_iff_getElem.mp ordered i j inside inside' before

/-- An integer is a scalar that reads as one. -/
theorem exists_scalar_of_integer? {i : Int} (number : v.integer? = some i) :
    ∃ a, v.scalar? = some a ∧ a.number? = some (.inl i) := by
  obtain ⟨a, is, reads⟩ := Option.bind_eq_some_iff.mp number
  obtain ⟨reading, reads, left⟩ := Option.bind_eq_some_iff.mp reads
  cases reading with
  | inl j =>
    cases left
    exact ⟨a, is, reads⟩
  | inr x => cases left

end Value

/-- Integers have the order of the numbers. -/
theorem Scalar.before?_of_integers {a b : Scalar} {m n : Int} (first : a.number? = some (.inl m))
    (second : b.number? = some (.inl n)) : a.before? b = some (decide (m < n)) := by
  have same : ((some (compare m n) : Option Ordering) == some .lt) = decide (m < n) := by
    rw [Bool.eq_iff_iff, beq_iff_eq, Option.some.injEq, compare_lt_iff_lt, decide_eq_true_eq]
  rw [← same]
  cases a <;> cases b <;> simp_all [number?, before?, compareNumbers?]

/-- The check of order goes by the order of comparable values. -/
theorem Check.precedes_iff_isLess {items : List Value} (comparable : Value.Comparable items) {v w : Value}
    (first : v ∈ items) (second : w ∈ items) : precedes v w = true ↔ v.IsLess w := by
  rcases comparable with texts | integers
  · obtain ⟨s, text⟩ := Option.isSome_iff_exists.mp (texts v first)
    obtain ⟨t, text'⟩ := Option.isSome_iff_exists.mp (texts w second)
    have order := Value.before?_of_scalar? (Value.scalar?_of_string? text) (Value.scalar?_of_string? text')
    rw [precedes, order, Scalar.before?, Option.getD_some, Scalar.charsBefore_toList,
      Value.isLess_iff_of_none.1 (Value.integer?_of_string? text)]
    simp [Value.IsLessBy, text, text']
  · obtain ⟨m, number⟩ := Option.isSome_iff_exists.mp (integers v first)
    obtain ⟨n, number'⟩ := Option.isSome_iff_exists.mp (integers w second)
    obtain ⟨a, is, reads⟩ := Value.exists_scalar_of_integer? number
    obtain ⟨b, is', reads'⟩ := Value.exists_scalar_of_integer? number'
    rw [precedes, Value.before?_of_scalar? is is', Scalar.before?_of_integers reads reads', Option.getD_some,
      decide_eq_true_eq, Value.isLess_iff_of_none.2 (Value.string?_of_integer? number)]
    simp [Value.IsLessBy, number, number']

end DocLint
