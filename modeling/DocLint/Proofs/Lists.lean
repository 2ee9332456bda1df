import Mathlib.Data.List.FinRange
import Mathlib.Data.List.Forall2
import Mathlib.Data.List.Perm.Basic
import Mathlib.Data.List.TakeWhile

/-!
# Lists of attempts and lists in parts

A list of attempts succeeds when each of them does, and then holds what they give. The elements of a list
in another order are those at its positions in another order. Picking elements of a
list in parts is picking parts when all elements of a part are alike. Parts that are joined are cut as each of them is,
and cutting leaves no joint in them.
-/
namespace DocLint
variable {α β ε : Type}

/-- What a successful list of attempts holds. -/
theorem mem_mapM_ok {attempt : α → Except ε β} {xs : List α} {ys : List β}
    (ok : xs.mapM attempt = .ok ys) (y : β) : y ∈ ys ↔ ∃ x ∈ xs, attempt x = .ok y := by
  induction xs generalizing ys with
  | nil =>
    cases ok
    simp
  | cons x rest ih =>
    rw [List.mapM_cons] at ok
    cases first : attempt x with
    | error e => simp [first, bind, Except.bind] at ok
    | ok z =>
      cases others : rest.mapM attempt with
      | error e => simp [first, others, bind, Except.bind] at ok
      | ok zs =>
        simp only [first, others, bind, Except.bind, pure, Except.pure, Except.ok.injEq] at ok
        subst ys
        simp only [List.mem_cons, exists_eq_or_imp, first, Except.ok.injEq, ih others,
          @eq_comm _ y z]

/-- What a list of attempts that all give something holds. -/
theorem mem_mapM_some {attempt : α → Option β} {xs : List α} {ys : List β}
    (given : xs.mapM attempt = some ys) (y : β) : y ∈ ys ↔ ∃ x ∈ xs, attempt x = some y := by
  induction xs generalizing ys with
  | nil =>
    cases given
    simp
  | cons x rest ih =>
    rw [List.mapM_cons, Option.bind_eq_bind, Option.bind_eq_some_iff] at given
    obtain ⟨z, first, given⟩ := given
    obtain ⟨zs, others, same⟩ := Option.bind_eq_some_iff.mp given
    cases same
    simp only [List.mem_cons, exists_eq_or_imp, first, Option.some.injEq, ih others, @eq_comm _ y z]

/-- An attempt of whose result something is known succeeds. -/
theorem exists_ok_of_toOption {attempt : Except ε α} {f : α → β} {y : β}
    (known : attempt.toOption.map f = some y) : ∃ x, attempt = .ok x ∧ f x = y := by
  cases attempt with
  | error e => cases known
  | ok x => exact ⟨x, rfl, Option.some.inj known⟩

/-- Of two attempts in a row that succeed, the first does, and the other with what it gives. -/
theorem exists_of_bind_ok {attempt : Except ε α} {next : α → Except ε β} {y : β}
    (ok : attempt >>= next = .ok y) : ∃ x, attempt = .ok x ∧ next x = .ok y := by
  cases attempt with
  | error e => cases ok
  | ok x => exact ⟨x, rfl, ok⟩

/-- An attempt whose result is changed succeeded itself. -/
theorem exists_of_bind_pure {attempt : Except ε α} {f : α → β} {y : β}
    (ok : (do return f (← attempt)) = Except.ok y) : ∃ x, attempt = .ok x ∧ f x = y := by
  obtain ⟨x, done, same⟩ := exists_of_bind_ok ok
  exact ⟨x, done, Except.ok.inj same⟩

/-- A successful list of attempts holds what each of them gives, in their order. -/
theorem forall₂_of_mapM_ok {attempt : α → Except ε β} {xs : List α} {ys : List β}
    (ok : xs.mapM attempt = .ok ys) : List.Forall₂ (fun x y => attempt x = .ok y) xs ys := by
  induction xs generalizing ys with
  | nil =>
    cases ok
    exact .nil
  | cons x rest ih =>
    rw [List.mapM_cons] at ok
    obtain ⟨y, first, ok⟩ := exists_of_bind_ok ok
    obtain ⟨zs, others, rfl⟩ := exists_of_bind_pure ok
    exact .cons first (ih others)

/-- What a list of attempts gives is what each of them gives, in their order. -/
theorem mapM_eq_some_iff {attempt : α → Option β} {xs : List α} {ys : List β} :
    xs.mapM attempt = some ys ↔ xs.map attempt = ys.map some := by
  induction xs generalizing ys with
  | nil => cases ys <;> simp
  | cons x rest ih =>
    rw [List.mapM_cons]
    cases ys with
    | nil => simp [Option.bind_eq_some_iff]
    | cons y ys => simp [Option.bind_eq_some_iff, ih]

/-- What is made of the results of attempts is what is wanted of each of them. -/
theorem map_eq_map_iff_of_mapM {γ : Type} {attempt : α → Option β} {f : β → γ} {g : α → γ} {xs : List α} {ys : List β}
    (given : xs.mapM attempt = some ys) : ys.map f = xs.map g ↔ ∀ x ∈ xs, (attempt x).map f = some (g x) := by
  have each : xs.map (fun x => (attempt x).map f) = (ys.map f).map some := by
    have same := congrArg (List.map (Option.map f)) (mapM_eq_some_iff.mp given)
    simpa only [List.map_map, Function.comp_def, Option.map_some] using same
  have wanted : xs.map (fun x => some (g x)) = (xs.map g).map some := List.map_map.symm
  rw [← List.map_inj_left, each, wanted]
  exact (List.map_injective_iff.mpr (Option.some_injective γ)).eq_iff.symm

/-- A list of attempts gives something if and only if each of them does. -/
theorem isSome_mapM_iff {attempt : α → Option β} {xs : List α} :
    (xs.mapM attempt).isSome = true ↔ ∀ x ∈ xs, (attempt x).isSome = true := by
  induction xs with
  | nil => simp
  | cons x rest ih =>
    rw [List.mapM_cons, List.forall_mem_cons, ← ih]
    cases attempt x <;> cases rest.mapM attempt <;> simp

/-- Attempts that all succeed do so as a list. -/
theorem exists_mapM_ok {attempt : α → Except ε β} {xs : List α}
    (succeed : ∀ x ∈ xs, ∃ y, attempt x = .ok y) : ∃ ys, xs.mapM attempt = .ok ys := by
  induction xs with
  | nil => exact ⟨[], rfl⟩
  | cons x rest ih =>
    obtain ⟨y, first⟩ := succeed x List.mem_cons_self
    obtain ⟨ys, others⟩ := ih fun z member => succeed z (List.mem_cons_of_mem x member)
    refine ⟨y :: ys, ?_⟩
    rw [List.mapM_cons, first, others]
    rfl

/-- Attempts that all succeed with something give it as a list, in their order. -/
theorem exists_mapM_forall₂ {attempt : α → Except ε β} {xs : List α} {holds : α → β → Prop}
    (each : ∀ x ∈ xs, ∃ y, attempt x = .ok y ∧ holds x y) :
    ∃ ys, xs.mapM attempt = .ok ys ∧ List.Forall₂ holds xs ys := by
  induction xs with
  | nil => exact ⟨[], rfl, .nil⟩
  | cons x rest ih =>
    obtain ⟨y, first, here⟩ := each x List.mem_cons_self
    obtain ⟨ys, others, there⟩ := ih fun z member => each z (List.mem_cons_of_mem x member)
    refine ⟨y :: ys, ?_, .cons here there⟩
    rw [List.mapM_cons, first, others]
    rfl

/-- Attempts that all give a list hold together what they hold apart. -/
theorem exists_mapM_flatten {attempt : α → Except ε (List β)} {xs : List α} {holds : α → β → Prop}
    (each : ∀ x ∈ xs, ∃ ys, attempt x = .ok ys ∧ ∀ y, y ∈ ys ↔ holds x y) :
    ∃ lists, xs.mapM attempt = .ok lists ∧ ∀ y, y ∈ lists.flatten ↔ ∃ x ∈ xs, holds x y := by
  obtain ⟨lists, gathered⟩ := exists_mapM_ok fun x member => (each x member).imp fun _ found => found.1
  refine ⟨lists, gathered, fun y => ?_⟩
  rw [List.mem_flatten]
  constructor
  · rintro ⟨ys, among, here⟩
    obtain ⟨x, member, found⟩ := (mem_mapM_ok gathered ys).mp among
    obtain ⟨zs, found', all⟩ := each x member
    cases found.symm.trans found'
    exact ⟨x, member, (all y).mp here⟩
  · rintro ⟨x, member, here⟩
    obtain ⟨ys, found, all⟩ := each x member
    exact ⟨ys, (mem_mapM_ok gathered ys).mpr ⟨x, member, found⟩, (all y).mpr here⟩

/-- Attempts that cannot fail are a map. -/
theorem mapM_ok_eq_map (f : α → β) (xs : List α) :
    xs.mapM (fun x => (.ok (f x) : Except ε β)) = .ok (xs.map f) := by
  induction xs with
  | nil => rfl
  | cons x rest ih =>
    rw [List.mapM_cons, ih]
    rfl

/-- Changing what each attempt gives changes what the list of attempts holds. -/
theorem mapM_map_eq {γ : Type} (attempt : α → Except ε β) (f : β → γ) (xs : List α) :
    xs.mapM (fun x => (attempt x).map f) = (xs.mapM attempt).map (List.map f) := by
  induction xs with
  | nil => rfl
  | cons x rest ih =>
    rw [List.mapM_cons, List.mapM_cons, ih]
    cases attempt x with
    | error e => rfl
    | ok y => cases rest.mapM attempt <;> rfl

/-- What is picked of the elements, where it goes by the part they are of, is what the picked parts
hold. -/
theorem filter_flatMap_of_agree {xs : List α} {f : α → List β} {p : β → Bool} {mine : α → Bool}
    (agree : ∀ x ∈ xs, ∀ y ∈ f x, p y = mine x) :
    (xs.flatMap f).filter p = (xs.filter mine).flatMap f := by
  induction xs with
  | nil => rfl
  | cons x rest ih =>
    have others := ih fun z member => agree z (List.mem_cons_of_mem x member)
    have here := agree x List.mem_cons_self
    rw [List.flatMap_cons, List.filter_append, others]
    cases picked : mine x with
    | true =>
      rw [List.filter_eq_self.mpr fun y member => (here y member).trans picked,
        List.filter_cons_of_pos picked, List.flatMap_cons]
    | false =>
      rw [List.filter_eq_nil_iff.mpr fun y member => by simp [here y member, picked],
        List.filter_cons_of_neg (by simp [picked]), List.nil_append]

/-- With distinct keys every entry is the first under its key. -/
theorem find?_key_eq_some [BEq α] [LawfulBEq α] {entries : List (α × β)}
    (distinct : (entries.map Prod.fst).Nodup) {key : α} {e : α × β} :
    entries.find? (fun e => e.1 == key) = some e ↔ e ∈ entries ∧ e.1 = key := by
  constructor
  · intro first
    exact ⟨List.mem_of_find?_eq_some first, by simpa using List.find?_some first⟩
  · rintro ⟨member, rfl⟩
    induction entries with
    | nil => simp at member
    | cons other rest ih =>
      simp only [List.map_cons, List.nodup_cons] at distinct
      rcases List.mem_cons.mp member with rfl | later
      · simp
      · have apart : other.1 ≠ e.1 := fun same =>
          distinct.1 (same ▸ List.mem_map.mpr ⟨e, later, rfl⟩)
        rw [List.find?_cons_of_neg (by simpa using apart)]
        exact ih distinct.2 later

/-- What stands at a position of related lists is related. -/
theorem exists_getElem?_of_forall₂ {related : α → β → Prop} {xs : List α} {ys : List β}
    (all : List.Forall₂ related xs ys) {i : Nat} {y : β} (here : ys[i]? = some y) :
    ∃ x, xs[i]? = some x ∧ related x y := by
  induction all generalizing i with
  | nil => simp at here
  | @cons x _ _ _ first _ ih =>
    cases i with
    | zero =>
      cases here
      exact ⟨x, rfl, first⟩
    | succ i => exact ih here

/-- Searches in related lists that pick related elements find related elements. -/
theorem exists_find?_of_forall₂ {related : α → β → Prop} {p : α → Bool} {q : β → Bool} {xs : List α}
    {ys : List β} (all : List.Forall₂ related xs ys) (agree : ∀ {x y}, related x y → p x = q y) {y : β}
    (found : ys.find? q = some y) : ∃ x, xs.find? p = some x ∧ related x y := by
  induction all with
  | nil => cases found
  | @cons x z _ _ first _ ih =>
    cases picked : q z with
    | true =>
      rw [List.find?_cons_of_pos picked] at found
      cases found
      exact ⟨x, List.find?_cons_of_pos (by rw [agree first, picked]), first⟩
    | false =>
      rw [List.find?_cons_of_neg (by simp [picked])] at found
      rw [List.find?_cons_of_neg (by simp [agree first, picked])]
      exact ih found

/-- Among lists in a row, what is looked for is found in the first list of those that can have it, when it
is found there. -/
theorem find?_flatMap_of_find? {f : α → List β} {p : β → Bool} {mine : α → Bool} {xs : List α}
    {x : α} {y : β} (others : ∀ z, mine z = false → (f z).find? p = none)
    (first : xs.find? mine = some x) (found : (f x).find? p = some y) :
    (xs.flatMap f).find? p = some y := by
  induction xs with
  | nil => cases first
  | cons z rest ih =>
    rw [List.flatMap_cons, List.find?_append]
    cases here : mine z with
    | true =>
      rw [List.find?_cons_of_pos here] at first
      cases first
      rw [found, Option.some_or]
    | false =>
      rw [List.find?_cons_of_neg (by simp [here])] at first
      rw [others z here, Option.none_or, ih first]

/-- The elements at all positions are all elements. -/
theorem filterMap_getElem?_range (xs : List α) :
    ((List.range xs.length).filterMap fun i => xs[i]?) = xs := by
  rw [← List.map_coe_finRange_eq_range, List.filterMap_map]
  simp

/-- A list in another order is what some order of its positions gives. -/
theorem exists_positions {xs ys : List α} (perm : ys.Perm xs) :
    ∃ positions : List Nat, positions.Perm (List.range xs.length) ∧
      positions.filterMap (fun i => xs[i]?) = ys := by
  have among : ys.Perm ((List.finRange xs.length).map fun i => xs[i.1]) := by
    rwa [List.map_getElem_finRange]
  obtain ⟨positions, rfl, all⟩ := (congrFun₂ (List.eq_map_comp_perm _) _ _).mpr among
  refine ⟨positions.map (·.1), ?_, ?_⟩
  · rw [← List.map_coe_finRange_eq_range]
    exact all.map _
  · simp [List.filterMap_map]

/-- What is taken off a list whose rest does not go on with a property. -/
theorem takeWhile_append_of_stops {α : Type} {p : α → Bool} {xs rest : List α}
    (all : ∀ x ∈ xs, p x = true) (stops : ∀ x, rest.head? = some x → p x = false) :
    (xs ++ rest).takeWhile p = xs ∧ (xs ++ rest).dropWhile p = rest := by
  rw [List.takeWhile_append_of_pos all, List.dropWhile_append_of_pos all]
  cases rest with
  | nil => simp
  | cons x rest => simp [stops x rfl]

/-- Parts with a joint between any two are the first part and the others behind a joint each. -/
theorem intercalate_cons_eq (joint : α) (part : List α) (parts : List (List α)) :
    [joint].intercalate (part :: parts) = part ++ parts.flatMap (joint :: ·) := by
  induction parts generalizing part with
  | nil => simp
  | cons next parts ih =>
    rw [List.intercalate_cons_cons, ih, List.flatMap_cons, List.append_assoc]
    rfl

section Splitting
variable {p : α → Bool} {joint : α}

/-- What puts each element in front of the first part of what is behind it, and a new part in front of a joint, cuts at
the joints. -/
theorem eq_splitOn [BEq α] {cut : List α → List (List α)} (nil : cut [] = [[]])
    (cons : ∀ x xs part parts, cut xs = part :: parts →
      cut (x :: xs) = if x == joint then [] :: part :: parts else (x :: part) :: parts)
    (xs : List α) : cut xs = xs.splitOn joint := by
  induction xs with
  | nil => exact nil
  | cons x xs ih =>
    obtain ⟨part, parts, split⟩ := List.exists_cons_of_ne_nil (List.splitOn_ne_nil joint xs)
    rw [List.splitOn_cons_eq_if_modifyHead, split, cons x xs part parts (ih.trans split)]
    rfl

/-- A list is cut once more than it has separators. -/
theorem length_splitOnP (p : α → Bool) (xs : List α) : (xs.splitOnP p).length = xs.countP p + 1 := by
  induction xs with
  | nil => simp
  | cons x xs ih =>
    rw [List.splitOnP_cons_eq_if_modifyHead, List.countP_cons]
    split_ifs with separates
    · rw [List.length_cons, ih]
    · rw [List.length_modifyHead, ih, Nat.add_zero]

/-- Parts with separators between them are cut there, and each by itself. -/
theorem splitOnP_intercalate (separates : p joint = true) {parts : List (List α)} (some : parts ≠ []) :
    ([joint].intercalate parts).splitOnP p = parts.flatMap (List.splitOnP p) := by
  induction parts with
  | nil => exact absurd rfl some
  | cons part parts ih =>
    cases parts with
    | nil => simp
    | cons next parts =>
      rw [List.intercalate_cons_cons, List.append_assoc, List.singleton_append,
        List.splitOnP_append_cons _ _ separates, ih (List.cons_ne_nil _ _)]
      rfl

/-- Parts without separators are not cut. -/
theorem flatMap_splitOnP_eq_self {parts : List (List α)} (whole : ∀ part ∈ parts, ∀ x ∈ part, p x = false) :
    parts.flatMap (List.splitOnP p) = parts := by
  induction parts with
  | nil => rfl
  | cons part parts ih =>
    obtain ⟨first, others⟩ := List.forall_mem_cons.mp whole
    rw [List.flatMap_cons, List.splitOnP_eq_singleton first, ih others]
    rfl

/-- Pieces are as many as there are parts exactly if no part is cut. -/
theorem length_flatMap_splitOnP {parts : List (List α)} :
    (parts.flatMap (List.splitOnP p)).length = parts.length ↔ ∀ part ∈ parts, ∀ x ∈ part, p x = false := by
  induction parts with
  | nil => simp
  | cons part parts ih =>
    have least : ∀ parts : List (List α), parts.length ≤ (parts.flatMap (List.splitOnP p)).length := by
      intro parts
      induction parts with
      | nil => exact Nat.le_refl 0
      | cons part parts ih =>
        rw [List.flatMap_cons, List.length_append, length_splitOnP, List.length_cons]
        omega
    -- every part gives at least one piece, so one that is cut is not made up for by the others
    have more := least parts
    have uncut : part.countP p = 0 ↔ ∀ x ∈ part, p x = false := by simp [List.countP_eq_zero]
    rw [List.flatMap_cons, List.length_append, length_splitOnP, List.length_cons, List.forall_mem_cons, ← ih, ← uncut]
    omega

end Splitting

section Joints
variable [DecidableEq α] {joint : α}

/-- Parts hold no joint. -/
theorem not_mem_of_mem_splitOn {xs part : List α} (member : part ∈ xs.splitOn joint) :
    joint ∉ part := by
  induction xs generalizing part with
  | nil => simp_all
  | cons x xs ih =>
    obtain ⟨first, parts, split⟩ := List.exists_cons_of_ne_nil (List.splitOn_ne_nil joint xs)
    rw [split] at ih
    rw [List.splitOn_cons_eq_if_modifyHead, split] at member
    split_ifs at member with here
    · rcases List.mem_cons.mp member with rfl | later
      · exact List.not_mem_nil
      · exact ih later
    · rcases List.mem_cons.mp member with rfl | later
      · simpa [Ne.symm (by simpa using here : x ≠ joint)] using ih List.mem_cons_self
      · exact ih (List.mem_cons_of_mem first later)

end Joints

end DocLint
