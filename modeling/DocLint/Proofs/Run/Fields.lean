import DocLint.Proofs.Path.Compiling
import DocLint.Query.Evaluation
import DocLint.Proofs.Tree
import DocLint.Run.Target
import Mathlib.Data.List.Forall2

/-!
# Dotted fields

What the parts of a dotted field stand for, said without the walk along them: a part names the key that it is, or
the position that its digits write, and segments so named lead from a value through keys of mappings and positions
of lists (`Target.Follows`). The target of a field is where all its parts lead, or it is missing, and then a
longest run of the parts leads somewhere (`Target.ofField_follows_parts`). Digits of which no number can be read are
refused where they are to be a position, and nothing else is (`Target.ofField_answers_unless_obstructed`,
`Target.superscript_refused`).
-/
namespace DocLint

namespace Value

/-- What a segment leads to when a text is a key of a mapping and an integer a position of a list. -/
def member? (v : Value) : Segment → Option Value
  | .str key => v.field? key
  | .int (.ofNat position) => v.items?.bind (·[position]?)
  | _ => none

/-- What segments lead to one after the other. -/
def reach? (v : Value) : Path → Option Value
  | [] => some v
  | s :: rest => (v.member? s).bind (·.reach? rest)

variable {v : Value}

/-- Only mappings have keys. -/
theorem items?_of_field? {key : String} {w : Value} (found : v.field? key = some w) : v.items? = none := by
  unfold field? get? entries? at found
  unfold items?
  cases view : v.view <;> simp [view] at found ⊢

theorem view_of_isMissing (missing : v.isMissing = true) : v.view = .scalar .missing := by
  unfold isMissing scalar? at missing
  cases view : v.view <;> simp_all

/-- A missing value has no members. -/
theorem member?_of_isMissing (missing : v.isMissing = true) (s : Segment) : v.member? s = none := by
  unfold member?
  split <;> simp [field?, get?, entries?, items?, view_of_isMissing missing]

end Value

/-- Only decimal digits write a number. -/
theorem Text.isDecimal_of_decimalNat? {cs : List Char} {n : Nat} (number : decimalNat? cs = some n) :
    ∀ c ∈ cs, isDecimal c = true := by
  let readOn (m : Option Nat) (c : Char) : Option Nat := do return 10 * (← m) + (← decimalValue? c)
  have unread : ∀ cs : List Char, cs.foldl readOn none = none := by
    intro cs
    induction cs with
    | nil => rfl
    | cons c cs ih => exact ih
  have decimal : ∀ (cs : List Char) (m : Nat), cs.foldl readOn (some m) = some n →
      ∀ c ∈ cs, isDecimal c = true := by
    intro cs
    induction cs with
    | nil => exact fun _ _ _ => nofun
    | cons c cs ih =>
      intro m number
      cases value : decimalValue? c with
      | none =>
        have stopped : (c :: cs).foldl readOn (some m) = cs.foldl readOn none := by
          simp [readOn, value]
        cases (unread cs).symm.trans (stopped.symm.trans number)
      | some digit =>
        have goesOn : cs.foldl readOn (some (10 * m + digit)) = some n := by
          simpa [readOn, value] using number
        exact List.forall_mem_cons.mpr ⟨congrArg Option.isSome value, ih _ goesOn⟩
  exact decimal cs 0 number

namespace Target
open PathForm

/-- What a part of a field may name: the key that it is, or the position that its decimal digits write. -/
def Names (part : String) (s : Segment) : Prop :=
  s = .str part ∨ ∃ digits : Digits, digits.chars = part.toList ∧ s = .int digits.value

/-- Parts lead from a value to another along a path, on which every segment is named by its part. -/
structure Follows (v : Value) (parts : List String) (p : Path) (w : Value) : Prop where
  named : List.Forall₂ Names parts p
  reached : v.reach? p = some w

/-- Digits of which no number is read: one of them is not decimal, or they are too many. -/
def IsUnreadable (part : String) : Prop :=
  part ≠ "" ∧ (∀ c ∈ part.toList, Text.isDigitLike c = true) ∧
    ((∃ c ∈ part.toList, Text.isDecimal c = false) ∨ Number.decimalLimit < part.toList.length)

instance (part : String) : Decidable (IsUnreadable part) :=
  decidable_of_iff (part ≠ "" ∧ part.toList.all Text.isDigitLike = true ∧
      (part.toList.any (!Text.isDecimal ·) = true ∨ Number.decimalLimit < part.toList.length)) <| by
    simp only [IsUnreadable, List.all_eq_true, List.any_eq_true, Bool.not_eq_true']

/-- Some parts of a field lead to a list, and digits follow of which no number is read. -/
def Obstructs (v : Value) (parts : List String) : Prop :=
  ∃ run part rest p w, parts = run ++ part :: rest ∧ Follows v run p w ∧ w.items?.isSome ∧
    IsUnreadable part

/-- A field that is neither the one of all keys nor a path query. -/
def IsDotted (field : String) : Prop :=
  field ≠ "@key" ∧ field.startsWith "$" = false

instance (field : String) : Decidable (IsDotted field) :=
  inferInstanceAs (Decidable (_ ∧ _))

variable {v w : Value} {part : String} {parts : List String} {p q : Path}

/-! ### Following parts -/

/-- A part names one member of a value at most: a mapping has it under a key, and a list at a position. -/
theorem Names.unique {s t : Segment} {x y : Value} (named : Names part s) (named' : Names part t)
    (found : v.member? s = some x) (found' : v.member? t = some y) : s = t := by
  have apart : ∀ (digits : Digits) (x y : Value), v.member? (.str part) = some x →
      v.member? (.int digits.value) ≠ some y := by
    intro digits x y field item
    have noList : v.items? = none := Value.items?_of_field? field
    obtain ⟨items, list, _⟩ := Option.bind_eq_some_iff.mp item
    cases noList.symm.trans list
  rcases named with rfl | ⟨digits, chars, rfl⟩
  · rcases named' with rfl | ⟨digits', _, rfl⟩
    · rfl
    · exact absurd found' (apart digits' _ _ found)
  · rcases named' with rfl | ⟨digits', chars', rfl⟩
    · exact absurd found (apart digits _ _ found')
    · rw [Digits.ext (chars.trans chars'.symm)]

theorem follows_nil : Follows v [] p w ↔ p = [] ∧ w = v := by
  constructor
  · rintro ⟨named, reached⟩
    obtain rfl := List.forall₂_nil_left_iff.mp named
    exact ⟨rfl, (Option.some.inj reached).symm⟩
  · rintro ⟨rfl, rfl⟩
    exact ⟨.nil, rfl⟩

theorem follows_cons : Follows v (part :: parts) p w ↔
    ∃ s x q, p = s :: q ∧ Names part s ∧ v.member? s = some x ∧ Follows x parts q w := by
  constructor
  · rintro ⟨named, reached⟩
    obtain ⟨s, q, here, others, rfl⟩ := List.forall₂_cons_left_iff.mp named
    obtain ⟨x, found, onward⟩ := Option.bind_eq_some_iff.mp reached
    exact ⟨s, x, q, rfl, here, found, others, onward⟩
  · rintro ⟨s, x, q, rfl, here, found, others, onward⟩
    exact ⟨.cons here others, Option.bind_eq_some_iff.mpr ⟨x, found, onward⟩⟩

/-- Parts lead along one path at most. -/
theorem Follows.unique {x : Value} (follows : Follows v parts p w) (follows' : Follows v parts q x) :
    p = q ∧ w = x := by
  induction parts generalizing v p q with
  | nil =>
    obtain ⟨rfl, rfl⟩ := follows_nil.mp follows
    obtain ⟨rfl, rfl⟩ := follows_nil.mp follows'
    exact ⟨rfl, rfl⟩
  | cons part parts ih =>
    obtain ⟨s, y, p, rfl, named, found, onward⟩ := follows_cons.mp follows
    obtain ⟨t, z, q, rfl, named', found', onward'⟩ := follows_cons.mp follows'
    obtain rfl := named.unique named' found found'
    obtain rfl := Option.some.inj (found.symm.trans found')
    obtain ⟨rfl, rfl⟩ := ih onward onward'
    exact ⟨rfl, rfl⟩

/-- Parts lead somewhere through where the first of them lead. -/
theorem Follows.exists_of_append {before after : List String} (follows : Follows v (before ++ after) p w) :
    ∃ q r x, Follows v before q x ∧ Follows x after r w := by
  induction before generalizing v p with
  | nil => exact ⟨[], p, v, follows_nil.mpr ⟨rfl, rfl⟩, follows⟩
  | cons part before ih =>
    obtain ⟨s, y, p, rfl, named, found, onward⟩ := follows_cons.mp follows
    obtain ⟨q, r, x, first, second⟩ := ih onward
    exact ⟨s :: q, r, x, follows_cons.mpr ⟨s, y, q, rfl, named, found, first⟩, second⟩

/-- A field is obstructed by its first part or, behind what that part names, by the others. -/
theorem obstructs_cons : Obstructs v (part :: parts) ↔
    (v.items?.isSome ∧ IsUnreadable part) ∨
      ∃ s x, Names part s ∧ v.member? s = some x ∧ Obstructs x parts := by
  constructor
  · rintro ⟨run, digits, rest, p, w, split, follows, list, unreadable⟩
    cases run with
    | nil =>
      obtain ⟨rfl, rfl⟩ := List.cons.inj split
      obtain ⟨rfl, rfl⟩ := follows_nil.mp follows
      exact .inl ⟨list, unreadable⟩
    | cons first run =>
      obtain ⟨rfl, rfl⟩ := List.cons.inj split
      obtain ⟨s, x, q, rfl, named, found, onward⟩ := follows_cons.mp follows
      exact .inr ⟨s, x, named, found, run, digits, rest, q, w, rfl, onward, list, unreadable⟩
  · rintro (⟨list, unreadable⟩ | ⟨s, x, named, found, run, digits, rest, p, w, rfl, follows, obstructed⟩)
    · exact ⟨[], part, parts, [], v, rfl, follows_nil.mpr ⟨rfl, rfl⟩, list, unreadable⟩
    · exact ⟨part :: run, digits, rest, s :: p, w, rfl,
        follows_cons.mpr ⟨s, x, p, rfl, named, found, follows⟩, obstructed⟩

theorem not_obstructs_nil : ¬ Obstructs v [] := by
  rintro ⟨run, part, rest, _, _, split, _⟩
  simp at split

/-! ### One step -/

/-- Digits are read as the number that they write, unless they are unreadable. -/
theorem readPosition_cases (digits : isDigits part = true) :
    (IsUnreadable part ∧ ∃ reason, readPosition part = .error (.refused reason)) ∨
      ¬ IsUnreadable part ∧ ∃ number : Digits, number.chars = part.toList ∧
        readPosition part = .ok number.value := by
  simp only [isDigits, Bool.and_eq_true, Bool.not_eq_true', List.isEmpty_eq_false_iff,
    List.all_eq_true] at digits
  obtain ⟨filled, alike⟩ := digits
  have nonempty : part ≠ "" := by
    rintro rfl
    exact filled rfl
  by_cases decimal : ∀ c ∈ part.toList, Text.isDecimal c = true
  · have whole : part.toList.takeWhile Text.isDecimal = part.toList :=
      List.takeWhile_eq_self_iff.mpr decimal
    let number : Digits := ⟨part.toList, filled, decimal⟩
    have value : Text.decimalNat? part.toList = some number.value :=
      CompiledPath.decimalNat?_digits number
    by_cases many : Number.decimalLimit < part.toList.length
    · refine .inl ⟨⟨nonempty, alike, .inr many⟩, Number.tooManyDigits part.toList.length, ?_⟩
      simp only [readPosition, whole, many, if_true]
    · refine .inr ⟨?_, number, rfl, ?_⟩
      · rintro ⟨_, _, ⟨c, member, other⟩ | tooMany⟩
        · exact Bool.noConfusion (other.symm.trans (decimal c member))
        · exact many tooMany
      · simp only [readPosition, whole, many, if_false, value]
  · have special : ∃ c ∈ part.toList, Text.isDecimal c = false := by
      simpa using decimal
    have unread : Text.decimalNat? part.toList = none :=
      Option.eq_none_iff_forall_ne_some.mpr fun n number => decimal (Text.isDecimal_of_decimalNat? number)
    refine .inl ⟨⟨nonempty, alike, .inl special⟩, ?_⟩
    simp only [readPosition, unread]
    split <;> exact ⟨_, rfl⟩

/-- The digits of a number are digits, also where others than decimal ones are. -/
theorem isDigits_of_chars {number : Digits} (chars : number.chars = part.toList) :
    isDigits part = true := by
  simp only [isDigits, ← chars, Bool.and_eq_true, Bool.not_eq_true', List.isEmpty_eq_false_iff,
    List.all_eq_true]
  refine ⟨number.nonempty, fun c member => ?_⟩
  rw [Text.isDigitLike, number.decimal c member, Bool.true_or]

theorem IsUnreadable.isDigits (unreadable : IsUnreadable part) : isDigits part = true := by
  obtain ⟨nonempty, alike, _⟩ := unreadable
  simp only [Target.isDigits, Bool.and_eq_true, Bool.not_eq_true', List.isEmpty_eq_false_iff,
    List.all_eq_true]
  exact ⟨by simpa using nonempty, alike⟩

/-- A step from a list is refused when the part is unreadable. Otherwise it leads to the item at the position that
the digits of the part write, if there is one. -/
theorem itemStep?_cases (items : List Value) (part : String) :
    (IsUnreadable part ∧ ∃ reason, itemStep? items part = .error (.refused reason)) ∨
      ¬ IsUnreadable part ∧
        ((∃ (number : Digits) (w : Value), number.chars = part.toList ∧ items[number.value]? = some w ∧
            itemStep? items part = .ok (some (.int number.value, w))) ∨
          itemStep? items part = .ok none ∧
            ∀ number : Digits, number.chars = part.toList → items[number.value]? = none) := by
  unfold itemStep?
  by_cases digits : isDigits part = true
  · simp only [digits, if_true]
    rcases readPosition_cases digits with ⟨unreadable, reason, refused⟩ | ⟨readable, number, chars, read⟩
    · exact .inl ⟨unreadable, reason, by rw [refused]; rfl⟩
    · refine .inr ⟨readable, ?_⟩
      rw [read]
      cases here : items[number.value]? with
      | none =>
        refine .inr ⟨by simp [bind, Except.bind, pure, Except.pure, here], fun number' chars' => ?_⟩
        rw [Digits.ext (chars'.trans chars.symm), here]
      | some w =>
        exact .inl ⟨number, w, chars, here, by simp [bind, Except.bind, pure, Except.pure, here]⟩
  · refine .inr ⟨fun unreadable => digits unreadable.isDigits, .inr ⟨?_, fun number chars => ?_⟩⟩
    · simp only [digits, Bool.false_eq_true, if_false]
    · exact absurd (isDigits_of_chars chars) digits

/-- A step along a part is refused at a list when the part is unreadable. Otherwise it leads to the member that the
part names, if there is one. -/
theorem step?_cases (v : Value) (part : String) :
    ((v.items?.isSome ∧ IsUnreadable part) ∧ ∃ reason, step? v part = .error (.refused reason)) ∨
      ¬ (v.items?.isSome ∧ IsUnreadable part) ∧
        ((∃ s w, step? v part = .ok (some (s, w)) ∧ Names part s ∧ v.member? s = some w) ∨
          step? v part = .ok none ∧ ∀ s, Names part s → v.member? s = none) := by
  have nowhere : v.field? part = none →
      (∀ number : Digits, number.chars = part.toList → v.member? (.int number.value) = none) →
      ∀ s, Names part s → v.member? s = none := by
    rintro noField noItem s (rfl | ⟨number, chars, rfl⟩)
    · exact noField
    · exact noItem number chars
  cases view : v.view with
  | list items =>
    have list : v.items? = some items := by rw [Value.items?, view]
    have noField : v.field? part = none := by simp [Value.field?, Value.get?, Value.entries?, view]
    have item : ∀ number : Digits, v.member? (.int number.value) = items[number.value]? := by
      intro number
      simp [Value.member?, list]
    simp only [step?, view, list, Option.isSome_some, true_and]
    rcases itemStep?_cases items part with
      ⟨unreadable, refused⟩ | ⟨readable, ⟨number, w, chars, here, step⟩ | ⟨step, noItem⟩⟩
    · exact .inl ⟨unreadable, refused⟩
    · exact .inr ⟨readable, .inl ⟨_, w, step, .inr ⟨number, chars, rfl⟩, (item number).trans here⟩⟩
    · refine .inr ⟨readable, .inr ⟨step, nowhere noField fun number chars => ?_⟩⟩
      rw [item, noItem number chars]
  | mapping entries =>
    have noList : v.items? = none := by rw [Value.items?, view]
    refine .inr ⟨by simp [noList], ?_⟩
    simp only [step?, view]
    cases found : v.field? part with
    | none =>
      refine .inr ⟨rfl, nowhere found fun number _ => ?_⟩
      simp [Value.member?, noList]
    | some w => exact .inl ⟨.str part, w, rfl, .inl rfl, found⟩
  | scalar _ | tuple _ | set _ =>
    have noList : v.items? = none := by rw [Value.items?, view]
    refine .inr ⟨by simp [noList], .inr ⟨by simp only [step?, view], nowhere ?_ ?_⟩⟩
    · simp [Value.field?, Value.get?, Value.entries?, view]
    · intro number _
      simp [Value.member?, noList]

/-! ### The walk along a field -/

theorem follow_of_refused {failure : Failure} (refused : step? v part = .error failure) :
    follow v (part :: parts) = .error failure := by
  simp only [follow, refused]
  rfl

theorem follow_of_nowhere (nowhere : step? v part = .ok none) :
    follow v (part :: parts) = .ok ((part :: parts).map .str, .missing) := by
  simp only [follow, nowhere]
  rfl

theorem follow_of_missing {s : Segment} (step : step? v part = .ok (some (s, w)))
    (missing : w.isMissing = true) : follow v (part :: parts) = .ok (s :: parts.map .str, w) := by
  simp only [follow, step, bind, Except.bind, missing, if_true]
  rfl

theorem follow_of_step {s : Segment} (step : step? v part = .ok (some (s, w)))
    (present : w.isMissing = false) :
    follow v (part :: parts) = (follow w parts).map fun t => (s :: t.1, t.2) := by
  simp only [follow, step, bind, Except.bind, present, Bool.false_eq_true, if_false]
  cases follow w parts <;> rfl

/-- A missing value obstructs nothing. -/
theorem not_obstructs_of_isMissing (missing : v.isMissing = true) : ¬ Obstructs v parts := by
  cases parts with
  | nil => exact not_obstructs_nil
  | cons part parts =>
    rw [obstructs_cons]
    rintro (⟨list, _⟩ | ⟨s, x, _, found, _⟩)
    · simp [Value.items?, Value.view_of_isMissing missing] at list
    · cases (Value.member?_of_isMissing missing s).symm.trans found

/-- The walk along a field is refused if the field is obstructed, and comes to its end otherwise. -/
theorem follow_cases (v : Value) (parts : List String) :
    (Obstructs v parts ∧ ∃ reason, follow v parts = .error (.refused reason)) ∨
      ¬ Obstructs v parts ∧ ∃ t, follow v parts = .ok t := by
  induction parts generalizing v with
  | nil => exact .inr ⟨not_obstructs_nil, _, rfl⟩
  | cons part parts ih =>
    rw [obstructs_cons]
    rcases step?_cases v part with
      ⟨blocked, reason, refused⟩ | ⟨free, ⟨s, w, step, named, found⟩ | ⟨nowhere, noMember⟩⟩
    · exact .inl ⟨.inl blocked, reason, follow_of_refused refused⟩
    · have onward : (∃ s x, Names part s ∧ v.member? s = some x ∧ Obstructs x parts) ↔
          Obstructs w parts := by
        constructor
        · rintro ⟨t, x, named', found', obstructed⟩
          obtain rfl := named.unique named' found found'
          obtain rfl := Option.some.inj (found.symm.trans found')
          exact obstructed
        · exact fun obstructed => ⟨s, w, named, found, obstructed⟩
      rw [onward, or_iff_right free]
      cases missing : w.isMissing with
      | true => exact .inr ⟨not_obstructs_of_isMissing missing, _, follow_of_missing step missing⟩
      | false =>
        rw [follow_of_step step missing]
        rcases ih w with ⟨obstructed, reason, refused⟩ | ⟨clear, t, walked⟩
        · exact .inl ⟨obstructed, reason, by rw [refused]; rfl⟩
        · exact .inr ⟨clear, _, by rw [walked]; rfl⟩
    · refine .inr ⟨?_, _, follow_of_nowhere nowhere⟩
      rintro (blocked | ⟨s, x, named, found, _⟩)
      · exact free blocked
      · cases (noMember s named).symm.trans found

/-- What a walk along a field finds: all parts lead to the target, or it is missing and a run of the parts leads
to where the next one names nothing. -/
theorem exists_run_of_follow {target : Value} (ok : follow v parts = .ok (p, target)) :
    ∃ run rest q x, parts = run ++ rest ∧ Follows v run q x ∧ p = q ++ rest.map .str ∧
      (∀ part, rest.head? = some part → ∀ s, Names part s → x.member? s = none) ∧
      (rest = [] ∧ target = x ∨ target.isMissing = true) := by
  induction parts generalizing v p with
  | nil =>
    cases ok
    exact ⟨[], [], [], target, rfl, follows_nil.mpr ⟨rfl, rfl⟩, rfl, nofun, .inl ⟨rfl, rfl⟩⟩
  | cons part parts ih =>
    rcases step?_cases v part with
      ⟨_, reason, refused⟩ | ⟨_, ⟨s, w, step, named, found⟩ | ⟨nowhere, noMember⟩⟩
    · cases (follow_of_refused refused).symm.trans ok
    · cases missing : w.isMissing with
      | true =>
        cases (follow_of_missing step missing).symm.trans ok
        refine ⟨[part], parts, [s], target, rfl, ?_, rfl, ?_, .inr missing⟩
        · exact follows_cons.mpr ⟨s, target, [], rfl, named, found, follows_nil.mpr ⟨rfl, rfl⟩⟩
        · exact fun _ _ t _ => Value.member?_of_isMissing missing t
      | false =>
        rw [follow_of_step step missing] at ok
        cases walked : follow w parts with
        | error failure => simp [walked, Except.map] at ok
        | ok t =>
          obtain ⟨below, end'⟩ := t
          simp only [walked, Except.map, Except.ok.injEq, Prod.mk.injEq] at ok
          obtain ⟨rfl, rfl⟩ := ok
          obtain ⟨run, rest, q, x, rfl, follows, rfl, stops, ends⟩ := ih walked
          refine ⟨part :: run, rest, s :: q, x, rfl, ?_, rfl, stops, ends⟩
          exact follows_cons.mpr ⟨s, w, q, rfl, named, found, follows⟩
    · cases (follow_of_nowhere nowhere).symm.trans ok
      refine ⟨[], part :: parts, [], v, rfl, follows_nil.mpr ⟨rfl, rfl⟩, rfl, ?_, .inr rfl⟩
      intro next head
      cases head
      exact noMember

/-- A run of parts that stops where the next one names nothing is a longest one that leads somewhere. -/
theorem Follows.longest {run rest : List String} (follows : Follows v run p w)
    (stops : ∀ part, rest.head? = some part → ∀ s, Names part s → w.member? s = none)
    {longer : List String} (among : longer <+: run ++ rest) {x : Value} (leads : Follows v longer q x) :
    longer.length ≤ run.length := by
  by_contra exceeds
  obtain ⟨more, rfl⟩ := List.prefix_of_prefix_length_le (List.prefix_append run rest) among (by omega)
  obtain ⟨others, split⟩ := among
  cases more with
  | nil => simp at exceeds
  | cons part more =>
    obtain ⟨q, r, y, first, second⟩ := leads.exists_of_append
    obtain ⟨_, rfl⟩ := follows.unique first
    obtain ⟨s, z, _, _, named, found, _⟩ := follows_cons.mp second
    have next : rest.head? = some part := by
      rw [List.append_assoc] at split
      rw [← List.append_cancel_left split]
      rfl
    cases (stops part next s named).symm.trans found

/-! ### Targets of dotted fields -/

theorem ofField_of_dotted (query : PathQuery) (path : Path) (v : Value) {field : String}
    (dotted : IsDotted field) : ofField query path v (some field) =
      do return (fun t => [(path ++ t.1, t.2)]) (← follow v (fieldParts field)) := by
  have noKeys : (field == "@key") = false := by simpa using dotted.1
  simp only [ofField, noKeys, dotted.2, Bool.false_eq_true, if_false]

/-- A dotted field that is answered has one target, at a path with one more segment for each of its parts. If the
target is there, the parts lead to it along these segments. If it is missing, a longest run of the parts leads
somewhere, and behind its segments the other parts stand as they are. -/
theorem ofField_follows_parts {query : PathQuery} {path : Path} {v : Value} {field : String}
    {targets : List (Path × Value)} (dotted : IsDotted field)
    (ok : ofField query path v (some field) = .ok targets) :
    ∃ below target, targets = [(path ++ below, target)] ∧ below.length = (fieldParts field).length ∧
      (target.isMissing = false → Follows v (fieldParts field) below target) ∧
      (target.isMissing = true → ∃ run rest q x, fieldParts field = run ++ rest ∧ Follows v run q x ∧
        below = q ++ rest.map .str ∧ ∀ longer, longer <+: fieldParts field →
          (∃ r y, Follows v longer r y) → longer.length ≤ run.length) := by
  rw [ofField_of_dotted query path v dotted] at ok
  obtain ⟨⟨below, target⟩, walked, rfl⟩ := exists_of_bind_pure ok
  obtain ⟨run, rest, q, x, split, follows, rfl, stops, ends⟩ := exists_run_of_follow walked
  refine ⟨q ++ rest.map .str, target, rfl, ?_, ?_, ?_⟩
  · simp [split, follows.named.length_eq]
  · intro present
    obtain ⟨rfl, rfl⟩ : rest = [] ∧ target = x := ends.resolve_right (by simp [present])
    simpa [split] using follows
  · intro _
    refine ⟨run, rest, q, x, split, follows, rfl, fun longer among ⟨r, y, leads⟩ => ?_⟩
    exact follows.longest stops (split ▸ among) leads

theorem sharedParts_follows :
    IsDotted "a.1.y.z" ∧
    ofField PathQuery.standard [.str "up"] Value.sharedParts (some "a.1.y.z") =
      .ok [([.str "up", .str "a", .int 1, .str "y", .str "z"], .missing)] ∧
    (∃ run rest q x, fieldParts "a.1.y.z" = run ++ rest ∧ Follows Value.sharedParts run q x ∧
      [.str "a", .int 1, .str "y", .str "z"] = q ++ rest.map .str ∧
      ∀ longer, longer <+: fieldParts "a.1.y.z" → (∃ r y, Follows Value.sharedParts longer r y) →
        longer.length ≤ run.length) ∧
    Follows Value.sharedParts (fieldParts "a.1.x") [.str "a", .int 1, .str "x"]
      ⟨Value.sharedParts.graph, .scalar (.int 1)⟩ := by
  have dotted : IsDotted "a.1.y.z" := by decide +kernel
  have dotted' : IsDotted "a.1.x" := by decide +kernel
  have ok : ofField PathQuery.standard [.str "up"] Value.sharedParts (some "a.1.y.z") =
      .ok [([.str "up", .str "a", .int 1, .str "y", .str "z"], .missing)] := by
    rw [ofField_of_dotted _ _ _ dotted]
    rfl
  have found : ofField PathQuery.standard [] Value.sharedParts (some "a.1.x") =
      .ok [([.str "a", .int 1, .str "x"], ⟨Value.sharedParts.graph, .scalar (.int 1)⟩)] := by
    rw [ofField_of_dotted _ _ _ dotted']
    rfl
  obtain ⟨_, _, same, _, _, missing⟩ := ofField_follows_parts dotted ok
  obtain ⟨_, _, same', _, follows, _⟩ := ofField_follows_parts dotted' found
  cases same
  cases same'
  exact ⟨dotted, ok, missing rfl, follows rfl⟩

/-- A dotted field is answered with one target for every value that does not obstruct it, and the target is missing
where a part names nothing that is there. A value that obstructs it has the field refused. -/
theorem ofField_answers_unless_obstructed {field : String} (dotted : IsDotted field) (query : PathQuery)
    (path : Path) (v : Value) :
    (¬ Obstructs v (fieldParts field) → ∃ below target,
      ofField query path v (some field) = .ok [(path ++ below, target)] ∧
      ∀ run part rest q x, fieldParts field = run ++ part :: rest → Follows v run q x →
        (∀ s, Names part s → x.member? s = none) → target.isMissing = true) ∧
    (Obstructs v (fieldParts field) →
      ∃ reason, ofField query path v (some field) = .error (.refused reason)) := by
  rw [ofField_of_dotted query path v dotted]
  rcases follow_cases v (fieldParts field) with
    ⟨obstructed, reason, refused⟩ | ⟨free, ⟨below, target⟩, walked⟩
  · exact ⟨absurd obstructed, fun _ => ⟨reason, by rw [refused]; rfl⟩⟩
  · refine ⟨fun _ => ⟨below, target, by rw [walked]; rfl, ?_⟩, fun obstructed => absurd obstructed free⟩
    intro run part rest q x split follows nowhere
    obtain ⟨run', rest', q', x', split', follows', _, _, ends⟩ := exists_run_of_follow walked
    refine ends.resolve_left ?_
    -- if all parts led somewhere, this one would name something
    rintro ⟨rfl, _⟩
    rw [List.append_nil, split] at split'
    obtain ⟨_, _, y, first, second⟩ := (split' ▸ follows').exists_of_append
    obtain ⟨_, rfl⟩ := follows.unique first
    obtain ⟨s, _, _, _, named, found, _⟩ := follows_cons.mp second
    cases (nowhere s named).symm.trans found

theorem sharedParts_answers :
    IsDotted "a.1.y.z" ∧ ¬ Obstructs Value.sharedParts (fieldParts "a.1.y.z") ∧
    (∃ below target, ofField PathQuery.standard [] Value.sharedParts (some "a.1.y.z") =
      .ok [([] ++ below, target)] ∧ target.isMissing = true) ∧
    IsDotted "a.²" ∧ Obstructs Value.sharedParts (fieldParts "a.²") ∧
    ∃ reason, ofField PathQuery.standard [] Value.sharedParts (some "a.²") = .error (.refused reason) := by
  have dotted : IsDotted "a.1.y.z" := by decide +kernel
  have dotted' : IsDotted "a.²" := by decide +kernel
  have readable : ∀ part ∈ fieldParts "a.1.y.z", ¬ IsUnreadable part := by decide +kernel
  have free : ¬ Obstructs Value.sharedParts (fieldParts "a.1.y.z") := by
    rintro ⟨run, part, rest, _, _, split, _, _, unreadable⟩
    exact readable part (by simp [split]) unreadable
  have obstructed : Obstructs Value.sharedParts (fieldParts "a.²") := by
    refine ⟨["a"], "²", [], [.str "a"], ⟨Value.sharedParts.graph, .container 1⟩, by decide +kernel, ?_, by rfl,
      by decide +kernel⟩
    exact ⟨.cons (.inl rfl) .nil, rfl⟩
  obtain ⟨below, target, ok, missing⟩ :=
    (ofField_answers_unless_obstructed dotted PathQuery.standard [] Value.sharedParts).1 free
  refine ⟨dotted, free, ⟨below, target, ok, ?_⟩, dotted', obstructed,
    (ofField_answers_unless_obstructed dotted' PathQuery.standard [] Value.sharedParts).2 obstructed⟩
  let one : Digits := ⟨['1'], by simp, List.forall_mem_singleton.mpr (by decide)⟩
  refine missing ["a", "1"] "y" ["z"] [.str "a", .int 1] ⟨Value.sharedParts.graph, .container 2⟩ (by decide)
    ⟨.cons (.inl rfl) (.cons (.inr ⟨one, rfl, rfl⟩) .nil), rfl⟩ ?_
  rintro s (rfl | ⟨digits, chars, rfl⟩)
  · rfl
  · rfl

/-- A value that is a list of one text. -/
def oneText : Value :=
  ⟨⟨#[.list [.scalar (.str "a")]]⟩, .container 0⟩

/-- A part that is a superscript stands for a digit but writes no number. At a list it is refused, although it
names no position that the list has. -/
theorem superscript_refused :
    IsDotted "²" ∧ (∀ s, Names "²" s → oneText.member? s = none) ∧
    ofField PathQuery.standard [] oneText (some "²") =
      .error (.refused "invalid literal for int() with base 10: '²'") := by
  have dotted : IsDotted "²" := by decide +kernel
  have refused : readPosition "²" =
      .error (.refused "invalid literal for int() with base 10: '²'") := by
    have shown : Text.quoted "²" = "'²'" := by decide +kernel
    have unread : Text.decimalNat? "²".toList = none := by decide
    simp only [readPosition, shown, unread]
    rfl
  have step : step? oneText "²" = (do
      let position ← readPosition "²"
      return [⟨oneText.graph, .scalar (.str "a")⟩][position]?.map fun item =>
        (.int position, item)) := by rfl
  rw [refused] at step
  refine ⟨dotted, ?_, ?_⟩
  · rintro s (rfl | ⟨digits, chars, rfl⟩)
    · rfl
    · have decimal := digits.decimal '²' (by rw [chars]; decide)
      exact absurd decimal (by decide)
  · have part : fieldParts "²" = ["²"] := by decide
    rw [ofField_of_dotted _ _ _ dotted, part, follow_of_refused step]
    rfl

end Target
end DocLint
