import DocLint.Proofs.Json.Reading
import DocLint.Proofs.Json.Writing

/-!
# Numbers beyond JSON

An infinite number and NaN are written by words with a letter that no text of JSON has outside of the texts in it. So a
value is written as JSON only if all its floating-point numbers are finite (`Json.isTextOf_indented_iff`). What stands
outside of the texts is found by going over the characters, with the quotes and backslashes as marks (`Json.outside`).
-/
namespace DocLint

namespace Json

/-- Where a reader of characters is: outside of texts, inside of one, behind a backslash there. -/
inductive Where where
  | outside
  | inside
  | escaped

/-- The characters outside of texts. -/
def outside : Where → List Char → List Char
  | _, [] => []
  | .outside, c :: cs => if c = '"' then outside .inside cs else c :: outside .outside cs
  | .inside, c :: cs =>
    if c = '"' then outside .outside cs else if c = '\\' then outside .escaped cs else outside .inside cs
  | .escaped, _ :: cs => outside .inside cs

/-- A part of a text that starts and ends outside of texts, with the characters there. -/
def Leaves (cs left : List Char) : Prop :=
  ∀ rest, outside .outside (cs ++ rest) = left ++ outside .outside rest

theorem Leaves.append {cs ds left more : List Char} (first : Leaves cs left) (second : Leaves ds more) :
    Leaves (cs ++ ds) (left ++ more) := by
  intro rest
  rw [List.append_assoc, first, second, List.append_assoc]

theorem leaves_of_no_quote {cs : List Char} (no : '"' ∉ cs) : Leaves cs cs := by
  intro rest
  induction cs with
  | nil => rfl
  | cons c cs ih =>
    rw [List.mem_cons, not_or] at no
    rw [List.cons_append, outside, if_neg (Ne.symm no.1), ih no.2, List.cons_append]

/-! ### Texts -/

theorem outside_inside_append {cs : List Char} (plain : ∀ c ∈ cs, c ≠ '"' ∧ c ≠ '\\') (rest : List Char) :
    outside .inside (cs ++ rest) = outside .inside rest := by
  induction cs with
  | nil => rfl
  | cons c cs ih =>
    obtain ⟨quote, backslash⟩ := plain c List.mem_cons_self
    rw [List.cons_append, outside, if_neg quote, if_neg backslash]
    exact ih fun d member => plain d (List.mem_cons_of_mem c member)

theorem isSome_hexValue?_of_hexNat? {cs : List Char} {n : Nat} (number : Text.hexNat? cs = some n) :
    ∀ c ∈ cs, (Text.hexValue? c).isSome = true := by
  induction cs using List.reverseRecOn generalizing n with
  | nil => exact fun _ member => absurd member List.not_mem_nil
  | append_singleton cs c ih =>
    unfold Text.hexNat? at number ih
    rw [List.foldl_append] at number
    obtain ⟨m, before, number⟩ := Option.bind_eq_some_iff.mp number
    obtain ⟨v, digit, -⟩ := Option.bind_eq_some_iff.mp number
    intro d member
    rcases List.mem_append.mp member with here | last
    · exact ih before d here
    · rw [List.mem_singleton.mp last, digit]
      rfl

theorem IsUnit.plain {digits : List Char} {n : Nat} (is : IsUnit digits n) : ∀ c ∈ digits, c ≠ '"' ∧ c ≠ '\\' := by
  intro c member
  have hexadecimal := isSome_hexValue?_of_hexNat? is.2 c member
  constructor <;> rintro rfl <;> cases hexadecimal

theorem outside_of_spellsChar {c : Char} {first : List Char} (spelled : SpellsChar c first) (rest : List Char) :
    outside .inside (first ++ rest) = outside .inside rest := by
  have escape {digits : List Char} {n : Nat} (is : IsUnit digits n) (rest : List Char) :
      outside .inside ('\\' :: 'u' :: (digits ++ rest)) = outside .inside rest :=
    outside_inside_append is.plain rest
  cases spelled with
  | plain printed quote backslash =>
    exact outside_inside_append (fun d member => List.mem_singleton.mp member ▸ ⟨quote, backslash⟩) rest
  | short is => rfl
  | unit is => exact escape is rest
  | @pair high low h l isHigh isLow highSmall lowSmall is =>
    rw [List.cons_append, List.cons_append, List.append_assoc, escape isHigh]
    exact escape isLow rest

theorem outside_of_spellsChars {cs inner : List Char} (spelled : SpellsChars cs inner) (rest : List Char) :
    outside .inside (inner ++ rest) = outside .inside rest := by
  induction spelled with
  | nil => rfl
  | cons char onward ih => rw [List.append_assoc, outside_of_spellsChar char, ih]

/-- Nothing of a text between quotes stands outside of texts. -/
theorem leaves_of_spellsText {s : String} {cs : List Char} (spelled : SpellsText s cs) : Leaves cs [] := by
  cases spelled with
  | quoted chars =>
    intro rest
    rw [List.cons_append, List.append_assoc, outside, if_pos rfl, outside_of_spellsChars chars]
    rfl

/-! ### What a text of JSON leaves -/

/-- A letter that only the words for infinite numbers and NaN have. -/
def isBeyond (c : Char) : Bool :=
  c == 'I' || c == 'N'

/-- A part of a text that has no such letter outside of texts. -/
def StaysWithin (cs : List Char) : Prop :=
  ∃ left, Leaves cs left ∧ ∀ c ∈ left, isBeyond c = false

theorem staysWithin_of_all {cs : List Char} (no : '"' ∉ cs) (within : ∀ c ∈ cs, isBeyond c = false) : StaysWithin cs :=
  ⟨cs, leaves_of_no_quote no, within⟩

theorem staysWithin_word {cs : List Char} (plain : (cs.all fun c => c != '"' && !isBeyond c) = true) : StaysWithin cs := by
  rw [List.all_eq_true] at plain
  refine staysWithin_of_all (fun member => ?_) fun c member => ?_
  · exact Bool.false_ne_true (plain _ member)
  · have both := plain c member
    rw [Bool.and_eq_true, Bool.not_eq_true'] at both
    exact both.2

theorem StaysWithin.append {cs ds : List Char} (first : StaysWithin cs) (second : StaysWithin ds) :
    StaysWithin (cs ++ ds) := by
  obtain ⟨left, leaves, within⟩ := first
  obtain ⟨more, leaves', within'⟩ := second
  refine ⟨left ++ more, leaves.append leaves', fun c member => ?_⟩
  rcases List.mem_append.mp member with here | there
  · exact within c here
  · exact within' c there

theorem staysWithin_mark {c : Char} (quote : c ≠ '"') (within : isBeyond c = false) : StaysWithin [c] :=
  staysWithin_of_all (fun member => quote (List.mem_singleton.mp member).symm)
    fun _ member => List.mem_singleton.mp member ▸ within

theorem StaysWithin.cons {c : Char} {cs : List Char} (quote : c ≠ '"') (within : isBeyond c = false)
    (onward : StaysWithin cs) : StaysWithin (c :: cs) :=
  (staysWithin_mark quote within).append onward

theorem staysWithin_blank {cs : List Char} (blank : AreBlank cs) : StaysWithin cs := by
  refine staysWithin_of_all (fun member => absurd (blank _ member) (by decide)) fun c member => ?_
  have is := blank c member
  simp only [isBlank, Bool.or_eq_true, beq_iff_eq] at is
  rcases is with ((rfl | rfl) | rfl) | rfl <;> rfl

theorem staysWithin_text {s : String} {cs : List Char} (spelled : SpellsText s cs) : StaysWithin cs :=
  ⟨[], leaves_of_spellsText spelled, fun _ member => absurd member List.not_mem_nil⟩

theorem staysWithin_numeral (n : Numeral) : StaysWithin n.chars := by
  have each {c : Char} (member : c ∈ n.chars) : c ≠ '"' ∧ isBeyond c = false := by
    rcases n.mem_chars member with digit | mark
    · constructor
      · rintro rfl
        cases digit
      · rw [isBeyond, Bool.or_eq_false_iff, beq_eq_false_iff_ne, beq_eq_false_iff_ne]
        constructor <;> rintro rfl <;> cases digit
    · simp only [List.mem_cons, List.not_mem_nil, or_false] at mark
      rcases mark with rfl | rfl | rfl | rfl | rfl <;> decide
  exact staysWithin_of_all (fun member => (each member).1 rfl) fun c member => (each member).2

/-- Whatever a text of JSON says, it has no such letter outside of texts. -/
theorem Says.staysWithin {part : Part} {cs : List Char} (said : Says part cs) : StaysWithin cs := by
  induction said with
  | null => exact staysWithin_word rfl
  | trueWord => exact staysWithin_word rfl
  | falseWord => exact staysWithin_word rfl
  | number n => exact staysWithin_numeral n
  | text spelled => exact staysWithin_text spelled
  | noItems blank => exact .cons (by decide) rfl ((staysWithin_blank blank).append (staysWithin_mark (by decide) rfl))
  | array items ih => exact .cons (by decide) rfl (ih.append (staysWithin_mark (by decide) rfl))
  | noMembers blank => exact .cons (by decide) rfl ((staysWithin_blank blank).append (staysWithin_mark (by decide) rfl))
  | object members ih => exact .cons (by decide) rfl (ih.append (staysWithin_mark (by decide) rfl))
  | padded front value back ih => exact (staysWithin_blank front).append (ih.append (staysWithin_blank back))
  | lastItem item ih => exact ih
  | item item onward ih ihOnward => exact ih.append (.cons (by decide) rfl ihOnward)
  | member front spelled back value ih =>
    exact (staysWithin_blank front).append
      ((staysWithin_text spelled).append ((staysWithin_blank back).append (.cons (by decide) rfl ih)))
  | lastMember member ih => exact ih
  | members member onward ih ihOnward => exact ih.append (.cons (by decide) rfl ihOnward)

/-! ### What a written value leaves -/

/-- A part of a text that has such a letter outside of texts unless a condition holds. -/
def ShowsUnless (condition : Prop) (cs : List Char) : Prop :=
  ∃ left, Leaves cs left ∧ (condition ∨ ∃ c ∈ left, isBeyond c = true)

theorem StaysWithin.showsUnless {condition : Prop} {cs : List Char} (within : StaysWithin cs) (holds : condition) :
    ShowsUnless condition cs := by
  obtain ⟨left, leaves, -⟩ := within
  exact ⟨left, leaves, .inl holds⟩

theorem ShowsUnless.append {p q : Prop} {cs ds : List Char} (first : ShowsUnless p cs) (second : ShowsUnless q ds) :
    ShowsUnless (p ∧ q) (cs ++ ds) := by
  obtain ⟨left, leaves, shows⟩ := first
  obtain ⟨more, leaves', shows'⟩ := second
  refine ⟨left ++ more, leaves.append leaves', ?_⟩
  rcases shows with holds | ⟨c, member, beyond⟩
  · rcases shows' with holds' | ⟨c, member, beyond⟩
    · exact .inl ⟨holds, holds'⟩
    · exact .inr ⟨c, List.mem_append_right left member, beyond⟩
  · exact .inr ⟨c, List.mem_append_left more member, beyond⟩

theorem ShowsUnless.mono {p q : Prop} {cs : List Char} (shows : ShowsUnless p cs) (onward : p → q) :
    ShowsUnless q cs := by
  obtain ⟨left, leaves, holds | beyond⟩ := shows
  · exact ⟨left, leaves, .inl (onward holds)⟩
  · exact ⟨left, leaves, .inr beyond⟩

/-- Where no such letter is outside of texts the condition holds. -/
theorem ShowsUnless.holds {p : Prop} {cs : List Char} (shows : ShowsUnless p cs) (within : StaysWithin cs) : p := by
  obtain ⟨left, leaves, holds | ⟨c, member, beyond⟩⟩ := shows
  · exact holds
  · obtain ⟨left', leaves', within⟩ := within
    have same := (leaves []).symm.trans (leaves' [])
    rw [outside, List.append_nil, List.append_nil] at same
    rw [within c (same ▸ member)] at beyond
    cases beyond

theorem showsUnless_writeReal {x : Binary64} (kept : x.IsKept) : ShowsUnless x.IsFinite (writeReal x).toList := by
  cases x with
  | finite negative m e =>
    obtain ⟨n, chars, -⟩ := exists_numeral_of_real (x := .finite negative m e) kept
    exact chars ▸ (staysWithin_numeral n).showsUnless kept
  | infinite negative =>
    cases negative
    · exact ⟨_, leaves_of_no_quote (by decide), .inr ⟨'I', by decide, rfl⟩⟩
    · exact ⟨_, leaves_of_no_quote (by decide), .inr ⟨'I', by decide, rfl⟩⟩
  | nan origin =>
    rw [writeReal]
    exact ⟨_, leaves_of_no_quote (by decide), .inr ⟨'N', by decide, rfl⟩⟩

theorem showsUnless_laid {α : Type} {start back : List Char} (front : AreBlank start) (behind : AreBlank back)
    {xs : List α} {part : α → List Char} {p : α → Prop} (each : ∀ x ∈ xs, ShowsUnless (p x) (part x)) :
    ShowsUnless (∀ x ∈ xs, p x) (laid start (xs.map part) back) := by
  induction xs with
  | nil =>
    exact ((staysWithin_blank front).append (staysWithin_blank behind)).showsUnless
      fun _ member => absurd member List.not_mem_nil
  | cons x xs ih =>
    have first := each x List.mem_cons_self
    have others := ih fun y member => each y (List.mem_cons_of_mem x member)
    have before := (staysWithin_blank front).showsUnless trivial
    cases xs with
    | nil =>
      have after := (staysWithin_blank behind).showsUnless trivial
      have alone := before.append (first.append after)
      rw [List.map_singleton, laid, List.intercalate_singleton]
      exact alone.mono fun holds y member => List.mem_singleton.mp member ▸ holds.2.1
    | cons y ys =>
      have comma := (staysWithin_mark (c := ',') (by decide) rfl).showsUnless trivial
      have all := (before.append first).append (comma.append others)
      rw [List.map_cons, List.map_cons, laid_cons]
      exact all.mono fun holds => List.forall_mem_cons.mpr ⟨holds.1.2, holds.2.2⟩

theorem showsUnless_block {α : Type} (level : Nat) {opening closing : String} (start : StaysWithin opening.toList)
    (stop : StaysWithin closing.toList) {xs : List α} {part : α → String} {p : α → Prop}
    (each : ∀ x ∈ xs, ShowsUnless (p x) (part x).toList) :
    ShowsUnless (∀ x ∈ xs, p x) (block level opening closing (xs.map part)).toList := by
  by_cases none : xs = []
  · subst none
    rw [List.map_nil, block, List.isEmpty_nil, if_pos rfl, String.toList_append]
    exact (start.append stop).showsUnless fun _ member => absurd member List.not_mem_nil
  · rw [toList_block (by simpa using none), List.map_map]
    have inner := showsUnless_laid (areBlank_newline (level + 1)) (areBlank_newline level) each
    exact ((start.showsUnless trivial).append (inner.append (stop.showsUnless trivial))).mono fun holds => holds.2.1

/-- A written value has such a letter outside of texts unless all its floating-point numbers are finite. -/
theorem showsUnless_indentedAt {j : Json} (kept : j.EachReal Binary64.IsKept) (level : Nat) :
    ShowsUnless (j.EachReal Binary64.IsFinite) (indentedAt level j).toList := by
  induction kept generalizing level with
  | null => exact (says_indentedAt .null level).staysWithin.showsUnless .null
  | bool b => exact (says_indentedAt (.bool b) level).staysWithin.showsUnless (.bool b)
  | int i => exact (says_indentedAt (.int i) level).staysWithin.showsUnless (.int i)
  | str s => exact (says_indentedAt (.str s) level).staysWithin.showsUnless (.str s)
  | real kept =>
    rw [indentedAt]
    exact (showsUnless_writeReal kept).mono .real
  | @arr items each ih =>
    rw [indentedAt, indentedItems_eq_map]
    refine (showsUnless_block level ?_ ?_ fun j member => ih j member (level + 1)).mono .arr
    · exact staysWithin_mark (by decide) rfl
    · exact staysWithin_mark (by decide) rfl
  | @obj members each ih =>
    rw [indentedAt, indentedMembers_eq_map]
    refine (showsUnless_block level ?_ ?_ fun m member => ?_).mono .obj
    · exact staysWithin_mark (by decide) rfl
    · exact staysWithin_mark (by decide) rfl
    · have name := (staysWithin_text (spellsText_writeString m.1)).showsUnless trivial
      have colon : StaysWithin (": ").toList := staysWithin_word rfl
      rw [String.toList_append, String.toList_append]
      exact ((name.append (colon.showsUnless trivial)).append (ih m member (level + 1))).mono fun holds => holds.2

/-- A value is written as a text of JSON exactly if all its floating-point numbers are finite. -/
theorem isTextOf_indented_iff {j : Json} (kept : j.EachReal Binary64.IsKept) :
    (∃ k, IsTextOf j.indented k) ↔ j.EachReal Binary64.IsFinite := by
  constructor
  · rintro ⟨k, said⟩
    exact (showsUnless_indentedAt kept 0).holds said.staysWithin
  · intro finite
    exact ⟨j, isTextOf_indented finite⟩

end Json
end DocLint
