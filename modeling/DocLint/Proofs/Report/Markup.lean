import DocLint.Report.Markup
import Mathlib.Data.List.Infix
import Mathlib.Data.List.TakeWhile

/-!
# Markup

A text is read from the left as characters, tags and tags behind an odd number of backslashes (`Markup.Reads`). What is
shown is read off that, and nothing is shown where a tag closes what is not open (`Markup.shown?_of_reads`). So a text
is shown as it is exactly if it has no tag, no bracket behind a backslash and no control character
(`Markup.shown?_eq_self_iff`).
-/
namespace DocLint.Markup

/-- The text of a tag. -/
def IsTagText (text : List Char) : Prop :=
  ∃ c body, text = c :: body ∧ startsTag c = true ∧ '[' ∉ body ∧ ']' ∉ body

/-- A tag as it is written. -/
def bracketed (text : List Char) : List Char :=
  '[' :: (text ++ [']'])

/-- Characters that begin with a tag. -/
def Opens (cs : List Char) : Prop :=
  ∃ text, IsTagText text ∧ bracketed text <+: cs

/-- Backslashes. -/
def slashes (k : Nat) : List Char :=
  List.replicate k '\\'

/-- What is shown of a text and the tags in it. Of two backslashes in front of a tag one is shown, and one more makes the
tag a part of the text; of those in front of another bracket one is not shown. -/
inductive Reads : List Char → List Char → List Tag → Prop where
  | ends (k : Nat) : Reads (slashes k) (slashes k) []
  | tag {k : Nat} {text after shown : List Char} {tags : List Tag} (is : IsTagText text) (even : k % 2 = 0)
      (onward : Reads after shown tags) :
      Reads (slashes k ++ (bracketed text ++ after)) (slashes (k / 2) ++ shown) (tagOf text :: tags)
  | escaped {k : Nat} {text after shown : List Char} {tags : List Tag} (is : IsTagText text) (odd : k % 2 = 1)
      (onward : Reads after shown tags) :
      Reads (slashes k ++ (bracketed text ++ after)) (slashes (k / 2) ++ (bracketed text ++ shown)) tags
  | bracket {k : Nat} {rest shown : List Char} {tags : List Tag} (plain : ¬ Opens ('[' :: rest))
      (onward : Reads rest shown tags) :
      Reads (slashes k ++ '[' :: rest) (slashes (k - 1) ++ '[' :: shown) tags
  | char {k : Nat} {c : Char} {rest shown : List Char} {tags : List Tag} (other : c ≠ '\\') (other' : c ≠ '[')
      (onward : Reads rest shown tags) :
      Reads (slashes k ++ c :: rest) (slashes k ++ if isControl c then shown else c :: shown) tags

/-- Every tag that closes a style closes an open one. -/
def AreBalanced (tags : List Tag) : Prop :=
  (tags.foldlM applyTag []).isSome = true

/-- A text that is shown as it is. -/
structure IsLiteral (cs : List Char) : Prop where
  printed : ∀ c ∈ cs, isControl c = false
  unescaped : ¬ ['\\', '['] <:+: cs
  untagged : ∀ text, IsTagText text → ¬ bracketed text <:+: cs

/-! ### Reading -/

theorem tagText?_eq_some_iff {cs text after : List Char} :
    tagText? cs = some (text, after) ↔ IsTagText text ∧ cs = text ++ ']' :: after := by
  constructor
  · intro found
    cases cs with
    | nil => cases found
    | cons c rest =>
      rw [tagText?, List.span_eq_takeWhile_dropWhile] at found
      split at found
      next starts =>
        split at found
        next body after' split_ =>
          cases found
          obtain ⟨taken, dropped⟩ := Prod.mk.inj split_
          have inside : ∀ d ∈ body, d ≠ ']' ∧ d ≠ '[' := by
            intro d member
            rw [← taken] at member
            have kept := List.mem_takeWhile_imp member
            simp only [Bool.and_eq_true, bne_iff_ne] at kept
            exact kept
          refine ⟨⟨c, body, rfl, starts, fun member => (inside _ member).2 rfl, fun member => (inside _ member).1 rfl⟩, ?_⟩
          rw [List.cons_append, ← taken, ← dropped, List.takeWhile_append_dropWhile]
        next => cases found
      next => cases found
  · rintro ⟨⟨c, body, rfl, starts, opening, closing⟩, rfl⟩
    have inside : ∀ d ∈ body, (d != ']' && d != '[') = true := by
      intro d member
      simp only [Bool.and_eq_true, bne_iff_ne]
      exact ⟨fun is => closing (is ▸ member), fun is => opening (is ▸ member)⟩
    rw [List.cons_append, tagText?, if_pos starts, List.span_eq_takeWhile_dropWhile,
      List.takeWhile_append_of_pos inside, List.dropWhile_append_of_pos inside]
    simp

theorem tagText?_eq_none_iff {cs : List Char} : tagText? cs = none ↔ ¬ Opens ('[' :: cs) := by
  rw [Option.eq_none_iff_forall_ne_some]
  constructor
  · rintro none ⟨text, is, after, whole⟩
    refine none (text, after) (tagText?_eq_some_iff.mpr ⟨is, ?_⟩)
    simpa [bracketed] using whole.symm
  · intro plain found same
    obtain ⟨is, whole⟩ := tagText?_eq_some_iff.mp same
    exact plain ⟨found.1, is, found.2, by simp [bracketed, whole]⟩

theorem exists_slashes (cs : List Char) : ∃ k rest, cs = slashes k ++ rest ∧ rest.head? ≠ some '\\' := by
  induction cs with
  | nil => exact ⟨0, [], rfl, nofun⟩
  | cons c cs ih =>
    by_cases slash : c = '\\'
    · obtain ⟨k, rest, rfl, other⟩ := ih
      exact ⟨k + 1, rest, by rw [slash]; rfl, other⟩
    · exact ⟨0, c :: cs, rfl, by simpa using slash⟩

/-- Every text can be read. -/
theorem exists_reads (cs : List Char) : ∃ shown tags, Reads cs shown tags := by
  induction size : cs.length using Nat.strongRecOn generalizing cs with
  | ind n ih =>
    obtain ⟨k, rest, rfl, other⟩ := exists_slashes cs
    cases rest with
    | nil => exact ⟨slashes k, [], by simpa using Reads.ends k⟩
    | cons c rest =>
      have shorter : rest.length < n := by
        rw [← size, List.length_append, List.length_cons]
        omega
      by_cases bracket : c = '['
      · subst bracket
        by_cases opens : Opens ('[' :: rest)
        · obtain ⟨text, is, after, whole⟩ := opens
          have within : after.length < n := by
            rw [← size, ← whole, List.length_append, List.length_append, bracketed, List.length_cons]
            omega
          obtain ⟨shown, tags, read⟩ := ih _ within after rfl
          rw [← whole]
          rcases Nat.mod_two_eq_zero_or_one k with even | odd
          · exact ⟨_, _, .tag is even read⟩
          · exact ⟨_, _, .escaped is odd read⟩
        · obtain ⟨shown, tags, read⟩ := ih _ shorter rest rfl
          exact ⟨_, _, .bracket opens read⟩
      · obtain ⟨shown, tags, read⟩ := ih _ shorter rest rfl
        exact ⟨_, _, .char (by simpa using other) bracket read⟩

/-! ### What is shown -/

variable {fuel : Nat} {styles : List String} {cs shown : List Char} {tags : List Tag}

/-- Backslashes are counted. -/
theorem shownFrom_slashes (fuel : Nat) (styles : List String) (k before : Nat) (cs : List Char) :
    shownFrom (k + fuel) styles before (slashes k ++ cs) = shownFrom fuel styles (before + k) cs := by
  induction k generalizing before with
  | zero => rw [Nat.zero_add]; rfl
  | succ k ih =>
    rw [Nat.add_right_comm, slashes, List.replicate_succ, List.cons_append, ← slashes, shownFrom,
      if_pos (beq_self_eq_true _), ih, Nat.add_assoc, Nat.add_comm 1]

/-- A tag behind backslashes is applied, or is a part of the text if their number is odd. -/
theorem shownFrom_bracketed {text : List Char} (is : IsTagText text) (fuel : Nat) (styles : List String) (before : Nat)
    (after : List Char) :
    shownFrom (fuel + 1) styles before (bracketed text ++ after) =
      if before % 2 = 1 then
        (shownFrom fuel styles 0 after).map fun shown => slashes (before / 2) ++ (bracketed text ++ shown)
      else
        (applyTag styles (tagOf text)).bind fun styles =>
          (shownFrom fuel styles 0 after).map fun shown => slashes (before / 2) ++ shown := by
  have found : tagText? (text ++ ([']'] ++ after)) = some (text, after) := tagText?_eq_some_iff.mpr ⟨is, rfl⟩
  have bracket : ('[' == '\\') = false := rfl
  rw [bracketed, List.cons_append, List.append_assoc, shownFrom, bracket]
  simp only [Bool.false_eq_true, if_false, beq_self_eq_true, if_true, found]
  split_ifs with odd
  · cases shownFrom fuel styles 0 after <;> simp [slashes]
  · cases applyTag styles (tagOf text) with
    | none => rfl
    | some styles' =>
      simp only [Option.bind_eq_bind, Option.bind_some]
      cases shownFrom fuel styles' 0 after <;> rfl

/-- A character that is no backslash and begins no tag is shown behind the backslashes before it. -/
theorem shownFrom_char {c : Char} {rest : List Char} (other : c ≠ '\\') (plain : ¬ Opens (c :: rest)) (fuel : Nat)
    (styles : List String) (before : Nat) :
    shownFrom (fuel + 1) styles before (c :: rest) = (shownFrom fuel styles 0 rest).map fun shown =>
      slashes (if c == '[' then before - 1 else before) ++ if isControl c then shown else c :: shown := by
  have none : (if c == '[' then tagText? rest else none) = none := by
    split_ifs with bracket
    · rw [eq_of_beq bracket] at plain
      exact tagText?_eq_none_iff.mpr plain
    · rfl
  rw [shownFrom, beq_eq_false_iff_ne.mpr other, none]
  simp only [Bool.false_eq_true, if_false]
  cases shownFrom fuel styles 0 rest <;> rfl

theorem not_opens_of_ne {c : Char} (other : c ≠ '[') (rest : List Char) : ¬ Opens (c :: rest) := by
  rintro ⟨text, -, after, whole⟩
  exact other (List.cons.inj whole).1.symm

theorem exists_spare {k : Nat} {rest : List Char} (enough : (slashes k ++ rest).length < fuel) :
    ∃ spare, fuel = k + (spare + 1) ∧ rest.length < spare + 1 := by
  rw [List.length_append, slashes, List.length_replicate] at enough
  exact ⟨fuel - k - 1, by omega, by omega⟩

/-- What is shown of a text that is read, given the open styles. -/
theorem shownFrom_of_reads (read : Reads cs shown tags) (enough : cs.length < fuel) :
    shownFrom fuel styles 0 cs = (tags.foldlM applyTag styles).map fun _ => shown := by
  induction read generalizing fuel styles with
  | ends k =>
    obtain ⟨spare, rfl, -⟩ := @exists_spare _ k [] (by simpa using enough)
    have stopped := shownFrom_slashes (spare + 1) styles k 0 []
    rw [List.append_nil, Nat.zero_add] at stopped
    rw [stopped]
    rfl
  | @tag k text after shown tags is even onward ih =>
    obtain ⟨spare, rfl, short⟩ := exists_spare enough
    rw [bracketed, List.cons_append, List.length_cons, List.append_assoc, List.length_append, List.length_append] at short
    rw [shownFrom_slashes, shownFrom_bracketed is, Nat.zero_add, if_neg (by omega), List.foldlM_cons]
    cases applyTag styles (tagOf text) with
    | none => rfl
    | some styles' =>
      simp only [Option.bind_eq_bind, Option.bind_some]
      rw [ih (by omega), Option.map_map]
      rfl
  | @escaped k text after shown tags is odd onward ih =>
    obtain ⟨spare, rfl, short⟩ := exists_spare enough
    rw [bracketed, List.cons_append, List.length_cons, List.append_assoc, List.length_append, List.length_append] at short
    rw [shownFrom_slashes, shownFrom_bracketed is, Nat.zero_add, if_pos odd, ih (by omega), Option.map_map]
    rfl
  | @bracket k rest shown tags plain onward ih =>
    obtain ⟨spare, rfl, short⟩ := exists_spare enough
    rw [List.length_cons] at short
    rw [shownFrom_slashes, shownFrom_char (by decide) plain, Nat.zero_add, ih (by omega), Option.map_map]
    rfl
  | @char k c rest shown tags other other' onward ih =>
    obtain ⟨spare, rfl, short⟩ := exists_spare enough
    rw [List.length_cons] at short
    rw [shownFrom_slashes, shownFrom_char other (not_opens_of_ne other' rest), Nat.zero_add, ih (by omega),
      Option.map_map, beq_eq_false_iff_ne.mpr other']
    rfl

/-- What is shown of a text that is read; nothing, if a tag in it closes what is not open. -/
theorem shown?_of_reads {s : String} (read : Reads s.toList shown tags) :
    shown? s = (tags.foldlM applyTag []).map fun _ => shown :=
  shownFrom_of_reads read (by rw [String.length_toList]; exact Nat.lt_succ_self _)

/-- Something is shown of a text if its tags are balanced. -/
theorem isSome_shown?_iff {s : String} :
    (shown? s).isSome = true ↔ ∃ shown tags, Reads s.toList shown tags ∧ AreBalanced tags := by
  constructor
  · intro some
    obtain ⟨shown, tags, read⟩ := exists_reads s.toList
    rw [shown?_of_reads read, Option.isSome_map] at some
    exact ⟨shown, tags, read, some⟩
  · rintro ⟨shown, tags, read, balanced⟩
    rw [shown?_of_reads read, Option.isSome_map]
    exact balanced

/-! ### Literal texts -/

theorem IsLiteral.of_infix {part : List Char} (literal : IsLiteral cs) (inside : part <:+: cs) : IsLiteral part where
  printed c member := literal.printed c (inside.subset member)
  unescaped escape := literal.unescaped (escape.trans inside)
  untagged text is tagged := literal.untagged text is (tagged.trans inside)

theorem isLiteral_nil : IsLiteral [] where
  printed _ member := by cases member
  unescaped escape := by simp at escape
  untagged text _ tagged := by simp [bracketed] at tagged

/-- A text is literal if its first character is printed, is no backslash in front of a bracket and begins no tag, and
the rest is literal. -/
theorem IsLiteral.cons {c : Char} (printed : isControl c = false) (unescaped : ¬ ['\\', '['] <+: c :: cs)
    (untagged : ¬ Opens (c :: cs)) (rest : IsLiteral cs) : IsLiteral (c :: cs) where
  printed := List.forall_mem_cons.mpr ⟨printed, rest.printed⟩
  unescaped escape := (List.infix_cons_iff.mp escape).elim unescaped rest.unescaped
  untagged text is tagged := (List.infix_cons_iff.mp tagged).elim (fun begins => untagged ⟨text, is, begins⟩)
    (rest.untagged text is)

/-- Backslashes in front of a literal text that begins with no bracket are literal. -/
theorem IsLiteral.slashes_append (literal : IsLiteral cs) (other : cs.head? ≠ some '[') (k : Nat) :
    IsLiteral (slashes k ++ cs) := by
  induction k with
  | zero => exact literal
  | succ k ih =>
    refine IsLiteral.cons (by decide) ?_ (not_opens_of_ne (by decide) _) ih
    rintro ⟨after, whole⟩
    cases k with
    | zero =>
      cases cs with
      | nil => simp at whole
      | cons d cs =>
        have first := (List.cons.inj (List.cons.inj whole).2).1
        exact other (congrArg some first.symm)
    | succ k =>
      have first := (List.cons.inj (List.cons.inj whole).2).1
      exact absurd first (by decide)

/-- A literal text is shown as it is, and has no tags. -/
theorem Reads.of_isLiteral (read : Reads cs shown tags) (literal : IsLiteral cs) : shown = cs ∧ tags = [] := by
  induction read with
  | ends k => exact ⟨rfl, rfl⟩
  | tag is _ _ _ => exact absurd ⟨_, _, List.append_assoc _ _ _⟩ (literal.untagged _ is)
  | escaped is _ _ _ => exact absurd ⟨_, _, List.append_assoc _ _ _⟩ (literal.untagged _ is)
  | @bracket k rest shown tags plain onward ih =>
    cases k with
    | zero =>
      obtain ⟨rfl, rfl⟩ := ih (literal.of_infix (List.suffix_cons _ _).isInfix)
      exact ⟨rfl, rfl⟩
    | succ k =>
      refine absurd ⟨slashes k, rest, ?_⟩ literal.unescaped
      simp [slashes, List.replicate_succ']
  | @char k c rest shown tags other other' onward ih =>
    have behind : rest <:+: slashes k ++ c :: rest := ⟨slashes k ++ [c], [], by simp⟩
    obtain ⟨rfl, rfl⟩ := ih (literal.of_infix behind)
    have printed := literal.printed c (List.mem_append_right _ List.mem_cons_self)
    exact ⟨by simp [printed], rfl⟩

/-- Nothing is added to a text when it is shown, and a text of which nothing is taken away is literal. -/
theorem Reads.length_le (read : Reads cs shown tags) :
    shown.length ≤ cs.length ∧ (shown.length = cs.length → IsLiteral cs) := by
  induction read with
  | ends k =>
    refine ⟨Nat.le_refl _, fun _ => ?_⟩
    simpa using isLiteral_nil.slashes_append nofun k
  | @tag k text after shown tags is even onward ih =>
    simp only [slashes, bracketed, List.length_append, List.length_replicate, List.length_cons]
    exact ⟨by omega, fun same => by omega⟩
  | @escaped k text after shown tags is odd onward ih =>
    simp only [slashes, bracketed, List.length_append, List.length_replicate, List.length_cons]
    exact ⟨by omega, fun same => by omega⟩
  | @bracket k rest shown tags plain onward ih =>
    simp only [slashes, List.length_append, List.length_replicate, List.length_cons]
    refine ⟨by omega, fun same => ?_⟩
    have none : k = 0 := by omega
    have literal := ih.2 (by omega)
    subst none
    exact literal.cons (by decide) (fun begins => by simp at begins) plain
  | @char k c rest shown tags other other' onward ih =>
    simp only [slashes, List.length_append, List.length_replicate, List.length_cons]
    cases control : isControl c with
    | true =>
      simp only [if_true]
      exact ⟨by omega, fun same => by omega⟩
    | false =>
      simp only [Bool.false_eq_true, if_false, List.length_cons]
      refine ⟨by omega, fun same => ?_⟩
      have literal : IsLiteral (c :: rest) := (ih.2 (by omega)).cons control
        (fun begins => other (List.cons_prefix_cons.mp begins).1.symm) (not_opens_of_ne other' rest)
      exact literal.slashes_append (by simpa using other') k

/-- A text is shown as it is exactly if it is literal. -/
theorem shown?_eq_self_iff {s : String} : shown? s = some s.toList ↔ IsLiteral s.toList := by
  obtain ⟨shown, tags, read⟩ := exists_reads s.toList
  rw [shown?_of_reads read]
  constructor
  · intro same
    obtain ⟨_, _, rfl⟩ := Option.map_eq_some_iff.mp same
    exact read.length_le.2 rfl
  · intro literal
    obtain ⟨rfl, rfl⟩ := read.of_isLiteral literal
    rfl

end DocLint.Markup
