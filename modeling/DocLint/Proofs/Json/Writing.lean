import DocLint.Proofs.Json.Numerals
import DocLint.Proofs.Lists

/-!
# Writing JSON

A value whose floating-point numbers are all finite is written as a text of JSON that says that value
(`Json.isTextOf_indented`): the escapes of a text spell its characters, and the blanks of the layout stand where blanks may
stand.
-/
namespace DocLint

namespace Text

/-- The hexadecimal digits of a number are read as that number. -/
theorem hexValue?_digitChar {n : Nat} (small : n < 16) : hexValue? (Nat.digitChar n) = some n := by
  have all : ∀ k < 16, hexValue? (Nat.digitChar k) = some k := by decide
  exact all n small

theorem hexNat?_hexChars (width n : Nat) : hexNat? (hexChars width n) = some (n % 16 ^ width) := by
  induction width generalizing n with
  | zero => simp [hexChars, hexNat?, Nat.mod_one]
  | succ width ih =>
    have onward := ih (n / 16)
    unfold hexNat? at onward ⊢
    rw [hexChars, List.foldl_append, onward]
    change (do return 16 * (n / 16 % 16 ^ width) + (← hexValue? (Nat.digitChar (n % 16)))) = _
    rw [hexValue?_digitChar (Nat.mod_lt n (by decide))]
    have split := Nat.mod_mul (x := n) (a := 16) (b := 16 ^ width)
    rw [pow_succ', split]
    exact congrArg some (by omega)

end Text

namespace Json

/-! ### Texts -/

theorem isUnit_hexChars {n : Nat} (small : n < 0x10000) : IsUnit (Text.hexChars 4 n) n := by
  refine ⟨Text.hexChars_length 4 n, ?_⟩
  rw [Text.hexNat?_hexChars]
  exact congrArg some (Nat.mod_eq_of_lt (by omega))

/-- The escape of a character spells it. -/
theorem spellsChar_escapedChar (c : Char) : SpellsChar c (escapedChar c) := by
  have scalar : c.toNat < 0x110000 := by
    rcases c.valid with low | high
    · exact lt_trans low (by decide)
    · exact high.2
  unfold escapedChar
  dsimp only
  split
  next mark =>
    rw [Bool.or_eq_true, beq_iff_eq, beq_iff_eq] at mark
    rcases mark with rfl | rfl
    · exact .short (by decide)
    · exact .short (by decide)
  next noMark =>
    rw [Bool.or_eq_true, beq_iff_eq, beq_iff_eq, not_or] at noMark
    split
    next is => rw [beq_iff_eq.mp is]; exact .short (by decide)
    split
    next is => rw [beq_iff_eq.mp is]; exact .short (by decide)
    split
    next is => rw [beq_iff_eq.mp is]; exact .short (by decide)
    split
    next is => rw [beq_iff_eq.mp is]; exact .short (by decide)
    split
    next is => rw [beq_iff_eq.mp is]; exact .short (by decide)
    split
    next printed =>
      rw [Bool.and_eq_true, decide_eq_true_eq, decide_eq_true_eq] at printed
      exact .plain printed.1 noMark.1 noMark.2
    next =>
      split
      next small => exact .unit (isUnit_hexChars small)
      next large =>
        refine .pair (isUnit_hexChars ?_) (isUnit_hexChars ?_) ?_ ?_ ?_ <;> omega

theorem spellsChars_escaped (cs : List Char) : SpellsChars cs (cs.flatMap escapedChar) := by
  induction cs with
  | nil => exact .nil
  | cons c cs ih => exact .cons (spellsChar_escapedChar c) ih

/-- A text is spelled by its escapes between quotes. -/
theorem spellsText_writeString (s : String) : SpellsText s (writeString s).toList := by
  unfold writeString
  rw [String.toList_ofList]
  exact .quoted (spellsChars_escaped s.toList)

/-! ### Layout -/

/-- A value all of whose floating-point numbers have a property. -/
inductive EachReal (P : Binary64 → Prop) : Json → Prop where
  | null : EachReal P .null
  | bool (b : Bool) : EachReal P (.bool b)
  | int (i : Int) : EachReal P (.int i)
  | real {x : Binary64} (is : P x) : EachReal P (.real x)
  | str (s : String) : EachReal P (.str s)
  | arr {items : List Json} (each : ∀ j ∈ items, EachReal P j) : EachReal P (.arr items)
  | obj {members : List (String × Json)} (each : ∀ m ∈ members, EachReal P m.2) : EachReal P (.obj members)

section EachReal

variable {P : Binary64 → Prop}

@[simp] theorem eachReal_null : EachReal P .null :=
  .null

@[simp] theorem eachReal_bool (b : Bool) : EachReal P (.bool b) :=
  .bool b

@[simp] theorem eachReal_int (i : Int) : EachReal P (.int i) :=
  .int i

@[simp] theorem eachReal_str (s : String) : EachReal P (.str s) :=
  .str s

@[simp] theorem eachReal_real_iff {x : Binary64} : EachReal P (.real x) ↔ P x :=
  ⟨fun | .real is => is, .real⟩

@[simp] theorem eachReal_arr_iff {items : List Json} : EachReal P (.arr items) ↔ ∀ j ∈ items, EachReal P j :=
  ⟨fun | .arr each => each, .arr⟩

@[simp] theorem eachReal_obj_iff {members : List (String × Json)} :
    EachReal P (.obj members) ↔ ∀ m ∈ members, EachReal P m.2 :=
  ⟨fun | .obj each => each, .obj⟩

end EachReal

theorem areBlank_nil : AreBlank [] :=
  fun _ member => absurd member List.not_mem_nil

theorem areBlank_newline (level : Nat) : AreBlank (newline level).toList := by
  have chars : (newline level).toList = '\n' :: List.replicate (2 * level) ' ' := by
    simp [newline, String.toList_append]
  intro c member
  rw [chars] at member
  rcases List.mem_cons.mp member with rfl | space
  · rfl
  · rw [List.eq_of_mem_replicate space]
    rfl

/-- Parts with the start of a line in front of each, a comma behind each but the last, and blanks behind the last. -/
def laid (start : List Char) (parts : List (List Char)) (back : List Char) : List Char :=
  start ++ ((',' :: start).intercalate parts ++ back)

theorem laid_cons (start back part next : List Char) (parts : List (List Char)) :
    laid start (part :: next :: parts) back = (start ++ part) ++ ',' :: laid start (next :: parts) back := by
  simp [laid, List.intercalate_cons_cons]

theorem toList_block {level : Nat} {opening closing : String} {parts : List String} (some : parts ≠ []) :
    (block level opening closing parts).toList =
      opening.toList ++
        (laid (newline (level + 1)).toList (parts.map String.toList) (newline level).toList ++ closing.toList) := by
  have more : ¬ parts.isEmpty = true := by rwa [List.isEmpty_iff]
  rw [block, if_neg more]
  simp [laid, String.toList_append, String.toList_intercalate]

theorem says_padded {j : Json} {start part back : List Char} (front : AreBlank start) (said : Says (.value j) part)
    (behind : AreBlank back) : Says (.padded j) (start ++ part ++ back) := by
  rw [List.append_assoc]
  exact .padded front said behind

/-- Items that are laid out say the items. -/
theorem says_laid_items {start back : List Char} (front : AreBlank start) (behind : AreBlank back) {js : List Json}
    {parts : List (List Char)} (said : List.Forall₂ (fun j part => Says (.value j) part) js parts) (some : js ≠ []) :
    Says (.items js) (laid start parts back) := by
  induction said with
  | nil => exact absurd rfl some
  | @cons j part js parts first others ih =>
    cases others with
    | nil =>
      refine .lastItem ?_
      rw [laid, List.intercalate_singleton, ← List.append_assoc]
      exact says_padded front first behind
    | cons second others =>
      rw [laid_cons]
      refine .item ?_ (ih (List.cons_ne_nil _ _))
      have alone := says_padded front first areBlank_nil
      rwa [List.append_nil] at alone

/-- Members that are laid out say the members. -/
theorem says_laid_members {start back : List Char} (behind : AreBlank back)
    {ms : List (String × Json)} {parts : List (List Char)}
    (said : List.Forall₂ (fun m part => ∀ back, AreBlank back → Says (.member m) (start ++ part ++ back)) ms parts)
    (some : ms ≠ []) : Says (.members ms) (laid start parts back) := by
  induction said with
  | nil => exact absurd rfl some
  | @cons m part ms parts first others ih =>
    cases others with
    | nil =>
      refine .lastMember ?_
      rw [laid, List.intercalate_singleton, ← List.append_assoc]
      exact first back behind
    | cons second others =>
      rw [laid_cons]
      refine .members ?_ (ih (List.cons_ne_nil _ _))
      have alone := first [] areBlank_nil
      rwa [List.append_nil] at alone

theorem indentedItems_eq_map (level : Nat) (items : List Json) :
    indentedItems level items = items.map (indentedAt level) := by
  induction items with
  | nil => rfl
  | cons j items ih => rw [indentedItems, ih, List.map_cons]

theorem indentedMembers_eq_map (level : Nat) (members : List (String × Json)) :
    indentedMembers level members =
      members.map fun m => writeString m.1 ++ ": " ++ indentedAt level m.2 := by
  induction members with
  | nil => rfl
  | cons m members ih =>
    obtain ⟨key, value⟩ := m
    rw [indentedMembers, ih, List.map_cons]

/-- A finite value on lines of its own says that value. -/
theorem says_indentedAt {j : Json} (finite : j.EachReal Binary64.IsFinite) (level : Nat) :
    Says (.value j) (indentedAt level j).toList := by
  induction finite generalizing level with
  | null =>
    rw [indentedAt]
    exact .null
  | bool b =>
    rw [indentedAt]
    cases b
    · exact .falseWord
    · exact .trueWord
  | int i =>
    obtain ⟨n, chars, value⟩ := exists_numeral_of_int i
    rw [indentedAt, ← chars, ← value]
    exact .number n
  | @real x finite =>
    obtain ⟨n, chars, value⟩ := exists_numeral_of_real finite
    rw [indentedAt, ← chars, ← value]
    exact .number n
  | str s =>
    rw [indentedAt]
    exact .text (spellsText_writeString s)
  | @arr items each ih =>
    rw [indentedAt, indentedItems_eq_map]
    by_cases none : items = []
    · subst none
      rw [List.map_nil, block, List.isEmpty_nil, if_pos rfl, String.toList_append]
      exact .noItems areBlank_nil
    · rw [toList_block (by simpa using none)]
      refine .array (says_laid_items (areBlank_newline _) (areBlank_newline _) ?_ none)
      rw [List.map_map, List.forall₂_map_right_iff, List.forall₂_same]
      exact fun j member => ih j member (level + 1)
  | @obj members each ih =>
    rw [indentedAt, indentedMembers_eq_map]
    by_cases none : members = []
    · subst none
      rw [List.map_nil, block, List.isEmpty_nil, if_pos rfl, String.toList_append]
      exact .noMembers areBlank_nil
    · rw [toList_block (by simpa using none)]
      refine .object (says_laid_members (areBlank_newline _) ?_ none)
      rw [List.map_map, List.forall₂_map_right_iff, List.forall₂_same]
      intro m member back behind
      have space : AreBlank [' '] := by
        intro c member
        rw [List.mem_singleton.mp member]
        rfl
      have value := Says.padded space (ih m member (level + 1)) behind
      have said := Says.member (areBlank_newline (level + 1)) (spellsText_writeString m.1) areBlank_nil value
      simpa [String.toList_append] using said

/-- A finite value is written as a text of JSON that says it. -/
theorem isTextOf_indented {j : Json} (finite : j.EachReal Binary64.IsFinite) : IsTextOf j.indented j := by
  have said := says_padded areBlank_nil (says_indentedAt finite 0) areBlank_nil
  rwa [List.nil_append, List.append_nil] at said

end Json
end DocLint
