import DocLint.Proofs.Path.Compiling
import DocLint.Proofs.Path.Pieces
import DocLint.Proofs.Query.Token

/-!
# Addresses of nodes

A path of keys and positions is written as an expression in brackets, every key in quotes. This expression
compiles to one selector for each segment and selects the path again, and besides it only paths that have an
integer in place of a key that spells it (`CompiledPath.ofExpression_address`). Keys survive whatever they
contain: a quote or a backslash stands behind a backslash, and nothing else has a meaning between quotes.
-/
namespace DocLint

/-- A segment that an address can name. -/
inductive AddressPart where
  | key (name : String)
  | position (n : Nat)

namespace AddressPart

def segment : AddressPart → Segment
  | .key name => .str name
  | .position n => .int n

def selector : AddressPart → Selector
  | .key name => .key name
  | .position n => .index n

/-- A character of a key between single quotes. -/
def quotedChar (c : Char) : List Char :=
  if c = '\\' ∨ c = '\'' then ['\\', c] else [c]

/-- A part in brackets. -/
def written : AddressPart → String
  | .key name => "['" ++ String.ofList (name.toList.flatMap quotedChar) ++ "']"
  | .position n => "[" ++ toString n ++ "]"

/-- A part agrees with a segment that is its own, and a key also with the integer that it spells. -/
def Meets (part : AddressPart) (s : Segment) : Prop :=
  s = part.segment ∨ ∃ i : Int, part = .key (toString i) ∧ s = .int i

end AddressPart

/-- The expression that names the parts of a path one after the other. -/
def address (parts : List AddressPart) : String :=
  "$" ++ String.join (parts.map AddressPart.written)

example : address [.key "it's", .position 2, .key "\\"] = "$['it\\'s'][2]['\\\\']" := by decide +kernel

namespace Text

/-- A text that neither begins nor ends with a blank has none to be dropped. -/
theorem trimChars_eq_self {cs : List Char} {first last : Char} (begins : cs.head? = some first)
    (ends : cs.getLast? = some last) (full : isBlank first = false) (full' : isBlank last = false) :
    trimChars cs = cs := by
  obtain ⟨rest, rfl⟩ := List.head?_eq_some_iff.mp begins
  obtain ⟨before, whole⟩ := List.getLast?_eq_some_iff.mp ends
  rw [trimChars, List.dropWhile_cons_of_neg (by simp [full]), whole, List.reverse_append,
    List.reverse_singleton, List.singleton_append, List.dropWhile_cons_of_neg (by simp [full']),
    List.reverse_cons, List.reverse_reverse]

end Text

namespace AddressPart
open PathForm

/-- The digits of a position. -/
def digits (n : Nat) : Digits where
  chars := Nat.toDigits 10 n
  nonempty := Nat.toDigits_ne_nil
  decimal _ member :=
    Text.isDecimal_of_isDigit (Nat.isDigit_of_mem_toDigits (by decide) (by decide) member)

theorem digits_value (n : Nat) : (digits n).value = n :=
  Option.some.inj ((CompiledPath.decimalNat?_digits (digits n)).symm.trans (Text.decimalNat?_toDigits n))

/-- A character of a key as a form. -/
def quoted (c : Char) : QuotedChar '\'' :=
  if special : c = '\\' ∨ c = '\'' then
    .escaped c (by rcases special with rfl | rfl <;> decide)
  else .plain c (fun same => special (.inr same)) (fun same => special (.inl same))

theorem quoted_written (c : Char) : (quoted c).written = quotedChar c := by
  unfold quoted quotedChar
  split <;> rfl

theorem quoted_char (c : Char) : (quoted c).char = c := by
  unfold quoted
  split <;> rfl

/-- The bracket that a part is written as. -/
def bracket : AddressPart → Bracket
  | .key name => .key .single (name.toList.map quoted)
  | .position n => .index (digits n)

theorem bracket_written (part : AddressPart) : part.bracket.written = part.written.toList := by
  cases part with
  | key name =>
    have body : (name.toList.map quoted).flatMap QuotedChar.written = name.toList.flatMap quotedChar := by
      rw [List.flatMap_map]
      exact List.flatMap_congr fun c _ => quoted_written c
    simp only [bracket, Bracket.written, written, String.toList_append, String.toList_ofList]
    exact congrArg ('[' :: '\'' :: · ++ ['\'', ']']) body
  | position n =>
    simp [bracket, Bracket.written, written, digits]

theorem bracket_selector (part : AddressPart) : part.bracket.selector = part.selector := by
  cases part with
  | key name =>
    have body : (name.toList.map quoted).map QuotedChar.char = name.toList := by
      rw [List.map_map]
      exact (List.map_congr_left fun c _ => quoted_char c).trans (List.map_id _)
    exact congrArg Selector.key ((congrArg String.ofList body).trans String.ofList_toList)
  | position n => exact congrArg Selector.index (digits_value n)

/-- The steps that parts are written as. -/
def steps (parts : List AddressPart) : List Step :=
  parts.map fun part => .bracket part.bracket

theorem steps_selectors (parts : List AddressPart) :
    PathForm.selectors (steps parts) = parts.map selector := by
  rw [PathForm.selectors, steps, List.flatMap_map, List.map_eq_flatMap]
  exact List.flatMap_congr fun part _ => congrArg ([·]) (bracket_selector part)

theorem toList_address (parts : List AddressPart) :
    (address parts).toList = '$' :: PathForm.written (steps parts) := by
  have joined : (String.join (parts.map written)).toList = PathForm.written (steps parts) := by
    simp [PathForm.written, steps, List.flatMap_map, Step.written, bracket_written]
  simp [address, joined]

/-- An address ends with a bracket, or is the dollar sign alone, so there is no blank around it. -/
theorem spells_address (parts : List AddressPart) : Spells (address parts) (steps parts) := by
  obtain ⟨last, ends, full⟩ : ∃ last, (address parts).toList.getLast? = some last ∧
      Text.isBlank last = false := by
    rw [toList_address]
    rcases List.eq_nil_or_concat parts with rfl | ⟨before, part, rfl⟩
    · exact ⟨'$', rfl, by decide⟩
    · refine ⟨']', ?_, by decide⟩
      have closes : part.bracket.written.getLast? = some ']' := by
        cases part <;> simp [bracket, Bracket.written, List.getLast?_cons]
      simp [PathForm.written, steps, Step.written, List.getLast?_cons, closes]
  have begins : (address parts).toList.head? = some '$' := by
    rw [toList_address]
    rfl
  rw [Spells, Text.trim, String.toList_ofList,
    Text.trimChars_eq_self begins ends (by decide) full, toList_address]

end AddressPart

/-- Without a descent selectors select the paths of which each segment is accepted by its own selector. -/
theorem selects_iff_forall₂ {ss : List Selector} (flat : .descend ∉ ss) {p : Path} :
    selects ss p = true ↔ List.Forall₂ (fun s segment => s.accepts segment = true) ss p := by
  induction ss generalizing p with
  | nil => simp [selects]
  | cons s ss ih =>
    obtain ⟨lands, flat⟩ := not_or.mp (List.mem_cons.not.mp flat)
    rw [selects_segment (Ne.symm lands), List.forall₂_cons_left_iff]
    constructor
    · rintro ⟨segment, rest, rfl, accepted, onward⟩
      exact ⟨segment, rest, accepted, (ih flat).mp onward, rfl⟩
    · rintro ⟨segment, rest, accepted, onward, rfl⟩
      exact ⟨segment, rest, rfl, accepted, (ih flat).mpr onward⟩

/-- The selector of a part accepts the segments that the part agrees with. -/
theorem AddressPart.accepts_iff_meets {part : AddressPart} {s : Segment} :
    part.selector.accepts s = true ↔ part.Meets s := by
  cases part with
  | key name =>
    rw [selector, Selector.accepts_key]
    simp [Meets, segment, eq_comm]
  | position n =>
    rw [selector, Selector.accepts_index]
    simp [Meets, segment]

/-- An address compiles to one selector for each part, a key or a position, and selects the paths that agree
with it segment by segment: its own path, and those with an integer in place of a key that spells it. -/
theorem CompiledPath.ofExpression_address (parts : List AddressPart) :
    ∃ c, ofExpression (address parts) = .ok c ∧ c.selectors = parts.map AddressPart.selector ∧
      ∀ q : Path, c.matches q = true ↔ List.Forall₂ AddressPart.Meets parts q := by
  refine ⟨⟨address parts, parts.map AddressPart.selector⟩, ?_, rfl, fun q => ?_⟩
  · have text : (Text.trim (address parts)).toList = '$' :: PathForm.written (AddressPart.steps parts) :=
      AddressPart.spells_address parts
    simp only [ofExpression, text, readSteps_written, AddressPart.steps_selectors]
    rfl
  · have flat : Selector.descend ∉ parts.map AddressPart.selector := by
      rw [List.mem_map]
      rintro ⟨part, _, same⟩
      cases part <;> cases same
    rw [matches_eq_selects, selects_iff_forall₂ flat, List.forall₂_map_left_iff]
    simp only [AddressPart.accepts_iff_meets]

end DocLint
