import DocLint.Proofs.Yaml.Faults
import DocLint.Yaml.Token.Scalar
import Mathlib.Algebra.Group.Nat.Defs
import Mathlib.Data.List.Infix

/-!
# Faults of scanning scalars

A text is scanned from left to right, so that what is left is a suffix of it. What can go wrong is a fault of the
structure or has its cause in the text (`Causes`): an escape of eight digits that names no character, or a version
with too many digits. Scanning a scalar fails for nothing else (`Scalars.quotedScalar_settles`,
`Scalars.blockScalar_settles`). Where no such number is too large for any character (`Modest`), all these errors are
refusals.
-/
namespace DocLint

namespace Text

/-- A digit in base sixteen is below sixteen. -/
theorem hexValue?_lt {c : Char} {v : Nat} (digit : hexValue? c = some v) : v < 16 := by
  unfold hexValue? at digit
  split at digit
  · next range =>
    simp only [Bool.and_eq_true, decide_eq_true_eq] at range
    have high : c.toNat ≤ '9'.toNat := range.2
    cases digit
    have : '9'.toNat = 57 := rfl
    have : '0'.toNat = 48 := rfl
    omega
  · split at digit
    · next range =>
      simp only [Bool.and_eq_true, decide_eq_true_eq] at range
      have high : c.toNat ≤ 'f'.toNat := range.2
      cases digit
      have : 'f'.toNat = 102 := rfl
      have : 'a'.toNat = 97 := rfl
      omega
    · split at digit
      · next range =>
        simp only [Bool.and_eq_true, decide_eq_true_eq] at range
        have high : c.toNat ≤ 'F'.toNat := range.2
        cases digit
        have : 'F'.toNat = 70 := rfl
        have : 'A'.toNat = 65 := rfl
        omega
      · cases digit

/-- Digits in base sixteen write a number below the power of sixteen by their count. -/
theorem hexNat?_lt {cs : List Char} {n : Nat} (written : hexNat? cs = some n) : n < 16 ^ cs.length := by
  induction cs using List.reverseRecOn generalizing n with
  | nil =>
    cases written
    decide
  | append_singleton cs c ih =>
    rw [hexNat?, List.foldl_append] at written
    obtain ⟨high, before, written⟩ := Option.bind_eq_some_iff.mp written
    obtain ⟨low, digit, whole⟩ := Option.bind_eq_some_iff.mp written
    have bound := ih before
    have small := hexValue?_lt digit
    cases whole
    rw [List.length_append, List.length_singleton, Nat.pow_succ]
    omega

end Text

namespace Yaml

/-- Whether characters start with an escape of eight digits for a number that no character is counted
with. -/
def isOversized : List Char → Bool
  | '\\' :: 'U' :: rest => (Text.hexNat? (rest.take 8)).any (0x80000000 ≤ ·)
  | _ => false

/-- Characters without an escape for an oversized number among them. -/
def Modest (cs : List Char) : Prop :=
  ∀ rest, rest <:+ cs → isOversized rest = false

instance (cs : List Char) : Decidable (Modest cs) :=
  decidable_of_iff (∀ rest ∈ cs.tails, isOversized rest = false) (by simp [Modest])

/-- The number of an escape of eight digits that characters start with. -/
def longEscape? : List Char → Option Nat
  | '\\' :: 'U' :: rest => Text.hexNat? (rest.take 8)
  | _ => none

theorem isOversized_of_longEscape? {cs : List Char} {n : Nat} (named : longEscape? cs = some n)
    (large : 0x80000000 ≤ n) : isOversized cs = true := by
  unfold longEscape? at named
  split at named
  · next rest =>
    rw [isOversized, named]
    simpa using large
  · cases named

/-- Whether a character is a decimal digit of a version. -/
def isVersionDigit (c : Char) : Bool :=
  '0' ≤ c && c ≤ '9'

/-- What a text has in it that causes an error while it is scanned; a fault of its structure needs nothing more. -/
inductive Causes (whole : List Char) : YamlError → Prop
  | malformed : Causes whole .malformed
  | beyondUnicode {rest : List Char} {n : Nat} (inside : rest <:+ whole) (named : longEscape? rest = some n)
      (large : 0x110000 ≤ n) : Causes whole .beyondUnicode
  | beyondCharacters {rest : List Char} {n : Nat} (inside : rest <:+ whole) (named : longEscape? rest = some n)
      (large : 0x80000000 ≤ n) : Causes whole .beyondCharacters
  | tooManyDigits {start rest : List Char} {count : Nat} (inside : start <:+ whole)
      (named : "YAML".toList <+: start) (behind : rest <:+ start)
      (long : Number.decimalLimit < (rest.takeWhile isVersionDigit).length) : Causes whole (.tooManyDigits count)

/-- The errors that a text can cause while it is scanned. -/
def Faults.of (whole : List Char) : Faults :=
  ⟨Causes whole, .malformed⟩

/-- Of a modest text all of them are refusals. -/
theorem Modest.isRefusal {whole : List Char} {e : YamlError} (modest : Modest whole) (caused : Causes whole e) :
    e.isRefusal = true := by
  cases caused with
  | beyondCharacters inside named large =>
    cases (isOversized_of_longEscape? named large).symm.trans (modest _ inside)
  | _ => rfl

namespace Cursor

/-- What is ahead is the end of a text. -/
def Within (c : Cursor) (whole : List Char) : Prop :=
  c.rest <:+ whole

variable {c : Cursor} {whole : List Char}

theorem rest_next (c : Cursor) : c.next.rest = c.rest.tail := by
  unfold next
  cases h : c.rest with
  | nil => simp [h]
  | cons ch rest =>
    dsimp only
    split
    · rfl
    · split <;> rfl

theorem rest_skip (c : Cursor) (n : Nat) : (c.skip n).rest = c.rest.drop n := by
  induction n generalizing c with
  | zero => rfl
  | succ n ih =>
    rw [skip, ih, rest_next, List.drop_tail]

/-- A character other than the mark of the end is the first one of what is left. -/
theorem rest_of_current {ch : Char} (here : c.current = ch) (inside : ch ≠ endOfText) :
    c.rest = ch :: c.rest.tail := by
  cases left : c.rest with
  | nil => exact absurd (by rw [← here, current, left]; rfl) inside
  | cons first rest =>
    rw [← here, current, left]
    rfl

theorem Within.skip (inside : c.Within whole) (n : Nat) : (c.skip n).Within whole := by
  rw [Within, rest_skip]
  exact (List.drop_suffix n c.rest).trans inside

theorem Within.next (inside : c.Within whole) : c.next.Within whole :=
  inside.skip 1

theorem Within.skipWhile (inside : c.Within whole) (p : Char → Bool) : (c.skipWhile p).Within whole :=
  inside.skip _

theorem Within.skipSpaces (inside : c.Within whole) : c.skipSpaces.Within whole :=
  inside.skip _

theorem Within.skipIndent (inside : c.Within whole) (column : Nat) : (c.skipIndent column).Within whole :=
  inside.skip _

theorem Within.lineBreak (inside : c.Within whole) : c.lineBreak.2.Within whole := by
  unfold Cursor.lineBreak
  dsimp only
  split
  · exact inside.skip 2
  · split
    · exact inside.next
    · split
      · exact inside.next
      · exact inside

end Cursor

namespace Scalars

/-- What is ahead of the cursor that an answer comes with is the end of a text. -/
def GoesOn (whole : List Char) {α : Type} (r : α × Cursor) : Prop :=
  r.2.Within whole

/-- Reading stays within a text and fails for what the text causes only. -/
abbrev Scans (whole : List Char) {α : Type} (attempt : Except YamlError (α × Cursor)) : Prop :=
  Settles (.of whole) (GoesOn whole) attempt

variable {c : Cursor} {whole : List Char}

theorem quotedBreaks_settles (fuel : Nat) (inside : c.Within whole) : Scans whole (quotedBreaks fuel c) := by
  induction fuel generalizing c with
  | zero => exact .malformed
  | succ fuel ih =>
    rw [quotedBreaks]
    split
    · exact .malformed
    · dsimp only
      split
      · exact (ih (inside.skipWhile _).lineBreak).bind fun r onward => .ok onward
      · exact .ok (inside.skipWhile _)

theorem quotedSpaces_settles (inside : c.Within whole) : Scans whole (quotedSpaces c) := by
  unfold quotedSpaces
  dsimp only
  split
  · exact .malformed
  · split
    · refine (quotedBreaks_settles _ (inside.skip _).lineBreak).bind fun r onward => ?_
      split
      · exact .ok onward
      · split <;> exact .ok onward
    · exact .ok (inside.skip _)

/-- A number is one of a character, unless it is the number of a long escape in the text. -/
theorem numbered_settles {n : Nat} (known : n < 0x110000 ∨ ∃ rest, rest <:+ whole ∧ longEscape? rest = some n) :
    Settles (.of whole) (fun _ => True) (numbered n) := by
  have named (large : 0x110000 ≤ n) : ∃ rest, rest <:+ whole ∧ longEscape? rest = some n :=
    known.resolve_left (Nat.not_lt.mpr large)
  unfold numbered
  split
  · next large =>
    obtain ⟨rest, inside, escape⟩ := named (by omega)
    exact .failed (.beyondCharacters inside escape large)
  · split
    · next large =>
      obtain ⟨rest, inside, escape⟩ := named large
      exact .failed (.beyondUnicode inside escape large)
    · split <;> exact .ok trivial

/-- The number of an escape is small, or the escape is a long one. -/
theorem numericEscape_cases {width n : Nat} (named : numericEscapes.lookup c.current = some width)
    (written : Text.hexNat? (c.next.rest.take width) = some n) :
    n < 0x110000 ∨ longEscape? ('\\' :: c.rest) = some n := by
  have bound := Text.hexNat?_lt written
  have short : (c.next.rest.take width).length ≤ width := List.length_take_le _ _
  have least : n < 16 ^ width := Nat.lt_of_lt_of_le bound (Nat.pow_le_pow_right (by decide) short)
  simp only [numericEscapes, List.lookup_cons] at named
  split at named
  · cases named
    exact .inl (by omega)
  · split at named
    · cases named
      exact .inl (by omega)
    · split at named
      · next letter =>
        cases named
        have begins : c.rest = 'U' :: c.next.rest := by
          rw [Cursor.rest_next]
          exact Cursor.rest_of_current (eq_of_beq letter) (by decide)
        rw [begins]
        exact .inr written
      · cases named

/-- Behind a backslash. -/
theorem quotedEscape_settles (inside : '\\' :: c.rest <:+ whole) : Scans whole (quotedEscape c) := by
  have onward : c.Within whole := (List.suffix_cons _ _).trans inside
  unfold quotedEscape
  dsimp only
  split
  · exact .ok onward.next
  · split
    · next width named =>
      split
      · exact .malformed
      · split
        · exact .malformed
        · next n written =>
          split
          · exact .ok ((onward.next.skip _).skip _)
          · have known : n < 0x110000 ∨ ∃ rest, rest <:+ whole ∧ longEscape? rest = some n :=
              (numericEscape_cases named written).imp_right fun escape => ⟨_, inside, escape⟩
            exact (numbered_settles known).bind fun ch _ => .ok (onward.next.skip _)
    · split
      · exact quotedBreaks_settles _ onward.lineBreak
      · exact .malformed

theorem quotedRun_settles (double : Bool) (fuel : Nat) (inside : c.Within whole) :
    Scans whole (quotedRun double fuel c) := by
  induction fuel generalizing c with
  | zero => exact .malformed
  | succ fuel ih =>
    have behind := inside.skip (c.takeWhile (!stopsQuoted ·)).length
    rw [quotedRun]
    dsimp only
    split
    · exact (ih (behind.skip 2)).bind fun r onward => .ok onward
    · split
      · exact (ih behind.next).bind fun r onward => .ok onward
      · split
        · next escaping =>
          have mark : (c.skip (c.takeWhile (!stopsQuoted ·)).length).current = '\\' := by
            simp only [Bool.and_eq_true, beq_iff_eq] at escaping
            exact escaping.2
          have whole := Cursor.rest_of_current mark (by decide)
          rw [← Cursor.rest_next] at whole
          refine (quotedEscape_settles ?_).bind fun r onward => (ih onward).bind fun q last => .ok last
          rw [← whole]
          exact behind
        · exact .ok behind

theorem quotedRest_settles (double : Bool) (quote : Char) (fuel : Nat) (inside : c.Within whole) :
    Scans whole (quotedRest double quote fuel c) := by
  induction fuel generalizing c with
  | zero => exact .malformed
  | succ fuel ih =>
    rw [quotedRest]
    split
    · exact .ok inside.next
    · refine (quotedSpaces_settles inside).bind fun blanks first => ?_
      refine (quotedRun_settles double _ first).bind fun run second => ?_
      exact (ih second).bind fun more last => .ok last

theorem quotedScalar_settles (inside : c.Within whole) : Scans whole (quotedScalar c) := by
  unfold quotedScalar
  refine (quotedRun_settles _ _ inside.next).bind fun run first => ?_
  exact (quotedRest_settles _ _ _ first).bind fun more last => .ok last

theorem blockSigns_settles (inside : c.Within whole) : Scans whole (blockSigns c) := by
  unfold blockSigns
  dsimp only
  have onward : ∀ (signs : Chomping × Option Nat × Cursor), signs.2.2.Within whole →
      Scans whole (if signs.2.1 == some 0 || !isSpaceOrEnd signs.2.2.current then
        .error .malformed else .ok ((signs.1, signs.2.1), signs.2.2)) := by
    intro signs behind
    split
    · exact .malformed
    · exact .ok behind
  refine onward _ ?_
  split
  · split
    · exact inside.skip 2
    · exact inside.next
  · split
    · split
      · exact inside.skip 2
      · exact inside.next
    · exact inside

theorem ignoredLine_settles (inside : c.Within whole) :
    Settles (.of whole) (fun c => c.Within whole) (ignoredLine c) := by
  unfold ignoredLine
  dsimp only
  split
  · split
    · exact .ok (inside.skipSpaces.skipWhile _).lineBreak
    · exact .malformed
  · split
    · exact .ok inside.skipSpaces.lineBreak
    · exact .malformed

theorem leadingBreaks_within (fuel deepest : Nat) (stop : Position) (inside : c.Within whole) :
    GoesOn whole (leadingBreaks fuel deepest stop c) := by
  induction fuel generalizing deepest stop c with
  | zero => exact inside
  | succ fuel ih =>
    rw [leadingBreaks]
    split
    · exact ih _ _ inside.next
    · split
      · exact ih _ _ inside.lineBreak
      · exact inside

theorem blockBreaks_within (indent fuel : Nat) (stop : Position) (inside : c.Within whole) :
    GoesOn whole (blockBreaks indent fuel stop c) := by
  induction fuel generalizing stop c with
  | zero => exact inside
  | succ fuel ih =>
    rw [blockBreaks]
    dsimp only
    split
    · exact ih _ (inside.skipIndent _).lineBreak
    · exact inside.skipIndent _

theorem blockLines_within (folded : Bool) (indent fuel : Nat) (breaks : List Char) (stop : Position)
    (inside : c.Within whole) : GoesOn whole (blockLines folded indent fuel breaks stop c) := by
  induction fuel generalizing breaks stop c with
  | zero => exact inside
  | succ fuel ih =>
    rw [blockLines]
    dsimp only
    split
    · have behind := (inside.skip (c.takeWhile (!isBreakOrEnd ·)).length).lineBreak
      generalize (c.skip (c.takeWhile (!isBreakOrEnd ·)).length).lineBreak = line at behind ⊢
      have after := blockBreaks_within indent (line.2.rest.length + 1) line.2.position behind
      generalize blockBreaks indent (line.2.rest.length + 1) line.2.position line.2 = r at after ⊢
      split
      · exact ih _ _ after
      · exact after
    · exact inside

theorem blockScalar_settles (parentIndent : Int) (inside : c.Within whole) :
    Scans whole (blockScalar parentIndent c) := by
  unfold blockScalar
  refine (blockSigns_settles inside.next).bind fun signs first => ?_
  refine (ignoredLine_settles first).bind fun c second => ?_
  obtain ⟨⟨chomping, increment⟩, before⟩ := signs
  dsimp only
  cases increment with
  | none => exact .ok (blockLines_within _ _ _ _ _ (leadingBreaks_within _ _ _ second))
  | some n => exact .ok (blockLines_within _ _ _ _ _ (blockBreaks_within _ _ _ second))

theorem plainBreaks_within (fuel : Nat) (inside : c.Within whole) : GoesOn whole (plainBreaks fuel c) := by
  induction fuel generalizing c with
  | zero => exact inside
  | succ fuel ih =>
    rw [plainBreaks]
    split
    · exact ih inside.next
    · split
      · dsimp only
        split
        · exact inside.lineBreak
        · exact ih inside.lineBreak
      · exact inside

theorem plainSpaces_within (inside : c.Within whole) : (plainSpaces c).2.2.Within whole := by
  have behind := inside.skip (c.takeWhile (· == ' ')).length
  unfold plainSpaces
  dsimp only
  split
  · split
    · exact behind.lineBreak
    · have after := plainBreaks_within
        ((c.skip (c.takeWhile (· == ' ')).length).lineBreak.2.rest.length + 1) behind.lineBreak
      split
      · next c' read =>
        rw [read] at after
        exact after
      · next breaks c' read =>
        rw [read] at after
        split
        · exact after
        · split <;> exact after
  · exact behind

theorem plainFrom_within (inFlow : Bool) (indent : Int) (fuel : Nat) (blanks : List Char) (read : Plain)
    (inside : c.Within whole) : GoesOn whole (plainFrom inFlow indent fuel blanks read c) := by
  induction fuel generalizing blanks read c with
  | zero => exact inside
  | succ fuel ih =>
    have after := plainSpaces_within (inside.skip (plainRun inFlow c.rest).length)
    rw [plainFrom]
    split
    · exact inside
    · dsimp only
      split
      · exact inside
      · split
        · exact after
        · exact ih _ _ after

/-- A run of a plain scalar stops in front of every gap. -/
theorem not_isGapOrEnd_of_mem_plainRun {inFlow : Bool} {cs : List Char} {ch : Char}
    (member : ch ∈ plainRun inFlow cs) : isGapOrEnd ch = false := by
  induction cs with
  | nil => cases member
  | cons first rest ih =>
    rw [plainRun] at member
    split at member
    · cases member
    · next full =>
      split at member
      · cases member
      · split at member
        · cases member
        · rcases List.mem_cons.mp member with rfl | later
          · simpa using full
          · exact ih later

/-- A plain scalar ends with a run, so there is no line end behind it. -/
theorem plainFrom_endsInLine (inFlow : Bool) (indent : Int) (fuel : Nat) (blanks : List Char) {read : Plain}
    (before : read.text.getLast? ≠ some '\n') :
    (plainFrom inFlow indent fuel blanks read c).1.text.getLast? ≠ some '\n' := by
  induction fuel generalizing blanks read c with
  | zero => exact before
  | succ fuel ih =>
    rw [plainFrom]
    split
    · exact before
    · dsimp only
      split
      · exact before
      · next full =>
        have ends : (read.text ++ blanks ++ plainRun inFlow c.rest).getLast? ≠ some '\n' := by
          intro last
          have nonempty : plainRun inFlow c.rest ≠ [] := by simpa using full
          rw [List.getLast?_append_of_ne_nil _ nonempty] at last
          exact absurd (not_isGapOrEnd_of_mem_plainRun (List.mem_of_getLast? last)) (by decide)
        split
        · exact ends
        · exact ih _ ends

theorem plainScalar_endsInLine (inFlow : Bool) (indent : Int) (c : Cursor) :
    (plainScalar inFlow indent c).1.text.getLast? ≠ some '\n' :=
  plainFrom_endsInLine inFlow indent _ _ (by simp)

theorem plainScalar_within (inFlow : Bool) (indent : Int) (inside : c.Within whole) :
    GoesOn whole (plainScalar inFlow indent c) :=
  plainFrom_within inFlow indent _ _ _ inside

end Scalars

end Yaml
end DocLint
