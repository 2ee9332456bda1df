import DocLint.Proofs.Yaml.Faults
import DocLint.Text.Case
import DocLint.Yaml.Construction
import Mathlib.Algebra.Group.Nat.Defs
import Mathlib.Data.List.Basic
import Mathlib.Tactic.SplitIfs

/-!
# Texts of scalars

A tag can be given to any text. A text that a tag is not made for is refused, with few exceptions: a truth value
that is none of its words, a number without characters, one with too many parts below sixty, and what is not
written as a time. A text that is none of these `Fits` the tag: it is read or refused (`scalarOf?_settled`). A
text that has its tag by its form fits it unless it has too many parts (`fits_plainTag`).
-/
namespace DocLint.Yaml
open Build (withoutGaps)

/-- The greatest number of parts of a floating-point number of which none counts more often than any number is
large. -/
def partLimit : Nat := 174

/-- The words for truth values in lower case. -/
def truthWords : List String := ["yes", "true", "on", "no", "false", "off"]

/-- A text that is read or refused under a tag. -/
structure Fits (tag text : String) : Prop where
  truth : tag = Schema.standard "bool" → truthWords.contains (Text.lowerAscii text) = true
  integer : tag = Schema.standard "int" → (Schema.withoutSign (withoutGaps text)).isEmpty = false
  float : tag = Schema.standard "float" →
    (withoutGaps text).isEmpty = false ∧ text.toList.count ':' < partLimit
  time : tag = Schema.standard "timestamp" →
    (Schema.time? (Text.withoutFinalNewline text.toList)).isSome = true

/-- An attempt is refused or has a result. -/
abbrev Settled {α : Type} (attempt : Except YamlError α) : Prop :=
  Settles .refusals (fun _ => True) attempt

namespace Settled
variable {α β : Type} {attempt : Except YamlError α}

theorem bind {next : α → Except YamlError β} (first : Settled attempt) (others : ∀ a, Settled (next a)) :
    Settled (attempt >>= next) :=
  Settles.bind first fun a _ => others a

theorem map {f : α → β} (settled : Settled attempt) : Settled (f <$> attempt) :=
  Settles.map settled

end Settled

theorem length_splitColons (cs : List Char) : (Schema.splitColons cs).length = cs.count ':' + 1 := by
  induction cs with
  | nil => rfl
  | cons c cs ih =>
    rw [Schema.splitColons, List.foldr_cons, ← Schema.splitColons, List.count_cons]
    cases parts : Schema.splitColons cs with
    | nil => simp [parts] at ih
    | cons part rest =>
      rw [parts] at ih
      by_cases colon : c = ':' <;> simp_all

namespace Build

theorem truth_settled {text : String} (word : truthWords.contains (Text.lowerAscii text) = true) :
    Settled (truth text) := by
  change truthWords.contains (String.ofList (text.toList.map Char.toLower)) = true at word
  unfold truth
  dsimp only
  split
  · exact .ok trivial
  · split
    · exact .ok trivial
    · simp_all [truthWords]

theorem integerIn_settled (base : Nat) (cs : List Char) : Settled (integerIn base cs) := by
  unfold integerIn
  dsimp only
  split
  · exact .failed rfl
  · split
    · exact .ok trivial
    · exact .failed rfl

/-- Characters with a sign that is told from the rest. -/
theorem signed_settles {cs : List Char} (full : cs ≠ []) :
    Settles .refusals (fun r => r.2 = Schema.withoutSign cs) (signed cs) := by
  unfold signed
  split
  · exact absurd rfl full
  · exact .ok rfl
  · exact .ok rfl
  · next minus plus =>
    refine .ok ?_
    unfold Schema.withoutSign
    split
    · exact absurd rfl (plus _)
    · exact absurd rfl (minus _)
    · rfl

theorem integer_settled {text : String} (full : (Schema.withoutSign (withoutGaps text)).isEmpty = false) :
    Settled (integer text) := by
  have gapless : withoutGaps text ≠ [] := by
    intro empty
    simp [empty, Schema.withoutSign] at full
  refine (signed_settles gapless).bind ?_
  rintro ⟨negative, cs⟩ rfl
  have inBase (base : Nat) (digits : List Char) :
      Settled (do
        let size ← integerIn base digits
        return if negative then -size else size) :=
    (integerIn_settled base digits).bind fun _ => .ok trivial
  dsimp only
  split
  · next empty => simp [empty] at full
  · exact inBase ..
  · exact inBase ..
  · exact .ok trivial
  · exact inBase ..
  · refine .ite (fun _ => ?_) fun _ => inBase ..
    exact (Settles.mapM fun part _ => integerIn_settled 10 part).bind fun _ _ => .ok trivial

theorem floatOf_settled (cs : List Char) : Settled (floatOf cs) := by
  unfold floatOf
  dsimp only
  split
  · exact .ok trivial
  · exact .failed rfl

/-- How often a part counts is among the numbers up to the limit of parts. -/
theorem nearestNat?_pow {k : Nat} (few : k < partLimit) : (Binary64.nearestNat? (60 ^ k)).isSome := by
  have all : (List.range partLimit).all fun k => (Binary64.nearestNat? (60 ^ k)).isSome := by decide +kernel
  exact List.all_eq_true.mp all k (List.mem_range.mpr few)

/-- One part is added to the sum of those behind it, with how often it counts. -/
def addPart (sum : Binary64 × Nat) (part : Binary64) : Except YamlError (Binary64 × Nat) :=
  match Binary64.nearestNat? sum.2 with
  | some weight => .ok (sum.1.add (part.scale weight), sum.2 * 60)
  | none => .error YamlError.beyondNumbers

theorem sexagesimal_eq (parts : List Binary64) :
    sexagesimal parts = do return (← parts.reverse.foldlM addPart (Binary64.zero false, 1)).1 := rfl

theorem sexagesimal_settled {parts : List Binary64} (few : parts.length ≤ partLimit) :
    Settled (sexagesimal parts) := by
  -- The part before which there are `k` ones counts `60 ^ k` times.
  have onward (k : Nat) (sum : Binary64) (ahead : List Binary64) (few : k + ahead.length ≤ partLimit) :
      Settled (ahead.foldlM addPart (sum, 60 ^ k)) := by
    induction ahead generalizing k sum with
    | nil => exact .ok trivial
    | cons part ahead ih =>
      rw [List.length_cons] at few
      obtain ⟨weight, known⟩ := Option.isSome_iff_exists.mp (nearestNat?_pow (k := k) (by omega))
      simp only [List.foldlM_cons, addPart, known, ← Nat.pow_succ]
      exact ih (k + 1) _ (by omega)
  rw [sexagesimal_eq]
  refine Settled.bind (onward 0 (Binary64.zero false) parts.reverse ?_) fun _ => .ok trivial
  simpa using few

theorem count_colon_withoutSign (cs : List Char) : (Schema.withoutSign cs).count ':' = cs.count ':' := by
  unfold Schema.withoutSign
  split <;> simp

theorem toLower_eq_colon_iff (c : Char) : c.toLower = ':' ↔ c = ':' := by
  unfold Char.toLower
  split
  · next upper =>
    rw [Char.ext_iff, Char.ext_iff, UInt32.ext_iff, UInt32.ext_iff]
    simp only [ge_iff_le, UInt32.le_iff_toNat_le] at upper
    simp at upper ⊢
    omega
  · rfl

theorem count_colon_toLower (cs : List Char) : (cs.map Char.toLower).count ':' = cs.count ':' := by
  simp [List.count, List.countP_map, Function.comp_def, toLower_eq_colon_iff, Bool.beq_eq_decide_eq]

theorem count_colon_withoutGaps (text : String) : (withoutGaps text).count ':' = text.toList.count ':' :=
  List.count_filter (by decide)

theorem float_settled {text : String} (full : (withoutGaps text).isEmpty = false)
    (few : text.toList.count ':' < partLimit) : Settled (float text) := by
  have lowered : (withoutGaps text).map Char.toLower ≠ [] := by simpa using full
  refine (signed_settles lowered).bind ?_
  rintro ⟨negative, cs⟩ rfl
  refine .ite (fun _ => .ok trivial) fun _ => .ite (fun _ => .ok trivial) fun _ => .ite (fun _ => ?_)
    fun _ => (floatOf_settled _).bind fun _ => .ok trivial
  refine (Settles.mapM fun part _ => floatOf_settled part).bind fun parts settled => ?_
  refine (sexagesimal_settled ?_).bind fun _ => .ok trivial
  rw [settled.1, length_splitColons, count_colon_withoutSign, count_colon_toLower, count_colon_withoutGaps]
  exact few

theorem ofCalendar_settled {α : Type} (r : Except CalendarError α) : Settled (ofCalendar r) := by
  cases r with
  | ok a => exact .ok trivial
  | error e => exact .failed rfl

theorem time_settled {text : String}
    (written : (Schema.time? (Text.withoutFinalNewline text.toList)).isSome = true) : Settled (time text) := by
  unfold time
  split
  · next other => simp [other] at written
  · next t _ =>
    dsimp only
    cases t.clock with
    | none => exact (ofCalendar_settled _).bind fun _ => .ok trivial
    | some clock =>
      have atOffset (offset : Option Int) :
          Settled (do
            let date ← ofCalendar (Date.of? (digitsNat t.year) (digitsNat t.month) (digitsNat t.day))
            return Scalar.datetime (← ofCalendar (DateTime.of? date (digitsNat clock.hour)
              (digitsNat clock.minute) (digitsNat clock.second) (microseconds clock.fraction) offset))) :=
        (ofCalendar_settled _).bind fun date => (ofCalendar_settled _).bind fun _ => .ok trivial
      dsimp only
      split
      · exact atOffset none
      · exact atOffset (some 0)
      · exact (ofCalendar_settled _).map.bind atOffset

theorem binary_settled (text : String) : Settled (binary text) := by
  unfold binary
  split
  · split
    · exact .ok trivial
    · exact .malformed
  · exact .malformed

/-- A text that fits a tag is read or refused under it. -/
theorem scalarOf?_settled {tag text : String} {read : String → Except YamlError Scalar}
    (known : scalarOf? tag = some read) (fit : Fits tag text) : Settled (read text) := by
  unfold scalarOf? at known
  split at known
  · cases known
    exact .ok trivial
  split at known
  · next tagged =>
    cases known
    exact (truth_settled (fit.truth (eq_of_beq tagged))).bind fun _ => .ok trivial
  split at known
  · next tagged =>
    cases known
    exact (integer_settled (fit.integer (eq_of_beq tagged))).bind fun _ => .ok trivial
  split at known
  · next tagged =>
    cases known
    obtain ⟨full, few⟩ := fit.float (eq_of_beq tagged)
    exact (float_settled full few).bind fun _ => .ok trivial
  split at known
  · cases known
    exact (binary_settled text).bind fun _ => .ok trivial
  split at known
  · next tagged =>
    cases known
    exact time_settled (fit.time (eq_of_beq tagged))
  split at known
  · cases known
    exact .ok trivial
  · cases known

end Build

/-! ## Texts of plain scalars -/

namespace Schema

theorem standard_inj {a b : String} : standard a = standard b ↔ a = b := by
  unfold standard
  exact String.append_right_inj _

/-- The forms that have the tags for which not every text fits. -/
theorem form_of_plainTag {text : String} (inLine : text.toList.getLast? ≠ some '\n') :
    (plainTag text = standard "bool" → isTruthWord text = true) ∧
    (plainTag text = standard "int" → isInteger text.toList = true) ∧
    (plainTag text = standard "float" → isFloat text.toList = true) ∧
    (plainTag text = standard "timestamp" → isTime text.toList = true) := by
  have same : Text.withoutFinalNewline text.toList = text.toList := if_neg (by simpa using inLine)
  simp only [plainTag, standard_inj, same, String.ofList_toList]
  split_ifs <;> simp_all

theorem truthWords_of_isTruthWord {text : String} (word : isTruthWord text = true) :
    truthWords.contains (Text.lowerAscii text) = true := by
  have all : ["yes", "Yes", "YES", "no", "No", "NO", "true", "True", "TRUE", "false", "False", "FALSE", "on",
      "On", "ON", "off", "Off", "OFF"].all (fun word => truthWords.contains (Text.lowerAscii word)) = true := by
    decide +kernel
  exact List.all_eq_true.mp all text (List.contains_iff_mem.mp word)

theorem ne_gap_of_isDigit {c : Char} (digit : isDigit c = true) : c ≠ '_' := by
  rintro rfl
  cases digit

/-- An integer has a digit behind its sign. -/
theorem digit_of_isInteger {cs : List Char} (form : isInteger cs = true) :
    ∃ c rest, withoutSign cs = c :: rest ∧ isDigit c = true := by
  unfold isInteger at form
  split at form
  · cases form
  · next unsigned => exact ⟨_, _, unsigned, rfl⟩
  · next unsigned => exact ⟨_, _, unsigned, rfl⟩
  · next unsigned => exact ⟨_, _, unsigned, rfl⟩
  · next unsigned => exact ⟨_, _, unsigned, rfl⟩
  · next unsigned =>
    rw [Bool.and_eq_true] at form
    exact ⟨_, _, unsigned, form.1⟩

/-- A character behind the sign stays there when the gaps are taken away. -/
theorem withoutSign_filter {cs : List Char} {p : Char → Bool} {c : Char} {rest : List Char}
    (signs : p '+' = true ∧ p '-' = true) (unsigned : withoutSign cs = c :: rest) (kept : p c = true) :
    withoutSign (cs.filter p) = c :: rest.filter p := by
  unfold withoutSign at unsigned
  split at unsigned
  · simp [signs, unsigned, kept, withoutSign]
  · simp [signs, unsigned, kept, withoutSign]
  · next plus minus =>
    subst unsigned
    rw [List.filter_cons_of_pos kept]
    unfold withoutSign
    split
    · next same => exact absurd (congrArg (· :: rest) (List.cons.inj same).1) (plus rest)
    · next same => exact absurd (congrArg (· :: rest) (List.cons.inj same).1) (minus rest)
    · rfl

theorem withoutSign_subset (cs : List Char) : withoutSign cs ⊆ cs := by
  unfold withoutSign
  split <;> simp

/-- A floating-point number has a character that is not a gap. -/
theorem full_of_isFloat {cs : List Char} (form : isFloat cs = true) : ∃ c ∈ cs, c ≠ '_' := by
  have behindSign {c : Char} {rest : List Char} (unsigned : withoutSign cs = c :: rest) (other : c ≠ '_') :
      ∃ c ∈ cs, c ≠ '_' :=
    ⟨c, withoutSign_subset cs (unsigned ▸ List.mem_cons_self), other⟩
  unfold isFloat at form
  dsimp only at form
  simp only [Bool.or_eq_true, beq_iff_eq] at form
  rcases form with (((nan | nan) | nan) | ((inf | inf) | inf) | number) | fraction
  · exact ⟨'.', by simp [nan], by decide⟩
  · exact ⟨'.', by simp [nan], by decide⟩
  · exact ⟨'.', by simp [nan], by decide⟩
  · exact behindSign inf (by decide)
  · exact behindSign inf (by decide)
  · exact behindSign inf (by decide)
  · split at number
    · next unsigned => exact behindSign unsigned (ne_gap_of_isDigit (Bool.and_eq_true_iff.mp number).1)
    · cases number
  · split at fraction
    · exact ⟨'.', List.mem_cons_self, by decide⟩
    · cases fraction

end Schema

/-- A plain scalar fits the tag of its form unless it has too many parts. -/
theorem fits_plainTag {text : String} (inLine : text.toList.getLast? ≠ some '\n')
    (few : text.toList.count ':' < partLimit) : Fits (Schema.plainTag text) text := by
  obtain ⟨truth, integer, float, time⟩ := Schema.form_of_plainTag inLine
  refine ⟨fun tagged => ?_, fun tagged => ?_, fun tagged => ⟨?_, few⟩, fun tagged => ?_⟩
  · exact Schema.truthWords_of_isTruthWord (truth tagged)
  · obtain ⟨c, rest, unsigned, digit⟩ := Schema.digit_of_isInteger (integer tagged)
    have kept : (c != '_') = true := by simpa using Schema.ne_gap_of_isDigit digit
    rw [withoutGaps, Schema.withoutSign_filter (by decide) unsigned kept]
    rfl
  · obtain ⟨c, member, other⟩ := Schema.full_of_isFloat (float tagged)
    have kept : c ∈ withoutGaps text := List.mem_filter.mpr ⟨member, by simpa using other⟩
    simp [List.ne_nil_of_mem kept]
  · have same : Text.withoutFinalNewline text.toList = text.toList := if_neg (by simpa using inLine)
    have form := time tagged
    unfold Schema.isTime at form
    rw [same]
    split at form
    · next t found => simp [found]
    · cases form

end DocLint.Yaml
