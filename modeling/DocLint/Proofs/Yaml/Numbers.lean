import DocLint.Proofs.Number.Shortest
import DocLint.Proofs.Yaml.Scalars

/-!
# Numbers of documents

Every floating-point number that a scalar of a document stands for is in the form in which numbers are kept
(`Build.isKept_of_scalarOf?`): it is read from a decimal, or put together from such numbers with one rounding each.
-/
namespace DocLint

namespace Scalar

/-- A floating-point number, if it is one, has a property. -/
def EachReal (P : Binary64 → Prop) : Scalar → Prop
  | .float x => P x
  | _ => True

instance (P : Binary64 → Prop) [DecidablePred P] : DecidablePred (EachReal P)
  | .float x => inferInstanceAs (Decidable (P x))
  | .null | .bool _ | .int _ | .str _ | .date _ | .datetime _ | .bytes _ | .missing => .isTrue trivial

end Scalar

namespace Yaml

/-- All errors. -/
def Faults.any : Faults :=
  ⟨fun _ => True, trivial⟩

theorem settles_any {α : Type} (attempt : Except YamlError α) : Settles .any (fun _ => True) attempt := by
  cases attempt with
  | ok a => exact .ok trivial
  | error e => exact .failed trivial

namespace Build

theorem floatOf_isKept (cs : List Char) : Settles .any Binary64.IsKept (floatOf cs) := by
  unfold floatOf
  dsimp only
  split
  next read => exact .ok (Binary64.isKept_of_ofText? read)
  next => exact .failed trivial

theorem sexagesimal_isKept {parts : List Binary64} (kept : ∀ part ∈ parts, part.IsKept) :
    Settles .any Binary64.IsKept (sexagesimal parts) := by
  have onward (ahead : List Binary64) (sum : Binary64 × Nat) (keptSum : sum.1.IsKept)
      (kept : ∀ part ∈ ahead, part.IsKept) : Settles .any (fun sum => sum.1.IsKept) (ahead.foldlM addPart sum) := by
    induction ahead generalizing sum with
    | nil => exact .ok keptSum
    | cons part ahead ih =>
      rw [List.foldlM_cons]
      obtain ⟨keptPart, keptAhead⟩ := List.forall_mem_cons.mp kept
      have first : Settles .any (fun sum => sum.1.IsKept) (addPart sum part) := by
        unfold addPart
        split
        next weight known => exact .ok (keptSum.add (keptPart.scale weight))
        next => exact .failed trivial
      exact first.bind fun next keptNext => ih next keptNext keptAhead
  rw [sexagesimal_eq]
  refine (onward parts.reverse _ (Binary64.zero_isFinite false).isKept ?_).bind fun sum keptSum => .ok keptSum
  exact fun part member => kept part (List.mem_reverse.mp member)

theorem float_isKept (text : String) : Settles .any Binary64.IsKept (float text) := by
  refine (settles_any (signed _)).bind fun ⟨negative, cs⟩ _ => ?_
  have withSign {size : Binary64} (kept : size.IsKept) :
      Settles .any Binary64.IsKept (pure (if negative then size.neg else size)) := by
    refine .ok ?_
    split
    · exact kept.neg
    · exact kept
  refine .ite (fun _ => withSign trivial) fun _ => .ite (fun _ => withSign trivial) fun _ => .ite (fun _ => ?_) fun _ => ?_
  · refine (Settles.mapM fun part _ => floatOf_isKept part).bind fun parts kept => ?_
    exact (sexagesimal_isKept kept.2).bind fun _ => withSign
  · exact (floatOf_isKept cs).bind fun _ => withSign

theorem time_eachReal {P : Binary64 → Prop} (text : String) : Settles .any (Scalar.EachReal P) (time text) := by
  unfold time
  split
  · exact .failed trivial
  next t _ =>
    have zoned (clock : Schema.ClockText) (offset : Option Int) : Settles .any (Scalar.EachReal P) (do
        let date ← ofCalendar (Date.of? (digitsNat t.year) (digitsNat t.month) (digitsNat t.day))
        return .datetime (← ofCalendar (DateTime.of? date (digitsNat clock.hour) (digitsNat clock.minute)
          (digitsNat clock.second) (microseconds clock.fraction) offset))) :=
      (settles_any _).bind fun _ _ => (settles_any _).bind fun _ _ => .ok trivial
    dsimp only
    split
    · exact (settles_any _).bind fun _ _ => .ok trivial
    next clock _ =>
      split
      · exact zoned clock none
      · exact zoned clock (some 0)
      · exact (settles_any _).bind fun offset _ => zoned clock offset

/-- Whatever a text stands for under a tag, a floating-point number is in the form in which numbers are kept. -/
theorem isKept_of_scalarOf? {tag text : String} {read : String → Except YamlError Scalar}
    (known : scalarOf? tag = some read) : Settles .any (Scalar.EachReal Binary64.IsKept) (read text) := by
  unfold scalarOf? at known
  split at known
  · cases known
    exact .ok trivial
  split at known
  · cases known
    exact (settles_any (truth text)).bind fun _ _ => .ok trivial
  split at known
  · cases known
    exact (settles_any (integer text)).bind fun _ _ => .ok trivial
  split at known
  · cases known
    exact (float_isKept text).bind fun _ kept => .ok kept
  split at known
  · cases known
    exact (settles_any (binary text)).bind fun _ _ => .ok trivial
  split at known
  · cases known
    exact time_eachReal text
  split at known
  · cases known
    exact .ok trivial
  · cases known

end Build
end Yaml
end DocLint
