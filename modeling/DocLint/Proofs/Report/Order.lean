import DocLint.Proofs.Value.Order
import DocLint.Report.Result
import Mathlib.Data.Prod.Lex

/-!
# The order of a report

Reports list problems in the lexicographic order of what they are compared by (`Diagnostic.sorted_pairwise`), with
none lost or repeated. Problems that are not told apart stay in the order in which they were recorded
(`Diagnostic.filter_sorted`), which shows only where such problems differ (`Diagnostic.sorted_eq_of_perm`).
-/
namespace DocLint.Diagnostic

/-- What diagnostics are compared by: the source, the start of the range, the rule and the message. -/
def place (d : Diagnostic) : String ×ₗ Nat ×ₗ Nat ×ₗ String ×ₗ String :=
  toLex (d.source.getD "", toLex (d.range.start.line, toLex (d.range.start.character, toLex (d.code, d.message))))

theorem compareTexts_eq_lt_iff {s t : String} : compareTexts s t = .lt ↔ s < t := by
  rw [← Scalar.charsBefore_toList, compareTexts]
  split_ifs with before same <;> simp [before]

theorem compareTexts_eq_eq_iff {s t : String} : compareTexts s t = .eq ↔ s = t := by
  have irreflexive : Scalar.charsBefore t.toList t.toList ≠ true := fun before =>
    lt_irrefl t (Scalar.charsBefore_toList t t |>.mp before)
  rw [compareTexts]
  split_ifs with before same
  · refine iff_of_false nofun ?_
    rintro rfl
    exact irreflexive before
  · exact iff_of_true rfl same
  · exact iff_of_false nofun same

theorem compareTexts_ne_gt_iff {s t : String} : compareTexts s t ≠ .gt ↔ s ≤ t := by
  rw [le_iff_lt_or_eq, ← compareTexts_eq_lt_iff, ← compareTexts_eq_eq_iff]
  cases compareTexts s t <;> simp

/-- A comparison that goes on with another one where it finds no difference. -/
theorem then_ne_gt_iff {o p : Ordering} : o.then p ≠ .gt ↔ o = .lt ∨ o = .eq ∧ p ≠ .gt := by
  cases o <;> simp

/-- Diagnostics are compared in lexicographic order. -/
theorem comparePlaces_ne_gt_iff {d e : Diagnostic} : comparePlaces d e ≠ .gt ↔ d.place ≤ e.place := by
  unfold comparePlaces place
  simp only [then_ne_gt_iff, compareTexts_eq_lt_iff, compareTexts_eq_eq_iff, compareTexts_ne_gt_iff,
    Nat.compare_eq_lt, Nat.compare_eq_eq, Prod.Lex.toLex_le_toLex]

theorem upTo_iff {d e : Diagnostic} : (comparePlaces d e != .gt) = true ↔ d.place ≤ e.place := by
  rw [bne_iff_ne, comparePlaces_ne_gt_iff]

theorem upTo_trans (a b c : Diagnostic) :
    (comparePlaces a b != .gt) = true → (comparePlaces b c != .gt) = true → (comparePlaces a c != .gt) = true := by
  simp only [upTo_iff]
  exact le_trans

theorem upTo_total (a b : Diagnostic) : (comparePlaces a b != .gt || comparePlaces b a != .gt) = true := by
  simp only [Bool.or_eq_true, upTo_iff]
  exact le_total a.place b.place

variable (diagnostics : List Diagnostic)

theorem sorted_perm : (sorted diagnostics).Perm diagnostics :=
  List.mergeSort_perm diagnostics _

/-- Sorted diagnostics are in order. -/
theorem sorted_pairwise : (sorted diagnostics).Pairwise fun d e => d.place ≤ e.place :=
  (List.pairwise_mergeSort upTo_trans upTo_total diagnostics).imp fun {_ _} => upTo_iff.mp

/-- Diagnostics that the order does not tell apart stay as they were. -/
theorem filter_sorted (place : String ×ₗ Nat ×ₗ Nat ×ₗ String ×ₗ String) :
    (sorted diagnostics).filter (·.place = place) = diagnostics.filter (·.place = place) := by
  have tied : (diagnostics.filter (·.place = place)).Pairwise fun d e => (comparePlaces d e != .gt) = true := by
    apply List.pairwise_of_forall_mem_list
    intro d first e second
    have here : d.place = place := by simpa using (List.mem_filter.mp first).2
    have there : e.place = place := by simpa using (List.mem_filter.mp second).2
    rw [upTo_iff, here, there]
  have kept : (diagnostics.filter (·.place = place)).Sublist (sorted diagnostics) :=
    List.sublist_mergeSort upTo_trans upTo_total tied List.filter_sublist
  have within := kept.filter (·.place = place)
  rw [List.filter_filter] at within
  simp only [Bool.and_self] at within
  exact (within.eq_of_length ((sorted_perm diagnostics).filter _).length_eq.symm).symm

/-- The order in which diagnostics were recorded does not show when it tells all of them apart. -/
theorem sorted_eq_of_perm {diagnostics others : List Diagnostic} (perm : diagnostics.Perm others)
    (apart : ∀ d ∈ diagnostics, ∀ e ∈ diagnostics, d.place = e.place → d = e) :
    sorted diagnostics = sorted others := by
  have rearranged : (sorted diagnostics).Perm (sorted others) :=
    (sorted_perm diagnostics).trans (perm.trans (sorted_perm others).symm)
  refine rearranged.eq_of_pairwise (fun d e first second below above => ?_) (sorted_pairwise diagnostics)
    (sorted_pairwise others)
  have here := (sorted_perm diagnostics).mem_iff.mp first
  have there := perm.mem_iff.mpr ((sorted_perm others).mem_iff.mp second)
  exact apart d here e there (le_antisymm below above)

end DocLint.Diagnostic
