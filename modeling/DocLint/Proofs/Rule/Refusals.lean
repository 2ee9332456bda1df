import DocLint.Rule.Ruleset

/-!
# Refused rule sets

A rule set is read part by part, each by a function of its own that refuses what it does not accept
(`OnlyRefuses`). The one exception is the version, which a list or a mapping cannot be compared with: such a
rule set is of a wrong kind, and no other is (`Ruleset.ofValue_wrongKind_iff`).
-/
namespace DocLint

/-- An attempt comes to a result or is refused. -/
def OnlyRefuses {α : Type} (attempt : Except Failure α) : Prop :=
  (∃ a, attempt = .ok a) ∨ ∃ reason, attempt = .error (.refused reason)

namespace OnlyRefuses
variable {α β : Type}

theorem ok (a : α) : OnlyRefuses (.ok a) :=
  .inl ⟨a, rfl⟩

theorem refused (reason : String) : OnlyRefuses (.error (.refused reason) : Except Failure α) :=
  .inr ⟨reason, rfl⟩

theorem ne_wrongKind {attempt : Except Failure α} (refuses : OnlyRefuses attempt) :
    attempt ≠ .error .wrongKind := by
  rintro rfl
  rcases refuses with ⟨a, done⟩ | ⟨reason, refusal⟩
  · cases done
  · cases refusal

theorem bind {attempt : Except Failure α} {next : α → Except Failure β} (first : OnlyRefuses attempt)
    (others : ∀ a, OnlyRefuses (next a)) : OnlyRefuses (attempt >>= next) := by
  rcases first with ⟨a, rfl⟩ | ⟨reason, rfl⟩
  · exact others a
  · exact refused reason

theorem mapM {attempt : α → Except Failure β} (each : ∀ a, OnlyRefuses (attempt a)) (as : List α) :
    OnlyRefuses (as.mapM attempt) := by
  induction as with
  | nil => exact ok []
  | cons a as ih =>
    rw [List.mapM_cons]
    exact (each a).bind fun b => ih.bind fun bs => ok (b :: bs)

end OnlyRefuses

namespace Ruleset
open OnlyRefuses

theorem refuse_refuses {α : Type} (rule complaint : String) :
    OnlyRefuses (refuse rule complaint : Except Failure α) :=
  refused _

theorem readFormats_refuses (place : String) (raw : Option Value) :
    OnlyRefuses (readFormats place raw) := by
  unfold readFormats
  split
  · exact ok _
  · split
    · exact refused _
    · dsimp only
      split
      · exact ok _
      · exact refused _

theorem readExpression_refuses (rule : String) (v : Value) : OnlyRefuses (readExpression rule v) := by
  unfold readExpression
  split
  · exact refuse_refuses _ _
  · dsimp only
    split
    · exact refuse_refuses _ _
    · split
      · exact ok _
      · exact refuse_refuses _ _

theorem readGiven_refuses (rule : String) (raw : Value) : OnlyRefuses (readGiven rule raw) := by
  unfold readGiven
  split
  · exact refuse_refuses _ _
  · exact mapM (readExpression_refuses rule) _

theorem readOptions_refuses (rule : String) (position : Nat) (raw : Option Value) :
    OnlyRefuses (readOptions rule position raw) := by
  unfold readOptions
  split
  · exact ok _
  · split
    · exact refuse_refuses _ _
    · exact ok _

theorem readAction_refuses (registry : Registry) (rule : String) (data : Value) (position : Nat) :
    OnlyRefuses (readAction registry rule data position) := by
  unfold readAction
  split
  · exact refuse_refuses _ _
  · dsimp only
    split
    · exact refuse_refuses _ _
    · split
      · exact refuse_refuses _ _
      · exact (readOptions_refuses rule position _).bind fun options => ok _

theorem readSeverity_refuses (rule : String) (raw : Option Value) :
    OnlyRefuses (readSeverity rule raw) := by
  unfold readSeverity
  split
  · exact ok _
  · split
    · exact ok _
    · split
      · exact ok _
      · exact refuse_refuses _ _

theorem readRule_refuses (registry : Registry) (defaults : List Format) (name : String) (data : Value) :
    OnlyRefuses (readRule registry defaults name data) := by
  unfold readRule
  split
  · exact refuse_refuses _ _
  · exact refuse_refuses _ _
  · refine (mapM (fun (e : Value × Nat) => readAction_refuses registry name e.1 e.2) _).bind fun actions => ?_
    refine (readSeverity_refuses name _).bind fun severity => ?_
    dsimp only
    split
    · refine (readFormats_refuses _ _).bind fun formats => ?_
      exact (readGiven_refuses name _).bind fun given => ok _
    · refine (ok defaults).bind fun formats => ?_
      exact (readGiven_refuses name _).bind fun given => ok _

theorem readRules_refuses (registry : Registry) (defaults : List Format) (done : List (String × Rule))
    (entries : List (Scalar × Value)) : OnlyRefuses (readRules registry defaults done entries) := by
  induction entries generalizing done with
  | nil => exact ok done
  | cons e rest ih =>
    rw [readRules]
    dsimp only
    split
    · exact refused _
    · split
      · exact refused _
      · exact (readRule_refuses registry defaults _ _).bind fun rule => ih _

theorem readLocations_refuses (workingDir rule : String) (raw : Value) :
    OnlyRefuses (readLocations workingDir rule raw) := by
  unfold readLocations
  split
  · exact refused _
  · refine mapM (fun item => ?_) _
    split
    · exact ok _
    · exact refused _

theorem readDeclarations_refuses (workingDir : String) (done : Declarations)
    (entries : List (Scalar × Value)) : OnlyRefuses (readDeclarations workingDir done entries) := by
  induction entries generalizing done with
  | nil => exact ok done
  | cons e rest ih =>
    rw [readDeclarations]
    exact (readLocations_refuses workingDir _ _).bind fun locations => ih _

theorem entriesOf_refuses (raw : Option Value) (complaint : String) :
    OnlyRefuses (entriesOf raw complaint) := by
  unfold entriesOf
  split
  · exact ok _
  · split
    · exact ok _
    · exact refused _

/-- A version that can be compared with the known ones: no list and no mapping. -/
def Comparable (version : Value) : Prop :=
  match version.view with
  | .scalar _ | .set _ => True
  | .list _ | .tuple _ | .mapping _ => False

theorem readVersion_refuses {raw : Option Value}
    (comparable : ∀ version, raw = some version → Comparable version) :
    OnlyRefuses (readVersion raw) := by
  cases raw with
  | none => exact refused _
  | some version =>
    have kind := comparable version rfl
    simp only [Comparable, readVersion] at kind ⊢
    cases view : version.view with
    | scalar s =>
      dsimp only
      split
      · exact ok _
      · exact refused _
    | set members => exact refused _
    | list items | tuple items | mapping entries => simp [view] at kind

theorem readVersion_wrongKind {version : Value} (kind : ¬ Comparable version) :
    readVersion (some version) = .error .wrongKind := by
  simp only [Comparable, readVersion] at kind ⊢
  cases view : version.view with
  | scalar s | set members => simp [view] at kind
  | list items | tuple items | mapping entries => rfl

variable {registry : Registry} {workingDir : String} {base : Option String} {data : Value}

/-- A value gives a rule set or is refused, if its version can be compared. -/
theorem ofValue_refuses
    (comparable : ∀ version, data.present? "version" = some version → Comparable version) :
    OnlyRefuses (ofValue registry workingDir base data) := by
  unfold ofValue
  split
  · exact refused _
  · refine (readVersion_refuses comparable).bind fun _ => ?_
    refine (readFormats_refuses _ _).bind fun defaults => ?_
    refine (entriesOf_refuses _ _).bind fun entries => ?_
    refine (readRules_refuses registry defaults [] entries).bind fun rules => ?_
    refine (entriesOf_refuses _ _).bind fun declared => ?_
    exact (readDeclarations_refuses workingDir [] declared).bind fun suppressions => ok _

/-- A value is of a wrong kind exactly if it is a mapping with a version that cannot be compared. -/
theorem ofValue_wrongKind_iff : ofValue registry workingDir base data = .error .wrongKind ↔
    data.entries?.isSome = true ∧
      ∃ version, data.present? "version" = some version ∧ ¬ Comparable version := by
  constructor
  · intro failed
    have unrefused : ¬ OnlyRefuses (ofValue registry workingDir base data) :=
      fun refuses => refuses.ne_wrongKind failed
    cases present : data.present? "version" with
    | none => exact absurd (ofValue_refuses (by simp [present])) unrefused
    | some version =>
      refine ⟨?_, version, rfl, fun comparable => ?_⟩
      · cases entries : data.entries? with
        | none => simp [Value.present?, Value.field?, Value.get?, entries] at present
        | some entries => rfl
      · exact absurd (ofValue_refuses (by simpa [present] using comparable)) unrefused
  · rintro ⟨mapping, version, present, kind⟩
    obtain ⟨entries, mapping⟩ := Option.isSome_iff_exists.mp mapping
    simp only [ofValue, mapping, Option.isNone_some, Bool.false_eq_true, if_false, present,
      readVersion_wrongKind kind]
    rfl

end Ruleset
end DocLint
