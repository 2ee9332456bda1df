import DocLint.Proofs.Suppression.Pivot
import DocLint.Rule.Ruleset
import Mathlib.Data.List.DropRight

/-!
# Accepted rule sets

What is known of a rule set that has been read. Each reader accepts only what is written as it should be
(`WritesFormats`, `WritesAction`, `WritesRule`), so every rule is what is written of it last under its name and is
ready to be run, and the suppressed locations can be read from any directory (`Ruleset.accepted_wellFormed`).
Rules and suppressions are both read into a list in which later entries take the place of earlier ones; after such a
reading the list holds what the last entry under each name gives (`mem_putEach`).
-/
namespace DocLint

namespace Text

theorem trimChars_eq (cs : List Char) : trimChars cs = (cs.dropWhile isBlank).rdropWhile isBlank :=
  rfl

/-- There are no blanks to be dropped twice. -/
@[simp] theorem trim_trim (s : String) : trim (trim s) = trim s := by
  simp only [trim, String.toList_ofList, trimChars_eq]
  generalize front : s.toList.dropWhile isBlank = rest
  have begins : rest.dropWhile isBlank = rest := by
    rw [← front, List.dropWhile_idempotent]
  have kept : (rest.rdropWhile isBlank).dropWhile isBlank = rest.rdropWhile isBlank := by
    cases shape : rest.rdropWhile isBlank with
    | nil => rfl
    | cons c cs =>
      -- the first character that is kept is the first there was
      obtain ⟨behind, whole⟩ := List.rdropWhile_prefix isBlank rest
      rw [← whole, shape, List.dropWhile_eq_self_iff] at begins
      exact List.dropWhile_cons_of_neg (by simpa using begins)
  rw [kept, List.rdropWhile_idempotent]

end Text

namespace Rule

/-- A rule is ready to be run with the checks of a registry: it has expressions, which are without blanks around
them and start at the root; it is precompiled exactly if all of them compile, and then holds what they compile to, in
their order; and the checks of its actions are those of the registry. -/
structure IsReady (registry : Registry) (r : Rule) : Prop where
  nonempty : r.given ≠ []
  rooted : ∀ e ∈ r.given, Text.trim e = e ∧ e.toList.head? = some '$'
  precompiled : r.isPrecompiled = true ↔ ∀ e ∈ r.given, (CompiledPath.ofExpression? e).isSome = true
  compiled : r.isPrecompiled = true → r.given.map CompiledPath.ofExpression? = r.expressions.map some
  checks : ∀ a ∈ r.actions, registry.lookup a.function = some a.check

variable {r : Rule}

@[simp] theorem given_compile : r.compile.given = r.given := by
  unfold compile
  split <;> rfl

@[simp] theorem actions_compile : r.compile.actions = r.actions := by
  unfold compile
  split <;> rfl

theorem isPrecompiled_compile : r.compile.isPrecompiled = true ↔
    ∀ e ∈ r.given, (CompiledPath.ofExpression? e).isSome = true := by
  rw [← isSome_mapM_iff, compile]
  cases r.given.mapM CompiledPath.ofExpression? <;> simp [isPrecompiled]

theorem expressions_compile (compiles : r.compile.isPrecompiled = true) :
    r.given.map CompiledPath.ofExpression? = r.compile.expressions.map some := by
  rw [← mapM_eq_some_iff]
  unfold compile at compiles ⊢
  cases all : r.given.mapM CompiledPath.ofExpression? with
  | none => simp [all, isPrecompiled] at compiles
  | some expressions => rfl

end Rule

namespace Ruleset

/-! ### What is written -/

/-- The entries of a mapping that may be left out. -/
def WritesEntries (raw : Option Value) (entries : List (Scalar × Value)) : Prop :=
  (raw = none ∧ entries = []) ∨ ∃ v, raw = some v ∧ v.entries? = some entries

/-- The formats that are written: none if nothing is or null, or those whose names are in a list, in which all are
names of formats. -/
def WritesFormats (raw : Option Value) (formats : List Format) : Prop :=
  ((∀ v, raw = some v → v.isNull = true) ∧ formats = []) ∨
    ∃ v items, raw = some v ∧ v.items? = some items ∧ (∀ item ∈ items, ∃ f : Format, f.name = item.text) ∧
      ∀ f, f ∈ formats ↔ ∃ item ∈ items, item.text = f.name

/-- An expression that is written as a text, perhaps with blanks around it. -/
def WritesExpression (v : Value) (e : String) : Prop :=
  ∃ written, v.string? = some written ∧ e = Text.trim written

/-- An action that is written as a mapping. -/
structure WritesAction (registry : Registry) (data : Value) (a : Action) : Prop where
  mapping : data.entries?.isSome = true
  named : a.function ≠ ""
  function : (data.field? "function").bind Value.string? = some a.function
  check : registry.lookup a.function = some a.check
  field : a.field = (data.present? "field").map Value.text
  options : (data.present? "functionOptions" = none ∧ a.options = none) ∨
    ∃ v entries, data.present? "functionOptions" = some v ∧ v.entries? = some entries ∧
      a.options = if entries.isEmpty then none else some v.copied

/-- A severity that turns a rule off: false, or the word in any case. -/
def TurnsOff (severity : Value) : Prop :=
  severity.scalar? = some (.bool false) ∨ Text.lowerAscii severity.text = "off"

/-- A rule that is written as a mapping. Switches that are left out are on, and a rule that is turned off by its
severity is not enabled, whatever its switch. -/
structure WritesRule (registry : Registry) (defaults : List Format) (name : String) (data : Value)
    (r : Rule) : Prop where
  name : r.name = name
  given : ∃ raw, data.field? "given" = some raw ∧ List.Forall₂ WritesExpression (oneOrMore raw) r.given
  actions : ∃ raw, data.field? "then" = some raw ∧
    List.Forall₂ (WritesAction registry) (oneOrMore raw) r.actions
  description : r.description = ((data.field? "description").map Value.text).getD ""
  message : r.message = (data.present? "message").map Value.text
  severity : (∀ v, data.field? "severity" = some v → ¬TurnsOff v → Severity.ofValue v = .ok r.severity) ∧
    ((∀ v, data.field? "severity" = some v → TurnsOff v) → r.severity = .warning)
  enabled : r.enabled = true ↔ (∀ v, data.field? "severity" = some v → ¬TurnsOff v) ∧
    ∀ v, data.field? "enabled" = some v → v.isTrue = true
  formats : (data.field? "formats" = none ∧ r.formats = defaults) ∨
    ∃ raw, data.field? "formats" = some raw ∧ WritesFormats (some raw) r.formats
  resolved : r.resolved = true ↔ ∀ v, data.field? "resolved" = some v → v.isTrue = true
  documentationUrl : r.documentationUrl = (data.present? "documentationUrl").map Value.text

/-- What is written of a rule does not say how its nodes are found. -/
theorem WritesRule.compile {registry : Registry} {defaults : List Format} {name : String} {data : Value}
    {r : Rule} (writes : WritesRule registry defaults name data r) :
    WritesRule registry defaults name data r.compile := by
  obtain ⟨named, given, actions, description, message, severity, enabled, formats, resolved, url⟩ := writes
  unfold Rule.compile
  split <;>
    exact ⟨named, given, actions, description, message, severity, enabled, formats, resolved, url⟩

/-! ### What the readers accept -/

section
variable {registry : Registry} {defaults : List Format} {place rule : String} {data raw : Value}

theorem writesFormats_of_readFormats {raw : Option Value} {formats : List Format}
    (ok : readFormats place raw = .ok formats) : WritesFormats raw formats := by
  unfold readFormats at ok
  split at ok
  case h_1 absent =>
    cases ok
    refine .inl ⟨fun v written => ?_, rfl⟩
    simpa [written] using absent
  case h_2 v present =>
    split at ok
    · cases ok
    case h_2 items list =>
      dsimp only at ok
      split at ok
      case isFalse => cases ok
      case isTrue known =>
        cases ok
        rw [Option.filter_eq_some_iff] at present
        refine .inr ⟨v, items, present.1, list, fun item member => ?_, fun f => ?_⟩
        · have named : (Format.ofName? item.text).isSome = true := by
            simp only [List.isEmpty_iff, List.filter_eq_nil_iff, List.mem_map, forall_exists_index, and_imp,
              forall_apply_eq_imp_iff₂] at known
            exact Option.isSome_iff_ne_none.mpr (by simpa using known item member)
          obtain ⟨f, found⟩ := Option.isSome_iff_exists.mp named
          exact ⟨f, by simpa using List.find?_some found⟩
        · have all : f ∈ Format.all := by cases f <;> decide
          simp [all]

theorem writesExpression_of_readExpression {e : String} (ok : readExpression rule raw = .ok e) :
    WritesExpression raw e ∧ e.toList.head? = some '$' := by
  unfold readExpression at ok
  split at ok
  · cases ok
  case h_2 written text =>
    dsimp only at ok
    split at ok
    · cases ok
    · split at ok
      case isTrue root =>
        cases ok
        refine ⟨⟨written, text, rfl⟩, ?_⟩
        obtain ⟨rest, whole⟩ := String.startsWith_string_iff.mp root
        rw [← whole]
        rfl
      case isFalse => cases ok

theorem writesExpressions_of_readGiven {given : List String} (ok : readGiven rule raw = .ok given) :
    given ≠ [] ∧ List.Forall₂ WritesExpression (oneOrMore raw) given ∧
      ∀ e ∈ given, Text.trim e = e ∧ e.toList.head? = some '$' := by
  unfold readGiven at ok
  split at ok
  case h_1 => cases ok
  case h_2 expressions nonempty =>
    have each := forall₂_of_mapM_ok ok
    refine ⟨?_, each.imp fun _ _ read => (writesExpression_of_readExpression read).1, fun e member => ?_⟩
    · rintro rfl
      exact nonempty (List.forall₂_nil_right_iff.mp each)
    · obtain ⟨v, _, read⟩ := (mem_mapM_ok ok e).mp member
      obtain ⟨⟨written, _, rfl⟩, root⟩ := writesExpression_of_readExpression read
      exact ⟨Text.trim_trim written, root⟩

theorem writesOptions_of_readOptions {raw options : Option Value} {position : Nat}
    (ok : readOptions rule position raw = .ok options) : (raw = none ∧ options = none) ∨
    ∃ v entries, raw = some v ∧ v.entries? = some entries ∧
      options = if entries.isEmpty then none else some v.copied := by
  unfold readOptions at ok
  split at ok
  · cases ok
    exact .inl ⟨rfl, rfl⟩
  case h_2 v =>
    split at ok
    · cases ok
    case h_2 entries mapping =>
      cases ok
      exact .inr ⟨v, entries, rfl, mapping, rfl⟩

theorem writesAction_of_readAction {a : Action} {position : Nat}
    (ok : readAction registry rule data position = .ok a) : WritesAction registry data a := by
  unfold readAction at ok
  split at ok
  · cases ok
  case isFalse mapping =>
    dsimp only at ok
    split at ok
    · cases ok
    case isFalse named =>
      split at ok
      · cases ok
      case h_2 check found =>
        obtain ⟨options, read, rfl⟩ := exists_of_bind_pure ok
        refine ⟨?_, ?_, ?_, found, rfl, ?_⟩
        · simpa [Option.isSome_iff_ne_none] using mapping
        · simpa using named
        · cases given : (data.field? "function").bind Value.string? with
          | none => simp [given] at named
          | some function => simp
        · exact writesOptions_of_readOptions read

theorem isOff_iff {severity : Value} : isOff severity = true ↔ TurnsOff severity := by
  simp [isOff, TurnsOff]

/-- No severity is read exactly if the rule is turned off. -/
theorem severity_of_readSeverity {raw : Option Value} {severity : Option Severity}
    (ok : readSeverity rule raw = .ok severity) :
    (severity.isSome = true ↔ ∀ v, raw = some v → ¬TurnsOff v) ∧
      (∀ v, raw = some v → ¬TurnsOff v → Severity.ofValue v = .ok (severity.getD .warning)) ∧
      ((∀ v, raw = some v → TurnsOff v) → severity.getD .warning = .warning) := by
  unfold readSeverity at ok
  split at ok
  · cases ok
    simp
  case h_2 v =>
    split at ok
    case isTrue off =>
      rw [isOff_iff] at off
      cases ok
      simp [off]
    case isFalse on =>
      rw [isOff_iff] at on
      split at ok
      case h_1 s read =>
        cases ok
        simp [on, read]
      case h_2 => cases ok

/-- A switch is on if there is none, or by its truth. -/
theorem isOn_iff {raw : Option Value} : isOn raw = true ↔ ∀ v, raw = some v → v.isTrue = true := by
  cases raw <;> simp [isOn]

/-- A rule that is read is what is written, and is ready to be run. -/
theorem writesRule_of_readRule {name : String} {r : Rule}
    (ok : readRule registry defaults name data = .ok r) :
    WritesRule registry defaults name data r ∧ r.IsReady registry := by
  unfold readRule at ok
  split at ok
  · cases ok
  · cases ok
  case h_3 given steps givenField stepsField =>
    obtain ⟨actions, readActions, ok⟩ := exists_of_bind_ok ok
    obtain ⟨severity, readSeverity, ok⟩ := exists_of_bind_ok ok
    dsimp only at ok
    obtain ⟨formats, writesFormats, ok⟩ : ∃ formats,
        ((data.field? "formats" = none ∧ formats = defaults) ∨
          ∃ raw, data.field? "formats" = some raw ∧ WritesFormats (some raw) formats) ∧ _ := by
      split at ok
      case h_1 raw field =>
        obtain ⟨formats, readFormats, ok⟩ := exists_of_bind_ok ok
        exact ⟨formats, .inr ⟨raw, field, writesFormats_of_readFormats readFormats⟩, ok⟩
      case h_2 absent =>
        exact ⟨defaults, .inl ⟨absent, rfl⟩, ok⟩
    obtain ⟨expressions, readGiven, rfl⟩ := exists_of_bind_pure ok
    obtain ⟨nonempty, written, rooted⟩ := writesExpressions_of_readGiven readGiven
    obtain ⟨on, graveness, off⟩ := severity_of_readSeverity readSeverity
    have each : List.Forall₂ (WritesAction registry) (oneOrMore steps) actions := by
      rw [← List.zipIdx_map_fst 0 (oneOrMore steps), List.forall₂_map_left_iff]
      exact (forall₂_of_mapM_ok readActions).imp fun _ _ read => writesAction_of_readAction read
    refine ⟨WritesRule.compile ?_, ?_⟩
    · exact
        { name := rfl
          given := ⟨given, givenField, written⟩
          actions := ⟨steps, stepsField, each⟩
          description := rfl
          message := rfl
          severity := ⟨graveness, off⟩
          enabled := by rw [Bool.and_eq_true, on, isOn_iff]
          formats := writesFormats
          resolved := isOn_iff
          documentationUrl := rfl }
    · refine ⟨by simpa using nonempty, by simpa using rooted, ?_, fun compiles => ?_, ?_⟩
      · rw [Rule.isPrecompiled_compile, Rule.given_compile]
      · rw [Rule.given_compile, Rule.expressions_compile compiles]
      · intro a member
        rw [Rule.actions_compile] at member
        obtain ⟨e, _, read⟩ := (mem_mapM_ok readActions a).mp member
        exact (writesAction_of_readAction read).check

/-- Locations are kept as they are written, and can be read. -/
theorem written_of_readLocations {workingDir : String} {written : List String}
    (ok : readLocations workingDir rule raw = .ok written) :
    (∃ items, raw.items? = some items ∧ written = items.map Value.text) ∧
      ∀ location ∈ written, ∃ l, Location.parse workingDir none location = .ok l := by
  unfold readLocations at ok
  split at ok
  · cases ok
  case h_2 items list =>
    have each : List.Forall₂ (fun item location => item.text = location ∧
        ∃ l, Location.parse workingDir none location = .ok l) items written := by
      refine (forall₂_of_mapM_ok ok).imp fun item location read => ?_
      split at read
      case h_1 l legible =>
        cases read
        exact ⟨rfl, l, legible⟩
      case h_2 => cases read
    refine ⟨⟨items, list, ?_⟩, fun location member => ?_⟩
    · have same := List.forall₂_map_left_iff.mpr (each.imp fun _ _ read => read.1)
      rw [List.forall₂_eq_eq_eq] at same
      exact same.symm
    · obtain ⟨i, here⟩ := List.mem_iff_getElem?.mp member
      obtain ⟨_, _, _, legible⟩ := exists_getElem?_of_forall₂ each here
      exact legible

theorem writesEntries_of_entriesOf {raw : Option Value} {complaint : String}
    {entries : List (Scalar × Value)} (ok : entriesOf raw complaint = .ok entries) :
    WritesEntries raw entries := by
  unfold entriesOf at ok
  split at ok
  · cases ok
    exact .inl ⟨rfl, rfl⟩
  case h_2 v =>
    split at ok
    case h_1 entries mapping =>
      cases ok
      exact .inr ⟨v, rfl, mapping⟩
    case h_2 => cases ok

end

/-! ### Entries that take the place of earlier ones -/

section
variable {α : Type} {entries : List (Scalar × Value)} {done stored : List (String × α)}

/-- The entries of a list under their names, read one after the other. -/
def putEach (read : String → Value → Except Failure α) (done : List (String × α))
    (entries : List (Scalar × Value)) : Except Failure (List (String × α)) :=
  entries.foldlM (fun done e => do return put done e.1.text (← read e.1.text e.2)) done

/-- What a list of entries has last under a name. -/
def HasLast (entries : List (Scalar × Value)) (name : String) (v : Value) : Prop :=
  ∃ front key back, entries = front ++ (key, v) :: back ∧ key.text = name ∧ ∀ e ∈ back, e.1.text ≠ name

theorem keys_put (done : List (String × α)) (key : String) (x : α) :
    (put done key x).map Prod.fst =
      if key ∈ done.map Prod.fst then done.map Prod.fst else done.map Prod.fst ++ [key] := by
  have known : (done.any fun e => e.1 == key) = true ↔ key ∈ done.map Prod.fst := by simp
  unfold put
  simp only [known]
  split
  · rw [List.map_map]
    refine List.map_congr_left fun e _ => ?_
    by_cases same : e.1 = key <;> simp [same]
  · simp

/-- No name occurs twice by putting an element. -/
theorem nodup_keys_put (unique : (done.map Prod.fst).Nodup) (key : String) (x : α) :
    ((put done key x).map Prod.fst).Nodup := by
  rw [keys_put]
  split
  case isTrue => exact unique
  case isFalse new => exact unique.append (List.nodup_singleton key) (by simpa using new)

theorem mem_put_iff {key name : String} {x y : α} :
    (name, y) ∈ put done key x ↔ (name = key ∧ y = x) ∨ (name ≠ key ∧ (name, y) ∈ done) := by
  unfold put
  split
  case isTrue known =>
    obtain ⟨e, member, same⟩ := List.any_eq_true.mp known
    obtain rfl : e.1 = key := by simpa using same
    rw [List.mem_map]
    constructor
    · rintro ⟨other, among, found⟩
      split at found <;> simp_all
    · rintro (⟨rfl, rfl⟩ | ⟨different, among⟩)
      · exact ⟨e, member, by simp⟩
      · exact ⟨(name, y), among, by simp [different]⟩
  case isFalse new =>
    have absent : ∀ z, (key, z) ∉ done := by simpa using new
    by_cases same : name = key
    · subst same
      simp [absent]
    · simp [same]

theorem not_hasLast_nil {name : String} {v : Value} : ¬HasLast [] name v := by
  rintro ⟨front, key, back, none, _⟩
  simp at none

/-- What one more entry in front has last under a name: what the others have, or its own if they have none. -/
theorem hasLast_cons_iff {e : Scalar × Value} {name : String} {v : Value} :
    HasLast (e :: entries) name v ↔
      HasLast entries name v ∨ (e.1.text = name ∧ e.2 = v ∧ ∀ other ∈ entries, other.1.text ≠ name) := by
  constructor
  · rintro ⟨front, key, back, whole, named, later⟩
    cases front with
    | nil =>
      obtain ⟨rfl, rfl⟩ := List.cons.inj whole
      exact .inr ⟨named, rfl, later⟩
    | cons other front => exact .inl ⟨front, key, back, (List.cons.inj whole).2, named, later⟩
  · rintro (⟨front, key, back, rfl, named, later⟩ | ⟨named, rfl, later⟩)
    · exact ⟨e :: front, key, back, rfl, named, later⟩
    · exact ⟨[], e.1, entries, rfl, named, later⟩

/-- The names of what entries are read into are those of the entries and those that were there before. -/
theorem mem_keys_putEach {read : String → Value → Except Failure α}
    (ok : putEach read done entries = .ok stored) (name : String) :
    name ∈ stored.map Prod.fst ↔ name ∈ done.map Prod.fst ∨ ∃ e ∈ entries, e.1.text = name := by
  induction entries generalizing done with
  | nil =>
    cases ok
    simp
  | cons e rest ih =>
    rw [putEach, List.foldlM_cons] at ok
    obtain ⟨more, step, ok⟩ := exists_of_bind_ok ok
    obtain ⟨x, _, rfl⟩ := exists_of_bind_pure step
    have here : name ∈ (put done e.1.text x).map Prod.fst ↔ name ∈ done.map Prod.fst ∨ e.1.text = name := by
      rw [keys_put]
      split
      case isTrue known => exact ⟨.inl, fun among => among.elim id fun same => same ▸ known⟩
      case isFalse => rw [List.mem_append, List.mem_singleton, eq_comm]
    rw [ih ok, here, or_assoc]
    simp

/-- What entries are read into holds what the last entry under each name gives, and what it held before under other
names; no name occurs twice. -/
theorem mem_putEach {read : String → Value → Except Failure α} (ok : putEach read done entries = .ok stored)
    (unique : (done.map Prod.fst).Nodup) :
    (stored.map Prod.fst).Nodup ∧ ∀ name x, (name, x) ∈ stored ↔
      (∃ v, HasLast entries name v ∧ read name v = .ok x) ∨
        ((∀ e ∈ entries, e.1.text ≠ name) ∧ (name, x) ∈ done) := by
  induction entries generalizing done with
  | nil =>
    cases ok
    exact ⟨unique, fun name x => by simp [not_hasLast_nil]⟩
  | cons e rest ih =>
    rw [putEach, List.foldlM_cons] at ok
    obtain ⟨more, step, ok⟩ := exists_of_bind_ok ok
    obtain ⟨x, first, rfl⟩ := exists_of_bind_pure step
    obtain ⟨unique, all⟩ := ih ok (nodup_keys_put unique e.1.text x)
    refine ⟨unique, fun name y => ?_⟩
    rw [all, mem_put_iff, List.forall_mem_cons]
    simp only [hasLast_cons_iff]
    constructor
    · rintro (⟨v, last, here⟩ | ⟨later, ⟨rfl, rfl⟩ | ⟨other, kept⟩⟩)
      · exact .inl ⟨v, .inl last, here⟩
      · exact .inl ⟨e.2, .inr ⟨rfl, rfl, later⟩, first⟩
      · exact .inr ⟨⟨Ne.symm other, later⟩, kept⟩
    · rintro (⟨v, last | ⟨rfl, rfl, later⟩, here⟩ | ⟨⟨other, later⟩, kept⟩)
      · exact .inl ⟨v, last, here⟩
      · exact .inr ⟨later, .inl ⟨rfl, Except.ok.inj (here.symm.trans first)⟩⟩
      · exact .inr ⟨later, .inr ⟨Ne.symm other, kept⟩⟩

end

/-! ### Rule sets -/

section
variable {registry : Registry} {defaults : List Format} {workingDir : String} {base : Option String}
  {data : Value}

/-- Reads what is written of a rule under its name. -/
def readEntry (registry : Registry) (defaults : List Format) (name : String) (data : Value) :
    Except Failure Rule := do
  if (Text.trim name).isEmpty then .error (.refused "ruleset: rule names must be non-empty")
  if data.entries?.isNone then .error (.refused s!"ruleset: rule '{name}' must be a mapping")
  readRule registry defaults name data

theorem readRules_eq_putEach (done : List (String × Rule)) (entries : List (Scalar × Value)) :
    readRules registry defaults done entries = putEach (readEntry registry defaults) done entries := by
  induction entries generalizing done with
  | nil => rfl
  | cons e rest ih =>
    rw [readRules, putEach, List.foldlM_cons, readEntry]
    simp only [ih]
    split
    · rfl
    · split
      · rfl
      · cases readRule registry defaults e.1.text e.2 <;> rfl

theorem readDeclarations_eq_putEach (done : Declarations) (entries : List (Scalar × Value)) :
    readDeclarations workingDir done entries = putEach (readLocations workingDir) done entries := by
  induction entries generalizing done with
  | nil => rfl
  | cons e rest ih =>
    rw [readDeclarations, putEach, List.foldlM_cons]
    simp only [ih]
    cases readLocations workingDir e.1.text e.2 <;> rfl

theorem readRule_of_readEntry {name : String} {r : Rule} (ok : readEntry registry defaults name data = .ok r) :
    readRule registry defaults name data = .ok r := by
  dsimp only [readEntry] at ok
  split at ok
  · cases ok
  · split at ok
    · cases ok
    · exact ok

/-- The rules that are read, each under its name: for every name of an entry, what its last entry writes. -/
theorem rules_of_readRules {entries : List (Scalar × Value)} {stored : List (String × Rule)}
    (ok : readRules registry defaults [] entries = .ok stored) :
    stored.map Prod.fst = stored.map (·.2.name) ∧ (stored.map Prod.fst).Nodup ∧
      (∀ name, name ∈ stored.map Prod.fst ↔ ∃ e ∈ entries, e.1.text = name) ∧
      ∀ name r, (name, r) ∈ stored →
        ∃ v, HasLast entries name v ∧ WritesRule registry defaults name v r ∧ r.IsReady registry := by
  rw [readRules_eq_putEach] at ok
  obtain ⟨unique, all⟩ := mem_putEach ok List.nodup_nil
  have written : ∀ name r, (name, r) ∈ stored →
      ∃ v, HasLast entries name v ∧ WritesRule registry defaults name v r ∧ r.IsReady registry := by
    intro name r member
    obtain ⟨v, last, read⟩ := ((all name r).mp member).resolve_right (by simp)
    exact ⟨v, last, writesRule_of_readRule (readRule_of_readEntry read)⟩
  refine ⟨List.map_congr_left fun e member => ?_, unique, fun name => ?_, written⟩
  · obtain ⟨_, _, writes, _⟩ := written e.1 e.2 member
    exact writes.name.symm
  · rw [mem_keys_putEach ok]
    simp

/-- The suppressions that are read: for every name of an entry, the texts of its last list, all of them legible. -/
theorem suppressions_of_readDeclarations {entries : List (Scalar × Value)} {d : Declarations}
    (ok : readDeclarations workingDir [] entries = .ok d) :
    (d.map Prod.fst).Nodup ∧
      (∀ name written, (name, written) ∈ d → ∃ v items, HasLast entries name v ∧ v.items? = some items ∧
        written = items.map Value.text) ∧
      d.Legible workingDir none := by
  rw [readDeclarations_eq_putEach] at ok
  obtain ⟨unique, all⟩ := mem_putEach ok List.nodup_nil
  have read : ∀ name written, (name, written) ∈ d →
      ∃ v, HasLast entries name v ∧ readLocations workingDir name v = .ok written := by
    intro name written member
    exact ((all name written).mp member).resolve_right (by simp)
  refine ⟨unique, fun name written member => ?_, fun declared member => ?_⟩
  · obtain ⟨v, last, locations⟩ := read name written member
    obtain ⟨⟨items, list, same⟩, _⟩ := written_of_readLocations locations
    exact ⟨v, items, last, list, same⟩
  · obtain ⟨v, _, locations⟩ := read declared.1 declared.2 member
    exact (written_of_readLocations locations).2

/-- What is read of a mapping: its formats, its rules and its suppressions. -/
theorem parts_of_ofValue {rs : Ruleset} (ok : ofValue registry workingDir base data = .ok rs) :
    ∃ defaults entries stored declared, WritesFormats (data.field? "formats") defaults ∧
      WritesEntries (data.field? "rules") entries ∧ readRules registry defaults [] entries = .ok stored ∧
      WritesEntries (data.present? "except") declared ∧
      readDeclarations workingDir [] declared = .ok rs.suppressions ∧ rs.rules = stored.map (·.2) := by
  unfold ofValue at ok
  split at ok
  · cases ok
  · dsimp only at ok
    obtain ⟨_, _, ok⟩ := exists_of_bind_ok ok
    obtain ⟨defaults, readFormats, ok⟩ := exists_of_bind_ok ok
    obtain ⟨entries, rules, ok⟩ := exists_of_bind_ok ok
    obtain ⟨stored, readRules, ok⟩ := exists_of_bind_ok ok
    obtain ⟨declared, except, ok⟩ := exists_of_bind_ok ok
    obtain ⟨suppressions, readDeclarations, rfl⟩ := exists_of_bind_pure ok
    exact ⟨defaults, entries, stored, declared, writesFormats_of_readFormats readFormats,
      writesEntries_of_entriesOf rules, readRules, writesEntries_of_entriesOf except, readDeclarations, rfl⟩

/-- An accepted rule set is well-formed. No two of its rules have one name, and their names are the texts of the keys
of the rules that are written; every rule is what is written last under its name, and is ready to be run with the
checks of the registry. No rule is declared twice to have suppressed locations, and from any directory, whatever
rules there are, each of them gets the locations of its own declaration, in their order, unless there are none;
nothing else is suppressed. -/
theorem accepted_wellFormed {rs : Ruleset} (accepted : ofValue registry workingDir base data = .ok rs) :
    (∃ defaults entries, WritesFormats (data.field? "formats") defaults ∧
      WritesEntries (data.field? "rules") entries ∧
      (rs.rules.map Rule.name).Nodup ∧
      (∀ name, name ∈ rs.rules.map Rule.name ↔ ∃ e ∈ entries, e.1.text = name) ∧
      ∀ r ∈ rs.rules, ∃ v, HasLast entries r.name v ∧ WritesRule registry defaults r.name v r ∧
        r.IsReady registry) ∧
    (∃ declared, WritesEntries (data.present? "except") declared ∧
      (rs.suppressions.map Prod.fst).Nodup ∧
      ∀ name written, (name, written) ∈ rs.suppressions → ∃ v items, HasLast declared name v ∧
        v.items? = some items ∧ written = items.map Value.text) ∧
    ∀ (workingDir' : String) (base' : Option String) (rules : List String), ∃ suppressions,
      (rs.suppressions.pivot workingDir' base' rules).2 = .ok suppressions ∧
      (suppressions.map Prod.fst).Nodup ∧
      ∀ name locations, (name, locations) ∈ suppressions ↔ name ∈ rules ∧
        ∃ written, (name, written) ∈ rs.suppressions ∧ written ≠ [] ∧
          written.mapM (Location.parse workingDir' base') = .ok locations := by
  obtain ⟨defaults, entries, stored, declared, formats, rules, readRules, except, readDeclarations, all⟩ :=
    parts_of_ofValue accepted
  obtain ⟨named, unique, names, written⟩ := rules_of_readRules readRules
  obtain ⟨once, lists, legible⟩ := suppressions_of_readDeclarations readDeclarations
  have sameNames : rs.rules.map Rule.name = stored.map Prod.fst := by
    rw [all, named, List.map_map]
    rfl
  refine ⟨⟨defaults, entries, formats, rules, sameNames ▸ unique, sameNames ▸ names, fun r member => ?_⟩,
    ⟨declared, except, once, lists⟩, fun workingDir' base' loaded => ?_⟩
  · obtain ⟨⟨name, r⟩, among, rfl⟩ := List.mem_map.mp (all ▸ member)
    obtain ⟨v, last, writes, ready⟩ := written name r among
    obtain rfl : r.name = name := writes.name
    exact ⟨v, last, writes, ready⟩
  · have anywhere : rs.suppressions.Legible workingDir' base' := fun declared member location there => by
      obtain ⟨l, read⟩ := legible declared member location there
      exact Location.exists_parse_ok read
    obtain ⟨suppressions, read⟩ := anywhere.pivot_ok loaded
    exact ⟨suppressions, read, once.sublist (Declarations.keys_pivot_sublist read),
      Declarations.mem_pivot_iff read⟩

end

/-- What is written of a rule that is turned off by a bare `off`, with a location in a file beside the rules. -/
def quietRules : Value :=
  ⟨⟨#[.mapping [(.str "version", .scalar (.int 1)), (.str "rules", .container 1), (.str "except", .container 4)],
      .mapping [(.str "title", .container 2)],
      .mapping [(.str "given", .scalar (.str " $.info ")), (.str "severity", .scalar (.bool false)),
        (.str "then", .container 3)],
      .mapping [(.str "function", .scalar (.str "truthy"))],
      .mapping [(.str "title", .container 5)],
      .list [.scalar (.str "doc.yaml#/info")]]⟩, .container 0⟩

theorem quietRules_wellFormed :
    ∃ rs, ofValue Registry.core "/work" none quietRules = .ok rs ∧
      (∃ r ∈ rs.rules, r.name = "title" ∧ r.enabled = false ∧ r.IsReady Registry.core) ∧
      ∃ suppressions, (rs.suppressions.pivot "/work" (some "api") ["title"]).2 = .ok suppressions ∧
        ("title", [⟨some "/work/api/doc.yaml", ["info"]⟩]) ∈ suppressions := by
  have reads : ((ofValue Registry.core "/work" none quietRules).toOption.map fun rs =>
      (rs.rules.map fun r => (r.name, r.enabled), rs.suppressions)) =
      some ([("title", false)], [("title", ["doc.yaml#/info"])]) := by
    decide +kernel
  obtain ⟨rs, accepted, known⟩ := exists_ok_of_toOption reads
  obtain ⟨rules, suppressed⟩ := Prod.mk.inj known
  obtain ⟨⟨defaults, entries, _, _, _, _, ready⟩, _, pivots⟩ := accepted_wellFormed accepted
  obtain ⟨suppressions, read, _, all⟩ := pivots "/work" (some "api") ["title"]
  obtain ⟨locations, parsed, rfl⟩ : ∃ locations,
      ["doc.yaml#/info"].mapM (Location.parse "/work" (some "api")) = .ok locations ∧
        locations = [⟨some "/work/api/doc.yaml", ["info"]⟩] :=
    exists_ok_of_toOption (by decide +kernel)
  refine ⟨rs, accepted, ?_, suppressions, read, ?_⟩
  · have among : ("title", false) ∈ rs.rules.map fun r => (r.name, r.enabled) := by simp [rules]
    obtain ⟨r, member, same⟩ := List.mem_map.mp among
    obtain ⟨name, enabled⟩ := Prod.mk.inj same
    obtain ⟨_, _, _, isReady⟩ := ready r member
    exact ⟨r, member, name, enabled, isReady⟩
  · refine (all _ _).mpr ⟨List.mem_singleton_self _, _, ?_, List.cons_ne_nil _ _, parsed⟩
    simp [suppressed]

end Ruleset
end DocLint
