import DocLint.Proofs.Command.Refusals
import DocLint.Proofs.Json.Beyond
import DocLint.Proofs.Report.Order
import DocLint.Proofs.Yaml.Numbers
import DocLint.Report.Structured

/-!
# The report as JSON

The report is a text of JSON, and what it says carries every problem of the result in order, with the segments of its
path as JSON can carry them (`LintResult.structured_carries`). This holds where the keys on the way to a problem are
finite numbers if they are floating-point numbers at all: infinite ones and NaN are written by words that no text of
JSON has (`Linter.infiniteKey_structured`).
-/
namespace DocLint

namespace Json

/-- The value of a member of an object. -/
def get? (name : String) : Json → Option Json
  | .obj members => (members.find? fun m => m.1 == name).map (·.2)
  | _ => none

/-- The value that names lead to. -/
def at? (j : Json) (names : List String) : Option Json :=
  names.foldlM (fun j name => j.get? name) j

end Json

namespace Scalar

/-- A scalar as documents have them: a floating-point number is in the form in which numbers are kept, and an integer has
a text. -/
def IsKept (s : Scalar) : Prop :=
  s.EachReal Binary64.IsKept ∧ s.isWritable = true

/-- No infinite number and no NaN. -/
def IsFinite (s : Scalar) : Prop :=
  s.EachReal Binary64.IsFinite

instance : DecidablePred IsKept :=
  fun s => inferInstanceAs (Decidable (s.EachReal Binary64.IsKept ∧ s.isWritable = true))

instance : DecidablePred IsFinite :=
  inferInstanceAs (DecidablePred (EachReal Binary64.IsFinite))

/-- A scalar that has no form in JSON. -/
def IsForeign : Scalar → Prop
  | .float x => ¬ x.IsFinite
  | .date _ | .datetime _ | .bytes _ | .missing => True
  | .null | .bool _ | .int _ | .str _ => False

/-- How JSON carries a segment of a path: as itself, and what has no form in JSON as its text. -/
inductive IsCarriedBy : Scalar → Json → Prop where
  | null : IsCarriedBy .null .null
  | bool (b : Bool) : IsCarriedBy (.bool b) (.bool b)
  | int (i : Int) : IsCarriedBy (.int i) (.int i)
  | real {x : Binary64} (finite : x.IsFinite) : IsCarriedBy (.float x) (.real x)
  | str (s : String) : IsCarriedBy (.str s) (.str s)
  | text {s : Scalar} (foreign : s.IsForeign) : IsCarriedBy s (.str s.text)

theorem toJson_isCarriedBy {s : Scalar} (finite : s.IsFinite) : s.IsCarriedBy s.toJson := by
  cases s with
  | null => exact .null
  | bool b => exact .bool b
  | int i => exact .int i
  | float x => exact .real finite
  | str s => exact .str s
  | date d => exact .text trivial
  | datetime t => exact .text trivial
  | bytes bs => exact .text trivial
  | missing => exact .text trivial

@[simp] theorem eachReal_toJson_iff {P : Binary64 → Prop} {s : Scalar} : s.toJson.EachReal P ↔ s.EachReal P := by
  cases s <;> simp [toJson, EachReal]

end Scalar

namespace Diagnostic

/-- What JSON carries of a problem. -/
structure IsCarriedBy (d : Diagnostic) (entry : Json) : Prop where
  code : entry.at? ["code"] = some (.str d.code)
  message : entry.at? ["message"] = some (.str d.message)
  severity : entry.at? ["severity"] = some (.str d.severity.label)
  source : entry.at? ["source"] = some (d.source.elim .null .str)
  startLine : entry.at? ["range", "start", "line"] = some (.int d.range.start.line)
  startCharacter : entry.at? ["range", "start", "character"] = some (.int d.range.start.character)
  stopLine : entry.at? ["range", "end", "line"] = some (.int d.range.stop.line)
  stopCharacter : entry.at? ["range", "end", "character"] = some (.int d.range.stop.character)
  path : ∃ segments, entry.at? ["path"] = some (.arr segments) ∧ List.Forall₂ Scalar.IsCarriedBy d.path segments

theorem toJson_isCarriedBy {d : Diagnostic} (finite : ∀ s ∈ d.path, s.IsFinite) : d.IsCarriedBy d.toJson where
  code := rfl
  message := rfl
  severity := rfl
  source := by
    unfold toJson Json.ofText?
    cases d.source <;> rfl
  startLine := rfl
  startCharacter := rfl
  stopLine := rfl
  stopCharacter := rfl
  path := by
    refine ⟨d.path.map Scalar.toJson, rfl, ?_⟩
    rw [List.forall₂_map_right_iff, List.forall₂_same]
    exact fun s member => Scalar.toJson_isCarriedBy (finite s member)

@[simp] theorem eachReal_ofText? {P : Binary64 → Prop} (text : Option String) : (Json.ofText? text).EachReal P := by
  cases text with
  | none => exact .null
  | some s => exact .str s

theorem eachReal_toJson_iff {P : Binary64 → Prop} {d : Diagnostic} :
    d.toJson.EachReal P ↔ ∀ s ∈ d.path, s.EachReal P := by
  simp [toJson, Position.toJson]

end Diagnostic

namespace LintResult

/-- The floating-point numbers of the report are the duration and those on the way to the problems. -/
theorem eachReal_toJson_iff {P : Binary64 → Prop} {r : LintResult} :
    r.toJson.EachReal P ↔ P r.elapsed ∧ ∀ d ∈ r.diagnostics, ∀ s ∈ d.path, s.EachReal P := by
  have summarized : r.summary.EachReal P ↔ P r.elapsed := by
    simp [summary]
  have listed : (Json.arr ((Diagnostic.sorted r.diagnostics).map Diagnostic.toJson)).EachReal P ↔
      ∀ d ∈ r.diagnostics, ∀ s ∈ d.path, s.EachReal P := by
    simp only [Json.eachReal_arr_iff, List.forall_mem_map, Diagnostic.eachReal_toJson_iff,
      (Diagnostic.sorted_perm r.diagnostics).mem_iff]
  simp only [toJson, Json.eachReal_obj_iff, List.forall_mem_cons, listed, summarized, List.not_mem_nil, false_imp_iff,
    implies_true, and_true]
  exact and_comm

/-- The report is a text of JSON exactly if the keys on the way to its problems are finite as far as they are
floating-point numbers. -/
theorem isTextOf_structured_iff {r : LintResult} (elapsed : r.elapsed.IsFinite)
    (kept : ∀ d ∈ r.diagnostics, ∀ s ∈ d.path, s.IsKept) :
    (∃ data, Json.IsTextOf r.structured data) ↔ ∀ d ∈ r.diagnostics, ∀ s ∈ d.path, s.IsFinite := by
  have reals : r.toJson.EachReal Binary64.IsKept :=
    eachReal_toJson_iff.mpr ⟨elapsed.isKept, fun d member s inPath => (kept d member s inPath).1⟩
  rw [structured, Json.isTextOf_indented_iff reals, eachReal_toJson_iff]
  exact and_iff_right elapsed

/-- The report is a text of JSON exactly if no infinite number and no NaN is a key on the way to a problem. What it says
then is one thing only: the problems of the result, none lost or repeated, in the lexicographic order of source, line,
character, rule and message, those that tie as they were recorded; and how many they are. -/
theorem structured_carries (r : LintResult) (elapsed : r.elapsed.IsFinite)
    (kept : ∀ d ∈ r.diagnostics, ∀ s ∈ d.path, s.IsKept) :
    ((∃ data, Json.IsTextOf r.structured data) ↔ ∀ d ∈ r.diagnostics, ∀ s ∈ d.path, s.IsFinite) ∧
    ∀ data, Json.IsTextOf r.structured data →
      Json.read? r.structured = some data ∧
      ∃ entries, data.at? ["diagnostics"] = some (.arr entries) ∧
        data.at? ["summary", "problems"] = some (.int entries.length) ∧
        ∃ shown : List Diagnostic, shown.Perm r.diagnostics ∧
          shown.Pairwise (fun d e => d.place ≤ e.place) ∧
          (∀ place, shown.filter (·.place = place) = r.diagnostics.filter (·.place = place)) ∧
          List.Forall₂ Diagnostic.IsCarriedBy shown entries := by
  refine ⟨isTextOf_structured_iff elapsed kept, fun data said => ⟨Json.read?_of_isTextOf said, ?_⟩⟩
  have finite := (isTextOf_structured_iff elapsed kept).mp ⟨data, said⟩
  have written : Json.IsTextOf r.structured r.toJson :=
    Json.isTextOf_indented (eachReal_toJson_iff.mpr ⟨elapsed, finite⟩)
  have perm := Diagnostic.sorted_perm r.diagnostics
  rw [said.unique written]
  refine ⟨(Diagnostic.sorted r.diagnostics).map Diagnostic.toJson, rfl, ?_, Diagnostic.sorted r.diagnostics, perm,
    Diagnostic.sorted_pairwise _, Diagnostic.filter_sorted _, ?_⟩
  · rw [List.length_map, perm.length_eq]
    rfl
  · rw [List.forall₂_map_right_iff, List.forall₂_same]
    exact fun d member => Diagnostic.toJson_isCarriedBy (finite d (perm.mem_iff.mp member))

/-- A problem below keys of every kind, with a message that needs escapes, and one at the root. -/
def keyKinds : LintResult where
  diagnostics :=
    [⟨"top-level", "none", [], .hint, .empty, none⟩,
      ⟨"key-kinds", "\"\\ \x07\n\u2028😀", [.str "~/\x00", .int (-7), .bool true, .null,
          .float (.finite true (3 * 2 ^ 51) (-52)), .float (.finite false (2 ^ 52) 971), .date ⟨2001, 2, 3⟩,
          .bytes [0, 255]],
        .error, ⟨⟨3, 2⟩, ⟨3, 5⟩⟩, some "a.yaml"⟩]
  source := some "a.yaml"
  formats := ["oas3"]
  rulesLoaded := 3
  rulesEvaluated := 2
  elapsed := .finite false (25 * 2 ^ 48) (-49)

theorem keyKinds_carried :
    keyKinds.elapsed.IsFinite ∧ (∀ d ∈ keyKinds.diagnostics, ∀ s ∈ d.path, s.IsKept) ∧
    (∀ d ∈ keyKinds.diagnostics, ∀ s ∈ d.path, s.IsFinite) ∧
    ∃ data entries, Json.IsTextOf keyKinds.structured data ∧ Json.read? keyKinds.structured = some data ∧
      data.at? ["diagnostics"] = some (.arr entries) ∧ entries.length = 2 := by
  have elapsed : keyKinds.elapsed.IsFinite := by decide +kernel
  have kept : ∀ d ∈ keyKinds.diagnostics, ∀ s ∈ d.path, s.IsKept := by decide +kernel
  have finite : ∀ d ∈ keyKinds.diagnostics, ∀ s ∈ d.path, s.IsFinite := by decide +kernel
  obtain ⟨isText, carries⟩ := structured_carries keyKinds elapsed kept
  obtain ⟨data, said⟩ := isText.mpr finite
  obtain ⟨read, entries, listed, -, shown, perm, -, -, carried⟩ := carries data said
  exact ⟨elapsed, kept, finite, data, entries, said, read, listed, carried.length_eq.symm.trans perm.length_eq⟩

end LintResult

namespace Linter

/-- A rule that no entry of the document satisfies. -/
def noEntries : String :=
  "version: 1\nrules: \x7bany: \x7bgiven: $.*, then: \x7bfunction: undefined\x7d\x7d\x7d"

/-- Linting can find a problem whose report is no text of JSON: the key on the way to it is infinite. -/
theorem infiniteKey_structured :
    ∃ r log, lint (Command.alone noEntries).files (.stdin ".inf: 1\n") "rules.yml" = pure (.ok (r, log)) ∧
      r.elapsed.IsFinite ∧ r.diagnostics.map (·.path) = [[.float (.infinite false)]] ∧
      ¬ ∃ data, Json.IsTextOf r.structured data := by
  have found : ((lint (Command.alone noEntries).files (.stdin ".inf: 1\n") "rules.yml").toOption.map fun found =>
      (decide found.1.elapsed.IsFinite, found.1.diagnostics.map (·.path))) =
      some (true, [[.float (.infinite false)]]) := by
    decide +kernel
  obtain ⟨⟨r, log⟩, linted, shown⟩ := exists_ok_of_toOption found
  obtain ⟨finite, paths⟩ := Prod.mk.inj shown
  have elapsed := of_decide_eq_true finite
  refine ⟨r, log, linted, elapsed, paths, ?_⟩
  have path {d : Diagnostic} (member : d ∈ r.diagnostics) : d.path = [.float (.infinite false)] :=
    List.mem_singleton.mp (paths ▸ List.mem_map_of_mem member)
  have kept : ∀ d ∈ r.diagnostics, ∀ s ∈ d.path, s.IsKept := by
    intro d member s inPath
    rw [path member, List.mem_singleton] at inPath
    exact inPath ▸ ⟨trivial, rfl⟩
  rw [LintResult.isTextOf_structured_iff elapsed kept]
  intro finite
  obtain ⟨d, member⟩ : ∃ d, d ∈ r.diagnostics := by
    refine List.exists_mem_of_ne_nil r.diagnostics fun none => ?_
    rw [none] at paths
    cases paths
  exact finite d member (.float (.infinite false)) (path member ▸ List.mem_cons_self)

end Linter
end DocLint
