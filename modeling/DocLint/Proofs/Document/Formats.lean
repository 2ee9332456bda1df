import DocLint.Document.Format
import DocLint.Pattern.Reader
import DocLint.Proofs.Lists
import DocLint.Proofs.Pattern.Backtracking

/-!
# Declared formats

Which texts are versions of a format, said by their parts (`Format.Versions`). The formats that are found in a
document are those that one of its fields gives a version of, apart from versions with a line feed behind them, which
are found as well (`Format.detect_declared`): `$` at the end of an expression also stands in front of a final line feed.
-/
namespace DocLint

namespace Format
open Pattern

/-! ### Versions -/

/-- Decimal digits, at least one. -/
def IsNumber (cs : List Char) : Prop :=
  cs ≠ [] ∧ ∀ c ∈ cs, Text.isDecimal c = true

/-- A version on its own, or with a dot and a number behind it. -/
def IsRelease (version cs : List Char) : Prop :=
  cs = version ∨ ∃ patch, cs = version ++ '.' :: patch ∧ IsNumber patch

/-- The versions of a format. -/
def Versions : Format → List Char → Prop
  | .asyncapi2, cs => ∃ minor, IsNumber minor ∧ IsRelease ('2' :: '.' :: minor) cs
  | .jsonSchema, cs => "json-schema.org".toList <:+: cs
  | .oas2, cs => cs = ['2', '.', '0'] ∨ cs = ['2']
  | .oas3, cs => IsRelease ['3', '.', '0'] cs ∨ IsRelease ['3', '.', '1'] cs
  | .oas30, cs => IsRelease ['3', '.', '0'] cs
  | .oas31, cs => IsRelease ['3', '.', '1'] cs

/-- The field of a document that gives the version of a format. -/
def field : Format → String
  | .asyncapi2 => "asyncapi"
  | .jsonSchema => "$schema"
  | .oas2 => "swagger"
  | .oas3 | .oas30 | .oas31 => "openapi"

/-- A document is a mapping in which the field of a format has a value, not null, whose text is of a kind. -/
def GivesText (document : Value) (f : Format) (Kind : List Char → Prop) : Prop :=
  document.entries?.isSome = true ∧
    ∃ v, document.field? f.field = some v ∧ v.isNull = false ∧ Kind v.text.toList

/-- A document gives a version of a format. -/
def IsDeclared (document : Value) (f : Format) : Prop :=
  GivesText document f f.Versions

/-- The formats whose versions are read by an expression. -/
def numbered : List Format :=
  [.asyncapi2, .oas3, .oas30, .oas31]

/-- A document gives a version with a line feed behind it, of a format whose versions are read by an expression. -/
def IsEnded (document : Value) (f : Format) : Prop :=
  f ∈ numbered ∧ GivesText document f fun cs => ∃ version, cs = version ++ ['\n'] ∧ f.Versions version

/-- The expression of a format, if there is one that reads its versions. -/
def expression? : Format → Option String
  | .asyncapi2 => some "^2\\.\\d+(\\.\\d+)?$"
  | .oas30 => some "^3\\.0(\\.\\d+)?$"
  | .oas31 => some "^3\\.1(\\.\\d+)?$"
  | .jsonSchema | .oas2 | .oas3 => none

/-! ### Reading versions -/

section
variable {cs : List Char}

theorem isNumber_iff : isNumber cs = true ↔ IsNumber cs := by
  simp [isNumber, IsNumber]

theorem isPatchPart_iff : isPatchPart cs = true ↔ cs = [] ∨ ∃ patch, cs = '.' :: patch ∧ IsNumber patch := by
  unfold isPatchPart
  split
  · simp
  · simp [isNumber_iff]
  · rename_i notEmpty noDot
    constructor
    · exact nofun
    · rintro (rfl | ⟨patch, rfl, _⟩)
      · exact absurd rfl notEmpty
      · exact absurd rfl (noDot patch)

theorem isRelease_iff {version : List Char} : IsRelease version cs ↔
    ∃ rest, cs = version ++ rest ∧ (rest = [] ∨ ∃ patch, rest = '.' :: patch ∧ IsNumber patch) := by
  constructor
  · rintro (rfl | ⟨patch, rfl, number⟩)
    · exact ⟨[], (List.append_nil _).symm, .inl rfl⟩
    · exact ⟨_, rfl, .inr ⟨patch, rfl, number⟩⟩
  · rintro ⟨_, rfl, rfl | ⟨patch, rfl, number⟩⟩
    · exact .inl (List.append_nil _)
    · exact .inr ⟨patch, rfl, number⟩

theorem isMinorVersion_iff {minor : Char} : isMinorVersion minor cs = true ↔ IsRelease ['3', '.', minor] cs := by
  rw [isRelease_iff]
  unfold isMinorVersion
  split
  · rename_i c rest
    rw [Bool.and_eq_true, beq_iff_eq, isPatchPart_iff]
    constructor
    · rintro ⟨rfl, behind⟩
      exact ⟨rest, rfl, behind⟩
    · rintro ⟨_, same, behind⟩
      cases same
      exact ⟨rfl, behind⟩
  · rename_i other
    constructor
    · exact nofun
    · rintro ⟨rest, rfl, _⟩
      exact absurd rfl (other minor rest)

theorem isSecondVersion_iff : isSecondVersion cs = true ↔
    ∃ minor, IsNumber minor ∧ IsRelease ('2' :: '.' :: minor) cs := by
  unfold isSecondVersion
  split
  · rename_i rest
    rw [Bool.and_eq_true, isPatchPart_iff]
    constructor
    · rintro ⟨some, behind⟩
      refine ⟨rest.takeWhile Text.isDecimal, ⟨by simpa using some, fun c => List.mem_takeWhile_imp⟩, ?_⟩
      exact isRelease_iff.mpr ⟨_, by simp [List.takeWhile_append_dropWhile], behind⟩
    · rintro ⟨minor, number, release⟩
      obtain ⟨behind, same, ends⟩ := isRelease_iff.mp release
      obtain rfl : rest = minor ++ behind := by simpa using same
      -- the digits stop at the dot
      have stops : ∀ c, behind.head? = some c → Text.isDecimal c = false := by
        rcases ends with rfl | ⟨patch, rfl, _⟩
        · exact nofun
        · intro c dot
          obtain rfl : '.' = c := by simpa using dot
          decide
      obtain ⟨taken, left⟩ := takeWhile_append_of_stops number.2 stops
      rw [taken, left]
      exact ⟨by simpa using number.1, ends⟩
  · rename_i other
    constructor
    · exact nofun
    · rintro ⟨minor, _, release⟩
      obtain ⟨behind, same, _⟩ := isRelease_iff.mp release
      exact absurd same (other _)

theorem occursIn_iff (part : List Char) : occursIn part cs = true ↔ part <:+: cs := by
  induction cs with
  | nil => simp [occursIn]
  | cons c cs ih => rw [occursIn, Bool.or_eq_true, List.isPrefixOf_iff_prefix, ih, List.infix_cons_iff]

theorem IsNumber.newline_not_mem (number : IsNumber cs) : '\n' ∉ cs :=
  fun member => absurd (number.2 _ member) (by decide)

theorem IsRelease.newline_not_mem {version : List Char} (plain : '\n' ∉ version) (release : IsRelease version cs) :
    '\n' ∉ cs := by
  rcases release with rfl | ⟨patch, rfl, number⟩
  · exact plain
  · simp [plain, number.newline_not_mem]

/-- Versions that are read by an expression hold no line feed. -/
theorem newline_not_mem {f : Format} (among : f ∈ numbered) (version : f.Versions cs) : '\n' ∉ cs := by
  have minor (c : Char) (other : c ≠ '\n') : '\n' ∉ ['3', '.', c] := by simp [other.symm]
  cases f with
  | asyncapi2 =>
    obtain ⟨digits, number, release⟩ := version
    exact release.newline_not_mem (by simp [number.newline_not_mem])
  | oas30 => exact IsRelease.newline_not_mem (minor '0' (by decide)) version
  | oas31 => exact IsRelease.newline_not_mem (minor '1' (by decide)) version
  | oas3 =>
    rcases version with release | release
    · exact release.newline_not_mem (minor '0' (by decide))
    · exact release.newline_not_mem (minor '1' (by decide))
  | jsonSchema | oas2 => exact absurd among (by decide)

/-- A text has one minor version at most. -/
theorem IsRelease.minor_unique {a b : Char} (release : IsRelease ['3', '.', a] cs)
    (release' : IsRelease ['3', '.', b] cs) : a = b := by
  obtain ⟨rest, rfl, _⟩ := isRelease_iff.mp release
  obtain ⟨_, same, _⟩ := isRelease_iff.mp release'
  cases same
  rfl

end

/-! ### Detection -/

section
variable {document : Value} {f : Format}

theorem mem_detect : f ∈ detect document ↔ declaredBy document f = true := by
  have all : f ∈ all := by cases f <;> decide
  simp [detect, all]

theorem givesText_iff {Kind : List Char → Prop} :
    GivesText document f Kind ↔ ∃ v, document.present? f.field = some v ∧ Kind v.text.toList := by
  have mapping : ∀ {v}, document.field? f.field = some v → document.entries?.isSome = true := by
    intro v found
    cases entries : document.entries? with
    | none => simp [Value.field?, Value.get?, entries] at found
    | some _ => rfl
  constructor
  · rintro ⟨-, v, found, notNull, kind⟩
    exact ⟨v, Value.present?_eq_some_iff.mpr ⟨found, notNull⟩, kind⟩
  · rintro ⟨v, present, kind⟩
    obtain ⟨found, notNull⟩ := Value.present?_eq_some_iff.mp present
    exact ⟨mapping found, v, found, notNull, kind⟩

theorem versionIs_iff {field : String} {accepted : List Char → Bool} : versionIs document field accepted = true ↔
    ∃ v, document.present? field = some v ∧ accepted (Text.withoutFinalNewline v.text.toList) = true := by
  unfold versionIs version?
  cases document.present? field <;> simp

/-- Versions that are read by an expression are looked at without a final line feed. -/
theorem declaredBy_iff (among : f ∈ numbered) : declaredBy document f = true ↔
    ∃ v, document.present? f.field = some v ∧ f.Versions (Text.withoutFinalNewline v.text.toList) := by
  cases f with
  | asyncapi2 => simp only [declaredBy, versionIs_iff, isSecondVersion_iff, field, Versions]
  | oas30 | oas31 => simp only [declaredBy, versionIs_iff, isMinorVersion_iff, field, Versions]
  | oas3 =>
    simp only [declaredBy, Bool.or_eq_true, versionIs_iff, isMinorVersion_iff, field, Versions, and_or_left, exists_or]
  | jsonSchema | oas2 => exact absurd among (by decide)

theorem declaredBy_iff_isDeclared (among : f ∉ numbered) : declaredBy document f = true ↔ IsDeclared document f := by
  rw [IsDeclared, givesText_iff]
  cases f with
  | oas2 =>
    simp only [declaredBy, version?, field, Versions]
    cases document.present? "swagger" <;> simp
  | jsonSchema =>
    simp only [declaredBy, version?, field, Versions]
    cases document.present? "$schema" <;> simp [occursIn_iff]
  | asyncapi2 | oas3 | oas30 | oas31 => exact absurd (by decide) among

/-- What is found, by the text of the field. -/
theorem mem_detect_iff (among : f ∈ numbered) : f ∈ detect document ↔
    ∃ v, document.present? f.field = some v ∧
      ∃ version rest, v.text.toList = version ++ rest ∧ f.Versions version ∧ (rest = [] ∨ rest = ['\n']) := by
  have apart : ∀ cs, f.Versions cs → '\n' ∉ cs := fun _ => newline_not_mem among
  simp only [mem_detect, declaredBy_iff among, Text.accepts_withoutFinalNewline apart]

end

/-! ### Expressions -/

/-- Decimal digits. -/
def digits : Pattern :=
  .repeat 1 none .greedy (.one ⟨[.named .digit false], false, false, .unicode⟩)

/-- Perhaps a dot and digits, up to the end of the text. -/
def patchEnd : Pattern :=
  .seq (.repeat 0 (some 1) .greedy (.group 1 (.seq (only '.') digits))) (.anchor .lastLineEnd)

/-- The pattern that the expression of a format writes. -/
def pattern? : Format → Option Pattern
  | .asyncapi2 => some (.seq (.anchor .textStart) (.seq (only '2') (.seq (only '.') (.seq digits patchEnd))))
  | .oas30 => some (.seq (.anchor .textStart) (.seq (only '3') (.seq (only '.') (.seq (only '0') patchEnd))))
  | .oas31 => some (.seq (.anchor .textStart) (.seq (only '3') (.seq (only '.') (.seq (only '1') patchEnd))))
  | .jsonSchema | .oas2 | .oas3 => none

section
variable {before mid after : List Char}

theorem spans_digits : digits.Spans before mid after ↔ IsNumber mid := by
  have inSet : ∀ c, CharSet.contains ⟨[.named .digit false], false, false, .unicode⟩ c = Text.isDecimal c := by
    intro c
    simp [CharSet.contains, CharSet.holds, CharSet.ofClass, Alphabet.isDigit]
  rw [digits, spans_repeat_one, IsNumber, ← List.length_pos_iff]
  simp only [inSet]
  rfl

theorem spans_patchEnd : patchEnd.Spans before mid after ↔
    (mid = [] ∨ ∃ patch, mid = '.' :: patch ∧ IsNumber patch) ∧ (after = [] ∨ after = ['\n']) := by
  have free : ∀ before mid after, (Pattern.group 1 (.seq (only '.') digits)).Spans before mid after ↔
      ∃ patch, mid = '.' :: patch ∧ IsNumber patch := by
    intro before mid after
    constructor
    · intro spans
      obtain ⟨patch, rfl, number⟩ := spans_only_seq.mp spans
      exact ⟨patch, rfl, spans_digits.mp number⟩
    · rintro ⟨patch, rfl, number⟩
      exact spans_only_seq.mpr ⟨patch, rfl, spans_digits.mpr number⟩
  rw [patchEnd, spans_seq_lastLineEnd, spans_repeat free]
  refine and_congr_left fun _ => ⟨?_, ?_⟩
  · rintro ⟨words, -, most, rfl, each⟩
    match words, most 1 rfl with
    | [], _ => exact .inl rfl
    | [w], _ =>
      rw [List.flatten_cons, List.flatten_nil, List.append_nil]
      exact .inr (each w (List.mem_singleton_self w))
  · rintro (rfl | patch)
    · exact ⟨[], Nat.le_refl _, by simp, rfl, nofun⟩
    · exact ⟨[mid], Nat.zero_le _, by simp, by simp, List.forall_mem_singleton.mpr patch⟩

theorem spans_minor (minor : Char) :
    Spans (.seq (.anchor .textStart) (.seq (only '3') (.seq (only '.') (.seq (only minor) patchEnd)))) [] mid after ↔
      IsRelease ['3', '.', minor] mid ∧ (after = [] ∨ after = ['\n']) := by
  simp only [spans_textStart_seq, spans_only_seq, spans_patchEnd, isRelease_iff]
  constructor
  · rintro ⟨_, rfl, _, rfl, rest, rfl, perhaps, ends⟩
    exact ⟨⟨rest, rfl, perhaps⟩, ends⟩
  · rintro ⟨⟨rest, rfl, perhaps⟩, ends⟩
    exact ⟨_, rfl, _, rfl, rest, rfl, perhaps, ends⟩

theorem spans_second :
    Spans (.seq (.anchor .textStart) (.seq (only '2') (.seq (only '.') (.seq digits patchEnd)))) [] mid after ↔
      (∃ minor, IsNumber minor ∧ IsRelease ('2' :: '.' :: minor) mid) ∧ (after = [] ∨ after = ['\n']) := by
  simp only [spans_textStart_seq, spans_only_seq, isRelease_iff]
  constructor
  · rintro ⟨_, rfl, _, rfl, minor, rest, rfl, number, behind⟩
    obtain ⟨perhaps, ends⟩ := spans_patchEnd.mp behind
    exact ⟨⟨minor, spans_digits.mp number, rest, rfl, perhaps⟩, ends⟩
  · rintro ⟨⟨minor, number, rest, rfl, perhaps⟩, ends⟩
    exact ⟨_, rfl, _, rfl, minor, rest, rfl, spans_digits.mpr number, spans_patchEnd.mpr ⟨perhaps, ends⟩⟩

end

variable {f : Format} {e : String}

/-- The expression of a format spans its versions, up to the end or to a final line feed. -/
theorem exists_pattern (reads : f.expression? = some e) : f ∈ numbered ∧
    ∃ p, Pattern.ofText? .standard e = .ok p ∧ p.isRegular = true ∧
      ∀ mid after, p.Spans [] mid after ↔ f.Versions mid ∧ (after = [] ∨ after = ['\n']) := by
  have written : (Pattern.ofText? .standard e).toOption.map some = some f.pattern? := by
    cases f <;> cases reads <;> decide +kernel
  obtain ⟨p, ok, found⟩ := exists_ok_of_toOption written
  cases f with
  | asyncapi2 =>
    cases found
    exact ⟨by decide, _, ok, rfl, fun _ _ => spans_second⟩
  | oas30 | oas31 =>
    cases found
    exact ⟨by decide, _, ok, rfl, fun _ _ => spans_minor _⟩
  | jsonSchema | oas2 | oas3 => cases reads

/-! ### Versions with a line feed -/

/-- A format is found in a document exactly if the document gives a version of it, unless it gives a version with a
line feed behind it of a format with an expression: this one is found without a version of it being given. The third
version is found where one of its two minor versions is, and they are never found together. A format is found where
its expression matches the text of its field. -/
theorem detect_declared (document : Value) :
    (∀ f, ¬ IsEnded document f → (f ∈ detect document ↔ IsDeclared document f)) ∧
    (∀ f, IsEnded document f → f ∈ detect document ∧ ¬ IsDeclared document f) ∧
    (.oas3 ∈ detect document ↔ .oas30 ∈ detect document ∨ .oas31 ∈ detect document) ∧
    ¬ (.oas30 ∈ detect document ∧ .oas31 ∈ detect document) ∧
    ∀ f e, f.expression? = some e → ∃ p, Pattern.ofText? .standard e = .ok p ∧
      ∀ v, document.present? f.field = some v → (f ∈ detect document ↔ p.startsText v.text = true) := by
  refine ⟨fun f unended => ?_, ?_, ?_, ?_, fun f e reads => ?_⟩
  · by_cases among : f ∈ numbered
    · rw [mem_detect_iff among, IsDeclared, givesText_iff]
      constructor
      · rintro ⟨v, present, version, _, text, here, rfl | rfl⟩
        · exact ⟨v, present, by rwa [text, List.append_nil]⟩
        · exact absurd ⟨among, givesText_iff.mpr ⟨v, present, version, text, here⟩⟩ unended
      · rintro ⟨v, present, here⟩
        exact ⟨v, present, _, [], (List.append_nil _).symm, here, .inl rfl⟩
    · rw [mem_detect, declaredBy_iff_isDeclared among]
  · rintro f ⟨among, gives⟩
    obtain ⟨v, present, version, text, here⟩ := givesText_iff.mp gives
    refine ⟨(mem_detect_iff among).mpr ⟨v, present, version, _, text, here, .inr rfl⟩, fun declared => ?_⟩
    obtain ⟨w, present', whole⟩ := givesText_iff.mp declared
    obtain rfl : v = w := Option.some.inj (present.symm.trans present')
    refine newline_not_mem among whole ?_
    rw [text]
    exact List.mem_append_right _ (List.mem_singleton_self _)
  · simp only [mem_detect, declaredBy, Bool.or_eq_true]
  · rintro ⟨first, second⟩
    rw [mem_detect, declaredBy_iff (by decide)] at first second
    obtain ⟨v, present, release⟩ := first
    obtain ⟨w, present', release'⟩ := second
    obtain rfl : v = w := Option.some.inj (present.symm.trans present')
    exact absurd (release.minor_unique release') (by decide)
  · obtain ⟨among, p, ok, regular, spans⟩ := exists_pattern reads
    refine ⟨p, ok, fun v present => ?_⟩
    rw [mem_detect_iff among, startsText_iff regular]
    simp only [spans, present, Option.some.injEq, exists_eq_left']

/-- The document with one field. -/
def withField (key text : String) : Value :=
  ⟨⟨#[.mapping [(.str key, .scalar (.str text))]]⟩, .container 0⟩

theorem patchRelease_detected :
    ¬ IsEnded (withField "openapi" "3.1.10") .oas31 ∧ IsDeclared (withField "openapi" "3.1.10") .oas31 ∧
      .oas31 ∈ detect (withField "openapi" "3.1.10") := by
  have present : (withField "openapi" "3.1.10").present? "openapi" =
      some ⟨(withField "openapi" "3.1.10").graph, .scalar (.str "3.1.10")⟩ := rfl
  have unended : ¬ IsEnded (withField "openapi" "3.1.10") .oas31 := by
    rintro ⟨-, gives⟩
    obtain ⟨v, present', version, text, -⟩ := givesText_iff.mp gives
    obtain rfl := Option.some.inj (present.symm.trans present')
    have last := congrArg List.getLast? text
    rw [List.getLast?_concat] at last
    exact absurd last (by decide)
  have declared : IsDeclared (withField "openapi" "3.1.10") .oas31 := by
    refine givesText_iff.mpr ⟨_, present, .inr ⟨['1', '0'], rfl, ?_⟩⟩
    exact isNumber_iff.mp (by decide)
  exact ⟨unended, declared, ((detect_declared _).1 .oas31 unended).mpr declared⟩

/-- A version with a line feed behind it is found, although no version is given; where the version is compared and not
read by an expression, it is not found. -/
theorem endedVersion_detected :
    detect (withField "openapi" "3.0\n") = [.oas3, .oas30] ∧ ¬ IsDeclared (withField "openapi" "3.0\n") .oas30 ∧
      detect (withField "swagger" "2.0\n") = [] := by
  refine ⟨by decide +kernel, fun declared => ?_, by decide +kernel⟩
  obtain ⟨v, present, version⟩ := givesText_iff.mp declared
  have text : (withField "openapi" "3.0\n").present? "openapi" =
      some ⟨(withField "openapi" "3.0\n").graph, .scalar (.str "3.0\n")⟩ := rfl
  obtain rfl := Option.some.inj (text.symm.trans present)
  exact newline_not_mem (by decide) version (by decide)

end Format
end DocLint
