import DocLint.Check.Spelling
import DocLint.Pattern.Reader
import DocLint.Proofs.Lists
import DocLint.Proofs.Pattern.Backtracking

/-!
# Styles of names

Which names a style has, said by their letters and words (`Casing.Writes`). The check of a style accepts these
names, the same with a line feed behind them, and nothing else (`Check.casing_accepts_names`): it reads as the expression
of the style does when it is run as a pattern, whose `$` also stands in front of a final line feed.
-/
namespace DocLint

namespace Casing
open Pattern

/-! ### Names -/

/-- A lower-case letter of ASCII. -/
def IsLower (c : Char) : Prop := 'a' ≤ c ∧ c ≤ 'z'

/-- An upper-case letter of ASCII. -/
def IsUpper (c : Char) : Prop := 'A' ≤ c ∧ c ≤ 'Z'

/-- A digit of ASCII. -/
def IsDigit (c : Char) : Prop := '0' ≤ c ∧ c ≤ '9'

/-- Characters of which the first is of a kind. -/
def Begins (First : Char → Prop) (cs : List Char) : Prop :=
  ∃ c rest, cs = c :: rest ∧ First c

/-- Words with a joint between any two; every word has characters, and they are of one kind. -/
def AreJoined (joint : Char) (InWord : Char → Prop) (cs : List Char) : Prop :=
  ∃ words : List (List Char), words ≠ [] ∧ (∀ w ∈ words, w ≠ [] ∧ ∀ c ∈ w, InWord c) ∧
    cs = [joint].intercalate words

/-- The names of a style. -/
def Writes : Casing → List Char → Prop
  | .flat, cs => Begins IsLower cs ∧ ∀ c ∈ cs, IsLower c ∨ IsDigit c
  | .camel, cs => Begins IsLower cs ∧ ∀ c ∈ cs, IsLower c ∨ IsUpper c ∨ IsDigit c
  | .pascal, cs => Begins IsUpper cs ∧ ∀ c ∈ cs, IsLower c ∨ IsUpper c ∨ IsDigit c
  | .kebab, cs => Begins IsLower cs ∧ AreJoined '-' (fun c => IsLower c ∨ IsDigit c) cs
  | .snake, cs => Begins IsLower cs ∧ AreJoined '_' (fun c => IsLower c ∨ IsDigit c) cs
  | .cobol, cs => Begins IsUpper cs ∧ AreJoined '-' (fun c => IsUpper c ∨ IsDigit c) cs
  | .macroCase, cs => Begins IsUpper cs ∧ AreJoined '_' (fun c => IsUpper c ∨ IsDigit c) cs

/-- The expression of a style. -/
def expression : Casing → String
  | .flat => "^[a-z][a-z0-9]*$"
  | .camel => "^[a-z][a-z0-9]*(?:[A-Z0-9][a-z0-9]*)*$"
  | .pascal => "^[A-Z][a-z0-9]*(?:[A-Z0-9][a-z0-9]*)*$"
  | .kebab => "^[a-z][a-z0-9]*(?:-[a-z0-9]+)*$"
  | .cobol => "^[A-Z][A-Z0-9]*(?:-[A-Z0-9]+)*$"
  | .snake => "^[a-z][a-z0-9]*(?:_[a-z0-9]+)*$"
  | .macroCase => "^[A-Z][A-Z0-9]*(?:_[A-Z0-9]+)*$"

/-! ### Characters -/

section
variable {c : Char}

theorem isLower_iff : c.isLower = true ↔ IsLower c := by
  change (decide ('a' ≤ c) && decide (c ≤ 'z')) = true ↔ IsLower c
  simp only [Bool.and_eq_true, decide_eq_true_eq, IsLower]

theorem isUpper_iff : c.isUpper = true ↔ IsUpper c := by
  change decide ('A' ≤ c ∧ c ≤ 'Z') = true ↔ IsUpper c
  simp only [decide_eq_true_eq, IsUpper]

theorem isDigit_iff : c.isDigit = true ↔ IsDigit c := by
  simp only [Char.isDigit, Bool.and_eq_true, decide_eq_true_eq, IsDigit, ge_iff_le]
  exact Iff.rfl

end

/-! ### Rows of words -/

/-- Characters that go on with the rest of a word, behind which further words follow, each with a joint in front. -/
def GoesOn (joint : Char) (InWord : Char → Prop) (cs : List Char) : Prop :=
  ∃ (m : List Char) (words : List (List Char)), cs = m ++ words.flatMap (joint :: ·) ∧ (∀ c ∈ m, InWord c) ∧
    ∀ w ∈ words, w ≠ [] ∧ ∀ c ∈ w, InWord c

section
variable {joint c : Char} {InWord : Char → Prop} {rest : List Char}

theorem areJoined_cons (inWord : InWord c) : AreJoined joint InWord (c :: rest) ↔ GoesOn joint InWord rest := by
  constructor
  · rintro ⟨words, some, each, same⟩
    obtain ⟨w, words, rfl⟩ := List.exists_cons_of_ne_nil some
    rw [List.forall_mem_cons] at each
    obtain ⟨d, m, rfl⟩ := List.exists_cons_of_ne_nil each.1.1
    rw [intercalate_cons_eq, List.cons_append, List.cons.injEq] at same
    exact ⟨m, words, same.2, (List.forall_mem_cons.mp each.1.2).2, each.2⟩
  · rintro ⟨m, words, rfl, here, each⟩
    refine ⟨(c :: m) :: words, List.cons_ne_nil _ _, ?_, ?_⟩
    · exact List.forall_mem_cons.mpr ⟨⟨List.cons_ne_nil _ _, List.forall_mem_cons.mpr ⟨inWord, here⟩⟩, each⟩
    · rw [intercalate_cons_eq]
      rfl

theorem goesOn_nil : GoesOn joint InWord [] :=
  ⟨[], [], rfl, nofun, nofun⟩

theorem GoesOn.cons (inWord : InWord c) (goesOn : GoesOn joint InWord rest) : GoesOn joint InWord (c :: rest) := by
  obtain ⟨m, words, rfl, here, each⟩ := goesOn
  exact ⟨c :: m, words, rfl, List.forall_mem_cons.mpr ⟨inWord, here⟩, each⟩

/-- Either a character of the word is first, or the joint in front of the next word. -/
theorem goesOn_cons : GoesOn joint InWord (c :: rest) ↔
    (InWord c ∧ GoesOn joint InWord rest) ∨
      (c = joint ∧ ∃ d more, rest = d :: more ∧ InWord d ∧ GoesOn joint InWord more) := by
  constructor
  · rintro ⟨m, words, same, here, each⟩
    cases m with
    | cons d m =>
      rw [List.cons_append, List.cons.injEq] at same
      rw [List.forall_mem_cons] at here
      exact .inl ⟨same.1 ▸ here.1, m, words, same.2, here.2, each⟩
    | nil =>
      cases words with
      | nil => cases same
      | cons w words =>
        rw [List.forall_mem_cons] at each
        obtain ⟨d, w, rfl⟩ := List.exists_cons_of_ne_nil each.1.1
        rw [List.nil_append, List.flatMap_cons, List.cons_append, List.cons_append, List.cons.injEq] at same
        have word := List.forall_mem_cons.mp each.1.2
        exact .inr ⟨same.1, d, _, same.2, word.1, w, words, rfl, word.2, each.2⟩
  · rintro (⟨inWord, goesOn⟩ | ⟨rfl, d, _, rfl, inWord, m, words, rfl, here, each⟩)
    · exact goesOn.cons inWord
    · refine ⟨[], (d :: m) :: words, rfl, nofun, ?_⟩
      exact List.forall_mem_cons.mpr ⟨⟨List.cons_ne_nil _ _, List.forall_mem_cons.mpr ⟨inWord, here⟩⟩, each⟩

end

/-- Reading words character by character tells whether they go on, or, in front of a word, whether one is started. -/
theorem areWords_iff (joint : Char) (inWord : Char → Bool) (apart : inWord joint = false) (cs : List Char) :
    (areWords joint inWord true cs = true ↔ GoesOn joint (inWord · = true) cs) ∧
      (areWords joint inWord false cs = true ↔
        ∃ c rest, cs = c :: rest ∧ inWord c = true ∧ GoesOn joint (inWord · = true) rest) := by
  induction cs with
  | nil => simp [areWords, goesOn_nil]
  | cons c cs ih =>
    rw [goesOn_cons, ← ih.1, ← ih.2]
    by_cases member : inWord c = true
    · have other : c ≠ joint := by
        rintro rfl
        rw [apart] at member
        cases member
      simp [areWords, member, other, ih.1]
    · simp [areWords, member]

/-- Letters of both cases and digits are a row of words in lower case, of which all but the first begin with what may
stand in upper case. -/
theorem forall_iff_humps {Lower Upper : Char → Prop} {cs : List Char} :
    (∀ c ∈ cs, Lower c ∨ Upper c) ↔
      ∃ (m : List Char) (words : List (List Char)), cs = m ++ words.flatten ∧ (∀ c ∈ m, Lower c) ∧
        ∀ w ∈ words, ∃ c rest, w = c :: rest ∧ Upper c ∧ ∀ d ∈ rest, Lower d := by
  constructor
  · intro letters
    induction cs with
    | nil => exact ⟨[], [], rfl, nofun, nofun⟩
    | cons c cs ih =>
      rw [List.forall_mem_cons] at letters
      obtain ⟨m, words, rfl, here, each⟩ := ih letters.2
      rcases letters.1 with low | high
      · exact ⟨c :: m, words, rfl, List.forall_mem_cons.mpr ⟨low, here⟩, each⟩
      · exact ⟨[], (c :: m) :: words, rfl, nofun, List.forall_mem_cons.mpr ⟨⟨c, m, rfl, high, here⟩, each⟩⟩
  · rintro ⟨m, words, rfl, here, each⟩ c member
    rcases List.mem_append.mp member with first | later
    · exact .inl (here c first)
    · obtain ⟨w, among, inside⟩ := List.mem_flatten.mp later
      obtain ⟨d, rest, rfl, high, others⟩ := each w among
      rcases List.mem_cons.mp inside with rfl | behind
      · exact .inr high
      · exact .inl (others c behind)

/-! ### Names and their check -/

theorem startsThen_iff {first : Char → Bool} {follow : List Char → Bool} {cs : List Char} :
    startsThen first follow cs = true ↔ ∃ c rest, cs = c :: rest ∧ first c = true ∧ follow rest = true := by
  cases cs with
  | nil => simp [startsThen]
  | cons c rest => simp [startsThen]

/-- Names that begin with one of the characters that they hold. -/
theorem begins_and_forall {First Inside : Char → Prop} (among : ∀ c, First c → Inside c) {cs : List Char} :
    (Begins First cs ∧ ∀ c ∈ cs, Inside c) ↔ ∃ c rest, cs = c :: rest ∧ First c ∧ ∀ d ∈ rest, Inside d := by
  constructor
  · rintro ⟨⟨c, rest, rfl, first⟩, inside⟩
    exact ⟨c, rest, rfl, first, (List.forall_mem_cons.mp inside).2⟩
  · rintro ⟨c, rest, rfl, first, inside⟩
    exact ⟨⟨c, rest, rfl, first⟩, List.forall_mem_cons.mpr ⟨among c first, inside⟩⟩

/-- Joined words of which the first begins with one of their characters. -/
theorem begins_and_areJoined {First InWord : Char → Prop} (among : ∀ c, First c → InWord c) {joint : Char}
    {cs : List Char} :
    (Begins First cs ∧ AreJoined joint InWord cs) ↔
      ∃ c rest, cs = c :: rest ∧ First c ∧ GoesOn joint InWord rest := by
  constructor
  · rintro ⟨⟨c, rest, rfl, first⟩, joined⟩
    exact ⟨c, rest, rfl, first, (areJoined_cons (among c first)).mp joined⟩
  · rintro ⟨c, rest, rfl, first, goesOn⟩
    exact ⟨⟨c, rest, rfl, first⟩, (areJoined_cons (among c first)).mpr goesOn⟩

/-- What stands behind the first character of a name, and what the first character is. -/
theorem writes_iff (style : Casing) (cs : List Char) : style.Writes cs ↔
    ∃ c rest, cs = c :: rest ∧
      match style with
      | .flat => IsLower c ∧ ∀ d ∈ rest, IsLower d ∨ IsDigit d
      | .camel => IsLower c ∧ ∀ d ∈ rest, IsLower d ∨ IsUpper d ∨ IsDigit d
      | .pascal => IsUpper c ∧ ∀ d ∈ rest, IsLower d ∨ IsUpper d ∨ IsDigit d
      | .kebab => IsLower c ∧ GoesOn '-' (fun d => IsLower d ∨ IsDigit d) rest
      | .snake => IsLower c ∧ GoesOn '_' (fun d => IsLower d ∨ IsDigit d) rest
      | .cobol => IsUpper c ∧ GoesOn '-' (fun d => IsUpper d ∨ IsDigit d) rest
      | .macroCase => IsUpper c ∧ GoesOn '_' (fun d => IsUpper d ∨ IsDigit d) rest := by
  cases style with
  | flat => exact begins_and_forall fun _ => .inl
  | camel => exact begins_and_forall fun _ => .inl
  | pascal => exact begins_and_forall fun _ upper => .inr (.inl upper)
  | kebab | snake | cobol | macroCase => exact begins_and_areJoined fun _ => .inl

/-- The characters behind the first one are looked at as the style asks. -/
theorem fits_iff_writes (style : Casing) (cs : List Char) : style.fits cs = true ↔ style.Writes cs := by
  have low : ∀ d, isLowerOrDigit d = true ↔ IsLower d ∨ IsDigit d := by
    intro d
    rw [isLowerOrDigit, Bool.or_eq_true, isLower_iff, isDigit_iff]
  have high : ∀ d, isUpperOrDigit d = true ↔ IsUpper d ∨ IsDigit d := by
    intro d
    rw [isUpperOrDigit, Bool.or_eq_true, isUpper_iff, isDigit_iff]
  have any : ∀ d : Char, d.isAlphanum = true ↔ IsLower d ∨ IsUpper d ∨ IsDigit d := by
    intro d
    change ((d.isUpper || d.isLower) || d.isDigit) = true ↔ _
    rw [Bool.or_eq_true, Bool.or_eq_true, isLower_iff, isUpper_iff, isDigit_iff, or_assoc, or_left_comm]
  rw [writes_iff]
  cases style with
  | flat => simp only [fits, startsThen_iff, List.all_eq_true, isLower_iff, low]
  | camel => simp only [fits, startsThen_iff, List.all_eq_true, isLower_iff, any]
  | pascal => simp only [fits, startsThen_iff, List.all_eq_true, isUpper_iff, any]
  | kebab =>
    have words := fun cs => (areWords_iff '-' isLowerOrDigit (by decide) cs).1
    simp only [fits, startsThen_iff, words, isLower_iff, low]
  | snake =>
    have words := fun cs => (areWords_iff '_' isLowerOrDigit (by decide) cs).1
    simp only [fits, startsThen_iff, words, isLower_iff, low]
  | cobol =>
    have words := fun cs => (areWords_iff '-' isUpperOrDigit (by decide) cs).1
    simp only [fits, startsThen_iff, words, isUpper_iff, high]
  | macroCase =>
    have words := fun cs => (areWords_iff '_' isUpperOrDigit (by decide) cs).1
    simp only [fits, startsThen_iff, words, isUpper_iff, high]

/-! ### Names and their expressions -/

/-- A text that begins with a character of a set and goes on with a pattern. -/
def beginning (first : List (Char × Char)) (behind : Pattern) : Pattern :=
  .seq (.anchor .textStart) (.seq (.one (oneOf first)) behind)

/-- Characters of a set up to the end of the text. -/
def onlyOf (ranges : List (Char × Char)) : Pattern :=
  .seq (many (.one (oneOf ranges))) (.anchor .lastLineEnd)

/-- Characters of a set and then words, up to the end of the text. -/
def onlyWords (ranges : List (Char × Char)) (word : Pattern) : Pattern :=
  .seq (many (.one (oneOf ranges))) (.seq (many (.plain word)) (.anchor .lastLineEnd))

/-- A word behind a joint. -/
def joinedWord (joint : Char) (ranges : List (Char × Char)) : Pattern :=
  .seq (only joint) (.repeat 1 none .greedy (.one (oneOf ranges)))

/-- A word that begins with a character of a set of its own. -/
def hump (first ranges : List (Char × Char)) : Pattern :=
  .seq (.one (oneOf first)) (many (.one (oneOf ranges)))

/-- Lower-case letters and digits. -/
def low : List (Char × Char) := [('a', 'z'), ('0', '9')]

/-- Upper-case letters and digits. -/
def high : List (Char × Char) := [('A', 'Z'), ('0', '9')]

/-- The pattern that the expression of a style writes. -/
def pattern : Casing → Pattern
  | .flat => beginning [('a', 'z')] (onlyOf low)
  | .camel => beginning [('a', 'z')] (onlyWords low (hump high low))
  | .pascal => beginning [('A', 'Z')] (onlyWords low (hump high low))
  | .kebab => beginning [('a', 'z')] (onlyWords low (joinedWord '-' low))
  | .snake => beginning [('a', 'z')] (onlyWords low (joinedWord '_' low))
  | .cobol => beginning [('A', 'Z')] (onlyWords high (joinedWord '-' high))
  | .macroCase => beginning [('A', 'Z')] (onlyWords high (joinedWord '_' high))

theorem ofText?_expression (style : Casing) : Pattern.ofText? .standard style.expression = .ok style.pattern := by
  have reads : (Pattern.ofText? .standard style.expression).toOption.map id = some style.pattern := by
    cases style <;> decide +kernel
  obtain ⟨p, read, rfl⟩ := exists_ok_of_toOption reads
  exact read

section
variable {ranges first : List (Char × Char)} {word behind : Pattern} {before mid after : List Char} {joint : Char}

theorem spans_beginning : (beginning first behind).Spans [] mid after ↔
    ∃ c rest, mid = c :: rest ∧ (oneOf first).contains c = true ∧ behind.Spans [c] rest after := by
  rw [beginning, spans_textStart_seq, spans_one_seq]
  rfl

theorem spans_onlyOf : (onlyOf ranges).Spans before mid after ↔
    (∀ c ∈ mid, (oneOf ranges).contains c = true) ∧ (after = [] ∨ after = ['\n']) := by
  rw [onlyOf, spans_seq_lastLineEnd, spans_many_one]

theorem spans_onlyWords {IsWord : List Char → Prop}
    (free : ∀ before mid after, word.Spans before mid after ↔ IsWord mid) :
    (onlyWords ranges word).Spans before mid after ↔
      (∃ (m : List Char) (words : List (List Char)), mid = m ++ words.flatten ∧
        (∀ c ∈ m, (oneOf ranges).contains c = true) ∧ ∀ w ∈ words, IsWord w) ∧
      (after = [] ∨ after = ['\n']) := by
  have free' : ∀ before mid after, (Pattern.plain word).Spans before mid after ↔ IsWord mid := free
  constructor
  · rintro ⟨m, row, rfl, chars, behind⟩
    obtain ⟨rounds, ends⟩ := spans_seq_lastLineEnd.mp behind
    obtain ⟨words, _, _, rfl, each⟩ := (spans_repeat free').mp rounds
    exact ⟨⟨m, words, rfl, spans_many_one.mp chars, each⟩, ends⟩
  · rintro ⟨⟨m, words, rfl, chars, each⟩, ends⟩
    refine ⟨m, words.flatten, rfl, spans_many_one.mpr chars, spans_seq_lastLineEnd.mpr ⟨?_, ends⟩⟩
    exact (spans_repeat free').mpr ⟨words, Nat.zero_le _, nofun, rfl, each⟩

theorem spans_joinedWord : (joinedWord joint ranges).Spans before mid after ↔
    ∃ w, mid = joint :: w ∧ w ≠ [] ∧ ∀ c ∈ w, (oneOf ranges).contains c = true := by
  simp only [joinedWord, spans_only_seq, spans_repeat_one, Nat.one_le_iff_ne_zero, ne_eq, List.length_eq_zero_iff]

theorem spans_hump : (hump first ranges).Spans before mid after ↔
    ∃ c rest, mid = c :: rest ∧ (oneOf first).contains c = true ∧
      ∀ d ∈ rest, (oneOf ranges).contains d = true := by
  simp only [hump, spans_one_seq, spans_many_one]

/-- Words behind a joint each are what goes on behind a word. -/
theorem goesOn_iff_flatten {InWord : Char → Prop} {cs : List Char} :
    GoesOn joint InWord cs ↔
      ∃ (m : List Char) (words : List (List Char)), cs = m ++ words.flatten ∧ (∀ c ∈ m, InWord c) ∧
        ∀ w ∈ words, ∃ v, w = joint :: v ∧ v ≠ [] ∧ ∀ c ∈ v, InWord c := by
  constructor
  · rintro ⟨m, words, rfl, here, each⟩
    refine ⟨m, words.map (joint :: ·), rfl, here, fun w member => ?_⟩
    obtain ⟨v, among, rfl⟩ := List.mem_map.mp member
    exact ⟨v, rfl, each v among⟩
  · rintro ⟨m, words, rfl, here, each⟩
    have behind : ∀ w ∈ words, joint :: w.tail = w := by
      intro w member
      obtain ⟨v, rfl, _⟩ := each w member
      rfl
    refine ⟨m, words.map List.tail, ?_, here, fun v member => ?_⟩
    · rw [List.flatMap_map, List.flatMap_def, List.map_congr_left behind, List.map_id']
    · obtain ⟨w, among, rfl⟩ := List.mem_map.mp member
      obtain ⟨v, rfl, word⟩ := each w among
      exact word

theorem spans_joined : (onlyWords ranges (joinedWord joint ranges)).Spans before mid after ↔
    GoesOn joint (fun c => (oneOf ranges).contains c = true) mid ∧ (after = [] ∨ after = ['\n']) := by
  rw [spans_onlyWords fun _ _ _ => spans_joinedWord, goesOn_iff_flatten]

theorem spans_humps : (onlyWords ranges (hump first ranges)).Spans before mid after ↔
    (∀ c ∈ mid, (oneOf ranges).contains c = true ∨ (oneOf first).contains c = true) ∧ (after = [] ∨ after = ['\n']) := by
  rw [spans_onlyWords fun _ _ _ => spans_hump, forall_iff_humps]

end

/-- The expression of a style spans its names, up to the end or to a final line feed. -/
theorem spans_pattern (style : Casing) (mid after : List Char) :
    style.pattern.Spans [] mid after ↔ style.Writes mid ∧ (after = [] ∨ after = ['\n']) := by
  have isLower : ∀ d, (oneOf [('a', 'z')]).contains d = true ↔ IsLower d := by
    intro d
    rw [contains_oneOf]
    simp [IsLower]
  have isUpper : ∀ d, (oneOf [('A', 'Z')]).contains d = true ↔ IsUpper d := by
    intro d
    rw [contains_oneOf]
    simp [IsUpper]
  have inLow : ∀ d, (oneOf low).contains d = true ↔ IsLower d ∨ IsDigit d := by
    intro d
    rw [contains_oneOf]
    simp [low, IsLower, IsDigit]
  have inHigh : ∀ d, (oneOf high).contains d = true ↔ IsUpper d ∨ IsDigit d := by
    intro d
    rw [contains_oneOf]
    simp [high, IsUpper, IsDigit]
  have any : ∀ d, (IsLower d ∨ IsDigit d) ∨ (IsUpper d ∨ IsDigit d) ↔ IsLower d ∨ IsUpper d ∨ IsDigit d := by
    intro d
    rw [or_or_or_comm, or_self, or_assoc]
  rw [writes_iff]
  cases style with
  | flat => simp only [pattern, spans_beginning, spans_onlyOf, isLower, inLow, ← and_assoc, exists_and_right]
  | camel =>
    simp only [pattern, spans_beginning, spans_humps, isLower, inLow, inHigh, any, ← and_assoc, exists_and_right]
  | pascal =>
    simp only [pattern, spans_beginning, spans_humps, isUpper, inLow, inHigh, any, ← and_assoc, exists_and_right]
  | kebab | snake =>
    simp only [pattern, spans_beginning, spans_joined, isLower, inLow, ← and_assoc, exists_and_right]
  | cobol | macroCase =>
    simp only [pattern, spans_beginning, spans_joined, isUpper, inHigh, ← and_assoc, exists_and_right]

theorem isRegular_pattern (style : Casing) : style.pattern.isRegular = true := by
  cases style <;> rfl

/-! ### Names with a line feed -/

theorem GoesOn.forall {joint : Char} {InWord : Char → Prop} {cs : List Char} (goesOn : GoesOn joint InWord cs) :
    ∀ c ∈ cs, InWord c ∨ c = joint := by
  obtain ⟨m, words, rfl, here, each⟩ := goesOn
  intro c member
  rcases List.mem_append.mp member with first | later
  · exact .inl (here c first)
  · obtain ⟨w, among, inside⟩ := List.mem_flatMap.mp later
    rcases List.mem_cons.mp inside with rfl | inWord
    · exact .inr rfl
    · exact .inl ((each w among).2 c inWord)

theorem newline_not_mem {style : Casing} {cs : List Char} (writes : style.Writes cs) : '\n' ∉ cs := by
  have noLower : ¬ IsLower '\n' := by unfold IsLower; decide
  have noUpper : ¬ IsUpper '\n' := by unfold IsUpper; decide
  have noDigit : ¬ IsDigit '\n' := by unfold IsDigit; decide
  obtain ⟨c, rest, rfl, kind⟩ := (writes_iff style cs).mp writes
  intro member
  cases style with
  | flat | camel | pascal =>
    rcases List.mem_cons.mp member with rfl | member
    · simp_all
    · simpa [noLower, noUpper, noDigit] using kind.2 _ member
  | kebab | snake | cobol | macroCase =>
    rcases List.mem_cons.mp member with rfl | member
    · simp_all
    · simpa [noLower, noUpper, noDigit] using kind.2.forall _ member

end Casing

namespace Check
open Casing
variable {v options : Value} {text : String} {style : Casing}

/-- What the check of a style looks at. -/
theorem casing_of_named (isText : v.string? = some text) (nonempty : text ≠ "")
    (named : (options.field? "type").map Value.text = some style.name) (context : CheckContext) :
    casing v options context =
      if style.fits (Text.withoutFinalNewline text.toList) then .fine
      else .problem s!"{v.printed} must be {style.name} case" := by
  have known : Casing.ofName? style.name = some style := by cases style <;> rfl
  simp [casing, isText, nonempty, named, known]

theorem casing_fine_iff (isText : v.string? = some text) (nonempty : text ≠ "")
    (named : (options.field? "type").map Value.text = some style.name) (context : CheckContext) :
    casing v options context = .fine ↔
      ∃ name rest, text.toList = name ++ rest ∧ style.Writes name ∧ (rest = [] ∨ rest = ['\n']) := by
  have apart : ∀ cs, style.Writes cs → '\n' ∉ cs := fun _ => newline_not_mem
  rw [← Text.accepts_withoutFinalNewline apart, ← fits_iff_writes, casing_of_named isText nonempty named]
  split
  case isTrue fits => simp [fits]
  case isFalse unfit => simp [unfit, Outcome.fine, Outcome.problem]

/-- A text is accepted exactly if it is a name of the style that the option gives, unless it is such a name with a line
feed behind it, which is accepted and is no name. One problem is reported with any other text. The check accepts what
the expression of the style matches. -/
theorem casing_accepts_names (style : Casing) (isText : v.string? = some text) (nonempty : text ≠ "")
    (named : (options.field? "type").map Value.text = some style.name) (context : CheckContext) :
    ((∀ name, text.toList = name ++ ['\n'] → ¬ style.Writes name) →
      (casing v options context = .fine ↔ style.Writes text.toList)) ∧
    (∀ name, text.toList = name ++ ['\n'] → style.Writes name →
      casing v options context = .fine ∧ ¬ style.Writes text.toList) ∧
    (casing v options context ≠ .fine →
      casing v options context = .problem s!"{v.printed} must be {style.name} case") ∧
    ∃ p, Pattern.ofText? .standard style.expression = .ok p ∧
      (casing v options context = .fine ↔ p.startsText text = true) := by
  have fine := casing_fine_iff isText nonempty named context
  refine ⟨fun unended => ?_, fun name same writes => ?_, fun problem => ?_, style.pattern, ofText?_expression style, ?_⟩
  · rw [fine]
    constructor
    · rintro ⟨name, rest, same, writes, rfl | rfl⟩
      · rwa [same, List.append_nil]
      · exact absurd writes (unended name same)
    · intro writes
      exact ⟨_, [], (List.append_nil _).symm, writes, .inl rfl⟩
  · refine ⟨fine.mpr ⟨name, _, same, writes, .inr rfl⟩, fun whole => newline_not_mem whole ?_⟩
    rw [same]
    exact List.mem_append_right _ (List.mem_singleton_self _)
  · rw [casing_of_named isText nonempty named] at problem ⊢
    rw [if_neg fun fits => problem (if_pos fits)]
  · simp only [fine, Pattern.startsText_iff (isRegular_pattern style), spans_pattern]

/-- The options that ask for a style. -/
def styleOption (style : Casing) : Value :=
  ⟨⟨#[.mapping [(.str "type", .scalar (.str style.name))]]⟩, .container 0⟩

/-- The document that is a text, written as a block and checked as a whole. -/
def wholeText (text : String) : CheckContext where
  rule := "names"
  path := []
  inventory := .ofDocument { data := .ofScalar (.str text), source := none, text := some ("|\n  " ++ text) } none none

theorem petStore_accepted :
    (Value.ofScalar (.str "pet-store")).string? = some "pet-store" ∧ "pet-store" ≠ "" ∧
    ((styleOption .kebab).field? "type").map Value.text = some Casing.kebab.name ∧
    (∀ name, "pet-store".toList = name ++ ['\n'] → ¬ Casing.kebab.Writes name) ∧
    Casing.kebab.Writes "pet-store".toList ∧
    casing (.ofScalar (.str "pet-store")) (styleOption .kebab) (wholeText "pet-store") = .fine := by
  have isText : (Value.ofScalar (.str "pet-store")).string? = some "pet-store" := rfl
  have nonempty : "pet-store" ≠ "" := by decide
  have named : ((styleOption .kebab).field? "type").map Value.text = some Casing.kebab.name := rfl
  have unended : ∀ name, "pet-store".toList = name ++ ['\n'] → ¬ Casing.kebab.Writes name := by
    intro name same
    have last := congrArg List.getLast? same
    rw [List.getLast?_concat] at last
    exact absurd last (by decide)
  have writes : Casing.kebab.Writes "pet-store".toList := (fits_iff_writes _ _).mp (by decide +kernel)
  have accepts := casing_accepts_names .kebab isText nonempty named (wholeText "pet-store")
  exact ⟨isText, nonempty, named, unended, writes, (accepts.1 unended).mpr writes⟩

/-- A name with a line feed behind it is accepted, although the line feed belongs to no name. -/
theorem endedName_accepted :
    casing (.ofScalar (.str "pets\n")) (styleOption .camel) (wholeText "pets\n") = .fine ∧
      ¬ Casing.camel.Writes "pets\n".toList := by
  have isText : (Value.ofScalar (.str "pets\n")).string? = some "pets\n" := rfl
  have named : ((styleOption .camel).field? "type").map Value.text = some Casing.camel.name := rfl
  constructor
  · rw [casing_of_named isText (by decide) named, if_pos (by decide +kernel)]
  · intro writes
    exact newline_not_mem writes (by decide)

end Check
end DocLint
