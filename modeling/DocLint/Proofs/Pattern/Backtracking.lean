import DocLint.Pattern.Matching
import DocLint.Text.Lines
import Mathlib.Data.List.Basic

/-!
# What trying in order finds

Which characters a pattern spans, said without the order in which its ways are tried and without the rule that a
repetition stops where a round did not move ahead (`Pattern.Spans`). For patterns of sets, rows, choices, greedy
repetitions, groups and conditions on places, trying the ways in order finds a match exactly if there is one
(`Pattern.startsText_iff`).
-/
namespace DocLint

/-- Dropping a final line feed accepts what was accepted before, and the same with a line feed behind it, if nothing
that was accepted has line feeds. -/
theorem Text.accepts_withoutFinalNewline {Accepted : List Char → Prop}
    (apart : ∀ cs, Accepted cs → '\n' ∉ cs) (cs : List Char) :
    Accepted (withoutFinalNewline cs) ↔
      ∃ front rest, cs = front ++ rest ∧ Accepted front ∧ (rest = [] ∨ rest = ['\n']) := by
  unfold withoutFinalNewline
  split
  case isTrue ends =>
    have text : cs.dropLast ++ ['\n'] = cs := List.dropLast_append_getLast? _ (by simpa using ends)
    constructor
    · intro accepted
      exact ⟨_, _, text.symm, accepted, .inr rfl⟩
    · rintro ⟨front, _, rfl, accepted, rfl | rfl⟩
      · rw [List.append_nil] at text
        exact absurd (text ▸ List.mem_append_right _ (List.mem_singleton_self _)) (apart front accepted)
      · rwa [List.dropLast_concat]
  case isFalse ends =>
    constructor
    · intro accepted
      exact ⟨cs, [], (List.append_nil cs).symm, accepted, .inl rfl⟩
    · rintro ⟨front, _, rfl, accepted, rfl | rfl⟩
      · rwa [List.append_nil]
      · simp at ends

namespace Pattern

deriving instance DecidableEq for Pattern

/-! ### Spans -/

/-- A property of characters between those in front of them and those behind. -/
abbrev Extent := List Char → List Char → List Char → Prop

namespace Extent

/-- The characters of one extent and, behind them, of another. -/
def followedBy (first second : Extent) : Extent := fun before mid after =>
  ∃ m n, mid = m ++ n ∧ first before m (n ++ after) ∧ second (before ++ m) n after

/-- The characters of an extent, a number of times. -/
def times (round : Extent) : Nat → Extent
  | 0 => fun _ mid _ => mid = []
  | n + 1 => round.followedBy (round.times n)

/-- Rounds of an extent that does not depend on what is around it make a row of words. -/
theorem times_iff {round : Extent} {IsWord : List Char → Prop}
    (free : ∀ before mid after, round before mid after ↔ IsWord mid) {n : Nat} {before mid after : List Char} :
    round.times n before mid after ↔
      ∃ words : List (List Char), words.length = n ∧ words.flatten = mid ∧ ∀ w ∈ words, IsWord w := by
  induction n generalizing before mid with
  | zero =>
    constructor
    · rintro rfl
      exact ⟨[], rfl, rfl, nofun⟩
    · rintro ⟨words, none, rfl, _⟩
      rw [List.length_eq_zero_iff] at none
      exact congrArg List.flatten none
  | succ n ih =>
    constructor
    · rintro ⟨first, others, rfl, here, rounds⟩
      obtain ⟨words, count, rfl, each⟩ := ih.mp rounds
      exact ⟨first :: words, by rw [List.length_cons, count], rfl,
        List.forall_mem_cons.mpr ⟨(free _ _ _).mp here, each⟩⟩
    · rintro ⟨words, count, rfl, each⟩
      obtain ⟨first, words, rfl⟩ := List.exists_cons_of_length_eq_add_one count
      rw [List.forall_mem_cons] at each
      exact ⟨first, words.flatten, rfl, (free _ _ _).mpr each.1,
        ih.mpr ⟨words, Nat.succ.inj count, rfl, each.2⟩⟩

theorem times_add {round : Extent} {i j : Nat} {before mid after : List Char} :
    round.times (i + j) before mid after ↔ ((round.times i).followedBy (round.times j)) before mid after := by
  induction i generalizing before mid with
  | zero => simp [times, followedBy]
  | succ i ih =>
    rw [Nat.succ_add]
    constructor
    · rintro ⟨first, _, rfl, here, rounds⟩
      obtain ⟨m, n, rfl, there, others⟩ := ih.mp rounds
      refine ⟨first ++ m, n, (List.append_assoc _ _ _).symm, ⟨first, m, rfl, ?_, there⟩, ?_⟩
      · rwa [← List.append_assoc]
      · rwa [← List.append_assoc]
    · rintro ⟨_, n, rfl, ⟨first, m, rfl, here, there⟩, others⟩
      refine ⟨first, m ++ n, List.append_assoc _ _ _, ?_, ih.mpr ⟨m, n, rfl, there, ?_⟩⟩
      · rwa [List.append_assoc]
      · rwa [List.append_assoc]

/-- Of rounds that span something one moves ahead first, and no more than the others follow. -/
theorem times_ahead {round : Extent} {n : Nat} {before mid after : List Char}
    (rounds : round.times n before mid after) (ahead : mid ≠ []) :
    ∃ i < n, ∃ first rest, first ≠ [] ∧ mid = first ++ rest ∧ round before first (rest ++ after) ∧
      round.times i (before ++ first) rest after := by
  induction n with
  | zero => exact absurd rounds ahead
  | succ n ih =>
    obtain ⟨first, rest, rfl, here, others⟩ := rounds
    by_cases stays : first = []
    · subst stays
      rw [List.append_nil] at others
      obtain ⟨i, fewer, first, rest, moves, same, here, others⟩ := ih others
      exact ⟨i, Nat.lt_succ_of_lt fewer, first, rest, moves, same, here, others⟩
    · exact ⟨n, Nat.lt_succ_self n, first, rest, stays, rfl, here, others⟩

end Extent

/-- The characters that a pattern spans between others. Patterns whose parts look around, refer to groups or give
nothing back are left out. -/
def Spans : Pattern → Extent
  | .empty => fun _ mid _ => mid = []
  | .one s => fun _ mid _ => ∃ c, mid = [c] ∧ s.contains c = true
  | .seq a b => Extent.followedBy (Spans a) (Spans b)
  | .alt a b => fun before mid after => Spans a before mid after ∨ Spans b before mid after
  | .repeat least most _ body => fun before mid after =>
    ∃ n, least ≤ n ∧ (∀ m ∈ most, n ≤ m) ∧ Extent.times (Spans body) n before mid after
  | .group _ body => Spans body
  | .plain body => Spans body
  | .anchor a => fun before mid after =>
    mid = [] ∧ anchorHolds (before ++ after).toArray before.length a = true
  | _ => fun _ _ _ => False

/-- Whether a pattern is made of sets, rows, choices, greedy repetitions, groups and conditions on places. -/
def isRegular : Pattern → Bool
  | .empty | .one _ | .anchor _ => true
  | .seq a b | .alt a b => a.isRegular && b.isRegular
  | .repeat least most greed body => greed == .greedy && most.all (least ≤ ·) && body.isRegular
  | .group _ body | .plain body => body.isRegular
  | _ => false

/-- The characters of some ranges. -/
def oneOf (ranges : List (Char × Char)) : CharSet :=
  ⟨ranges.map fun r => .range r.1.toNat r.2.toNat, false, false, .unicode⟩

theorem contains_oneOf (ranges : List (Char × Char)) (c : Char) :
    (oneOf ranges).contains c = true ↔ ∃ r ∈ ranges, r.1 ≤ c ∧ c ≤ r.2 := by
  simp [oneOf, CharSet.contains, CharSet.holds, Char.le_def, UInt32.le_iff_toNat_le]

/-- A character. -/
def only (c : Char) : Pattern :=
  .one (oneOf [(c, c)])

/-- A part as often as it comes. -/
def many (part : Pattern) : Pattern :=
  .repeat 0 none .greedy part

section
variable {body : Pattern} {least : Nat} {most : Option Nat} {greed : Greed} {before mid after : List Char}

theorem spans_anchor {a : Anchor} : Spans (.anchor a) before mid after ↔
    mid = [] ∧ anchorHolds (before ++ after).toArray before.length a = true :=
  Iff.rfl

theorem spans_rounds : Spans (.repeat least most greed body) before mid after ↔
    ∃ n, least ≤ n ∧ (∀ m ∈ most, n ≤ m) ∧ Extent.times body.Spans n before mid after :=
  Iff.rfl

/-- A repetition of what does not depend on its surroundings spans a row of words. -/
theorem spans_repeat {IsWord : List Char → Prop}
    (free : ∀ before mid after, body.Spans before mid after ↔ IsWord mid) :
    Spans (.repeat least most greed body) before mid after ↔
      ∃ words : List (List Char), least ≤ words.length ∧ (∀ bound ∈ most, words.length ≤ bound) ∧
        words.flatten = mid ∧ ∀ w ∈ words, IsWord w := by
  simp only [spans_rounds, Extent.times_iff free]
  constructor
  · rintro ⟨_, atLeast, atMost, words, rfl, same, each⟩
    exact ⟨words, atLeast, atMost, same, each⟩
  · rintro ⟨words, atLeast, atMost, same, each⟩
    exact ⟨_, atLeast, atMost, words, rfl, same, each⟩

/-- A repetition of a set spans characters of the set. -/
theorem spans_repeat_one {s : CharSet} :
    Spans (.repeat least none greed (.one s)) before mid after ↔
      least ≤ mid.length ∧ ∀ c ∈ mid, s.contains c = true := by
  have free : ∀ before mid after, Spans (.one s) before mid after ↔ ∃ c, mid = [c] ∧ s.contains c = true :=
    fun _ _ _ => Iff.rfl
  rw [spans_repeat free]
  constructor
  · rintro ⟨words, atLeast, _, rfl, each⟩
    have single : ∀ w ∈ words, w.length = 1 := by
      intro w member
      obtain ⟨c, rfl, _⟩ := each w member
      rfl
    constructor
    · rw [List.length_flatten, List.map_congr_left single]
      simpa using atLeast
    · intro c member
      obtain ⟨w, among, here⟩ := List.mem_flatten.mp member
      obtain ⟨d, rfl, inSet⟩ := each w among
      rwa [List.mem_singleton.mp here]
  · rintro ⟨atLeast, each⟩
    refine ⟨mid.map fun c => [c], by rwa [List.length_map], nofun, ?_, ?_⟩
    · simp [← List.flatMap_def]
    · intro w member
      obtain ⟨c, among, rfl⟩ := List.mem_map.mp member
      exact ⟨c, rfl, each c among⟩

theorem spans_many_one {s : CharSet} :
    (many (.one s)).Spans before mid after ↔ ∀ c ∈ mid, s.contains c = true := by
  rw [many, spans_repeat_one]
  exact and_iff_right (Nat.zero_le _)

theorem spans_only {c : Char} : (only c).Spans before mid after ↔ mid = [c] := by
  constructor
  · rintro ⟨d, rfl, inRange⟩
    obtain ⟨above, below⟩ : c ≤ d ∧ d ≤ c := by simpa [contains_oneOf] using inRange
    rw [Char.le_antisymm below above]
  · rintro rfl
    exact ⟨c, rfl, (contains_oneOf _ _).mpr (by simp)⟩

theorem spans_textStart : Spans (.anchor .textStart) before mid after ↔ mid = [] ∧ before = [] := by
  simp [spans_anchor, anchorHolds]

/-- A pattern behind the start of the text. -/
theorem spans_textStart_seq : Spans (.seq (.anchor .textStart) body) [] mid after ↔ body.Spans [] mid after := by
  constructor
  · rintro ⟨_, rest, rfl, start, behind⟩
    obtain ⟨rfl, -⟩ := spans_textStart.mp start
    exact behind
  · intro spans
    exact ⟨[], mid, rfl, spans_textStart.mpr ⟨rfl, rfl⟩, spans⟩

/-- A pattern behind a character of a set. -/
theorem spans_one_seq {s : CharSet} : Spans (.seq (.one s) body) before mid after ↔
    ∃ c rest, mid = c :: rest ∧ s.contains c = true ∧ body.Spans (before ++ [c]) rest after := by
  constructor
  · rintro ⟨_, rest, rfl, ⟨c, rfl, member⟩, behind⟩
    exact ⟨c, rest, rfl, member, behind⟩
  · rintro ⟨c, rest, rfl, member, behind⟩
    exact ⟨[c], rest, rfl, ⟨c, rfl, member⟩, behind⟩

/-- A pattern behind a character. -/
theorem spans_only_seq {c : Char} : Spans (.seq (only c) body) before mid after ↔
    ∃ rest, mid = c :: rest ∧ body.Spans (before ++ [c]) rest after := by
  constructor
  · rintro ⟨_, rest, rfl, first, behind⟩
    obtain rfl := spans_only.mp first
    exact ⟨rest, rfl, behind⟩
  · rintro ⟨rest, rfl, behind⟩
    exact ⟨[c], rest, rfl, spans_only.mpr rfl, behind⟩

theorem spans_lastLineEnd :
    Spans (.anchor .lastLineEnd) before mid after ↔ mid = [] ∧ (after = [] ∨ after = ['\n']) := by
  simp only [spans_anchor, anchorHolds, and_congr_right_iff]
  rintro -
  cases after with
  | nil => simp
  | cons c rest => cases rest <;> simp

/-- A pattern in front of the end of the text. -/
theorem spans_seq_lastLineEnd : Spans (.seq body (.anchor .lastLineEnd)) before mid after ↔
    body.Spans before mid after ∧ (after = [] ∨ after = ['\n']) := by
  constructor
  · rintro ⟨m, _, rfl, front, stop⟩
    obtain ⟨rfl, ends⟩ := spans_lastLineEnd.mp stop
    exact ⟨by rwa [List.append_nil], ends⟩
  · rintro ⟨front, ends⟩
    exact ⟨mid, [], (List.append_nil mid).symm, front, spans_lastLineEnd.mpr ⟨rfl, ends⟩⟩

end

/-! ### Matchers that find -/

/-- Whether what has to come behind is found does not depend on the groups. -/
def Blind (text : List Char) (k : Rest) : Prop :=
  ∀ p ≤ text.length, ∀ caps caps', (k p caps).isSome = (k p caps').isSome

/-- A matcher finds what has to come behind exactly if it is behind some characters of an extent. -/
def Finds (text : List Char) (m : Matcher) (extent : Extent) : Prop :=
  ∀ (before after : List Char) (caps : Captures) (k : Rest), text = before ++ after → Blind text k →
    ((m before.length caps k).isSome = true ↔
      ∃ mid rest, after = mid ++ rest ∧ extent before mid rest ∧ (k (before ++ mid).length []).isSome = true)

namespace Finds
variable {text : List Char} {m n : Matcher} {extent other : Extent} {k : Rest}

theorem blind (finds : Finds text m extent) (unseeing : Blind text k) :
    Blind text fun p caps => m p caps k := by
  intro p inside caps caps'
  have split : text = text.take p ++ text.drop p := (List.take_append_drop p text).symm
  have place : (text.take p).length = p := List.length_take_of_le inside
  have found := finds _ _ caps k split unseeing
  have found' := finds _ _ caps' k split unseeing
  rw [place] at found found'
  rw [Bool.eq_iff_iff, found, found']

theorem stay : Finds text (fun p caps k => k p caps) fun _ mid _ => mid = [] := by
  intro before after caps k split unseeing
  have inside : before.length ≤ text.length := by simp [split]
  rw [unseeing _ inside caps []]
  constructor
  · intro found
    exact ⟨[], after, rfl, rfl, by rwa [List.append_nil]⟩
  · rintro ⟨_, rest, rfl, rfl, found⟩
    rwa [List.append_nil] at found

theorem followedBy (first : Finds text m extent) (second : Finds text n other) :
    Finds text (fun p caps k => m p caps fun p caps => n p caps k) (extent.followedBy other) := by
  intro before after caps k split unseeing
  rw [first before after caps _ split (second.blind unseeing)]
  constructor
  · rintro ⟨mid, rest, rfl, here, found⟩
    rw [second (before ++ mid) rest [] k (by rw [split, List.append_assoc]) unseeing] at found
    obtain ⟨mid', rest, rfl, there, found⟩ := found
    exact ⟨mid ++ mid', rest, (List.append_assoc _ _ _).symm, ⟨mid, mid', rfl, here, there⟩,
      by rwa [← List.append_assoc]⟩
  · rintro ⟨_, rest, rfl, ⟨mid, mid', rfl, here, there⟩, found⟩
    refine ⟨mid, mid' ++ rest, List.append_assoc _ _ _, here, ?_⟩
    rw [second (before ++ mid) (mid' ++ rest) [] k (by simp [split]) unseeing]
    exact ⟨mid', rest, rfl, there, by rwa [List.append_assoc]⟩

theorem exactly (round : Finds text m extent) (count : Nat) :
    Finds text (Pattern.exactly m count) (extent.times count) := by
  induction count with
  | zero => exact stay
  | succ count ih => exact round.followedBy ih

/-! ### Repetitions -/

theorem greedily_succ (fuel : Nat) (most last : Option Nat) (p : Nat) (caps : Captures) :
    greedily m (fuel + 1) most last p caps k =
      if mayRepeat most last p then
        (m p caps fun q caps => greedily m fuel (most.map (· - 1)) (some p) q caps k).orElse fun _ => k p caps
      else k p caps :=
  rfl

/-- A repetition does not go on from where its last round started. -/
theorem greedily_stuck (fuel : Nat) (most : Option Nat) (p : Nat) (caps : Captures) :
    greedily m fuel most (some p) p caps k = k p caps := by
  cases fuel with
  | zero => rfl
  | succ fuel => simp [greedily_succ, mayRepeat]

theorem blind_greedily (round : Finds text m extent) (unseeing : Blind text k) (fuel : Nat)
    (most last : Option Nat) : Blind text fun p caps => greedily m fuel most last p caps k := by
  induction fuel generalizing most last with
  | zero => exact unseeing
  | succ fuel ih =>
    intro p inside caps caps'
    have rounds := round.blind (ih (most.map (· - 1)) (some p)) p inside caps caps'
    simp only [greedily_succ]
    split
    · simp only [Option.orElse_eq_or, Option.isSome_or, rounds, unseeing p inside caps caps']
    · exact unseeing p inside caps caps'

/-- A repetition finds what is behind any allowed number of rounds, if those that move ahead fit in its fuel. -/
theorem greedily_iff (round : Finds text m extent) (fuel : Nat) (most last : Option Nat)
    (before after : List Char) (caps : Captures) (split : text = before ++ after) (unseeing : Blind text k)
    (moved : last ≠ some before.length) (enough : after.length < fuel) :
    (greedily m fuel most last before.length caps k).isSome = true ↔
      ∃ count, (∀ bound ∈ most, count ≤ bound) ∧ ∃ mid rest, after = mid ++ rest ∧
        extent.times count before mid rest ∧ (k (before ++ mid).length []).isSome = true := by
  induction fuel generalizing most last before after caps with
  | zero => exact absurd enough (Nat.not_lt_zero _)
  | succ fuel ih =>
    have inside : before.length ≤ text.length := by simp [split]
    have here : (k before.length caps).isSome = true ↔ (k before.length []).isSome = true := by
      rw [unseeing _ inside caps []]
    by_cases done : most = some 0
    · have ends : greedily m (fuel + 1) most last before.length caps k = k before.length caps := by
        simp [greedily_succ, mayRepeat, done]
      rw [ends, here]
      constructor
      · intro found
        exact ⟨0, fun bound _ => Nat.zero_le bound, [], after, rfl, rfl, by rwa [List.append_nil]⟩
      · rintro ⟨count, allowed, mid, rest, rfl, rounds, found⟩
        obtain rfl : count = 0 := Nat.le_zero.mp (allowed 0 done)
        obtain rfl : mid = [] := rounds
        rwa [List.append_nil] at found
    · have goesOn : greedily m (fuel + 1) most last before.length caps k =
          (m before.length caps fun p caps =>
            greedily m fuel (most.map (· - 1)) (some before.length) p caps k).orElse
              fun _ => k before.length caps := by
        simp [greedily_succ, mayRepeat, done, moved]
      rw [goesOn, Option.orElse_eq_or, Option.isSome_or, Bool.or_eq_true, here,
        round before after caps _ split (round.blind_greedily unseeing _ _ _)]
      -- behind a round that moved ahead less is left, and the rounds that follow are found by induction
      have onward : ∀ mid rest, after = mid ++ rest → mid ≠ [] →
          ((greedily m fuel (most.map (· - 1)) (some before.length) (before ++ mid).length [] k).isSome = true ↔
            ∃ count, (∀ bound ∈ most.map (· - 1), count ≤ bound) ∧ ∃ mid' rest', rest = mid' ++ rest' ∧
              extent.times count (before ++ mid) mid' rest' ∧
              (k (before ++ mid ++ mid').length []).isSome = true) := by
        intro mid rest same ahead
        have positive := List.length_pos_iff.mpr ahead
        apply ih
        · rw [split, same, List.append_assoc]
        · simp only [List.length_append, ne_eq, Option.some.injEq]
          omega
        · simp only [same, List.length_append] at enough
          omega
      constructor
      · rintro (⟨mid, rest, same, first, found⟩ | found)
        · by_cases stays : mid = []
          · subst stays
            rw [List.append_nil, greedily_stuck] at found
            exact ⟨0, fun bound _ => Nat.zero_le bound, [], after, rfl, rfl, by rwa [List.append_nil]⟩
          · rw [onward mid rest same stays] at found
            obtain ⟨count, allowed, mid', rest', rfl, rounds, found⟩ := found
            refine ⟨count + 1, fun bound limit => ?_, mid ++ mid', rest', by rw [same, List.append_assoc],
              ⟨mid, mid', rfl, first, rounds⟩, by rwa [← List.append_assoc]⟩
            have fewer := allowed (bound - 1) (Option.mem_map_of_mem (· - 1) limit)
            have positive : bound ≠ 0 := fun zero => done (zero ▸ limit)
            omega
        · exact ⟨0, fun bound _ => Nat.zero_le bound, [], after, rfl, rfl, by rwa [List.append_nil]⟩
      · rintro ⟨count, allowed, mid, rest, rfl, rounds, found⟩
        by_cases stays : mid = []
        · subst stays
          rw [List.append_nil] at found
          exact .inr found
        · obtain ⟨i, fewer, first, others, ahead, rfl, here, rounds⟩ := Extent.times_ahead rounds stays
          refine .inl ⟨first, others ++ rest, List.append_assoc _ _ _, here, ?_⟩
          rw [onward first (others ++ rest) (List.append_assoc _ _ _) ahead]
          refine ⟨i, ?_, others, rest, rfl, rounds, by rwa [List.append_assoc]⟩
          intro _ lowered
          obtain ⟨bound, limit, rfl⟩ := Option.map_eq_some_iff.mp lowered
          have := allowed bound limit
          omega

/-- A repetition finds what is behind an allowed number of rounds. -/
theorem «repeat» (round : Finds text m extent) (least : Nat) (most : Option Nat)
    (bounded : ∀ bound ∈ most, least ≤ bound) :
    Finds text
      (fun p caps k => Pattern.exactly m least p caps fun p caps =>
        greedily m (text.length + 2) (most.map (· - least)) none p caps k)
      fun before mid after =>
        ∃ n, least ≤ n ∧ (∀ bound ∈ most, n ≤ bound) ∧ extent.times n before mid after := by
  have more : Finds text (greedily m (text.length + 2) (most.map (· - least)) none) fun before mid after =>
      ∃ count, (∀ bound ∈ most.map (· - least), count ≤ bound) ∧ extent.times count before mid after := by
    intro before after caps k split unseeing
    have enough : after.length < text.length + 2 := by
      simp only [split, List.length_append]
      omega
    rw [round.greedily_iff _ _ none before after caps split unseeing (Option.some_ne_none _).symm enough]
    constructor
    · rintro ⟨count, allowed, mid, rest, same, rounds, found⟩
      exact ⟨mid, rest, same, ⟨count, allowed, rounds⟩, found⟩
    · rintro ⟨mid, rest, same, ⟨count, allowed, rounds⟩, found⟩
      exact ⟨count, allowed, mid, rest, same, rounds, found⟩
  have together : ∀ before mid after,
      ((extent.times least).followedBy fun before mid after =>
          ∃ count, (∀ bound ∈ most.map (· - least), count ≤ bound) ∧ extent.times count before mid after)
        before mid after ↔
      ∃ n, least ≤ n ∧ (∀ bound ∈ most, n ≤ bound) ∧ extent.times n before mid after := by
    intro before mid after
    constructor
    · rintro ⟨m, n, same, first, count, allowed, others⟩
      refine ⟨least + count, Nat.le_add_right _ _, fun bound limit => ?_,
        Extent.times_add.mpr ⟨m, n, same, first, others⟩⟩
      have := allowed (bound - least) (Option.mem_map_of_mem (· - least) limit)
      have := bounded bound limit
      omega
    · rintro ⟨n, atLeast, allowed, rounds⟩
      obtain ⟨count, rfl⟩ := Nat.exists_eq_add_of_le atLeast
      obtain ⟨m, n, same, first, others⟩ := Extent.times_add.mp rounds
      refine ⟨m, n, same, first, count, fun _ lowered => ?_, others⟩
      obtain ⟨bound, limit, rfl⟩ := Option.map_eq_some_iff.mp lowered
      have := allowed bound limit
      omega
  have found := (round.exactly least).followedBy more
  intro before after caps k split unseeing
  rw [found before after caps k split unseeing]
  simp only [together]

end Finds

/-! ### Patterns that find -/

/-- A regular pattern finds what is behind the characters that it spans. -/
theorem run_finds {pattern : Pattern} (regular : pattern.isRegular = true) (text : List Char) :
    Finds text (run text.toArray pattern) pattern.Spans := by
  induction pattern with
  | empty => exact Finds.stay
  | one s =>
    intro before after caps k split unseeing
    have next : text.toArray[before.length]? = after.head? := by
      rw [List.getElem?_toArray, split, List.getElem?_append_right (Nat.le_refl _), Nat.sub_self,
        ← List.head?_eq_getElem?]
    simp only [run, next, Spans]
    cases after with
    | nil => simp
    | cons c rest =>
      have place : before.length + 1 = (before ++ [c]).length := by simp
      have inside : (before ++ [c]).length ≤ text.length := by simp [split]
      by_cases member : s.contains c = true
      · simp only [List.head?_cons, member, if_true, place, unseeing _ inside caps []]
        constructor
        · intro found
          exact ⟨[c], rest, rfl, ⟨c, rfl, member⟩, found⟩
        · rintro ⟨_, _, same, ⟨d, rfl, _⟩, found⟩
          cases same
          exact found
      · simp only [List.head?_cons, member, Bool.false_eq_true, if_false, Option.isSome_none, false_iff]
        rintro ⟨_, _, same, ⟨d, rfl, here⟩, _⟩
        cases same
        exact member here
  | seq a b first second =>
    rw [isRegular, Bool.and_eq_true] at regular
    exact (first regular.1).followedBy (second regular.2)
  | alt a b first second =>
    rw [isRegular, Bool.and_eq_true] at regular
    intro before after caps k split unseeing
    simp only [run, Option.orElse_eq_or, Option.isSome_or, Bool.or_eq_true,
      first regular.1 before after caps k split unseeing, second regular.2 before after caps k split unseeing]
    simp only [Spans, ← exists_or, ← and_or_left, ← or_and_right]
  | «repeat» least most greed body ih =>
    simp only [isRegular, Bool.and_eq_true, beq_iff_eq] at regular
    obtain ⟨⟨rfl, atMost⟩, regular⟩ := regular
    have bounded : ∀ bound ∈ most, least ≤ bound := by
      rintro bound rfl
      simpa using atMost
    have rounds := (ih regular).repeat least most bounded
    have size : text.toArray.size = text.length := List.size_toArray
    simpa only [run, Spans, size] using rounds
  | group number body ih =>
    intro before after caps k split unseeing
    have unseeing' : Blind text fun q caps => k q ((number, before.length, q) :: caps) :=
      fun q inside _ _ => unseeing q inside _ _
    simp only [run]
    rw [ih regular before after caps _ split unseeing']
    constructor
    · rintro ⟨mid, rest, rfl, spans, found⟩
      have inside : (before ++ mid).length ≤ text.length := by simp [split]
      exact ⟨mid, rest, rfl, spans, by rwa [unseeing _ inside]⟩
    · rintro ⟨mid, rest, rfl, spans, found⟩
      have inside : (before ++ mid).length ≤ text.length := by simp [split]
      exact ⟨mid, rest, rfl, spans, by rwa [unseeing _ inside]⟩
  | plain body ih => exact ih regular
  | anchor a =>
    intro before after caps k split unseeing
    have inside : before.length ≤ text.length := by simp [split]
    simp only [run]
    split
    case isTrue holds =>
      rw [unseeing _ inside caps []]
      constructor
      · intro found
        exact ⟨[], after, rfl, ⟨rfl, by rwa [← split]⟩, by rwa [List.append_nil]⟩
      · rintro ⟨_, rest, rfl, ⟨rfl, _⟩, found⟩
        rwa [List.append_nil] at found
    case isFalse fails =>
      refine ⟨nofun, ?_⟩
      rintro ⟨_, rest, rfl, ⟨rfl, holds⟩, _⟩
      rw [split] at fails
      exact absurd holds fails
  | reference | ahead | behind | atomic | conditional => simp [isRegular] at regular

/-- A regular pattern matches at the start of a text exactly if it spans what the text starts with. -/
theorem startsText_iff {pattern : Pattern} (regular : pattern.isRegular = true) (text : String) :
    pattern.startsText text = true ↔ ∃ mid rest, text.toList = mid ++ rest ∧ pattern.Spans [] mid rest := by
  have unseeing : Blind text.toList fun q caps => some (q, caps) := fun _ _ _ _ => rfl
  have found := run_finds regular text.toList [] text.toList [] _ rfl unseeing
  simpa [startsText] using found

end Pattern
end DocLint
