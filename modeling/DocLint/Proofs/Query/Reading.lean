import DocLint.Proofs.Query.Token

/-!
# Compiled expressions as queries

An expression that compiles is scanned as tokens that spell its selectors, if both readers take its names and
its blanks alike (`scan?_of_compiles`). Such tokens are read as a query of the root and of one step for each
selector (`parse?_of_spells`).
-/
namespace DocLint
open Query

/-- The step of a query that a selector stands for. -/
def Selector.step : Selector → Step
  | .key name => .names [name]
  | .index position => .items [position]
  | .any => .any
  | .descend => .descend

namespace CompiledPath

/-- The names without quotes in what is left of an expression, each with what follows it. -/
def bareNames (cs : List Char) : List (List Char × List Char) :=
  match _read : readSelector? (cs.dropWhile (· == '.')) with
  | none => []
  | some (_, after) =>
    let name := (cs.dropWhile (· == '.')).takeWhile isNameChar
    if name.isEmpty then bareNames after else (name, after) :: bareNames after
termination_by cs.length
decreasing_by
  all_goals
    have shorter := readSelector?_length _read
    have dropped := (List.dropWhile_suffix (· == '.') (l := cs)).length_le
    omega

end CompiledPath

namespace Query

/-! ### From characters to tokens -/

/-- Characters that are read as tokens, with every bound from their number on. -/
def Scans (cs : List Char) (ts : List Token) : Prop :=
  ∀ bound, cs.length ≤ bound → Token.scanWithin bound cs = some ts

/-- The tokens that spell a selector. -/
inductive SpellsSelector : List Token → Selector → Prop
  | any : SpellsSelector [.star] .any
  | name {t : Token} {key : String} (names : NamesKey t key) : SpellsSelector [t] (.key key)
  | anyInBrackets : SpellsSelector [.opening, .star, .closing] .any
  | position (n : Nat) : SpellsSelector [.opening, .int n, .closing] (.index n)
  | quoted (key : String) : SpellsSelector [.opening, .quoted key, .closing] (.key key)

/-- The tokens that spell the steps behind the root. -/
inductive SpellsSteps : List Token → List Selector → Prop
  | nil : SpellsSteps [] []
  | dot {own ts : List Token} {s : Selector} {ss : List Selector} (spells : SpellsSelector own s)
      (rest : SpellsSteps ts ss) : SpellsSteps (.dot :: (own ++ ts)) (s :: ss)
  | dots {own ts : List Token} {s : Selector} {ss : List Selector} (spells : SpellsSelector own s)
      (rest : SpellsSteps ts ss) : SpellsSteps (.dots :: (own ++ ts)) (.descend :: s :: ss)
  | bracket {own ts : List Token} {s : Selector} {ss : List Selector}
      (spells : SpellsSelector (.opening :: own) s) (rest : SpellsSteps ts ss) :
      SpellsSteps (.opening :: (own ++ ts)) (s :: ss)

section
variable {cs after rest : List Char} {ts : List Token} {t : Token}

theorem Scans.blanks (blank : ∀ c ∈ cs, Token.isBetween c = true) : Scans cs [] := by
  intro bound _
  cases bound with
  | zero => simp [Token.scanWithin, List.all_eq_true.mpr blank]
  | succ bound => simp [Token.scanWithin, List.dropWhile_eq_nil_iff.mpr blank]

/-- Blanks in front of tokens are dropped. -/
theorem Scans.behind_blanks (blank : ∀ c ∈ cs, Token.isBetween c = true) (scans : Scans rest ts) :
    Scans (cs ++ rest) ts := by
  intro bound enough
  cases bound with
  | zero =>
    rw [List.length_append] at enough
    obtain rfl : cs = [] := List.length_eq_zero_iff.mp (by omega)
    exact scans 0 (by omega)
  | succ bound =>
    rw [List.length_append] at enough
    rw [Token.scanWithin, List.dropWhile_append_of_pos blank, ← Token.scanWithin]
    exact scans (bound + 1) (by omega)

/-- What is read as a token and goes on with tokens is read as all of them. -/
theorem Scans.cons (read : Token.read? cs = some (t, rest)) (shorter : rest.length < cs.length)
    (scans : Scans rest ts) : Scans cs (t :: ts) := by
  intro bound enough
  cases cs with
  | nil => simp at shorter
  | cons c cs =>
    have plain : Token.isBetween c = false := by
      refine Bool.eq_false_iff.mpr fun blank => ?_
      rw [Token.read?_blank blank] at read
      cases read
    cases bound with
    | zero => simp at enough
    | succ bound =>
      simp only [List.length_cons] at shorter enough
      have onward := scans bound (by omega)
      simp [Token.scanWithin, plain, read, onward]

end

/-! ### From selectors to tokens -/

section
variable {cs after blanks : List Char} {ts : List Token} {s : Selector}

theorem scans_quoted {quote : Char} (mark : quote = '\'' ∨ quote = '"')
    (read : CompiledPath.readBracket?.closeQuoted? quote cs = some (s, after))
    (scans : Scans (after ++ blanks) ts) :
    ∃ own, SpellsSelector (.opening :: own) s ∧ Scans (quote :: cs ++ blanks) (own ++ ts) := by
  unfold CompiledPath.readBracket?.closeQuoted? at read
  split at read
  next body rest inner =>
    cases read
    have token := Token.read?_quote mark blanks inner
    have shorter := CompiledPath.readQuoted?_length inner
    refine ⟨_, .quoted _, .cons token ?_ (.cons (Token.read?_mark (by decide) _) (by simp) scans)⟩
    simp only [List.cons_append, List.length_cons, List.length_append] at shorter ⊢
    omega
  next => cases read

theorem scans_index {n : Nat} (read : CompiledPath.readIndex? cs = some (n, after))
    (scans : Scans (after ++ blanks) ts) : Scans (cs ++ blanks) (.int n :: .closing :: ts) := by
  unfold CompiledPath.readIndex? at read
  simp only at read
  split at read
  next rest given left =>
    obtain ⟨_, value, same⟩ := Option.map_eq_some_iff.mp read
    cases same
    have text := List.takeWhile_append_dropWhile (p := Text.isDecimal) (l := cs)
    have nonempty : cs.takeWhile Text.isDecimal ≠ [] := by simpa using given
    have token : Token.read? (cs.takeWhile Text.isDecimal ++ ']' :: (after ++ blanks)) =
        some (.int n, ']' :: (after ++ blanks)) :=
      Token.read?_digits nonempty (fun c member => List.mem_takeWhile_imp member) value (by simp; decide)
        (by simp [StartsFraction])
    rw [left] at text
    rw [← text, List.append_assoc]
    refine .cons token ?_ (.cons (Token.read?_mark (by decide) _) (by simp) scans)
    have positive := List.length_pos_iff.mpr nonempty
    simp only [List.cons_append, List.length_cons, List.length_append]
    omega
  next => cases read

theorem scans_bracket (read : CompiledPath.readBracket? cs = some (s, after))
    (scans : Scans (after ++ blanks) ts) :
    ∃ own, SpellsSelector (.opening :: own) s ∧ Scans (cs ++ blanks) (own ++ ts) := by
  unfold CompiledPath.readBracket? at read
  split at read
  · cases read
    exact ⟨_, .anyInBrackets,
      .cons (Token.read?_mark (by decide) _) (by simp) (.cons (Token.read?_mark (by decide) _) (by simp) scans)⟩
  · exact scans_quoted (.inl rfl) read scans
  · exact scans_quoted (.inr rfl) read scans
  · obtain ⟨_, index, same⟩ := Option.map_eq_some_iff.mp read
    cases same
    exact ⟨_, .position _, scans_index index scans⟩

/-- A selector is read as tokens that spell it, if a name without quotes is a common one. -/
theorem scans_selector (read : CompiledPath.readSelector? cs = some (s, after))
    (common : ∀ name, cs.takeWhile CompiledPath.isNameChar = name → name ≠ [] → IsCommonName name after)
    (blank : ∀ c ∈ blanks, Token.isBetween c = true) (ends : Ends (after ++ blanks)) (scans : Scans (after ++ blanks) ts) :
    ∃ own, SpellsSelector own s ∧ Scans (cs ++ blanks) (own ++ ts) := by
  unfold CompiledPath.readSelector? at read
  split at read
  next =>
    cases read
    exact ⟨_, .any, .cons (Token.read?_mark (by decide) _) (by simp) scans⟩
  next =>
    obtain ⟨own, spells, inner⟩ := scans_bracket read scans
    exact ⟨_, spells, .cons (Token.read?_mark (by decide) _) (by simp) inner⟩
  next =>
    simp only at read
    split at read
    next => cases read
    next given =>
      cases read
      have text := List.takeWhile_append_dropWhile (p := CompiledPath.isNameChar) (l := cs)
      have nonempty : cs.takeWhile CompiledPath.isNameChar ≠ [] := by simpa using given
      obtain ⟨t, names, token⟩ := ((common _ rfl nonempty).append blank).token ends
      rw [← List.append_assoc, text] at token
      refine ⟨[t], .name names, .cons token ?_ scans⟩
      have positive := List.length_pos_iff.mpr nonempty
      have whole := congrArg List.length text
      simp only [List.length_append] at whole ⊢
      omega

end

section
variable {cs after blanks : List Char} {s : Selector} {ss : List Selector}

/-- A selector begins with no dot. -/
theorem dropWhile_of_readSelector? (read : CompiledPath.readSelector? cs = some (s, after)) :
    cs.dropWhile (· == '.') = cs := by
  cases cs with
  | nil => rfl
  | cons c cs =>
    have plain : (c == '.') = false := by
      refine Bool.eq_false_iff.mpr fun dot => ?_
      obtain rfl := beq_iff_eq.mp dot
      simp [CompiledPath.readSelector?, CompiledPath.isNameChar] at read
    rw [List.dropWhile_cons_of_neg (by simp [plain])]

/-- What holds of the bare names of an expression holds of those of its first step and of its rest. -/
theorem forall_bareNames {holds : List Char × List Char → Prop} {rest : List Char}
    (dots : cs.dropWhile (· == '.') = rest)
    (read : CompiledPath.readSelector? rest = some (s, after))
    (all : ∀ n ∈ CompiledPath.bareNames cs, holds n) :
    (∀ name, rest.takeWhile CompiledPath.isNameChar = name → name ≠ [] → holds (name, after)) ∧
      ∀ n ∈ CompiledPath.bareNames after, holds n := by
  rw [CompiledPath.bareNames] at all
  split at all
  next stuck =>
    rw [dots, read] at stuck
    cases stuck
  next s' after' read' =>
    rw [dots, read] at read'
    cases read'
    simp only [dots] at all
    split at all
    next unnamed =>
      refine ⟨fun name same given => ?_, all⟩
      rw [same] at unnamed
      exact absurd (List.isEmpty_iff.mp unnamed) given
    next =>
      obtain ⟨own, others⟩ := List.forall_mem_cons.mp all
      exact ⟨fun name same _ => same ▸ own, others⟩

/-- What compiles is read as tokens that spell its steps. -/
theorem scans_steps {shown trimmed : String}
    (read : CompiledPath.readSteps shown trimmed cs = .ok ss)
    (blank : ∀ c ∈ blanks, Token.isBetween c = true)
    (common : ∀ n ∈ CompiledPath.bareNames cs, IsCommonName n.1 n.2) :
    Ends (cs ++ blanks) ∧ ∃ ts, SpellsSteps ts ss ∧ Scans (cs ++ blanks) ts := by
  fun_induction CompiledPath.readSteps shown trimmed cs generalizing ss with
  | case1 =>
    cases read
    exact ⟨fun c first => .inr (.inr (blank c (List.mem_of_mem_head? first))), [], .nil, .blanks blank⟩
  | case2 rest s after step _ ih =>
    obtain ⟨ss, later, rfl⟩ := exists_of_bind_pure read
    have dots : ('.' :: '.' :: rest).dropWhile (· == '.') = rest := dropWhile_of_readSelector? step
    obtain ⟨own, others⟩ := forall_bareNames dots step common
    obtain ⟨ends, ts, spells, scans⟩ := ih later others
    obtain ⟨mine, selector, scans⟩ := scans_selector step own blank ends scans
    exact ⟨by simp [Ends], _, .dots selector spells, .cons (Token.read?_dots _) (Nat.lt_succ_of_lt (Nat.lt_succ_self _)) scans⟩
  | case5 rest single _ s after step _ ih =>
    obtain ⟨ss, later, rfl⟩ := exists_of_bind_pure read
    have dots : ('.' :: rest).dropWhile (· == '.') = rest := dropWhile_of_readSelector? step
    obtain ⟨own, others⟩ := forall_bareNames dots step common
    obtain ⟨ends, ts, spells, scans⟩ := ih later others
    obtain ⟨mine, selector, scans⟩ := scans_selector step own blank ends scans
    have first : (rest ++ blanks).head? ≠ some '.' := by
      cases rest with
      | nil => simp [CompiledPath.readSelector?] at step
      | cons c rest => simpa using fun dot => single rest (by rw [dot])
    exact ⟨by simp [Ends], _, .dot selector spells, .cons (Token.read?_dot first) (by simp) scans⟩
  | case7 rest s after step _ ih =>
    obtain ⟨ss, later, rfl⟩ := exists_of_bind_pure read
    obtain ⟨_, others⟩ := forall_bareNames (dropWhile_of_readSelector? step) step common
    obtain ⟨ends, ts, spells, scans⟩ := ih later others
    obtain ⟨mine, selector, scans⟩ := scans_bracket step scans
    exact ⟨by simp [Ends], _, .bracket selector spells, .cons (Token.read?_mark (by decide) _) (by simp) scans⟩
  | _ => cases read

end

/-! ### From tokens to steps -/

section
variable {ts own : List Token} {s : Selector} {ss : List Selector}

theorem SpellsSteps.head?_ne_comma (spells : SpellsSteps ts ss) : ts.head? ≠ some .comma := by
  cases spells <;> simp

theorem readKeys_run (bound : Nat) (single : ts.head? ≠ some .comma) :
    (readKeys bound).run ts = some ([], ts) := by
  cases bound with
  | zero => rfl
  | succ bound =>
    cases ts with
    | nil => rfl
    | cons t ts =>
      have other : t ≠ .comma := by simpa using single
      simp [readKeys, Reader.accept, other]

theorem readPositions_run (bound : Nat) (single : ts.head? ≠ some .comma) :
    (readPositions bound).run ts = some ([], ts) := by
  cases bound with
  | zero => rfl
  | succ bound =>
    cases ts with
    | nil => rfl
    | cons t ts =>
      have other : t ≠ .comma := by simpa using single
      simp [readPositions, Reader.accept, other]

/-- The tokens of a selector are read as its step. -/
theorem readStep_run (bound : Nat) (spells : SpellsSelector own s) (single : ts.head? ≠ some .comma) :
    (readStep (bound + 2)).run (own ++ ts) = some ([s.step], ts) := by
  have closed : (Token.closing :: ts).head? ≠ some .comma := by simp
  cases spells with
  | any => simp [readStep, Reader.next, Selector.step]
  | name names =>
    cases names with
    | name unreserved =>
      simp [readStep, Reader.next, keyOf?, unreserved, readKeys_run _ single, Selector.step]
    | number i => simp [readStep, Reader.next, Selector.step]
  | anyInBrackets =>
    simp [readStep, readBracket, Reader.next, Reader.peek, Reader.expect, Reader.accept, Selector.step]
  | position n =>
    simp [readStep, readBracket, Reader.next, Reader.peek, Reader.expect, Reader.accept, Selector.step,
      readPositions_run _ closed]
  | quoted key =>
    simp [readStep, readBracket, Reader.next, Reader.peek, Reader.expect, Reader.accept, Selector.step,
      keyOf?, readKeys_run _ closed]

/-- The tokens of steps are read as those steps. -/
theorem readSteps_run (bound : Nat) (spells : SpellsSteps ts ss) (enough : ts.length + 2 < bound) :
    (readSteps bound).run ts = some (ss.map Selector.step, []) := by
  induction spells generalizing bound with
  | nil =>
    obtain ⟨bound, rfl⟩ : ∃ m, bound = m + 1 := ⟨bound - 1, by omega⟩
    rw [readSteps]
    rfl
  | @dot own ts s ss selector rest ih =>
    simp only [List.length_cons, List.length_append] at enough
    obtain ⟨bound, rfl⟩ : ∃ m, bound = m + 3 := ⟨bound - 3, by omega⟩
    rw [readSteps]
    simp [Reader.peek, Reader.next, readStep_run _ selector rest.head?_ne_comma,
      ih (bound + 2) (by omega)]
  | @dots own ts s ss selector rest ih =>
    simp only [List.length_cons, List.length_append] at enough
    obtain ⟨bound, rfl⟩ : ∃ m, bound = m + 3 := ⟨bound - 3, by omega⟩
    rw [readSteps]
    simp [Reader.peek, Reader.next, readStep_run _ selector rest.head?_ne_comma,
      ih (bound + 2) (by omega), Selector.step]
  | @bracket own ts s ss selector rest ih =>
    simp only [List.length_cons, List.length_append] at enough
    obtain ⟨bound, rfl⟩ : ∃ m, bound = m + 3 := ⟨bound - 3, by omega⟩
    have step := readStep_run bound selector rest.head?_ne_comma
    rw [List.cons_append] at step
    rw [readSteps]
    simp [Reader.peek, step, ih (bound + 2) (by omega)]

/-- A descent is followed by another step. -/
theorem SpellsSteps.getLast?_ne_descend (spells : SpellsSteps ts ss) :
    ss.getLast? ≠ some .descend := by
  have lands : ∀ {own s}, SpellsSelector own s → s ≠ .descend := by
    rintro _ _ (_ | _) <;> simp
  induction spells with
  | nil => simp
  | @dot _ _ s ss selector _ ih | @dots _ _ s ss selector _ ih | @bracket _ _ s ss selector _ ih =>
    cases ss with
    | nil => simpa using lands selector
    | cons t ss => simpa using ih

/-- Tokens of the root and of steps are read as a query. -/
theorem parse?_of_spells {e : String} (scanned : Token.scan? e = some (.dollar :: ts))
    (spells : SpellsSteps ts ss) : parse? e = some (.root :: ss.map Selector.step) := by
  have first : ∀ bound, (readStep (bound + 1)).run (.dollar :: ts) = some ([.root], ts) := by
    intro bound
    simp [readStep, Reader.next]
  have others := readSteps_run (8 * (ts.length + 1) + 7) spells (by omega)
  simp only [parse?, scanned, Option.bind_eq_bind, Option.bind_some, List.length_cons]
  rw [readPath]
  simp [first, others]

end

/-- An expression has blanks and names that both readers take alike: around it only what may stand between
tokens, and only common names without quotes. -/
structure ReadsAlike (e : String) : Prop where
  blanks : ∃ before behind, e.toList = before ++ (Text.trim e).toList ++ behind ∧
    ∀ c ∈ before ++ behind, Token.isBetween c = true
  names : ∀ n ∈ CompiledPath.bareNames ((Text.trim e).toList.drop 1), IsCommonName n.1 n.2

/-- What compiles and reads alike is scanned as tokens that spell its selectors. -/
theorem scan?_of_compiles {e : String} {c : CompiledPath}
    (compiles : CompiledPath.ofExpression? e = some c) (alike : ReadsAlike e) :
    ∃ ts, Token.scan? e = some (.dollar :: ts) ∧ SpellsSteps ts c.selectors := by
  obtain ⟨before, behind, text, blank⟩ := alike.blanks
  rw [List.forall_mem_append] at blank
  unfold CompiledPath.ofExpression? CompiledPath.ofExpression at compiles
  simp only at compiles
  split at compiles
  next rest trimmed =>
    cases read : CompiledPath.readSteps e (Text.trim e) rest with
    | error failure => simp [read, bind, Except.bind, Except.toOption] at compiles
    | ok ss =>
      obtain rfl : ⟨e, ss⟩ = c := by
        simpa [read, bind, Except.bind, pure, Except.pure, Except.toOption] using compiles
      have common := alike.names
      rw [trimmed] at text common
      obtain ⟨_, ts, spells, scans⟩ := scans_steps read blank.2 common
      refine ⟨ts, ?_, spells⟩
      have whole : Scans e.toList (.dollar :: ts) := by
        rw [text, List.append_assoc]
        exact .behind_blanks blank.1 (.cons (Token.read?_mark (by decide) _) (by simp) scans)
      exact whole _ le_rfl
  next => cases compiles

end Query
end DocLint
