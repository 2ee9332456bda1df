import DocLint.Proofs.Lists
import DocLint.Proofs.Path.Grammar

/-!
# Compiling follows the grammar

What compiles is what the grammar spells, with the selectors of the steps that it spells
(`CompiledPath.ofExpression_follows_grammar`). Each function of the reader takes exactly what is written of
its forms off the front of a text: one lemma says that it reads what is written, and one that what it reads
was written.
-/
namespace DocLint
open PathForm

namespace CompiledPath
variable {cs rest : List Char}

theorem readQuoted?_written {quote : Quote} (body : List (QuotedChar quote.mark)) (rest : List Char) :
    readQuoted? quote.mark (body.flatMap QuotedChar.written ++ quote.mark :: rest) =
      some (body.map QuotedChar.char, rest) := by
  induction body with
  | nil => simp [readQuoted?, quote.mark_ne_backslash]
  | cons c body ih =>
    cases c with
    | plain c unlikeQuote unlikeBackslash =>
      simp [readQuoted?, QuotedChar.written, QuotedChar.char, unlikeQuote, unlikeBackslash, ih]
    | escaped c unlikeLineFeed =>
      simp [readQuoted?, QuotedChar.written, QuotedChar.char, unlikeLineFeed, ih]

theorem exists_of_readQuoted? {quote : Char} {key : List Char}
    (read : readQuoted? quote cs = some (key, rest)) :
    ∃ body : List (QuotedChar quote), cs = body.flatMap QuotedChar.written ++ quote :: rest ∧
      key = body.map QuotedChar.char := by
  fun_induction readQuoted? quote cs generalizing key with
  | case1 => cases read
  | case2 => cases read
  | case3 c tail sameLine ih =>
    obtain ⟨⟨key, after⟩, inner, same⟩ := Option.map_eq_some_iff.mp read
    cases same
    obtain ⟨body, rfl, rfl⟩ := ih inner
    exact ⟨.escaped c (by simpa using sameLine) :: body, rfl, rfl⟩
  | case4 c tail _ closes =>
    cases read
    exact ⟨[], by rw [beq_iff_eq.mp closes]; rfl, rfl⟩
  | case5 => cases read
  | case6 c tail _ unlikeQuote unlikeBackslash ih =>
    obtain ⟨⟨key, after⟩, inner, same⟩ := Option.map_eq_some_iff.mp read
    cases same
    obtain ⟨body, rfl, rfl⟩ := ih inner
    exact ⟨.plain c (by simpa using unlikeQuote) (by simpa using unlikeBackslash) :: body, rfl, rfl⟩

/-! ### Positions -/

theorem decimalNat?_digits (digits : Digits) :
    Text.decimalNat? digits.chars = some digits.value := by
  -- from any number read so far the next digits are read on
  have readOn : ∀ (cs : List Char) (n : Nat), (∀ c ∈ cs, Text.isDecimal c = true) →
      cs.foldl (fun n c => do return 10 * (← n) + (← Text.decimalValue? c)) (some n) =
        some (cs.foldl (fun n c => 10 * n + (Text.decimalValue? c).getD 0) n) := by
    intro cs
    induction cs with
    | nil => exact fun n _ => rfl
    | cons c cs ih =>
      intro n decimal
      obtain ⟨value, known⟩ := Option.isSome_iff_exists.mp (decimal c List.mem_cons_self)
      simp only [List.foldl_cons, known, Option.getD_some]
      exact ih (10 * n + value) fun d member => decimal d (List.mem_cons_of_mem c member)
  exact readOn digits.chars 0 digits.decimal

theorem readIndex?_written (digits : Digits) (rest : List Char) :
    readIndex? (digits.chars ++ ']' :: rest) = some (digits.value, rest) := by
  obtain ⟨taken, dropped⟩ : (digits.chars ++ ']' :: rest).takeWhile Text.isDecimal = digits.chars ∧
      (digits.chars ++ ']' :: rest).dropWhile Text.isDecimal = ']' :: rest := by
    refine takeWhile_append_of_stops digits.decimal fun c first => ?_
    cases first
    decide
  have filled : digits.chars.isEmpty = false := by simp [digits.nonempty]
  simp only [readIndex?, taken, dropped, filled, decimalNat?_digits, Option.map_some]

theorem exists_of_readIndex? {n : Nat} (read : readIndex? cs = some (n, rest)) :
    ∃ digits : Digits, cs = digits.chars ++ ']' :: rest ∧ n = digits.value := by
  unfold readIndex? at read
  dsimp only at read
  split at read
  next after filled tail =>
    obtain ⟨value, number, same⟩ := Option.map_eq_some_iff.mp read
    cases same
    let digits : Digits :=
      ⟨cs.takeWhile Text.isDecimal, by simpa using filled, fun c member => List.mem_takeWhile_imp member⟩
    refine ⟨digits, ?_, ?_⟩
    · rw [← tail]
      exact List.takeWhile_append_dropWhile.symm
    · exact Option.some.inj (number.symm.trans (decimalNat?_digits digits))
  next => cases read

/-! ### Selectors -/

theorem readSelector?_bracket (b : Bracket) (rest : List Char) :
    readSelector? (b.written ++ rest) = some (b.selector, rest) := by
  cases b with
  | any => rfl
  | index digits =>
    have behind : readBracket? (digits.chars ++ ']' :: rest) =
        (readIndex? (digits.chars ++ ']' :: rest)).map fun read => (.index read.1, read.2) := by
      obtain ⟨c, more, chars, decimal⟩ := digits.exists_cons
      rw [chars, List.cons_append]
      refine readBracket?.eq_4 _ ?_ ?_ ?_ <;>
      · intro _ same
        rw [(List.cons.inj same).1] at decimal
        revert decimal
        decide
    simp [Bracket.written, Bracket.selector, readSelector?, behind, readIndex?_written]
  | key quote body =>
    have closed : readBracket?.closeQuoted? quote.mark
        (body.flatMap QuotedChar.written ++ quote.mark :: ']' :: rest) =
          some (.key (String.ofList (body.map QuotedChar.char)), rest) := by
      simp [readBracket?.closeQuoted?, readQuoted?_written]
    have text : (Bracket.key quote body).written ++ rest =
        '[' :: quote.mark :: (body.flatMap QuotedChar.written ++ quote.mark :: ']' :: rest) := by
      simp [Bracket.written]
    rw [text]
    cases quote <;> exact closed

theorem exists_of_readBracket? {s : Selector} (read : readBracket? cs = some (s, rest)) :
    ∃ b : Bracket, '[' :: cs = b.written ++ rest ∧ s = b.selector := by
  have quoted : ∀ (quote : Quote) {tail : List Char},
      readBracket?.closeQuoted? quote.mark tail = some (s, rest) →
        ∃ b : Bracket, '[' :: quote.mark :: tail = b.written ++ rest ∧ s = b.selector := by
    intro quote tail closed
    unfold readBracket?.closeQuoted? at closed
    split at closed
    next key after inner =>
      cases closed
      obtain ⟨body, rfl, rfl⟩ := exists_of_readQuoted? inner
      exact ⟨.key quote body, by simp [Bracket.written], rfl⟩
    next => cases closed
  unfold readBracket? at read
  split at read
  · cases read
    exact ⟨.any, rfl, rfl⟩
  · exact quoted .single read
  · exact quoted .double read
  · obtain ⟨⟨n, after⟩, number, same⟩ := Option.map_eq_some_iff.mp read
    cases same
    obtain ⟨digits, rfl, rfl⟩ := exists_of_readIndex? number
    exact ⟨.index digits, by simp [Bracket.written], rfl⟩

/-- What is written of a target is read, if no character of names follows. -/
theorem readSelector?_written (t : Target)
    (ends : ∀ c, rest.head? = some c → isNameChar c = false) :
    readSelector? (t.written ++ rest) = some (t.selector, rest) := by
  cases t with
  | bracket b => exact readSelector?_bracket b rest
  | label l =>
    cases l with
    | any => rfl
    | name name =>
      obtain ⟨taken, dropped⟩ := takeWhile_append_of_stops name.plain ends
      have filled : name.chars.isEmpty = false := by simp [name.nonempty]
      have bare : readSelector? (name.chars ++ rest) =
          if ((name.chars ++ rest).takeWhile isNameChar).isEmpty then none
          else some (.key (String.ofList ((name.chars ++ rest).takeWhile isNameChar)),
            (name.chars ++ rest).dropWhile isNameChar) := by
        obtain ⟨c, more, chars, plain⟩ := name.exists_cons
        rw [chars, List.cons_append]
        refine readSelector?.eq_3 _ ?_ ?_ <;>
        · intro _ same
          rw [(List.cons.inj same).1] at plain
          revert plain
          decide
      simp [Target.written, Label.written, Target.selector, Label.selector, bare, taken, dropped, filled]

theorem exists_of_readSelector? {s : Selector} (read : readSelector? cs = some (s, rest)) :
    ∃ t : Target, cs = t.written ++ rest ∧ s = t.selector := by
  unfold readSelector? at read
  split at read
  · cases read
    exact ⟨.label .any, rfl, rfl⟩
  · obtain ⟨b, text, rfl⟩ := exists_of_readBracket? read
    exact ⟨.bracket b, text, rfl⟩
  · dsimp only at read
    split at read
    next => cases read
    next filled =>
      cases read
      let name : Name :=
        ⟨cs.takeWhile isNameChar, by simpa using filled, fun c member => List.mem_takeWhile_imp member⟩
      exact ⟨.label (.name name), List.takeWhile_append_dropWhile.symm, rfl⟩

/-! ### Steps -/

/-- What is read of a target behind a dot that no other dot or bracket follows is a label. -/
theorem exists_label {t : Target} {text : List Char} (same : text = t.written ++ rest)
    (noBracket : ∀ more, text ≠ '[' :: more) : ∃ l : Label, t = .label l := by
  cases t with
  | label l => exact ⟨l, rfl⟩
  | bracket b =>
    obtain ⟨more, first⟩ := b.exists_cons
    refine absurd same ?_
    rw [Target.written, first]
    exact noBracket _

/-- What is read of a target at a bracket is a bracket. -/
theorem exists_bracket {t : Target} {text : List Char} (same : '[' :: text = t.written ++ rest) :
    ∃ b : Bracket, t = .bracket b := by
  cases t with
  | bracket b => exact ⟨b, rfl⟩
  | label l =>
    obtain ⟨c, more, first, _, other⟩ := l.exists_cons
    rw [Target.written, first] at same
    exact absurd (List.cons.inj same).1.symm other

variable {shown trimmed : String}

/-- What is written of a step is read first, if no character of names follows. -/
theorem readSteps_append (step : Step) (ends : ∀ c, rest.head? = some c → isNameChar c = false) :
    readSteps shown trimmed (step.written ++ rest) =
      (readSteps shown trimmed rest).map (step.selectors ++ ·) := by
  cases step with
  | child l =>
    have read := readSelector?_written (.label l) ends
    obtain ⟨c, text, first, noDot, noBracket⟩ := l.exists_cons
    simp only [Target.written, Step.written, first, List.cons_append] at read ⊢
    rw [readSteps.eq_4 _ _ _ (fun _ same => noDot (List.cons.inj same).1)
      (fun _ same => noBracket (List.cons.inj same).1)]
    split
    next s after here =>
      cases here.symm.trans read
      cases readSteps shown trimmed rest <;> rfl
    next here => cases here.symm.trans read
  | bracket b =>
    have read := readSelector?_bracket b rest
    obtain ⟨text, first⟩ := b.exists_cons
    simp only [Step.written, first, List.cons_append] at read ⊢
    rw [readSteps.eq_5]
    split
    next s after here =>
      cases here.symm.trans read
      cases readSteps shown trimmed rest <;> rfl
    next here => cases here.symm.trans read
  | descent t =>
    have read := readSelector?_written t ends
    simp only [Step.written, List.cons_append]
    rw [readSteps.eq_2]
    split
    next s after here =>
      cases here.symm.trans read
      cases readSteps shown trimmed rest <;> rfl
    next here => cases here.symm.trans read

theorem readSteps_written (steps : List Step) :
    readSteps shown trimmed (written steps) = .ok (PathForm.selectors steps) := by
  induction steps with
  | nil => simp [written, PathForm.selectors, readSteps]
  | cons step steps ih =>
    have more : written (step :: steps) = step.written ++ written steps := List.flatMap_cons
    rw [more, readSteps_append step fun _ => head?_written, ih]
    rfl

/-- What is read as steps is empty, or one step and what is read as the others. -/
theorem exists_step_of_readSteps {selectors : List Selector}
    (read : readSteps shown trimmed cs = .ok selectors) :
    (cs = [] ∧ selectors = []) ∨ ∃ (step : Step) (after : List Char) (others : List Selector),
      cs = step.written ++ after ∧ readSteps shown trimmed after = .ok others ∧
        selectors = step.selectors ++ others := by
  unfold readSteps at read
  dsimp only at read
  split at read
  · cases read
    exact .inl ⟨rfl, rfl⟩
  · split at read
    next s after here =>
      obtain ⟨others, later, rfl⟩ := exists_of_bind_pure read
      obtain ⟨t, rfl, rfl⟩ := exists_of_readSelector? here
      exact .inr ⟨.descent t, after, others, rfl, later, rfl⟩
    next => cases read
  · cases read
  · next noDot noBracket =>
    split at read
    next s after here =>
      obtain ⟨others, later, rfl⟩ := exists_of_bind_pure read
      obtain ⟨t, text, rfl⟩ := exists_of_readSelector? here
      obtain ⟨l, rfl⟩ := exists_label text noBracket
      exact .inr ⟨.child l, after, others, by rw [text]; rfl, later, rfl⟩
    next => cases read
  · split at read
    next s after here =>
      obtain ⟨others, later, rfl⟩ := exists_of_bind_pure read
      obtain ⟨t, text, rfl⟩ := exists_of_readSelector? here
      obtain ⟨b, rfl⟩ := exists_bracket text
      exact .inr ⟨.bracket b, after, others, text, later, rfl⟩
    next => cases read
  · cases read

theorem exists_of_readSteps {selectors : List Selector}
    (read : readSteps shown trimmed cs = .ok selectors) :
    ∃ steps : List Step, cs = written steps ∧ selectors = PathForm.selectors steps := by
  -- what is left behind a step is shorter
  induction length : cs.length using Nat.strongRecOn generalizing cs selectors with
  | _ n ih =>
    rcases exists_step_of_readSteps read with ⟨rfl, rfl⟩ | ⟨step, after, others, rfl, later, rfl⟩
    · exact ⟨[], rfl, rfl⟩
    · have shorter : after.length < n := by
        have := List.length_pos_iff.mpr step.written_ne_nil
        simp only [List.length_append] at length
        omega
      obtain ⟨steps, rfl, rfl⟩ := ih after.length shorter later rfl
      exact ⟨step :: steps, rfl, rfl⟩

/-! ### One text, one list of steps -/

variable {rest' : List Char}

/-- Two targets in front of what cannot go on with a name are the same if the texts are. -/
theorem target_append_injective {t t' : Target} (same : t.written ++ rest = t'.written ++ rest')
    (ends : ∀ c, rest.head? = some c → isNameChar c = false)
    (ends' : ∀ c, rest'.head? = some c → isNameChar c = false) : t = t' ∧ rest = rest' := by
  have read := readSelector?_written t ends
  rw [same, readSelector?_written t' ends'] at read
  obtain rfl : rest' = rest := (Prod.mk.inj (Option.some.inj read)).2
  exact ⟨Target.written_injective (List.append_cancel_right same), rfl⟩

theorem step_append_injective {step step' : Step} (same : step.written ++ rest = step'.written ++ rest')
    (ends : ∀ c, rest.head? = some c → isNameChar c = false)
    (ends' : ∀ c, rest'.head? = some c → isNameChar c = false) : step = step' ∧ rest = rest' := by
  -- steps of different kinds differ in their first two characters
  have noDots : ∀ (l : Label) (rest cs : List Char), l.written ++ rest ≠ '.' :: cs := by
    intro l rest cs same
    obtain ⟨c, more, first, noDot, _⟩ := l.exists_cons
    rw [first] at same
    exact noDot (List.cons.inj same).1
  have noBracket : ∀ (b : Bracket) (rest cs : List Char), b.written ++ rest ≠ '.' :: cs := by
    intro b rest cs same
    obtain ⟨more, first⟩ := b.exists_cons
    rw [first] at same
    exact absurd (List.cons.inj same).1 (by decide)
  cases step with
  | child l =>
    cases step' with
    | child l' =>
      have targets : (Target.label l).written ++ rest = (Target.label l').written ++ rest' :=
        (List.cons.inj same).2
      obtain ⟨target, rfl⟩ := target_append_injective targets ends ends'
      cases target
      exact ⟨rfl, rfl⟩
    | bracket b' => exact absurd same.symm (noBracket b' rest' _)
    | descent t' => exact absurd (List.cons.inj same).2 (noDots l rest _)
  | bracket b =>
    cases step' with
    | child l' => exact absurd same (noBracket b rest _)
    | bracket b' =>
      have targets : (Target.bracket b).written ++ rest = (Target.bracket b').written ++ rest' := same
      obtain ⟨target, rfl⟩ := target_append_injective targets ends ends'
      cases target
      exact ⟨rfl, rfl⟩
    | descent t' => exact absurd same (noBracket b rest _)
  | descent t =>
    cases step' with
    | child l' => exact absurd (List.cons.inj same).2.symm (noDots l' rest' _)
    | bracket b' => exact absurd same.symm (noBracket b' rest' _)
    | descent t' =>
      obtain ⟨rfl, rfl⟩ := target_append_injective (List.cons.inj (List.cons.inj same).2).2 ends ends'
      exact ⟨rfl, rfl⟩

theorem written_injective {steps steps' : List Step} (same : written steps = written steps') :
    steps = steps' := by
  have filled : ∀ (step : Step) (steps : List Step), written (step :: steps) ≠ [] := by
    intro step steps
    rw [written, List.flatMap_cons]
    exact List.append_ne_nil_of_left_ne_nil step.written_ne_nil _
  induction steps generalizing steps' with
  | nil =>
    cases steps' with
    | nil => rfl
    | cons step' steps' => exact absurd same.symm (filled step' steps')
  | cons step steps ih =>
    cases steps' with
    | nil => exact absurd same (filled step steps)
    | cons step' steps' =>
      have joined : step.written ++ written steps = step'.written ++ written steps' := same
      obtain ⟨rfl, others⟩ := step_append_injective joined (fun _ => head?_written) fun _ => head?_written
      rw [ih others]

end CompiledPath

/-- Expressions compile by the grammar: one that spells steps spells no other steps, and stands for their
selectors; one that spells none is refused. -/
theorem CompiledPath.ofExpression_follows_grammar (expression : String) :
    (∃ steps : List Step, Spells expression steps ∧
      (∀ others, Spells expression others → others = steps) ∧
      ofExpression expression = .ok ⟨expression, PathForm.selectors steps⟩ ∧
      ofExpression? expression = some ⟨expression, PathForm.selectors steps⟩) ∨
    ((∀ steps : List Step, ¬ Spells expression steps) ∧
      (∃ e : PathError, ofExpression expression = .error e) ∧ ofExpression? expression = none) := by
  -- a spelled list of steps is what the reader takes behind the dollar sign
  have compiles : ∀ steps, Spells expression steps →
      ofExpression expression = .ok ⟨expression, PathForm.selectors steps⟩ := by
    intro steps spells
    have text : (Text.trim expression).toList = '$' :: written steps := spells
    simp only [ofExpression, text, readSteps_written]
    rfl
  have spelled : ∀ c, ofExpression expression = .ok c → ∃ steps, Spells expression steps := by
    intro c ok
    unfold ofExpression at ok
    dsimp only at ok
    split at ok
    next rest text =>
      obtain ⟨selectors, read, _⟩ := exists_of_bind_pure ok
      obtain ⟨steps, rfl, _⟩ := exists_of_readSteps read
      exact ⟨steps, text⟩
    next => cases ok
  cases outcome : ofExpression expression with
  | ok c =>
    obtain ⟨steps, spells⟩ := spelled c outcome
    have ok := compiles steps spells
    refine .inl ⟨steps, spells, fun others spells' => ?_, outcome ▸ ok, ?_⟩
    · exact written_injective (List.cons.inj (spells'.symm.trans spells)).2
    · rw [ofExpression?, ok]
      rfl
  | error e =>
    refine .inr ⟨fun steps spells => ?_, ⟨e, rfl⟩, ?_⟩
    · cases outcome.symm.trans (compiles steps spells)
    · rw [ofExpression?, outcome]
      rfl

example : Spells " $..*['b'] "
    [.descent (.label .any), .bracket (.key .single [.plain 'b' (by decide) (by decide)])] := by
  rfl

end DocLint
