import DocLint.Proofs.Run.Trace

/-!
# Messages

A template is read once, from the left: literal text up to the first placeholder, that placeholder, and so on behind
it (`Template.ReadsAs`). There is exactly one such reading, and it does not depend on the values that are filled in, so
braces in a value are text. A rule without a message of its own therefore passes on what
its checks say (`RunContext.messages_in_one_pass`).
-/
namespace DocLint

/-- Blanks are no parts of words. -/
theorem Text.isWord_of_isBlank {c : Char} (blank : isBlank c = true) : isWord c = false := by
  have apart : blankRanges.all (fun b => alphanumericRanges.all fun a => b.2 < a.1 || a.2 < b.1) = true := by
    decide +kernel
  obtain ⟨b, listed, from_, upTo⟩ := inRanges_iff.mp blank
  have other : inRanges alphanumericRanges c = false := by
    apply Bool.eq_false_iff.mpr
    intro alphanumeric
    obtain ⟨a, listed', from', upTo'⟩ := inRanges_iff.mp alphanumeric
    have sides := List.all_eq_true.mp (List.all_eq_true.mp apart b listed) a listed'
    simp only [Bool.or_eq_true, decide_eq_true_eq] at sides
    omega
  have underscore : c ≠ '_' := by
    rintro rfl
    exact absurd blank (by decide)
  simp [isWord, other, underscore]

namespace Template

/-- A placeholder as it is written: a word between double braces, perhaps with blanks around it. -/
structure Placeholder where
  before : List Char
  name : List Char
  after : List Char
  before_blank : ∀ c ∈ before, Text.isBlank c = true
  name_word : ∀ c ∈ name, Text.isWord c = true
  name_ne_nil : name ≠ []
  after_blank : ∀ c ∈ after, Text.isBlank c = true

/-- What a placeholder has behind its opening braces. -/
def Placeholder.body (p : Placeholder) : List Char :=
  p.before ++ (p.name ++ (p.after ++ ['\x7d', '\x7d']))

/-- The characters of a placeholder. -/
def Placeholder.text (p : Placeholder) : List Char :=
  '\x7b' :: '\x7b' :: p.body

/-- Characters that begin with a placeholder. -/
def Opens (cs : List Char) : Prop :=
  ∃ p : Placeholder, p.text <+: cs

/-- A template in parts: placeholders with the literal text in front of each, and the literal text at the end. -/
structure Reading where
  holes : List (List Char × Placeholder)
  rest : List Char

/-- A template is read from the left: the literal text in front of a placeholder has no place where a placeholder
begins, and neither has the text at the end. -/
inductive ReadsAs : List Char → Reading → Prop where
  | literal {cs : List Char} (plain : ∀ k, ¬ Opens (cs.drop k)) : ReadsAs cs ⟨[], cs⟩
  | hole {literal after rest : List Char} {p : Placeholder} {holes : List (List Char × Placeholder)}
      (first : ∀ k < literal.length, ¬ Opens ((literal ++ (p.text ++ after)).drop k))
      (onward : ReadsAs after ⟨holes, rest⟩) :
      ReadsAs (literal ++ (p.text ++ after)) ⟨(literal, p) :: holes, rest⟩

/-- The text of a reading in which every placeholder gives way to the value of its variable, or to nothing. -/
def Reading.filled (r : Reading) (values : List (String × String)) : List Char :=
  (r.holes.flatMap fun hole => hole.1 ++ ((values.lookup (String.ofList hole.2.name)).getD "").toList) ++ r.rest

/-! ### Placeholders -/

/-- The parts of a placeholder are told from the characters behind its opening braces. -/
theorem Placeholder.parts (p : Placeholder) (rest : List Char) :
    (p.body ++ rest).takeWhile Text.isBlank = p.before ∧
    ((p.body ++ rest).dropWhile Text.isBlank).takeWhile Text.isWord = p.name ∧
    (((p.body ++ rest).dropWhile Text.isBlank).dropWhile Text.isWord).takeWhile Text.isBlank = p.after ∧
    (((p.body ++ rest).dropWhile Text.isBlank).dropWhile Text.isWord).dropWhile Text.isBlank =
      '\x7d' :: '\x7d' :: rest := by
  obtain ⟨before, name, after, before_blank, name_word, name_ne_nil, after_blank⟩ := p
  have body : before ++ (name ++ (after ++ ['\x7d', '\x7d'])) ++ rest =
      before ++ (name ++ (after ++ '\x7d' :: '\x7d' :: rest)) := by
    simp only [List.append_assoc, List.cons_append, List.nil_append]
  obtain ⟨first, others, named⟩ := List.exists_cons_of_ne_nil name_ne_nil
  -- a word begins with no blank, and neither a blank nor a brace goes on with a word
  have blanks := @takeWhile_append_of_stops _ _ _ (name ++ (after ++ '\x7d' :: '\x7d' :: rest)) before_blank (by
    intro c head
    rw [named] at head
    cases head
    refine Bool.eq_false_iff.mpr fun blank => ?_
    exact absurd (name_word first (named ▸ List.mem_cons_self)) (by simp [Text.isWord_of_isBlank blank]))
  have word := @takeWhile_append_of_stops _ _ _ (after ++ '\x7d' :: '\x7d' :: rest) name_word (by
    intro c head
    cases after with
    | nil =>
      cases head
      decide +kernel
    | cons d after =>
      cases head
      exact Text.isWord_of_isBlank (after_blank _ List.mem_cons_self))
  have closing := @takeWhile_append_of_stops _ _ _ ('\x7d' :: '\x7d' :: rest) after_blank (by
    rintro c ⟨⟩
    decide)
  dsimp only [Placeholder.body]
  rw [body, blanks.1, blanks.2, word.1, word.2]
  exact ⟨rfl, rfl, closing⟩

/-- The placeholder at the start of a text is the only one there. -/
theorem Placeholder.eq_of_append {p q : Placeholder} {rest rest' : List Char}
    (same : p.text ++ rest = q.text ++ rest') : p = q ∧ rest = rest' := by
  have bodies : p.body ++ rest = q.body ++ rest' := by
    simpa only [text, List.cons_append, List.cons.injEq, true_and] using same
  obtain ⟨before, name, after, behind⟩ := p.parts rest
  obtain ⟨before', name', after', behind'⟩ := q.parts rest'
  rw [bodies] at before name after behind
  have rests : '\x7d' :: '\x7d' :: rest = '\x7d' :: '\x7d' :: rest' := behind.symm.trans behind'
  refine ⟨?_, by simpa using rests⟩
  cases p
  cases q
  simp only [Placeholder.mk.injEq]
  exact ⟨before.symm.trans before', name.symm.trans name', after.symm.trans after'⟩

/-- What is looked up at the start of a text is the placeholder there. -/
theorem placeholder?_eq_some_iff {cs after : List Char} {name : String} :
    placeholder? cs = some (name, after) ↔ ∃ p : Placeholder, cs = p.text ++ after ∧ name = String.ofList p.name := by
  constructor
  · intro found
    unfold placeholder? at found
    split at found
    next body =>
      dsimp only at found
      split at found
      next some_ closing =>
        cases found
        have all {q : Char → Bool} {xs : List Char} : ∀ c ∈ xs.takeWhile q, q c = true := fun _ => List.mem_takeWhile_imp
        refine ⟨⟨body.takeWhile Text.isBlank, (body.dropWhile Text.isBlank).takeWhile Text.isWord,
          ((body.dropWhile Text.isBlank).dropWhile Text.isWord).takeWhile Text.isBlank, all, all,
          by simpa using some_, all⟩, ?_, rfl⟩
        simp only [Placeholder.text, Placeholder.body, List.cons_append, List.append_assoc, List.nil_append,
          ← closing, List.takeWhile_append_dropWhile]
      next => cases found
    next => cases found
  · rintro ⟨p, rfl, rfl⟩
    obtain ⟨_, name, _, behind⟩ := p.parts after
    simp only [Placeholder.text, List.cons_append, placeholder?, name, behind]
    split
    next closing =>
      cases closing
      rfl
    next none =>
      exact absurd rfl (none _ (by simpa using p.name_ne_nil))

/-- Where nothing is found no placeholder begins. -/
theorem not_opens_iff {cs : List Char} : ¬ Opens cs ↔ placeholder? cs = none := by
  rw [Option.eq_none_iff_forall_ne_some, Opens]
  constructor
  · intro none found same
    obtain ⟨p, whole, _⟩ := placeholder?_eq_some_iff.mp same
    exact none ⟨p, found.2, whole.symm⟩
  · rintro none ⟨p, after, whole⟩
    exact none (String.ofList p.name, after) (placeholder?_eq_some_iff.mpr ⟨p, whole.symm, rfl⟩)

/-! ### Readings -/

/-- A reading with one more character of literal text in front. -/
def Reading.push (c : Char) : Reading → Reading
  | ⟨[], rest⟩ => ⟨[], c :: rest⟩
  | ⟨(literal, p) :: holes, rest⟩ => ⟨(c :: literal, p) :: holes, rest⟩

theorem Reading.filled_push (c : Char) (r : Reading) (values : List (String × String)) :
    (r.push c).filled values = c :: r.filled values := by
  obtain ⟨_ | ⟨⟨literal, p⟩, holes⟩, rest⟩ := r <;> rfl

/-- A character at which no placeholder begins is literal text. -/
theorem ReadsAs.push {c : Char} {cs : List Char} {r : Reading} (plain : ¬ Opens (c :: cs)) (read : ReadsAs cs r) :
    ReadsAs (c :: cs) (r.push c) := by
  cases read with
  | literal none =>
    apply ReadsAs.literal
    intro k
    cases k with
    | zero => exact plain
    | succ k => exact none k
  | @hole literal after rest p holes first onward =>
    refine @ReadsAs.hole (c :: literal) _ _ _ _ (fun k before => ?_) onward
    cases k with
    | zero => exact plain
    | succ k => exact first k (Nat.lt_of_succ_lt_succ before)

/-- The pieces of a template are those of a reading. -/
theorem exists_readsAs (cs : List Char) :
    ∃ r, ReadsAs cs r ∧ ∀ values, (pieces cs).flatMap (Piece.filled values) = r.filled values := by
  fun_induction pieces cs with
  | case1 =>
    refine ⟨_, .literal fun k => ?_, fun _ => rfl⟩
    rw [not_opens_iff, List.drop_nil]
    rfl
  | case2 c cs name after found _ ih =>
    obtain ⟨r, read, same⟩ := ih
    obtain ⟨p, whole, rfl⟩ := placeholder?_eq_some_iff.mp found
    refine ⟨⟨([], p) :: r.holes, r.rest⟩, ?_, fun values => ?_⟩
    · rw [whole]
      exact @ReadsAs.hole [] _ _ _ _ (fun k before => absurd before (Nat.not_lt_zero k)) read
    · rw [List.flatMap_cons, same values]
      simp only [Reading.filled, Piece.filled, List.flatMap_cons, List.nil_append, List.append_assoc]
  | case3 c cs none ih =>
    obtain ⟨r, read, same⟩ := ih
    refine ⟨r.push c, read.push (not_opens_iff.mpr none), fun values => ?_⟩
    rw [List.flatMap_cons, same values, Reading.filled_push]
    rfl

/-- Where a placeholder stands behind literal text, one begins. -/
theorem opens_drop (literal after : List Char) (p : Placeholder) :
    Opens ((literal ++ (p.text ++ after)).drop literal.length) := by
  rw [List.drop_left]
  exact ⟨p, List.prefix_append _ _⟩

/-- A template has only one reading. -/
theorem ReadsAs.unique {cs : List Char} {r s : Reading} (read : ReadsAs cs r) (read' : ReadsAs cs s) : r = s := by
  induction read generalizing s with
  | literal plain =>
    cases read' with
    | literal => rfl
    | @hole literal after _ p => exact absurd (opens_drop literal after p) (plain _)
  | @hole literal after rest p holes first onward ih =>
    generalize whole : literal ++ (p.text ++ after) = cs at read' first
    cases read' with
    | literal plain =>
      subst whole
      exact absurd (opens_drop literal after p) (plain _)
    | @hole literal' after' rest' p' holes' first' onward' =>
      -- neither placeholder begins inside the literal text in front of the other
      have least : literal.length ≤ literal'.length := by
        by_contra longer
        exact first _ (Nat.lt_of_not_le longer) (opens_drop literal' after' p')
      have least' : literal'.length ≤ literal.length := by
        by_contra longer
        exact first' _ (Nat.lt_of_not_le longer) (whole ▸ opens_drop literal after p)
      obtain ⟨rfl, same⟩ := List.append_inj whole (Nat.le_antisymm least least')
      obtain ⟨rfl, rfl⟩ := Placeholder.eq_of_append same
      have others := ih onward'
      simp only [Reading.mk.injEq] at others
      rw [others.1, others.2]

end Template

/-! ### Rules without a message -/

/-- The message of a rule without a template is what the check says, whatever the value is. -/
theorem Rule.messageFor_of_standard {r : Rule} (standard : r.message.getD "" = "") (finding : Finding) (path : Path)
    (value : Value) :
    r.messageFor finding path value = if finding.message = "" then r.description else finding.message := by
  have template : r.messageTemplate = "\x7b\x7berror\x7d\x7d" := by
    unfold messageTemplate
    split
    next own given =>
      rw [given, Option.getD_some] at standard
      rw [standard]
      rfl
    next => rfl
  have pieces : Template.pieces "\x7b\x7berror\x7d\x7d".toList = [.placeholder "error"] := by
    decide +kernel
  rw [messageFor, template, Template.fill, pieces]
  simp only [List.flatMap_cons, List.flatMap_nil, List.append_nil, Template.Piece.filled, messageVariables,
    List.lookup_cons_self, Option.getD_some, String.ofList_toList, String.isEmpty_iff]

namespace RunContext

/-- Templates are filled in one pass: each has one reading from the left, which does not depend on the values, and
filling it keeps the literal text and puts the values in the place of the placeholders. So what a rule without a
message of its own reports is what its check says of the place, or the description where the check says nothing,
character for character. -/
theorem messages_in_one_pass :
    (∀ template : String, ∃ reading, Template.ReadsAs template.toList reading ∧
      (∀ other, Template.ReadsAs template.toList other → other = reading) ∧
      ∀ values, (Template.fill template values).toList = reading.filled values) ∧
    ∀ (c : RunContext) (rule : Rule) (locations : List Location) (node : GivenNode), rule.message.getD "" = "" →
      ∀ e ∈ (c.lintNode rule locations node).recorded,
        ∃ action ∈ rule.actions, ∃ targets target answer,
          Target.ofField c.query node.documentPath node.value action.field = .ok targets ∧ target ∈ targets ∧
          (action.check target.2 (action.options.getD (.ofScalar .null))
            ⟨rule.name, target.1, c.inventory⟩).ComesTo answer ∧
          ∃ finding ∈ answer.getD [], e.diagnostic.path = target.1 ++ finding.path ∧
            e.diagnostic.message = if finding.message = "" then rule.description else finding.message := by
  constructor
  · intro template
    obtain ⟨reading, read, same⟩ := Template.exists_readsAs template.toList
    refine ⟨reading, read, fun other read' => read'.unique read, fun values => ?_⟩
    rw [Template.fill, String.toList_ofList, same]
  · intro c rule locations node standard e found
    obtain ⟨action, listed, targets, target, aimed, among, here⟩ := c.target_of_mem_lintNode rule locations found
    obtain ⟨answer, entries, comes, kept, member⟩ := c.record_of_mem_lintTarget rule locations here
    obtain ⟨finding, said, range, _, _, rfl⟩ := c.exists_finding_of_mem_record rule locations kept member
    exact ⟨action, listed, targets, target, answer, aimed, among, comes, finding, said, rfl,
      Rule.messageFor_of_standard standard finding _ _⟩

/-- A rule with an empty message whose check finds braces, and something of which it says nothing. -/
def bracedRule : Rule :=
  { Rule.standard "braced" [] with
    message := some ""
    description := "\x7b\x7bvalue\x7d\x7d is odd"
    actions := [⟨"says", fun _ _ _ => .later 2 (.ok (some [⟨"no \x7b\x7berror\x7d\x7d\x7d", []⟩, ⟨"", [.int 0]⟩])), none, none⟩] }

/-- A node whose value looks like a placeholder. -/
def bracedNode : GivenNode :=
  ⟨[.str "a"], Value.ofScalar (.str "\x7b\x7berror\x7d\x7d")⟩

/-- A context in which nothing is queried. -/
def quiet : RunContext :=
  ⟨.ofDocument ⟨Value.ofScalar .null, none, none, .ok ⟨[]⟩, rfl⟩ none none, fun _ _ => .complete [], "/"⟩

theorem bracedRule_messages :
    Template.fill "\x7b\x7b\x7berror\x7d\x7d \x7b\x7b x \x7d\x7d\x7b\x7berror\x7d" [("error", "\x7b\x7berror\x7d\x7d")] =
      "\x7b\x7b\x7berror\x7d\x7d \x7b\x7berror\x7d" ∧
    bracedRule.message.getD "" = "" ∧
    (quiet.lintNode bracedRule [] bracedNode).recorded.map (fun e => (e.diagnostic.path, e.diagnostic.message)) =
      [([.str "a"], "no \x7b\x7berror\x7d\x7d\x7d"), ([.str "a", .int 0], "\x7b\x7bvalue\x7d\x7d is odd")] ∧
    ∀ e ∈ (quiet.lintNode bracedRule [] bracedNode).recorded, ∃ finding : Finding,
      e.diagnostic.path = [.str "a"] ++ finding.path ∧
      e.diagnostic.message = if finding.message = "" then bracedRule.description else finding.message := by
  refine ⟨by decide +kernel, rfl, by decide +kernel, fun e found => ?_⟩
  obtain ⟨action, listed, targets, target, answer, aimed, among, _, finding, _, place, message⟩ :=
    messages_in_one_pass.2 quiet bracedRule [] bracedNode rfl e found
  rw [List.mem_singleton.mp listed] at aimed
  cases aimed
  rw [List.mem_singleton.mp among] at place
  exact ⟨finding, place, message⟩

end RunContext
end DocLint
