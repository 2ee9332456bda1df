import DocLint.Path.Compile

/-!
# The grammar of path expressions

The steps behind the dollar sign as they may be written: a dot with a star or a name, a bracket, or two dots
with any of these. A form carries what makes it well-formed, so every list of forms is the syntax of an
expression; `written` spells it and `selectors` is what it stands for. Nothing here reads: that the reader
agrees is the matter of another module. A text spells one list of steps at most if it spells a single target
in one way only, which is shown here for targets (`Target.written_injective`).
-/
namespace DocLint.PathForm

/-- A character of a quoted key: one that stands for itself, or any but a line feed behind a backslash. -/
inductive QuotedChar (quote : Char) where
  | plain (c : Char) (unlikeQuote : c ≠ quote) (unlikeBackslash : c ≠ '\\')
  | escaped (c : Char) (unlikeLineFeed : c ≠ '\n')

/-- The marks between which a key may stand. -/
inductive Quote where
  | single
  | double

/-- A name that stands without quotes. -/
@[ext] structure Name where
  chars : List Char
  nonempty : chars ≠ []
  plain : ∀ c ∈ chars, CompiledPath.isNameChar c = true

/-- Decimal digits of any script. -/
@[ext] structure Digits where
  chars : List Char
  nonempty : chars ≠ []
  decimal : ∀ c ∈ chars, Text.isDecimal c = true

/-- The character of a mark. -/
def Quote.mark : Quote → Char
  | .single => '\''
  | .double => '"'

/-- A bracket: of anything, of a position, or of a quoted key. -/
inductive Bracket where
  | any
  | index (digits : Digits)
  | key (quote : Quote) (body : List (QuotedChar quote.mark))

/-- What may stand behind one dot. -/
inductive Label where
  | any
  | name (name : Name)

/-- What may stand behind two dots. -/
inductive Target where
  | label (label : Label)
  | bracket (bracket : Bracket)

/-- A step. -/
inductive Step where
  | child (label : Label)
  | bracket (bracket : Bracket)
  | descent (target : Target)

/-! ### How forms are written -/

def QuotedChar.written {quote : Char} : QuotedChar quote → List Char
  | .plain c _ _ => [c]
  | .escaped c _ => ['\\', c]

def Bracket.written : Bracket → List Char
  | .any => ['[', '*', ']']
  | .index digits => '[' :: (digits.chars ++ [']'])
  | .key quote body => '[' :: quote.mark :: (body.flatMap QuotedChar.written ++ [quote.mark, ']'])

def Label.written : Label → List Char
  | .any => ['*']
  | .name n => n.chars

def Target.written : Target → List Char
  | .label l => l.written
  | .bracket b => b.written

def Step.written : Step → List Char
  | .child l => '.' :: l.written
  | .bracket b => b.written
  | .descent t => '.' :: '.' :: t.written

/-- The text of steps. -/
def written (steps : List Step) : List Char :=
  steps.flatMap Step.written

/-! ### What forms stand for -/

/-- The character of a key. -/
def QuotedChar.char {quote : Char} : QuotedChar quote → Char
  | .plain c _ _ => c
  | .escaped c _ => c

/-- The number that digits write: each counts ten times as much as the next. -/
def Digits.value (digits : Digits) : Nat :=
  digits.chars.foldl (fun n c => 10 * n + (Text.decimalValue? c).getD 0) 0

def Bracket.selector : Bracket → Selector
  | .any => .any
  | .index digits => .index digits.value
  | .key _ body => .key (String.ofList (body.map QuotedChar.char))

def Label.selector : Label → Selector
  | .any => .any
  | .name n => .key (String.ofList n.chars)

def Target.selector : Target → Selector
  | .label l => l.selector
  | .bracket b => b.selector

/-- The selectors of a step: two dots stand for a descent in front of their target. -/
def Step.selectors : Step → List Selector
  | .child l => [l.selector]
  | .bracket b => [b.selector]
  | .descent t => [.descend, t.selector]

/-- The selectors of steps, in order. -/
def selectors (steps : List Step) : List Selector :=
  steps.flatMap Step.selectors

/-- An expression spells steps: without the blanks around it, it is a dollar sign with their text. -/
def Spells (expression : String) (steps : List Step) : Prop :=
  (Text.trim expression).toList = '$' :: written steps

/-! ### One text, one form -/

theorem Quote.mark_ne_backslash (quote : Quote) : quote.mark ≠ '\\' := by
  cases quote <;> decide

theorem Quote.mark_injective {quote quote' : Quote} (same : quote.mark = quote'.mark) :
    quote = quote' := by
  cases quote <;> cases quote' <;> first | rfl | exact absurd same (by decide)

/-- The text of a quoted key is cut into characters in one way. -/
theorem quoted_injective {quote : Char} {body body' : List (QuotedChar quote)}
    (same : body.flatMap QuotedChar.written = body'.flatMap QuotedChar.written) : body = body' := by
  induction body generalizing body' with
  | nil =>
    cases body' with
    | nil => rfl
    | cons c _ => cases c <;> simp [QuotedChar.written] at same
  | cons c rest ih =>
    cases body' with
    | nil => cases c <;> simp [QuotedChar.written] at same
    | cons d rest' =>
      rw [List.flatMap_cons, List.flatMap_cons] at same
      cases c with
      | plain c unlikeQuote unlikeBackslash =>
        cases d with
        | plain d _ _ =>
          simp only [QuotedChar.written, List.singleton_append, List.cons.injEq] at same
          obtain ⟨rfl, same⟩ := same
          rw [ih same]
        | escaped d _ =>
          simp only [QuotedChar.written, List.cons_append, List.cons.injEq] at same
          exact absurd same.1 unlikeBackslash
      | escaped c unlikeLineFeed =>
        cases d with
        | plain d _ unlikeBackslash =>
          simp only [QuotedChar.written, List.cons_append, List.cons.injEq] at same
          exact absurd same.1.symm unlikeBackslash
        | escaped d _ =>
          simp only [QuotedChar.written, List.cons_append, List.nil_append, List.cons.injEq, true_and] at same
          obtain ⟨rfl, same⟩ := same
          rw [ih same]

/-- The first character of digits is one. -/
theorem Digits.exists_cons (digits : Digits) :
    ∃ c rest, digits.chars = c :: rest ∧ Text.isDecimal c = true := by
  obtain ⟨c, rest, chars⟩ := List.exists_cons_of_ne_nil digits.nonempty
  exact ⟨c, rest, chars, digits.decimal c (chars ▸ List.mem_cons_self)⟩

/-- The first character of a name is one of names. -/
theorem Name.exists_cons (name : Name) :
    ∃ c rest, name.chars = c :: rest ∧ CompiledPath.isNameChar c = true := by
  obtain ⟨c, rest, chars⟩ := List.exists_cons_of_ne_nil name.nonempty
  exact ⟨c, rest, chars, name.plain c (chars ▸ List.mem_cons_self)⟩

theorem Bracket.written_injective {b b' : Bracket} (same : b.written = b'.written) : b = b' := by
  have star : Text.isDecimal '*' = false := by decide
  have marks : ∀ quote : Quote, Text.isDecimal quote.mark = false := by
    intro quote
    cases quote <;> decide
  -- forms of different kinds differ in the character behind the bracket
  have digitsApart : ∀ (digits : Digits) (c : Char) (rest : List Char), Text.isDecimal c = false →
      digits.chars ++ [']'] ≠ c :: rest := by
    intro digits c rest other same
    obtain ⟨d, more, chars, decimal⟩ := digits.exists_cons
    rw [chars, List.cons_append, List.cons.injEq] at same
    exact absurd decimal (by simp [same.1, other])
  have starApart : ∀ quote : Quote, quote.mark ≠ '*' := by
    intro quote
    cases quote <;> decide
  cases b with
  | any =>
    cases b' with
    | any => rfl
    | index digits => exact absurd (List.cons.inj same).2.symm (digitsApart digits _ _ star)
    | key quote body => exact absurd (List.cons.inj (List.cons.inj same).2).1.symm (starApart quote)
  | index digits =>
    cases b' with
    | any => exact absurd (List.cons.inj same).2 (digitsApart digits _ _ star)
    | index digits' =>
      have chars := List.append_cancel_right (List.cons.inj same).2
      rw [Digits.ext chars]
    | key quote body => exact absurd (List.cons.inj same).2 (digitsApart digits _ _ (marks quote))
  | key quote body =>
    cases b' with
    | any => exact absurd (List.cons.inj (List.cons.inj same).2).1 (starApart quote)
    | index digits => exact absurd (List.cons.inj same).2.symm (digitsApart digits _ _ (marks quote))
    | key quote' body' =>
      obtain ⟨mark, rest⟩ := List.cons.inj (List.cons.inj same).2
      obtain rfl := Quote.mark_injective mark
      rw [quoted_injective (List.append_cancel_right rest)]

theorem Label.written_injective {l l' : Label} (same : l.written = l'.written) : l = l' := by
  have apart : ∀ name : Name, name.chars ≠ ['*'] := by
    intro name star
    exact absurd (name.plain '*' (star ▸ List.mem_cons_self)) (by decide)
  cases l with
  | any =>
    cases l' with
    | any => rfl
    | name name => exact absurd same.symm (apart name)
  | name name =>
    cases l' with
    | any => exact absurd same (apart name)
    | name name' => rw [Name.ext same]

/-- A label begins with a star or a character of names, which are neither dots nor brackets. -/
theorem Label.exists_cons (l : Label) :
    ∃ c rest, l.written = c :: rest ∧ c ≠ '.' ∧ c ≠ '[' := by
  cases l with
  | any => exact ⟨'*', [], rfl, by decide, by decide⟩
  | name name =>
    obtain ⟨c, rest, chars, plain⟩ := name.exists_cons
    refine ⟨c, rest, chars, ?_, ?_⟩ <;>
    · rintro rfl
      exact absurd plain (by decide)

theorem Bracket.exists_cons (b : Bracket) : ∃ rest, b.written = '[' :: rest := by
  cases b <;> exact ⟨_, rfl⟩

theorem Step.written_ne_nil (step : Step) : step.written ≠ [] := by
  cases step with
  | child l | descent t => exact List.cons_ne_nil _ _
  | bracket b =>
    obtain ⟨rest, text⟩ := b.exists_cons
    simp [Step.written, text]

theorem Target.written_injective {t t' : Target} (same : t.written = t'.written) : t = t' := by
  have apart : ∀ (l : Label) (b : Bracket), l.written ≠ b.written := by
    intro l b same
    obtain ⟨c, rest, label, _, other⟩ := l.exists_cons
    obtain ⟨rest', bracket⟩ := b.exists_cons
    rw [label, bracket] at same
    exact other (List.cons.inj same).1
  cases t with
  | label l =>
    cases t' with
    | label l' => rw [Label.written_injective same]
    | bracket b => exact absurd same (apart l b)
  | bracket b =>
    cases t' with
    | label l => exact absurd same.symm (apart l b)
    | bracket b' => rw [Bracket.written_injective same]

/-- Steps begin with a dot or a bracket, and so end a name in front of them. -/
theorem head?_written {steps : List Step} {c : Char} (first : (written steps).head? = some c) :
    CompiledPath.isNameChar c = false := by
  cases steps with
  | nil => cases first
  | cons step rest =>
    cases step with
    | child label =>
      cases first
      decide
    | descent target =>
      cases first
      decide
    | bracket b =>
      obtain ⟨_, text⟩ := b.exists_cons
      simp only [written, List.flatMap_cons, Step.written, text, List.cons_append,
        List.head?_cons, Option.some.injEq] at first
      subst first
      decide

end DocLint.PathForm
