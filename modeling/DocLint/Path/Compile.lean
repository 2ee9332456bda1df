import DocLint.Path.Selector
import DocLint.Text.Blank
import DocLint.Text.Digit

/-!
# Compiling path expressions

The expressions that compile: `$` followed by steps. A step is a dot with a name or `*`, a bracket
with a position, a quoted key or `*`, or two dots in front of any of these selectors. Blanks around an
expression are dropped. What does not compile is reported with the offset at which reading stopped.
-/
namespace DocLint

/-- Why an expression does not compile. Offsets count from the dollar sign. -/
inductive PathError where
  | notRooted (expression : String)
  | dotBeforeBracket (expression : String)
  | unsupported (expression : String) (offset : Nat)
  | unexpected (expression : String) (c : Char) (offset : Nat)
  deriving DecidableEq

/-- What is wrong with an expression. -/
def PathError.message : PathError → String
  | .notRooted e => s!"Cannot compile '{e}': expression must start with '$'"
  | .dotBeforeBracket e => s!"Cannot compile '{e}': bracket selector after '.'"
  | .unsupported e offset => s!"Cannot compile '{e}': unsupported syntax at offset {offset}"
  | .unexpected e c offset => s!"Cannot compile '{e}': unexpected '{c}' at offset {offset}"

namespace CompiledPath

/-- A character of a name that needs no quotes. -/
def isNameChar (c : Char) : Bool :=
  c.isAlphanum || c == '_' || c == '-' || c == '$' || c == '@'

/-- The text of a quoted key up to its closing quote, and what follows. A backslash takes the next
character as it is, which may be any but a line feed. -/
def readQuoted? (quote : Char) : List Char → Option (List Char × List Char)
  | [] => none
  | '\\' :: c :: rest =>
    if c == '\n' then none else (readQuoted? quote rest).map fun (body, rest) => (c :: body, rest)
  | c :: rest =>
    if c == quote then some ([], rest)
    else if c == '\\' then none
    else (readQuoted? quote rest).map fun (body, rest) => (c :: body, rest)

/-- A position of decimal digits up to the closing bracket, and what follows. -/
def readIndex? (cs : List Char) : Option (Nat × List Char) :=
  let digits := cs.takeWhile Text.isDecimal
  match digits.isEmpty, cs.dropWhile Text.isDecimal with
  | false, ']' :: rest => (Text.decimalNat? digits).map fun n => (n, rest)
  | _, _ => none

/-- The selector that a bracket holds, and what follows its closing bracket. -/
def readBracket? : List Char → Option (Selector × List Char)
  | '*' :: ']' :: rest => some (.any, rest)
  | '\'' :: rest => closeQuoted? '\'' rest
  | '"' :: rest => closeQuoted? '"' rest
  | cs => (readIndex? cs).map fun (n, rest) => (.index n, rest)
where
  /-- A quoted key with its closing bracket. -/
  closeQuoted? (quote : Char) (cs : List Char) : Option (Selector × List Char) :=
    match readQuoted? quote cs with
    | some (body, ']' :: rest) => some (.key (String.ofList body), rest)
    | _ => none

/-- The selector at the start of some characters, and what follows it. -/
def readSelector? : List Char → Option (Selector × List Char)
  | '*' :: rest => some (.any, rest)
  | '[' :: rest => readBracket? rest
  | cs =>
    let name := cs.takeWhile isNameChar
    if name.isEmpty then none
    else some (.key (String.ofList name), cs.dropWhile isNameChar)

/-- Reading a quoted key consumes at least its closing quote. -/
theorem readQuoted?_length {quote : Char} {cs body rest : List Char}
    (read : readQuoted? quote cs = some (body, rest)) : rest.length < cs.length := by
  fun_induction readQuoted? quote cs generalizing body rest with
  | case1 => simp at read
  | case2 => simp at read
  | case3 c tail _ ih =>
    obtain ⟨⟨b, r⟩, step, same⟩ := Option.map_eq_some_iff.1 read
    cases same
    have := ih step
    simp only [List.length_cons]
    omega
  | case4 => cases read; simp
  | case5 => simp at read
  | case6 c tail _ _ _ ih =>
    obtain ⟨⟨b, r⟩, step, same⟩ := Option.map_eq_some_iff.1 read
    cases same
    have := ih step
    simp only [List.length_cons]
    omega

/-- Reading a position consumes at least its closing bracket. -/
theorem readIndex?_length {cs rest : List Char} {n : Nat}
    (read : readIndex? cs = some (n, rest)) : rest.length < cs.length := by
  unfold readIndex? at read
  simp only at read
  split at read
  next r _ tail =>
    obtain ⟨m, _, same⟩ := Option.map_eq_some_iff.1 read
    cases same
    have digits : cs.dropWhile Text.isDecimal <:+ cs := List.dropWhile_suffix Text.isDecimal
    have bound := digits.length_le
    rw [tail] at bound
    simp only [List.length_cons] at bound
    omega
  next => simp at read

/-- Reading what a bracket holds consumes at least its closing bracket. -/
theorem readBracket?_length {cs rest : List Char} {s : Selector}
    (read : readBracket? cs = some (s, rest)) : rest.length < cs.length := by
  have quotedCase : ∀ {quote : Char} {tail : List Char},
      readBracket?.closeQuoted? quote tail = some (s, rest) → rest.length < tail.length := by
    intro quote tail closed
    unfold readBracket?.closeQuoted? at closed
    split at closed
    next body r step =>
      cases closed
      have := readQuoted?_length step
      simp only [List.length_cons] at this
      omega
    next => simp at closed
  unfold readBracket? at read
  split at read
  · cases read; simp only [List.length_cons]; omega
  · have := quotedCase read; simp only [List.length_cons]; omega
  · have := quotedCase read; simp only [List.length_cons]; omega
  · obtain ⟨⟨n, r⟩, step, same⟩ := Option.map_eq_some_iff.1 read
    cases same
    exact readIndex?_length step

/-- Reading a selector consumes at least one character. -/
theorem readSelector?_length {cs rest : List Char} {s : Selector}
    (read : readSelector? cs = some (s, rest)) : rest.length < cs.length := by
  unfold readSelector? at read
  split at read
  · cases read; simp
  · have := readBracket?_length read; simp only [List.length_cons]; omega
  · dsimp only at read
    split at read
    next => simp at read
    next nonempty =>
      cases read
      have split := congrArg List.length (List.takeWhile_append_dropWhile (p := isNameChar) (l := cs))
      have positive : 0 < (cs.takeWhile isNameChar).length := by
        cases taken : cs.takeWhile isNameChar with
        | nil => simp [taken] at nonempty
        | cons => simp
      simp only [List.length_append] at split
      omega

/-- The selectors of the steps that follow the dollar sign. `shown` and `trimmed` are the expression
as it is reported, before and after its blanks were dropped. -/
def readSteps (shown trimmed : String) (cs : List Char) : Except PathError (List Selector) :=
  let offset (rest : List Char) : Nat := trimmed.length - rest.length
  match cs with
  | [] => .ok []
  | '.' :: '.' :: rest =>
    match step : readSelector? rest with
    | some (s, after) => do
      have : after.length < rest.length := readSelector?_length step
      return .descend :: s :: (← readSteps shown trimmed after)
    | none => .error (.unsupported trimmed (offset rest))
  | '.' :: '[' :: _ => .error (.dotBeforeBracket shown)
  | '.' :: rest =>
    match step : readSelector? rest with
    | some (s, after) => do
      have : after.length < rest.length := readSelector?_length step
      return s :: (← readSteps shown trimmed after)
    | none => .error (.unsupported trimmed (offset rest))
  | '[' :: rest =>
    match step : readSelector? ('[' :: rest) with
    | some (s, after) => do
      have : after.length < rest.length + 1 := readSelector?_length step
      return s :: (← readSteps shown trimmed after)
    | none => .error (.unsupported trimmed (offset ('[' :: rest)))
  | c :: rest => .error (.unexpected shown c (offset (c :: rest)))
termination_by cs.length

end CompiledPath

/-- The selectors that an expression stands for. -/
def CompiledPath.ofExpression (expression : String) : Except PathError CompiledPath :=
  let trimmed := Text.trim expression
  match trimmed.toList with
  | '$' :: rest => do
    return ⟨expression, ← CompiledPath.readSteps expression trimmed rest⟩
  | _ => .error (.notRooted expression)

/-- The selectors that an expression stands for, if it compiles. -/
def CompiledPath.ofExpression? (expression : String) : Option CompiledPath :=
  (CompiledPath.ofExpression expression).toOption

end DocLint
