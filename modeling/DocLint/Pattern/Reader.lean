import DocLint.Pattern.Syntax

/-!
# Reading patterns

`Pattern.ofText?` reads a pattern from its written form. Flags for the whole pattern stand in front of
everything else. The readers of nested parts carry a bound that the length of the text covers.
-/
namespace DocLint.Pattern

/-- Reads the flags for the whole pattern, with comments and skipped blanks between them. -/
def readGlobalFlags : Nat → Mode → Reader Mode
  | 0, mode => return mode
  | fuel + 1, mode => do
    let before ← get
    match before.rest with
    | .plain '(' :: .plain '?' :: .plain '#' :: rest =>
      set { before with rest }
      skipComment
      readGlobalFlags fuel mode
    | .plain '(' :: .plain '?' :: .plain c :: rest =>
      if flagLetters.contains c then
        set { before with rest := .plain c :: rest }
        match ← readFlags with
        | .global on => readGlobalFlags fuel (mode.withGlobal on)
        | .scoped _ _ =>
          set before
          return mode
      else return mode
    | .plain c :: rest =>
      if mode.verbose && isSkipped c then
        set { before with rest }
        readGlobalFlags fuel mode
      else if mode.verbose && c == '#' then
        skipLine
        readGlobalFlags fuel mode
      else return mode
    | _ => return mode

/-- Parts in a row, given in reverse. -/
def inRow (parts : List Pattern) : Pattern :=
  parts.foldl (fun behind p => match behind with
    | .empty => p
    | behind => .seq p behind) .empty

/-- Reads the number of the group that a condition asks for. -/
def readCondition : Reader Nat := do
  let name ← Reader.takeUntil ')'
  let groups := (← get).groups
  if isGroupName name then
    match groups.names.lookup (String.ofList name) with
    | some number => if groups.mayName number then return number else throw .malformed
    | none => throw .malformed
  else
    match Number.readInteger? 10 (String.ofList name) with
    | some (.ofNat (number + 1)) =>
      Reader.modifyGroups fun g => { g with asked := (number + 1) :: g.asked }
      if groups.mayName (number + 1) then return number + 1 else throw .malformed
    | _ => throw .malformed

/-- Opens a group, whose name must be a new one, and gives its number. -/
def openGroup (name : Option String) : Reader Nat := do
  let groups := (← get).groups
  let number := groups.opened + 1
  match name with
  | some name =>
    if (groups.names.lookup name).isSome then throw .malformed
    Reader.modifyGroups fun g => { g with opened := number, names := (name, number) :: g.names }
  | none => Reader.modifyGroups fun g => { g with opened := number }
  return number

/-- Closes a group whose content has been read. -/
def closeGroup (number : Nat) (body : Pattern) : Reader Unit :=
  Reader.modifyGroups fun g => { g with closed := (number, g.widthOf body) :: g.closed }

/-- Reads a name up to a character. -/
def readGroupName (stop : Char) : Reader String := do
  let name ← Reader.takeUntil stop
  if isGroupName name then return String.ofList name else throw .malformed

/-- Reads a reference to a group by its name. -/
def readNamedReference (mode : Mode) : Reader Pattern := do
  let name ← readGroupName ')'
  match (← get).groups.names.lookup name with
  | some number => referTo mode number
  | none => throw .malformed

mutual

/-- Reads parts between bars, as far as something else stands. -/
def readAlternatives : Nat → Mode → Reader Pattern
  | 0, _ => throw .malformed
  | fuel + 1, mode => do
    let first ← readRow fuel mode []
    if ← Reader.accept '|' then return .alt first (← readAlternatives fuel mode) else return first

/-- Reads parts in a row behind those that are done, the last one first. -/
def readRow : Nat → Mode → List Pattern → Reader Pattern
  | 0, _, _ => throw .malformed
  | fuel + 1, mode, done => do
    match ← Reader.peek with
    | none => return inRow done
    | some (.escaped c) =>
      let _ ← Reader.next
      let part ← readEscape mode c
      readRow fuel mode (part :: done)
    | some (.plain c) =>
      if c == '|' || c == ')' then return inRow done
      let _ ← Reader.next
      if mode.verbose && isSkipped c then readRow fuel mode done
      else if mode.verbose && c == '#' then
        skipLine
        readRow fuel mode done
      else
        match c with
        | '[' =>
          let part ← readSet mode
          readRow fuel mode (part :: done)
        | '.' => readRow fuel mode (mode.dot :: done)
        | '^' =>
          readRow fuel mode (.anchor (if mode.multiline then .lineStart else .textStart) :: done)
        | '$' =>
          readRow fuel mode (.anchor (if mode.multiline then .lineEnd else .lastLineEnd) :: done)
        | '(' =>
          match ← readGroup fuel mode with
          | some part => readRow fuel mode (part :: done)
          | none => readRow fuel mode done
        | c =>
          if c == '*' || c == '+' || c == '?' || c == '\x7b' then
            match ← readBounds c with
            | none => readRow fuel mode (mode.literal c.toNat :: done)
            | some (least, most) =>
              match done with
              | [] => throw .malformed
              | last :: done =>
                let greed ← readGreed
                match mode.unrepeated, repeated? least most greed last with
                | false, some part => readRow fuel mode (part :: done)
                | _, _ => throw .malformed
          else readRow fuel mode (mode.literal c.toNat :: done)

/-- Reads a group behind its opening parenthesis; nothing for a comment. -/
def readGroup : Nat → Mode → Reader (Option Pattern)
  | 0, _ => throw .malformed
  | fuel + 1, mode => do
    if !(← Reader.accept '?') then return some (← readCapture fuel mode none)
    match ← Reader.demand with
    | .plain ':' => return some (.plain (← readInside fuel mode))
    | .plain '>' => return some (.atomic (← readInside fuel mode))
    | .plain '=' => return some (.ahead false (← readInside fuel mode))
    | .plain '!' => return some (.ahead true (← readInside fuel mode))
    | .plain '<' =>
      match ← Reader.demand with
      | .plain '=' => return some (← readBehind fuel mode false)
      | .plain '!' => return some (← readBehind fuel mode true)
      | _ => throw .malformed
    | .plain '#' =>
      skipComment
      return none
    | .plain 'P' =>
      match ← Reader.demand with
      | .plain '<' =>
        let name ← readGroupName '>'
        return some (← readCapture fuel mode (some name))
      | .plain '=' => return some (← readNamedReference mode)
      | _ => throw .malformed
    | .plain '(' =>
      let number ← readCondition
      let yes ← readRow fuel mode []
      let no ← if ← Reader.accept '|' then readRow fuel mode [] else pure .empty
      Reader.expect ')'
      return some (.conditional number yes no)
    | .plain c =>
      modify fun s => { s with rest := .plain c :: s.rest }
      match ← readFlags with
      | .global _ => throw .malformed
      | .scoped on off => return some (.plain (← readInside fuel (mode.within on off)))
    | .escaped _ => throw .malformed

/-- Reads the content of a group with its closing parenthesis. -/
def readInside : Nat → Mode → Reader Pattern
  | 0, _ => throw .malformed
  | fuel + 1, mode => do
    let body ← readAlternatives fuel mode
    Reader.expect ')'
    return body

/-- Reads a group that can be referred to. -/
def readCapture : Nat → Mode → Option String → Reader Pattern
  | 0, _, _ => throw .malformed
  | fuel + 1, mode, name => do
    let number ← openGroup name
    let body ← readInside fuel mode
    closeGroup number body
    return .group number body

/-- Reads a look behind, whose content must have a fixed width. -/
def readBehind : Nat → Mode → Bool → Reader Pattern
  | 0, _, _ => throw .malformed
  | fuel + 1, mode, negated => do
    let outer := (← get).groups.behindFrom
    Reader.modifyGroups fun g => { g with behindFrom := outer.or (some g.opened) }
    let body ← readAlternatives fuel mode
    Reader.modifyGroups fun g => { g with behindFrom := outer }
    Reader.expect ')'
    let width := (← get).groups.widthOf body
    if width.most == some width.least then return .behind negated width.least body
    else throw .malformed

end

/-- Reads a whole pattern. -/
def readWhole (bound : Nat) (mode : Mode) : Reader Pattern := do
  let mode ← readGlobalFlags bound mode
  let pattern ← readAlternatives bound mode
  if mode.ascii && mode.unicode then throw .mixedAlphabets
  let s ← get
  if s.rest.isEmpty && s.groups.asked.all (· ≤ s.groups.opened) then return pattern
  else throw .malformed

/-- The pattern that a text writes, in a mode for the whole. -/
def ofText? (mode : Mode) (s : String) : Except PatternError Pattern :=
  match Symbol.ofChars? s.toList with
  | none => .error .malformed
  | some symbols => (readWhole (6 * symbols.length + 6) mode).run' ⟨symbols, .none⟩

/-- The pattern and the flags of a text between slashes, if it has this form. -/
def delimited? (cs : List Char) : Option (List Char × List Char) :=
  match cs with
  | '/' :: rest =>
    let flags := (rest.reverse.takeWhile (· != '/')).reverse
    if flags.length < rest.length then
      some (rest.take (rest.length - flags.length - 1), flags)
    else none
  | _ => none

/-- The pattern that an option of a rule gives: bare, or between slashes with flags behind, of which
other letters than `i`, `m` and `s` are overlooked. -/
def ofOption? (s : String) : Except PatternError Pattern :=
  match delimited? s.toList with
  | some (body, flags) =>
    ofText? (Mode.standard.withGlobal (flags.filter ['i', 'm', 's'].contains)) (String.ofList body)
  | none => ofText? .standard s

end DocLint.Pattern
