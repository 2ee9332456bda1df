import DocLint.Number.Decimal
import DocLint.Text.Digit

/-!
# Tokens of path queries

A query is read as tokens with blanks between them: marks, names, quoted names, numbers, comparisons
and the names of operators between grave accents.
-/
namespace DocLint.Query

/-- How two values are compared in a filter. -/
inductive Comparison where
  | equal
  | unequal
  | less
  | atMost
  | greater
  | atLeast
  | containsPattern
  deriving DecidableEq, Inhabited

/-- A token of a query. -/
inductive Token where
  | dollar
  | current
  | dot
  | dots
  | star
  | opening
  | closing
  | openingGroup
  | closingGroup
  | comma
  | colon
  | question
  | both
  | either
  | negation
  | name (text : String)
  | quoted (text : String)
  | int (i : Int)
  | real (x : Binary64)
  | comparison (c : Comparison)
  | operator (name : String)
  deriving DecidableEq, Inhabited

namespace Token

/-- A character that a name can start with. -/
def startsName (c : Char) : Bool :=
  c.isAlpha || c == '_'

/-- A character that a name can go on with. -/
def isInName (c : Char) : Bool :=
  c.isAlphanum || c == '_' || c == '@' || c == '-'

/-- A blank that may stand between tokens. -/
def isBetween (c : Char) : Bool :=
  c == ' ' || c == '\t' || c == '\n'

/-- The text up to a closing quote, and what follows it. A backslash takes the next character as it
is, which may be any but a line feed. -/
def quotedText? (quote : Char) : List Char → Option (List Char × List Char)
  | [] => none
  | '\\' :: c :: rest =>
    if c == '\n' then none else (quotedText? quote rest).map fun (body, rest) => (c :: body, rest)
  | c :: rest =>
    if c == quote then some ([], rest)
    else if c == '\\' then none
    else (quotedText? quote rest).map fun (body, rest) => (c :: body, rest)

/-- A token of text between quotes, and what follows it. -/
def closeQuote? (quote : Char) (make : String → Token) (cs : List Char) :
    Option (Token × List Char) :=
  (quotedText? quote cs).map fun (body, rest) => (make (String.ofList body), rest)

/-- A name at the start of some characters, and what follows it. -/
def readName (cs : List Char) : Token × List Char :=
  (.name (String.ofList (cs.takeWhile isInName)), cs.dropWhile isInName)

/-- A number of decimal digits, with a fraction when digits follow a point. -/
def readNumber? (negative : Bool) (cs : List Char) : Option (Token × List Char) := do
  let digits := cs.takeWhile Text.isDecimal
  let rest := cs.dropWhile Text.isDecimal
  let whole ← Text.decimalNat? digits
  if digits.isEmpty then none
  else
    match rest with
    | '.' :: c :: more =>
      if Text.isDecimal c then
        let fraction := (c :: more).takeWhile Text.isDecimal
        let n ← Text.decimalNat? (digits ++ fraction)
        return (.real (Binary64.ofDecimal negative n (-(fraction.length : Int))),
          (c :: more).dropWhile Text.isDecimal)
      else return (.int (if negative then -(whole : Int) else whole), rest)
    | _ => return (.int (if negative then -(whole : Int) else whole), rest)

/-- The token at the start of some characters that are no blanks, and what follows it. -/
def read? : List Char → Option (Token × List Char)
  | [] => none
  | '.' :: '.' :: rest => some (.dots, rest)
  | '&' :: '&' :: rest => some (.both, rest)
  | '|' :: '|' :: rest => some (.either, rest)
  | '=' :: '~' :: rest => some (.comparison .containsPattern, rest)
  | '=' :: '=' :: rest => some (.comparison .equal, rest)
  | '!' :: '=' :: rest => some (.comparison .unequal, rest)
  | '<' :: '=' :: rest => some (.comparison .atMost, rest)
  | '>' :: '=' :: rest => some (.comparison .atLeast, rest)
  | c :: rest =>
    if c == '$' then some (.dollar, rest)
    else if c == '@' then
      match rest with
      | d :: _ => if startsName d then
          let (token, after) := readName rest
          match token with
          | .name text => some (.name ("@" ++ text), after)
          | _ => none
        else some (.current, rest)
      | [] => some (.current, rest)
    else if c == '.' then some (.dot, rest)
    else if c == '*' then some (.star, rest)
    else if c == '[' then some (.opening, rest)
    else if c == ']' then some (.closing, rest)
    else if c == '(' then some (.openingGroup, rest)
    else if c == ')' then some (.closingGroup, rest)
    else if c == ',' then some (.comma, rest)
    else if c == ':' then some (.colon, rest)
    else if c == '?' then some (.question, rest)
    else if c == '&' then some (.both, rest)
    else if c == '!' then some (.negation, rest)
    else if c == '=' then some (.comparison .equal, rest)
    else if c == '<' then some (.comparison .less, rest)
    else if c == '>' then some (.comparison .greater, rest)
    else if c == '\'' || c == '"' then closeQuote? c .quoted rest
    else if c == '\x60' then closeQuote? c .operator rest
    else if c == '-' then readNumber? true rest
    else if Text.isDecimal c then readNumber? false (c :: rest)
    else if startsName c then some (readName (c :: rest))
    else none

/-- The tokens of some characters, no more than a number of them. -/
def scanWithin : Nat → List Char → Option (List Token)
  | 0, cs => if cs.all isBetween then some [] else none
  | bound + 1, cs =>
    match cs.dropWhile isBetween with
    | [] => some []
    | c :: rest => do
      let (token, after) ← read? (c :: rest)
      return token :: (← scanWithin bound after)

/-- The tokens of a query. -/
def scan? (s : String) : Option (List Token) :=
  scanWithin s.toList.length s.toList

end Token
end DocLint.Query
