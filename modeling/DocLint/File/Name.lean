/-!
# File names

Names of files, taken apart at slashes. `tidied` drops what does not matter to a name, and `canonical`
gives the one absolute name of a place, by which names are compared.
-/
namespace DocLint.FileName

/-- The parts of a name between slashes. -/
def splitAtSlash : List Char → List (List Char)
  | [] => [[]]
  | c :: rest =>
    if c == '/' then [] :: splitAtSlash rest
    else
      match splitAtSlash rest with
      | part :: parts => (c :: part) :: parts
      | [] => [[c]]

/-- The parts of a name without empty ones and those that stay where they are. -/
def parts (name : String) : List String :=
  ((splitAtSlash name.toList).map String.ofList).filter fun p => p != "" && p != "."

/-- The slashes that make a name absolute: two when exactly two stand at its start. -/
def lead (name : String) : String :=
  match name.toList with
  | '/' :: '/' :: '/' :: _ => "/"
  | '/' :: '/' :: _ => "//"
  | '/' :: _ => "/"
  | _ => ""

/-- Whether a name is absolute. -/
def isAbsolute (name : String) : Bool :=
  name.startsWith "/"

/-- The name with a lead and parts. -/
def ofParts (lead : String) (parts : List String) : String :=
  if lead.isEmpty && parts.isEmpty then "." else lead ++ "/".intercalate parts

/-- A name without what does not matter to it. -/
def tidied (name : String) : String :=
  ofParts (lead name) (parts name)

/-- The name of a file seen from a directory. -/
def within (directory name : String) : String :=
  if isAbsolute name then name
  else if directory.isEmpty || directory.endsWith "/" then directory ++ name
  else directory ++ "/" ++ name

/-- The directory that a tidied name is in; the root and the current directory are in themselves. -/
def parent (name : String) : String :=
  ofParts (lead name) (parts name).dropLast

/-- Whether a part leads to the directory above. -/
def isUp (part : String) : Bool :=
  part == ".."

/-- Parts with each step up taken back together with the step before it. The first argument holds the
parts so far, last first; at a root there is nothing above. -/
def resolveUps (rooted : Bool) : List String → List String → List String
  | done, [] => done.reverse
  | done, part :: rest =>
    if isUp part then
      match done with
      | [] => if rooted then resolveUps rooted [] rest else resolveUps rooted [part] rest
      | last :: before =>
        if isUp last then resolveUps rooted (part :: done) rest else resolveUps rooted before rest
    else resolveUps rooted (part :: done) rest

/-- A name with its steps up taken back as far as they go. -/
def normalized (name : String) : String :=
  ofParts (lead name) (resolveUps (isAbsolute name) [] (parts name))

/-- Whether a name is the address of something that need not be a file. -/
def isAddress (name : String) : Bool :=
  hasMark name.toList
where
  /-- Whether the mark of an address occurs. -/
  hasMark : List Char → Bool
    | [] => false
    | c :: rest => [':', '/', '/'].isPrefixOf (c :: rest) || hasMark rest

/-- The absolute name of a place, seen from a base directory inside the working directory. Addresses
stay as they are. -/
def canonical (workingDir : String) (base : Option String) (name : String) : String :=
  if isAddress name then name
  else
    let seen := match base with
      | some directory => within directory name
      | none => name
    normalized (within workingDir seen)

end DocLint.FileName
