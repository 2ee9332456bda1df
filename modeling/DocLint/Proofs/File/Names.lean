import DocLint.File.Name
import DocLint.Proofs.Lists
import Mathlib.Logic.Relation

/-!
# Names of places

Names are told by their components, the texts between slashes. A name seen from a directory has the components
of the directory in front of its own, so what becomes of it is decided by its components: steps up are taken back
one component at a time (`resolveUps_append`), and a detour in a relative name changes nothing
(`canonical_eq_of_sameWay`). The canonical name of what is no address is a root with ordinary parts behind it
(`IsCanonical`); such a name is clean and is canonical already.
-/
namespace DocLint.FileName

/-- Parts of names are those between slashes. -/
theorem splitAtSlash_eq (cs : List Char) : splitAtSlash cs = cs.splitOn '/' :=
  eq_splitOn rfl (fun c cs part parts split => by rw [splitAtSlash, split]) cs

/-! ### Components -/

/-- The texts between the slashes of a name. -/
def components (name : String) : List String :=
  (name.toList.splitOn '/').map String.ofList

/-- A component matters if it is not empty and does not stay where it is. -/
def matters (component : String) : Bool :=
  component != "" && component != "."

/-- A component that names something: it is not empty, neither stays nor leads up, and holds no slash. -/
structure IsOrdinary (component : String) : Prop where
  nonempty : component ≠ ""
  moves : component ≠ "."
  down : component ≠ ".."
  noSlash : '/' ∉ component.toList

section
variable {name part : String} {ps : List String}

theorem parts_eq (name : String) : parts name = (components name).filter matters := by
  rw [parts, splitAtSlash_eq]
  rfl

@[simp] theorem parts_empty : parts "" = [] := rfl

theorem IsOrdinary.matters (ordinary : IsOrdinary part) : matters part = true := by
  simp [FileName.matters, ordinary.nonempty, ordinary.moves]

theorem IsOrdinary.isUp (ordinary : IsOrdinary part) : isUp part = false := by
  simp [FileName.isUp, ordinary.down]

/-- The components behind a slash follow those in front of it. -/
theorem components_append_slash (front back : String) :
    components (front ++ "/" ++ back) = components front ++ components back := by
  simp [components, List.splitOn_append_cons_self]

theorem parts_append_slash (front back : String) :
    parts (front ++ "/" ++ back) = parts front ++ parts back := by
  simp only [parts_eq, components_append_slash, List.filter_append]

theorem components_intercalate (noSlash : ∀ p ∈ ps, '/' ∉ p.toList) (nonempty : ps ≠ []) :
    components ("/".intercalate ps) = ps := by
  have apart : ∀ cs ∈ ps.map String.toList, '/' ∉ cs := by simpa using noSlash
  rw [components, String.toList_intercalate]
  change List.map String.ofList ((['/'].intercalate (ps.map String.toList)).splitOn '/') = ps
  rw [List.splitOn_intercalate '/' apart (by simpa using nonempty)]
  simp

/-- Parts that are no steps up are ordinary. -/
theorem isOrdinary_of_mem_parts (member : part ∈ parts name) (level : isUp part = false) :
    IsOrdinary part := by
  rw [parts_eq, List.mem_filter] at member
  obtain ⟨cs, among, rfl⟩ := List.mem_map.mp member.1
  have matters := member.2
  simp only [FileName.matters, Bool.and_eq_true, bne_iff_ne] at matters
  refine ⟨matters.1, matters.2, by simpa [FileName.isUp] using level, ?_⟩
  rw [String.toList_ofList]
  exact not_mem_of_mem_splitOn among

theorem parts_intercalate (ordinary : ∀ p ∈ ps, IsOrdinary p) : parts ("/".intercalate ps) = ps := by
  by_cases nonempty : ps = []
  · subst nonempty
    rfl
  · rw [parts_eq, components_intercalate (fun p member => (ordinary p member).noSlash) nonempty]
    exact List.filter_eq_self.mpr fun p member => (ordinary p member).matters

end

/-! ### Steps up -/

section
variable {rooted : Bool} {done ps back : List String} {x : String}

/-- Steps up behind others are taken back from what the others lead to. -/
theorem resolveUps_append (front back : List String) :
    resolveUps rooted done (front ++ back) =
      resolveUps rooted (resolveUps rooted done front).reverse back := by
  fun_induction resolveUps rooted done front with
  | case1 done => simp
  | case2 part rest up root ih => simpa [resolveUps, up, root] using ih
  | case3 part rest up free ih => simpa [resolveUps, up, free] using ih
  | case4 part rest up last before above ih => simpa [resolveUps, up, above] using ih
  | case5 part rest up last before below ih => simpa [resolveUps, up, below] using ih
  | case6 done part rest level ih => simpa [resolveUps, level] using ih

theorem resolveUps_cons_of_level (level : isUp x = false) :
    resolveUps rooted done (x :: back) = resolveUps rooted (x :: done) back := by
  change (if isUp x then _ else resolveUps rooted (x :: done) back) = _
  rw [level, if_neg Bool.false_ne_true]

/-- A step up takes back the step before it. -/
theorem resolveUps_cons_up (level : isUp x = false) :
    resolveUps rooted done (x :: ".." :: back) = resolveUps rooted done back := by
  rw [resolveUps_cons_of_level level]
  change (if isUp x then _ else resolveUps rooted done back) = _
  rw [level, if_neg Bool.false_ne_true]

theorem resolveUps_of_level (level : ∀ p ∈ ps, isUp p = false) :
    resolveUps rooted done ps = done.reverse ++ ps := by
  induction ps generalizing done with
  | nil => exact (List.append_nil _).symm
  | cons p ps ih =>
    obtain ⟨here, later⟩ := List.forall_mem_cons.mp level
    rw [resolveUps_cons_of_level here, ih later, List.reverse_cons, List.append_assoc, List.singleton_append]

/-- At a root all steps up are taken back, and nothing new comes up. -/
theorem mem_resolveUps (level : ∀ p ∈ done, isUp p = false) (member : x ∈ resolveUps true done ps) :
    isUp x = false ∧ (x ∈ done ∨ x ∈ ps) := by
  fun_induction resolveUps true done ps with
  | case1 done =>
    have among : x ∈ done := List.mem_reverse.mp member
    exact ⟨level x among, .inl among⟩
  | case2 part rest up _ ih =>
    obtain ⟨flat, among⟩ := ih level member
    exact ⟨flat, among.imp_right (List.mem_cons_of_mem part)⟩
  | case3 part rest up free _ => exact absurd rfl free
  | case4 part rest up last before above _ =>
    exact absurd above (by simp [level last List.mem_cons_self])
  | case5 part rest up last before below ih =>
    obtain ⟨flat, among⟩ := ih (fun q kept => level q (List.mem_cons_of_mem last kept)) member
    exact ⟨flat, among.imp (List.mem_cons_of_mem last) (List.mem_cons_of_mem part)⟩
  | case6 done part rest level' ih =>
    obtain ⟨flat, among⟩ := ih (List.forall_mem_cons.mpr ⟨by simpa using level', level⟩) member
    refine ⟨flat, ?_⟩
    rcases among with kept | later
    · rcases List.mem_cons.mp kept with rfl | earlier
      · exact .inr List.mem_cons_self
      · exact .inl earlier
    · exact .inr (List.mem_cons_of_mem part later)

end

/-! ### Canonical names -/

/-- A root with ordinary parts behind it. -/
def IsCanonical (name : String) : Prop :=
  ∃ root ps, (root = "/" ∨ root = "//") ∧ (∀ p ∈ ps, IsOrdinary p) ∧ name = root ++ "/".intercalate ps

/-- The mark of an address occurs in a name. -/
def HasMark (name : String) : Prop :=
  [':', '/', '/'] <:+: name.toList

/-- A clean name: it is absolute and no address, no component stays or leads up, a slash at its end is that of a
root, and slashes follow each other only where two, and not three, stand at the start. -/
structure IsClean (name : String) : Prop where
  absolute : isAbsolute name = true
  noMark : ¬HasMark name
  direct : ∀ component ∈ components name, component ≠ "." ∧ component ≠ ".."
  ending : ∀ before, name.toList = before ++ ['/'] → name = "/" ∨ name = "//"
  doubled : ∀ before after, name.toList = before ++ '/' :: '/' :: after →
    before = [] ∧ after.head? ≠ some '/'

section
variable {name root : String} {ps : List String}

theorem isAbsolute_iff : isAbsolute name = true ↔ name.toList.head? = some '/' := by
  have slash : "/".toList = ['/'] := rfl
  rw [isAbsolute, String.startsWith_string_iff, slash]
  cases name.toList <;> simp [eq_comm]

theorem isAddress_iff : isAddress name = true ↔ HasMark name := by
  rw [isAddress, HasMark]
  induction name.toList with
  | nil => simp [isAddress.hasMark]
  | cons c cs ih =>
    rw [isAddress.hasMark, Bool.or_eq_true, ih, List.isPrefixOf_iff_prefix, List.infix_cons_iff]

/-- In ordinary parts with slashes between them, a slash stands between two that are not empty. -/
theorem intercalate_apart (ordinary : ∀ p ∈ ps, IsOrdinary p) (before after : List Char)
    (text : ("/".intercalate ps).toList = before ++ '/' :: after) :
    before ≠ [] ∧ after ≠ [] ∧ after.head? ≠ some '/' := by
  have nonempty : ps ≠ [] := by
    rintro rfl
    simp at text
  have cut : components ("/".intercalate ps) =
      (before.splitOn '/' ++ after.splitOn '/').map String.ofList := by
    rw [components, text, List.splitOn_append_cons_self]
  rw [components_intercalate (fun p member => (ordinary p member).noSlash) nonempty] at cut
  have full : [] ∉ before.splitOn '/' ++ after.splitOn '/' := by
    intro empty
    exact (ordinary _ (cut ▸ List.mem_map_of_mem empty)).nonempty rfl
  refine ⟨?_, ?_, ?_⟩
  · rintro rfl
    simp at full
  · rintro rfl
    simp at full
  · intro slash
    obtain ⟨rest, rfl⟩ := List.head?_eq_some_iff.mp slash
    simp [List.splitOn_cons_eq_if_modifyHead] at full

/-- The lead is decided by the first three characters. -/
theorem lead_eq (name : String) : lead name =
    if name.toList.head? = some '/' then
      if name.toList.tail.head? = some '/' ∧ name.toList.tail.tail.head? ≠ some '/' then "//" else "/"
    else "" := by
  rw [lead]
  split <;> simp_all [List.head?_eq_some_iff]

/-- The roots are those that a name can start with. -/
theorem lead_cases (absolute : isAbsolute name = true) : lead name = "/" ∨ lead name = "//" := by
  rw [lead_eq, if_pos (isAbsolute_iff.mp absolute)]
  split_ifs
  · exact .inr rfl
  · exact .inl rfl

/-- A relative name has no lead. -/
theorem lead_of_relative (relative : isAbsolute name = false) : lead name = "" := by
  rw [← Bool.not_eq_true, isAbsolute_iff] at relative
  rw [lead_eq, if_neg relative]

theorem lead_eq_empty_iff : lead name = "" ↔ isAbsolute name = false := by
  refine ⟨fun none => ?_, lead_of_relative⟩
  by_contra absolute
  rcases lead_cases (Bool.not_eq_false _ ▸ absolute) with one | two
  · exact absurd (one.symm.trans none) (by decide)
  · exact absurd (two.symm.trans none) (by decide)

theorem ofParts_root (isRoot : root = "/" ∨ root = "//") :
    ofParts root ps = root ++ "/".intercalate ps := by
  rcases isRoot with rfl | rfl <;> rfl

/-- An absolute name without what does not matter to it is absolute. -/
theorem isAbsolute_tidied (absolute : isAbsolute name = true) : isAbsolute (tidied name) = true := by
  rw [tidied, ofParts_root (lead_cases absolute), isAbsolute_iff, String.toList_append]
  rcases lead_cases absolute with root | root <;> rw [root] <;> rfl

/-- What is behind a name does not change its lead, unless slashes would come together. -/
theorem lead_append {rest : String} (nonempty : name ≠ "")
    (apart : name.toList.getLast? = some '/' → rest.toList.head? ≠ some '/') :
    lead (name ++ rest) = lead name := by
  have front : name.toList ≠ [] := fun empty => nonempty (String.toList_eq_nil_iff.mp empty)
  rw [lead_eq, lead_eq, String.toList_append]
  -- characters behind the name are looked at if it has fewer than three
  match name.toList, front, apart with
  | [c], _, apart =>
    by_cases first : c = '/'
    · simp_all
    · simp [first]
  | [c, d], _, apart =>
    by_cases second : d = '/'
    · simp_all
    · simp [second]
  | c :: d :: e :: others, _, _ => simp

theorem parts_root_append (isRoot : root = "/" ∨ root = "//") (rest : String) :
    parts (root ++ rest) = parts rest := by
  rcases isRoot with rfl | rfl
  · exact parts_append_slash "" rest
  · exact parts_append_slash "/" rest

/-- A root with ordinary parts behind it has this root and these parts. -/
theorem lead_and_parts (isRoot : root = "/" ∨ root = "//") (ordinary : ∀ p ∈ ps, IsOrdinary p) :
    lead (root ++ "/".intercalate ps) = root ∧ parts (root ++ "/".intercalate ps) = ps := by
  refine ⟨?_, by rw [parts_root_append isRoot, parts_intercalate ordinary]⟩
  rw [lead_append (by rcases isRoot with rfl | rfl <;> decide)]
  · rcases isRoot with rfl | rfl <;> rfl
  · intro _ slash
    obtain ⟨rest, text⟩ := List.head?_eq_some_iff.mp slash
    exact (intercalate_apart ordinary [] rest text).1 rfl

theorem IsCanonical.isAbsolute (canonical : IsCanonical name) : isAbsolute name = true := by
  obtain ⟨root, ps, isRoot, _, rfl⟩ := canonical
  rw [isAbsolute_iff, String.toList_append]
  rcases isRoot with rfl | rfl <;> rfl

/-- Absolute names become canonical when their steps up are taken back. -/
theorem isCanonical_normalized (absolute : isAbsolute name = true) : IsCanonical (normalized name) := by
  refine ⟨lead name, _, lead_cases absolute, fun p member => ?_, ofParts_root (lead_cases absolute)⟩
  rw [absolute] at member
  obtain ⟨level, among⟩ := mem_resolveUps (by simp) member
  exact isOrdinary_of_mem_parts (among.resolve_left List.not_mem_nil) level

/-- Nothing is taken back in a canonical name. -/
theorem IsCanonical.normalized_eq (canonical : IsCanonical name) : normalized name = name := by
  obtain ⟨root, ps, isRoot, ordinary, rfl⟩ := canonical
  obtain ⟨sameLead, sameParts⟩ := lead_and_parts isRoot ordinary
  rw [normalized, sameLead, sameParts, resolveUps_of_level fun p member => (ordinary p member).isUp,
    ofParts_root isRoot]
  rfl

/-- The slashes of a canonical name follow each other only at a start of two. -/
theorem IsCanonical.doubled (canonical : IsCanonical name) (before after : List Char)
    (text : name.toList = before ++ '/' :: '/' :: after) : before = [] ∧ after.head? ≠ some '/' := by
  obtain ⟨root, ps, isRoot, ordinary, rfl⟩ := canonical
  -- behind the root, no slash stands at the start, and none behind another
  have inside : ∀ front, ("/".intercalate ps).toList ≠ front ++ '/' :: '/' :: after := by
    intro front same
    exact (intercalate_apart ordinary front _ same).2.2 rfl
  have start : ∀ rest, ("/".intercalate ps).toList ≠ '/' :: rest := by
    intro rest same
    exact (intercalate_apart ordinary [] rest same).1 rfl
  rw [String.toList_append] at text
  rcases isRoot with rfl | rfl
  · match before with
    | [] => exact absurd (List.cons.inj text).2 (start after)
    | c :: before => exact absurd (List.cons.inj text).2 (inside before)
  · match before with
    | [] =>
      have same := (List.cons.inj (List.cons.inj text).2).2
      refine ⟨rfl, fun slash => ?_⟩
      obtain ⟨rest, rfl⟩ := List.head?_eq_some_iff.mp slash
      exact start rest same
    | [c] => exact absurd (List.cons.inj (List.cons.inj text).2).2 (start after)
    | c :: d :: before => exact absurd (List.cons.inj (List.cons.inj text).2).2 (inside before)

/-- The components of a canonical name are empty or ordinary. -/
theorem IsCanonical.mem_components (canonical : IsCanonical name) {component : String}
    (member : component ∈ components name) : component = "" ∨ IsOrdinary component := by
  obtain ⟨root, ps, isRoot, ordinary, rfl⟩ := canonical
  have behind : component ∈ ["", ""] ∨ component ∈ components ("/".intercalate ps) := by
    rcases isRoot with rfl | rfl
    · refine (List.mem_append.mp (components_append_slash "" _ ▸ member)).imp_left ?_
      exact List.mem_cons_of_mem ""
    · exact List.mem_append.mp (components_append_slash "/" _ ▸ member)
  rcases behind with atRoot | inside
  · simp_all
  by_cases bare : ps = []
  · subst bare
    exact .inl (List.mem_singleton.mp inside)
  · rw [components_intercalate (fun p member => (ordinary p member).noSlash) bare] at inside
    exact .inr (ordinary component inside)

/-- Canonical names end in a slash only if they are roots. -/
theorem IsCanonical.ending (canonical : IsCanonical name) {before : List Char}
    (text : name.toList = before ++ ['/']) : name = "/" ∨ name = "//" := by
  obtain ⟨root, ps, isRoot, ordinary, rfl⟩ := canonical
  by_cases bare : "/".intercalate ps = ""
  · rwa [bare, String.append_empty]
  have last : ("/".intercalate ps).toList.getLast? = some '/' := by
    have full : ("/".intercalate ps).toList ≠ [] := fun empty => bare (String.toList_eq_nil_iff.mp empty)
    rw [← List.getLast?_append_of_ne_nil root.toList full, ← String.toList_append, text]
    simp
  obtain ⟨front, same⟩ := List.getLast?_eq_some_iff.mp last
  exact absurd rfl (intercalate_apart ordinary front [] same).2.1

/-- Canonical names are clean. -/
theorem IsCanonical.isClean (canonical : IsCanonical name) : IsClean name where
  absolute := canonical.isAbsolute
  noMark := by
    rintro ⟨before, after, text⟩
    have start := (canonical.doubled (before ++ [':']) after (by simp [← text])).1
    exact absurd start (by simp)
  direct component member := by
    rcases canonical.mem_components member with rfl | ordinary
    · decide
    · exact ⟨ordinary.moves, ordinary.down⟩
  ending _ text := canonical.ending text
  doubled := canonical.doubled

end

/-! ### Names seen from directories -/

/-- A name as it is seen from a base directory, if there is one. -/
def seen : Option String → String → String
  | some directory, name => within directory name
  | none, name => name

section
variable {name directory workingDir : String} {base : Option String}

/-- An absolute name is the same from any directory. -/
theorem within_of_isAbsolute (absolute : isAbsolute name = true) : within directory name = name := by
  simp [within, absolute]

theorem endsWith_slash_iff : name.endsWith "/" = true ↔ ∃ front, name = front ++ "/" := by
  rw [String.endsWith_eq_endsWith_toSlice, String.Slice.endsWith_string_iff]
  constructor
  · rintro ⟨front, text⟩
    exact ⟨String.ofList front, by rw [← String.toList_inj]; simpa using text.symm⟩
  · rintro ⟨front, rfl⟩
    exact ⟨front.toList, by simp⟩

/-- A relative name has the parts of the directory in front of its own, and the lead of the directory. -/
theorem lead_and_parts_within (directory : String) (relative : isAbsolute name = false) :
    lead (within directory name) = lead directory ∧
      parts (within directory name) = parts directory ++ parts name := by
  have noSlash : name.toList.head? ≠ some '/' := by
    rwa [ne_eq, ← isAbsolute_iff, Bool.not_eq_true]
  simp only [within, relative, Bool.false_eq_true, if_false]
  by_cases empty : directory = ""
  · subst empty
    rw [if_pos (by simp), String.empty_append]
    exact ⟨lead_of_relative relative, by simp⟩
  by_cases seam : directory.endsWith "/" = true
  · rw [if_pos (by simp [seam])]
    refine ⟨lead_append empty fun _ => noSlash, ?_⟩
    obtain ⟨front, text⟩ := endsWith_slash_iff.mp seam
    rw [text, parts_append_slash, show front ++ "/" = front ++ "/" ++ "" by simp, parts_append_slash,
      parts_empty, List.append_nil]
  · rw [if_neg (by simp [empty, seam])]
    refine ⟨?_, parts_append_slash directory name⟩
    rw [String.append_assoc]
    refine lead_append empty fun last => absurd ?_ seam
    obtain ⟨front, text⟩ := List.getLast?_eq_some_iff.mp last
    exact endsWith_slash_iff.mpr ⟨String.ofList front, by rw [← String.toList_inj]; simp [text]⟩

/-- A name seen from an absolute directory is absolute. -/
theorem isAbsolute_within (rooted : isAbsolute directory = true) (name : String) :
    isAbsolute (within directory name) = true := by
  rw [within]
  rw [isAbsolute_iff] at rooted
  obtain ⟨rest, text⟩ := List.head?_eq_some_iff.mp rooted
  split_ifs with absolute seam
  · exact absolute
  · simp [isAbsolute_iff, text]
  · simp [isAbsolute_iff, text]

theorem canonical_eq (place : ¬HasMark name) :
    canonical workingDir base name = normalized (within workingDir (seen base name)) := by
  simp only [canonical, isAddress_iff, place, if_false]
  cases base <;> rfl

theorem isCanonical_canonical (rooted : isAbsolute workingDir = true) (place : ¬HasMark name) :
    IsCanonical (canonical workingDir base name) := by
  rw [canonical_eq place]
  exact isCanonical_normalized (isAbsolute_within rooted _)

theorem IsCanonical.canonical_eq (own : IsCanonical name) : canonical workingDir base name = name := by
  have same : seen base name = name := by
    cases base with
    | none => rfl
    | some directory => exact within_of_isAbsolute own.isAbsolute
  rw [FileName.canonical_eq own.isClean.noMark, same, within_of_isAbsolute own.isAbsolute,
    own.normalized_eq]

/-- Names are made canonical once. -/
theorem canonical_canonical (rooted : isAbsolute workingDir = true) (base base' : Option String)
    (name : String) :
    canonical workingDir base' (canonical workingDir base name) = canonical workingDir base name := by
  by_cases address : HasMark name
  · simp [canonical, isAddress_iff, address]
  · exact (isCanonical_canonical rooted address).canonical_eq

end

/-! ### Detours -/

/-- A detour in the components of a name: one more that stays, or is empty, or an ordinary one that is taken back
at once. -/
inductive Detour : List String → List String → Prop
  | stay (front back : List String) : Detour (front ++ back) (front ++ "." :: back)
  | slash (front back : List String) : Detour (front ++ back) (front ++ "" :: back)
  | turn (front back : List String) {x : String} (ordinary : IsOrdinary x) :
      Detour (front ++ back) (front ++ x :: ".." :: back)

/-- Names that differ by detours only. -/
def SameWay (name other : String) : Prop :=
  Relation.EqvGen Detour (components name) (components other)

section
variable {rooted : Bool} {done front cs ds : List String} {name other workingDir : String}
  {base : Option String}

/-- Detours lead to the same place, from wherever they start. -/
theorem Detour.resolveUps_eq (detour : Detour cs ds) :
    resolveUps rooted done (cs.filter matters) = resolveUps rooted done (ds.filter matters) := by
  cases detour with
  | stay front back | slash front back => simp [matters]
  | @turn front back x ordinary =>
    have up : matters ".." = true := rfl
    simp [List.filter_append, resolveUps_append, ordinary.matters, up, resolveUps_cons_up ordinary.isUp]

theorem resolveUps_eq_of_eqvGen (same : Relation.EqvGen Detour cs ds) :
    resolveUps rooted done (cs.filter matters) = resolveUps rooted done (ds.filter matters) := by
  induction same with
  | rel cs ds detour => exact detour.resolveUps_eq
  | refl cs => rfl
  | symm cs ds _ ih => exact ih.symm
  | trans cs ds es _ _ first second => exact first.trans second

/-- Where a relative name leads is decided by its parts: they are followed from one place, which the directories
give. -/
theorem exists_canonical_eq (rooted : isAbsolute workingDir = true) (base : Option String) :
    ∃ root front, ∀ name, isAbsolute name = false → ¬HasMark name →
      canonical workingDir base name = ofParts root (resolveUps true [] (front ++ parts name)) := by
  have fromHere : ∀ name, isAbsolute name = false →
      normalized (within workingDir name) =
        ofParts (lead workingDir) (resolveUps true [] (parts workingDir ++ parts name)) := by
    intro name relative
    obtain ⟨sameLead, sameParts⟩ := lead_and_parts_within workingDir relative
    rw [normalized, isAbsolute_within rooted name, sameLead, sameParts]
  cases base with
  | none =>
    refine ⟨lead workingDir, parts workingDir, fun name relative place => ?_⟩
    rw [canonical_eq place]
    exact fromHere name relative
  | some directory =>
    by_cases absolute : isAbsolute directory = true
    · refine ⟨lead directory, parts directory, fun name relative place => ?_⟩
      obtain ⟨sameLead, sameParts⟩ := lead_and_parts_within directory relative
      have across := isAbsolute_within absolute name
      rw [canonical_eq place, seen, within_of_isAbsolute across, normalized, across, sameLead, sameParts]
    · refine ⟨lead workingDir, parts workingDir ++ parts directory, fun name relative place => ?_⟩
      obtain ⟨sameLead, sameParts⟩ := lead_and_parts_within directory relative
      have across : isAbsolute (within directory name) = false := by
        rw [← lead_eq_empty_iff, sameLead, lead_eq_empty_iff]
        exact Bool.eq_false_iff.mpr absolute
      rw [canonical_eq place, seen, fromHere _ across, sameParts, List.append_assoc]

/-- Relative names that differ by detours only are names of one place. -/
theorem canonical_eq_of_sameWay (rooted : isAbsolute workingDir = true)
    (relative : isAbsolute name = false ∧ isAbsolute other = false)
    (places : ¬HasMark name ∧ ¬HasMark other) (same : SameWay name other) :
    canonical workingDir base name = canonical workingDir base other := by
  obtain ⟨root, front, follow⟩ := exists_canonical_eq rooted base
  rw [follow name relative.1 places.1, follow other relative.2 places.2, resolveUps_append,
    resolveUps_append, parts_eq, parts_eq, resolveUps_eq_of_eqvGen same]

end

end DocLint.FileName
