import DocLint.Path.Pointer
import DocLint.Proofs.File.Names
import DocLint.Suppression.Location

/-!
# Pointers as locations

A path that is written as a pointer is read back as a location with the texts of its segments, and a pointer
whose tildes all stand for something is read as a path that is written as this pointer
(`Location.pointers_read_back`). Segments survive because what is written of them holds no slash, so that a
pointer is cut where it was joined.
-/
namespace DocLint

namespace Pointer

/-! ### Segments -/

section
variable (rest : List Char) {c : Char}

@[simp] theorem escapeChars_nil : escapeChars [] = [] := rfl

@[simp] theorem escapeChars_tilde : escapeChars ('~' :: rest) = '~' :: '0' :: escapeChars rest := rfl

@[simp] theorem escapeChars_slash : escapeChars ('/' :: rest) = '~' :: '1' :: escapeChars rest := rfl

theorem escapeChars_plain (noTilde : c ≠ '~') (noSlash : c ≠ '/') :
    escapeChars (c :: rest) = c :: escapeChars rest := by
  simp [escapeChars, escapeChar, noTilde, noSlash]

@[simp] theorem unescapeChars_nil : unescapeChars [] = [] := rfl

@[simp] theorem unescapeChars_zero :
    unescapeChars ('~' :: '0' :: rest) = '~' :: unescapeChars rest := by
  simp [unescapeChars, readSlashes, readTildes]

@[simp] theorem unescapeChars_one :
    unescapeChars ('~' :: '1' :: rest) = '/' :: unescapeChars rest := by
  simp [unescapeChars, readSlashes, readTildes]

theorem unescapeChars_plain (noTilde : c ≠ '~') :
    unescapeChars (c :: rest) = c :: unescapeChars rest := by
  simp [unescapeChars, readSlashes, readTildes, noTilde]

end

theorem unescapeChars_escapeChars (cs : List Char) : unescapeChars (escapeChars cs) = cs := by
  induction cs with
  | nil => rfl
  | cons c cs ih =>
    by_cases tilde : c = '~'
    · subst tilde
      simp [ih]
    by_cases slash : c = '/'
    · subst slash
      simp [ih]
    · rw [escapeChars_plain cs tilde slash, unescapeChars_plain _ tilde, ih]

theorem slash_not_mem_escapeChars (cs : List Char) : '/' ∉ escapeChars cs := by
  induction cs with
  | nil => exact List.not_mem_nil
  | cons c cs ih =>
    by_cases tilde : c = '~'
    · subst tilde
      simp [ih]
    by_cases slash : c = '/'
    · subst slash
      simp [ih]
    · rw [escapeChars_plain cs tilde slash]
      simp [ih, Ne.symm slash]

/-- Text in which every tilde stands for something: for itself or for a slash. -/
inductive Legible : List Char → Prop
  | nil : Legible []
  | zero {rest : List Char} (legible : Legible rest) : Legible ('~' :: '0' :: rest)
  | one {rest : List Char} (legible : Legible rest) : Legible ('~' :: '1' :: rest)
  | plain {rest : List Char} {c : Char} (noTilde : c ≠ '~') (legible : Legible rest) : Legible (c :: rest)

variable {cs : List Char}

/-- Tildes stand for something if a zero or a one follows each of them. -/
theorem legible_of_followed (followed : ∀ before after, cs = before ++ '~' :: after →
    after.head? = some '0' ∨ after.head? = some '1') : Legible cs := by
  -- the text goes on one or two characters later
  induction length : cs.length using Nat.strongRecOn generalizing cs with
  | _ n ih =>
    have onward : ∀ skipped rest, cs = skipped ++ rest → skipped ≠ [] → Legible rest := by
      intro skipped rest text nonempty
      refine ih rest.length ?_ (fun before after same => ?_) rfl
      · have := List.length_pos_iff.mpr nonempty
        simp only [text, List.length_append] at length
        omega
      · exact followed (skipped ++ before) after (by rw [text, same, List.append_assoc])
    cases cs with
    | nil => exact .nil
    | cons c rest =>
      by_cases tilde : c = '~'
      · subst tilde
        rcases followed [] rest rfl with zero | one
        · obtain ⟨rest, rfl⟩ := List.head?_eq_some_iff.mp zero
          exact .zero (onward ['~', '0'] rest rfl (List.cons_ne_nil _ _))
        · obtain ⟨rest, rfl⟩ := List.head?_eq_some_iff.mp one
          exact .one (onward ['~', '1'] rest rfl (List.cons_ne_nil _ _))
      · exact .plain tilde (onward [c] rest rfl (List.cons_ne_nil _ _))

/-- The segments of a legible pointer are written as they were read. -/
theorem escapeChars_unescapeChars (legible : Legible cs) :
    ((cs.splitOn '/').map fun part => escapeChars (unescapeChars part)) = cs.splitOn '/' := by
  induction legible with
  | nil => rfl
  | @zero rest _ ih | @one rest _ ih =>
    obtain ⟨part, parts, split⟩ := List.exists_cons_of_ne_nil (List.splitOn_ne_nil '/' rest)
    simp only [split, List.map_cons, List.cons.injEq] at ih
    simp [List.splitOn_cons_eq_if_modifyHead, split, ih]
  | @plain rest c noTilde _ ih =>
    obtain ⟨part, parts, split⟩ := List.exists_cons_of_ne_nil (List.splitOn_ne_nil '/' rest)
    simp only [split, List.map_cons, List.cons.injEq] at ih
    by_cases slash : c = '/'
    · simp [List.splitOn_cons_eq_if_modifyHead, slash, split, ih]
    · simp [List.splitOn_cons_eq_if_modifyHead, slash, split, ih, unescapeChars_plain _ noTilde,
        escapeChars_plain _ noTilde slash]

/-! ### Paths -/

/-- Segments behind slashes. -/
def joined (parts : List (List Char)) : List Char :=
  parts.flatMap ('/' :: ·)

theorem joined_eq {parts : List (List Char)} (nonempty : parts ≠ []) :
    joined parts = '/' :: ['/'].intercalate parts := by
  cases parts with
  | nil => exact absurd rfl nonempty
  | cons part parts =>
    rw [joined, List.flatMap_cons, intercalate_cons_eq]
    rfl

/-- The pointer of a path joins what is written of the texts of its segments. -/
theorem toList_pointer (p : Path) :
    p.pointer.toList = '#' :: joined (p.texts.map fun text => escapeChars text.toList) := by
  have segment : ∀ s : Segment, ("/" ++ escape s.text).toList = '/' :: escapeChars s.text.toList := by
    intro s
    simp [escape]
  simp [Path.pointer, Path.texts, joined, String.toList_join, List.flatMap_map, segment]

end Pointer

namespace Location
open Pointer
variable {workingDir : String} {base : Option String}

theorem splitAtHash_append {name : List Char} (noHash : '#' ∉ name) (pointer : List Char) :
    splitAtHash (name ++ '#' :: pointer) = some (name, pointer) := by
  induction name with
  | nil => rfl
  | cons c name ih =>
    simp only [List.mem_cons, not_or] at noHash
    simp [splitAtHash, ih noHash.2, Ne.symm noHash.1]

/-- A pointer stands for parts: for none if it is empty, or else for those between its slashes. -/
def Cuts (pointer : List Char) (parts : List (List Char)) : Prop :=
  (pointer = [] ∧ parts = []) ∨ ∃ rest, pointer = '/' :: rest ∧ parts = rest.splitOn '/'

/-- Joined parts are cut where they were joined, if they hold no slash. -/
theorem cuts_joined {parts : List (List Char)} (apart : ∀ part ∈ parts, '/' ∉ part) :
    Cuts (joined parts) parts := by
  by_cases root : parts = []
  · exact .inl ⟨by rw [root]; rfl, root⟩
  · exact .inr ⟨_, joined_eq root, (List.splitOn_intercalate '/' apart root).symm⟩

/-- The parts of a pointer join to it. -/
theorem Cuts.joined_eq {pointer : List Char} {parts : List (List Char)} (cuts : Cuts pointer parts) :
    joined parts = pointer := by
  rcases cuts with ⟨rfl, rfl⟩ | ⟨rest, rfl, rfl⟩
  · rfl
  · rw [Pointer.joined_eq (List.splitOn_ne_nil '/' rest), List.intercalate_splitOn]

/-- A name without hashes, a hash and a pointer are read as the canonical name and the segments that the
parts of the pointer spell. -/
theorem parse_of_cuts {written : String} {name pointer : List Char} {parts : List (List Char)}
    (text : written.toList = name ++ '#' :: pointer) (noHash : '#' ∉ name) (cuts : Cuts pointer parts) :
    parse workingDir base written = .ok
      ⟨if name.isEmpty then none else some (FileName.canonical workingDir base (String.ofList name)),
        parts.map fun part => String.ofList (unescapeChars part)⟩ := by
  rw [parse, text, splitAtHash_append noHash]
  rcases cuts with ⟨rfl, rfl⟩ | ⟨rest, rfl, rfl⟩
  · rfl
  · simp only [FileName.splitAtSlash_eq]

/-- The pointer of a path is read as the texts of its segments. -/
theorem parse_append_pointer (p : Path) {s : String} (noHash : '#' ∉ s.toList) :
    parse workingDir base (s ++ p.pointer) = .ok
      ⟨if s.toList.isEmpty then none else some (FileName.canonical workingDir base s), p.texts⟩ := by
  have text : (s ++ p.pointer).toList =
      s.toList ++ '#' :: joined (p.texts.map fun text => escapeChars text.toList) := by
    rw [String.toList_append, toList_pointer]
  have apart : ∀ part ∈ p.texts.map fun text => escapeChars text.toList, '/' ∉ part := by
    intro part member
    obtain ⟨text, _, rfl⟩ := List.mem_map.mp member
    exact slash_not_mem_escapeChars text.toList
  rw [parse_of_cuts text noHash (cuts_joined apart)]
  simp [unescapeChars_escapeChars, Function.comp_def]

/-- A legible pointer is read as a path that is written as this pointer. -/
theorem pointer_of_parse {pointer : String} (begins : pointer = "" ∨ pointer.toList.head? = some '/')
    (legible : Legible pointer.toList) :
    ∃ l, parse workingDir base ("#" ++ pointer) = .ok l ∧
      Path.pointer (l.path.map Scalar.str) = "#" ++ pointer := by
  obtain ⟨parts, cuts, kept⟩ : ∃ parts, Cuts pointer.toList parts ∧
      (parts.map fun part => escapeChars (unescapeChars part)) = parts := by
    rcases begins with rfl | slash
    · exact ⟨[], .inl ⟨rfl, rfl⟩, rfl⟩
    · obtain ⟨rest, text⟩ := List.head?_eq_some_iff.mp slash
      rw [text] at legible ⊢
      cases legible with
      | plain _ legible => exact ⟨_, .inr ⟨rest, rfl, rfl⟩, escapeChars_unescapeChars legible⟩
  have text : ("#" ++ pointer).toList = [] ++ '#' :: pointer.toList := String.toList_append
  have segments : (Path.texts ((parts.map fun part => String.ofList (unescapeChars part)).map Scalar.str)).map
      (fun text => escapeChars text.toList) = parts := by
    simpa [Path.texts, Function.comp_def, Scalar.text] using kept
  refine ⟨_, parse_of_cuts text List.not_mem_nil cuts, String.toList_injective ?_⟩
  rw [toList_pointer, segments, cuts.joined_eq, text]
  rfl

/-- Pointers and locations are inverse. The pointer of a path, on its own, is the place of the paths with the
same texts in every document; behind a name, it is that place in the document of this name. A pointer that is
empty or begins with a slash and in which a zero or a one follows every tilde is read as a path with this
pointer. -/
theorem pointers_read_back (workingDir : String) (base : Option String) :
    (∀ p : Path, ∃ l, parse workingDir base p.pointer = .ok l ∧ l.source = none ∧ l.path = p.texts ∧
      ∀ (source : Option String) (q : Path), l.covers workingDir source q = true ↔ p.texts = q.texts) ∧
    (∀ (p : Path) (name : String), name ≠ "" → '#' ∉ name.toList →
      parse workingDir base (name ++ p.pointer) =
        .ok ⟨some (FileName.canonical workingDir base name), p.texts⟩) ∧
    (∀ pointer : String, (pointer = "" ∨ pointer.toList.head? = some '/') →
      (∀ before after, pointer.toList = before ++ '~' :: after →
        after.head? = some '0' ∨ after.head? = some '1') →
      ∃ l, parse workingDir base ("#" ++ pointer) = .ok l ∧
        Path.pointer (l.path.map Scalar.str) = "#" ++ pointer) := by
  refine ⟨fun p => ?_, fun p name named noHash => ?_, fun pointer begins followed => ?_⟩
  · have read : parse workingDir base ("" ++ p.pointer) = _ := parse_append_pointer p List.not_mem_nil
    rw [String.empty_append] at read
    refine ⟨_, read, rfl, rfl, fun source q => ?_⟩
    simp [covers, coversSource]
  · rw [parse_append_pointer p noHash]
    simp [named]
  · exact pointer_of_parse begins (legible_of_followed followed)

/-- A path with a slash, a number, a tilde in front of a digit and an empty key in it. -/
def awkward : Path :=
  [.str "a/b", .int 0, .str "~1", .str ""]

theorem awkward_pointers_read_back :
    (∃ l, parse "/work" none "#/a~1b/0/~01/" = .ok l ∧
      l.covers "/work" (some "doc.yaml") [.str "a/b", .str "0", .str "~1", .str ""] = true) ∧
    parse "/work" none "doc.yaml#/a~1b/0/~01/" =
      .ok ⟨some (FileName.canonical "/work" none "doc.yaml"), ["a/b", "0", "~1", ""]⟩ ∧
    ∃ l, parse "/work" none "#/~01/" = .ok l ∧ Path.pointer (l.path.map Scalar.str) = "#/~01/" := by
  obtain ⟨alone, named, back⟩ := pointers_read_back "/work" none
  have pointer : awkward.pointer = "#/a~1b/0/~01/" := by decide
  refine ⟨?_, ?_, back "/~01/" (.inr rfl) ?_⟩
  · obtain ⟨l, read, _, _, covers⟩ := alone awkward
    exact ⟨l, pointer ▸ read, (covers _ _).mpr (by decide)⟩
  · exact named awkward "doc.yaml" (by decide) (by decide)
  · intro before after same
    have text : ['/', '~', '0', '1', '/'] = before ++ '~' :: after := same
    obtain ⟨_, _, _, rfl⟩ : ∃ more, before = '/' :: more ∧ more = [] ∧ after = ['0', '1', '/'] := by
      simpa [List.cons_eq_append_iff] using text
    exact .inl rfl

end Location
end DocLint
