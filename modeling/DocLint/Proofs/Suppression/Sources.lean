import DocLint.Proofs.Suppression.Pointers

/-!
# Sources of locations

The source of a location is made canonical when it is read, with the base directory of the rules, and that of a
document when they are compared, without one. The two meet because a canonical name stays what it is under any base
(`canonical_sources`).
-/
namespace DocLint.Location
open FileName (canonical isAbsolute HasMark IsClean SameWay)

variable {workingDir name : String} {base : Option String} {l : Location}

/-- What stands in front of the first hash is kept as the canonical source. -/
theorem source_of_parse {pointer : String} (named : name ≠ "") (noHash : '#' ∉ name.toList)
    (ok : parse workingDir base (name ++ "#" ++ pointer) = .ok l) :
    l.source = some (canonical workingDir base name) := by
  have text : (name ++ "#" ++ pointer).toList = name.toList ++ '#' :: pointer.toList := by simp
  have full : name.toList.isEmpty = false := by simpa using named
  rw [parse, text, splitAtHash_append noHash] at ok
  simp only [full, Bool.false_eq_true, if_false, String.ofList_toList] at ok
  split at ok
  · cases ok
    rfl
  · cases ok
    rfl
  · cases ok

/-- A location with a source covers the documents whose canonical name it is. -/
theorem coversSource_iff {own source : String} (sourced : l.source = some own) :
    l.coversSource workingDir (some source) = true ↔ canonical workingDir none source = own := by
  simp [coversSource, sourced]

/-- Canonical sources are stable, clean, and the same for spellings of one place. In an absolute working directory,
a canonical name is canonical under every base; that of a name without the mark of an address is clean; relative
names without the mark that differ by detours only have one canonical name. So a location covers exactly the
documents whose canonical name, taken without a base, is that of its own source, and exactly the same documents
when their sources were made canonical before, under whatever base. -/
theorem canonical_sources {workingDir : String} (rooted : isAbsolute workingDir = true)
    (base : Option String) :
    (∀ base' name, canonical workingDir base' (canonical workingDir base name) =
      canonical workingDir base name) ∧
    (∀ name, ¬HasMark name → IsClean (canonical workingDir base name)) ∧
    (∀ name other, isAbsolute name = false → isAbsolute other = false → ¬HasMark name →
      ¬HasMark other → SameWay name other →
      canonical workingDir base name = canonical workingDir base other) ∧
    ∀ name pointer l, name ≠ "" → '#' ∉ name.toList →
      parse workingDir base (name ++ "#" ++ pointer) = .ok l → ∀ source,
      (l.coversSource workingDir (some source) = true ↔
        canonical workingDir none source = canonical workingDir base name) ∧
      ∀ base', l.coversSource workingDir (some (canonical workingDir base' source)) = true ↔
        canonical workingDir base' source = canonical workingDir base name := by
  refine ⟨fun base' name => FileName.canonical_canonical rooted base base' name, fun name place => ?_,
    fun name other relative relative' place place' same => ?_,
    fun name pointer l named noHash ok source => ?_⟩
  · exact (FileName.isCanonical_canonical rooted place).isClean
  · exact FileName.canonical_eq_of_sameWay rooted ⟨relative, relative'⟩ ⟨place, place'⟩ same
  · have sourced := source_of_parse named noHash ok
    refine ⟨coversSource_iff sourced, fun base' => ?_⟩
    rw [coversSource_iff sourced, FileName.canonical_canonical rooted base' none source]

/-- A location in a file beside the rules is found in the document that is read under its name in the working
directory. -/
theorem pets_covered :
    isAbsolute "/work" = true ∧
    canonical "/work" none "/work/api/pets.yaml" = "/work/api/pets.yaml" ∧
    IsClean "/work/api/pets.yaml" ∧
    canonical "/work" (some "api") "v1/../pets.yaml" = canonical "/work" (some "api") "pets.yaml" ∧
    ∃ l, parse "/work" (some "api") "v1/../pets.yaml#/info" = .ok l ∧
      l.coversSource "/work" (some "./api//pets.yaml") = true ∧
      l.coversSource "/work" (some "/work/api/pets.yaml") = true := by
  have rooted : isAbsolute "/work" = true := by decide +kernel
  obtain ⟨stable, clean, same, covers⟩ := canonical_sources rooted (some "api")
  have own : canonical "/work" (some "api") "v1/../pets.yaml" = "/work/api/pets.yaml" := by decide +kernel
  have place : ¬HasMark "v1/../pets.yaml" ∧ ¬HasMark "pets.yaml" := by
    simp only [HasMark]
    decide +kernel
  have detour : SameWay "v1/../pets.yaml" "pets.yaml" :=
    .symm _ _ (.rel _ _ (.turn [] ["pets.yaml"]
      ⟨by decide, by decide, by decide, by decide⟩))
  obtain ⟨l, read, _⟩ : ∃ l, parse "/work" (some "api") ("v1/../pets.yaml" ++ "#" ++ "/info") = .ok l ∧
      l.path = ["info"] :=
    exists_ok_of_toOption (by decide +kernel)
  have found := covers "v1/../pets.yaml" "/info" l (by decide) (by decide) read
  refine ⟨rooted, ?_, ?_, ?_, l, read, ?_, ?_⟩
  · exact own ▸ stable none "v1/../pets.yaml"
  · exact own ▸ clean _ place.1
  · exact same _ _ (by decide +kernel) (by decide +kernel) place.1 place.2 detour
  · exact (found "./api//pets.yaml").1.mpr (by decide +kernel)
  · exact own ▸ ((found "v1/../pets.yaml").2 (some "api")).mpr rfl

end DocLint.Location
