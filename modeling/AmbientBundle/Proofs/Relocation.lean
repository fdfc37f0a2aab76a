import AmbientBundle.Bundle.Exclude
import AmbientBundle.Proofs.Descent
import AmbientBundle.Proofs.Files
import AmbientBundle.Proofs.Globs

/-!
# Exclusion in a project that is moved

What is left of a file below the base directory does not depend on where that directory is. But
every pattern is also tried on the whole path, so that a pattern which can start with a slash sees
the directories above the base.

* `IsNormalBelow`: a relative path in normal form; `relativeTo?_join_below`: what is left of it.
* `ExcludeSet.excludes_join`: **when a file of the base directory is left out.**
* `ExcludeSet.excludes_moved_iff`: **when a file is left out at both places or at none.**
-/

open AmbientBundle.Path

namespace AmbientBundle

open Glob

namespace Path

variable {p r base : Path}

/-! ### Relative paths in normal form -/

/-- **A relative path in normal form.** -/
structure IsNormalBelow (r : Path) : Prop where
  relative : r.isAbsolute = false
  normalized : r.normalize = r

/-- What a relative path in normal form is: a dot, or steps. -/
theorem IsNormalBelow.cases (h : r.IsNormalBelow) :
    r = ⟨"."⟩ ∨ ∃ ns, ns ≠ [] ∧ (∀ n ∈ ns, IsStep n) ∧ r = ofPieces ns := by
  obtain ⟨way, hway, hfold⟩ := fold_relative h.relative
  have hnormal := h.normalized
  unfold normalize at hnormal
  rw [hfold] at hnormal
  split at hnormal
  · exact .inl hnormal.symm
  · next hne =>
    refine .inr ⟨way, fun hnil => hne ?_, fun n hn => ⟨hway.not_idle n hn, hway.no_slash n hn⟩, ?_⟩
    · rw [hnil]
      rfl
    · rw [← ofComponents_way hway.no_slash hway.not_idle]
      exact hnormal.symm

/-- What is left of a relative path below the directory that it continues. -/
def below (r : Path) : Path := if r = ⟨"."⟩ then ⟨""⟩ else r

/-- Nothing is left of a directory that is continued by a dot. -/
theorem relativeTo?_join_here (h : p.isAbsolute = true) :
    (p.join ⟨"."⟩).relativeTo? p = some ⟨""⟩ := by
  have hpieces : (p.join ⟨"."⟩).pieces = p.stem ++ ["."] := pieces_join (by decide)
  have hnot : (p.join ⟨"."⟩).pieces ≠ [""] := by
    intro heq
    have hlast := congrArg List.getLast? (hpieces.symm.trans heq)
    rw [List.getLast?_concat] at hlast
    exact absurd hlast (by decide)
  have hpos : 0 < (stepsOf p.stem).length := by
    obtain ⟨rest, hrest⟩ := pieces_of_isAbsolute h
    rw [← components_eq]
    unfold components
    rw [hrest]
    simp [h]
  have hstem : p.stem ≠ [] := by
    intro hnil
    rw [hnil] at hpos
    exact absurd hpos (by decide)
  have hcomponents : (p.join ⟨"."⟩).components = p.components := by
    rw [components_eq_stepsOf hnot, hpieces, stepsOf_append hstem, components_eq]
    exact List.append_nil _
  obtain ⟨htail, hsteps⟩ := tailAfter_append hpos (Nat.le_refl _) ["."]
  rw [List.drop_length] at hsteps
  -- the pieces that are left hold no step
  have hidle : trimPieces (tailAfter (stepsOf p.stem).length p.stem ++ ["."]) = [] := by
    unfold trimPieces
    rw [dropWhile_eq_nil_of_steps (by rw [steps_append, hsteps]; rfl)]
    rfl
  unfold relativeTo? startsWith
  rw [hcomponents, if_pos (List.isPrefixOf_iff_prefix.2 (List.prefix_refl _)), components_eq]
  split
  · next hzero => omega
  · rw [piecesAfter_eq hnot, hpieces, htail, hidle]
    rfl

/-- **What is left of a file below its base directory** does not depend on the base directory. -/
theorem relativeTo?_join_below (hbase : base.isAbsolute = true) (hr : r.IsNormalBelow) :
    (base.join r).relativeTo? base = some r.below := by
  unfold below
  rcases hr.cases with rfl | ⟨ns, hne, hsteps, rfl⟩
  · rw [if_pos rfl]
    exact relativeTo?_join_here hbase
  · have hnot : ofPieces ns ≠ ⟨"."⟩ := by
      intro heq
      have hpieces := pieces_ofPieces hne hsteps
      rw [heq] at hpieces
      have hmem : "." ∈ ns := hpieces ▸ (by decide : "." ∈ (Path.mk ".").pieces)
      exact (hsteps "." hmem).ne_here rfl
    rw [if_neg hnot]
    exact relativeTo?_join_self hne hsteps

end Path

namespace ExcludeSet

variable {base moved r : Path} {patterns : List String} {set : ExcludeSet}

/-- The base directory plays no part in reading the patterns. -/
theorem ofPatterns_moved (h : ofPatterns base patterns = .ok set) (moved : Path) :
    set.base = base ∧ ofPatterns moved patterns = .ok { set with base := moved } := by
  obtain ⟨globs, hglobs, hset⟩ := bind_eq_ok.1 h
  obtain rfl := Except.ok.inj hset
  exact ⟨rfl, bind_eq_ok.2 ⟨globs, hglobs, rfl⟩⟩

/-- **When a file of the base directory is left out**: a pattern matches the whole path, or what is
left of it. -/
theorem excludes_join (hbase : set.base.isAbsolute = true) (hr : r.IsNormalBelow) :
    set.excludes (set.base.join r) =
      (anyMatch set.globs (set.base.join r) || anyMatch set.globs r.below) := by
  unfold excludes
  rw [relativeTo?_join_below hbase hr, Option.any_some]

/-- Patterns that cannot start with a slash match no whole path. -/
theorem anyMatch_eq_false {globs : List Glob} (h : ∀ g ∈ globs, allOpen g.tokens false = false)
    {path : Path} (hpath : path.isAbsolute = true) : anyMatch globs path = false := by
  unfold anyMatch
  rw [List.any_eq_false]
  intro g hg
  rw [isMatch_eq_false_of_allOpen (h g hg) hpath]
  exact Bool.false_ne_true

/-- **When moving a project changes what is left out.** The same patterns can be read for both base
directories. A file is left out at both places or at none iff a pattern matches what is left of it
below the base, or the whole paths are matched at both places or at none. Patterns that cannot start
with a slash only see what is left, and then the base directory plays no part. -/
theorem excludes_moved_iff (h : ofPatterns base patterns = .ok set)
    (hbase : base.IsNormal) (hmoved : moved.IsNormal) (hr : r.IsNormalBelow) :
    ofPatterns moved patterns = .ok { set with base := moved } ∧
    (set.excludes (base.join r) = { set with base := moved }.excludes (moved.join r) ↔
      anyMatch set.globs r.below = true ∨
        anyMatch set.globs (base.join r) = anyMatch set.globs (moved.join r)) ∧
    ((∀ g ∈ set.globs, allOpen g.tokens false = false) →
      set.excludes (base.join r) = anyMatch set.globs r.below ∧
      { set with base := moved }.excludes (moved.join r) = anyMatch set.globs r.below) := by
  obtain ⟨hset, hread⟩ := ofPatterns_moved h moved
  subst hset
  have hhere := excludes_join hbase.absolute hr
  have hthere : { set with base := moved }.excludes (moved.join r) =
      (anyMatch set.globs (moved.join r) || anyMatch set.globs r.below) :=
    excludes_join hmoved.absolute hr
  refine ⟨hread, ?_, fun hopen => ?_⟩
  · rw [hhere, hthere]
    cases anyMatch set.globs r.below with
    | true => simp
    | false => simp
  · rw [hhere, hthere, anyMatch_eq_false hopen (isAbsolute_join hbase.absolute),
      anyMatch_eq_false hopen (isAbsolute_join hmoved.absolute), Bool.false_or]
    exact ⟨rfl, rfl⟩

theorem excludes_moved_iff_default : ∃ set, ofPatterns ⟨"/build/app"⟩ [] = .ok set ∧
    ofPatterns ⟨"/"⟩ [] = .ok { set with base := ⟨"/"⟩ } ∧
    set.excludes (Path.join ⟨"/build/app"⟩ ⟨"node_modules/dep/a.d.ts"⟩) =
      { set with base := ⟨"/"⟩ }.excludes (Path.join ⟨"/"⟩ ⟨"node_modules/dep/a.d.ts"⟩) := by
  have hopen : ((ofPatterns ⟨"/build/app"⟩ []).map fun set =>
      set.globs.all fun g => !allOpen g.tokens false) = .ok true := by decide +kernel
  obtain ⟨set, hset, hopen⟩ := map_eq_ok.1 hopen
  have hroot : Path.IsNormal ⟨"/"⟩ := ⟨by decide, by decide⟩
  have hfile : Path.IsNormalBelow ⟨"node_modules/dep/a.d.ts"⟩ := ⟨by decide, by decide⟩
  obtain ⟨hmoved, -, hsame⟩ := excludes_moved_iff hset ⟨by decide, by decide⟩ hroot hfile
  have hall : ∀ g ∈ set.globs, allOpen g.tokens false = false := by
    simpa using hopen
  exact ⟨set, hset, hmoved, (hsame hall).1.trans (hsame hall).2.symm⟩

/-- **A relative pattern that sees the directories above the base**: whether it leaves out the same
file depends on where the project is. -/
theorem excludes_depends_on_base :
    Path.isAbsolute ⟨"**/build/**"⟩ = false ∧
    ((ofPatterns ⟨"/build/app"⟩ ["**/build/**"]).map fun set =>
      set.excludes (Path.join ⟨"/build/app"⟩ ⟨"a.ts"⟩)) = .ok true ∧
    ((ofPatterns ⟨"/work/app"⟩ ["**/build/**"]).map fun set =>
      set.excludes (Path.join ⟨"/work/app"⟩ ⟨"a.ts"⟩)) = .ok false := by
  decide +kernel

end ExcludeSet

end AmbientBundle
