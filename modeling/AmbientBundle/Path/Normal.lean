import AmbientBundle.Path.Basic

/-!
# Normal paths

A normal path has no idle pieces, and goes up only at its front. `Path.normalize` folds a path into
its normal form without looking at any file system.

* `Path.fold`: folding of components.
* `Path.normalize`, `Path.absolutize`.
-/

namespace AmbientBundle.Path

/-- One step after the components so far, which are kept with the last one first. -/
def foldStep (done : List Component) : Component → List Component
  | .here => done
  | .up =>
    match done with
    | .name _ :: rest => rest
    | .root :: _ => done
    | _ => .up :: done
  | c => c :: done

/-- **Folded components**: a step up takes back a name, and stays at the root. -/
def fold (cs : List Component) : List Component := (cs.foldl foldStep []).reverse

/-- **The normal form of a path.** Where nothing is left, it is a dot. -/
def normalize (p : Path) : Path :=
  match fold p.components with
  | [] => ⟨"."⟩
  | cs => ofComponents cs

/-- A path read from a directory, in normal form. -/
def absolutize (p cwd : Path) : Path :=
  if p.isAbsolute then p.normalize else (cwd.join p).normalize

end AmbientBundle.Path
