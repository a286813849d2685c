import ErbLayout.Glob
import ErbLayout.Path
import ErbLayout.Text.Blank

/-!
Lists of files that stay as they are: one glob a line, seen from a folder. Paths are compared
without dots and from the root.
-/

namespace ErbLayout

open Text

structure IgnoreList where
  folder : Path
  globs : List Glob
  deriving DecidableEq, Repr

namespace IgnoreList

def fileName : Text := ".format-erb-ignore".toList

def entries (contents : Text) : List Text :=
  ((lines contents).map trimEnd).filter fun line => !line.isEmpty

def globOf (folder : Path) (line : Text) : Except GlobError Glob :=
  Glob.ofText (Path.join folder line).normalise

/-- The list with the lines that are globs, for the folder `base`, which is absolute. -/
def ofContents (contents : Text) (base : Path) : IgnoreList :=
  let folder := base.normalise
  ⟨folder, (entries contents).filterMap fun line => (globOf folder line).toOption⟩

def faults (contents : Text) (base : Path) : List (Text × GlobError) :=
  (entries contents).filterMap fun line =>
    match globOf base.normalise line with
    | .ok _ => none
    | .error e => some (line, e)

def isEmpty (l : IgnoreList) : Bool := l.globs.isEmpty

def holds (l : IgnoreList) (p : Path) : Bool :=
  l.globs.any fun g => g.fits (Path.join l.folder p).normalise

end IgnoreList

end ErbLayout
