import ErbLayout.Path
import ErbLayout.Text.Bytes

/-!
A tree of files. A file is known by its location, the names from the root down to it; a folder
exists when it is listed or when something lies below it. A path leads from a folder to a location
one name at a time, and every step but the last must end in a folder.
-/

namespace ErbLayout

open Text

abbrev Location := List Text

structure Tree where
  files : List (Location × Bytes) := []
  folders : List Location := []
  deriving DecidableEq, Repr

namespace Tree

def contents? (t : Tree) (l : Location) : Option Bytes := t.files.lookup l

def isFile (t : Tree) (l : Location) : Bool := (t.contents? l).isSome

def isFolder (t : Tree) (l : Location) : Bool :=
  l.isEmpty || t.folders.any l.isPrefixOf || t.files.any fun (f, _) => l.isPrefixOf f && l != f

def follow (t : Tree) : Location → List Text → Option Location
  | l, [] => some l
  | l, piece :: rest =>
    if !t.isFolder l then none
    else if Path.isIdle piece then follow t l rest
    else if piece = ['.', '.'] then follow t l.dropLast rest
    else if t.isFile (l ++ [piece]) || t.isFolder (l ++ [piece]) then follow t (l ++ [piece]) rest
    else none

/-- The location to which a path leads from the folder `cwd`. -/
def locate? (t : Tree) (cwd : Location) (p : Path) : Option Location :=
  if p.isEmpty then none else t.follow (if p.isAbsolute then [] else cwd) (Path.pieces p)

def locateFile? (t : Tree) (cwd : Location) (p : Path) : Option Location :=
  (t.locate? cwd p).filter t.isFile

def locateFolder? (t : Tree) (cwd : Location) (p : Path) : Option Location :=
  (t.locate? cwd p).filter t.isFolder

def write (t : Tree) (l : Location) (contents : Bytes) : Tree :=
  { t with files := t.files.map fun (f, old) => (f, if f = l then contents else old) }

def childOf (folder l : Location) : Option Text :=
  if folder.isPrefixOf l then l[folder.length]? else none

def children (t : Tree) (folder : Location) : List Text :=
  let names := (t.folders ++ t.files.map Prod.fst).filterMap (childOf folder)
  names.eraseDups.mergeSort fun a b => !decide (b < a)

/-- The paths of the files in a folder and, down to `depth` levels, in the folders below it, in the
order of their names; `p` is the path of the folder. -/
def walk (t : Tree) : Nat → Location → Path → List Path
  | 0, _, _ => []
  | depth + 1, folder, p =>
    (t.children folder).flatMap fun name =>
      if t.isFile (folder ++ [name]) then [Path.join p name]
      else walk t depth (folder ++ [name]) (Path.join p name)

end Tree

end ErbLayout
