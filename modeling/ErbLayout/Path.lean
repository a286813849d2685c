import ErbLayout.Text.Basic

/-!
Paths as they are written, with slashes between the names. Repeated slashes and inner dots mean
nothing, but stay in what is shown; two paths are the same when their components are.
-/

namespace ErbLayout

open Text

abbrev Path := Text

namespace Path

inductive Component where
  | root
  /-- A dot at the start of a relative path. -/
  | here
  | up
  | name (n : Text)
  deriving DecidableEq, Repr

def isAbsolute (p : Path) : Bool := p.head? == some '/'

def pieces (s : Text) : List Text := splitAt (· == '/') s

/-- Whether a piece between slashes means nothing. -/
def isIdle (piece : Text) : Bool := piece.isEmpty || piece == ['.']

def componentOf (piece : Text) : Option Component :=
  if isIdle piece then none else if piece = ['.', '.'] then some .up else some (.name piece)

/-- The first characters of a path that stay when everything else goes: the slash of the root, or a
dot that stands alone before the first slash. -/
def head (p : Path) : Text :=
  if p.isAbsolute then ['/'] else if (pieces p).head? == some ['.'] then ['.'] else []

def body (p : Path) : List Text := pieces (p.drop p.head.length)

def components (p : Path) : List Component :=
  let first := if p.head = ['/'] then [.root] else if p.head = ['.'] then [.here] else []
  first ++ p.body.filterMap componentOf

def same (p q : Path) : Bool := p.components == q.components

/-- The path `q` as seen from `p`. -/
def join (p q : Path) : Path :=
  if q.isAbsolute || p.isEmpty then q
  else if p.getLast? == some '/' then p ++ q
  else p ++ '/' :: q

/-- The pieces without those at the end that mean nothing. -/
def trimPieces (ps : List Text) : List Text := (ps.reverse.dropWhile isIdle).reverse

/-- The path without its last component; the root and the empty path have none to lose. -/
def parent? (p : Path) : Option Path :=
  match trimPieces p.body with
  | [] => if p.head = ['.'] then some [] else none
  | ps => some (p.head ++ Text.join ['/'] (trimPieces ps.dropLast))

/-- The path and what remains of it as its last components go, at most `fuel` times. -/
def ancestorsFrom : Nat → Path → List Path
  | 0, p => [p]
  | fuel + 1, p =>
    match p.parent? with
    | some q => p :: ancestorsFrom fuel q
    | none => [p]

def ancestors (p : Path) : List Path := ancestorsFrom p.length p

/-- The names of a path after those that two dots take back. -/
def names (p : Path) : List Text :=
  p.components.foldl
    (fun names c => match c with
      | .name n => names ++ [n]
      | .up => names.dropLast
      | _ => names)
    []

def ofNames (absolute : Bool) (names : List Text) : Path :=
  (if absolute then ['/'] else []) ++ Text.join ['/'] names

/-- The path without dots. -/
def normalise (p : Path) : Path := ofNames p.isAbsolute p.names

/-- What follows the last dot in the last name, unless the name starts with it. -/
def extension? (p : Path) : Option Text :=
  match p.components.getLast? with
  | some (.name n) =>
    match cutLast? '.' n with
    | some ([], _) => none
    | some (_, ext) => some ext
    | none => none
  | _ => none

end Path

end ErbLayout
