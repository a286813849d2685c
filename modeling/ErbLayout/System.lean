import ErbLayout.Command
import ErbLayout.Tree

/-!
Where the formatter runs: the files that it finds, the programs that it can start, and what the
system refuses it. A file may exist and not be readable, and writing one may be refused at once or
break off when some of the bytes have been written.
-/

namespace ErbLayout

open Text

/-- How an attempt to give a file the contents `new` ends. -/
inductive Writing (new : Bytes) where
  | complete
  /-- The file cannot be opened, and stays as it is. -/
  | refused (reason : Text)
  /-- The file is emptied, and only the first `count` bytes get into it. -/
  | cut (count : Fin new.length) (reason : Text)
  deriving DecidableEq, Repr

namespace Writing

variable {new : Bytes}

/-- How many bytes get into the file, unless it stays as it is. -/
def reach? : Writing new → Option Nat
  | .complete => some new.length
  | .refused _ => none
  | .cut count _ => some count

/-- What the file holds after the attempt, unless it stays as it is. -/
def kept? (attempt : Writing new) : Option Bytes := attempt.reach?.map new.take

def reason? : Writing new → Option Text
  | .complete => none
  | .refused reason | .cut _ reason => some reason

end Writing

inductive ReadFault where
  | missing
  | folder
  | refused (reason : Text)
  | notUtf8
  deriving DecidableEq, Repr

def ReadFault.message : ReadFault → Text
  | .missing => "No such file or directory (os error 2)".toList
  | .folder => "Is a directory (os error 21)".toList
  | .refused reason => reason
  | .notUtf8 => "stream did not contain valid UTF-8".toList

/-- Where the formatter runs. What the system refuses is settled for each file and for the bytes
that it is to hold: it does not change while the formatter works, as room on a disk that other files
use up would. -/
structure System where
  tree : Tree
  cwd : Location
  home : Option Path
  programs : Programs
  /-- Whether the standard input is a terminal. -/
  interactive : Bool := false
  /-- Why the file at a location cannot be read, if it cannot. -/
  unreadable? : Location → Option Text := fun _ => none
  writing : Location → (new : Bytes) → Writing new := fun _ _ => .complete

namespace System

def cwdPath (s : System) : Path := Path.ofNames true s.cwd

def isFile (s : System) (p : Path) : Bool := (s.tree.locateFile? s.cwd p).isSome

def isFolder (s : System) (p : Path) : Bool := (s.tree.locateFolder? s.cwd p).isSome

/-- The size in bytes of what a path leads to; folders count as empty. -/
def size? (s : System) (p : Path) : Option Nat :=
  match s.tree.locateFile? s.cwd p with
  | some l => (s.tree.contents? l).map List.length
  | none => if s.isFolder p then some 0 else none

def textAt (s : System) (l : Location) : Except ReadFault Text :=
  match s.unreadable? l, (s.tree.contents? l).bind decode? with
  | some reason, _ => .error (.refused reason)
  | none, none => .error .notUtf8
  | none, some text => .ok text

def readText (s : System) (p : Path) : Except ReadFault Text :=
  match s.tree.locateFile? s.cwd p with
  | some l => s.textAt l
  | none => .error (if s.isFolder p then .folder else .missing)

def write (s : System) (l : Location) (contents : Bytes) : System :=
  { s with tree := s.tree.write l contents }

end System

end ErbLayout
