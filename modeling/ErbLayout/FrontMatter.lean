import ErbLayout.Text.Basic

/-!
Front matter: a block of metadata at the start of a document, from a first line of three hyphens to
the next line that is three hyphens or three dots. It is kept as it is written.
-/

namespace ErbLayout

open Text

/-- A text without the line feeds and carriage returns it ends with. -/
def dropLineEnds : Text → Text
  | [] => []
  | c :: cs =>
    match dropLineEnds cs with
    | [] => if c = '\n' || c = '\r' then [] else [c]
    | d :: ds => c :: d :: ds

def closesFrontMatter (line : Text) : Bool :=
  dropLineEnds line == ['-', '-', '-'] || dropLineEnds line == ['.', '.', '.']

def upToCloser? : List Text → Option (List Text × List Text)
  | [] => none
  | line :: rest =>
    if closesFrontMatter line then some ([line], rest)
    else (upToCloser? rest).map fun (head, tail) => (line :: head, tail)

def frontMatterOpening : Text := ['-', '-', '-', '\n']

def splitFrontMatter (source : Text) : Option Text × Text :=
  match after? frontMatterOpening source with
  | none => (none, source)
  | some rest =>
    match upToCloser? (fullLines rest) with
    | none => (none, source)
    | some (head, tail) => (some (frontMatterOpening ++ head.flatten), tail.flatten)

end ErbLayout
