import ErbLayout.Code.Balance

/-!
The kinds of code fragments, and what is done to format one. A fragment that leaves a block open is
closed with a terminator line before it is formatted, and the terminator is taken off again
afterwards.
-/

namespace ErbLayout.Code

open Text

inductive Kind where
  | comment
  | standalone
  | closer
  | reopener
  | opener
  | expression
  deriving DecidableEq, Repr

/-- The kind of a fragment; the probe tells whether the fragment leaves a block open, and is asked
last. -/
def Kind.of (probe : Text → Bool) (code : Text) : Kind :=
  if code.head? == some '#' then .comment
  else if isStandalone code then .standalone
  else if isCloser code then .closer
  else if isReopener code then .reopener
  else if probe code then .opener
  else .expression

/-- The lines that may close a fragment, in the order in which they are tried. -/
def terminators : List Text := [['e', 'n', 'd'], ['}']]

def withTerminator (code terminator : Text) : Text := code ++ '\n' :: terminator

def close? (probe : Text → Bool) (code : Text) : Option (Text × Text) :=
  (terminators.find? fun t => !probe (withTerminator code t)).map fun t =>
    (t, withTerminator code t)

/-- Formatted code without the terminator on its last line, when that is there and something
precedes it. -/
def dropTerminator? (terminator formatted : Text) : Option Text :=
  match cutLast? '\n' (trimEnd formatted) with
  | none => none
  | some (head, last) =>
    if trim last = terminator && !(trimEnd head).isEmpty then some (trimEnd head) else none

/-- A line indented by `depth` levels, unless it is blank. -/
def indentLine (depth : Nat) (line : Text) : Text :=
  if (trimEnd line).isEmpty then [] else List.replicate (2 * depth) ' ' ++ trimEnd line

/-- Formatted code with every line but the first indented by `depth` levels. -/
def reindent (depth : Nat) (formatted : Text) : Text :=
  match lines (trim formatted) with
  | [] => []
  | first :: rest => trimEnd first ++ rest.flatMap fun line => '\n' :: indentLine depth line

end ErbLayout.Code
