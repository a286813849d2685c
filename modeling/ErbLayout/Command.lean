import ErbLayout.Settings.Basic
import ErbLayout.Text.Bytes

/-!
Commands that format embedded code. A command is a program and its arguments; the code is what the
program reads, and what it writes takes the place of the code, unless the program is missing, fails
or writes nothing but blanks.
-/

namespace ErbLayout

open Text

structure Command where
  program : Text
  arguments : List Text
  deriving DecidableEq, Repr

inductive Refusal where
  | missing
  | failed (status : Nat)
  deriving DecidableEq, Repr

/-- What the programs of a system write, by name, arguments and what they read. -/
abbrev Programs := Text → List Text → Bytes → Except Refusal Bytes

namespace Command

/-- The command with the words of a line, unless the line is blank. -/
def ofText? (line : Text) : Option Command :=
  match words line with
  | [] => none
  | program :: arguments => some ⟨program, arguments⟩

def widthField : Text := "\x7bwidth\x7d".toList

def argumentsFor (c : Command) (width : Nat) : List Text :=
  c.arguments.map (replaceAll widthField (Nat.toDigits 10 width))

def run (programs : Programs) (c : Command) (code : Text) (width : Nat) : Except Refusal Bytes :=
  programs c.program (c.argumentsFor width) (encode code)

def format (programs : Programs) (c : Command) (code : Text) (width : Nat) : Option Text :=
  match c.run programs code width with
  | .error _ => none
  | .ok output =>
    let formatted := trimEnd (decodeLossy output)
    if formatted.isEmpty then none else some formatted

end Command

/-- The command of the settings that formats code, unless it is blank. -/
def Settings.command? (s : Settings) : Option Command := s.codeFormatter.bind Command.ofText?

def Settings.options (s : Settings) (programs : Programs) (filename : Text) : Options where
  lineWidth := s.lineWidth
  singleClassPerLine := s.singleClassPerLine
  filename := filename
  formatCode := match s.command? with
    | some c => c.format programs
    | none => fun _ _ => none
  ranking := s.ranking?

end ErbLayout
