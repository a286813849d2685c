import ErbLayout.Path
import ErbLayout.Text.Number

/-!
The arguments of a command line. An argument is a path, a switch by its long name or by letters, or
the value of the switch before it. A value that follows its switch is judged only when the next
switch takes effect or the arguments end; a switch nobody knows is refused at once.
-/

namespace ErbLayout

open Text

structure Arguments where
  inputs : List Path := []
  /-- Files are changed in place. -/
  write : Bool := false
  /-- The document is read from the standard input. -/
  stdin : Bool := false
  /-- The name of that document. -/
  stdinFilename : Option Path := none
  lineWidth : Option Nat := none
  singleClassPerLine : Option Bool := none
  codeFormatter : Option Text := none
  /-- The settings file to take instead of those that are found. -/
  config : Option Path := none
  recursive : Bool := false
  exclude : List Text := []
  jobs : Option Nat := none
  debug : Bool := false
  silent : Bool := false
  deriving DecidableEq, Repr

namespace Arguments

/-- Whether the only input is a dash. -/
def isDash (a : Arguments) : Bool := a.inputs == [['-']]

def readsStdin (a : Arguments) : Bool := a.stdin || a.stdinFilename.isSome || a.isDash

/-- Why arguments are refused, or answered without any work. -/
inductive Rejection where
  | help
  | version
  | unknownArgument
  | conflict
  | tooManyValues
  | invalidValue
  | invalidNumber
  deriving DecidableEq, Repr

inductive Switch where
  | write | noWrite | stdin | stdinFilename | lineWidth | singleClassPerLine | codeFormatter
  | config | recursive | exclude | debug | silent | jobs | help | version
  deriving DecidableEq, Repr

inductive Takes where
  | nothing
  | value
  /-- A value only after an equals sign, and perhaps none. -/
  | attached
  deriving DecidableEq, Repr

def Switch.takes : Switch → Takes
  | .stdinFilename | .lineWidth | .codeFormatter | .config | .exclude | .jobs => .value
  | .singleClassPerLine => .attached
  | _ => .nothing

def Switch.long : List (String × Switch) :=
  [("write", .write), ("no-write", .noWrite), ("stdin", .stdin), ("stdin-filename", .stdinFilename),
    ("line-width", .lineWidth), ("single-class-per-line", .singleClassPerLine),
    ("code-formatter", .codeFormatter), ("config", .config), ("recursive", .recursive),
    ("exclude", .exclude), ("debug", .debug), ("silent", .silent), ("jobs", .jobs), ("help", .help),
    ("version", .version)]

def Switch.short : List (Char × Switch) :=
  [('w', .write), ('l', .lineWidth), ('c', .config), ('r', .recursive), ('e', .exclude),
    ('D', .debug), ('S', .silent), ('j', .jobs), ('h', .help), ('V', .version)]

inductive Pending where
  | nothing
  /-- A switch that still lacks its value. -/
  | switch (s : Switch)
  | valued (s : Switch) (value : Text)
  | inputs (paths : List Path)
  deriving DecidableEq, Repr

structure Reading where
  arguments : Arguments := {}
  /-- The switches that took effect and may not come again. -/
  given : List Switch := []
  pending : Pending := .nothing
  /-- Only inputs follow. -/
  inputsOnly : Bool := false

namespace Reading

/-- A path, which must not be empty. -/
def path (value : Text) : Except Rejection Path :=
  if value.isEmpty then .error .invalidValue else .ok value

def number (value : Text) : Except Rejection Nat :=
  match nat? wordLimit value with
  | some n => .ok n
  | none => .error .invalidNumber

def truth (value : Text) : Except Rejection Bool :=
  if value = "true".toList then .ok true
  else if value = "false".toList then .ok false
  else .error .invalidValue

def set (a : Arguments) (value : Text) : Switch → Except Rejection Arguments
  | .write => .ok { a with write := true }
  | .noWrite => .ok { a with write := false }
  | .stdin => .ok { a with stdin := true }
  | .stdinFilename => (path value).map fun p => { a with stdinFilename := some p }
  | .lineWidth => (number value).map fun n => { a with lineWidth := some n }
  | .singleClassPerLine => (truth value).map fun b => { a with singleClassPerLine := some b }
  | .codeFormatter => .ok { a with codeFormatter := some value }
  | .config => (path value).map fun p => { a with config := some p }
  | .recursive => .ok { a with recursive := true }
  | .exclude => .ok { a with exclude := a.exclude ++ [value] }
  | .debug => .ok { a with debug := true }
  | .silent => .ok { a with silent := true }
  | .jobs => (number value).map fun n => { a with jobs := some n }
  | .help => .error .help
  | .version => .error .version

/-- The given switches with one more; writing and not writing take each other back. -/
def give (given : List Switch) : Switch → List Switch
  | .exclude => given
  | .write => .write :: given.erase .noWrite
  | .noWrite => .noWrite :: given.erase .write
  | s => s :: given

def effect (r : Reading) (s : Switch) (value : Text) : Except Rejection Reading :=
  if r.given.contains s then .error .conflict
  else (set r.arguments value s).map fun a => { r with arguments := a, given := give r.given s }

def settle (r : Reading) : Except Rejection Reading :=
  let done := { r with pending := .nothing }
  match r.pending with
  | .nothing => .ok done
  | .switch _ => .error .invalidValue
  | .valued s value => done.effect s value
  | .inputs paths =>
    (paths.mapM path).map fun paths =>
      { done with arguments := { r.arguments with inputs := r.arguments.inputs ++ paths } }

def act (r : Reading) (s : Switch) (value : Text) : Except Rejection Reading := do
  (← r.settle).effect s value

def await (r : Reading) (s : Switch) : Except Rejection Reading := do
  return { ← r.settle with pending := .switch s }

def input (r : Reading) (p : Path) : Except Rejection Reading :=
  match r.pending with
  | .inputs paths => .ok { r with pending := .inputs (paths ++ [p]) }
  | _ => do return { ← r.settle with pending := .inputs [p] }

def longSwitch (r : Reading) (written : Text) : Except Rejection Reading :=
  let name := written.takeWhile (· != '=')
  let value := (cutFirst? '=' written).map Prod.snd
  match Switch.long.lookup (String.ofList name) with
  | none => .error .unknownArgument
  | some s =>
    match s.takes, value with
    | .nothing, none => r.act s []
    | .nothing, some _ => .error .tooManyValues
    | .attached, none => r.act s "true".toList
    | .value, none => r.await s
    | _, some v => r.act s v

/-- The reading after switches by their letters; one that takes a value takes the rest for it. -/
def shortSwitches (r : Reading) : Text → Except Rejection Reading
  | [] => .ok r
  | c :: cs =>
    match Switch.short.lookup c with
    | none => .error .unknownArgument
    | some s =>
      if s.takes = .value then
        if cs.isEmpty then r.await s else r.act s ((after? ['='] cs).getD cs)
      else
        match r.act s [] with
        | .ok r => shortSwitches r cs
        | .error e => .error e

def step (r : Reading) (argument : Text) : Except Rejection Reading :=
  if r.inputsOnly then r.input argument
  else
    match argument with
    | ['-', '-'] => .ok { r with inputsOnly := true }
    | '-' :: '-' :: written => r.longSwitch written
    | '-' :: c :: cs => r.shortSwitches (c :: cs)
    | value =>
      match r.pending with
      | .switch s => .ok { r with pending := .valued s value }
      | _ => r.input value

end Reading

def ofList (arguments : List Text) : Except Rejection Arguments := do
  let r ← arguments.foldlM Reading.step {}
  return (← r.settle).arguments

end Arguments

end ErbLayout
