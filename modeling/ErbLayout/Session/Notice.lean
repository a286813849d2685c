import ErbLayout.Directive
import ErbLayout.Event
import ErbLayout.Glob
import ErbLayout.Settings.Discovery

/-!
What a session says while it works: plain lines, which are always shown, and notices, which go to
the log. Warnings are logged in any case, the rest only for those who look into what the formatter
does.
-/

namespace ErbLayout.Session

open Text

inductive Notice where
  | explicitSettings (p : Path)
  | noSettings (start : Path)
  | settingsFile (p : Path)
  | loadedSettings (p : Path)
  | unreadableSettings (p : Path) (fault : ReadFault)
  | invalidSettings (p : Path)
  | settings (s : Settings)
  | badExclude (pattern : Text) (e : GlobError)
  | badIgnore (line : Text) (e : GlobError)
  | unreadableIgnore (p : Path) (fault : ReadFault)
  | unknownOption (word : Text)
  | directive (d : Directive) (name : Text)
  | disabled (name : Text)
  | ignored (name : Text)
  | layout (e : Event)
  | commandMissing (program : Text)
  | commandFailed (program : Text) (status : Nat)
  deriving DecidableEq, Repr

namespace Notice

def isWarning : Notice → Bool
  | .unreadableSettings .. | .invalidSettings _ | .badExclude .. | .badIgnore ..
  | .unreadableIgnore .. => true
  | _ => false

def isFine : Notice → Bool
  | .layout (.append ..) | .layout (.text _) => true
  | _ => false

def topic : Notice → Text
  | .loadedSettings _ | .unreadableSettings .. | .invalidSettings _ => "erbfmt::config".toList
  | .badIgnore .. | .unreadableIgnore .. => "erbfmt::ignore".toList
  | .unknownOption _ => "erbfmt::directive".toList
  | .layout _ => "erbfmt::layout".toList
  | .commandMissing _ | .commandFailed .. => "erbfmt::embed::command".toList
  | _ => "erbfmt".toList

def message : Notice → Text
  | .explicitSettings p => "using explicit config file ".toList ++ p
  | .noSettings start => "no config files discovered for ".toList ++ start
  | .settingsFile p => "discovered config file ".toList ++ p
  | .loadedSettings _ => "loaded config".toList
  | .unreadableSettings p fault | .unreadableIgnore p fault =>
    "failed to read ".toList ++ p ++ ':' :: ' ' :: fault.message
  | .invalidSettings p => "failed to parse ".toList ++ p ++ ": invalid settings".toList
  | .settings _ => "configuration".toList
  | .badExclude pattern e =>
    "invalid exclude pattern ".toList ++ quoted pattern ++ ':' :: ' ' :: e.message
  | .badIgnore line e => "invalid ignore pattern ".toList ++ quoted line ++ ':' :: ' ' :: e.message
  | .unknownOption word => "ignoring unknown directive option ".toList ++ quoted word
  | .directive _ name => "found file directive in ".toList ++ name
  | .disabled name => "formatting disabled by directive in ".toList ++ name
  | .ignored name => name ++ " is on the ignore list".toList
  | .layout (.push label _) => "push ".toList ++ label
  | .layout (.pop label _) => "pop ".toList ++ label
  | .layout (.append output _) => "append ".toList ++ quoted output
  | .layout (.text content) => "text ".toList ++ quoted content
  | .layout (.codeIn code _) => "code in ".toList ++ quoted code
  | .layout (.codeOut (some code)) => "code out ".toList ++ quoted code
  | .layout (.codeOut none) => "code kept as written".toList
  | .commandMissing _ => "could not run code formatter".toList
  | .commandFailed .. => "code formatter failed".toList

def optional : Option Text → Text
  | some value => "Some(".toList ++ value ++ [')']
  | none => "None".toList

def truth (b : Bool) : Text := if b then "true".toList else "false".toList

def record (name : String) (fields : List (String × Text)) : Text :=
  let shown := fields.map fun (field, value) => field.toList ++ ':' :: ' ' :: value
  name.toList ++ " \x7b ".toList ++ join [',', ' '] shown ++ " \x7d".toList

def settingsRecord (s : Settings) : Text :=
  record "Config" [("line_width", Nat.toDigits 10 s.lineWidth),
    ("single_class_per_line", truth s.singleClassPerLine),
    ("class_order", '[' :: (join [',', ' '] (s.classOrder.map quoted) ++ [']'])),
    ("code_formatter", optional (s.codeFormatter.map quoted))]

def directiveRecord (d : Directive) : Text :=
  record "DirectiveOverrides" [("line_width", optional (d.lineWidth.map (Nat.toDigits 10))),
    ("single_class_per_line", optional (d.singleClassPerLine.map truth)),
    ("disabled", truth d.disabled)]

def fields : Notice → List (String × Text)
  | .loadedSettings p => [("path", p)]
  | .settings s => [("config", settingsRecord s)]
  | .directive d _ => [("overrides", directiveRecord d)]
  | .layout (.push _ depth) | .layout (.pop _ depth) | .layout (.append _ depth) =>
    [("depth", Nat.toDigits 10 depth)]
  | .layout (.codeIn _ width) => [("width", Nat.toDigits 10 width)]
  | .commandMissing program => [("program", program), ("error", ReadFault.missing.message)]
  | .commandFailed program status =>
    [("program", program), ("status", "exit status: ".toList ++ Nat.toDigits 10 status)]
  | _ => []

/-- A character of a message as a log shows it: those that steer a terminal by their number. -/
def shown (c : Char) : Text :=
  if c = '\x07' then "\\x07".toList
  else if c = '\x08' then "\\x08".toList
  else if c = '\x0c' then "\\x0c".toList
  else if c = '\x1b' then "\\x1b".toList
  else if c = '\x7f' then "\\x7f".toList
  else if 0x80 ≤ c.toNat && c.toNat ≤ 0x9F then
    ['\\', 'u', '{'] ++ Nat.toDigits 16 c.toNat ++ ['}']
  else [c]

/-- The notice in a log, with its topic or without. -/
def render (n : Notice) (topics : Bool) : Text :=
  let level := if n.isWarning then " WARN ".toList else "DEBUG ".toList
  let topic := if topics then n.topic ++ [':', ' '] else []
  level ++ topic ++ n.message.flatMap shown
    ++ n.fields.flatMap fun (name, value) => ' ' :: (name.toList ++ '=' :: value)

end Notice

inductive Saying where
  | line (text : Text)
  | notice (n : Notice)
  deriving DecidableEq, Repr

inductive Logging where
  | off
  | warnings
  | debug
  deriving DecidableEq, Repr

def Saying.shown? (logging : Logging) : Saying → Option Text
  | .line text => some text
  | .notice n =>
    match logging with
    | .off => none
    | .warnings => if n.isWarning then some (n.render false) else none
    | .debug => if n.isFine then none else some (n.render true)

def shownText (logging : Logging) (said : List Saying) : Text :=
  said.flatMap fun s =>
    match s.shown? logging with
    | some text => text ++ ['\n']
    | none => []

end ErbLayout.Session
