import ErbLayout.Command
import ErbLayout.Filter.Copy
import ErbLayout.Filter.Editor
import ErbLayout.Filter.Exchange
import ErbLayout.Filter.Select

/-!
The text filters that a command can name where no program can be started. Each reads bytes and
writes bytes, or fails with a status; other programs are missing. There are no files, so that a
filter reads nothing but its input. They only let the command line be run: what is proved of
commands and sessions holds for all `Programs`.
-/

namespace ErbLayout.Filter

open Text

/-- A tool: the result of reading a text with some arguments. -/
abbrev Tool := List Text → Text → Except Refusal Text

def orFail (status : Nat) : Option Text → Except Refusal Text
  | some out => .ok out
  | none => .error (.failed status)

def copy : Tool := fun arguments s =>
  orFail 1 <| (Switch.read Copying.switches true arguments).bind fun r =>
    if Reading.readsInput r.operands then
      some ((Copying.ofReading r).apply 0 false (rowsOf lineFeed s)) else none

def exchangeOctets : Tool := fun arguments s =>
  orFail 1 <| (Switch.read Exchange.switches false arguments).bind fun r =>
    (r.operands.mapM setPieces?).bind fun sets => (Exchange.ofReading r).result? sets s

def fold : Tool := fun arguments s =>
  orFail 1 <| (Switch.read Folding.switches true arguments).bind fun r =>
    if Reading.readsInput r.operands then (Folding.ofReading? r).map fun style =>
      style.applyFrom [] s else none

def edit : Tool := fun arguments s =>
  match Switch.read Editor.switches true arguments with
  | none => .error (.failed 1)
  | some r =>
    let given := scriptsOf false r.given
    let (scripts, files) := match given, r.operands with
      | [], script :: files => ([(r.has "extended", script)], files)
      | given, operands => (given, operands)
    let columns := (r.values "columns").mapM (nat? wordLimit)
    let ending := if r.has "zero" then '\x00' else lineFeed
    match program? ending scripts, columns with
    | some program, some columns =>
      if scripts.isEmpty || r.has "file" || r.has "inPlace" then .error (.failed 1)
      else if !Reading.readsInput files then .error (.failed 2)
      else
        let manner : Manner :=
          { silent := r.has "silent" || asksSilence scripts
            columns := columns.getLastD 70
            ending }
        match Editor.edit? manner program s with
        | some (0, out) => .ok out
        | some (status, _) => .error (.failed status)
        | none => .error (.failed 1)
    | _, _ => .error (.failed 1)

/-- Selects rows, the first operand being the pattern if no switch gives any; it fails when there
are none. -/
def select : Tool := fun arguments s =>
  match Switch.read Selection.switches true arguments with
  | none => .error (.failed 2)
  | some r =>
    let (patterns, files) := match r.values "pattern", r.operands with
      | [], pattern :: files => ([pattern], files)
      | patterns, operands => (patterns, operands)
    if patterns.isEmpty || r.has "file" || !Reading.readsInput files then .error (.failed 2)
    else
      match Selection.ofReading? r patterns (1 < files.length) with
      | none => .error (.failed 2)
      | some selection => orFail 1 (selection.result? s)

def named : List (String × Tool) :=
  [("cat", copy), ("tr", exchangeOctets), ("sed", edit), ("fold", fold), ("grep", select),
    ("true", fun _ _ => .ok []), ("false", fun _ _ => .error (.failed 1))]

/-- The programs of a system that has the filters and no others. -/
def programs : Programs := fun name arguments s =>
  let name := ((after? "/usr/bin/".toList name).or (after? "/bin/".toList name)).getD name
  match named.lookup (String.ofList name) with
  | some tool => (tool (arguments.map fun a => octets (encode a)) (octets s)).map bytesOf
  | none => .error .missing

end ErbLayout.Filter
