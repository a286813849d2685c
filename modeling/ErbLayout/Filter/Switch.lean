import ErbLayout.Text.Basic

/-!
The switches of filters. A switch has letters, which may stand together behind one dash, and long
names, which may be cut short as long as no other switch is meant. A value follows its letter,
stands behind an equals sign or is the next argument. What is no switch is an operand.
-/

namespace ErbLayout.Filter

inductive Takes where
  | nothing
  | value
  /-- A value only if it is attached. -/
  | attached
  /-- The letter and what is attached to it are the value. -/
  | rest
  /-- The letter and the digits behind it are the value. -/
  | digits
  deriving DecidableEq, Repr

structure Switch where
  /-- The name under which it is reported. -/
  name : String
  letters : List Char
  longNames : List String
  takes : Takes := .nothing
  deriving DecidableEq, Repr

structure Given where
  name : String
  value : Option Text := none
  deriving DecidableEq, Repr

structure Reading where
  given : List Given := []
  operands : List Text := []
  deriving DecidableEq, Repr

namespace Switch

def ofLetter? (switches : List Switch) (c : Char) : Option Switch :=
  switches.find? (·.letters.contains c)

/-- The switch that a long name stands for: the one with just that name, or the only one with a name
that begins so. -/
def ofName? (switches : List Switch) (name : Text) : Option Switch :=
  match switches.find? fun s => s.longNames.any (·.toList == name) with
  | some s => some s
  | none =>
    match switches.filter fun s => s.longNames.any fun n => name.isPrefixOf n.toList with
    | [s] => some s
    | _ => none

def cluster (switches : List Switch) : Nat → Text → Option (List Given × Option String)
  | 0, _ | _, [] => some ([], none)
  | fuel + 1, c :: cs =>
    (ofLetter? switches c).bind fun s =>
      let first (g : Given) (rest : Text) :=
        (cluster switches fuel rest).map fun (gs, lacking) => (g :: gs, lacking)
      match s.takes with
      | .nothing => first { name := s.name } cs
      | .value =>
        some (if cs.isEmpty then ([], some s.name)
          else ([{ name := s.name, value := some cs }], none))
      | .attached =>
        some ([{ name := s.name, value := if cs.isEmpty then none else some cs }], none)
      | .rest => some ([{ name := s.name, value := some (c :: cs) }], none)
      | .digits =>
        first { name := s.name, value := some (c :: cs.takeWhile Char.isDigit) }
          (cs.dropWhile Char.isDigit)

def long (switches : List Switch) (argument : Text) : Option (List Given × Option String) :=
  let name := argument.takeWhile (· != '=')
  let value := if argument.contains '=' then some ((argument.dropWhile (· != '=')).drop 1) else none
  (ofName? switches name).bind fun s =>
    match s.takes, value with
    | .nothing, some _ => none
    | .nothing, none | .attached, none => some ([{ name := s.name }], none)
    | _, none => some ([], some s.name)
    | _, some v => some ([{ name := s.name, value := some v }], none)

/-- The switches and operands of arguments. Where they may not be mixed, the first operand ends the
switches. -/
def read (switches : List Switch) (mixed : Bool) : List Text → Option Reading
  | [] => some {}
  | argument :: rest =>
    match argument with
    | ['-', '-'] => some { operands := rest }
    | '-' :: c :: cs =>
      (if c = '-' then long switches cs else cluster switches (cs.length + 1) (c :: cs)).bind
          fun (given, lacking) =>
        match lacking, rest with
        | none, rest => (read switches mixed rest).map fun r => { r with given := given ++ r.given }
        | some _, [] => none
        | some name, value :: rest =>
          (read switches mixed rest).map fun r =>
            { r with given := given ++ { name, value } :: r.given }
    | _ =>
      if mixed then (read switches mixed rest).map fun r =>
        { r with operands := argument :: r.operands }
      else some { operands := argument :: rest }

end Switch

namespace Reading

def has (r : Reading) (name : String) : Bool := r.given.any (·.name == name)

def value? (r : Reading) (name : String) : Option Text :=
  (r.given.reverse.find? (·.name == name)).bind (·.value)

def values (r : Reading) (name : String) : List Text :=
  (r.given.filter (·.name == name)).filterMap (·.value)

/-- Whether the operands name nothing but the standard input. -/
def readsInput (operands : List Text) : Bool := operands.all (· == ['-'])

end Reading

end ErbLayout.Filter
