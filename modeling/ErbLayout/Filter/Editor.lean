import ErbLayout.Filter.Octet
import ErbLayout.Filter.Script
import ErbLayout.Filter.Switch

/-!
The editor that runs scripts. It reads a row into its space, runs the script on it and writes the
space, until there are no more rows. A row that lacks its line feed gets one only if something is
written behind it.
-/

namespace ErbLayout.Filter

structure Manner where
  /-- The space is written only where the script says so. -/
  silent : Bool := false
  /-- How many columns a spelled row takes. -/
  columns : Nat := 70
  ending : Char := lineFeed
  deriving DecidableEq, Repr

/-- The state of an editor. -/
structure Editor where
  /-- The rows still to be read. -/
  input : List Row
  /-- The number of the row that was read last. -/
  number : Nat := 0
  space : Row := ⟨[], true⟩
  held : Row := ⟨[], true⟩
  /-- What is written at the end of the cycle. -/
  queue : List Text := []
  /-- What was written, the latest first. -/
  written : List Text := []
  /-- The row that was written last lacks its line feed. -/
  owing : Bool := false
  /-- A substitution was made since the last row was read. -/
  replaced : Bool := false
  /-- The scopes that rows are in, by the place of the instruction, and the number of the row where
  each ends if that is known. -/
  active : List (Nat × Option Nat) := []
  /-- The scopes from a numbered row on that are over. -/
  finished : List Nat := []
  /-- The pattern that was tried last. -/
  latest : Option Expression := none
  /-- That pattern is an address. -/
  latestIsAddress : Bool := false
  deriving DecidableEq, Repr

namespace Editor

def put (e : Editor) (m : Manner) (text : Text) : Editor :=
  let written := if e.owing then [m.ending] :: e.written else e.written
  { e with written := text :: written, owing := false }

def putText (e : Editor) (m : Manner) (text : Text) : Editor :=
  e.put m (if text.isEmpty then [] else text.dropLast ++ [m.ending])

def putRow (e : Editor) (m : Manner) (row : Row) : Editor :=
  let e := e.put m row.content
  if row.ended then { e with written := [m.ending] :: e.written } else { e with owing := true }

/-- Writes the space, unless the editor is silent. -/
def putSpace (e : Editor) (m : Manner) : Editor := if m.silent then e else e.putRow m e.space

def flush (e : Editor) (m : Manner) : Editor :=
  { e.queue.foldl (fun e text => e.put m text) e with queue := [] }

def read? (e : Editor) : Option (Row × Editor) :=
  match e.input with
  | [] => none
  | row :: rest => some (row, { e with input := rest, number := e.number + 1, replaced := false })

/-- Whether the pattern matches the space, unless there is none. -/
def tries? (e : Editor) (p : Sought) : Option (Bool × Editor) :=
  (p.or e.latest).map fun x =>
    (x.occursIn e.space.content,
      { e with latest := some x, latestIsAddress := p.isSome || e.latestIsAddress })

def meets? (e : Editor) : Address → Option (Bool × Editor)
  | .row n => some (e.number == n, e)
  | .last => some (e.input.isEmpty, e)
  | .found p => e.tries? p
  | .stepped first step => some (first ≤ e.number && (e.number - first) % step == 0, e)

/-- The editor in the scope of the instruction at `place`, up to a row if that is known. -/
def enter (e : Editor) (place : Nat) (stop : Option Nat) : Editor :=
  { e with active := (place, stop) :: e.active }

/-- The editor out of the scope of the instruction at `place`, for good if that began at a numbered
row. -/
def leave (e : Editor) (place : Nat) (first : Address) : Editor :=
  { e with
    active := e.active.filter (·.1 != place)
    finished := if first matches .row _ then place :: e.finished else e.finished }

/-- Begins the scope of the instruction at `place`, and says whether the row is in it. -/
def begin (e : Editor) (place : Nat) (first : Address) : Limit → Bool × Editor
  | .reached (.row n) =>
    if n ≤ e.number then (e.number ≤ n || first == .row e.number || !(first matches .row _),
      e.leave place first)
    else (true, e.enter place (some n))
  | .reached (.stepped n step) =>
    let stop := n + (e.number - n + step - 1) / step * step
    (true, if stop ≤ e.number then e.leave place first else e.enter place (some stop))
  | .reached .last => (true, if e.input.isEmpty then e.leave place first else e.enter place none)
  | .reached (.found _) => (true, e.enter place none)
  | .further 0 | .multiple 0 => (true, e.leave place first)
  | .further n => (true, e.enter place (some (e.number + n)))
  | .multiple n => (true, e.enter place (some ((e.number / n + 1) * n)))

/-- Goes on in the scope of the instruction at `place`, and says whether the row is in it. A row
after the last one closes the scope, and is in it unless the last row was given by its number. -/
def goOn? (e : Editor) (place : Nat) (first : Address) (limit : Limit) (stop : Option Nat) :
    Option (Bool × Editor) :=
  match stop, limit with
  | some n, limit =>
    let inScope := e.number ≤ n || !(limit matches .reached (.row _))
    some (inScope, if n ≤ e.number then e.leave place first else e)
  | none, .reached a =>
    (e.meets? a).map fun (met, e) => (true, if met then e.leave place first else e)
  | none, _ => some (true, e)

/-- Whether the row begins a scope with a limit. A numbered row may have been passed. -/
def begins? (e : Editor) (place : Nat) : Address → Option (Bool × Editor)
  | .row n => some (n ≤ e.number && !e.finished.contains place, e)
  | a => e.meets? a

/-- Whether the instruction at `place` acts for the row. -/
def acts? (e : Editor) (place : Nat) (s : Scope) : Option (Bool × Editor) :=
  let inScope : Option (Bool × Editor) :=
    match s.first, s.limit with
    | none, _ => some (true, e)
    | some a, none => e.meets? a
    | some a, some limit =>
      match e.active.lookup place with
      | some stop => e.goOn? place a limit stop
      | none =>
        (e.begins? place a).map fun (starts, e) => if starts then e.begin place a limit
          else (false, e)
  inScope.map fun (met, e) => (met != s.negated, e)

end Editor

/-- A text with matches replaced from a place on, and whether one was. `count` matches were found
before, and `fresh` says that a match may be empty here. -/
def Substitution.go (s : Substitution) (x : Expression) : Nat → Bool → Nat → Place → Text × Bool
  | 0, _, _, p => (p.ahead, false)
  | fuel + 1, fresh, count, p =>
    match x.find? { p with groups := [] } with
    | none => (p.ahead, false)
    | some (start, stop) =>
      let before := p.textTo start
      let isEmpty := start.remaining = stop.remaining
      if isEmpty && !fresh && start.remaining = p.remaining then
        match p.next? with
        | none => ([], false)
        | some (c, q) => let (t, done) := s.go x fuel true count q; (c :: t, done)
      else
        let found := start.textTo stop
        let replaced := s.nth ≤ count + 1
        let held (k : Nat) : Text := if k = 0 then found else (stop.groups.lookup k).getD []
        let text := before ++ if replaced then replace held .kept none false s.replacement
          else found
        if replaced && !s.everywhere then (text ++ stop.ahead, true)
        else if isEmpty then
          match stop.next? with
          | none => (text, replaced)
          | some (c, q) =>
            let (t, done) := s.go x fuel true (count + 1) q
            (text ++ c :: t, replaced || done)
        else
          let (t, done) := s.go x fuel false (count + 1) stop
          (text ++ t, replaced || done)

/-- A row spelled out in columns, `used` of which are taken in the line that is being written. -/
def spelledRow (ending : Char) (columns used : Nat) : Text → Text
  | [] => ['$', ending]
  | c :: cs =>
    let text := spelled c
    if 0 < columns && columns - 1 < used + text.length then
      '\\' :: ending :: text ++ spelledRow ending columns text.length cs
    else text ++ spelledRow ending columns (used + text.length) cs
where
  /-- A character spelled out. -/
  spelled (c : Char) : Text :=
    match c with
    | '\\' => ['\\', '\\']
    | '\x07' => ['\\', 'a']
    | '\x08' => ['\\', 'b']
    | '\x0c' => ['\\', 'f']
    | '\n' => ['\\', 'n']
    | '\r' => ['\\', 'r']
    | '\t' => ['\\', 't']
    | '\x0b' => ['\\', 'v']
    | c =>
      if inRanges OctetClass.print.ranges c then [c]
      else
        let digit (k : Nat) : Char := Char.ofNat (48 + c.toNat / Nat.pow 8 k % 8)
        ['\\', digit 2, digit 1, digit 0]

inductive Next where
  | go (place : Nat)
  /-- The cycle ends: the space is written. -/
  | cycle
  /-- The cycle ends and the space is not written. -/
  | drop
  /-- A new cycle begins with what is in the space. -/
  | again
  | quit (status : Nat)
  deriving DecidableEq, Repr

namespace Editor

def putFile (e : Editor) (file : Text) (m : Manner) (row : Row) : Editor :=
  if file = "/dev/stdout".toList then
    { e with written := (row.content ++ if row.ended then [m.ending] else []) :: e.written }
  else e

def firstRow (e : Editor) (m : Manner) : Row :=
  if e.space.content.contains m.ending then ⟨e.space.content.takeWhile (· != m.ending), true⟩
  else e.space

/-- Makes a substitution in the space. The pattern of an address must have the groups that are
referred to. -/
def substitute? (e : Editor) (m : Manner) (s : Substitution) : Option Editor :=
  let isAddress := s.pattern.isNone && e.latestIsAddress
  ((s.pattern.or e.latest).filter fun x => !isAddress ||
      greatestHeld s.replacement ≤ x.groupCount).map fun x =>
    let content := e.space.content
    let (text, done) := s.go x (2 * content.length + 2) true 0 { ahead := content }
    let e := { e with latest := some x, latestIsAddress := isAddress }
    if !done then e
    else
      let e := { e with space := { e.space with content := text }, replaced := true }
      let e := if s.shown then e.putRow m e.space else e
      match s.file with
      | some file => e.putFile file m e.space
      | none => e

/-- Carries out the act at a place; nothing when there is no pattern to try. -/
def perform? (m : Manner) (script : List Instruction) (place : Nat) (e : Editor) :
    Act → Option (Next × Editor)
  | .openBlock | .closeBlock | .label _ | .nothing => some (.go (place + 1), e)
  | .jump name condition =>
    let target := if name.isEmpty then script.length else (labelled? script name).getD script.length
    match condition with
    | .always => some (.go target, e)
    | .replaced =>
      some (.go (if e.replaced then target else place + 1), { e with replaced := false })
    | .unreplaced =>
      some (.go (if e.replaced then place + 1 else target), { e with replaced := false })
  | .append text => some (.go (place + 1), { e with queue := e.queue ++ [text] })
  | .read => some (.go (place + 1), { e with queue := e.queue ++ [[]] })
  | .insert text => some (.go (place + 1), e.putText m text)
  | .change text => some (.drop, if (e.active.lookup place).isSome then e else e.putText m text)
  | .delete => some (.drop, e)
  | .deleteFirst =>
    if e.space.content.contains m.ending then
      let rest := (e.space.content.dropWhile (· != m.ending)).drop 1
      some (.again, { e with space := { e.space with content := rest } })
    else some (.drop, e)
  | .number => some (.go (place + 1), e.put m (Nat.toDigits 10 e.number ++ [m.ending]))
  | .name => some (.go (place + 1), e.put m ['-', m.ending])
  | .get => some (.go (place + 1), { e with space := e.held })
  | .getMore =>
    let content := e.space.content ++ m.ending :: e.held.content
    some (.go (place + 1), { e with space := { e.held with content } })
  | .hold => some (.go (place + 1), { e with held := e.space })
  | .holdMore =>
    let content := e.held.content ++ m.ending :: e.space.content
    some (.go (place + 1), { e with held := { e.space with content } })
  | .swap => some (.go (place + 1), { e with space := e.held, held := e.space })
  | .spell width =>
    some (.go (place + 1), e.put m (spelledRow m.ending (width.getD m.columns) 0 e.space.content))
  | .next =>
    if e.input.isEmpty then some (.cycle, e)
    else ((e.putSpace m).flush m).read?.map fun (row, e) =>
      (.go (place + 1), { e with space := row })
  | .nextMore =>
    if e.input.isEmpty then some (.cycle, e)
    else (e.flush m).read?.map fun (row, e) =>
      let content := e.space.content ++ m.ending :: row.content
      (.go (place + 1), { e with space := ⟨content, row.ended⟩ })
  | .print => some (.go (place + 1), e.putRow m e.space)
  | .printFirst => some (.go (place + 1), e.putRow m (e.firstRow m))
  | .quit status silent =>
    let e := { e with space := { e.space with ended := true } }
    some (.quit status, if silent then e else (e.putSpace m).flush m)
  | .substitute s => (e.substitute? m s).map fun e => (.go (place + 1), e)
  | .exchange pairs =>
    let content := e.space.content.map fun c => (pairs.lookup c).getD c
    some (.go (place + 1), { e with space := { e.space with content } })
  | .clear => some (.go (place + 1), { e with space := { e.space with content := [] } })
  | .write file first =>
    some (.go (place + 1), e.putFile file m (if first then e.firstRow m else e.space))

def step? (m : Manner) (script : List Instruction) (place : Nat) (e : Editor) :
    Option (Next × Editor) :=
  match script[place]? with
  | none => some (.cycle, e)
  | some i =>
    (e.acts? place i.scope).bind fun (acts, e) =>
      if acts then perform? m script place e i.act
      else if i.act = .openBlock then
        some (.go (place + 1 + (closing? 0 (script.drop (place + 1))).getD 0 + 1), e)
      else some (.go (place + 1), e)

def run (m : Manner) (script : List Instruction) : Nat → Nat → Editor → Option (Nat × Editor)
  | 0, _, _ => none
  | fuel + 1, place, e =>
    (step? m script place e).bind fun
      | (.go place, e) => run m script fuel place e
      | (.cycle, e) => afterCycle fuel ((e.putSpace m).flush m)
      | (.drop, e) => afterCycle fuel (e.flush m)
      | (.again, e) => run m script fuel 0 (e.flush m)
      | (.quit status, e) => some (status, e)
where
  /-- Reads the next row and begins a cycle. -/
  afterCycle (fuel : Nat) (e : Editor) : Option (Nat × Editor) :=
    match e.read? with
    | none => some (0, e)
    | some (row, e) => run m script fuel 0 { e with space := row }

def initialScopes (script : List Instruction) : List (Nat × Option Nat) :=
  (script.zipIdx.filter fun (i, _) => i.scope.first == some (.row 0)).map fun (_, place) =>
    (place, none)

def stepLimit : Nat := 100000

def edit? (m : Manner) (script : List Instruction) (s : Text) : Option (Nat × Text) :=
  let start : Editor := { input := rowsOf m.ending s, active := initialScopes script }
  let ended : Option (Nat × Editor) :=
    match start.read? with
    | none => some (0, start)
    | some (row, e) => run m script stepLimit 0 { e with space := row }
  ended.map fun (status, e) => (status, e.written.reverse.flatten)

end Editor

def Editor.switches : List Switch :=
  [⟨"silent", ['n'], ["quiet", "silent"], .nothing⟩, ⟨"script", ['e'], ["expression"], .value⟩,
    ⟨"extended", ['E', 'r'], ["regexp-extended"], .nothing⟩, ⟨"file", ['f'], ["file"], .value⟩,
    ⟨"inPlace", ['i'], ["in-place"], .attached⟩, ⟨"columns", ['l'], ["line-length"], .value⟩,
    ⟨"ignored", ['s', 'u', 'b'], ["separate", "unbuffered", "binary", "posix", "follow-symlinks",
      "sandbox"], .nothing⟩,
    ⟨"zero", ['z'], ["null-data", "zero-terminated"], .nothing⟩]

/-- The scripts that switches give, each with whether the extended dialect was asked for before it.
Scripts of one dialect that follow each other are one script. -/
def scriptsOf (extended : Bool) : List Given → List (Bool × Text)
  | [] => []
  | g :: rest =>
    if g.name = "extended" then scriptsOf true rest
    else if g.name = "script" then
      let text := g.value.getD []
      match scriptsOf extended rest with
      | (x, next) :: more =>
        if x = extended then (x, text ++ lineFeed :: next) :: more
        else (extended, text) :: (x, next) :: more
      | [] => [(extended, text)]
    else scriptsOf extended rest

/-- The instructions of scripts, unless one cannot be read or they do not fit together. -/
def program? (ending : Char) (scripts : List (Bool × Text)) : Option (List Instruction) :=
  (scripts.mapM fun ((extended, text) : Bool × Text) =>
      instructions? { extended, ending } (text.length + 1) text).bind fun parts =>
    if isLinked parts.flatten then some parts.flatten else none

def asksSilence (scripts : List (Bool × Text)) : Bool :=
  match scripts with
  | (_, '#' :: 'n' :: r) :: _ => r.isEmpty || r.head? == some lineFeed
  | _ => false

end ErbLayout.Filter
