import ErbLayout.Filter.Octet
import ErbLayout.Text.Number

/-!
Regular expressions and what they match. Of the matches that begin leftmost the longest counts.
Parts of an expression that stand more to the left take as much as they can, and a group holds what
it matched last.

How regular expressions are written. In the basic dialect groups, alternatives and counts are marked
by backslashes, and a mark that has nothing to act on stands for itself. In the extended dialect the
marks are bare. The rich dialect adds letters for more sets and conditions, in brackets too, groups
without a number, and repetitions with a mark behind them.
-/

namespace ErbLayout.Filter

structure OctetSet where
  ranges : List (Char × Char)
  negated : Bool := false
  /-- A letter counts in both cases. -/
  folded : Bool := false
  deriving DecidableEq, Repr

namespace OctetSet

def holds (s : OctetSet) (c : Char) : Bool :=
  (inRanges s.ranges c || s.folded && (inRanges s.ranges c.toLower || inRanges s.ranges c.toUpper))
    != s.negated

def single (folded : Bool) (c : Char) : OctetSet := { ranges := [(c, c)], folded }

end OctetSet

inductive Edge where
  /-- The start of a row; with an ending the rows inside the text that it parts count too. -/
  | rowStart (ending : Option Char)
  | rowEnd (ending : Option Char)
  | wordStart
  | wordEnd
  /-- The start or the end of a word, or with `negated` anything else. -/
  | word (negated : Bool)
  | start
  | finish
  deriving DecidableEq, Repr

inductive Expression where
  | nothing
  | one (set : OctetSet)
  | edge (e : Edge)
  | group (number : Nat) (body : Expression)
  /-- What the group matched, once more. -/
  | again (number : Nat) (folded : Bool)
  | both (first second : Expression)
  | either (first second : Expression)
  | times (body : Expression) (least : Nat) (most : Option Nat)
  deriving DecidableEq, Repr

/-- A place in a text, and what the groups hold there. -/
structure Place where
  /-- The characters before the place, the nearest first. -/
  behind : Text := []
  ahead : Text
  /-- How many characters are ahead. -/
  remaining : Nat := ahead.length
  groups : List (Nat × Text) := []
  deriving DecidableEq, Repr

namespace Place

def next? (p : Place) : Option (Char × Place) :=
  match p.ahead with
  | [] => none
  | c :: cs =>
    some (c, { p with behind := c :: p.behind, ahead := cs, remaining := p.remaining - 1 })

def wordBehind (p : Place) : Bool := p.behind.head?.any isWordOctet

def wordAhead (p : Place) : Bool := p.ahead.head?.any isWordOctet

def textTo (p q : Place) : Text := p.ahead.take (p.remaining - q.remaining)

def afterText? (folded : Bool) (p : Place) : Text → Option Place
  | [] => some p
  | c :: cs =>
    p.next?.bind fun (d, q) =>
      if c = d || folded && c.toLower = d.toLower then afterText? folded q cs else none

end Place

def Edge.holds (p : Place) : Edge → Bool
  | .rowStart ending => p.behind.isEmpty || ending.isSome && p.behind.head? == ending
  | .rowEnd ending => p.ahead.isEmpty || ending.isSome && p.ahead.head? == ending
  | .wordStart => !p.wordBehind && p.wordAhead
  | .wordEnd => p.wordBehind && !p.wordAhead
  | .word negated => (p.wordBehind != p.wordAhead) != negated
  | .start => p.behind.isEmpty
  | .finish => p.ahead.isEmpty

/-- Puts a way among others that are sorted by length, the longest first, unless one of the same
length that holds the same in the groups `kept` is there. -/
def insertWay (kept : List Nat) (way : Place) : List Place → List Place
  | [] => [way]
  | p :: ps =>
    if p.remaining < way.remaining then p :: insertWay kept way ps
    else if p.remaining = way.remaining then
      if kept.all fun k => p.groups.lookup k == way.groups.lookup k then p :: ps
      else p :: insertWay kept way ps
    else way :: p :: ps

/-- Ways sorted by length, the longest first. Of those that differ in nothing that matters the first
stays. -/
def sortWays (kept : List Nat) (ways : List Place) : List Place :=
  ways.foldl (fun sorted way => insertWay kept way sorted) []

/-- The places that `count` more rounds can lead to, round after round. Rounds that lead nowhere new
end it. -/
def rounds (kept : List Nat) (step : Place → List Place) : Nat → List Place → List (List Place)
  | 0, _ => []
  | count + 1, places =>
    let reached := sortWays kept (places.flatMap fun p => (step p).filter fun q =>
      q.remaining < p.remaining)
    if reached.isEmpty then [] else reached :: rounds kept step count reached

/-- The places after exactly `count` rounds. -/
def roundsOf (kept : List Nat) (step : Place → List Place) : Nat → List Place → List Place
  | 0, places => places
  | count + 1, places => roundsOf kept step count (sortWays kept (places.flatMap step))

namespace Expression

def kept : Expression → List Nat
  | .again number _ => [number]
  | .group _ body | .times body _ _ => body.kept
  | .both a b | .either a b => a.kept ++ b.kept
  | .nothing | .one _ | .edge _ => []

def groupCount : Expression → Nat
  | .group number body => max number body.groupCount
  | .times body _ _ => body.groupCount
  | .both a b | .either a b => max a.groupCount b.groupCount
  | .again _ _ | .nothing | .one _ | .edge _ => 0

/-- The places that a match of the expression can lead to, the farthest first. -/
def ways (kept : List Nat) : Expression → Place → List Place
  | .nothing, p => [p]
  | .one set, p =>
    match p.next? with
    | some (c, q) => if set.holds c then [q] else []
    | none => []
  | .edge e, p => if e.holds p then [p] else []
  | .group number body, p =>
    (body.ways kept p).map fun q => { q with groups := (number, p.textTo q) :: q.groups }
  | .again number folded, p =>
    match p.groups.lookup number with
    | some held => (p.afterText? folded held).toList
    | none => []
  | .both a b, p => sortWays kept ((a.ways kept p).flatMap (b.ways kept))
  | .either a b, p => sortWays kept (a.ways kept p ++ b.ways kept p)
  | .times body least most, p =>
    if most = some 0 then [p]
    else
      let first := roundsOf kept (body.ways kept) (max least 1) [p]
      let more := match most with
        | some most => most - max least 1
        | none => p.remaining
      let further := rounds kept (body.ways kept) more first
      sortWays kept (first ++ further.flatten ++ if least = 0 then [p] else [])

/-- Where the longest match at a place ends. -/
def matchAt? (e : Expression) (p : Place) : Option Place := (e.ways e.kept p).head?

/-- The first place from `p` on where something is found, and what is found. -/
def searchFrom {α : Type} (look : Place → Option α) : Nat → Place → Option (Place × α)
  | 0, p => (look p).map (p, ·)
  | fuel + 1, p =>
    match look p with
    | some found => some (p, found)
    | none => p.next?.bind fun (_, q) => searchFrom look fuel q

/-- The leftmost longest match from a place on: where it begins and where it ends. -/
def find? (e : Expression) (p : Place) : Option (Place × Place) :=
  searchFrom e.matchAt? p.remaining p

def occursIn (e : Expression) (s : Text) : Bool := (e.find? { ahead := s }).isSome

def literal (folded : Bool) : Text → Expression
  | [] => .nothing
  | [c] => .one (.single folded c)
  | c :: cs => .both (.one (.single folded c)) (literal folded cs)

end Expression

structure Dialect where
  extended : Bool := false
  /-- Letters match in both cases. -/
  folded : Bool := false
  /-- The text may hold several rows: their starts and ends count, and sets do not reach across
  them. -/
  inner : Bool := false
  /-- What ends a row. -/
  ending : Char := lineFeed
  /-- Marks that have nothing to act on are refused where the dialect does not take them for
  themselves. -/
  strict : Bool := true
  /-- More sets and conditions have a letter. -/
  rich : Bool := false
  deriving DecidableEq, Repr

def Dialect.innerEnding (d : Dialect) : Option Char := if d.inner then some d.ending else none

def Dialect.uncrossed (d : Dialect) : List (Char × Char) :=
  if d.inner then [(lineFeed, lineFeed), (d.ending, d.ending)] else []

inductive Member where
  | single (c : Char)
  | range (lo hi : Char)
  | named (ranges : List (Char × Char))
  deriving DecidableEq, Repr

def Member.ranges : Member → List (Char × Char)
  | .single c => [(c, c)]
  | .range lo hi => [(lo, hi)]
  | .named ranges => ranges

def symbol? (mark : Char) : Text → Option (Text × Text)
  | [] => none
  | c :: cs =>
    match cs with
    | ']' :: rest =>
      if c = mark then some ([], rest) else (symbol? mark cs).map fun (name, r) => (c :: name, r)
    | _ => (symbol? mark cs).map fun (name, r) => (c :: name, r)

def letterSets : List (Char × List (Char × Char)) :=
  [('w', [('0', '9'), ('A', 'Z'), ('_', '_'), ('a', 'z')]), ('s', OctetClass.space.ranges),
    ('d', OctetClass.digit.ranges), ('h', OctetClass.blank.ranges)]

def letterControls : List (Char × Char) :=
  [('t', '\t'), ('n', '\n'), ('r', '\r'), ('f', '\x0c'), ('e', '\x1b'), ('a', '\x07')]

/-- The member at the start of a text, taken for itself, and the rest. Backslashes have a meaning
only in the rich dialect. -/
def member? (rich : Bool) : Text → Option (Member × Text)
  | [] => none
  | '[' :: '.' :: r => (symbol? '.' r).bind fun (name, rest) => name.head?.bind fun c =>
      if name.length = 1 && !rich then some (.single c, rest) else none
  | '[' :: '=' :: r => (symbol? '=' r).bind fun (name, rest) => name.head?.bind fun c =>
      if name.length = 1 && !rich then some (.named [(c, c)], rest) else none
  | '[' :: ':' :: r => (symbol? ':' r).bind fun (name, rest) =>
      (OctetClass.named.lookup (String.ofList name)).map fun k => (.named k.ranges, rest)
  | '\\' :: c :: r =>
    if !rich then some (.single '\\', c :: r)
    else
      match letterSets.lookup c with
      | some ranges => some (.named ranges, r)
      | none =>
        match letterControls.lookup c with
        | some control => some (.single control, r)
        | none => if c.isAlphanum then none else some (.single c, r)
  | c :: r => some (.single c, r)

/-- The members of a set up to its bracket, and the rest. A bracket that comes first is a member. -/
def members? (rich : Bool) : Nat → Bool → Text → Option (List Member × Text)
  | 0, _, _ => none
  | fuel + 1, first, s =>
    match first, s with
    | false, ']' :: rest => some ([], rest)
    | false, '-' :: ']' :: rest => some ([.single '-'], rest)
    | false, '-' :: _ => none
    | _, s =>
      (member? rich s).bind fun (m, r) =>
        let more (m : Member) (r : Text) := (members? rich fuel false r).map fun (ms, rest) =>
          (m :: ms, rest)
        match m, r with
        | .single _, '-' :: ']' :: _ => more m r
        | .single lo, '-' :: r =>
          (member? rich r).bind fun
            | (.single hi, r) => if hi < lo then none else more (.range lo hi) r
            | _ => none
        | m, r => more m r

def isBareClass (ms : List Member) : Bool :=
  ms.head? == some (.single ':') && ms.getLast? == some (.single ':') && ms.any (· != .single ':')
    && ms.all fun m => m matches .single _

def Dialect.set? (d : Dialect) (s : Text) : Option (OctetSet × Text) :=
  let (negated, s) := match s with
    | '^' :: r => (true, r)
    | _ => (false, s)
  (members? d.rich (s.length + 1) true s).bind fun (ms, rest) =>
    if isBareClass ms then none
    else
      let across := if negated then d.uncrossed else []
      some ({ ranges := across ++ ms.flatMap Member.ranges, negated, folded := d.folded }, rest)

def countLimit : Nat := 0x8000

inductive Count where
  | valid (least : Nat) (most : Option Nat) (rest : Text)
  /-- Something that is no count. -/
  | other
  /-- A count that is refused. -/
  | wrong
  deriving DecidableEq, Repr

def Dialect.count (d : Dialect) (s : Text) : Count :=
  let close := if d.extended then ['\x7d'] else ['\\', '\x7d']
  let low := s.takeWhile Char.isDigit
  let s := s.dropWhile Char.isDigit
  let made (least : Nat) (most : Option Nat) (rest : Text) : Count :=
    if countLimit ≤ most.getD least || most.any (· < least) then .wrong else .valid least most rest
  match Text.after? close s with
  | some rest =>
    if low.isEmpty then .wrong else made (Text.digitsValue low) (some (Text.digitsValue low)) rest
  | none =>
    match s with
    | ',' :: s =>
      let high := s.takeWhile Char.isDigit
      match Text.after? close (s.dropWhile Char.isDigit) with
      | some rest =>
        made (Text.digitsValue low)
          (if high.isEmpty then none else some (Text.digitsValue high)) rest
      | none => .other
    | _ => .other

inductive Token where
  | one (set : OctetSet)
  | edge (e : Edge)
  | again (number : Nat)
  | openGroup
  /-- A group without a number. -/
  | openPlain
  | closeGroup
  | bar
  /-- A repetition. `repeatable` says that it may follow another one in every dialect. -/
  | times (least : Nat) (most : Option Nat) (repeatable : Bool)
  /-- A mark without effect. -/
  | skip
  /-- A count of nothing. -/
  | blank
  /-- A mark behind a repetition, which nothing more may repeat. -/
  | sealed
  deriving DecidableEq, Repr

inductive Before where
  | nothing
  /-- Marks without effect. -/
  | skipped
  /-- The start or the end of a row, or a condition on a place before any part. -/
  | anchor
  /-- A condition on a place behind a part. -/
  | edge
  | part
  | repetition
  deriving DecidableEq, Repr

namespace Dialect

def canRepeat (d : Dialect) : Before → Bool
  | .part | .repetition => true
  | .edge => !d.strict
  | .anchor => d.extended && !d.strict
  | .nothing | .skipped => false

def plain (d : Dialect) (c : Char) : Token := .one (.single d.folded c)

def repetition? (d : Dialect) (before : Before) (mark : Char) (least : Nat) (most : Option Nat)
    (rest : Text) :
    Option (Token × Text) :=
  if d.rich && before = .repetition then if mark = '*' then none else some (.sealed, rest)
  else if d.canRepeat before then some (.times least most (mark == '+' || mark == '?'), rest)
  else if !d.extended then some (d.plain mark, rest)
  else if d.strict then none
  else some (.skip, rest)

/-- The count behind an opening brace, or what the brace is otherwise. -/
def counted? (d : Dialect) (before : Before) (rest : Text) : Option (Token × Text) :=
  let brace : Token := d.plain '\x7b'
  let repeats := d.canRepeat before && !(d.rich && before = .repetition)
  if d.rich && !rest.head?.any Char.isDigit then some (brace, rest)
  else if !repeats && d.strict then none
  else if !repeats && !d.extended then some (brace, rest)
  else
    match d.count rest with
    | .valid least most rest => some (if repeats then .times least most false else .blank, rest)
    | .wrong => none
    | .other => if d.extended && !d.strict || d.rich then some (brace, rest) else none

/-- The set that a letter stands for; as a capital it stands for all else. -/
def letterSet? (d : Dialect) (c : Char) : Option OctetSet :=
  if c.toLower = 'w' || c.toLower = 's' || d.rich then
    (letterSets.lookup c.toLower).map fun ranges => { ranges, negated := c.isUpper }
  else none

def letterEdge? (d : Dialect) (c : Char) : Option Edge :=
  match c with
  | 'b' => some (.word false)
  | 'B' => some (.word true)
  | '<' => if d.rich then none else some .wordStart
  | '>' => if d.rich then none else some .wordEnd
  | '\x60' => if d.rich then none else some .start
  | '\'' => if d.rich then none else some .finish
  | 'A' => if d.rich then some .start else none
  | 'z' | 'Z' => if d.rich then some .finish else none
  | _ => none

def escapedPlain? (d : Dialect) (c : Char) : Option Token :=
  if !d.rich then some (d.plain c)
  else
    match letterControls.lookup c with
    | some control => some (d.plain control)
    | none => if c.isAlphanum then none else some (d.plain c)

def escaped? (d : Dialect) (before : Before) (c : Char) (rest : Text) : Option (Token × Text) :=
  match d.letterEdge? c, d.letterSet? c with
  | some e, _ => some (.edge e, rest)
  | none, some set => some (.one set, rest)
  | none, none =>
    if '1' ≤ c && c ≤ '9' then some (.again (c.toNat - 48), rest)
    else if d.extended then (d.escapedPlain? c).map fun token => (token, rest)
    else
      match c with
      | '(' => some (.openGroup, rest)
      | ')' => some (.closeGroup, rest)
      | '|' => some (.bar, rest)
      | '+' => d.repetition? before c 1 none rest
      | '?' => d.repetition? before c 0 (some 1) rest
      | '\x7b' => d.counted? before rest
      | c => some (d.plain c, rest)

def opening? (d : Dialect) (rest : Text) : Option (Token × Text) :=
  match d.rich, rest with
  | true, '?' :: ':' :: rest => some (.openPlain, rest)
  | true, '?' :: _ => none
  | _, rest => some (.openGroup, rest)

def token? (d : Dialect) (before : Before) (c : Char) (rest : Text) : Option (Token × Text) :=
  match c with
  | '\\' =>
    match rest with
    | [] => none
    | c :: rest => d.escaped? before c rest
  | '.' => some (.one { ranges := d.uncrossed, negated := true }, rest)
  | '[' => (d.set? rest).map fun (set, rest) => (.one set, rest)
  | '*' => d.repetition? before c 0 none rest
  | '^' =>
    some (if d.extended || before = .nothing then .edge (.rowStart d.innerEnding)
      else d.plain c, rest)
  | '$' =>
    let ends := rest.isEmpty || (Text.after? ['\\', ')'] rest).isSome ||
      (Text.after? ['\\', '|'] rest).isSome
    some (if d.extended || ends then .edge (.rowEnd d.innerEnding) else d.plain c, rest)
  | c =>
    if !d.extended then some (d.plain c, rest)
    else
      match c with
      | '(' => d.opening? rest
      | ')' => some (.closeGroup, rest)
      | '|' => some (.bar, rest)
      | '+' => d.repetition? before c 1 none rest
      | '?' => d.repetition? before c 0 (some 1) rest
      | '\x7b' => d.counted? before rest
      | c => some (d.plain c, rest)

end Dialect

/-- A group that is being read: its number, the alternatives before and the parts of the last one,
the latest first. -/
structure Frame where
  number : Nat := 0
  /-- The groups that were closed before it. -/
  known : List Nat := []
  /-- The groups that were closed in earlier alternatives. -/
  aside : List Nat := []
  earlier : List Expression := []
  parts : List Expression := []
  deriving DecidableEq, Repr

def sequence : List Expression → Expression
  | [] => .nothing
  | e :: es => es.foldl (fun later e => .both e later) e

def Frame.body (f : Frame) : Expression :=
  f.earlier.foldl (fun later e => .either e later) (sequence f.parts)

structure Draft where
  frame : Frame := {}
  outer : List Frame := []
  /-- How many groups were opened. -/
  opened : Nat := 0
  /-- The closed groups that may be referred to. -/
  closed : List Nat := []
  before : Before := .nothing
  deriving DecidableEq, Repr

namespace Draft

def push (w : Draft) (e : Expression) (before : Before) : Draft :=
  { w with frame := { w.frame with parts := e :: w.frame.parts }, before }

def beforeOf (before : Before) : Edge → Before
  | .rowStart _ | .rowEnd _ => .anchor
  | _ => if before matches .edge | .part | .repetition then .edge else .anchor

/-- The draft after a token. A group can be referred to once it is closed, but not from another
alternative; the rich dialect asks only that there is such a group. -/
def take? (d : Dialect) (w : Draft) : Token → Option Draft
  | .one set => some (w.push (.one set) .part)
  | .edge e => some (w.push (.edge e) (beforeOf w.before e))
  | .again number =>
    if d.rich || w.closed.contains number then some (w.push (.again number d.folded) .part)
    else none
  | .openGroup => some
      { w with
        frame := { number := w.opened + 1, known := w.closed }, outer := w.frame :: w.outer
        opened := w.opened + 1, before := .nothing }
  | .openPlain => some
      { w with frame := { known := w.closed }, outer := w.frame :: w.outer, before := .nothing }
  | .closeGroup =>
    match w.outer, w.before with
    | [], _ | _, .skipped =>
      if d.extended && !d.strict then some (w.push (.one (.single d.folded ')')) .part) else none
    | f :: outer, _ =>
      let w' :=
        { w with frame := f, outer, closed := w.frame.number :: (w.frame.aside ++ w.closed) }
      some (w'.push (.group w.frame.number w.frame.body) .part)
  | .bar => some
      { w with
        frame :=
          { w.frame with
            earlier := sequence w.frame.parts :: w.frame.earlier, parts := []
            aside := w.frame.aside ++ w.closed }
        closed := w.frame.known, before := .nothing }
  | .times least most repeatable =>
    if w.before = .repetition && !d.extended && d.strict && !repeatable then none
    else
      match w.frame.parts with
      | [] => none
      | e :: es =>
        let frame := { w.frame with parts := .times e least most :: es }
        some { w with frame, before := .repetition }
  | .skip => some { w with before := .skipped }
  | .blank => some (w.push .nothing .repetition)
  | .sealed => some { w with before := .edge }

def read? (d : Dialect) : Nat → Text → Draft → Option Draft
  | _, [], w => some w
  | 0, _ :: _, _ => none
  | fuel + 1, c :: cs, w =>
    (d.token? w.before c cs).bind fun (token, rest) => (w.take? d token).bind (read? d fuel rest)

end Draft

def Dialect.compile? (d : Dialect) (s : Text) : Option Expression :=
  (Draft.read? d s.length s {}).bind fun w =>
    if w.outer.isEmpty && w.frame.body.kept.all (· ≤ w.opened) then some w.frame.body else none

end ErbLayout.Filter
