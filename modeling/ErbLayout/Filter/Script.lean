import ErbLayout.Filter.Expression

/-!
Scripts that edit rows. An instruction has a scope, which says for which rows it acts, and an act.
Scripts are written as texts in which semicolons and line ends part the instructions.

Characters that scripts write behind a backslash: controls by a letter, and any character by its
number in decimal, octal or hexadecimal.

What takes the place of a match: characters, the match and its groups, and marks that set the case
of what follows, all of it or its first character.
-/

namespace ErbLayout.Filter

def digitIn? (base : Nat) (c : Char) : Option Nat :=
  let value :=
    if c.isDigit then c.toNat - 48
    else if 'a' ≤ c.toLower && c.toLower ≤ 'f' then c.toLower.toNat - 87
    else base
  if value < base then some value else none

/-- The number that at most `most` digits spell after `n`, and the rest; `seen` says that there was
a digit. -/
def spelledNumber (base : Nat) : Nat → Bool → Nat → Text → Option (Nat × Text)
  | 0, seen, n, rest => if seen then some (n, rest) else none
  | most + 1, seen, n, c :: rest =>
    match digitIn? base c with
    | some digit => spelledNumber base most true (n * base + digit) rest
    | none => if seen then some (n, c :: rest) else none
  | _ + 1, seen, n, [] => if seen then some (n, []) else none

def escape? : Text → Option (Char × Text)
  | 'a' :: r => some ('\x07', r)
  | 'f' :: r => some ('\x0c', r)
  | 'n' :: r => some ('\n', r)
  | 'r' :: r => some ('\r', r)
  | 't' :: r => some ('\t', r)
  | 'v' :: r => some ('\x0b', r)
  | 'c' :: c :: r => some (Char.ofNat (c.toUpper.toNat ^^^ 64), r)
  | 'd' :: r => numbered 10 3 r
  | 'o' :: r => numbered 8 3 r
  | 'x' :: r => numbered 16 2 r
  | _ => none
where
  /-- The character with a number. -/
  numbered (base most : Nat) (r : Text) : Option (Char × Text) :=
    (spelledNumber base most false 0 r).map fun (n, rest) => (Char.ofNat (n % 256), rest)

/-- A pattern with its escaped characters in place. What else stands behind a backslash is left
alone. -/
def expandPattern : Nat → Text → Text
  | 0, s => s
  | _, [] => []
  | fuel + 1, '\\' :: r =>
    match escape? r, r with
    | some (c, rest), _ => c :: expandPattern fuel rest
    | none, c :: rest => '\\' :: c :: expandPattern fuel rest
    | none, [] => ['\\']
  | fuel + 1, c :: r => c :: expandPattern fuel r

def expandText : Nat → Text → Text
  | 0, s => s
  | _, [] => []
  | fuel + 1, '\\' :: r =>
    match escape? r, r with
    | some (c, rest), _ => c :: expandText fuel rest
    | none, c :: rest => c :: expandText fuel rest
    | none, [] => []
  | fuel + 1, c :: r => c :: expandText fuel r

inductive Casing where
  | kept
  | upper
  | lower
  deriving DecidableEq, Repr

/-- A letter in a case. A character outside ASCII has none and is lost. -/
def Casing.apply : Casing → Char → Char
  | .kept, c => c
  | .upper, c => if c.toNat < 128 then c.toUpper else '\xff'
  | .lower, c => if c.toNat < 128 then c.toLower else '\xff'

inductive Piece where
  | single (c : Char)
  /-- What a group holds, or for zero the whole match. -/
  | held (number : Nat)
  /-- The case of all that follows. -/
  | casing (c : Casing)
  /-- The case of the next character. -/
  | first (c : Casing)
  deriving DecidableEq, Repr

def replacementPieces : Nat → Text → List Piece
  | 0, _ | _, [] => []
  | fuel + 1, '\\' :: r =>
    match escape? r, r with
    | some (c, rest), _ => .single c :: replacementPieces fuel rest
    | none, c :: rest =>
      let piece : Piece :=
        if c.isDigit then .held (c.toNat - 48)
        else
          match c with
          | 'L' => .casing .lower
          | 'U' => .casing .upper
          | 'E' => .casing .kept
          | 'l' => .first .lower
          | 'u' => .first .upper
          | c => .single c
      piece :: replacementPieces fuel rest
    | none, [] => [.single '\\']
  | fuel + 1, '&' :: r => .held 0 :: replacementPieces fuel r
  | fuel + 1, c :: r => .single c :: replacementPieces fuel r

def greatestHeld (pieces : List Piece) : Nat :=
  pieces.foldl (fun n p => match p with | .held k => max n k | _ => n) 0

def cased (casing : Casing) (first : Option Casing) : Text → Text
  | [] => []
  | c :: cs => (first.getD casing).apply c :: cs.map casing.apply

/-- What pieces stand for. A mark for the next character passes over one group that holds nothing,
which `passed` notes. -/
def replace (held : Nat → Text) (casing : Casing) (first : Option Casing) (passed : Bool) :
    List Piece → Text
  | [] => []
  | .single c :: rest => cased casing first [c] ++ replace held casing none false rest
  | .held number :: rest =>
    let text := held number
    if text.isEmpty && !passed then replace held casing first first.isSome rest
    else cased casing first text ++ replace held casing none false rest
  | .casing c :: rest => replace held c none false rest
  | .first c :: rest => replace held casing (some c) false rest

/-- A pattern of a script; none is the pattern that was tried last. -/
abbrev Sought := Option Expression

inductive Address where
  | row (number : Nat)
  | last
  | found (pattern : Sought)
  /-- Every so many rows, from one on. -/
  | stepped (first step : Nat)
  deriving DecidableEq, Repr

inductive Limit where
  | reached (a : Address)
  /-- So many rows after the first. -/
  | further (count : Nat)
  /-- The next row whose number is a multiple. -/
  | multiple (n : Nat)
  deriving DecidableEq, Repr

structure Scope where
  first : Option Address := none
  limit : Option Limit := none
  negated : Bool := false
  deriving DecidableEq, Repr

structure Substitution where
  pattern : Sought
  replacement : List Piece
  /-- The first match that is replaced. -/
  nth : Nat := 1
  /-- All later matches are replaced too. -/
  everywhere : Bool := false
  shown : Bool := false
  /-- Where the row is written to. -/
  file : Option Text := none
  deriving DecidableEq, Repr

inductive Condition where
  | always
  /-- A substitution was made since the row was read. -/
  | replaced
  | unreplaced
  deriving DecidableEq, Repr

inductive Act where
  | openBlock
  | closeBlock
  | label (name : Text)
  | jump (name : Text) (condition : Condition)
  | append (text : Text)
  | insert (text : Text)
  | change (text : Text)
  | delete
  /-- Deletes up to the first line feed, and begins again with the rest. -/
  | deleteFirst
  | number
  | name
  | get
  | getMore
  | hold
  | holdMore
  | swap
  | spell (width : Option Nat)
  | next
  | nextMore
  | print
  | printFirst
  | quit (status : Nat) (silent : Bool)
  | substitute (s : Substitution)
  | exchange (pairs : List (Char × Char))
  | clear
  | write (file : Text) (first : Bool)
  /-- Reads a file that is not there. -/
  | read
  | nothing
  deriving DecidableEq, Repr

structure Instruction where
  scope : Scope := {}
  act : Act
  deriving DecidableEq, Repr

def bracketMembers? : Nat → Text → Option (Text × Text)
  | 0, _ | _, [] => none
  | fuel + 1, c :: r =>
    let add (s rest : Text) := (bracketMembers? fuel rest).map fun (t, rest) => (s ++ t, rest)
    match c, r with
    | ']', r => some ([']'], r)
    | '\\', 'n' :: r => add [lineFeed] r
    | '[', m :: r' =>
      if m = '.' || m = '=' || m = ':' then
        (symbol? m r').bind fun (name, rest) => add ('[' :: m :: name ++ [m, ']']) rest
      else add ['['] r
    | c, r => if c = lineFeed then none else add [c] r

def bracketed? (s : Text) : Option (Text × Text) :=
  let (head, s) := match s with
    | '^' :: ']' :: r => (['^', ']'], r)
    | '^' :: r => (['^'], r)
    | ']' :: r => ([']'], r)
    | s => ([], s)
  (bracketMembers? (s.length + 1) s).map fun (t, rest) => (head ++ t, rest)

/-- The text up to a delimiter, and the rest. A backslash takes the delimiter for itself. In a
pattern it also writes a line feed with the letter `n`, and a delimiter in brackets is no
delimiter. -/
def delimited? (delimiter : Char) (isPattern : Bool) : Nat → Text → Option (Text × Text)
  | 0, _ | _, [] => none
  | fuel + 1, c :: r =>
    let add (s rest : Text) := (delimited? delimiter isPattern fuel rest).map fun (t, rest) =>
      (s ++ t, rest)
    if c = delimiter then some ([], r)
    else
      match c, r with
      | '\\', e :: r =>
        if e = lineFeed || e = delimiter && (isPattern || e != '&') then add [e] r
        else if isPattern && e = 'n' then add [lineFeed] r
        else add [c, e] r
      | '[', r =>
        if isPattern then (bracketed? r).bind fun (set, rest) => add ('[' :: set) rest
        else add [c] r
      | c, r => if c = lineFeed then none else add [c] r

abbrev Parse (α : Type) := Text → Option (α × Text)

/-- The rest without blanks at its start. -/
def skipBlanks (s : Text) : Text := s.dropWhile fun c => c == ' ' || c == '\t'

def leadingNumber (s : Text) : Nat × Text :=
  (Text.digitsValue (s.takeWhile Char.isDigit), s.dropWhile Char.isDigit)

/-- The pattern between delimiters. An empty one is the pattern that was tried last, in no other
dialect. -/
def sought? (d : Dialect) (s : Text) : Option Sought :=
  if s.isEmpty then if d.folded || d.inner then none else some none
  else (d.compile? (expandPattern s.length s)).map some

def patternMarks (d : Dialect) : Nat → Text → Dialect × Text
  | 0, s => (d, s)
  | fuel + 1, s =>
    match skipBlanks s with
    | 'I' :: r => patternMarks { d with folded := true } fuel r
    | 'M' :: r => patternMarks { d with inner := true } fuel r
    | s => (d, s)

def address? (d : Dialect) (s : Text) : Option (Option Address × Text) :=
  let pattern (delimiter : Char) (r : Text) : Option (Option Address × Text) :=
    (delimited? delimiter true (r.length + 1) r).bind fun (text, rest) =>
      let (d, rest) := patternMarks d (rest.length + 1) rest
      (sought? d text).map fun p => (some (.found p), rest)
  match s with
  | '/' :: r => pattern '/' r
  | '\\' :: delimiter :: r => pattern delimiter r
  | ['\\'] => none
  | '$' :: r => some (some .last, r)
  | c :: r =>
    if c.isDigit then
      let (n, r) := leadingNumber (c :: r)
      match skipBlanks r with
      | '~' :: r =>
        let (step, r) := leadingNumber (skipBlanks r)
        some (some (if step = 0 then .row n else .stepped n step), r)
      | r => some (some (.row n), r)
    else some (none, c :: r)
  | [] => some (none, [])

def limit? (d : Dialect) (s : Text) : Option (Limit × Text) :=
  match s with
  | '+' :: r => let (n, r) := leadingNumber (skipBlanks r); some (.further n, r)
  | '~' :: r => let (n, r) := leadingNumber (skipBlanks r); some (.multiple n, r)
  | s => (address? d s).bind fun (a, r) => a.map fun a => (.reached a, r)

/-- Whether an address may begin a scope: row zero only before a pattern. -/
def isStart (a : Address) (l : Option Limit) : Bool :=
  a != .row 0 || l matches some (.reached (.found _))

def scope? (d : Dialect) (s : Text) : Option (Scope × Text) :=
  (address? d s).bind fun (first, r) =>
    let limited : Option (Option Limit × Text) :=
      match first, skipBlanks r with
      | some _, ',' :: r => (limit? d (skipBlanks r)).map fun (l, r) => (some l, r)
      | _, r => some (none, r)
    limited.bind fun (limit, r) =>
      if first.all (isStart · limit) then
        match skipBlanks r with
        | '!' :: r =>
          let r := skipBlanks r
          if r.head? == some '!' then none else some ({ first, limit, negated := true }, r)
        | r => some ({ first, limit }, r)
      else none

def instructionEnd? (s : Text) : Option Text :=
  match skipBlanks s with
  | [] => some []
  | '\n' :: r | ';' :: r => some r
  | '\x7d' :: r => some ('\x7d' :: r)
  | '#' :: r => some ('#' :: r)
  | _ => none

def label (s : Text) : Text × Text :=
  let isEnd (c : Char) : Bool := c == ';' || c == '\x7d' || inRanges OctetClass.space.ranges c
  let s := skipBlanks s
  (s.takeWhile (!isEnd ·), s.dropWhile (!isEnd ·))

def textLines : Text → Text × Text
  | [] => ([], [])
  | '\\' :: c :: r => let (t, rest) := textLines r; ('\\' :: c :: t, rest)
  | '\\' :: [] => ([], [])
  | c :: r => if c = lineFeed then ([], r) else let (t, rest) := textLines r; (c :: t, rest)

/-- The text that an instruction writes, and the rest. The character behind a leading backslash is
taken as it stands. -/
def writtenText? (s : Text) : Option (Text × Text) :=
  let made (head : Text) (r : Text) : Text × Text :=
    let (t, rest) := textLines r
    let text := head ++ t ++ [lineFeed]
    (expandText text.length text, rest)
  match skipBlanks s with
  | [] => none
  | ['\\'] => some ([], [])
  | '\\' :: '\n' :: r => some (if r.isEmpty then ([], []) else made [] r)
  | '\\' :: c :: r => some (made [c] r)
  | s => some (made [] s)

def fileName? (s : Text) : Option (Text × Text) :=
  let s := skipBlanks s
  let name := s.takeWhile (· != lineFeed)
  if name.isEmpty then none else some (name, (s.dropWhile (· != lineFeed)).drop 1)

/-- The name of a file that can be written, and the rest. There is no directory but that of the
devices. -/
def writable? (s : Text) : Option (Text × Text) :=
  (fileName? s).bind fun (name, rest) =>
    if ((Text.after? "/dev/".toList name).getD name).contains '/' then none else some (name, rest)

structure SubstitutionMarks where
  folded : Bool := false
  inner : Bool := false
  nth : Option Nat := none
  everywhere : Bool := false
  shown : Bool := false
  file : Option Text := none
  deriving DecidableEq, Repr

/-- The marks behind a substitution, each of which but those on the dialect may stand once. -/
def substitutionMarks? : Nat → SubstitutionMarks → Parse SubstitutionMarks
  | 0, _, _ => none
  | fuel + 1, m, s =>
    match s with
    | [] => some (m, [])
    | '\n' :: r | ';' :: r => some (m, r)
    | '\x7d' :: _ | '#' :: _ => some (m, s)
    | 'i' :: r | 'I' :: r => substitutionMarks? fuel { m with folded := true } r
    | 'm' :: r | 'M' :: r => substitutionMarks? fuel { m with inner := true } r
    | 'p' :: r => if m.shown then none else substitutionMarks? fuel { m with shown := true } r
    | 'g' :: r =>
      if m.everywhere then none else substitutionMarks? fuel { m with everywhere := true } r
    | 'w' :: r => (writable? r).map fun (file, r) => ({ m with file := some file }, r)
    | c :: r =>
      let (n, rest) := leadingNumber (c :: r)
      if !c.isDigit || m.nth.isSome || n = 0 then none
      else substitutionMarks? fuel { m with nth := some n } rest

def substitution? (d : Dialect) (s : Text) : Option (Act × Text) :=
  match s with
  | [] => none
  | delimiter :: r => do
    let (pattern, r) ← delimited? delimiter true (r.length + 1) r
    let (replacement, r) ← delimited? delimiter false (r.length + 1) r
    let (m, r) ← substitutionMarks? (r.length + 1) {} r
    let pattern ← sought? { d with folded := m.folded, inner := m.inner } pattern
    let pieces := replacementPieces replacement.length replacement
    let made : Substitution :=
      { pattern, replacement := pieces, nth := m.nth.getD 1
        everywhere := m.everywhere, shown := m.shown, file := m.file }
    if pattern.any (·.groupCount < greatestHeld pieces) then none else some (.substitute made, r)

/-- The exchange of characters behind its letter. Both texts must be equally long. -/
def exchange? (s : Text) : Option (Act × Text) :=
  match s with
  | [] => none
  | delimiter :: r => do
    let (old, r) ← delimited? delimiter false (r.length + 1) r
    let (new, r) ← delimited? delimiter false (r.length + 1) r
    let r ← instructionEnd? r
    let old := expandText old.length old
    let new := expandText new.length new
    if old.length = new.length then some (.exchange (old.zip new).reverse, r) else none

/-- The acts that are a letter only. -/
def plainActs : List (Char × Act) :=
  [('=', .number), ('d', .delete), ('D', .deleteFirst), ('F', .name), ('g', .get), ('G', .getMore),
    ('h', .hold), ('H', .holdMore), ('n', .next), ('N', .nextMore), ('p', .print),
    ('P', .printFirst), ('x', .swap), ('z', .clear)]

def act? (d : Dialect) (scope : Scope) (letter : Char) (r : Text) : Option (Act × Text) :=
  let bare : Bool := scope.first.isNone
  match letter with
  | '\x7b' => some (.openBlock, r)
  | '\x7d' => if bare then (instructionEnd? r).map fun r => (.closeBlock, r) else none
  | ':' =>
    let (name, r) := label r
    if bare && !name.isEmpty then some (.label name, r) else none
  | 'b' => let (name, r) := label r; some (.jump name .always, r)
  | 't' => let (name, r) := label r; some (.jump name .replaced, r)
  | 'T' => let (name, r) := label r; some (.jump name .unreplaced, r)
  | 'a' => (writtenText? r).map fun (t, r) => (.append t, r)
  | 'i' => (writtenText? r).map fun (t, r) => (.insert t, r)
  | 'c' => (writtenText? r).map fun (t, r) => (.change t, r)
  | 'r' | 'R' => (fileName? r).map fun (_, r) => (if letter = 'r' then .read else .nothing, r)
  | 'w' => (writable? r).map fun (f, r) => (.write f false, r)
  | 'W' => (writable? r).map fun (f, r) => (.write f true, r)
  | 's' => substitution? d r
  | 'y' => exchange? r
  | 'q' | 'Q' =>
    if scope.limit.isSome then none
    else
      let (n, r) := leadingNumber (skipBlanks r)
      (instructionEnd? r).map fun r => (.quit n (letter == 'Q'), r)
  | 'l' =>
    let s := skipBlanks r
    let (n, r) := leadingNumber s
    (instructionEnd? r).map fun r => (.spell (if s.head?.any Char.isDigit then some n else none), r)
  | c => (plainActs.lookup c).bind fun act => (instructionEnd? r).map fun r => (act, r)

def instructions? (d : Dialect) : Nat → Text → Option (List Instruction)
  | 0, _ => some []
  | fuel + 1, s =>
    match s.dropWhile fun c => c == ';' || inRanges OctetClass.space.ranges c with
    | [] => some []
    | s =>
      (scope? d s).bind fun (scope, r) =>
        match r with
        | [] => none
        | '#' :: r =>
          if scope.first.isSome || scope.negated then none
          else instructions? d fuel (r.dropWhile (· != lineFeed))
        | 'v' :: r => instructions? d fuel (label r).2
        | letter :: r =>
          (act? d scope letter r).bind fun (act, r) =>
            (instructions? d fuel r).map ({ scope, act } :: ·)

/-- The instruction that closes a block, counted from the next one, where `depth` more blocks are
open. -/
def closing? (depth : Nat) : List Instruction → Option Nat
  | [] => none
  | i :: rest =>
    match i.act, depth with
    | .openBlock, _ => (closing? (depth + 1) rest).map (· + 1)
    | .closeBlock, 0 => some 0
    | .closeBlock, depth + 1 => (closing? depth rest).map (· + 1)
    | _, _ => (closing? depth rest).map (· + 1)

def isBalanced (depth : Nat) : List Instruction → Bool
  | [] => depth == 0
  | i :: rest =>
    match i.act, depth with
    | .openBlock, _ => isBalanced (depth + 1) rest
    | .closeBlock, 0 => false
    | .closeBlock, depth + 1 => isBalanced depth rest
    | _, _ => isBalanced depth rest

def labelled? (script : List Instruction) (name : Text) : Option Nat :=
  script.findIdx? (·.act == .label name)

def isLinked (script : List Instruction) : Bool :=
  isBalanced 0 script && script.all fun i =>
    match i.act with
    | .jump name _ => name.isEmpty || (labelled? script name).isSome
    | _ => true

end ErbLayout.Filter
