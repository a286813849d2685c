import ErbLayout.Filter.Expression
import ErbLayout.Filter.Switch

/-!
Selection of the rows in which a pattern occurs, or of the others. The rows are shown, perhaps with
numbers and with rows around them, or only their matches are, or they are counted.
-/

namespace ErbLayout.Filter

inductive Report where
  | rows
  /-- Only what the patterns match. -/
  | found
  | count
  /-- The name of what is read, if some row is selected. -/
  | name
  /-- The name of what is read, if no row is selected. -/
  | missingName
  | nothing
  deriving DecidableEq, Repr

structure Selection where
  patterns : List Expression
  /-- The rows without a match are selected. -/
  others : Bool := false
  /-- A match is a whole row. -/
  whole : Bool := false
  /-- A match has no word character beside it. -/
  word : Bool := false
  report : Report := .rows
  limit : Option Nat := none
  numbered : Bool := false
  /-- Rows are shown with the number of characters before them. -/
  offsets : Bool := false
  named : Bool := false
  label : Text := "(standard input)".toList
  /-- What is shown before a row is aligned. -/
  aligned : Bool := false
  before : Option Nat := none
  after : Option Nat := none
  /-- What parts rows that do not follow each other. -/
  separator : Option Text := some ['-', '-']
  ending : Char := lineFeed
  /-- What ends a name. -/
  nameEnding : Option Char := none
  /-- Rows are shown whatever they hold. -/
  asText : Bool := false
  deriving DecidableEq, Repr

structure NumberedRow where
  number : Nat
  offset : Nat
  content : Text
  deriving DecidableEq, Repr

def numberedRows (number offset : Nat) : List Row → List NumberedRow
  | [] => []
  | row :: rest =>
    ⟨number, offset, row.content⟩ :: numberedRows (number + 1)
      (offset + row.content.length + 1) rest

namespace Selection

def matchAt? (s : Selection) (p : Place) : Option Place :=
  let ends (e : Expression) : List Place := e.ways e.kept p
  if s.whole then
    if p.behind.isEmpty then (s.patterns.flatMap ends).find? (·.ahead.isEmpty) else none
  else if s.word then
    if p.wordBehind then none
    else
      (sortWays [] ((s.patterns.flatMap ends).filter (!·.wordAhead))).head?
  else (sortWays [] (s.patterns.flatMap ends)).head?

def find? (s : Selection) (p : Place) : Option (Place × Place) :=
  Expression.searchFrom s.matchAt? p.remaining p

def selects (s : Selection) (row : Text) : Bool := (s.find? { ahead := row }).isSome != s.others

def found (s : Selection) (length : Nat) : Nat → Place → List (Nat × Text)
  | 0, _ => []
  | fuel + 1, p =>
    match s.find? p with
    | none => []
    | some (start, stop) =>
      if stop.remaining < start.remaining then
        (length - start.remaining, start.textTo stop) :: s.found length fuel
          { stop with groups := [] }
      else
        match start.next? with
        | some (_, q) => s.found length fuel q
        | none => []

def aligns (s : Selection) (n : Nat) : Text :=
  let digits := Nat.toDigits 10 n
  if s.aligned then List.replicate (19 - digits.length) ' ' ++ digits else digits

def nameHead (s : Selection) (mark : Char) : Text :=
  if s.named then s.label ++ [s.nameEnding.getD mark] else []

def head (s : Selection) (mark : Char) (number offset : Nat) (filled : Bool) : Text :=
  s.nameHead mark
    ++ (if s.numbered then s.aligns number ++ [mark] else [])
    ++ (if s.offsets then s.aligns offset ++ [mark] else [])
    ++ if s.aligned && (s.named || s.numbered || s.offsets) && filled then ['\t'] else []

def shown (s : Selection) (selected : Bool) (row : NumberedRow) : Text :=
  let mark := if selected then ':' else '-'
  match s.report with
  | .found =>
    if selected = s.others then []
    else
      (s.found row.content.length (row.content.length + 1) { ahead := row.content }).flatMap
          fun (k, text) =>
        s.head mark row.number (row.offset + k) true ++ text ++ [s.ending]
  | _ => s.head mark row.number row.offset (!row.content.isEmpty) ++ row.content ++ [s.ending]

def chosen (s : Selection) (rows : List NumberedRow) : List Nat :=
  let all := (rows.filter fun row => s.selects row.content).map (·.number)
  match s.limit with
  | some n => all.take n
  | none => all

def isNear (s : Selection) (chosen : List Nat) (n : Nat) : Bool :=
  chosen.any fun k => k ≤ n && n ≤ k + s.after.getD 0 || n ≤ k && k ≤ n + s.before.getD 0

/-- The rows to show, `last` having been shown last. -/
def listing (s : Selection) (chosen : List Nat) (last : Option Nat) : List NumberedRow → Text
  | [] => []
  | row :: rest =>
    if s.isNear chosen row.number then
      let gap := (s.before.isSome || s.after.isSome) && last.any (· + 1 != row.number)
      (if gap then (s.separator.map (· ++ [lineFeed])).getD [] else [])
        ++ s.shown (chosen.contains row.number) row ++ s.listing chosen (some row.number) rest
    else s.listing chosen last rest

def result? (s : Selection) (text : Text) : Option Text :=
  let rows := numberedRows 1 0 (rowsOf s.ending text)
  let chosen := s.chosen rows
  if chosen.isEmpty then none
  else some <|
    match s.report with
    | .rows | .found =>
      if text.contains '\x00' && !s.asText && s.ending != '\x00' then
        "grep: ".toList ++ s.label ++ ": binary file matches\n".toList
      else s.listing chosen none rows
    | .count => s.nameHead ':' ++ Nat.toDigits 10 chosen.length ++ [lineFeed]
    | .name => s.label ++ [s.nameEnding.getD lineFeed]
    | .missingName | .nothing => []

def switches : List Switch :=
  [⟨"extended", ['E'], ["extended-regexp"], .nothing⟩,
    ⟨"fixed", ['F'], ["fixed-strings", "fixed-regexp"], .nothing⟩,
    ⟨"basic", ['G'], ["basic-regexp"], .nothing⟩, ⟨"rich", ['P'], ["perl-regexp"], .nothing⟩,
    ⟨"pattern", ['e'], ["regexp"], .value⟩, ⟨"file", ['f'], ["file"], .value⟩,
    ⟨"fold", ['i', 'y'], ["ignore-case"], .nothing⟩,
    ⟨"exact", [], ["no-ignore-case"], .nothing⟩, ⟨"others", ['v'], ["invert-match"], .nothing⟩,
    ⟨"word", ['w'], ["word-regexp"], .nothing⟩, ⟨"whole", ['x'], ["line-regexp"], .nothing⟩,
    ⟨"count", ['c'], ["count"], .nothing⟩, ⟨"colour", [], ["color", "colour"], .attached⟩,
    ⟨"missingName", ['L'], ["files-without-match"], .nothing⟩,
    ⟨"name", ['l'], ["files-with-matches"], .nothing⟩, ⟨"limit", ['m'], ["max-count"], .value⟩,
    ⟨"found", ['o'], ["only-matching"], .nothing⟩, ⟨"quiet", ['q'], ["quiet", "silent"], .nothing⟩,
    ⟨"messages", ['s'], ["no-messages"], .nothing⟩, ⟨"offsets", ['b'], ["byte-offset"], .nothing⟩,
    ⟨"named", ['H'], ["with-filename"], .nothing⟩, ⟨"unnamed", ['h'], ["no-filename"], .nothing⟩,
    ⟨"label", [], ["label"], .value⟩, ⟨"numbered", ['n'], ["line-number"], .nothing⟩,
    ⟨"aligned", ['T'], ["initial-tab"], .nothing⟩, ⟨"zeroName", ['Z'], ["null"], .nothing⟩,
    ⟨"after", ['A'], ["after-context"], .value⟩, ⟨"before", ['B'], ["before-context"], .value⟩,
    ⟨"around", ['C'], ["context"], .value⟩, ⟨"around", "0123456789".toList, [], .digits⟩,
    ⟨"text", ['a'], ["text"], .nothing⟩, ⟨"binary", [], ["binary-files"], .value⟩,
    ⟨"skipped", ['I'], [], .nothing⟩, ⟨"separator", [], ["group-separator"], .value⟩,
    ⟨"unseparated", [], ["no-group-separator"], .nothing⟩, ⟨"zero", ['z'], ["null-data"], .nothing⟩,
    ⟨"ignored", ['U', 'u'], ["binary", "line-buffered", "unix-byte-offsets"], .nothing⟩,
    ⟨"ignored", ['D', 'd'], ["devices", "directories", "include", "exclude", "exclude-from",
      "exclude-dir"], .value⟩]

def pattern? (kind : String) (folded : Bool) (s : Text) : Option Expression :=
  match kind with
  | "fixed" => some (.literal folded s)
  | "rich" => ({ extended := true, rich := true, folded } : Dialect).compile? s
  | kind => ({ extended := kind = "extended", folded, strict := false } : Dialect).compile? s

/-- The only kind of patterns that is asked for; of rich ones there may be one only. -/
def kind? (r : Reading) (patterns : Nat) : Option String :=
  match (r.given.map (·.name)).filter (["extended", "fixed", "basic", "rich"].contains ·) with
  | [] => some "basic"
  | k :: ks => if ks.all (· == k) && (k != "rich" || patterns = 1) then some k else none

/-- How many rows are at most selected; a negative number is no limit. -/
def limit? (s : Text) : Option (Option Nat) :=
  match s with
  | '-' :: digits => (Text.nat? (Nat.pow 10 30) digits).map fun n => if n = 0 then some 0 else none
  | s => (Text.nat? (Nat.pow 10 30) s).map some

def number? (r : Reading) (name : String) : Option (Option Nat) :=
  ((r.values name).mapM (Text.nat? (Nat.pow 10 30))).map List.getLast?

def reportOf (r : Reading) : Report :=
  if r.has "quiet" then .nothing
  else
    match ((r.given.map (·.name)).filter (["name", "missingName"].contains ·)).getLast? with
    | some "name" => .name
    | some _ => .missingName
    | none => if r.has "count" then .count else if r.has "found" then .found else .rows

def ofReading? (r : Reading) (texts : List Text) (many : Bool) : Option Selection := do
  let kind ← kind? r texts.length
  let folded := ((r.given.map (·.name)).filter (["fold", "exact"].contains ·)).getLast? ==
    some "fold"
  let patterns ← texts.mapM (pattern? kind folded)
  let limits ← (r.values "limit").mapM limit?
  let around ← number? r "around"
  let after ← number? r "after"
  let before ← number? r "before"
  let naming := ((r.given.map (·.name)).filter (["named", "unnamed"].contains ·)).getLast?
  return {
    patterns
    others := r.has "others"
    whole := r.has "whole"
    word := r.has "word"
    report := reportOf r
    limit := limits.getLast?.join
    numbered := r.has "numbered"
    offsets := r.has "offsets"
    named := naming == some "named" || naming.isNone && many
    label := (r.value? "label").getD "(standard input)".toList
    aligned := r.has "aligned"
    before := before.or around
    after := after.or around
    separator := if r.has "unseparated" then none else some ((r.value? "separator").getD ['-', '-'])
    ending := if r.has "zero" then '\x00' else lineFeed
    nameEnding := if r.has "zeroName" then some '\x00' else none
    asText := r.has "text" || r.value? "binary" == some "text".toList }

end Selection

end ErbLayout.Filter
