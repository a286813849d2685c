import ErbLayout.Filter.Octet
import ErbLayout.Filter.Switch
import ErbLayout.Text.Number

/-!
Exchange of characters: those of one set for those of another, in order; or their removal, or the
reduction of repeated ones to one. A set is written with ranges, named classes and repetitions. The
classes of small and of capital letters may stand for each other.
-/

namespace ErbLayout.Filter

inductive SetPiece where
  | single (c : Char)
  | range (lo hi : Char)
  | named (k : OctetClass)
  /-- The characters that count as equal to one. -/
  | equal (c : Char)
  /-- A character several times; without a number as often as the first set asks. -/
  | repeated (c : Char) (count : Option Nat)
  deriving DecidableEq, Repr

def valueIn (base : Nat) (digits : Text) : Nat :=
  digits.foldl (fun n c => base * n + (c.toNat - 48)) 0

def isOctal (c : Char) : Bool := '0' ≤ c && c ≤ '7'

def unescape : Text → List (Char × Bool)
  | [] => []
  | '\\' :: a :: b :: c :: r =>
    if isOctal a && isOctal b && isOctal c && valueIn 8 [a, b, c] < 256 then
      (Char.ofNat (valueIn 8 [a, b, c]), true) :: unescape r
    else if isOctal a && isOctal b then (Char.ofNat (valueIn 8 [a, b]), true) :: unescape (c :: r)
    else if isOctal a then (Char.ofNat (valueIn 8 [a]), true) :: unescape (b :: c :: r)
    else (letter a, true) :: unescape (b :: c :: r)
  | '\\' :: a :: b :: r =>
    if isOctal a && isOctal b then (Char.ofNat (valueIn 8 [a, b]), true) :: unescape r
    else if isOctal a then (Char.ofNat (valueIn 8 [a]), true) :: unescape (b :: r)
    else (letter a, true) :: unescape (b :: r)
  | '\\' :: a :: r =>
    if isOctal a then (Char.ofNat (valueIn 8 [a]), true) :: unescape r
    else (letter a, true) :: unescape r
  | c :: r => (c, false) :: unescape r
where
  /-- The character that a letter behind a backslash stands for. -/
  letter (c : Char) : Char :=
    match c with
    | 'a' => '\x07'
    | 'b' => '\x08'
    | 'f' => '\x0c'
    | 'n' => '\n'
    | 'r' => '\r'
    | 't' => '\t'
    | 'v' => '\x0b'
    | c => c

def upToMarks? (mark : Char) : List (Char × Bool) → Option (Text × List (Char × Bool))
  | [] => none
  | (c, literal) :: r =>
    match r with
    | (']', false) :: rest =>
      if c = mark && !literal then some ([], rest)
      else (upToMarks? mark r).map fun (s, rest) => (c :: s, rest)
    | _ => (upToMarks? mark r).map fun (s, rest) => (c :: s, rest)

def isStarred : List (Char × Bool) → Bool
  | ('*', false) :: r =>
    match r.dropWhile fun (c, literal) => c.isDigit && !literal with
    | (']', false) :: _ => true
    | _ => false
  | _ => false

inductive Repetition where
  | valid (c : Char) (count : Option Nat) (rest : List (Char × Bool))
  | other
  | wrong
  deriving DecidableEq, Repr

/-- The repetition behind an opening bracket. A number that begins with a zero is octal. -/
def repetition : List (Char × Bool) → Repetition
  | (c, _) :: ('*', false) :: r =>
    let digits := r.takeWhile fun (d, literal) => !literal && d != ']'
    match r.dropWhile fun (d, literal) => !literal && d != ']' with
    | (']', false) :: rest =>
      let digits := digits.map Prod.fst
      if digits.isEmpty then .valid c none rest
      else
        let base := if digits.head? == some '0' then 8 else 10
        if !digits.all fun d => '0' ≤ d && d.toNat - 48 < base then .wrong
        else
          let n := valueIn base digits
          if Text.wordLimit ≤ n then .wrong else .valid c (if n = 0 then none else some n) rest
    | _ => .other
  | _ => .other

/-- The piece at the start of a set that has at least three characters, and the rest. -/
def piece? (s : List (Char × Bool)) : Option (SetPiece × List (Char × Bool)) :=
  match s with
  | ('[', false) :: (mark, false) :: r =>
    let closed := if mark = ':' || mark = '=' then upToMarks? mark r else none
    match closed with
    | some (name, rest) =>
      if name.isEmpty then none
      else if mark = ':' then
        match OctetClass.named.lookup (String.ofList name) with
        | some k => some (.named k, rest)
        | none => if isStarred r then repeated s else none
      else
        match name with
        | [c] => some (.equal c, rest)
        | _ => if isStarred r then repeated s else none
    | none => repeated s
  | ('[', false) :: _ => repeated s
  | _ => ranged s
where
  /-- A range, or the first character. -/
  ranged : List (Char × Bool) → Option (SetPiece × List (Char × Bool))
    | (lo, _) :: ('-', false) :: (hi, _) :: r => if hi < lo then none else some (.range lo hi, r)
    | (c, _) :: r => some (.single c, r)
    | [] => none
  /-- A repetition, or what else begins with a bracket. -/
  repeated (s : List (Char × Bool)) : Option (SetPiece × List (Char × Bool)) :=
    match repetition (s.drop 1) with
    | .valid c count rest => some (.repeated c count, rest)
    | .wrong => none
    | .other => ranged s

def pieces? : Nat → List (Char × Bool) → Option (List SetPiece)
  | 0, _ => some []
  | fuel + 1, s =>
    if s.length < 3 then some (s.map fun (c, _) => .single c)
    else (piece? s).bind fun (p, rest) => (pieces? fuel rest).map (p :: ·)

def setPieces? (s : Text) : Option (List SetPiece) := pieces? (s.length + 1) (unescape s)

namespace SetPiece

def members : SetPiece → Text
  | .single c | .equal c => [c]
  | .range lo hi => span lo hi
  | .named k => allOctets.filter (inRanges k.ranges)
  | .repeated c count => List.replicate (min (count.getD 0) 0x10000) c

/-- Whether a piece is a repetition without a number. -/
def isOpen (p : SetPiece) : Bool := p matches .repeated _ none

def isCase (p : SetPiece) : Bool := p == .named .lower || p == .named .upper

def last? : SetPiece → Option Char
  | .single c | .range _ c | .repeated c _ => some c
  | .named _ | .equal _ => none

end SetPiece

def membersOf (ps : List SetPiece) : Text := ps.flatMap SetPiece.members

def squeeze (set : Text) : Text → Text
  | [] => []
  | c :: r =>
    match squeeze set r with
    | [] => [c]
    | d :: ds => if c = d && set.contains c then d :: ds else c :: d :: ds

inductive Source where
  | single (c : Char)
  /-- The first character of the class, which may be exchanged as a whole. -/
  | cased (c : Char) (k : OctetClass)
  deriving DecidableEq, Repr

def sources (ps : List SetPiece) : List Source :=
  ps.flatMap fun p =>
    match p, p.members with
    | .named k, c :: cs => (if p.isCase then .cased c k else .single c) :: cs.map .single
    | _, cs => cs.map .single

def targets (ps : List SetPiece) : List (Char ⊕ OctetClass) :=
  ps.flatMap fun p =>
    match p with
    | .named k => if p.isCase then [.inr k] else p.members.map .inl
    | p => p.members.map .inl

def caseExchange (old new : OctetClass) : List (Char × Char) :=
  if old = new then []
  else (membersOf [.named old]).zip (membersOf [.named new])

/-- What is exchanged for what. A class of letters in the second set must stand beside one in the
first. -/
def exchanges? : List Source → List (Char ⊕ OctetClass) → Option (List (Char × Char))
  | _, [] => some []
  | .cased _ old :: old', .inr new :: new' =>
    (exchanges? (old'.drop 25) new').map (caseExchange old new ++ ·)
  | _, .inr _ :: _ => none
  | [], .inl _ :: _ => some []
  | .single c :: old', .inl d :: new' | .cased c _ :: old', .inl d :: new' =>
    (exchanges? old' new').map ((c, d) :: ·)

structure Exchange where
  complement : Bool := false
  delete : Bool := false
  squeeze : Bool := false
  truncate : Bool := false
  deriving DecidableEq, Repr

namespace Exchange

def switches : List Switch :=
  [⟨"complement", ['c', 'C'], ["complement"], .nothing⟩, ⟨"delete", ['d'], ["delete"], .nothing⟩,
    ⟨"squeeze", ['s'], ["squeeze-repeats"], .nothing⟩,
    ⟨"truncate", ['t'], ["truncate-set1"], .nothing⟩]

def ofReading (r : Reading) : Exchange where
  complement := r.has "complement"
  delete := r.has "delete"
  squeeze := r.has "squeeze"
  truncate := r.has "truncate"

def chosen (e : Exchange) (set : List SetPiece) : Text :=
  let members := membersOf set
  if e.complement then allOctets.filter fun c => !members.contains c else members

def filled (length : Nat) (set : List SetPiece) : List SetPiece :=
  let missing := length - (membersOf set).length
  set.map fun p =>
    match p with
    | .repeated c none => .repeated c (some missing)
    | p => p

def surplus (set : List SetPiece) : Nat := 25 * (set.filter SetPiece.isCase).length

def extended? (e : Exchange) (first second : List SetPiece) : Option (List SetPiece) :=
  let cased := if e.complement then 0 else surplus second
  let length := (e.chosen first).length - cased
  let length' := (membersOf second).length - cased
  if length ≤ length' || e.truncate then some second
  else
    (second.getLast?.bind SetPiece.last?).map fun c =>
      second ++ [.repeated c (some (length - length'))]

def pairs? (e : Exchange) (first second : List SetPiece) : Option (List (Char × Char)) :=
  if e.complement then some ((e.chosen first).zip (membersOf second))
  else exchanges? (sources first) (targets second)

def isUniform (set : List SetPiece) : Bool :=
  match membersOf set with
  | [] => true
  | c :: cs => cs.all (· == c)

def translate? (e : Exchange) (first second : List SetPiece) (s : Text) : Option Text :=
  let second := filled (e.chosen first).length second
  if second.any fun p => match p with
      | .equal _ => true
      | .named _ => !p.isCase
      | _ => false then none
  else
    (e.extended? first second).bind fun second =>
      (e.pairs? first second).bind fun pairs =>
        let classed := first.any fun p => p matches .named _
        if e.complement && classed
            && !((membersOf second).length == (e.chosen first).length && isUniform second) then none
        else
          let table := pairs.reverse
          let out := s.map fun c => (table.lookup c).getD c
          some (if e.squeeze then Filter.squeeze (membersOf second) out else out)

/-- A text after the exchange, unless the sets do not fit it. -/
def result? (e : Exchange) (sets : List (List SetPiece)) (s : Text) : Option Text :=
  match sets with
  | [first] =>
    if first.any SetPiece.isOpen then none
    else if e.delete && !e.squeeze then some (s.filter fun c => !(e.chosen first).contains c)
    else if e.squeeze && !e.delete then some (Filter.squeeze (e.chosen first) s)
    else none
  | [first, second] =>
    if first.any SetPiece.isOpen || 1 < (second.filter SetPiece.isOpen).length then none
    else if e.delete then
      if !e.squeeze || second.any SetPiece.isOpen then none
      else some (Filter.squeeze (membersOf second) (s.filter fun c => !(e.chosen first).contains c))
    else e.translate? first second s
  | _ => none

end Exchange

end ErbLayout.Filter
