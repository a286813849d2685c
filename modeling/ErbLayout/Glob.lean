import ErbLayout.Text.Basic

/-!
Globs: patterns of paths in which a question mark stands for any character, a star for any text,
brackets for one of some characters, and two stars between slashes for any number of folders. A star
and a question mark take slashes like other characters.
-/

namespace ErbLayout

structure CharRange where
  first : Char
  last : Char
  deriving DecidableEq, Repr

def CharRange.anyHolds (ranges : List CharRange) (c : Char) : Bool :=
  ranges.any fun r => r.first ≤ c && c ≤ r.last

inductive GlobToken where
  | char (c : Char)
  | anyChar
  | anyText
  /-- Any number of folders, each with its slash. -/
  | folders
  | within (ranges : List CharRange)
  | except (ranges : List CharRange)
  deriving DecidableEq, Repr

inductive GlobFault where
  | tooManyStars
  | notWholeComponent
  | badRange
  deriving DecidableEq, Repr

structure GlobError where
  fault : GlobFault
  position : Nat
  deriving DecidableEq, Repr

def GlobError.message (e : GlobError) : Text :=
  let what := match e.fault with
    | .tooManyStars => "wildcards are either regular `*` or recursive `**`"
    | .notWholeComponent => "recursive wildcards must form a single path component"
    | .badRange => "invalid range pattern"
  "Pattern syntax error near position ".toList ++ Nat.toDigits 10 e.position ++ ':' :: ' ' ::
    what.toList

structure Glob where
  tokens : List GlobToken
  deriving DecidableEq, Repr

namespace Glob

def ranges : Text → List CharRange
  | lo :: '-' :: hi :: rest => ⟨lo, hi⟩ :: ranges rest
  | c :: rest => ⟨c, c⟩ :: ranges rest
  | [] => []

/-- The token for brackets, given what follows the opening one, and the text after them. The first
character inside never closes them. -/
def bracket? : Text → Option (GlobToken × Text)
  | '!' :: c :: rest =>
    if rest.contains ']' then
      some (.except (ranges (c :: rest.takeWhile (· != ']'))), (rest.dropWhile (· != ']')).drop 1)
    else none
  | c :: rest =>
    if c != '!' && rest.contains ']' then
      some (.within (ranges (c :: rest.takeWhile (· != ']'))), (rest.dropWhile (· != ']')).drop 1)
    else none
  | [] => none

/-- The tokens with one for folders behind them, unless two of them would stand together there. -/
def pushFolders (done : List GlobToken) : List GlobToken :=
  if 1 < done.length && done.getLast? == some .folders then done else done ++ [.folders]

/-- The tokens of a pattern. `done` are those before, `atStart` says that a component starts here,
and `position` is how many characters went before. -/
def tokensFrom : Nat → List GlobToken → Bool → Nat → Text → Except GlobError (List GlobToken)
  | 0, done, _, _, _ => .ok done
  | _, done, _, _, [] => .ok done
  | fuel + 1, done, atStart, position, c :: rest =>
    if c = '?' then tokensFrom fuel (done ++ [.anyChar]) false (position + 1) rest
    else if c = '*' then
      let stars := 1 + (rest.takeWhile (· == '*')).length
      let rest := rest.dropWhile (· == '*')
      if 2 < stars then .error ⟨.tooManyStars, position + 2⟩
      else if stars < 2 then tokensFrom fuel (done ++ [.anyText]) false (position + 1) rest
      else if !atStart then .error ⟨.notWholeComponent, position - 1⟩
      else
        match rest with
        | [] => .ok (pushFolders done)
        | '/' :: rest => tokensFrom fuel (pushFolders done) true (position + 3) rest
        | _ => .error ⟨.notWholeComponent, position + 2⟩
    else if c = '[' then
      match bracket? rest with
      | some (token, rest') =>
        tokensFrom fuel (done ++ [token]) false (position + 1 + (rest.length - rest'.length)) rest'
      | none => .error ⟨.badRange, position⟩
    else tokensFrom fuel (done ++ [.char c]) (c == '/') (position + 1) rest

def ofText (s : Text) : Except GlobError Glob := (tokensFrom s.length [] true 0 s).map Glob.mk

inductive Verdict where
  | fits
  /-- The text differs here, but a star before may take more of it. -/
  | differs
  /-- The text is at its end before the tokens are: no star helps. -/
  | exhausted
  deriving DecidableEq, Repr

def takes : GlobToken → Char → Bool
  | .char d, c => c == d
  | .within ranges, c => CharRange.anyHolds ranges c
  | .except ranges, c => !CharRange.anyHolds ranges c
  | _, _ => true

/-- The first verdict other than a difference that `rest` gives after some text, ending with a slash
if `slashes` says so. -/
def firstAfter (slashes : Bool) (rest : Text → Verdict) : Text → Option Verdict
  | [] => none
  | c :: cs =>
    if slashes && c != '/' then firstAfter slashes rest cs
    else
      match rest cs with
      | .differs => firstAfter slashes rest cs
      | verdict => some verdict

/-- How tokens compare with a text. Text that a star has taken to its end is left empty for what
follows. -/
def compare : List GlobToken → Text → Verdict
  | [], s => if s.isEmpty then .fits else .differs
  | token :: tokens, s =>
    if token = .anyText || token = .folders then
      match compare tokens s with
      | .differs => (firstAfter (token = .folders) (compare tokens) s).getD (compare tokens [])
      | verdict => verdict
    else
      match s with
      | [] => .exhausted
      | c :: cs => if takes token c then compare tokens cs else .differs

def fits (g : Glob) (s : Text) : Bool := compare g.tokens s == .fits

end Glob

end ErbLayout
