import ErbLayout.Code.Keyword
import ErbLayout.Text.Blank

/-!
Whether a code fragment leaves a block open, judged by counting. Keywords that begin a statement and
`do` open a block, `end` closes one; braces, parentheses and brackets are counted each on their own.
What stands in string literals and comments does not count.
-/

namespace ErbLayout.Code

open Text

/-- Where a reader of code stands: in plain code, in a comment, in a literal with the given quote,
or right after a backslash in such a literal. -/
inductive Position where
  | plain
  | comment
  | literal (quote : Char)
  | escaped (quote : Char)
  deriving DecidableEq, Repr

def isLiteralQuote (c : Char) : Bool := c == '"' || c == '\'' || c == '`'

def Position.next (c : Char) : Position → Position
  | .plain => if isLiteralQuote c then .literal c else if c = '#' then .comment else .plain
  | .comment => if c = '\n' then .plain else .comment
  | .literal q => if c = '\\' then .escaped q else if c = q then .plain else .literal q
  | .escaped q => .literal q

/-- Whether a character counts: plain code does, and so do the quotes of a literal and the line end
of a comment. -/
def Position.keeps (c : Char) : Position → Bool
  | .plain => c != '#'
  | .comment => c == '\n'
  | .literal q => c != '\\' && c == q
  | .escaped _ => false

def stripFrom : Position → Text → Text
  | _, [] => []
  | p, c :: cs => if p.keeps c then c :: stripFrom (p.next c) cs else stripFrom (p.next c) cs

/-- The code without the contents of literals and comments. -/
def stripLiterals (code : Text) : Text := stripFrom .plain code

def endPosition (p : Position) (code : Text) : Position := code.foldl (fun p c => p.next c) p

/-- How often `word` stands in the text as a word that follows no character in `barred`; `before` is
the character before the text. -/
def countWord (word : Text) (barred : Char → Bool) : Option Char → Text → Nat
  | _, [] => 0
  | before, c :: cs =>
    (if !before.any barred && (afterKeyword? word (c :: cs)).isSome then 1 else 0)
      + countWord word barred (some c) cs

def blockKeywords : List Text :=
  ["if", "unless", "while", "until", "case", "begin", "def", "class", "module", "for"].map
    String.toList

/-- Loops, whose `do` belongs to the loop. -/
def loopKeywords : List Text := ["while", "until", "for"].map String.toList

/-- The blocks that a statement opens, less those that it closes. -/
def statementBalance (statement : Text) : Int :=
  let opened : Int := if (leadingKeyword? blockKeywords statement).isSome then 1 else 0
  let dos : Int :=
    if (leadingKeyword? loopKeywords statement).isSome then 0
    else countWord ['d', 'o'] (fun c => c == '.' || isWordlike c) none statement
  let ends : Int := countWord ['e', 'n', 'd']
    (fun c => c == '.' || c == ':' || isWordlike c) none statement
  opened + dos - ends

/-- What a text opens less what it closes. Each of these numbers is at most as large as the text is
long, so 32 bits with a sign hold them for texts of fewer than `2 ^ 31` characters. A document in a
file or on the standard input has fewer, since it has at most `100 * 2 ^ 20` bytes. -/
structure Balance where
  blocks : Int
  braces : Int
  parens : Int
  brackets : Int
  deriving DecidableEq, Repr

/-- How often `a` occurs less how often `b` does. -/
def excess (a b : Char) (s : Text) : Int := (s.count a : Int) - s.count b

/-- The balance of a text without literals. -/
def Balance.of (s : Text) : Balance where
  blocks := (splitAt (fun c => c == ';' || c == '\n') s).foldr
    (fun st n => statementBalance (trim st) + n) 0
  braces := excess '{' '}' s
  parens := excess '(' ')' s
  brackets := excess '[' ']' s

def Balance.isOpen (b : Balance) : Bool :=
  0 < b.blocks || 0 < b.braces || 0 < b.parens || 0 < b.brackets

/-- Whether a code fragment leaves something open, judged by its balance. -/
def leavesOpen (code : Text) : Bool := (Balance.of (stripLiterals code)).isOpen

end ErbLayout.Code
