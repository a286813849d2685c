/-!
Text as a list of characters. Offsets into a text are counted in UTF-8 bytes, so a text has a byte
size and can be cut at a byte offset. Lines end at a line feed; splitting never loses a character.
-/

namespace ErbLayout

abbrev Text := List Char

namespace Text

def byteSize (s : Text) : Nat := s.foldr (fun c n => c.utf8Size + n) 0

@[simp] theorem byteSize_nil : byteSize [] = 0 := rfl

@[simp] theorem byteSize_cons (c : Char) (s : Text) :
    byteSize (c :: s) = c.utf8Size + byteSize s := rfl

@[simp] theorem byteSize_append (s t : Text) : byteSize (s ++ t) = byteSize s + byteSize t := by
  induction s with
  | nil => simp
  | cons c s ih =>
    rw [List.cons_append, byteSize_cons, byteSize_cons, ih]
    omega

/-- The characters of `s` that begin before byte `n`. -/
def takeBytes : Nat → Text → Text
  | 0, _ => []
  | _, [] => []
  | n + 1, c :: cs => c :: takeBytes (n + 1 - c.utf8Size) cs

/-- Cutting a text at the byte size of a first part gives that part. -/
theorem takeBytes_append (s t : Text) : takeBytes (byteSize s) (s ++ t) = s := by
  induction s with
  | nil => simp [takeBytes]
  | cons c s ih =>
    have hpos := c.utf8Size_pos
    obtain ⟨n, hn⟩ : ∃ n, byteSize (c :: s) = n + 1 := ⟨byteSize (c :: s) - 1, by simp; omega⟩
    have hrest : n + 1 - c.utf8Size = byteSize s := by simp at hn; omega
    simp only [hn, List.cons_append, takeBytes, hrest, ih]

/-- What follows `p` in `s`, when `s` starts with `p`. -/
def after? : Text → Text → Option Text
  | [], s => some s
  | _ :: _, [] => none
  | p :: ps, c :: cs => if p = c then after? ps cs else none

/-- The text after `p` is what is left when `p` is taken away. -/
theorem after?_eq_some_iff {p s r : Text} : after? p s = some r ↔ s = p ++ r := by
  induction p generalizing s with
  | nil => simp [after?, eq_comm]
  | cons a p ih =>
    cases s with
    | nil => simp [after?]
    | cons c s =>
      by_cases h : a = c
      · simp [after?, h, ih]
      · simp [after?, h, Ne.symm h]

/-- Whether `s` starts with `p`. -/
def startsWith (p s : Text) : Bool := (after? p s).isSome

/-- What precedes a final `p` in `s`, when `s` ends with `p`. -/
def before? (p s : Text) : Option Text := (after? p.reverse s.reverse).map List.reverse

/-- The parts of `s` around the first `c`, when there is one. -/
def cutFirst? (c : Char) : Text → Option (Text × Text)
  | [] => none
  | d :: ds => if d = c then some ([], ds) else (cutFirst? c ds).map fun (a, b) => (d :: a, b)

/-- The parts of `s` around the last `c`, when there is one. -/
def cutLast? (c : Char) : Text → Option (Text × Text)
  | [] => none
  | d :: ds =>
    match cutLast? c ds with
    | some (a, b) => some (d :: a, b)
    | none => if d = c then some ([], ds) else none

/-- The pieces of `s` between the characters that satisfy `p`; there is always at least one. -/
def splitAt (p : Char → Bool) : Text → List Text
  | [] => [[]]
  | c :: cs =>
    if p c then [] :: splitAt p cs
    else
      match splitAt p cs with
      | piece :: pieces => (c :: piece) :: pieces
      | [] => [[c]]

/-- The lines of `s`, each with the line feed that ends it. -/
def fullLines : Text → List Text
  | [] => []
  | c :: cs =>
    if c = '\n' then [c] :: fullLines cs
    else
      match fullLines cs with
      | line :: lines => (c :: line) :: lines
      | [] => [[c]]

/-- The full lines put together are the text. -/
theorem flatten_fullLines (s : Text) : (fullLines s).flatten = s := by
  induction s with
  | nil => rfl
  | cons c s ih =>
    by_cases h : c = '\n'
    · simp [fullLines, h, ih]
    · cases hl : fullLines s with
      | nil =>
        have hs : s = [] := by rw [← ih, hl]; rfl
        simp [hs, fullLines, h]
      | cons line lines =>
        have : line ++ lines.flatten = s := by simpa [hl] using ih
        simp [fullLines, h, hl, this]

/-- A full line without the line feed, or the carriage return and line feed, that ends it. -/
def dropLineEnd (line : Text) : Text :=
  match before? ['\n'] line with
  | none => line
  | some content => (before? ['\r'] content).getD content

/-- The lines of `s` without their line ends. -/
def lines (s : Text) : List Text := (fullLines s).map dropLineEnd

/-- Texts with `sep` between neighbours. -/
def join (sep : Text) : List Text → Text
  | [] => []
  | [t] => t
  | t :: ts => t ++ sep ++ join sep ts

/-- What follows the last line feed of a text, or `line` when it has none. -/
def afterLastLineFeed (line : Text) : Text → Text
  | [] => line
  | c :: cs => afterLastLineFeed (if c = '\n' then cs else line) cs

/-- The last line of `s`, which is all of it when it has no line feed. -/
def lastLine (s : Text) : Text := afterLastLineFeed s s

/-- Every occurrence of the non-empty text `p` in `s` replaced by `q`, from left to right; `skip`
characters still belong to the occurrence before. -/
def replaceFrom (p q : Text) : Nat → Text → Text
  | _, [] => []
  | skip + 1, _ :: cs => replaceFrom p q skip cs
  | 0, c :: cs =>
    if startsWith p (c :: cs) then q ++ replaceFrom p q (p.length - 1) cs
    else c :: replaceFrom p q 0 cs

/-- Every occurrence of the non-empty text `p` in `s` replaced by `q`. -/
def replaceAll (p q s : Text) : Text := replaceFrom p q 0 s

end Text

end ErbLayout
