import ErbLayout.Code.CodeTag
import ErbLayout.Text.Width

/-!
Markers stand in for code tags while the markup of a template is read, so that nothing inside a code
tag is taken for markup. A marker is the word `erb`, a number and the word `tag`. Text that already
looks like a marker is replaced first, which keeps the numbers unique; what a marker stands for is
kept by its number.
-/

namespace ErbLayout

open Text Markup Code

/-- The marker with number `n`. -/
def marker (n : Nat) : Text := ['e', 'r', 'b'] ++ Nat.toDigits 10 n ++ ['t', 'a', 'g']

/-- A marker at the start of the text: its digits, and the rest. -/
def markerDigits? (s : Text) : Option (Text × Text) :=
  match after? ['e', 'r', 'b'] s with
  | none => none
  | some r =>
    if (spanOf Char.isDigit r).1.isEmpty then none
    else (after? ['t', 'a', 'g'] (spanOf Char.isDigit r).2).map fun rest =>
      ((spanOf Char.isDigit r).1, rest)

def markers : Recogniser Text where
  run := markerDigits?
  written digits := ['e', 'r', 'b'] ++ digits ++ ['t', 'a', 'g']
  sound s d r h := by
    refine ⟨?_, by simp⟩
    unfold markerDigits? at h
    split at h
    · simp at h
    next s' hs =>
      split at h
      · simp at h
      · obtain ⟨rest, hrest, heq⟩ := Option.map_eq_some_iff.1 h
        obtain ⟨rfl, rfl⟩ := by simpa using heq
        have hspan := spanOf_append Char.isDigit s'
        rw [after?_eq_some_iff.1 hrest] at hspan
        rw [after?_eq_some_iff.1 hs]
        simpa using hspan.symm

def isMarkerChar (c : Char) : Bool := ('a' ≤ c && c ≤ 'z') || ('0' ≤ c && c ≤ '9')

/-- The longest start of the text that ends with the word `tag` and has something before it. -/
def upToLastTag? : Text → Option Text
  | [] => none
  | c :: cs =>
    match upToLastTag? cs with
    | some t => some (c :: t)
    | none => if startsWith ['t', 'a', 'g'] cs then some (c :: ['t', 'a', 'g']) else none

theorem upToLastTag?_isPrefix {s t : Text} (h : upToLastTag? s = some t) : t <+: s := by
  induction s generalizing t with
  | nil => simp [upToLastTag?] at h
  | cons c s ih =>
    simp only [upToLastTag?] at h
    split at h
    next u hu =>
      obtain rfl := by simpa using h
      simpa using ih hu
    next =>
      split at h
      next hstart =>
        obtain rfl := by simpa using h
        obtain ⟨r, hr⟩ := Option.isSome_iff_exists.1 hstart
        rw [after?_eq_some_iff.1 hr]
        simp
      next => simp at h

def markerLike? (s : Text) : Option (Text × Text) :=
  match after? ['e', 'r', 'b'] s with
  | none => none
  | some r =>
    (upToLastTag? (spanOf isMarkerChar r).1).map fun t => (['e', 'r', 'b'] ++ t, r.drop t.length)

def markerLikes : Recogniser Text where
  run := markerLike?
  written := id
  sound s a r h := by
    unfold markerLike? at h
    split at h
    · simp at h
    next s' hs =>
      obtain ⟨t, ht, heq⟩ := Option.map_eq_some_iff.1 h
      obtain ⟨rfl, rfl⟩ := by simpa using heq
      have hpre : t <+: s' := (upToLastTag?_isPrefix ht).trans ⟨_, spanOf_append isMarkerChar s'⟩
      obtain ⟨u, rfl⟩ := hpre
      rw [after?_eq_some_iff.1 hs]
      simp

/-- What the markers of a body stand for: text that looked like a marker, then code tags, numbered
from zero on. -/
structure MarkerTable where
  literals : List Text
  codes : List Text
  deriving DecidableEq, Repr

namespace MarkerTable

/-- The text with the occurrences replaced by markers that are numbered from `n` on. -/
def number (n : Nat) : List (Text × Text) → Text → Text
  | [], tail => tail
  | (before, _) :: rest, tail => before ++ marker n ++ number (n + 1) rest tail

/-- The number that the digits of a marker stand for, when they are written as in a marker. -/
def numberOf? (digits : Text) : Option Nat :=
  let n := digits.foldl (fun n c => 10 * n + (c.toNat - 48)) 0
  if Nat.toDigits 10 n = digits then some n else none

def size (t : MarkerTable) : Nat := t.literals.length + t.codes.length

def literal? (t : MarkerTable) (digits : Text) : Option Text :=
  (numberOf? digits).bind fun n => t.literals[n]?

def code? (t : MarkerTable) (digits : Text) : Option Text :=
  (numberOf? digits).bind fun n =>
    if n < t.literals.length then none else t.codes[n - t.literals.length]?

/-- The text with the markers of `look` replaced by what they stand for. -/
def restoreFrom (look : Text → Option Text) (s : Text) : Text :=
  markers.replace (fun digits => (look digits).getD (markers.written digits)) s

/-- The text with every marker replaced by what it stands for; code tags come first, since they may
hold markers themselves. -/
def restore (t : MarkerTable) (s : Text) : Text := restoreFrom t.literal? (restoreFrom t.code? s)

def width (t : MarkerTable) (s : Text) : Nat := Text.width (t.restore s)

end MarkerTable

def extractCode (body : Text) : Text × MarkerTable :=
  let (found, tail) := markerLikes.split body
  let (tags, rest) := codeTags.split (MarkerTable.number 0 found tail)
  let codes := tags.map fun (before, tag) => (before, tag.written)
  (MarkerTable.number found.length codes rest, ⟨found.map Prod.snd, codes.map Prod.snd⟩)

end ErbLayout
