import ErbLayout.Text.Basic

/-!
Blank characters are those with the White_Space property. A word is a longest stretch without
blanks; collapsing a text keeps its words and puts one space between neighbours.
-/

namespace ErbLayout.Text

/-- The characters with the White_Space property. -/
def isBlank (c : Char) : Bool :=
  let n := c.toNat
  (9 ≤ n && n ≤ 13) || n == 0x20 || n == 0x85 || n == 0xA0 || n == 0x1680
    || (0x2000 ≤ n && n ≤ 0x200A) || n == 0x2028 || n == 0x2029 || n == 0x202F || n == 0x205F
    || n == 0x3000

def startsBlank (s : Text) : Bool := s.head?.any isBlank

def endsBlank (s : Text) : Bool := s.getLast?.any isBlank

/-- Whether the text holds nothing but blanks. -/
def allBlank (s : Text) : Bool := s.all isBlank

/-- The text without the blanks it starts with. -/
def trimStart (s : Text) : Text := s.dropWhile isBlank

/-- The text without the blanks it ends with. -/
def trimEnd : Text → Text
  | [] => []
  | c :: cs =>
    match trimEnd cs with
    | [] => if isBlank c then [] else [c]
    | d :: ds => c :: d :: ds

/-- The text without the blanks at either end. -/
def trim (s : Text) : Text := trimEnd (trimStart s)

def trailingBlanks (s : Text) : Text := s.drop (trimEnd s).length

def words : Text → List Text
  | [] => []
  | c :: cs =>
    if isBlank c then words cs
    else
      match cs, words cs with
      | d :: _, w :: ws => if isBlank d then [c] :: w :: ws else (c :: w) :: ws
      | _, ws => [c] :: ws

def collapse (s : Text) : Text := join [' '] (words s)

/-- What is trimmed at the end are the trailing blanks. -/
theorem trimEnd_append_trailingBlanks (s : Text) : trimEnd s ++ trailingBlanks s = s := by
  have hpre : ∀ t : Text, trimEnd t <+: t := by
    intro t
    induction t with
    | nil => simp [trimEnd]
    | cons c t ih =>
      cases h : trimEnd t with
      | nil =>
        by_cases hc : isBlank c <;> simp [trimEnd, h, hc]
      | cons d ds =>
        rw [h] at ih
        simpa [trimEnd, h] using ih
  obtain ⟨r, hr⟩ := hpre s
  have hdrop : trailingBlanks s = r := by
    have := congrArg (List.drop (trimEnd s).length) hr
    simpa [trailingBlanks] using this.symm
  rw [hdrop, hr]

end ErbLayout.Text
