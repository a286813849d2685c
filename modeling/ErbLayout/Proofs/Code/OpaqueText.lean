import ErbLayout.Proofs.Code.Balance

/-!
What stands in literals and comments does not count. A text acts on a reader of code in two ways
only: some of its characters count, and it leaves the reader at a position. Texts that agree in both
stand for each other in any code. A literal counts as its two quotes and a comment as its line end,
whatever they hold, and plain code follows either.
-/

namespace ErbLayout.Code

open Text

section Exchange

/-- Read from a position on, a text counts as `kept` and leads to plain code. -/
structure ReadsAs (p : Position) (s kept : Text) : Prop where
  strip : stripFrom p s = kept
  next : endPosition p s = .plain

/-- Between plain code a text is judged by what it counts as. -/
theorem ReadsAs.leavesOpen_eq {a s kept : Text} (hs : ReadsAs .plain s kept)
    (ha : endPosition .plain a = .plain) (b : Text) :
    leavesOpen (a ++ (s ++ b)) =
      (Balance.of (stripLiterals a ++ (kept ++ stripLiterals b))).isOpen := by
  rw [leavesOpen, stripLiterals, stripFrom_append, ha, stripFrom_append, hs.strip, hs.next]
  rfl

end Exchange

section Contents

/-- A literal goes on through all but its quote and a backslash. -/
theorem endPosition_literal {q : Char} {s : Text} (hq : q ∉ s) (hs : '\\' ∉ s) :
    endPosition (.literal q) s = .literal q := by
  induction s with
  | nil => rfl
  | cons c s ih =>
    obtain ⟨hqc, hq⟩ := not_or.mp (mt List.mem_cons.mpr hq)
    obtain ⟨hsc, hs⟩ := not_or.mp (mt List.mem_cons.mpr hs)
    have hstay : (Position.literal q).next c = .literal q := by
      rw [Position.next, if_neg (Ne.symm hsc), if_neg (Ne.symm hqc)]
    rw [endPosition_cons, hstay, ih hq hs]

/-- A literal counts as its quotes. -/
theorem readsAs_literal {q : Char} (hquote : isLiteralQuote q) {s : Text} (hq : q ∉ s)
    (hs : '\\' ∉ s) :
    ReadsAs .plain (q :: (s ++ [q])) [q, q] := by
  have hslash : q ≠ '\\' := by
    rintro rfl
    exact absurd hquote (by decide)
  have hsharp : q ≠ '#' := by
    rintro rfl
    exact absurd hquote (by decide)
  have hopen : Position.plain.next q = .literal q := by rw [Position.next, if_pos hquote]
  have hclose : (Position.literal q).next q = .plain := by
    rw [Position.next, if_neg hslash, if_pos rfl]
  constructor
  · -- both quotes count, and nothing between them does
    have hfirst : Position.plain.keeps q = true := by simpa [Position.keeps] using hsharp
    have hlast : stripFrom (.literal q) [q] = [q] := by simp [stripFrom, Position.keeps, hslash]
    rw [stripFrom, hfirst, if_pos rfl, hopen, stripFrom_append, stripFrom_of_quote rfl hq,
      endPosition_literal hq hs, hlast]
    rfl
  · rw [endPosition_cons, hopen, endPosition_append, endPosition_literal hq hs]
    exact hclose

/-- A comment counts as the line feed that ends it. -/
theorem readsAs_comment {s : Text} (h : '\n' ∉ s) :
    ReadsAs .plain ('#' :: (s ++ ['\n'])) ['\n'] := by
  obtain ⟨hstrip, hend⟩ := comment_of_notMem h
  have hopen : Position.plain.next '#' = .comment := rfl
  constructor
  · have hdrop : Position.plain.keeps '#' = false := rfl
    rw [stripFrom, hdrop, if_neg (by simp), hopen, stripFrom_append, hstrip, hend]
    rfl
  · rw [endPosition_cons, hopen, endPosition_append, hend]
    rfl

end Contents

/-- Whether code leaves something open does not depend on what its literals and comments hold: after
plain code, a literal may be exchanged for another with the same quotes, and a comment for
another. -/
theorem leavesOpen_eq_of_contents (a b : Text) (ha : endPosition .plain a = .plain) :
    (∀ q ∈ ['"', '\'', '`'], ∀ s₁ s₂ : Text, q ∉ s₁ → '\\' ∉ s₁ → q ∉ s₂ → '\\' ∉ s₂ →
      leavesOpen (a ++ q :: (s₁ ++ q :: b)) = leavesOpen (a ++ q :: (s₂ ++ q :: b))) ∧
    ∀ c₁ c₂ : Text, '\n' ∉ c₁ → '\n' ∉ c₂ →
      leavesOpen (a ++ '#' :: (c₁ ++ '\n' :: b)) = leavesOpen (a ++ '#' :: (c₂ ++ '\n' :: b)) := by
  constructor
  · intro q hmem s₁ s₂ hq₁ hs₁ hq₂ hs₂
    have hquote : isLiteralQuote q := by simpa [isLiteralQuote, or_assoc] using hmem
    have h₁ := (readsAs_literal hquote hq₁ hs₁).leavesOpen_eq ha b
    have h₂ := (readsAs_literal hquote hq₂ hs₂).leavesOpen_eq ha b
    simpa using h₁.trans h₂.symm
  · intro c₁ c₂ hc₁ hc₂
    have h₁ := (readsAs_comment hc₁).leavesOpen_eq ha b
    have h₂ := (readsAs_comment hc₂).leavesOpen_eq ha b
    simpa using h₁.trans h₂.symm

/-- The literal holds a keyword or the signs of the other literals, and the comment a keyword or a
quote. The code before them has a literal with a number sign in it and a comment with a quote. -/
theorem leavesOpen_eq_of_contents_each :
    endPosition .plain "a '#' # \"\nif t(".toList = .plain ∧
      leavesOpen "a '#' # \"\nif t('\"# end`\x7b')".toList =
        leavesOpen "a '#' # \"\nif t('; end')".toList ∧
      leavesOpen "a '#' # \"\nif t(# it's\n)".toList =
        leavesOpen "a '#' # \"\nif t(# end )\n)".toList ∧
      leavesOpen "a '#' # \"\nif t('; end')".toList ∧ leavesOpen "a '#' # \"\nif t(; end)".toList =
        false := by
  have hplain : endPosition .plain "a '#' # \"\nif t(".toList = .plain := by decide
  refine ⟨hplain, ?_, ?_, by decide, by decide⟩
  · exact (leavesOpen_eq_of_contents _ [')'] hplain).1 '\'' (by simp) "\"# end`\x7b".toList
      "; end".toList (by decide) (by decide) (by decide) (by decide)
  · exact (leavesOpen_eq_of_contents _ [')'] hplain).2 " it's".toList " end )".toList (by decide)
      (by decide)

end ErbLayout.Code
