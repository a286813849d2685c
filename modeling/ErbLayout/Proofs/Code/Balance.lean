import ErbLayout.Code.Kind
import ErbLayout.Proofs.Text.Pieces
import ErbLayout.Proofs.Text.Squeeze
import Mathlib.Algebra.Ring.Int.Defs

/-!
Which line closes a code fragment. Code is read from position to position, so of two texts one after
the other there counts what counts of the first, and then what counts of the second from the
position where the first ends. A line feed outside of literals parts two statements, and the balance
of the whole is that of the parts added up. So a terminator on a line of its own lowers one count by
one, unless the code ends inside a literal, which then takes the terminator in.
-/

namespace ErbLayout.Code

open Text

section Reading

theorem stripFrom_append (p : Position) (s t : Text) :
    stripFrom p (s ++ t) = stripFrom p s ++ stripFrom (endPosition p s) t := by
  induction s generalizing p with
  | nil => rfl
  | cons c s ih =>
    rw [List.cons_append, stripFrom, stripFrom, ih]
    split
    · rfl
    · rfl

theorem endPosition_append (p : Position) (s t : Text) :
    endPosition p (s ++ t) = endPosition (endPosition p s) t := List.foldl_append

theorem endPosition_cons (p : Position) (c : Char) (s : Text) :
    endPosition p (c :: s) = endPosition (p.next c) s :=
  rfl

/-- A comment goes on through all but a line feed, and nothing in it counts. -/
theorem comment_of_notMem {s : Text} (h : '\n' ∉ s) :
    stripFrom .comment s = [] ∧ endPosition .comment s = .comment := by
  induction s with
  | nil => exact ⟨rfl, rfl⟩
  | cons c s ih =>
    obtain ⟨hc, hs⟩ := not_or.mp (mt List.mem_cons.mpr h)
    have hstay : Position.comment.next c = .comment := by rw [Position.next, if_neg (Ne.symm hc)]
    have hdrop : Position.comment.keeps c = false := by simp [Position.keeps, Ne.symm hc]
    rw [stripFrom, endPosition_cons, hstay, hdrop, if_neg (by simp)]
    exact ih hs

def Position.quote? : Position → Option Char
  | .literal q | .escaped q => some q
  | _ => none

theorem isLiteralQuote_of_next {p : Position} (hp : ∀ q ∈ p.quote?, isLiteralQuote q) (c : Char) :
    ∀ q ∈ (p.next c).quote?, isLiteralQuote q := by
  intro q hq
  cases p with
  | plain =>
    rw [Position.next] at hq
    split at hq
    next hc =>
      obtain rfl : c = q := by simpa [Position.quote?] using hq
      exact hc
    next => split at hq <;> simp [Position.quote?] at hq
  | comment =>
    rw [Position.next] at hq
    split at hq <;> simp [Position.quote?] at hq
  | literal q' =>
    apply hp
    rw [Position.next] at hq
    split at hq
    · exact hq
    · split at hq
      · simp [Position.quote?] at hq
      · exact hq
  | escaped q' => exact hp q hq

/-- A literal begins with one of the quotes. -/
theorem isLiteralQuote_of_endPosition {code : Text} {q : Char}
    (h : (endPosition .plain code).quote? = some q) :
    isLiteralQuote q := by
  have hrun : ∀ (s : Text) (p : Position), (∀ q ∈ p.quote?, isLiteralQuote q) →
      ∀ q ∈ (endPosition p s).quote?, isLiteralQuote q := by
    intro s
    induction s with
    | nil => exact fun p hp => hp
    | cons c s ih => exact fun p hp => ih _ (isLiteralQuote_of_next hp c)
  exact hrun code .plain (by simp [Position.quote?]) q h

/-- Nothing counts of a text in which the literal around it does not end. -/
theorem stripFrom_of_quote {p : Position} {q : Char} (hp : p.quote? = some q) {t : Text}
    (ht : q ∉ t) :
    stripFrom p t = [] := by
  induction t generalizing p with
  | nil => rfl
  | cons c t ih =>
    obtain ⟨hc, ht⟩ := not_or.mp (mt List.mem_cons.mpr ht)
    cases p with
    | plain => simp [Position.quote?] at hp
    | comment => simp [Position.quote?] at hp
    | escaped q' => exact ih (p := .literal q') hp ht
    | literal q' =>
      obtain rfl : q' = q := by simpa [Position.quote?] using hp
      have hdrop : (Position.literal q').keeps c = false := by simp [Position.keeps, Ne.symm hc]
      rw [stripFrom, hdrop, if_neg (by simp)]
      apply ih _ ht
      rw [Position.next]
      split
      · rfl
      · rw [if_neg (Ne.symm hc)]
        rfl

/-- Outside of literals a line feed counts, and plain code follows it. -/
theorem stripFrom_lineFeed {p : Position} (hp : p.quote? = none) (t : Text) :
    stripFrom p ('\n' :: t) = '\n' :: stripFrom .plain t := by
  cases p with
  | plain => rfl
  | comment => rfl
  | literal q => simp [Position.quote?] at hp
  | escaped q => simp [Position.quote?] at hp

end Reading

attribute [ext] Balance

namespace Balance

instance : Add Balance where
  add a b := ⟨a.blocks + b.blocks, a.braces + b.braces, a.parens + b.parens,
    a.brackets + b.brackets⟩

theorem add_def (a b : Balance) :
    a + b = ⟨a.blocks + b.blocks, a.braces + b.braces, a.parens + b.parens,
      a.brackets + b.brackets⟩ := rfl

theorem blocks_of (s : Text) :
    (Balance.of s).blocks =
      ((splitAt (fun c => c == ';' || c == '\n') s).map fun st =>
        statementBalance (trim st)).sum := by
  rw [List.sum_eq_foldr, List.foldr_map]
  rfl

theorem excess_append (a b : Char) (s t : Text) :
    excess a b (s ++ t) = excess a b s + excess a b t := by
  simp only [excess, List.count_append]
  omega

/-- What stands on two lines has the balances of both. -/
theorem of_append_lineFeed (s t : Text) :
    Balance.of (s ++ '\n' :: t) = Balance.of s + Balance.of t := by
  have hblocks : (Balance.of (s ++ '\n' :: t)).blocks = (Balance.of s).blocks +
      (Balance.of t).blocks := by
    rw [blocks_of, splitAt_append_separator rfl, List.map_append, List.sum_append, blocks_of,
      blocks_of]
  have hexcess : ∀ a b : Char, excess a b ['\n'] = 0 →
      excess a b (s ++ '\n' :: t) = excess a b s + excess a b t := by
    intro a b hfeed
    rw [← List.singleton_append, excess_append, excess_append, hfeed, Int.zero_add]
  exact Balance.ext hblocks (hexcess '{' '}' rfl) (hexcess '(' ')' rfl) (hexcess '[' ']' rfl)

/-- Nothing is left open but so many blocks and braces at most. -/
def AtMost (b : Balance) (blocks braces : Int) : Prop :=
  b.blocks ≤ blocks ∧ b.braces ≤ braces ∧ b.parens ≤ 0 ∧ b.brackets ≤ 0

instance (b : Balance) (blocks braces : Int) : Decidable (b.AtMost blocks braces) :=
  inferInstanceAs (Decidable (_ ∧ _ ∧ _ ∧ _))

theorem isOpen_eq_false_iff (b : Balance) : b.isOpen = false ↔ b.AtMost 0 0 := by
  simp [isOpen, AtMost, and_assoc]

/-- The first terminator closes a block, and the second a brace. -/
theorem of_end : Balance.of ['e', 'n', 'd'] = ⟨-1, 0, 0, 0⟩ := by decide

theorem of_brace : Balance.of ['}'] = ⟨0, -1, 0, 0⟩ := by decide

end Balance

section Terminators

variable {code terminator : Text}

/-- A literal that does not end takes in the line that follows it. -/
theorem leavesOpen_withTerminator_of_literal {q : Char}
    (hq : (endPosition .plain code).quote? = some q)
    (hterminator : ∀ c ∈ terminator, isLiteralQuote c = false) :
    leavesOpen (withTerminator code terminator) = leavesOpen code := by
  have hquote := isLiteralQuote_of_endPosition hq
  have hline : q ∉ '\n' :: terminator := by
    intro hmem
    rcases List.mem_cons.mp hmem with rfl | hmem
    · exact absurd hquote (by decide)
    · rw [hterminator q hmem] at hquote
      simp at hquote
  rw [leavesOpen, leavesOpen, stripLiterals, withTerminator, stripFrom_append,
    stripFrom_of_quote hq hline, List.append_nil, stripLiterals]

/-- Outside of literals the balance of a terminator is added to that of the code. -/
theorem leavesOpen_withTerminator (hend : (endPosition .plain code).quote? = none) :
    leavesOpen (withTerminator code terminator) =
      (Balance.of (stripLiterals code) + Balance.of (stripLiterals terminator)).isOpen := by
  rw [leavesOpen, stripLiterals, withTerminator, stripFrom_append, stripFrom_lineFeed hend,
    Balance.of_append_lineFeed]
  rfl

theorem leavesOpen_withTerminator_end (hend : (endPosition .plain code).quote? = none) :
    leavesOpen (withTerminator code ['e', 'n', 'd']) = false ↔
      (Balance.of (stripLiterals code)).AtMost 1 0 := by
  have hterminator : stripLiterals ['e', 'n', 'd'] = ['e', 'n', 'd'] := rfl
  rw [leavesOpen_withTerminator hend, hterminator, Balance.of_end, Balance.isOpen_eq_false_iff]
  simp only [Balance.AtMost, Balance.add_def]
  omega

theorem leavesOpen_withTerminator_brace (hend : (endPosition .plain code).quote? = none) :
    leavesOpen (withTerminator code ['}']) = false ↔
      (Balance.of (stripLiterals code)).AtMost 0 1 := by
  have hterminator : stripLiterals ['}'] = ['}'] := rfl
  rw [leavesOpen_withTerminator hend, hterminator, Balance.of_brace, Balance.isOpen_eq_false_iff]
  simp only [Balance.AtMost, Balance.add_def]
  omega

theorem close?_eq (probe : Text → Bool) (code : Text) :
    close? probe code =
      if probe (withTerminator code ['e', 'n', 'd']) = false then
        some (['e', 'n', 'd'], withTerminator code ['e', 'n', 'd'])
      else if probe (withTerminator code ['}']) = false then some (['}'], withTerminator code ['}'])
      else none := by
  unfold close? terminators
  cases hend : probe (withTerminator code ['e', 'n', 'd']) with
  | false => simp [hend]
  | true =>
    cases hbrace : probe (withTerminator code ['}']) with
    | false => simp [hend, hbrace]
    | true => simp [hend, hbrace]

end Terminators

/-- A fragment that leaves something open is closed by `end` when that is one block at most, else by
a brace when it is one brace at most, and not at all when it is anything else or when the fragment
ends inside a literal. -/
theorem close?_leavesOpen (code : Text) (hopen : leavesOpen code) :
    close? leavesOpen code =
      if (endPosition .plain code).quote? = none ∧ (Balance.of (stripLiterals code)).AtMost 1 0 then
        some (['e', 'n', 'd'], code ++ ['\n', 'e', 'n', 'd'])
      else if (endPosition .plain code).quote? = none ∧
        (Balance.of (stripLiterals code)).AtMost 0 1 then
        some (['}'], code ++ ['\n', '}'])
      else none := by
  rw [close?_eq]
  cases hquote : (endPosition .plain code).quote? with
  | none =>
    simp only [leavesOpen_withTerminator_end hquote,
      leavesOpen_withTerminator_brace hquote, true_and]
    rfl
  | some q =>
    -- the literal takes in either terminator, and the fragment stays open
    have hend : leavesOpen (withTerminator code ['e', 'n', 'd']) = leavesOpen code :=
      leavesOpen_withTerminator_of_literal hquote (by simp; decide)
    have hbrace : leavesOpen (withTerminator code ['}']) = leavesOpen code :=
      leavesOpen_withTerminator_of_literal hquote (by simp; decide)
    simp [hend, hbrace, hopen]

/-- One fragment has a brace in a comment, one a keyword in a literal, and one ends in a literal. -/
theorem close?_leavesOpen_each :
    leavesOpen "form(x) do |f| # \x7b".toList ∧ leavesOpen "t(\"end\") \x7b |i|".toList ∧
      leavesOpen "if \"a\\".toList ∧
      close? leavesOpen "form(x) do |f| # \x7b".toList =
        some ("end".toList, "form(x) do |f| # \x7b\nend".toList) ∧
      close? leavesOpen "t(\"end\") \x7b |i|".toList =
        some ("\x7d".toList, "t(\"end\") \x7b |i|\n\x7d".toList) ∧
      close? leavesOpen "if \"a\\".toList = none := by
  have hdo : leavesOpen "form(x) do |f| # \x7b".toList := by decide
  have hbrace : leavesOpen "t(\"end\") \x7b |i|".toList := by decide
  have hliteral : leavesOpen "if \"a\\".toList := by decide
  refine ⟨hdo, hbrace, hliteral, ?_, ?_, ?_⟩
  · rw [close?_leavesOpen _ hdo, if_pos (by decide)]
    rfl
  · rw [close?_leavesOpen _ hbrace, if_neg (by decide), if_pos (by decide)]
    rfl
  · rw [close?_leavesOpen _ hliteral, if_neg (by decide), if_neg (by decide)]

end ErbLayout.Code
