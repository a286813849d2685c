import ErbLayout.Markup.Tag
import ErbLayout.Proofs.Layout.Packing
import ErbLayout.Proofs.Text.Squeeze

/-!
Pieces in a text. A row lists the pieces of a text in order, each with whether a blank stands right
before it; the text is the pieces, written in some form, with nothing but blanks between them. The
words of a text are such a row, and so are words put on lines: each word but the first has a blank
before it.
-/

namespace ErbLayout

open Text Markup Layout

/-- What a layout puts out one after the other: a word, a code tag in place of its marker, a tag, or
raw content. -/
inductive Piece where
  | word (s : Text)
  | code (marker written : Text)
  | tag (t : Tag)
  | raw (content : Text)

/-- The text is the pieces of the row, in a form that they have, with nothing but blanks between and
around them. -/
inductive Spread (form : Piece → Text → Prop) : List (Piece × Bool) → Text → Prop
  | nil : Spread form [] []
  | blanks {row t b} : Spread form row t → (∀ c ∈ b, isBlank c) → Spread form row (t ++ b)
  | piece {row t x s} : Spread form row t → form x s →
      Spread form (row ++ [(x, endsBlank t)]) (t ++ s)

/-- The words as a row: the first is flagged as given and the others have a blank before them. -/
def wordRow : Bool → List Text → List (Piece × Bool)
  | _, [] => []
  | first, w :: ws => (.word w, first) :: wordRow true ws

theorem map_wordRow (first : Bool) (ws : List Text) :
    (wordRow first ws).map Prod.fst = ws.map Piece.word := by
  induction ws generalizing first with
  | nil => rfl
  | cons w ws ih => rw [wordRow, List.map_cons, List.map_cons, ih]

theorem wordRow_append (first : Bool) {ws : List Text} (hws : ws ≠ []) (vs : List Text) :
    wordRow first (ws ++ vs) = wordRow first ws ++ wordRow true vs := by
  induction ws generalizing first with
  | nil => exact absurd rfl hws
  | cons w ws ih =>
    by_cases hnil : ws = []
    · subst hnil
      rfl
    · rw [List.cons_append, wordRow, ih true hnil]
      rfl

/-- No blank stands at either end of the text. -/
structure IsVisible (s : Text) : Prop where
  ne_nil : s ≠ []
  starts : startsBlank s = false
  ends : endsBlank s = false

theorem isVisible_of_notBlank {s : Text} (hne : s ≠ []) (h : ∀ c ∈ s, isBlank c = false) :
    IsVisible s where
  ne_nil := hne
  starts := by
    obtain ⟨c, u, rfl⟩ := List.exists_cons_of_ne_nil hne
    exact h c List.mem_cons_self
  ends := by
    obtain ⟨u, c, rfl⟩ := (List.eq_nil_or_concat s).resolve_left hne
    rw [List.concat_eq_append, endsBlank_concat]
    exact h c (by simp)

theorem trim_eq_self {s : Text} (hstart : startsBlank s = false) (hend : endsBlank s = false) :
    trim s = s := by
  rcases List.eq_nil_or_concat s with rfl | ⟨v, d, hlast⟩
  · rfl
  · rw [List.concat_eq_append] at hlast
    obtain ⟨c, u, hfirst⟩ : ∃ c u, s = c :: u := List.exists_cons_of_ne_nil (by simp [hlast])
    rw [hfirst, startsBlank_cons] at hstart
    rw [hlast, endsBlank_concat] at hend
    exact trim_append (b := []) (by simp) hfirst hlast hstart hend

theorem IsVisible.trim_eq {s : Text} (h : IsVisible s) : trim s = s := trim_eq_self h.starts h.ends

theorem isVisible_trim {s : Text} (h : allBlank s = false) : IsVisible (trim s) where
  ne_nil := by
    rw [trim]
    intro hnil
    obtain ⟨r, hr, hblank⟩ := exists_append_trimStart s
    have hall : allBlank s = true := by
      rw [hr, allBlank, List.all_append, Bool.and_eq_true]
      exact ⟨List.all_eq_true.mpr hblank, trimEnd_eq_nil_iff.mp hnil⟩
    rw [h] at hall
    simp at hall
  starts := startsBlank_trim s
  ends := endsBlank_trimEnd _

theorem IsVisible.allBlank_eq_false {s : Text} (h : IsVisible s) : allBlank s = false := by
  obtain ⟨c, u, hs⟩ := List.exists_cons_of_ne_nil h.ne_nil
  have hc := h.starts
  rw [hs, startsBlank_cons] at hc
  simp [allBlank, hs, hc]

theorem IsVisible.endsBlank_append {s : Text} (h : IsVisible s) (t : Text) :
    endsBlank (t ++ s) = false := by
  obtain ⟨u, c, hs⟩ := (List.eq_nil_or_concat s).resolve_left h.ne_nil
  rw [List.concat_eq_append] at hs
  have hc := h.ends
  rw [hs, endsBlank_concat] at hc
  rw [hs, ← List.append_assoc, endsBlank_concat, hc]

theorem isVisible_join {ws : List Text} (hne : ws ≠ []) (hws : ∀ w ∈ ws, IsVisible w) :
    IsVisible (join [' '] ws) := by
  induction ws with
  | nil => exact absurd rfl hne
  | cons w ws ih =>
    have hw := hws w List.mem_cons_self
    by_cases hnil : ws = []
    · subst hnil
      exact hw
    · have hrest := ih hnil fun v hv => hws v (List.mem_cons_of_mem w hv)
      rw [join_cons_of_ne_nil _ _ hnil]
      refine ⟨by simp [hw.ne_nil], ?_, hrest.endsBlank_append _⟩
      rw [List.append_assoc, startsBlank_append hw.ne_nil]
      exact hw.starts

theorem isVisible_of_mem_words {s w : Text} (h : w ∈ words s) : IsVisible w :=
  isVisible_of_notBlank (of_mem_words h).1 fun c hc => ((of_mem_words h).2 c hc).2

theorem endsBlank_append_blanks (t : Text) {b : Text} (hne : b ≠ []) (hb : ∀ c ∈ b, isBlank c) :
    endsBlank (t ++ b) = true := by
  obtain ⟨u, c, rfl⟩ := (List.eq_nil_or_concat b).resolve_left hne
  rw [List.concat_eq_append] at hb ⊢
  rw [← List.append_assoc, endsBlank_concat]
  exact hb c (by simp)

theorem isBlank_of_mem_indentation {depth : Nat} {c : Char} (h : c ∈ '\n' :: indentation depth) :
    isBlank c := by
  rcases List.mem_cons.mp h with rfl | h
  · decide
  · rw [(List.mem_replicate.mp h).2]
    decide

namespace Spread

variable {form : Piece → Text → Prop} {row : List (Piece × Bool)} {t : Text}

/-- The words of a text that is added are the pieces that it adds. -/
theorem words (hform : ∀ w, form (.word w) w) (h : Spread form row t) (s : Text) :
    Spread form (row ++ wordRow (endsBlank t || startsBlank s) (words s)) (t ++ s) := by
  -- by length, as a blank cuts the text in two shorter ones
  induction hn : s.length using Nat.strongRecOn generalizing s row t with
  | ind n ih =>
    rcases notBlank_or_exists_blank s with hs | ⟨w, c, r, rfl, hc, hw⟩
    · by_cases hnil : s = []
      · subst hnil
        simpa [wordRow, words_nil] using h
      · have hstart := (isVisible_of_notBlank hnil hs).starts
        rw [words_of_notBlank hnil hs, hstart, Bool.or_false]
        exact h.piece (hform s)
    · have hlength : w.length + (r.length + 1) = n := by simpa using hn
      have hblank : ∀ d ∈ [c], isBlank d := by simpa using hc
      by_cases hnil : w = []
      · subst hnil
        have hrest := ih r.length (by omega) (h.blanks hblank) r rfl
        rw [endsBlank_append_blanks t (List.cons_ne_nil c []) hblank, Bool.true_or] at hrest
        rw [List.nil_append, words_cons_of_isBlank hc, startsBlank_cons, hc, Bool.or_true]
        simpa using hrest
      · have hvisible := isVisible_of_notBlank hnil hw
        have hrest := ih r.length (by omega) ((h.piece (hform w)).blanks hblank) r rfl
        rw [endsBlank_append_blanks (t ++ w) (List.cons_ne_nil c []) hblank, Bool.true_or] at hrest
        rw [words_append_cons hc, words_of_notBlank hnil hw, startsBlank_append hnil,
          hvisible.starts, Bool.or_false]
        simpa [wordRow] using hrest

/-- Words with a space between neighbours. -/
theorem line (hform : ∀ w, form (.word w) w) (h : Spread form row t) (ws : List Text) :
    Spread form (row ++ wordRow (endsBlank t) ws) (t ++ join [' '] ws) := by
  induction ws generalizing row t with
  | nil => simpa [wordRow, join] using h
  | cons w ws ih =>
    by_cases hnil : ws = []
    · subst hnil
      exact h.piece (hform w)
    · have hspace : ∀ c ∈ [' '], isBlank c := by simp; decide
      have hrest := ih ((h.piece (hform w)).blanks hspace)
      rw [endsBlank_append_blanks (t ++ w) (List.cons_ne_nil ' ' []) hspace] at hrest
      rw [join_cons_of_ne_nil _ _ hnil]
      simpa [wordRow] using hrest

/-- What is put on a new line has a blank before it, and what is not has one when the text ends with
one. -/
theorem emit (h : Spread form row t) {x : Piece} {s : Text} (hs : form x s) (hvisible : IsVisible s)
    {newLine : Bool} (hline : newLine = false → endsBlank t = false) (depth : Nat) :
    Spread form (row ++ [(x, newLine)]) (t ++ if newLine then onNewLine depth s else s) := by
  cases newLine with
  | true =>
    have hpiece := (h.blanks (b := '\n' :: indentation depth) fun c =>
      isBlank_of_mem_indentation).piece hs
    rw [endsBlank_append_blanks t (List.cons_ne_nil _ _) fun c =>
      isBlank_of_mem_indentation] at hpiece
    simpa [onNewLine, hvisible.trim_eq] using hpiece
  | false =>
    have hpiece := h.piece hs
    rw [hline rfl] at hpiece
    exact hpiece

end Spread

end ErbLayout
