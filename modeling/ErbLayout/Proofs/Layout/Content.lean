import ErbLayout.Layout.Reflow
import ErbLayout.Proofs.Marker

/-!
What layout keeps of a text. A content of texts is a view that blanks add nothing to and that can be
taken apart wherever a character stands that belongs to no marker. Such a view does not see where
words are parted and lines are broken: trimming, collapsing, packing words onto lines and putting
text on a new line all keep it.
-/

namespace ErbLayout.Layout

open Text

/-- The first character, if there is one, belongs to no marker. -/
def StartsApart (s : Text) : Prop := ∀ c ∈ s.head?, isMarkerChar c = false

/-- The last character, if there is one, belongs to no marker. -/
def EndsApart (s : Text) : Prop := ∀ c ∈ s.getLast?, isMarkerChar c = false

/-- A view of texts that is taken apart where no marker can be. -/
structure IsParted (view : Text → Text) : Prop where
  nil : view [] = []
  cut : ∀ s c t, isMarkerChar c = false → view (s ++ c :: t) = view s ++ (view [c] ++ view t)

/-- A view of texts that is taken apart where no marker can be and that blanks add nothing to. -/
structure IsContent (content : Text → Text) : Prop extends IsParted content where
  blank : ∀ c, isBlank c → content [c] = []

theorem startsApart_nil : StartsApart [] := by simp [StartsApart]

theorem startsApart_cons {c : Char} (h : isMarkerChar c = false) (s : Text) :
    StartsApart (c :: s) := by
  simpa [StartsApart] using h

theorem startsApart_append {s t : Text} (hs : StartsApart s) (ht : StartsApart t) :
    StartsApart (s ++ t) := by
  cases s with
  | nil => exact ht
  | cons c s => exact startsApart_cons (hs c rfl) (s ++ t)

theorem startsApart_flatMap {α : Type} {f : α → Text} {l : List α}
    (hf : ∀ x ∈ l, StartsApart (f x)) :
    StartsApart (l.flatMap f) := by
  induction l with
  | nil => exact startsApart_nil
  | cons x l ih =>
    exact startsApart_append (hf x List.mem_cons_self)
      (ih fun y hy => hf y (List.mem_cons_of_mem x hy))

theorem endsApart_nil : EndsApart [] := by simp [EndsApart]

theorem endsApart_concat {c : Char} (h : isMarkerChar c = false) (s : Text) :
    EndsApart (s ++ [c]) := by
  simpa [EndsApart] using h

theorem startsApart_onNewLine (depth : Nat) (s : Text) : StartsApart (onNewLine depth s) :=
  startsApart_cons (by decide) _

namespace IsParted

variable {view : Text → Text} (h : IsParted view)
include h

theorem cons {c : Char} (hc : isMarkerChar c = false) (s : Text) :
    view (c :: s) = view [c] ++ view s := by
  simpa [h.nil] using h.cut [] c s hc

theorem append_of_startsApart (s : Text) {t : Text} (ht : StartsApart t) :
    view (s ++ t) = view s ++ view t := by
  cases t with
  | nil => simp [h.nil]
  | cons c t =>
    have hc : isMarkerChar c = false := ht c rfl
    rw [h.cut s c t hc, h.cons hc t]

theorem append_of_endsApart {s : Text} (hs : EndsApart s) (t : Text) :
    view (s ++ t) = view s ++ view t := by
  rcases List.eq_nil_or_concat s with rfl | ⟨u, c, rfl⟩
  · simp [h.nil]
  · rw [List.concat_eq_append] at hs ⊢
    have hc : isMarkerChar c = false := hs c (by simp)
    rw [List.append_assoc, List.singleton_append, h.cut u c t hc, h.cut u c [] hc, h.nil]
    simp

end IsParted

namespace IsContent

variable {content : Text → Text} (h : IsContent content)
include h

/-- Texts that each start apart from the one before add their contents. -/
theorem flatMap_of_startsApart {α : Type} {f : α → Text} {l : List α}
    (hf : ∀ x ∈ l, StartsApart (f x)) :
    content (l.flatMap f) = l.flatMap fun x => content (f x) := by
  induction l with
  | nil => exact h.nil
  | cons x l ih =>
    have ih := ih fun y hy => hf y (List.mem_cons_of_mem x hy)
    have hrest : StartsApart (l.flatMap f) := startsApart_flatMap fun y hy =>
      hf y (List.mem_cons_of_mem x hy)
    rw [List.flatMap_cons, List.flatMap_cons, h.append_of_startsApart _ hrest, ih]

theorem eq_nil_of_blank {s : Text} (hs : ∀ c ∈ s, isBlank c) : content s = [] := by
  induction s with
  | nil => exact h.nil
  | cons c s ih =>
    have hc : isBlank c := hs c List.mem_cons_self
    rw [h.cons (isMarkerChar_eq_false_of_isBlank hc), h.blank c hc, List.nil_append]
    exact ih fun d hd => hs d (List.mem_cons_of_mem c hd)

theorem append_blank (s : Text) {b : Text} (hb : ∀ c ∈ b, isBlank c) :
    content (s ++ b) = content s := by
  have hstart : StartsApart b := by
    intro c hc
    exact isMarkerChar_eq_false_of_isBlank (hb c (List.mem_of_mem_head? hc))
  rw [h.append_of_startsApart s hstart, h.eq_nil_of_blank hb, List.append_nil]

theorem blank_append {b : Text} (hb : ∀ c ∈ b, isBlank c) (s : Text) :
    content (b ++ s) = content s := by
  have hend : EndsApart b := by
    intro c hc
    exact isMarkerChar_eq_false_of_isBlank (hb c (List.mem_of_mem_getLast? hc))
  rw [h.append_of_endsApart hend, h.eq_nil_of_blank hb, List.nil_append]

theorem append_blank_cons (s : Text) {c : Char} (hc : isBlank c) (t : Text) :
    content (s ++ c :: t) = content s ++ content t := by
  rw [h.cut s c t (isMarkerChar_eq_false_of_isBlank hc), h.blank c hc, List.nil_append]

theorem trimEnd_eq (s : Text) : content (trimEnd s) = content s := by
  obtain ⟨r, hr, hblank⟩ := exists_trimEnd_append s
  conv_rhs => rw [hr]
  exact (h.append_blank _ hblank).symm

theorem trim_eq (s : Text) : content (trim s) = content s := by
  obtain ⟨r, hr, hblank⟩ := exists_append_trimStart s
  rw [trim, h.trimEnd_eq]
  conv_rhs => rw [hr]
  exact (h.blank_append hblank _).symm

theorem words_eq (s : Text) : (words s).flatMap content = content s := by
  -- by length, as a blank cuts the text in two shorter ones
  induction hn : s.length using Nat.strongRecOn generalizing s with
  | ind n ih =>
    rcases notBlank_or_exists_blank s with hs | ⟨w, c, r, rfl, hc, hw⟩
    · by_cases hnil : s = []
      · rw [hnil, h.nil]
        rfl
      · simp [words_of_notBlank hnil hs]
    · have hlength : w.length + (r.length + 1) = n := by simpa using hn
      rw [words_append_cons hc, List.flatMap_append, h.append_blank_cons w hc,
        ih w.length (by omega) w rfl, ih r.length (by omega) r rfl]

theorem join_eq (l : List Text) : content (join [' '] l) = l.flatMap content := by
  fun_induction join [' '] l with
  | case1 => exact h.nil
  | case2 t => simp
  | case3 t ts _ ih =>
    rw [List.append_assoc, List.singleton_append, h.append_blank_cons t (by decide), ih,
      List.flatMap_cons]

theorem collapse_eq (s : Text) : content (collapse s) = content s := by
  rw [collapse, h.join_eq, h.words_eq]

/-- Packing keeps the words that stand on the current line and those to come. -/
theorem packFrom_eq (measure : Text → Nat) (width tail room : Nat) (line : Text) (used : Nat)
    (l : List Text) :
    (packFrom measure width tail room line used l).flatMap content =
      content line ++ l.flatMap content := by
  induction l generalizing room line used with
  | nil =>
    unfold packFrom
    split
    next hempty =>
      have hnil : line = [] := by simpa using hempty
      simp [hnil, h.nil]
    next => simp
  | cons word l ih =>
    unfold packFrom
    dsimp only
    generalize measure word + (if l.isEmpty then tail else 0) = columns
    split
    next hempty =>
      have hnil : line = [] := by simpa using hempty
      rw [ih, hnil, h.nil, List.flatMap_cons, List.nil_append]
    next =>
      split
      · rw [ih, h.append_blank_cons line (by decide), List.flatMap_cons, List.append_assoc]
      · rw [List.flatMap_cons, ih, List.flatMap_cons]

theorem pack_eq (measure : Text → Nat) (firstWidth width tail : Nat) (l : List Text) :
    (pack measure firstWidth width tail l).flatMap content = l.flatMap content := by
  rw [pack, h.packFrom_eq, h.nil, List.nil_append]

theorem reflow_eq (measure : Text → Nat) (width inlineWidth tail : Nat) (s : Text) :
    (reflow measure width inlineWidth tail s).lines.flatMap content = content s := by
  rw [reflow, h.pack_eq, h.words_eq]

theorem onNewLine_eq (depth : Nat) (s : Text) : content (onNewLine depth s) = content s := by
  have hindent : ∀ c ∈ '\n' :: indentation depth, isBlank c := by
    intro c hc
    rcases List.mem_cons.mp hc with rfl | hc
    · decide
    · rw [(List.mem_replicate.mp hc).2]
      decide
  have hline : onNewLine depth s = ('\n' :: indentation depth) ++ trim s := rfl
  rw [hline, h.blank_append hindent, h.trim_eq]

end IsContent

end ErbLayout.Layout
