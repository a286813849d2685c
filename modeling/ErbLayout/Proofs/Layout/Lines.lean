import ErbLayout.Proofs.Layout.Spread
import ErbLayout.Proofs.Markup.Attribute

/-!
Lines of words laid out at a depth. Put on lines, words stay the words they were; a text that is
laid out begins with a blank exactly when its first line goes on a new line, and it never ends with
one.
-/

namespace ErbLayout.Layout

open Text Markup

def laidLines (depth : Nat) (newLine : Bool) : List Text → Text
  | [] => []
  | line :: lines =>
    (if newLine then onNewLine depth line else line) ++ lines.flatMap (onNewLine depth)

theorem words_onNewLine (depth : Nat) (s : Text) : words (onNewLine depth s) = words s := by
  have htrim : words (trim s) = words s := by rw [trim, words_trimEnd, words_trimStart]
  rw [onNewLine, ← List.cons_append, words_blank_append (fun c => isBlank_of_mem_indentation),
    htrim]

theorem words_append_flatMap_onNewLine (depth : Nat) (s : Text) (lines : List Text) :
    words (s ++ lines.flatMap (onNewLine depth)) = words s ++ lines.flatMap words := by
  induction lines generalizing s with
  | nil => simp
  | cons line lines ih =>
    have hline : words (s ++ onNewLine depth line) = words s ++ words line := by
      have hcut : words (s ++ onNewLine depth line) =
          words s ++ words (indentation depth ++ trim line) :=
        words_append_cons (by decide) s _
      have hblank : words (onNewLine depth line) = words (indentation depth ++ trim line) :=
        words_cons_of_isBlank (by decide) _
      rw [hcut, ← hblank, words_onNewLine]
    rw [List.flatMap_cons, ← List.append_assoc, ih, hline, List.flatMap_cons, List.append_assoc]

theorem words_laidLines (depth : Nat) (newLine : Bool) (lines : List Text) :
    words (laidLines depth newLine lines) = lines.flatMap words := by
  cases lines with
  | nil => rfl
  | cons line lines =>
    rw [laidLines, words_append_flatMap_onNewLine, List.flatMap_cons]
    split
    · rw [words_onNewLine]
    · rfl

theorem endsBlank_append_flatMap_onNewLine (depth : Nat) {s : Text} (hs : endsBlank s = false)
    {lines : List Text} (h : ∀ line ∈ lines, IsVisible line) :
    endsBlank (s ++ lines.flatMap (onNewLine depth)) = false := by
  induction lines generalizing s with
  | nil => simpa using hs
  | cons line lines ih =>
    have hline := h line List.mem_cons_self
    have hend : endsBlank (s ++ onNewLine depth line) = false := by
      rw [onNewLine, hline.trim_eq, ← List.cons_append, ← List.append_assoc]
      exact hline.endsBlank_append _
    rw [List.flatMap_cons, ← List.append_assoc]
    exact ih hend fun l hl => h l (List.mem_cons_of_mem line hl)

theorem endsBlank_laidLines (depth : Nat) (newLine : Bool) {lines : List Text}
    (h : ∀ line ∈ lines, IsVisible line) :
    endsBlank (laidLines depth newLine lines) = false := by
  cases lines with
  | nil => rfl
  | cons line lines =>
    have hline := h line List.mem_cons_self
    apply endsBlank_append_flatMap_onNewLine depth _ fun l hl => h l (List.mem_cons_of_mem line hl)
    split
    · rw [onNewLine, hline.trim_eq, ← List.cons_append]
      exact hline.endsBlank_append _
    · exact hline.ends

theorem startsBlank_laidLines (depth : Nat) (newLine : Bool) {lines : List Text} (hne : lines ≠ [])
    (h : ∀ line ∈ lines, IsVisible line) :
    startsBlank (laidLines depth newLine lines) = newLine := by
  obtain ⟨line, lines, rfl⟩ := List.exists_cons_of_ne_nil hne
  cases newLine with
  | true => rfl
  | false =>
    have hline := h line List.mem_cons_self
    rw [laidLines, if_neg (by simp), startsBlank_append hline.ne_nil]
    exact hline.starts

theorem isBlank_of_mem_plainBlanks {c : Char} (h : c ∈ plainBlanks) : isBlank c := by
  simp only [plainBlanks, List.mem_cons, List.not_mem_nil, or_false] at h
  rcases h with rfl | rfl | rfl | rfl | rfl | rfl <;> decide

theorem mem_plainBlanks_of_mem_indentation {depth : Nat} {c : Char}
    (h : c ∈ '\n' :: indentation depth) :
    c ∈ plainBlanks := by
  rcases List.mem_cons.mp h with rfl | h
  · decide
  · rw [(List.mem_replicate.mp h).2]
    decide

theorem mem_onNewLine {depth : Nat} {line : Text} {c : Char} (h : c ∈ onNewLine depth line) :
    c ∈ plainBlanks ∨ c ∈ line := by
  rw [onNewLine, ← List.cons_append] at h
  rcases List.mem_append.mp h with hc | hc
  · exact Or.inl (mem_plainBlanks_of_mem_indentation hc)
  · exact Or.inr ((trim_isInfix line).subset hc)

theorem mem_flatMap_onNewLine {depth : Nat} {lines : List Text} {c : Char}
    (h : c ∈ lines.flatMap (onNewLine depth)) :
    c ∈ plainBlanks ∨ ∃ line ∈ lines, c ∈ line := by
  obtain ⟨line, hline, hc⟩ := List.mem_flatMap.mp h
  exact (mem_onNewLine hc).imp_right fun hc => ⟨line, hline, hc⟩

/-- Lines that are laid out hold their own characters and plain blanks. -/
theorem mem_laidLines {depth : Nat} {newLine : Bool} {lines : List Text} {c : Char}
    (h : c ∈ laidLines depth newLine lines) : c ∈ plainBlanks ∨ ∃ line ∈ lines, c ∈ line := by
  cases lines with
  | nil => exact absurd h List.not_mem_nil
  | cons first lines =>
    rcases List.mem_append.mp h with h | h
    · split at h
      · exact (mem_onNewLine h).imp_right fun hc => ⟨first, List.mem_cons_self, hc⟩
      · exact Or.inr ⟨first, List.mem_cons_self, h⟩
    · rcases mem_flatMap_onNewLine h with h | ⟨line, hline, hc⟩
      · exact Or.inl h
      · exact Or.inr ⟨line, List.mem_cons_of_mem first hline, hc⟩

theorem laidLines_append_cons (depth : Nat) (newLine : Bool) (earlier : List Text) (line : Text)
    (later : List Text) :
    laidLines depth newLine (earlier ++ line :: later) =
      laidLines depth newLine (earlier ++ [line]) ++ later.flatMap (onNewLine depth) := by
  cases earlier with
  | nil => simp [laidLines]
  | cons first earlier => simp [laidLines]

/-- The last of some lines is the first of them and goes on where the page ends, or it is on a new
line. -/
theorem laidLines_concat_cases (depth : Nat) (newLine : Bool) (earlier : List Text) {line : Text}
    (hline : IsVisible line) :
    (newLine = false ∧ earlier = [] ∧ laidLines depth newLine (earlier ++ [line]) = line) ∨
      (newLine = true ∨ earlier ≠ []) ∧
        ∃ u, laidLines depth newLine (earlier ++ [line]) =
          u ++ '\n' :: (indentation depth ++ line) := by
  have hnew : onNewLine depth line = '\n' :: (indentation depth ++ line) := by
    rw [onNewLine, hline.trim_eq]
  cases earlier with
  | nil =>
    cases newLine with
    | false => exact Or.inl ⟨rfl, rfl, by simp [laidLines]⟩
    | true => exact Or.inr ⟨Or.inl rfl, [], by simp [laidLines, hnew]⟩
  | cons first earlier =>
    refine Or.inr ⟨Or.inr (List.cons_ne_nil first earlier),
      laidLines depth newLine (first :: earlier), ?_⟩
    rw [← hnew]
    simp [laidLines]

/-- The lines that words are packed onto. -/
theorem packed_lines (measure : Text → Nat) (firstWidth width tail : Nat) {ws : List Text}
    (hws : ∀ w ∈ ws, w ≠ [] ∧ ∀ c ∈ w, isBlank c = false) :
    (pack measure firstWidth width tail ws).flatMap words = ws ∧
      ∀ line ∈ pack measure firstWidth width tail ws, IsVisible line := by
  obtain ⟨groups, hpack, hflat, hne⟩ := exists_groups_pack measure firstWidth width tail fun w hw =>
    (hws w hw).1
  have hmem : ∀ g ∈ groups, ∀ w ∈ g, w ≠ [] ∧ ∀ c ∈ w, isBlank c = false := by
    intro g hg w hw
    apply hws
    rw [← hflat]
    exact List.mem_flatten.mpr ⟨g, hg, hw⟩
  rw [hpack]
  constructor
  · have hwords : ∀ g ∈ groups, words (join [' '] g) = g := fun g hg => words_join (hmem g hg)
    rw [List.flatMap_map, ← hflat, ← List.flatMap_id]
    exact List.flatMap_congr hwords
  · intro line hline
    obtain ⟨g, hg, rfl⟩ := List.mem_map.mp hline
    exact isVisible_join (hne g hg) fun w hw =>
      isVisible_of_notBlank (hmem g hg w hw).1 (hmem g hg w hw).2

theorem packed_words (measure : Text → Nat) (firstWidth width tail : Nat) (s : Text) :
    (pack measure firstWidth width tail (words s)).flatMap words = words s ∧
      ∀ line ∈ pack measure firstWidth width tail (words s), IsVisible line :=
  packed_lines measure firstWidth width tail fun _ hw =>
    ⟨(of_mem_words hw).1, fun c hc => ((of_mem_words hw).2 c hc).2⟩

end ErbLayout.Layout
