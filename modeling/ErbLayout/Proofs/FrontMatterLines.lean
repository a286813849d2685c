import ErbLayout.Proofs.FrontMatter

/-!
Front matter ends with the first line that closes it. A closing line is three hyphens or three dots,
and line ends after them; what makes it a line is that it begins after a line feed and ends with the
next one, or with the document. Such places of a document are the closing lines among its full
lines, in the same order, so the front matter that is split off goes up to the first of them.
-/

namespace ErbLayout

open Text

/-- A line with `after` below it has no line feed inside, and ends with one or with the text. -/
structure IsFullLine (line after : Text) : Prop where
  inside : '\n' ∉ line.dropLast
  stop : line.getLast? = some '\n' ∨ after = []

/-- A line that closes front matter, at its place in a document. -/
structure ClosingLine (before line after : Text) : Prop where
  /-- The opening line stands above it. -/
  opening : frontMatterOpening <+: before
  /-- It begins after a line feed. -/
  start : before.getLast? = some '\n'
  full : IsFullLine line after
  /-- But for its line ends it is three hyphens or three dots. -/
  content : ∃ ends, (line = ['-', '-', '-'] ++ ends ∨ line = ['.', '.', '.'] ++ ends) ∧
    ∀ c ∈ ends, c = '\n' ∨ c = '\r'

section Content

theorem exists_dropLineEnds_append (s : Text) :
    ∃ ends, s = dropLineEnds s ++ ends ∧ ∀ c ∈ ends, c = '\n' ∨ c = '\r' := by
  induction s with
  | nil => exact ⟨[], rfl, by simp⟩
  | cons c s ih =>
    obtain ⟨ends, hs, hends⟩ := ih
    cases hdrop : dropLineEnds s with
    | nil =>
      rw [hdrop, List.nil_append] at hs
      by_cases hc : c = '\n' ∨ c = '\r'
      · refine ⟨c :: s, by simp [dropLineEnds, hdrop, hc], ?_⟩
        rw [hs]
        simpa using ⟨hc, hends⟩
      · exact ⟨ends, by simp [dropLineEnds, hdrop, hc, ← hs], hends⟩
    | cons d t =>
      rw [hdrop] at hs
      exact ⟨ends, by simpa [dropLineEnds, hdrop] using hs, hends⟩

theorem dropLineEnds_of_lineEnds {s : Text} (h : ∀ c ∈ s, c = '\n' ∨ c = '\r') :
    dropLineEnds s = [] := by
  induction s with
  | nil => rfl
  | cons c s ih =>
    have hc := h c List.mem_cons_self
    simp [dropLineEnds, ih fun d hd => h d (List.mem_cons_of_mem c hd), hc]

/-- A line closes front matter when it is three hyphens or three dots, and line ends. -/
theorem closesFrontMatter_iff {line : Text} :
    closesFrontMatter line ↔ ∃ ends,
      (line = ['-', '-', '-'] ++ ends ∨ line = ['.', '.', '.'] ++ ends) ∧
      ∀ c ∈ ends, c = '\n' ∨ c = '\r' := by
  rw [closesFrontMatter, Bool.or_eq_true, beq_iff_eq, beq_iff_eq]
  constructor
  · obtain ⟨ends, hline, hends⟩ := exists_dropLineEnds_append line
    rintro (hdrop | hdrop)
    · exact ⟨ends, Or.inl (by rw [← hdrop]; exact hline), hends⟩
    · exact ⟨ends, Or.inr (by rw [← hdrop]; exact hline), hends⟩
  · rintro ⟨ends, rfl | rfl, hends⟩
    · exact Or.inl (by simp [dropLineEnds, dropLineEnds_of_lineEnds hends])
    · exact Or.inr (by simp [dropLineEnds, dropLineEnds_of_lineEnds hends])

end Content

section Places

theorem IsFullLine.fullLines_append {line after : Text} (h : IsFullLine line after)
    (hne : line ≠ []) :
    fullLines (line ++ after) = line :: fullLines after := by
  obtain ⟨hinside, hstop⟩ := h
  have hline := List.dropLast_concat_getLast hne
  by_cases hlast : line.getLast hne = '\n'
  · rw [hlast] at hline
    rw [← hline, List.append_assoc]
    exact ErbLayout.fullLines_append hinside after
  · -- without a line feed at its end the line is the last one
    have hnot : '\n' ∉ line := by
      rw [← hline]
      simpa [hinside] using Ne.symm hlast
    have hafter : after = [] := hstop.resolve_left fun hend => hnot (List.mem_of_getLast? hend)
    rw [hafter, List.append_nil, fullLines_of_notMem hne hnot]
    rfl

/-- A text is cut into lines where one of its lines ends. -/
theorem fullLines_append_of_endsLine {s : Text} (hs : s = [] ∨ s.getLast? = some '\n') (t : Text) :
    fullLines (s ++ t) = fullLines s ++ fullLines t := by
  induction s with
  | nil => rfl
  | cons c s ih =>
    have hrest : s = [] ∨ s.getLast? = some '\n' := by
      cases s with
      | nil => exact Or.inl rfl
      | cons d s => exact Or.inr (by simpa using hs)
    rw [List.cons_append, fullLines, fullLines, ih hrest]
    split
    · rfl
    next hc =>
      have hne : fullLines s ≠ [] := by
        intro hnil
        have hflat := flatten_fullLines s
        rw [hnil] at hflat
        rw [← hflat] at hs
        exact hc (by simpa using hs)
      obtain ⟨line, lines, hlines⟩ := List.exists_cons_of_ne_nil hne
      rw [hlines]
      rfl

/-- Each of the full lines begins where the lines before it end. -/
theorem isFullLine_of_fullLines {s line : Text} {init tail : List Text}
    (h : fullLines s = init ++ line :: tail) :
    (init.flatten = [] ∨ init.flatten.getLast? = some '\n') ∧ IsFullLine line tail.flatten := by
  induction init generalizing s with
  | nil =>
    refine ⟨Or.inl rfl, ?_⟩
    rcases fullLines_eq_cons h with ⟨u, hu, rfl, -⟩ | ⟨hline, -, rfl⟩
    · exact ⟨by simpa using hu, Or.inl (by simp)⟩
    · exact ⟨fun hmem => hline (List.dropLast_subset line hmem), Or.inr rfl⟩
  | cons first init ih =>
    rcases fullLines_eq_cons h with ⟨u, -, rfl, s', hs'⟩ | ⟨-, -, hnil⟩
    · obtain ⟨hbefore, hline⟩ := ih hs'
      refine ⟨Or.inr ?_, hline⟩
      rw [List.flatten_cons, List.getLast?_append]
      rcases hbefore with hbefore | hbefore <;> simp [hbefore]
    · -- a line without a line feed is the last, and `line` comes after this one
      simp at hnil

end Places

section First

/-- The lines up to the first closing line end with it, and none before it closes. -/
theorem upToCloser?_eq_some {l head tail : List Text} (h : upToCloser? l = some (head, tail)) :
    ∃ init line, head = init ++ [line] ∧ closesFrontMatter line ∧ ∀ u ∈ init,
      closesFrontMatter u = false := by
  induction l generalizing head with
  | nil => simp [upToCloser?] at h
  | cons u l ih =>
    rw [upToCloser?] at h
    split at h
    next hu =>
      obtain ⟨rfl, -⟩ := Prod.mk.inj (Option.some.inj h)
      exact ⟨[], u, rfl, hu, by simp⟩
    next hu =>
      obtain ⟨⟨head', tail'⟩, hrest, heq⟩ := Option.map_eq_some_iff.1 h
      obtain ⟨rfl, rfl⟩ := Prod.mk.inj heq
      obtain ⟨init, line, rfl, hline, hinit⟩ := ih hrest
      exact ⟨u :: init, line, rfl, hline, by simpa using ⟨by simpa using hu, hinit⟩⟩

theorem upToCloser?_isSome {l : List Text} (h : ∃ line ∈ l, closesFrontMatter line) :
    (upToCloser? l).isSome := by
  induction l with
  | nil => simp at h
  | cons u l ih =>
    rw [upToCloser?]
    split
    · rfl
    next hu =>
      obtain ⟨line, hmem, hline⟩ := h
      have hrest : line ∈ l := (List.mem_cons.mp hmem).resolve_left fun heq => hu (heq ▸ hline)
      simpa using ih ⟨line, hrest, hline⟩

/-- Of two places of a list, the one before which no line closes comes first if the line at the
other closes. -/
theorem isPrefix_of_closes {init init' tail tail' : List Text} {line line' : Text}
    (h : init ++ line :: tail = init' ++ line' :: tail')
    (hinit : ∀ u ∈ init, closesFrontMatter u = false) (hline' : closesFrontMatter line') :
    init <+: init' := by
  induction init generalizing init' with
  | nil => exact List.nil_prefix
  | cons u init ih =>
    cases init' with
    | nil =>
      obtain ⟨rfl, -⟩ := List.cons.inj h
      rw [hinit u List.mem_cons_self] at hline'
      simp at hline'
    | cons u' init' =>
      obtain ⟨rfl, hrest⟩ := List.cons.inj h
      have := ih hrest fun v hv => hinit v (List.mem_cons_of_mem u hv)
      simpa using this

end First

/-- A closing line of a document is one of the full lines after the opening line. -/
theorem ClosingLine.fullLines_eq {before line after rest : Text} (h : ClosingLine before line after)
    (hsource : frontMatterOpening ++ rest = before ++ line ++ after) :
    ∃ init, before = frontMatterOpening ++ init.flatten ∧
      fullLines rest = init ++ line :: fullLines after ∧
      closesFrontMatter line := by
  obtain ⟨s, rfl⟩ := h.opening
  have hrest : rest = s ++ (line ++ after) := by simpa using hsource
  have hs : s = [] ∨ s.getLast? = some '\n' := by
    cases s with
    | nil => exact Or.inl rfl
    | cons c s =>
      have hstart := h.start
      rw [List.getLast?_append, List.getLast?_cons, Option.some_or, ← List.getLast?_cons] at hstart
      exact Or.inr hstart
  have hcloses := closesFrontMatter_iff.mpr h.content
  have hne : line ≠ [] := by
    rintro rfl
    exact absurd hcloses (by decide)
  refine ⟨fullLines s, by rw [flatten_fullLines], ?_, hcloses⟩
  rw [hrest, fullLines_append_of_endsLine hs, h.full.fullLines_append hne]

/-- What is split off ends with a closing line, and no closing line of the document stands above
it. -/
theorem closingLine_of_splitFrontMatter {source matter body : Text}
    (h : splitFrontMatter source = (some matter, body)) :
    ∃ before line, matter = before ++ line ∧ ClosingLine before line body ∧
      ∀ before' line' after', source = before' ++ line' ++ after' →
        ClosingLine before' line' after' →
        before <+: before' := by
  unfold splitFrontMatter at h
  split at h
  · simp at h
  next rest hafter =>
    split at h
    · simp at h
    next head tail hlines =>
      obtain ⟨hmatter, rfl⟩ := Prod.mk.inj h
      obtain rfl := Option.some.inj hmatter
      have hsource := after?_eq_some_iff.mp hafter
      obtain ⟨init, line, rfl, hcloses, hinit⟩ := upToCloser?_eq_some hlines
      have hall : fullLines rest = init ++ line :: tail := by
        simpa using append_of_upToCloser? hlines
      obtain ⟨hbefore, hfull⟩ := isFullLine_of_fullLines hall
      refine ⟨frontMatterOpening ++ init.flatten, line, by simp, ?_, ?_⟩
      · refine ⟨List.prefix_append _ _, ?_, hfull, closesFrontMatter_iff.mp hcloses⟩
        rcases hbefore with hbefore | hbefore
        · rw [hbefore]
          rfl
        · rw [List.getLast?_append, hbefore]
          rfl
      · -- another closing line is a full line too, and those before `line` do not close
        intro before' line' after' hsource' hline'
        obtain ⟨init', rfl, hall', hcloses'⟩ := hline'.fullLines_eq (hsource.symm.trans hsource')
        obtain ⟨more, rfl⟩ := isPrefix_of_closes (hall.symm.trans hall') hinit hcloses'
        simp

theorem splitFrontMatter_isSome {before line after : Text} (h : ClosingLine before line after) :
    (splitFrontMatter (before ++ line ++ after)).1.isSome := by
  obtain ⟨rest, hrest⟩ : frontMatterOpening <+: before ++ line ++ after :=
    h.opening.trans (by rw [List.append_assoc]; exact List.prefix_append _ _)
  obtain ⟨init, -, hall, hcloses⟩ := h.fullLines_eq hrest
  have hmem : line ∈ fullLines rest := by rw [hall]; simp
  obtain ⟨⟨head, tail⟩, hlines⟩ :=
    Option.isSome_iff_exists.mp (upToCloser?_isSome ⟨line, hmem, hcloses⟩)
  rw [splitFrontMatter, after?_eq_some_iff.mpr hrest.symm]
  dsimp only
  rw [hlines]
  rfl

/-- Splitting off front matter loses nothing. There is front matter exactly when a line below the
opening one closes it, it goes up to the first such line, and, with a line feed at its end, it is
split off again from any text after it. -/
theorem splitFrontMatter_exact (source : Text) :
    (splitFrontMatter source).1.getD [] ++ (splitFrontMatter source).2 = source ∧
    ((splitFrontMatter source).1.isSome ↔
      ∃ before line after, source = before ++ line ++ after ∧ ClosingLine before line after) ∧
    ∀ matter, (splitFrontMatter source).1 = some matter →
      (∃ before line, matter = before ++ line ∧
        ClosingLine before line (splitFrontMatter source).2 ∧
        ∀ before' line' after', source = before' ++ line' ++ after' →
          ClosingLine before' line' after' →
          before <+: before') ∧
      (matter.getLast? = some '\n' → ∀ b, splitFrontMatter (matter ++ b) = (some matter, b)) := by
  have hsplit : ∀ matter, (splitFrontMatter source).1 = some matter →
      splitFrontMatter source = (some matter, (splitFrontMatter source).2) := fun matter hmatter =>
      Prod.ext hmatter rfl
  refine ⟨splitFrontMatter_append source, ⟨?_, ?_⟩, fun matter hmatter =>
    ⟨closingLine_of_splitFrontMatter (hsplit matter hmatter), ?_⟩⟩
  · intro hsome
    obtain ⟨matter, hmatter⟩ := Option.isSome_iff_exists.mp hsome
    obtain ⟨before, line, rfl, hline, -⟩ := closingLine_of_splitFrontMatter (hsplit matter hmatter)
    refine ⟨before, line, _, ?_, hline⟩
    have happend := splitFrontMatter_append source
    rw [hmatter, Option.getD_some] at happend
    exact happend.symm
  · rintro ⟨before, line, after, rfl, hline⟩
    exact splitFrontMatter_isSome hline
  · intro hend
    rcases splitFrontMatter_again (hsplit matter hmatter) with ⟨-, hagain⟩ | ⟨hnot, -⟩
    · exact hagain
    · exact absurd hend hnot

/-- Four hyphens close nothing, the first closing line ends with two carriage returns, and the
closing lines after it belong to the body. -/
theorem splitFrontMatter_exact_carriageReturns :
    splitFrontMatter "---\na\n----\n---\r\r\n...\nb".toList =
        (some "---\na\n----\n---\r\r\n".toList, "...\nb".toList) ∧
      "---\na\n----\n---\r\r\n".toList.getLast? = some '\n' ∧
      splitFrontMatter ("---\na\n----\n---\r\r\n".toList ++ "---\n".toList) =
        (some "---\na\n----\n---\r\r\n".toList, "---\n".toList) := by
  have hsplit : splitFrontMatter "---\na\n----\n---\r\r\n...\nb".toList =
      (some "---\na\n----\n---\r\r\n".toList, "...\nb".toList) := by decide
  have hend : "---\na\n----\n---\r\r\n".toList.getLast? = some '\n' := by decide
  obtain ⟨-, hagain⟩ := (splitFrontMatter_exact _).2.2 _ (congrArg Prod.fst hsplit)
  exact ⟨hsplit, hend, hagain hend "---\n".toList⟩

end ErbLayout
