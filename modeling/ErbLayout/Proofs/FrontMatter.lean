import ErbLayout.FrontMatter

/-!
Front matter and body. The front matter, if there is one, and the body after it are the document.
Front matter that ends with a line feed is split off again whatever body follows it.
-/

namespace ErbLayout

open Text

/-- The lines up to the closing line and those after it are all the lines. -/
theorem append_of_upToCloser? {l head tail : List Text} (h : upToCloser? l = some (head, tail)) :
    l = head ++ tail := by
  induction l generalizing head with
  | nil => simp [upToCloser?] at h
  | cons line l ih =>
    unfold upToCloser? at h
    split at h
    · obtain ⟨rfl, rfl⟩ := Prod.mk.inj (Option.some.inj h)
      rfl
    · obtain ⟨⟨head', tail'⟩, hrest, heq⟩ := Option.map_eq_some_iff.1 h
      obtain ⟨rfl, rfl⟩ := Prod.mk.inj heq
      rw [ih hrest, List.cons_append]

/-- Front matter followed by the body is the document. -/
theorem splitFrontMatter_append (source : Text) :
    (splitFrontMatter source).1.getD [] ++ (splitFrontMatter source).2 = source := by
  unfold splitFrontMatter
  split
  · rfl
  next rest hrest =>
    split
    · rfl
    next head tail hlines =>
      have hflat := flatten_fullLines rest
      rw [append_of_upToCloser? hlines, List.flatten_append] at hflat
      rw [after?_eq_some_iff.mp hrest, ← hflat]
      simp

theorem splitFrontMatter_eq_of_none {source : Text} (h : (splitFrontMatter source).1 = none) :
    splitFrontMatter source = (none, source) := by
  have happend := splitFrontMatter_append source
  rw [h, Option.getD_none, List.nil_append] at happend
  exact Prod.ext h happend

section Lines

theorem fullLines_append {u : Text} (hu : '\n' ∉ u) (t : Text) :
    fullLines (u ++ '\n' :: t) = (u ++ ['\n']) :: fullLines t := by
  induction u with
  | nil => simp [fullLines]
  | cons c u ih =>
    have hc : c ≠ '\n' := fun heq => hu (heq ▸ List.mem_cons_self)
    rw [List.cons_append, fullLines, if_neg hc, ih fun hmem => hu (List.mem_cons_of_mem c hmem)]
    rfl

theorem fullLines_of_notMem {s : Text} (hne : s ≠ []) (h : '\n' ∉ s) : fullLines s = [s] := by
  induction s with
  | nil => exact absurd rfl hne
  | cons c s ih =>
    have hc : c ≠ '\n' := fun heq => h (heq ▸ List.mem_cons_self)
    cases s with
    | nil => simp [fullLines, hc]
    | cons d s =>
      have hrest := ih (List.cons_ne_nil d s) fun hmem => h (List.mem_cons_of_mem c hmem)
      rw [fullLines, if_neg hc, hrest]

/-- The first line ends with its only line feed, or it is the only line and has none. -/
theorem fullLines_eq_cons {s line : Text} {lines : List Text} (h : fullLines s = line :: lines) :
    (∃ u, '\n' ∉ u ∧ line = u ++ ['\n'] ∧ ∃ s', fullLines s' = lines) ∨ '\n' ∉ line ∧ line ≠ [] ∧
      lines = [] := by
  induction s generalizing line with
  | nil => simp [fullLines] at h
  | cons c s ih =>
    rw [fullLines] at h
    split at h
    next hc =>
      obtain ⟨rfl, rfl⟩ := List.cons.inj h
      exact Or.inl ⟨[], by simp, by rw [hc]; rfl, s, rfl⟩
    next hc =>
      have hc' : '\n' ≠ c := fun heq => hc heq.symm
      split at h
      next line' lines' hs =>
        obtain ⟨rfl, rfl⟩ := List.cons.inj h
        rcases ih hs with ⟨u, hu, rfl, hrest⟩ | ⟨hline, -, rfl⟩
        · exact Or.inl ⟨c :: u, by simp [hc', hu], rfl, hrest⟩
        · exact Or.inr ⟨by simp [hc', hline], List.cons_ne_nil _ _, rfl⟩
      next =>
        obtain ⟨rfl, rfl⟩ := List.cons.inj h
        exact Or.inr ⟨by simp [hc'], List.cons_ne_nil _ _, rfl⟩

theorem dropLineEnds_concat (s : Text) : dropLineEnds (s ++ ['\n']) = dropLineEnds s := by
  induction s with
  | nil => rfl
  | cons c s ih => rw [List.cons_append, dropLineEnds, ih, dropLineEnds]

/-- The lines up to a closing line are found again whatever follows them, when the closing line has
a line feed. One without is the last, and a line feed can be put after it. -/
theorem upToCloser?_flatten {s : Text} {head tail : List Text}
    (h : upToCloser? (fullLines s) = some (head, tail)) :
    (head.flatten.getLast? = some '\n' ∧ ∀ t, upToCloser? (fullLines (head.flatten ++ t)) =
      some (head, fullLines t)) ∨
      (∃ c, head.flatten.getLast? = some c ∧ c ≠ '\n') ∧ tail = [] ∧
        ∃ head', head'.flatten = head.flatten ++ ['\n'] ∧
          upToCloser? (fullLines (head.flatten ++ ['\n'])) = some (head', []) := by
  generalize hlines : fullLines s = lines at h
  induction lines generalizing s head with
  | nil => simp [upToCloser?] at h
  | cons line lines ih =>
    rw [upToCloser?] at h
    rcases fullLines_eq_cons hlines with ⟨u, hu, rfl, s', hs'⟩ | ⟨hline, hne, rfl⟩
    · have hstep : ∀ t, fullLines (u ++ ['\n'] ++ t) = (u ++ ['\n']) :: fullLines t := by
        intro t
        rw [List.append_assoc]
        exact fullLines_append hu t
      split at h
      next hcloses =>
        obtain ⟨rfl, rfl⟩ := Prod.mk.inj (Option.some.inj h)
        refine Or.inl ⟨by simp, fun t => ?_⟩
        rw [List.flatten_singleton, hstep, upToCloser?, if_pos hcloses]
      next hopen =>
        obtain ⟨⟨head', tail'⟩, hrest, heq⟩ := Option.map_eq_some_iff.1 h
        obtain ⟨rfl, rfl⟩ := Prod.mk.inj heq
        have hmore : ∀ t, upToCloser? (fullLines (((u ++ ['\n']) :: head').flatten ++ t)) =
            (upToCloser? (fullLines (head'.flatten ++ t))).map fun x =>
            ((u ++ ['\n']) :: x.1, x.2) := by
          intro t
          rw [List.flatten_cons, List.append_assoc, hstep, upToCloser?, if_neg hopen]
        have hlast : ∀ c, head'.flatten.getLast? = some c →
            ((u ++ ['\n']) :: head').flatten.getLast? = some c := by
          intro c hc
          rw [List.flatten_cons, List.getLast?_append, hc]
          rfl
        rcases ih hs' hrest with ⟨hend, hagain⟩ | ⟨⟨c, hend, hc⟩, htail, head'', hflat, hagain⟩
        · refine Or.inl ⟨hlast _ hend, fun t => ?_⟩
          rw [hmore, hagain]
          rfl
        · refine Or.inr ⟨⟨c, hlast c hend, hc⟩, htail, (u ++ ['\n']) :: head'', ?_, ?_⟩
          · simp [hflat]
          · rw [hmore, hagain]
            rfl
    · split at h
      next hcloses =>
        obtain ⟨rfl, rfl⟩ := Prod.mk.inj (Option.some.inj h)
        have hcloses' : closesFrontMatter (line ++ ['\n']) := by
          rw [closesFrontMatter, dropLineEnds_concat]; exact hcloses
        refine Or.inr ⟨?_, rfl, [line ++ ['\n']], by simp, ?_⟩
        · refine ⟨line.getLast hne, by rw [List.flatten_singleton,
            List.getLast?_eq_some_getLast hne], ?_⟩
          intro heq
          exact hline (heq ▸ List.getLast_mem hne)
        · rw [List.flatten_singleton, fullLines_append hline, upToCloser?, if_pos hcloses']
          rfl
      next => simp [upToCloser?] at h

/-- Front matter is split off again from a body after it; without a line feed at its end it is the
whole document. -/
theorem splitFrontMatter_again {source matter body : Text}
    (h : splitFrontMatter source = (some matter, body)) :
    (matter.getLast? = some '\n' ∧ ∀ t, splitFrontMatter (matter ++ t) = (some matter, t)) ∨
      matter.getLast? ≠ some '\n' ∧ body = [] ∧
        splitFrontMatter (matter ++ ['\n']) = (some (matter ++ ['\n']), []) := by
  unfold splitFrontMatter at h
  split at h
  · simp at h
  · split at h
    · simp at h
    next head tail hlines =>
      obtain ⟨hmatter, rfl⟩ := Prod.mk.inj h
      obtain rfl := Option.some.inj hmatter
      have hlast : ∀ c, head.flatten.getLast? = some c →
          (frontMatterOpening ++ head.flatten).getLast? = some c := by
        intro c hc
        rw [List.getLast?_append, hc]
        rfl
      have hsplit : ∀ t head' tail', upToCloser? (fullLines (head.flatten ++ t)) =
        some (head', tail') →
          splitFrontMatter (frontMatterOpening ++ head.flatten ++ t) =
            (some (frontMatterOpening ++ head'.flatten), tail'.flatten) := by
        intro t head' tail' hclose
        rw [splitFrontMatter, List.append_assoc, after?_eq_some_iff.mpr rfl]
        dsimp only
        rw [hclose]
      rcases upToCloser?_flatten hlines with ⟨hend, hagain⟩ | ⟨⟨c, hend, hc⟩, rfl, head',
        hflat, hagain⟩
      · refine Or.inl ⟨hlast _ hend, fun t => ?_⟩
        rw [hsplit t head _ (hagain t), flatten_fullLines]
      · refine Or.inr ⟨?_, rfl, ?_⟩
        · rw [hlast c hend]
          simpa using hc
        · rw [hsplit _ head' _ hagain, hflat, List.append_assoc]
          rfl
end Lines

end ErbLayout
