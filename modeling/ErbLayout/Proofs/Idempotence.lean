import ErbLayout.Proofs.FrontMatter
import ErbLayout.Proofs.SteadyBody

/-!
Laying out a document that is laid out. Its front matter is split off again, and its body is laid
out as itself exactly when the body it comes from was steady: each opening tag is broken into lines
the second time if it was the first time, no list of tokens without quotes is too long for its line,
no slash becomes part of a value, and the line feed at the end makes no bad attribute. A bare value
shows that not every plain document is stable.
-/

namespace ErbLayout

open Text Markup Code Layout MarkerTable

section FirstLine

/-- The first word of a text is the part without blanks after the blanks it begins with. -/
theorem head?_words_eq_some_iff {s w : Text} :
    (words s).head? = some w ↔
      (w ≠ [] ∧ ∀ c ∈ w, isBlank c = false) ∧
        ∃ lead t, s = lead ++ (w ++ t) ∧ (∀ c ∈ lead, isBlank c) ∧
          (t = [] ∨ startsBlank t = true) := by
  constructor
  · intro h
    obtain ⟨hne, hchars⟩ := of_mem_words (List.mem_of_head? h)
    refine ⟨⟨hne, fun c hc => (hchars c hc).2⟩, ?_⟩
    obtain ⟨lead, hs, hlead⟩ := exists_append_trimStart s
    rw [← words_trimStart] at h
    have hstart := startsBlank_trimStart s
    rcases notBlank_or_exists_blank (trimStart s) with hvisible | ⟨u, c, r, hu, hc, hvisible⟩
    · have hnil : trimStart s ≠ [] := fun hnil => by simp [hnil, words_nil] at h
      obtain rfl : trimStart s = w := by simpa [words_of_notBlank hnil hvisible] using h
      exact ⟨lead, [], by rw [List.append_nil, ← hs], hlead, Or.inl rfl⟩
    · have hnil : u ≠ [] := by
        rintro rfl
        rw [hu, List.nil_append, startsBlank_cons, hc] at hstart
        simp at hstart
      rw [hu, words_append_cons hc, words_of_notBlank hnil hvisible] at h
      obtain rfl : u = w := by simpa using h
      exact ⟨lead, c :: r, by rw [← hu, ← hs], hlead, Or.inr hc⟩
  · rintro ⟨⟨hne, hvisible⟩, lead, t, rfl, hlead, ht⟩
    rw [words_blank_append hlead]
    cases t with
    | nil => rw [List.append_nil, words_of_notBlank hne hvisible, List.head?_cons]
    | cons c t =>
      have hc : isBlank c := by simpa [startsBlank_cons] using ht
      rw [words_append_cons hc, words_of_notBlank hne hvisible]
      rfl

/-- What the rows begin with, up to the first tag, is what their text begins with. -/
theorem exists_of_append_eq_rows {u s x : Text} {rows : List (Tag × Text)}
    (h : x ++ rowsWritten rows = u ++ s) (hu : '<' ∉ u) : ∃ y, x = u ++ y := by
  rcases List.append_eq_append_iff.mp h with ⟨k, rfl, hk⟩ | ⟨k, rfl, -⟩
  · cases rows with
    | nil =>
      obtain ⟨rfl, -⟩ := List.append_eq_nil_iff.mp hk.symm
      exact ⟨[], by simp⟩
    | cons row rows =>
      obtain ⟨v, hv⟩ := isEnclosed_written row.1
      rw [rowsWritten_cons, hv] at hk
      cases k with
      | nil => exact ⟨[], by simp⟩
      | cons c k =>
        obtain ⟨rfl, -⟩ := List.cons.inj hk
        exact absurd (List.mem_append_right _ List.mem_cons_self) hu
  · exact ⟨k, rfl⟩

/-- A word that rows begin with after they were laid out, with a blank after it, is one they began
with before. -/
theorem exists_firstWord_of_relaid {x x' w y : Text} {c : Char} {rows rows' : List (Tag × Text)}
    (h : RelaidRows none (trimStart x) rows x' rows') (hx' : x' = w ++ c :: y) (hc : isBlank c)
    (hw : w ≠ [] ∧ ∀ c ∈ w, isBlank c = false) :
    ∃ lead t, x = lead ++ (w ++ t) ∧ (∀ c ∈ lead, isBlank c) ∧
      (startsBlank t = true ∨ t = [] ∧ rows = []) := by
  have hwords : words x = w :: words y := by
    rw [← words_trimStart, ← h.words rfl, hx', words_append_cons hc, words_of_notBlank hw.1 hw.2]
    rfl
  obtain ⟨-, lead, t, hx, hlead, ht⟩ := head?_words_eq_some_iff.mp (congrArg List.head? hwords)
  refine ⟨lead, t, hx, hlead, ?_⟩
  rcases ht with rfl | ht
  · refine Or.inr ⟨rfl, ?_⟩
    by_contra hrows
    -- the word is all of the text before a tag, so no blank comes to stand after it
    have hend : endsBlank (trimStart x) = false := by
      have hword : trimStart x = w := by
        rw [hx, List.append_nil, trimStart, List.dropWhile_append_of_pos hlead]
        obtain ⟨d, v, rfl⟩ := List.exists_cons_of_ne_nil hw.1
        rw [List.dropWhile_cons_of_neg (by simp [hw.2 d List.mem_cons_self])]
      rw [hword]
      exact (isVisible_of_notBlank hw.1 hw.2).ends
    have hy : words y = [] := by
      rw [hx, List.append_nil, words_blank_append hlead, words_of_notBlank hw.1 hw.2] at hwords
      exact (List.cons.inj hwords).2.symm
    have hblank : ∀ d ∈ c :: y, isBlank d := by
      intro d hd
      rcases List.mem_cons.mp hd with rfl | hd
      · exact hc
      · exact isBlank_of_words_eq_nil hy d hd
    rw [← h.ends hrows, hx', endsBlank_append _ (List.cons_ne_nil c y),
      endsBlank_of_isBlank (List.cons_ne_nil c y) hblank] at hend
    simp at hend
  · exact Or.inl ht

/-- A body whose first word is not three hyphens is laid out without front matter at its start. -/
theorem LaysOut.splitFrontMatter_eq {options : Options}
    (hcode : ∀ code width, options.formatCode code width = none) (hranking : options.ranking = none)
    {body out : Text} (hbody : IsPlainBody body) (h : LaysOut options body out)
    (hfirst : (words body).head? ≠ some ['-', '-', '-']) :
    splitFrontMatter (out ++ ['\n']) = (none, out ++ ['\n']) := by
  cases hafter : after? frontMatterOpening (out ++ ['\n']) with
  | none => rw [splitFrontMatter, hafter]
  | some rest =>
    exfalso
    apply hfirst
    obtain ⟨x, rows, x', rows', table, hrows, hrelaid, hreread, -⟩ :=
      h.exists_rereads hcode hranking hbody
    have hout := hreread.written.trans (after?_eq_some_iff.mp hafter)
    obtain ⟨s, hs, -⟩ := hreread.clean.exists_of_restore_eq_append hout
      (by simp [frontMatterOpening]; decide)
    obtain ⟨y, hx'⟩ := exists_of_append_eq_rows hs (by decide)
    have hhyphens : ∀ c ∈ ['-', '-', '-'], isBlank c = false ∧ isMarkerChar c = false := by
      simp
      decide
    obtain ⟨lead, t, rfl, hlead, ht⟩ :=
      exists_firstWord_of_relaid hrelaid (w := ['-', '-', '-']) hx' (by decide)
      ⟨List.cons_ne_nil _ _, fun c hc => (hhyphens c hc).1⟩
    -- the body begins with the same word, since no code is put back in it
    have hstart : body = lead ++ (['-', '-', '-'] ++ (extractCode body).2.restore
        (t ++ rowsWritten rows)) := by
      conv_lhs => rw [← restore_extractCode body, hrows, List.append_assoc, restore_lead _ hlead,
        List.append_assoc, restore_apart _ fun c hc => (hhyphens c hc).2]
    refine head?_words_eq_some_iff.mpr ⟨⟨List.cons_ne_nil _ _, fun c hc => (hhyphens c hc).1⟩, lead,
      _, hstart, hlead, ?_⟩
    rcases ht with ht | ⟨rfl, rfl⟩
    · have hne : t ≠ [] := by
        rintro rfl
        simp [startsBlank] at ht
      exact Or.inr (by rw [(isCleanTable_extractCode hbody.noMarker).isVisible.startsBlank_restore,
        startsBlank_append hne, ht])
    · exact Or.inl (restore_nil _)

end FirstLine

section Documents

theorem formatDocument_eq_ok {options : Options} {source out : Text} :
    formatDocument options source = .ok out ↔
      ∃ body, LaysOut options (splitFrontMatter source).2 body ∧
        attachFrontMatter (splitFrontMatter source).1 body = out := by
  rw [formatDocument_eq]
  constructor
  · intro h
    split at h
    next page hpage => exact ⟨_, ⟨page, hpage, rfl⟩, Except.ok.inj h⟩
    next => simp at h
  · rintro ⟨body, ⟨page, hpage, rfl⟩, rfl⟩
    have hpage : (⟨options, (markedBody source).2⟩ : Job).layBody (markedBody source).1 =
      .ok page := hpage
    rw [hpage]
    rfl

theorem attachFrontMatter_injective (matter : Option Text) :
    Function.Injective (attachFrontMatter matter) := by
  intro body body' h
  cases matter with
  | none => simpa [attachFrontMatter] using h
  | some matter =>
    unfold attachFrontMatter at h
    dsimp only at h
    by_cases hempty : body = [] <;> by_cases hempty' : body' = [] <;> simp_all

theorem formatDocument_again_iff {options : Options} {source rest body : Text}
    {matter : Option Text} (hsplit : splitFrontMatter source = (matter, rest))
    (hattach : attachFrontMatter matter body = source) :
    formatDocument options source = .ok source ↔ LaysOut options rest body := by
  rw [formatDocument_eq_ok, hsplit]
  constructor
  · rintro ⟨body', hlays, hsame⟩
    obtain rfl := attachFrontMatter_injective matter (hsame.trans hattach.symm)
    exact hlays
  · exact fun hlays => ⟨body, hlays, hattach⟩

/-- Layout is stable exactly for steady bodies. Without a formatter of code and without an order of
classes, a document whose body is plain, and whose first word does not look like the start of front
matter, is laid out as a document that is laid out as itself if and only if its body is steady; so
it is when its body is settled. -/
theorem formatDocument_idempotent_iff (options : Options)
    (hcode : ∀ code width, options.formatCode code width = none) (hranking : options.ranking = none)
    (source out : Text) (hbody : IsPlainBody (splitFrontMatter source).2)
    (hfirst : (splitFrontMatter source).1 = none → (words source).head? ≠ some ['-', '-', '-'])
    (hout : formatDocument options source = .ok out) :
    (formatDocument options out = .ok out ↔ IsSteadyBody options (splitFrontMatter source).2) ∧
      (IsSettledBody (splitFrontMatter source).2 → formatDocument options out = .ok out) := by
  have hsettled : IsSettledBody (splitFrontMatter source).2 →
      IsSteadyBody options (splitFrontMatter source).2 :=
    isSteadyBody_of_isSettledBody hranking hbody
  suffices hagain : formatDocument options out = .ok out ↔
    IsSteadyBody options (splitFrontMatter source).2 from
    ⟨hagain, fun h => hagain.mpr (hsettled h)⟩
  obtain ⟨body, hlays, rfl⟩ := formatDocument_eq_ok.mp hout
  have hagain := hlays.again_iff hcode hranking hbody
  have hsteady : body = [] → IsSteadyBody options (splitFrontMatter source).2 := by
    rintro rfl
    exact (hagain [] (by simp)).mp (laysOut_blank (by simp; decide))
  cases hmatter : (splitFrontMatter source).1 with
  | none =>
    have hsource : (splitFrontMatter source).2 = source :=
      congrArg Prod.snd (splitFrontMatter_eq_of_none hmatter)
    have hsplit := hlays.splitFrontMatter_eq hcode hranking hbody (hsource.symm ▸ hfirst hmatter)
    have hattach : attachFrontMatter none body = body ++ ['\n'] := rfl
    rw [hattach, formatDocument_again_iff hsplit hattach]
    exact hagain [] (by simp)
  | some matter =>
    have hsource : splitFrontMatter source = (some matter, (splitFrontMatter source).2) :=
      Prod.ext hmatter rfl
    rcases splitFrontMatter_again hsource with ⟨hend, hsplit⟩ | ⟨hend, hrest, hsplit⟩
    · -- the front matter ends with a line feed, and an empty line is put after it
      by_cases hempty : body = []
      · have hattach : attachFrontMatter (some matter) body = matter := by
          simp [attachFrontMatter, hend, hempty]
        have hsplit := hsplit []
        rw [List.append_nil] at hsplit
        rw [hattach, formatDocument_again_iff hsplit hattach, hempty]
        exact iff_of_true (laysOut_blank (by simp)) (hsteady hempty)
      · have hattach : attachFrontMatter (some matter) body =
            matter ++ (['\n'] ++ (body ++ ['\n'])) := by
          simp [attachFrontMatter, hend, hempty]
        rw [hattach, formatDocument_again_iff (hsplit _) hattach]
        exact hagain ['\n'] (by simp; decide)
    · -- without a line feed at its end the front matter is all there is
      rw [hrest] at hlays
      obtain rfl := (laysOut_blank (by simp)).unique hlays
      have hattach : attachFrontMatter (some matter) [] = matter ++ ['\n'] := by
        simp [attachFrontMatter, hend]
      have hattach' : attachFrontMatter (some (matter ++ ['\n'])) [] = matter ++ ['\n'] := by
        simp [attachFrontMatter]
      rw [hattach, formatDocument_again_iff hsplit hattach']
      exact iff_of_true (laysOut_blank (by simp)) (hsteady rfl)

/-- A value without quotes that is put in quotes stays where it is; one that takes in a slash does
not. -/
theorem formatDocument_idempotent_iff_bare :
    (IsPlainBody (splitFrontMatter "<p  class='b a' id=x>one <%=x%>\n\n</p > two".toList).2 ∧
      formatDocument {} "<p  class='b a' id=x>one <%=x%>\n\n</p > two".toList =
        .ok "<p class='b a' id=\"x\">one\n  <%= x %>\n\n</p>\ntwo\n".toList ∧
      formatDocument {} "<p class='b a' id=\"x\">one\n  <%= x %>\n\n</p>\ntwo\n".toList =
        .ok "<p class='b a' id=\"x\">one\n  <%= x %>\n\n</p>\ntwo\n".toList) ∧
    IsPlainBody (splitFrontMatter "<a b=c />".toList).2 ∧
      formatDocument {} "<a b=c />".toList = .ok "<a b=c/>\n".toList ∧
      formatDocument {} "<a b=c/>\n".toList ≠ .ok "<a b=c/>\n".toList := by
  have hsteady : IsPlainBody (splitFrontMatter
      "<p  class='b a' id=x>one <%=x%>\n\n</p > two".toList).2 :=
    ⟨by decide +kernel, by decide +kernel⟩
  have hunsteady : IsPlainBody (splitFrontMatter "<a b=c />".toList).2 :=
    ⟨by decide +kernel, by decide +kernel⟩
  have hout : formatDocument {} "<p  class='b a' id=x>one <%=x%>\n\n</p > two".toList =
      .ok "<p class='b a' id=\"x\">one\n  <%= x %>\n\n</p>\ntwo\n".toList := by decide +kernel
  have hout' : formatDocument {} "<a b=c />".toList = .ok "<a b=c/>\n".toList := by decide +kernel
  refine ⟨⟨hsteady, hout, ?_⟩, hunsteady, hout', ?_⟩
  · exact (formatDocument_idempotent_iff {}
      (fun _ _ => rfl) rfl _ _ hsteady (by decide +kernel) hout).1.mpr
      (by decide +kernel)
  · exact mt (formatDocument_idempotent_iff {}
      (fun _ _ => rfl) rfl _ _ hunsteady (by decide +kernel) hout').1.mp
      (by decide +kernel)

/-- A second layout can fail: the gap that is dropped kept the slash of a self-closing tag out of a
bare value. -/
theorem formatDocument_unstable :
    formatDocument {} "<a b=c />".toList = .ok "<a b=c/>\n".toList ∧
      (formatDocument {} "<a b=c/>\n".toList).isOk = false := by
  decide +kernel

end Documents

end ErbLayout
