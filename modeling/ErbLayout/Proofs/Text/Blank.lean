import ErbLayout.Text.Blank

/-!
Blanks and words. Trimming takes away blanks at the ends of a text and nothing else. The words of a
text are what stands between its blanks: at any blank the text falls into two parts that have their
words each alone.
-/

namespace ErbLayout.Text

theorem le_iff_toNat_le {c d : Char} : c ≤ d ↔ c.toNat ≤ d.toNat := by
  rw [Char.le_def, UInt32.le_iff_toNat_le]
  rfl

theorem isBlank_eq_false_of_visible {c : Char} (h : '!' ≤ c) (h' : c ≤ '~') :
    isBlank c = false := by
  rw [le_iff_toNat_le] at h h'
  have hbounds : '!'.toNat = 33 ∧ '~'.toNat = 126 := by decide
  simp [isBlank]
  omega

/-- What trimming takes away at the end is blank. -/
theorem exists_trimEnd_append (s : Text) : ∃ r, s = trimEnd s ++ r ∧ ∀ c ∈ r, isBlank c := by
  induction s with
  | nil => exact ⟨[], rfl, by simp⟩
  | cons c s ih =>
    obtain ⟨r, hr, hblank⟩ := ih
    cases h : trimEnd s with
    | nil =>
      rw [h, List.nil_append] at hr
      by_cases hc : isBlank c
      · refine ⟨c :: s, by simp [trimEnd, h, hc], ?_⟩
        intro d hd
        rcases List.mem_cons.mp hd with rfl | hd
        · exact hc
        · exact hblank d (hr ▸ hd)
      · exact ⟨r, by simp [trimEnd, h, hc, ← hr], hblank⟩
    | cons d ds =>
      rw [h] at hr
      exact ⟨r, by simpa [trimEnd, h] using hr, hblank⟩

theorem exists_append_trimStart (s : Text) : ∃ r, s = r ++ trimStart s ∧ ∀ c ∈ r, isBlank c :=
  ⟨s.takeWhile isBlank, (List.takeWhile_append_dropWhile).symm, fun c hc =>
    List.all_eq_true.mp List.all_takeWhile c hc⟩

theorem trim_isInfix (s : Text) : trim s <:+: s := by
  obtain ⟨r, hr, -⟩ := exists_trimEnd_append (trimStart s)
  obtain ⟨b, hb, -⟩ := exists_append_trimStart s
  exact ⟨b, r, by rw [trim, List.append_assoc, ← hr, ← hb]⟩

theorem trimEnd_concat {c : Char} (hc : isBlank c = false) (s : Text) :
    trimEnd (s ++ [c]) = s ++ [c] := by
  induction s with
  | nil => simp [trimEnd, hc]
  | cons d s ih =>
    obtain ⟨e, t, het⟩ := List.exists_cons_of_ne_nil
      (List.append_ne_nil_of_right_ne_nil s (List.cons_ne_nil c []))
    rw [List.cons_append, trimEnd, ih, het]

/-- Trimming keeps all from the first character that is not blank on, when the last is not blank
either. -/
theorem trim_append {b s u v : Text} {c d : Char} (hb : ∀ e ∈ b, isBlank e) (hfirst : s = c :: u)
    (hlast : s = v ++ [d]) (hc : isBlank c = false) (hd : isBlank d = false) :
    trim (b ++ s) = s := by
  have hstart : trimStart (b ++ s) = s := by
    rw [trimStart, List.dropWhile_append_of_pos hb, hfirst,
      List.dropWhile_cons_of_neg (by simp [hc])]
  rw [trim, hstart, hlast, trimEnd_concat hd]

theorem words_nil : words [] = [] := rfl

theorem words_cons (c : Char) (s : Text) :
    words (c :: s) =
      if isBlank c then words s
      else
        match s, words s with
        | d :: _, w :: ws => if isBlank d then [c] :: w :: ws else (c :: w) :: ws
        | _, ws => [c] :: ws := rfl

theorem words_cons_of_isBlank {c : Char} (hc : isBlank c) (s : Text) :
    words (c :: s) = words s := by
  rw [words_cons, if_pos hc]

theorem words_singleton {c : Char} (hc : ¬ isBlank c) : words [c] = [[c]] := by
  rw [words_cons, if_neg hc]
  rfl

/-- A character that is not blank is a word of its own before a blank, and begins the next word
otherwise. -/
theorem words_cons_cons {c : Char} (hc : ¬ isBlank c) (d : Char) (s : Text) :
    (isBlank d ∧ words (c :: d :: s) = [c] :: words (d :: s)) ∨
      ∃ w ws, ¬ isBlank d ∧ words (d :: s) = w :: ws ∧ words (c :: d :: s) = (c :: w) :: ws := by
  rw [words_cons c, if_neg hc]
  by_cases hd : isBlank d = true
  · refine Or.inl ⟨hd, ?_⟩
    cases words (d :: s) with
    | nil => rfl
    | cons w ws => simp only [if_pos hd]
  · have hne : words (d :: s) ≠ [] := by
      rw [words_cons, if_neg hd]
      split
      · split
        · exact List.cons_ne_nil _ _
        · exact List.cons_ne_nil _ _
      · exact List.cons_ne_nil _ _
    obtain ⟨w, ws, hw⟩ := List.exists_cons_of_ne_nil hne
    refine Or.inr ⟨w, ws, hd, hw, ?_⟩
    simp only [hw, if_neg hd]

/-- A blank parts the words before it from those after it. -/
theorem words_append_cons {c : Char} (hc : isBlank c) (s t : Text) :
    words (s ++ c :: t) = words s ++ words t := by
  induction s with
  | nil => exact words_cons_of_isBlank hc t
  | cons d s ih =>
    by_cases hd : isBlank d = true
    · rw [List.cons_append, words_cons_of_isBlank hd, words_cons_of_isBlank hd, ih]
    · cases s with
      | nil =>
        rcases words_cons_cons hd c t with ⟨-, hwords⟩ | ⟨w, ws, hblank, -⟩
        · rw [List.cons_append, List.nil_append, hwords, words_cons_of_isBlank hc,
            words_singleton hd]
          rfl
        · exact absurd hc hblank
      | cons e s =>
        rw [List.cons_append] at ih
        rw [List.cons_append, List.cons_append]
        rcases words_cons_cons hd e s with ⟨he, hwords⟩ | ⟨w, ws, he, hw, hwords⟩
        · rcases words_cons_cons hd e (s ++ c :: t) with ⟨-, hall⟩ | ⟨w, ws, he', -⟩
          · rw [hall, hwords, ih]
            rfl
          · exact absurd he he'
        · rcases words_cons_cons hd e (s ++ c :: t) with ⟨he', -⟩ | ⟨w', ws', -, hw', hall⟩
          · exact absurd he' he
          · rw [ih, hw] at hw'
            obtain ⟨rfl, rfl⟩ := List.cons.inj hw'
            rw [hall, hwords]
            rfl

theorem words_of_notBlank {s : Text} (hne : s ≠ []) (h : ∀ c ∈ s, isBlank c = false) :
    words s = [s] := by
  induction s with
  | nil => exact absurd rfl hne
  | cons c s ih =>
    have hc : ¬ isBlank c := by simp [h c List.mem_cons_self]
    cases s with
    | nil => exact words_singleton hc
    | cons d s =>
      have hd : ¬ isBlank d := by simp [h d (by simp)]
      have ih := ih (List.cons_ne_nil d s) fun e he => h e (List.mem_cons_of_mem c he)
      rcases words_cons_cons hc d s with ⟨hblank, -⟩ | ⟨w, ws, -, hw, hwords⟩
      · exact absurd hblank hd
      · rw [ih] at hw
        obtain ⟨rfl, rfl⟩ := List.cons.inj hw
        exact hwords

/-- A text holds no blank, or it falls into a part without blanks, a blank, and a rest. -/
theorem notBlank_or_exists_blank (s : Text) :
    (∀ c ∈ s, isBlank c = false) ∨
      ∃ w c r, s = w ++ c :: r ∧ isBlank c ∧ ∀ d ∈ w, isBlank d = false := by
  induction s with
  | nil => exact Or.inl (by simp)
  | cons c s ih =>
    by_cases hc : isBlank c = true
    · exact Or.inr ⟨[], c, s, rfl, hc, by simp⟩
    · have hc : isBlank c = false := by simpa using hc
      rcases ih with hs | ⟨w, d, r, rfl, hd, hw⟩
      · refine Or.inl fun d hmem => ?_
        rcases List.mem_cons.mp hmem with rfl | hmem
        · exact hc
        · exact hs d hmem
      · refine Or.inr ⟨c :: w, d, r, rfl, hd, fun e he => ?_⟩
        rcases List.mem_cons.mp he with rfl | he
        · exact hc
        · exact hw e he

/-- A word is not empty and is made of characters of the text that are not blank. -/
theorem of_mem_words {s w : Text} (h : w ∈ words s) :
    w ≠ [] ∧ ∀ c ∈ w, c ∈ s ∧ isBlank c = false := by
  induction hn : s.length using Nat.strongRecOn generalizing s with
  | ind n ih =>
    rcases notBlank_or_exists_blank s with hs | ⟨v, c, r, rfl, hc, hv⟩
    · by_cases hnil : s = []
      · simp [hnil, words_nil] at h
      · obtain rfl : w = s := by simpa [words_of_notBlank hnil hs] using h
        exact ⟨hnil, fun c hmem => ⟨hmem, hs c hmem⟩⟩
    · have hlength : v.length + (r.length + 1) = n := by simpa using hn
      rw [words_append_cons hc] at h
      rcases List.mem_append.mp h with h | h
      · obtain ⟨hne, hchars⟩ := ih v.length (by omega) h rfl
        exact ⟨hne, fun d hd => ⟨List.mem_append_left _ (hchars d hd).1, (hchars d hd).2⟩⟩
      · obtain ⟨hne, hchars⟩ := ih r.length (by omega) h rfl
        refine ⟨hne, fun d hd => ⟨?_, (hchars d hd).2⟩⟩
        exact List.mem_append_right v (List.mem_cons_of_mem c (hchars d hd).1)

/-- What never reaches across a blank is in a text if it is in one of the words. -/
theorem eq_any_words {f : Text → Bool} (hnil : f [] = false)
    (hcut : ∀ s c t, isBlank c → f (s ++ c :: t) = (f s || f t)) (s : Text) :
    f s = (words s).any f := by
  induction hn : s.length using Nat.strongRecOn generalizing s with
  | ind n ih =>
    rcases notBlank_or_exists_blank s with hs | ⟨v, c, r, rfl, hc, hv⟩
    · by_cases hempty : s = []
      · rw [hempty, hnil]
        rfl
      · simp [words_of_notBlank hempty hs]
    · have hlength : v.length + (r.length + 1) = n := by simpa using hn
      rw [hcut v c r hc, words_append_cons hc, List.any_append, ih v.length (by omega) v rfl,
        ih r.length (by omega) r rfl]

end ErbLayout.Text
