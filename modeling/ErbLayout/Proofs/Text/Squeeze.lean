import ErbLayout.Proofs.Text.Blank

/-!
Texts that differ in their blanks alone. Squeezing a text puts one space in place of every stretch
of blanks and keeps all else, so two texts squeeze to the same text when they have the same
characters with blanks at the same places. Squeezing keeps the words of a text and whether it starts
or ends with a blank.
-/

namespace ErbLayout.Text

def squeeze : Text → Text
  | [] => []
  | c :: cs =>
    if isBlank c then (if startsBlank cs then squeeze cs else ' ' :: squeeze cs)
    else c :: squeeze cs

theorem squeeze_cons_of_isBlank {c : Char} (hc : isBlank c) (s : Text) :
    squeeze (c :: s) = if startsBlank s then squeeze s else ' ' :: squeeze s := by
  rw [squeeze, if_pos hc]

theorem squeeze_cons_of_notBlank {c : Char} (hc : isBlank c = false) (s : Text) :
    squeeze (c :: s) = c :: squeeze s := by
  rw [squeeze, if_neg (by simp [hc])]

theorem startsBlank_cons (c : Char) (s : Text) : startsBlank (c :: s) = isBlank c := rfl

theorem startsBlank_append {s : Text} (hs : s ≠ []) (t : Text) :
    startsBlank (s ++ t) = startsBlank s := by
  cases s with
  | nil => exact absurd rfl hs
  | cons c s => rfl

theorem endsBlank_cons {s : Text} (hs : s ≠ []) (c : Char) : endsBlank (c :: s) = endsBlank s := by
  cases s with
  | nil => exact absurd rfl hs
  | cons d s => simp [endsBlank]

theorem endsBlank_concat (s : Text) (c : Char) : endsBlank (s ++ [c]) = isBlank c := by
  simp [endsBlank]

theorem endsBlank_of_isBlank {s : Text} (hne : s ≠ []) (hs : ∀ c ∈ s, isBlank c) : endsBlank s := by
  obtain ⟨u, c, rfl⟩ := (List.eq_nil_or_concat s).resolve_left hne
  rw [List.concat_eq_append] at hs ⊢
  rw [endsBlank_concat]
  exact hs c (by simp)

@[simp] theorem startsBlank_squeeze (s : Text) : startsBlank (squeeze s) = startsBlank s := by
  induction s with
  | nil => rfl
  | cons c s ih =>
    by_cases hc : isBlank c = true
    · rw [squeeze_cons_of_isBlank hc, startsBlank_cons, hc]
      split
      next hs => rw [ih, hs]
      next => rfl
    · have hc : isBlank c = false := by simpa using hc
      rw [squeeze_cons_of_notBlank hc, startsBlank_cons, startsBlank_cons]

theorem squeeze_eq_nil_iff {s : Text} : squeeze s = [] ↔ s = [] := by
  cases s with
  | nil => simp [squeeze]
  | cons c s =>
    have hstart := startsBlank_squeeze (c :: s)
    simp only [reduceCtorEq, iff_false]
    intro hnil
    by_cases hc : isBlank c = true
    · rw [hnil, startsBlank_cons, hc] at hstart
      exact absurd hstart (by decide)
    · rw [squeeze_cons_of_notBlank (by simpa using hc)] at hnil
      simp at hnil

/-- Where no blank stands on both sides, squeezing works on each side alone. -/
theorem squeeze_append {s t : Text} (h : endsBlank s = false ∨ startsBlank t = false) :
    squeeze (s ++ t) = squeeze s ++ squeeze t := by
  induction s with
  | nil => rfl
  | cons c s ih =>
    by_cases hc : isBlank c = true
    · rw [List.cons_append, squeeze_cons_of_isBlank hc, squeeze_cons_of_isBlank hc]
      by_cases hs : s = []
      · subst hs
        have ht : startsBlank t = false := by
          rcases h with h | h
          · rw [endsBlank, List.getLast?_singleton, Option.any_some, hc] at h
            simp at h
          · exact h
        rw [List.nil_append, if_neg (by simp [ht])]
        rfl
      · rw [startsBlank_append hs, ih (by rwa [endsBlank_cons hs] at h)]
        split <;> simp
    · have hc : isBlank c = false := by simpa using hc
      rw [List.cons_append, squeeze_cons_of_notBlank hc, squeeze_cons_of_notBlank hc,
        List.cons_append]
      by_cases hs : s = []
      · subst hs
        rfl
      · rw [ih (by rwa [endsBlank_cons hs] at h)]

theorem squeeze_blanks {b : Text} (hne : b ≠ []) (hb : ∀ c ∈ b, isBlank c) : squeeze b = [' '] := by
  induction b with
  | nil => exact absurd rfl hne
  | cons c b ih =>
    rw [squeeze_cons_of_isBlank (hb c List.mem_cons_self)]
    by_cases hnil : b = []
    · rw [hnil]
      rfl
    · have hrest : ∀ d ∈ b, isBlank d := fun d hd => hb d (List.mem_cons_of_mem c hd)
      obtain ⟨d, b', rfl⟩ := List.exists_cons_of_ne_nil hnil
      rw [startsBlank_cons, if_pos (hrest d List.mem_cons_self), ih hnil hrest]

theorem squeeze_eq_self {s : Text} (h : ∀ c ∈ s, isBlank c = false) : squeeze s = s := by
  induction s with
  | nil => rfl
  | cons c s ih =>
    rw [squeeze_cons_of_notBlank (h c List.mem_cons_self), ih fun d hd =>
      h d (List.mem_cons_of_mem c hd)]

theorem squeeze_squeeze (s : Text) : squeeze (squeeze s) = squeeze s := by
  induction s with
  | nil => rfl
  | cons c s ih =>
    by_cases hc : isBlank c = true
    · rw [squeeze_cons_of_isBlank hc]
      split
      · exact ih
      next hstart =>
        rw [squeeze_cons_of_isBlank (by decide), startsBlank_squeeze, if_neg hstart, ih]
    · have hc : isBlank c = false := by simpa using hc
      rw [squeeze_cons_of_notBlank hc, squeeze_cons_of_notBlank hc, ih]

/-- Squeezing adds no character but the space. -/
theorem mem_squeeze {s : Text} {c : Char} (h : c ∈ squeeze s) :
    c = ' ' ∨ c ∈ s ∧ isBlank c = false := by
  induction s with
  | nil => simp [squeeze] at h
  | cons d s ih =>
    have hrest : c ∈ squeeze s → c = ' ' ∨ c ∈ d :: s ∧ isBlank c = false :=
      fun hmem => (ih hmem).imp_right fun hc => ⟨List.mem_cons_of_mem d hc.1, hc.2⟩
    by_cases hd : isBlank d = true
    · rw [squeeze_cons_of_isBlank hd] at h
      split at h
      · exact hrest h
      · exact (List.mem_cons.mp h).elim Or.inl hrest
    · have hd : isBlank d = false := by simpa using hd
      rw [squeeze_cons_of_notBlank hd] at h
      rcases List.mem_cons.mp h with rfl | h
      · exact Or.inr ⟨List.mem_cons_self, hd⟩
      · exact hrest h

theorem words_cons_congr (c : Char) {s t : Text} (hwords : words s = words t)
    (hstart : startsBlank s = startsBlank t) (hnil : s = [] ↔ t = []) :
    words (c :: s) = words (c :: t) := by
  rw [words_cons, words_cons, hwords]
  cases s with
  | nil => rw [hnil.mp rfl]
  | cons d s =>
    cases t with
    | nil => exact absurd (hnil.mpr rfl) (List.cons_ne_nil d s)
    | cons e t =>
      rw [startsBlank_cons, startsBlank_cons] at hstart
      cases words (e :: t) with
      | nil => rfl
      | cons w ws => simp only [hstart]

@[simp] theorem words_squeeze (s : Text) : words (squeeze s) = words s := by
  induction s with
  | nil => rfl
  | cons c s ih =>
    by_cases hc : isBlank c = true
    · rw [squeeze_cons_of_isBlank hc, words_cons_of_isBlank hc]
      split
      · exact ih
      · rw [words_cons_of_isBlank (by decide), ih]
    · rw [squeeze_cons_of_notBlank (by simpa using hc)]
      exact words_cons_congr c ih (startsBlank_squeeze s) squeeze_eq_nil_iff

@[simp] theorem endsBlank_squeeze (s : Text) : endsBlank (squeeze s) = endsBlank s := by
  induction s with
  | nil => rfl
  | cons c s ih =>
    by_cases hs : s = []
    · subst hs
      by_cases hc : isBlank c = true
      · rw [squeeze_cons_of_isBlank hc]
        simp [startsBlank, squeeze, endsBlank, hc]
        decide
      · rw [squeeze_cons_of_notBlank (by simpa using hc)]
        rfl
    · have hne : squeeze s ≠ [] := fun hnil => hs (squeeze_eq_nil_iff.mp hnil)
      rw [endsBlank_cons hs, ← ih]
      by_cases hc : isBlank c = true
      · rw [squeeze_cons_of_isBlank hc]
        split
        · rfl
        · rw [endsBlank_cons hne]
      · rw [squeeze_cons_of_notBlank (by simpa using hc), endsBlank_cons hne]

@[simp] theorem allBlank_squeeze (s : Text) : allBlank (squeeze s) = allBlank s := by
  induction s with
  | nil => rfl
  | cons c s ih =>
    have hcons : allBlank (c :: s) = (isBlank c && allBlank s) := rfl
    rw [hcons, ← ih]
    by_cases hc : isBlank c = true
    · rw [squeeze_cons_of_isBlank hc, hc, Bool.true_and]
      split
      · rfl
      · have hspace : isBlank ' ' = true := by decide
        simp [allBlank, hspace]
    · have hc : isBlank c = false := by simpa using hc
      rw [squeeze_cons_of_notBlank hc]
      simp [allBlank, hc]

theorem words_ne_nil {s : Text} (hs : s ≠ []) (hend : endsBlank s = false) : words s ≠ [] := by
  induction s with
  | nil => exact absurd rfl hs
  | cons c s ih =>
    by_cases hnil : s = []
    · subst hnil
      have hc : ¬ isBlank c := by simpa [endsBlank] using hend
      rw [words_singleton hc]
      exact List.cons_ne_nil _ _
    · rw [endsBlank_cons hnil] at hend
      by_cases hc : isBlank c = true
      · rw [words_cons_of_isBlank hc]
        exact ih hnil hend
      · obtain ⟨d, s, rfl⟩ := List.exists_cons_of_ne_nil hnil
        rcases words_cons_cons hc d s with ⟨-, hwords⟩ | ⟨w, ws, -, -, hwords⟩
        · rw [hwords]
          exact List.cons_ne_nil _ _
        · rw [hwords]
          exact List.cons_ne_nil _ _

theorem join_cons_of_ne_nil (sep t : Text) {ts : List Text} (hts : ts ≠ []) :
    join sep (t :: ts) = t ++ sep ++ join sep ts := by
  cases ts with
  | nil => exact absurd rfl hts
  | cons u us => rfl

theorem join_cons_cons (sep : Text) (c : Char) (t : Text) (ts : List Text) :
    join sep ((c :: t) :: ts) = c :: join sep (t :: ts) := by
  cases ts <;> rfl

/-- A text that does not end with a blank is squeezed to its words with a space between neighbours,
after a space when it starts with a blank. -/
theorem squeeze_eq_collapse {s : Text} (hend : endsBlank s = false) :
    squeeze s = (if startsBlank s then [' '] else []) ++ collapse s := by
  induction s with
  | nil => rfl
  | cons c s ih =>
    by_cases hnil : s = []
    · subst hnil
      have hc : isBlank c = false := by simpa [endsBlank] using hend
      rw [squeeze_cons_of_notBlank hc, startsBlank_cons, hc, collapse,
        words_singleton (by simp [hc])]
      rfl
    · rw [endsBlank_cons hnil] at hend
      have ih := ih hend
      have hwords := words_ne_nil hnil hend
      by_cases hc : isBlank c = true
      · rw [squeeze_cons_of_isBlank hc, startsBlank_cons, hc, ih, collapse, collapse,
          words_cons_of_isBlank hc]
        cases startsBlank s <;> rfl
      · rw [squeeze_cons_of_notBlank (by simpa using hc), ih, startsBlank_cons, if_neg hc,
          collapse, collapse, List.nil_append]
        obtain ⟨d, s, rfl⟩ := List.exists_cons_of_ne_nil hnil
        rcases words_cons_cons hc d s with ⟨hd, hall⟩ | ⟨w, ws, hd, hw, hall⟩
        · rw [hall, startsBlank_cons, if_pos hd, join_cons_of_ne_nil _ _ hwords]
          rfl
        · rw [hall, hw, startsBlank_cons, if_neg hd, join_cons_cons]
          rfl

theorem endsBlank_trimEnd (s : Text) : endsBlank (trimEnd s) = false := by
  induction s with
  | nil => rfl
  | cons c s ih =>
    rw [trimEnd]
    split
    next hnil =>
      split
      · rfl
      next hc => simpa [endsBlank] using hc
    next d ds hcons =>
      rw [hcons] at ih
      rwa [endsBlank_cons (List.cons_ne_nil d ds)]

theorem trimEnd_eq_nil_iff {s : Text} : trimEnd s = [] ↔ allBlank s := by
  constructor
  · intro h
    obtain ⟨r, hr, hblank⟩ := exists_trimEnd_append s
    rw [h, List.nil_append] at hr
    exact List.all_eq_true.mpr (hr ▸ hblank)
  · intro h
    rcases List.eq_nil_or_concat (trimEnd s) with hnil | ⟨u, c, hu⟩
    · exact hnil
    rw [List.concat_eq_append] at hu
    have hend := endsBlank_trimEnd s
    rw [hu, endsBlank_concat] at hend
    have hmem : c ∈ s := by
      rw [← trimEnd_append_trailingBlanks s, hu]
      simp
    rw [List.all_eq_true.mp h c hmem] at hend
    simp at hend

theorem trimEnd_eq_self {s : Text} (h : endsBlank s = false) : trimEnd s = s := by
  rcases List.eq_nil_or_concat s with rfl | ⟨u, c, rfl⟩
  · rfl
  · rw [List.concat_eq_append] at h ⊢
    rw [endsBlank_concat] at h
    exact trimEnd_concat h u

theorem trimEnd_append_blank (s : Text) {b : Text} (hb : ∀ c ∈ b, isBlank c) :
    trimEnd (s ++ b) = trimEnd s := by
  induction s with
  | nil => exact trimEnd_eq_nil_iff.mpr (List.all_eq_true.mpr hb)
  | cons c s ih => rw [List.cons_append, trimEnd, ih, trimEnd]

theorem startsBlank_trimStart (s : Text) : startsBlank (trimStart s) = false := by
  induction s with
  | nil => rfl
  | cons c s ih =>
    rw [trimStart, List.dropWhile_cons]
    split
    · exact ih
    next hc => simpa [startsBlank_cons] using hc

theorem startsBlank_trim (s : Text) : startsBlank (trim s) = false := by
  obtain ⟨trail, htrail, -⟩ := exists_trimEnd_append (trimStart s)
  have hstart := startsBlank_trimStart s
  by_cases hnil : trimEnd (trimStart s) = []
  · rw [trim, hnil]
    rfl
  · rwa [htrail, startsBlank_append hnil] at hstart

theorem trim_lead {b : Text} (hb : ∀ c ∈ b, isBlank c) (s : Text) : trim (b ++ s) = trim s := by
  rw [trim, trimStart, List.dropWhile_append_of_pos hb]
  rfl

theorem trim_append_blank (s : Text) {b : Text} (hb : ∀ c ∈ b, isBlank c) :
    trim (s ++ b) = trim s := by
  obtain ⟨lead, hlead, hblank⟩ := exists_append_trimStart s
  by_cases hnil : trimStart s = []
  · rw [hnil, List.append_nil] at hlead
    have hall := trim_lead hb []
    rw [List.append_nil] at hall
    rw [hlead, trim_lead hblank, hall, ← List.append_nil lead, trim_lead hblank]
  · have hstart : trimStart (s ++ b) = trimStart s ++ b := by
      rw [trimStart, trimStart, List.dropWhile_append, if_neg (by simpa [trimStart] using hnil)]
    rw [trim, hstart, trimEnd_append_blank _ hb, trim]

theorem trim_trail {s r : Text} (hr : ∀ c ∈ r, isBlank c) (hstart : startsBlank s = false)
    (hend : endsBlank s = false) :
    trim (s ++ r) = s := by
  cases s with
  | nil =>
    have hblank := trim_lead hr []
    rwa [List.append_nil] at hblank
  | cons c s =>
    have hc : isBlank c = false := hstart
    have htrim : trimStart (c :: s ++ r) = c :: s ++ r := by
      rw [trimStart, List.cons_append, List.dropWhile_cons_of_neg (by simp [hc])]
    rw [trim, htrim, trimEnd_append_blank _ hr, trimEnd_eq_self hend]

theorem trailingBlanks_append {s b : Text} (hs : endsBlank s = false) (hb : ∀ c ∈ b, isBlank c) :
    trailingBlanks (s ++ b) = b := by
  have happend := trimEnd_append_trailingBlanks (s ++ b)
  rw [trimEnd_append_blank s hb, trimEnd_eq_self hs] at happend
  exact List.append_cancel_left happend

theorem isBlank_of_mem_trailingBlanks {s : Text} {c : Char} (h : c ∈ trailingBlanks s) :
    isBlank c := by
  obtain ⟨r, hr, hblank⟩ := exists_trimEnd_append s
  have htrail : trailingBlanks s = r :=
    List.append_cancel_left ((trimEnd_append_trailingBlanks s).trans hr)
  exact hblank c (htrail ▸ h)

theorem words_blank_append {b : Text} (hb : ∀ c ∈ b, isBlank c) (s : Text) :
    words (b ++ s) = words s := by
  induction b with
  | nil => rfl
  | cons c b ih =>
    rw [List.cons_append, words_cons_of_isBlank (hb c List.mem_cons_self)]
    exact ih fun d hd => hb d (List.mem_cons_of_mem c hd)

theorem words_append_blank (s : Text) {b : Text} (hb : ∀ c ∈ b, isBlank c) :
    words (s ++ b) = words s := by
  cases b with
  | nil => rw [List.append_nil]
  | cons c b =>
    have hrest := words_blank_append (fun d hd => hb d (List.mem_cons_of_mem c hd)) []
    rw [List.append_nil, words_nil] at hrest
    rw [words_append_cons (hb c List.mem_cons_self), hrest, List.append_nil]

theorem words_trimEnd (s : Text) : words (trimEnd s) = words s := by
  obtain ⟨r, hr, hblank⟩ := exists_trimEnd_append s
  have happend := words_append_blank (trimEnd s) hblank
  rw [← hr] at happend
  exact happend.symm

theorem words_trimStart (s : Text) : words (trimStart s) = words s := by
  obtain ⟨r, hr, hblank⟩ := exists_append_trimStart s
  have happend := words_blank_append hblank (trimStart s)
  rw [← hr] at happend
  exact happend.symm

/-- A text without words is blank. -/
theorem isBlank_of_words_eq_nil {s : Text} (h : words s = []) : ∀ c ∈ s, isBlank c := by
  have hnil : trimEnd s = [] := by
    by_cases hne : trimEnd s = []
    · exact hne
    · exact absurd (words_trimEnd s ▸ h) (words_ne_nil hne (endsBlank_trimEnd s))
  exact List.all_eq_true.mp (trimEnd_eq_nil_iff.mp hnil)

theorem words_join {ws : List Text} (h : ∀ w ∈ ws, w ≠ [] ∧ ∀ c ∈ w, isBlank c = false) :
    words (join [' '] ws) = ws := by
  induction ws with
  | nil => rfl
  | cons w ws ih =>
    have hword := words_of_notBlank (h w List.mem_cons_self).1 (h w List.mem_cons_self).2
    have ih := ih fun v hv => h v (List.mem_cons_of_mem w hv)
    by_cases hws : ws = []
    · subst hws
      exact hword
    · rw [join_cons_of_ne_nil _ _ hws, List.append_assoc, List.singleton_append,
        words_append_cons (by decide), hword, ih]
      rfl

/-- A squeezed text is its words with a space between neighbours, and a space for blanks at either
end. -/
theorem squeeze_eq_words (s : Text) :
    squeeze s = (if startsBlank s then [' '] else []) ++
      (join [' '] (words s) ++ if endsBlank s && !(words s).isEmpty then [' '] else []) := by
  obtain ⟨b, hs, hblank⟩ := exists_trimEnd_append s
  have hend := endsBlank_trimEnd s
  by_cases hb : b = []
  · rw [hb, List.append_nil] at hs
    rw [← hs] at hend
    rw [squeeze_eq_collapse hend, hend]
    simp [collapse]
  · by_cases hnil : trimEnd s = []
    · -- nothing but blanks
      rw [hnil, List.nil_append] at hs
      have hwords : words s = [] := by rw [← words_trimEnd, hnil, words_nil]
      have hstart : startsBlank s := by
        obtain ⟨c, b, rfl⟩ := List.exists_cons_of_ne_nil hb
        rw [hs, startsBlank_cons]
        exact hblank c List.mem_cons_self
      rw [hwords, hstart, hs, squeeze_blanks hb hblank]
      simp [join]
    · have hwords : words (trimEnd s) = words s := words_trimEnd s
      have hne : words s ≠ [] := hwords ▸ words_ne_nil hnil hend
      have hstart := startsBlank_append hnil b
      have hsqueeze : squeeze (trimEnd s ++ b) = squeeze (trimEnd s) ++ squeeze b :=
        squeeze_append (Or.inl hend)
      rw [← hs] at hstart hsqueeze
      have hblanks : endsBlank s := by
        obtain ⟨u, c, rfl⟩ := (List.eq_nil_or_concat b).resolve_left hb
        rw [List.concat_eq_append] at hs hblank
        rw [hs, ← List.append_assoc, endsBlank_concat]
        exact hblank c (by simp)
      rw [hsqueeze, squeeze_blanks hb hblank, squeeze_eq_collapse hend, hstart, collapse, hwords]
      simp [hblanks, hne]

theorem squeeze_congr {s t : Text} (hwords : words s = words t)
    (hstart : startsBlank s = startsBlank t) (hend : endsBlank s = endsBlank t) :
    squeeze s = squeeze t := by
  rw [squeeze_eq_words, squeeze_eq_words, hwords, hstart, hend]

end ErbLayout.Text
