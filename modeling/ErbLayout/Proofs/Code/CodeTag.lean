import ErbLayout.Code.CodeTag
import ErbLayout.Proofs.Markup.Tag

/-!
Reading a code tag does not look past its closing delimiter, so the recogniser of code tags is
local. A code tag begins with `<%` and ends with `%>`, and there is one wherever `%>` follows `<%`.
-/

namespace ErbLayout.Code

open Text Markup

/-- The delimiters and blanks that a code tag is read with. -/
structure CodeTag.IsRead (t : CodeTag) : Prop where
  opening : t.opening = ['<', '%', '=', '='] ∨ t.opening = ['<', '%', '='] ∨
    t.opening = ['<', '%', '-'] ∨
    t.opening = ['<', '%']
  lead : ∀ c ∈ t.lead, isBlank c
  trail : ∀ c ∈ t.trail, isBlank c
  closing : t.closing = ['-', '%', '>'] ∨ t.closing = ['%', '>']

theorem closing?_eq_some_iff {s c r : Text} :
    closing? s = some (c, r) ↔ (c = ['-', '%', '>'] ∨ c = ['%', '>']) ∧ s = c ++ r := by
  constructor
  · intro h
    refine ⟨?_, closing?_eq_some h⟩
    unfold closing? at h
    split at h
    · obtain ⟨rfl, -⟩ := Prod.mk.inj (Option.some.inj h)
      exact Or.inl rfl
    · obtain ⟨rfl, -⟩ := Prod.mk.inj (Option.some.inj h)
      exact Or.inr rfl
    · simp at h
  · rintro ⟨rfl | rfl, rfl⟩
    · rfl
    · rfl

/-- A closing delimiter that begins in a sealed text ends in it. -/
theorem isPrefix_of_closing {s c x z : Text} (hs : Sealed s)
    (hc : c = ['-', '%', '>'] ∨ c = ['%', '>']) (h : s ++ z = c ++ x) :
    ∃ w, s = c ++ w ∧ x = w ++ z := by
  rcases List.append_eq_append_iff.mp h with ⟨w, hw, hz⟩ | ⟨w, hw, hx⟩
  · cases w with
    | nil => exact ⟨[], by simpa using hw.symm, by simpa using hz.symm⟩
    | cons d w =>
      have hmem : '>' ∈ c.dropLast := by
        rw [hw, List.dropLast_append_of_ne_nil (List.cons_ne_nil d w)]
        exact List.mem_append_left _ (List.mem_of_getLast? hs)
      rcases hc with rfl | rfl <;> simp at hmem
  · exact ⟨w, hw, hx⟩

/-- Whether a closing delimiter can be read, and which, is settled inside a sealed text. -/
theorem closing?_append {s : Text} (hs : Sealed s) (z : Text) :
    closing? (s ++ z) = followedBy z (closing? s) := by
  cases h : closing? (s ++ z) with
  | some y =>
    obtain ⟨c, x⟩ := y
    obtain ⟨hc, heq⟩ := closing?_eq_some_iff.mp h
    obtain ⟨w, rfl, rfl⟩ := isPrefix_of_closing hs hc heq
    rw [closing?_eq_some_iff.mpr ⟨hc, rfl⟩]
    rfl
  | none =>
    cases hshort : closing? s with
    | none => rfl
    | some y =>
      obtain ⟨hc, rfl⟩ := closing?_eq_some_iff.mp hshort
      rw [List.append_assoc, closing?_eq_some_iff.mpr ⟨hc, rfl⟩] at h
      simp at h

theorem closing?_spanOf_append {s : Text} (hs : Sealed s) (z : Text) :
    closing? (spanOf isBlank (s ++ z)).2 = followedBy z (closing? (spanOf isBlank s).2) := by
  obtain ⟨hspan, hrest⟩ := hs.spanOf_append (p := isBlank) (by decide) z
  rw [hspan]
  exact closing?_append hrest z

theorem sealed_of_closing {c : Text} (hc : c = ['-', '%', '>'] ∨ c = ['%', '>']) : Sealed c := by
  rcases hc with rfl | rfl <;> rfl

theorem head?_of_closing {c : Text} (hc : c = ['-', '%', '>'] ∨ c = ['%', '>']) (r : Text) :
    ∀ d ∈ (c ++ r).head?, isBlank d = false := by
  intro d hd
  rcases hc with rfl | rfl
  · obtain rfl : '-' = d := by simpa using hd
    decide
  · obtain rfl : '%' = d := by simpa using hd
    decide

/-- The code of a tag is read the same whatever follows its closing delimiter. -/
theorem codeBody?_append_eq {code trail closing r : Text}
    (h : codeBody? (code ++ (trail ++ (closing ++ r))) = some (code, trail, closing, r))
    (r' : Text) :
    codeBody? (code ++ (trail ++ (closing ++ r'))) = some (code, trail, closing, r') ∧
      (closing = ['-', '%', '>'] ∨ closing = ['%', '>']) ∧ ∀ c ∈ trail, isBlank c := by
  induction code with
  | nil =>
    rw [List.nil_append] at h
    rw [codeBody?.eq_def] at h
    split at h
    next c r'' hclose =>
      obtain ⟨htrail, rfl, rfl⟩ :
          (spanOf isBlank (trail ++ (closing ++ r))).1 = trail ∧ c = closing ∧ r'' = r := by
          simpa using h
      have hblank : ∀ d ∈ trail, isBlank d := by
        intro d hd
        rw [← htrail] at hd
        exact mem_spanOf hd
      obtain ⟨hc, -⟩ := closing?_eq_some_iff.mp hclose
      refine ⟨?_, hc, hblank⟩
      have hspan := spanOf_append_eq hblank (head?_of_closing hc r')
      rw [List.nil_append, codeBody?.eq_def, hspan, closing?_eq_some_iff.mpr ⟨hc, rfl⟩]
    next =>
      split at h
      · simp at h
      · obtain ⟨x, -, heq⟩ := Option.map_eq_some_iff.1 h
        simp at heq
  | cons d code ih =>
    rw [codeBody?.eq_def] at h
    split at h
    · simp at h
    next hclose =>
      obtain ⟨⟨code', rest⟩, hbody, heq⟩ := Option.map_eq_some_iff.1 h
      obtain ⟨rfl, rfl⟩ : code' = code ∧ rest = (trail, closing, r) := by simpa using heq
      obtain ⟨hrest, hc, htrail⟩ := ih hbody
      refine ⟨?_, hc, htrail⟩
      -- the text up to the closing delimiter settles that no delimiter stands here
      have hsettled := closing?_spanOf_append (sealed_append (d :: (code' ++ trail))
        (sealed_of_closing hc))
      simp only [List.cons_append, List.append_assoc] at hsettled hclose
      have hnone : closing? (spanOf isBlank (d :: (code' ++ (trail ++ closing)))).2 = none := by
        have hr := hsettled r
        rw [hclose] at hr
        exact Option.map_eq_none_iff.mp hr.symm
      rw [List.cons_append, codeBody?.eq_def, hsettled, hnone]
      simp only [followedBy, Option.map_none]
      rw [hrest]
      rfl

/-- The opening delimiter is the longest there is, so it is settled by whether one of its marks
follows. -/
theorem opening?_append_eq {s o r r' : Text} (h : opening? s = some (o, r))
    (hr : ∀ c, c = '=' ∨ c = '-' → (r'.head? = some c ↔ r.head? = some c)) :
    opening? (o ++ r') = some (o, r') := by
  have hmark : ∀ {c u}, c = '=' ∨ c = '-' → r' = c :: u → ∃ x, r = c :: x := by
    rintro c u hc rfl
    exact List.head?_eq_some_iff.mp ((hr c hc).mp rfl)
  unfold opening? at h
  split at h
  next x =>
    obtain ⟨rfl, -⟩ := Prod.mk.inj (Option.some.inj h)
    rfl
  next x hx =>
    obtain ⟨rfl, rfl⟩ := Prod.mk.inj (Option.some.inj h)
    cases r' with
    | nil => rfl
    | cons c r' =>
      have hc : c ≠ '=' := by
        rintro rfl
        obtain ⟨y, rfl⟩ := hmark (Or.inl rfl) rfl
        exact hx y rfl
      simp [opening?, hc]
  next x =>
    obtain ⟨rfl, -⟩ := Prod.mk.inj (Option.some.inj h)
    rfl
  next x _ hx hx' =>
    obtain ⟨rfl, rfl⟩ := Prod.mk.inj (Option.some.inj h)
    cases r' with
    | nil => rfl
    | cons c r' =>
      have hequals : c ≠ '=' := by
        rintro rfl
        obtain ⟨y, rfl⟩ := hmark (Or.inl rfl) rfl
        exact hx y rfl
      have hminus : c ≠ '-' := by
        rintro rfl
        obtain ⟨y, rfl⟩ := hmark (Or.inr rfl) rfl
        exact hx' y rfl
      simp [opening?, hequals, hminus]
  next => simp at h

theorem opening?_eq_some_cases {s o r : Text} (h : opening? s = some (o, r)) :
    o = ['<', '%', '=', '='] ∨ o = ['<', '%', '='] ∨ o = ['<', '%', '-'] ∨ o = ['<', '%'] := by
  unfold opening? at h
  split at h
  · exact Or.inl (Prod.mk.inj (Option.some.inj h)).1.symm
  · exact Or.inr (Or.inl (Prod.mk.inj (Option.some.inj h)).1.symm)
  · exact Or.inr (Or.inr (Or.inl (Prod.mk.inj (Option.some.inj h)).1.symm))
  · exact Or.inr (Or.inr (Or.inr (Prod.mk.inj (Option.some.inj h)).1.symm))
  · simp at h

/-- The parts in which a code tag is read, and how it is read when something else follows. -/
theorem codeTag?_eq_some_parts {s r : Text} {t : CodeTag} (h : codeTag? s = some (t, r)) :
    t.IsRead ∧ ∀ r', codeTag? (t.written ++ r') = some (t, r') := by
  unfold codeTag? at h
  split at h
  · simp at h
  next o x hopen =>
    obtain ⟨⟨code, trail, closing, rest⟩, hbody, heq⟩ := Option.map_eq_some_iff.1 h
    obtain ⟨rfl, rfl⟩ : (⟨o, (spanOf isBlank x).1, code, trail, closing⟩ : CodeTag) = t ∧
        rest = r := by
      simpa using heq
    have hx := spanOf_append isBlank x
    have htext := codeBody?_eq_some hbody
    have hlead : ∀ c ∈ (spanOf isBlank x).1, isBlank c := fun c hc => mem_spanOf hc
    have hhead : ∀ c ∈ (spanOf isBlank x).2.head?, isBlank c = false := fun c hc => head?_spanOf hc
    rw [htext] at hbody hx hhead
    generalize (spanOf isBlank x).1 = lead at hx hlead
    have hread := codeBody?_append_eq hbody
    obtain ⟨-, hc, htrail⟩ := hread []
    refine ⟨⟨opening?_eq_some_cases hopen, hlead, htrail, hc⟩, ?_⟩
    intro r'
    -- up to the closing delimiter the texts are the same
    have hsame : ∀ u : Text, (u ++ (closing ++ r')).head? = (u ++ (closing ++ rest)).head? := by
      intro u
      cases u with
      | nil => rcases hc with rfl | rfl <;> rfl
      | cons d u => rfl
    have hhead' : ∀ c ∈ (code ++ (trail ++ (closing ++ r'))).head?, isBlank c = false := by
      intro c hcmem
      have := hsame (code ++ trail)
      simp only [List.append_assoc] at this
      rw [this] at hcmem
      exact hhead c hcmem
    have hopen' : opening? (o ++ (lead ++ (code ++ (trail ++ (closing ++ r'))))) =
        some (o, lead ++ (code ++ (trail ++ (closing ++ r')))) := by
      apply opening?_append_eq hopen
      intro c _
      have := hsame (lead ++ (code ++ trail))
      simp only [List.append_assoc] at this
      rw [this, ← hx]
    have hwritten : CodeTag.written ⟨o, lead, code, trail, closing⟩ ++ r' =
        o ++ (lead ++ (code ++ (trail ++ (closing ++ r')))) := by
      simp [CodeTag.written]
    unfold codeTag?
    rw [hwritten, hopen']
    dsimp only
    rw [spanOf_append_eq hlead hhead', (hread r').1]
    rfl

theorem codeTags_isLocal : codeTags.IsLocal := fun _ _ _ h => (codeTag?_eq_some_parts h).2

theorem isRead_of_run {s r : Text} {t : CodeTag} (h : codeTags.run s = some (t, r)) : t.IsRead :=
  (codeTag?_eq_some_parts h).1

/-- A code tag that was read once is the first code tag of its own text. -/
theorem ofText?_written {s r : Text} {t : CodeTag} (h : codeTags.run s = some (t, r)) :
    CodeTag.ofText? t.written = some t := by
  have hrun := codeTags_isLocal s t r h []
  rw [List.append_nil] at hrun
  have hfirst : codeTags.first? t.written = some ([], t, []) := Recogniser.first?_of_run hrun
  rw [CodeTag.ofText?, hfirst]
  rfl

/-- Whatever stands between the delimiters stands between `<` and `>`. -/
theorem CodeTag.IsRead.exists_enclosed {t : CodeTag} (h : t.IsRead) (s : Text) :
    ∃ u, t.opening ++ s ++ t.closing = '<' :: (u ++ ['>']) := by
  obtain ⟨o, ho⟩ : ∃ o, t.opening = '<' :: o := by
    rcases h.opening with ho | ho | ho | ho <;> exact ⟨_, ho⟩
  obtain ⟨c, hc⟩ : ∃ c, t.closing = c ++ ['>'] := by
    rcases h.closing with hc | hc
    · exact ⟨['-', '%'], hc⟩
    · exact ⟨['%'], hc⟩
  exact ⟨o ++ s ++ c, by simp [ho, hc]⟩

theorem CodeTag.IsRead.written_eq {t : CodeTag} (h : t.IsRead) :
    ∃ u, t.written = '<' :: (u ++ ['>']) := by
  obtain ⟨u, hu⟩ := h.exists_enclosed (t.lead ++ t.code ++ t.trail)
  exact ⟨u, by rw [← hu]; simp [CodeTag.written]⟩

theorem CodeTag.IsRead.closing_isInfix {t : CodeTag} (h : t.IsRead) :
    ['%', '>'] <:+: t.written := by
  rcases h.closing with hc | hc
  · exact ⟨t.opening ++ t.lead ++ t.code ++ t.trail ++ ['-'], [], by simp [CodeTag.written, hc]⟩
  · exact ⟨t.opening ++ t.lead ++ t.code ++ t.trail, [], by simp [CodeTag.written, hc]⟩

/-- The delimiters of a code tag stand at its ends. -/
theorem CodeTag.IsRead.exists_delimited {t : CodeTag} (h : t.IsRead) :
    ∃ u, t.written = '<' :: '%' :: (u ++ ['%', '>']) := by
  obtain ⟨o, ho⟩ : ∃ o, t.opening = '<' :: '%' :: o := by
    rcases h.opening with ho | ho | ho | ho <;> exact ⟨_, ho⟩
  obtain ⟨c, hc⟩ : ∃ c, t.closing = c ++ ['%', '>'] := by
    rcases h.closing with hc | hc
    · exact ⟨['-'], hc⟩
    · exact ⟨[], hc⟩
  exact ⟨o ++ t.lead ++ t.code ++ t.trail ++ c, by simp [CodeTag.written, ho, hc]⟩

theorem codeBody?_isSome {s : Text} (h : ['%', '>'] <:+: s) : (codeBody? s).isSome := by
  induction s with
  | nil => simp at h
  | cons c s ih =>
    rw [codeBody?.eq_def]
    split
    · rfl
    next hclose =>
      rcases List.infix_cons_iff.mp h with hpre | hin
      · obtain ⟨r, hr⟩ := hpre
        have hspan : spanOf isBlank (c :: s) = ([], c :: s) := by
          apply spanOf_append_eq (a := [])
          · simp
          · intro d hd
            obtain rfl : '%' = d := by simpa [← hr] using hd
            decide
        rw [hspan, ← hr] at hclose
        simp [closing?] at hclose
      · simpa using ih hin

theorem isInfix_of_isInfix_append {u s : Text} (hu : '%' ∉ u) (h : ['%', '>'] <:+: u ++ s) :
    ['%', '>'] <:+: s := by
  induction u with
  | nil => exact h
  | cons c u ih =>
    rcases List.infix_cons_iff.mp h with hpre | hin
    · obtain ⟨r, hr⟩ := hpre
      obtain ⟨rfl, -⟩ : '%' = c ∧ _ := by simpa using hr
      simp at hu
    · exact ih (fun hmem => hu (List.mem_cons_of_mem c hmem)) hin

/-- There is a code tag wherever `%>` follows `<%`. -/
theorem codeTag?_isSome {s : Text} (h : ['%', '>'] <:+: s) :
    (codeTag? ('<' :: '%' :: s)).isSome := by
  obtain ⟨o, u, r, hopen, hu, hs⟩ :
      ∃ o u r, opening? ('<' :: '%' :: s) = some (o, r) ∧ '%' ∉ u ∧ s = u ++ r := by
    unfold opening?
    split
    next r heq => exact ⟨_, ['=', '='], r, rfl, by decide, by simpa using heq⟩
    next r _ heq => exact ⟨_, ['='], r, rfl, by decide, by simpa using heq⟩
    next r heq => exact ⟨_, ['-'], r, rfl, by decide, by simpa using heq⟩
    next r _ _ _ heq => exact ⟨_, [], r, rfl, by simp, by simpa using heq⟩
    next hne => exact absurd rfl (hne s)
  have hr : ['%', '>'] <:+: r := isInfix_of_isInfix_append hu (hs ▸ h)
  have hbody : (codeBody? (spanOf isBlank r).2).isSome := by
    apply codeBody?_isSome
    rw [← spanOf_append isBlank r] at hr
    refine isInfix_of_isInfix_append ?_ hr
    intro hmem
    have hblank : isBlank '%' = true := mem_spanOf (p := isBlank) hmem
    exact absurd hblank (by decide)
  simp [codeTag?, hopen, hbody]

end ErbLayout.Code
