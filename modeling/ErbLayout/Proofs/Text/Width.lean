import ErbLayout.Text.Width

/-!
The width of a text and the spaces in it. A space and a quotation mark are drawn together with
nothing, so a space put in after a quotation mark takes a column and changes no other. A text takes
no more columns than its parts when it is cut next to a character that is drawn alone, or before
characters that are all drawn alone.
-/

namespace ErbLayout.Text

theorem widthStep_eq {c : Char} (hlow : c.toNat ≤ 0xA0) (hselect : selectableRanges.has c = false)
    (hfeed : c ≠ '\n') (hreturn : c ≠ '\r') (f : Following) :
    widthStep c f = (1, Following.none) := by
  have halone : alone c = (1, Following.none) := by simp [alone, hfeed, hlow]
  have hbeside : ∀ g, widthBeside c g = (1, Following.none) := by
    intro g
    simp [widthBeside, hlow, hreturn, halone]
  unfold widthStep
  split
  · rw [hselect]
    exact hbeside f.unselect
  · exact hbeside f

/-- What stands to the left of two texts with the same first neighbour adds the same to both. -/
theorem measure_append_le {s t : Text} (hcolumns : (measure s).1 ≤ (measure t).1)
    (hnext : (measure s).2 = (measure t).2) (u : Text) :
    (measure (u ++ s)).1 ≤ (measure (u ++ t)).1 ∧ (measure (u ++ s)).2 = (measure (u ++ t)).2 := by
  induction u with
  | nil => exact ⟨hcolumns, hnext⟩
  | cons c u ih =>
    obtain ⟨hle, heq⟩ := ih
    simp only [List.cons_append, measure, heq]
    exact ⟨by omega, trivial⟩

theorem width_append_quote_le {q : Char} (hq : q = '"' ∨ q = '\'') (u v : Text) :
    width (u ++ q :: v) ≤ width (u ++ q :: ' ' :: v) := by
  have hstep : ∀ f, widthStep q f = (1, Following.none) := by
    rcases hq with rfl | rfl
    · exact widthStep_eq (by decide) (by decide) (by decide) (by decide)
    · exact widthStep_eq (by decide) (by decide) (by decide) (by decide)
  have hspace : ∀ f, widthStep ' ' f = (1, Following.none) :=
    widthStep_eq (by decide) (by decide) (by decide) (by decide)
  have hcolumns : (measure (q :: v)).1 ≤ (measure (q :: ' ' :: v)).1 := by
    simp only [measure, hstep, hspace]
    omega
  have hnext : (measure (q :: v)).2 = (measure (q :: ' ' :: v)).2 := by simp only [measure, hstep]
  have hle := (measure_append_le hcolumns hnext u).1
  unfold width
  omega

/-- The character takes one column and is not drawn together with what follows it. -/
def StandsAlone (c : Char) : Prop := ∀ f, widthStep c f = (1, Following.none)

theorem standsAlone_space : StandsAlone ' ' :=
  widthStep_eq (by decide) (by decide) (by decide) (by decide)

theorem standsAlone_greater : StandsAlone '>' :=
  widthStep_eq (by decide) (by decide) (by decide) (by decide)

theorem measure_cons_of_standsAlone {c : Char} (hc : StandsAlone c) (v : Text) :
    measure (c :: v) = ((measure v).1 + 1, Following.none) := by
  rw [measure]
  dsimp only
  rw [hc]

/-- A text that shows nothing to its left is drawn apart from what stands there. -/
theorem measure_append {t : Text} (ht : (measure t).2 = Following.none) (u : Text) :
    measure (u ++ t) = ((measure t).1 + (measure u).1, (measure u).2) := by
  induction u with
  | nil => simp [measure, ← ht]
  | cons c u ih =>
    simp only [List.cons_append, measure, ih]
    rw [Int.add_assoc]

theorem measure_append_cons {c : Char} (hc : StandsAlone c) (u v : Text) :
    (measure (u ++ c :: v)).1 = (measure v).1 + 1 + (measure u).1 := by
  have hcons := measure_cons_of_standsAlone hc v
  rw [measure_append (by rw [hcons]), hcons]

theorem width_append_cons_le {c : Char} (hc : StandsAlone c) (u v : Text) :
    width (u ++ c :: v) ≤ width u + 1 + width v := by
  have hcut := measure_append_cons hc u v
  unfold width
  omega

theorem width_concat_append_le {c : Char} (hc : StandsAlone c) (u v : Text) :
    width (u ++ [c] ++ v) ≤ width (u ++ [c]) + width v := by
  have hwhole := measure_append_cons hc u v
  have hfirst := measure_append_cons hc u []
  have hnil : (measure []).1 = 0 := rfl
  unfold width
  rw [List.append_assoc, List.singleton_append]
  omega

theorem width_spaces_append_le (n : Nat) (v : Text) :
    width (List.replicate n ' ' ++ v) ≤ n + width v := by
  induction n with
  | zero => simp
  | succ n ih =>
    have hspace := width_append_cons_le standsAlone_space [] (List.replicate n ' ' ++ v)
    have hnil : width [] = 0 := rfl
    rw [List.nil_append, hnil] at hspace
    rw [List.replicate_succ, List.cons_append]
    omega

/-- The character takes one column unless a selector follows it. -/
def IsColumn (c : Char) : Prop := c.toNat ≤ 0xA0 ∧ c ≠ '\n' ∧ c ≠ '\r'

theorem measure_of_isColumn {s : Text} (h : ∀ c ∈ s, IsColumn c) :
    measure s = ((s.length : Int), Following.none) := by
  induction s with
  | nil => rfl
  | cons c s ih =>
    obtain ⟨hlow, hfeed, hreturn⟩ := h c List.mem_cons_self
    have hstep : widthStep c Following.none = (1, Following.none) := by
      have halone : alone c = (1, Following.none) := by simp [alone, hfeed, hlow]
      simp [widthStep, Following.none, widthBeside, hlow, hreturn, halone]
    rw [measure, ih fun d hd => h d (List.mem_cons_of_mem c hd)]
    simp only [hstep]
    rfl

theorem width_append_le_of_isColumn (u : Text) {t : Text} (ht : ∀ c ∈ t, IsColumn c) :
    width (u ++ t) ≤ width u + t.length := by
  have hmeasure := measure_of_isColumn ht
  have happend := measure_append (by rw [hmeasure]) u
  unfold width
  rw [happend, hmeasure]
  dsimp only
  omega

end ErbLayout.Text
