import ErbLayout.Proofs.Layout.Packing
import ErbLayout.Proofs.Text.Pieces
import Mathlib.Order.Bounds.Defs

/-!
Packing is greedy, and greedy packing takes the fewest lines. The first of some greedy lines holds
as many words as any start of the words that fits it. So there is one way only to put words on
greedy lines, which is how they are packed; and line by line, greedy lines are never behind other
lines that fit and hold the same words, so they are no more than these.
-/

namespace ErbLayout.Layout

open Text

variable {measure : Text → Nat} {firstWidth width tail : Nat}

theorem columns_le_append_left (measure : Text → Nat) (us vs : List Text) :
    columns measure us ≤ columns measure (us ++ vs) := by
  simp only [columns, List.map_append, List.sum_append, List.length_append]
  omega

theorem columns_le_append_right (measure : Text → Nat) (us vs : List Text) :
    columns measure vs ≤ columns measure (us ++ vs) := by
  simp only [columns, List.map_append, List.sum_append, List.length_append]
  omega

/-- The last words of a line that fits fit it as well. -/
theorem FitsLine.of_append {room taken : Nat} {us vs : List Text}
    (h : FitsLine measure room taken (us ++ vs)) (hvs : vs ≠ []) :
    FitsLine measure room taken vs := by
  have hcolumns := columns_le_append_right measure us vs
  have hlength : 0 < vs.length := List.length_pos_iff.mpr hvs
  rcases h with hone | hfits
  · rw [List.length_append] at hone
    exact Or.inl (by omega)
  · exact Or.inr (by omega)

namespace IsGreedy

variable {group : List Text} {groups : List (List Text)}

theorem of_cons (h : IsGreedy measure firstWidth width tail (group :: groups)) :
    IsGreedy measure width width tail groups where
  ne_nil g hg := h.ne_nil g (List.mem_cons_of_mem group hg)
  fits := (fitLines_cons_iff.mp h.fits).2
  tight earlier g word next later hsplit := by
    have htight := h.tight (group :: earlier) g word next later (by rw [hsplit]; rfl)
    rwa [ite_self]

/-- The first line has room for no more words than it holds. -/
theorem length_le_of_fitsLine (h : IsGreedy measure firstWidth width tail (group :: groups))
    {us rest : List Text} (hwords : us ++ rest = group ++ groups.flatten)
    (hfits : FitsLine measure firstWidth (if rest.isEmpty then tail else 0) us) :
    us.length ≤ group.length := by
  refine Nat.le_of_not_lt fun hlonger => ?_
  have hgroup : 0 < group.length := List.length_pos_iff.mpr (h.ne_nil group List.mem_cons_self)
  rcases List.append_eq_append_iff.mp hwords with ⟨more, hmore, -⟩ | ⟨more, rfl, hrest⟩
  · rw [hmore, List.length_append] at hlonger
    omega
  · -- the line would hold the first word of the next line too
    cases more with
    | nil => simp at hlonger
    | cons word more =>
      cases groups with
      | nil => simp at hrest
      | cons first later =>
        obtain ⟨w, next, rfl⟩ := List.exists_cons_of_ne_nil (h.ne_nil first (by simp))
        obtain ⟨rfl, hnext⟩ : w = word ∧ next ++ later.flatten = more ++ rest := by
          simpa using hrest
        have htight := h.tight [] group w next later rfl
        have hcolumns := columns_le_append_left measure (group ++ [w]) more
        have htaken : (if next.isEmpty && later.isEmpty then tail else 0) ≤
            if rest.isEmpty then tail else 0 := by
          split
          next hlast =>
            obtain ⟨hnil, hnone⟩ : next = [] ∧ later = [] := by simpa using hlast
            obtain ⟨-, rfl⟩ : more = [] ∧ rest = [] := by simpa [hnil, hnone] using hnext
            exact Nat.le_refl _
          next => exact Nat.zero_le _
        rcases hfits with hone | hfits
        · rw [List.length_append, List.length_cons] at hone
          omega
        · rw [List.append_assoc, List.singleton_append] at hcolumns
          simp only [List.isEmpty_nil, if_true] at htight
          omega

theorem length_head_le {others : List (List Text)} {other : List Text}
    (h : IsGreedy measure firstWidth width tail (group :: groups))
    (h' : IsGreedy measure firstWidth width tail (other :: others))
    (hwords : group ++ groups.flatten = other ++ others.flatten) : other.length ≤ group.length := by
  have hfits := (fitLines_cons_iff.mp h'.fits).1
  rw [← isEmpty_flatten h'.of_cons.ne_nil] at hfits
  exact h.length_le_of_fitsLine hwords.symm hfits

/-- There is one way only to put words on greedy lines. -/
theorem eq_of_flatten_eq {others : List (List Text)}
    (h : IsGreedy measure firstWidth width tail groups)
    (h' : IsGreedy measure firstWidth width tail others)
    (hwords : groups.flatten = others.flatten) :
    groups = others := by
  induction groups generalizing firstWidth others with
  | nil =>
    cases others with
    | nil => rfl
    | cons other others => exact absurd hwords.symm (by simp [h'.ne_nil other List.mem_cons_self])
  | cons group groups ih =>
    cases others with
    | nil => exact absurd hwords (by simp [h.ne_nil group List.mem_cons_self])
    | cons other others =>
      rw [List.flatten_cons, List.flatten_cons] at hwords
      have hlength := Nat.le_antisymm (h'.length_head_le h hwords.symm) (h.length_head_le h' hwords)
      obtain ⟨rfl, hrest⟩ := List.append_inj hwords hlength
      rw [ih h.of_cons h'.of_cons hrest]

/-- Lines that fit and hold the words of the greedy lines, and words before them, are no fewer. -/
theorem length_le {others : List (List Text)} {us : List Text}
    (h : IsGreedy measure firstWidth width tail groups) (hne : ∀ g ∈ others, g ≠ [])
    (hfits : FitLines measure firstWidth width tail others)
    (hwords : others.flatten = us ++ groups.flatten) : groups.length ≤ others.length := by
  -- the words `us` are those on the greedy lines so far that the other lines still have to hold
  induction others generalizing firstWidth groups us with
  | nil =>
    cases groups with
    | nil => exact Nat.le_refl 0
    | cons group groups => exact absurd hwords.symm (by simp [h.ne_nil group List.mem_cons_self])
  | cons other others ih =>
    cases groups with
    | nil => exact Nat.zero_le _
    | cons group groups =>
      have hne' : ∀ g ∈ others, g ≠ [] := fun g hg => hne g (List.mem_cons_of_mem other hg)
      obtain ⟨hother, hothers⟩ := fitLines_cons_iff.mp hfits
      rw [← isEmpty_flatten hne'] at hother
      rw [List.flatten_cons, List.flatten_cons, ← List.append_assoc] at hwords
      obtain ⟨behind, hbehind⟩ : ∃ behind, others.flatten = behind ++ groups.flatten := by
        rcases List.append_eq_append_iff.mp hwords with ⟨behind, -, hbehind⟩ | ⟨more, rfl, hmore⟩
        · exact ⟨behind, hbehind⟩
        · -- the other line ends later than the greedy one, so it does not fit with more words
          have hgroup : group ++ more ≠ [] := by simp [h.ne_nil group List.mem_cons_self]
          rw [List.append_assoc] at hother
          have hlength := h.length_le_of_fitsLine (by rw [List.append_assoc, hmore])
            (hother.of_append hgroup)
          rw [List.length_append] at hlength
          obtain rfl : more = [] := List.length_eq_zero_iff.mp (by omega)
          exact ⟨[], hmore.symm⟩
      exact Nat.succ_le_succ (ih h.of_cons hne' hothers hbehind)

end IsGreedy

/-- The lines hold the words, which stand between their spaces. They fit, and each but the last
would be too long with the first word of the next one. -/
structure GreedyLines (measure : Text → Nat) (firstWidth width tail : Nat) (ws lines : List Text) :
    Prop where
  words : lines.flatMap (splitAt (· == ' ')) = ws
  fits : FitLines measure firstWidth width tail (lines.map (splitAt (· == ' ')))
  tight : TightLines measure firstWidth width tail (lines.map (splitAt (· == ' ')))

/-- Words without spaces are packed onto greedy lines, and no other lines are greedy for them. -/
theorem greedyLines_iff_eq_pack (measure : Text → Nat) (firstWidth width tail : Nat)
    (ws : List Text) (hws : ∀ w ∈ ws, w ≠ [] ∧ ' ' ∉ w) (lines : List Text) :
    GreedyLines measure firstWidth width tail ws lines ↔
      lines = pack measure firstWidth width tail ws := by
  obtain ⟨groups, hpack, hflat, hgreedy⟩ :=
    exists_isGreedy_pack measure firstWidth width tail fun w hw => (hws w hw).1
  rw [hpack]
  constructor
  · rintro ⟨hwords, hfits, htight⟩
    have hlines : IsGreedy measure firstWidth width tail (lines.map (splitAt (· == ' '))) := by
      refine ⟨?_, hfits, htight⟩
      intro g hg
      obtain ⟨line, -, rfl⟩ := List.mem_map.mp hg
      exact splitAt_ne_nil ' ' line
    have hsame := hlines.eq_of_flatten_eq hgreedy (by rw [hflat, ← List.flatMap_def, hwords])
    rw [← hsame, List.map_map]
    exact (List.map_id'' (join_splitAt ' ') lines).symm
  · rintro rfl
    have hgroups : (groups.map (join [' '])).map (splitAt (· == ' ')) = groups := by
      rw [List.map_map]
      refine (List.map_congr_left fun g hg => ?_).trans (List.map_id groups)
      apply splitAt_join (hgreedy.ne_nil g hg)
      intro w hw
      exact (hws w (hflat ▸ List.mem_flatten.mpr ⟨g, hg, hw⟩)).2
    exact ⟨by rw [List.flatMap_def, hgroups, hflat], hgroups.symm ▸ hgreedy.fits,
      hgroups.symm ▸ hgreedy.tight⟩

/-- A word too long for any line stands alone, and the tail puts the last word on a line of its
own. -/
theorem greedyLines_iff_eq_pack_oversized :
    (∀ w ∈ ["a", "bb", "ccc", "incomprehensible", "dd", "ee"].map String.toList, w ≠ [] ∧ ' ' ∉ w) ∧
      GreedyLines List.length 4 8 4 (["a", "bb", "ccc", "incomprehensible", "dd", "ee"].map
        String.toList) (["a bb", "ccc", "incomprehensible", "dd", "ee"].map String.toList) := by
  have hws : ∀ w ∈ ["a", "bb", "ccc", "incomprehensible", "dd", "ee"].map String.toList, w ≠ [] ∧
      ' ' ∉ w := by
    decide
  exact ⟨hws, (greedyLines_iff_eq_pack List.length 4 8 4 _ hws _).mpr (by decide +kernel)⟩

/-- The groups are the words one after the other, none is empty, and each fits its line or is one
word. -/
structure IsParting (measure : Text → Nat) (firstWidth width tail : Nat) (ws : List Text)
    (groups : List (List Text)) : Prop where
  words : groups.flatten = ws
  ne_nil : ∀ g ∈ groups, g ≠ []
  fits : FitLines measure firstWidth width tail groups

/-- Words are packed onto as many lines as the fewest groups have that they can be parted into. -/
theorem isLeast_length_pack (measure : Text → Nat) (firstWidth width tail : Nat) (ws : List Text)
    (hws : ∀ w ∈ ws, w ≠ []) :
    IsLeast {n | ∃ groups, IsParting measure firstWidth width tail ws groups ∧ groups.length = n}
      (pack measure firstWidth width tail ws).length := by
  obtain ⟨groups, hpack, hflat, hgreedy⟩ := exists_isGreedy_pack measure firstWidth width tail hws
  rw [hpack, List.length_map]
  refine ⟨⟨groups, ⟨hflat, hgreedy.ne_nil, hgreedy.fits⟩, rfl⟩, ?_⟩
  rintro n ⟨others, hothers, rfl⟩
  have hwords : others.flatten = [] ++ groups.flatten := by
    rw [hothers.words, hflat, List.nil_append]
  exact hgreedy.length_le hothers.ne_nil hothers.fits hwords

theorem isLeast_length_pack_oversized :
    (∀ w ∈ ["a", "bb", "ccc", "incomprehensible", "dd", "ee"].map String.toList, w ≠ []) ∧
      IsLeast {n | ∃ groups, IsParting List.length 4 8 4
        (["a", "bb", "ccc", "incomprehensible", "dd", "ee"].map String.toList) groups ∧
          groups.length = n} 5 := by
  have hws : ∀ w ∈ ["a", "bb", "ccc", "incomprehensible", "dd", "ee"].map String.toList,
    w ≠ [] := by decide
  have hlength : (pack List.length 4 8 4
      (["a", "bb", "ccc", "incomprehensible", "dd", "ee"].map String.toList)).length = 5 := by
      decide +kernel
  refine ⟨hws, ?_⟩
  rw [← hlength]
  exact isLeast_length_pack List.length 4 8 4 _ hws

end ErbLayout.Layout
