import ErbLayout.Layout.Packing
import ErbLayout.Proofs.Text.Squeeze
import Mathlib.Algebra.GroupWithZero.Nat

/-!
Packed lines. However words are packed, each line is some of the words with a space between
neighbours, no line is empty, and the words of the lines one after the other are the words. While
they are packed, the columns taken on the current line are those of the words on it and of the
spaces between them, and with the last word those of the tail as well; a word goes on a line with
other words when there is room for it, and else on a new line. So a line is too long for its room
only if it holds one word, and no line has room for the first word of the next.
-/

namespace ErbLayout.Layout

open Text

theorem join_concat (sep w : Text) {ws : List Text} (h : ws ≠ []) :
    join sep (ws ++ [w]) = join sep ws ++ sep ++ w := by
  induction ws with
  | nil => exact absurd rfl h
  | cons v ws ih =>
    by_cases hws : ws = []
    · subst hws
      rfl
    · rw [List.cons_append, join_cons_of_ne_nil _ _ (List.append_ne_nil_of_left_ne_nil hws [w]),
        join_cons_of_ne_nil _ _ hws, ih hws]
      simp

theorem mem_join {sep : Text} {ws : List Text} {c : Char} (h : c ∈ join sep ws) :
    c ∈ sep ∨ ∃ w ∈ ws, c ∈ w := by
  induction ws with
  | nil => exact absurd h List.not_mem_nil
  | cons v ws ih =>
    by_cases hws : ws = []
    · subst hws
      exact Or.inr ⟨v, List.mem_cons_self, h⟩
    · rw [join_cons_of_ne_nil _ _ hws, List.append_assoc] at h
      rcases List.mem_append.mp h with h | h
      · exact Or.inr ⟨v, List.mem_cons_self, h⟩
      · rcases List.mem_append.mp h with h | h
        · exact Or.inl h
        · rcases ih h with h | ⟨w, hw, h⟩
          · exact Or.inl h
          · exact Or.inr ⟨w, List.mem_cons_of_mem v hw, h⟩

theorem lineFeed_notMem_of_notBlank {w : Text} (hw : ∀ c ∈ w, isBlank c = false) : '\n' ∉ w :=
  fun hmem =>
  absurd (hw '\n' hmem) (by decide)

theorem lineFeed_notMem_join {ws : List Text} (hws : ∀ w ∈ ws, ∀ c ∈ w, isBlank c = false) :
    '\n' ∉ join [' '] ws := by
  intro hmem
  rcases mem_join hmem with hmem | ⟨w, hw, hmem⟩
  · simp at hmem
  · exact lineFeed_notMem_of_notBlank (hws w hw) hmem

theorem isEmpty_join_iff {sep : Text} {ws : List Text} (h : ∀ w ∈ ws, w ≠ []) :
    (join sep ws).isEmpty ↔ ws = [] := by
  cases ws with
  | nil => simp [join]
  | cons w ws =>
    obtain ⟨c, w, rfl⟩ := List.exists_cons_of_ne_nil (h w List.mem_cons_self)
    simp [join_cons_cons]

theorem isEmpty_flatten {groups : List (List Text)} (h : ∀ g ∈ groups, g ≠ []) :
    groups.flatten.isEmpty = groups.isEmpty := by
  cases groups with
  | nil => rfl
  | cons g groups => simp [h g List.mem_cons_self]

def columns (measure : Text → Nat) (ws : List Text) : Nat := (ws.map measure).sum + (ws.length - 1)

theorem columns_singleton (measure : Text → Nat) (w : Text) : columns measure [w] = measure w := by
  simp [columns]

theorem columns_concat (measure : Text → Nat) {ws : List Text} (h : ws ≠ []) (w : Text) :
    columns measure (ws ++ [w]) = columns measure ws + 1 + measure w := by
  have hlength : 0 < ws.length := List.length_pos_iff.mpr h
  simp only [columns, List.map_append, List.sum_append, List.map_cons, List.map_nil, List.sum_cons,
    List.sum_nil, List.length_append, List.length_cons, List.length_nil]
  omega

theorem columns_cons (measure : Text → Nat) (w : Text) {ws : List Text} (h : ws ≠ []) :
    columns measure (w :: ws) = measure w + 1 + columns measure ws := by
  have hlength : 0 < ws.length := List.length_pos_iff.mpr h
  simp only [columns, List.map_cons, List.sum_cons, List.length_cons]
  omega

/-- Joined words have as many characters as they take columns when each character takes one. -/
theorem length_join (ws : List Text) : (join [' '] ws).length = columns List.length ws := by
  induction ws with
  | nil => rfl
  | cons w ws ih =>
    by_cases hws : ws = []
    · subst hws
      simp [join, columns]
    · rw [join_cons_of_ne_nil _ _ hws, columns_cons _ _ hws, ← ih]
      simp only [List.length_append, List.length_cons, List.length_nil]

/-- The words fit the room on a line with so many columns taken by what follows, or they are one
word. -/
def FitsLine (measure : Text → Nat) (room taken : Nat) (ws : List Text) : Prop :=
  ws.length = 1 ∨ columns measure ws + taken ≤ room

instance (measure : Text → Nat) (room taken : Nat) (ws : List Text) :
    Decidable (FitsLine measure room taken ws) :=
  inferInstanceAs (Decidable (_ ∨ _))

/-- Every group fits its line: the first has room for `firstWidth` columns and the others for
`width`, and the last takes `tail` columns more. -/
def FitLines (measure : Text → Nat) (firstWidth width tail : Nat) (groups : List (List Text)) :
    Prop :=
  ∀ earlier group later, groups = earlier ++ group :: later →
    FitsLine measure (if earlier.isEmpty then firstWidth else width)
    (if later.isEmpty then tail else 0) group

theorem fitLines_nil (measure : Text → Nat) (firstWidth width tail : Nat) :
    FitLines measure firstWidth width tail [] := by
  intro earlier group later h
  simp at h

theorem fitLines_cons_iff {measure : Text → Nat} {firstWidth width tail : Nat} {group : List Text}
    {groups : List (List Text)} :
    FitLines measure firstWidth width tail (group :: groups) ↔
      FitsLine measure firstWidth (if groups.isEmpty then tail else 0) group ∧
        FitLines measure width width tail groups := by
  constructor
  · intro h
    refine ⟨h [] group groups rfl, ?_⟩
    intro earlier g later hsplit
    have hlater := h (group :: earlier) g later (by rw [hsplit]; rfl)
    rwa [ite_self]
  · rintro ⟨hgroup, hgroups⟩ earlier g later h
    cases earlier with
    | nil =>
      obtain ⟨rfl, rfl⟩ := List.cons.inj h
      exact hgroup
    | cons x earlier =>
      have hlater := hgroups earlier g later (List.cons.inj h).2
      rw [ite_self] at hlater
      exact hlater

theorem FitLines.of_mem {measure : Text → Nat} {width : Nat} {groups : List (List Text)}
    (h : FitLines measure width width 0 groups) {group : List Text} (hgroup : group ∈ groups) :
    FitsLine measure width 0 group := by
  obtain ⟨earlier, later, hsplit⟩ := List.append_of_mem hgroup
  have hfits := h earlier group later hsplit
  rwa [ite_self, ite_self] at hfits

/-- Every line but the last would be too long for its room with the first word of the next line,
which takes `tail` columns more if it is the last word. -/
def TightLines (measure : Text → Nat) (firstWidth width tail : Nat) (groups : List (List Text)) :
    Prop :=
  ∀ earlier group word next later, groups = earlier ++ group :: (word :: next) :: later →
    (if earlier.isEmpty then firstWidth else width) <
      columns measure (group ++ [word]) + if next.isEmpty && later.isEmpty then tail else 0

theorem tightLines_of_length_le {measure : Text → Nat} {firstWidth width tail : Nat}
    {groups : List (List Text)} (h : groups.length ≤ 1) :
    TightLines measure firstWidth width tail groups := by
  rintro earlier group word next later rfl
  simp only [List.length_append, List.length_cons] at h
  omega

theorem TightLines.cons {measure : Text → Nat} {firstWidth width tail : Nat}
    {group next : List Text} {word : Text} {later : List (List Text)}
    (hword : firstWidth < columns measure (group ++ [word]) + if next.isEmpty && later.isEmpty
      then tail else 0) (hlater : TightLines measure width width tail ((word :: next) :: later)) :
    TightLines measure firstWidth width tail (group :: (word :: next) :: later) := by
  intro earlier g w n l h
  cases earlier with
  | nil =>
    obtain ⟨rfl, hrest⟩ := List.cons.inj h
    obtain ⟨hfirst, rfl⟩ := List.cons.inj hrest
    obtain ⟨rfl, rfl⟩ := List.cons.inj hfirst
    exact hword
  | cons x earlier =>
    have htight := hlater earlier g w n l (List.cons.inj h).2
    rw [ite_self] at htight
    exact htight

/-- Words on lines that fit and that have no room for the next word. -/
structure IsGreedy (measure : Text → Nat) (firstWidth width tail : Nat)
    (groups : List (List Text)) : Prop where
  ne_nil : ∀ g ∈ groups, g ≠ []
  fits : FitLines measure firstWidth width tail groups
  tight : TightLines measure firstWidth width tail groups

theorem isGreedy_nil (measure : Text → Nat) (firstWidth width tail : Nat) :
    IsGreedy measure firstWidth width tail [] where
  ne_nil := by simp
  fits := fitLines_nil _ _ _ _
  tight := tightLines_of_length_le (Nat.zero_le 1)

theorem isGreedy_singleton {measure : Text → Nat} {firstWidth width tail : Nat} {group : List Text}
    (hne : group ≠ []) (hfits : FitsLine measure firstWidth tail group) :
    IsGreedy measure firstWidth width tail [group] where
  ne_nil := by simpa using hne
  fits := fitLines_cons_iff.mpr ⟨hfits, fitLines_nil _ _ _ _⟩
  tight := tightLines_of_length_le (Nat.le_refl 1)

/-- A line that fits and has no room for the next word goes before the lines that begin with that
word. -/
theorem IsGreedy.cons {measure : Text → Nat} {firstWidth width tail : Nat} {group : List Text}
    {word : Text} {ws : List Text} {groups : List (List Text)}
    (h : IsGreedy measure width width tail groups) (hflat : groups.flatten = word :: ws)
    (hne : group ≠ []) (hfits : FitsLine measure firstWidth 0 group)
    (hword : firstWidth < columns measure (group ++ [word]) + if ws.isEmpty then tail else 0) :
    IsGreedy measure firstWidth width tail (group :: groups) := by
  cases groups with
  | nil => simp at hflat
  | cons first later =>
    obtain ⟨w, next, rfl⟩ := List.exists_cons_of_ne_nil (h.ne_nil first List.mem_cons_self)
    obtain ⟨rfl, rfl⟩ : w = word ∧ next ++ later.flatten = ws := by simpa using hflat
    have hlast : (next ++ later.flatten).isEmpty = (next.isEmpty && later.isEmpty) := by
      rw [← isEmpty_flatten fun g hg => h.ne_nil g (List.mem_cons_of_mem _ hg)]
      cases next <;> rfl
    refine ⟨?_, fitLines_cons_iff.mpr ⟨hfits, h.fits⟩, h.tight.cons ?_⟩
    · intro g hg
      rcases List.mem_cons.mp hg with rfl | hg
      · exact hne
      · exact h.ne_nil g hg
    · rwa [hlast] at hword

/-- The lines to come hold the words on the current line, then the words that are left, and they are
greedy if the current line fits so far. -/
theorem exists_isGreedy_packFrom (measure : Text → Nat) (width tail room used : Nat)
    {group ws : List Text} (hgroup : ∀ w ∈ group, w ≠ []) (hws : ∀ w ∈ ws, w ≠ [])
    (hused : group ≠ [] → used = columns measure group + if ws.isEmpty then tail else 0)
    (hfits : group ≠ [] → group.length = 1 ∨ used ≤ room) :
    ∃ groups : List (List Text), packFrom measure width tail room (join [' '] group) used ws =
      groups.map (join [' ']) ∧
      groups.flatten = group ++ ws ∧ IsGreedy measure room width tail groups := by
  induction ws generalizing room used group with
  | nil =>
    unfold packFrom
    simp only [isEmpty_join_iff hgroup]
    split
    next hnil => exact ⟨[], rfl, by simp [hnil], isGreedy_nil _ _ _ _⟩
    next hne =>
      have hfits := hfits hne
      rw [hused hne] at hfits
      exact ⟨[group], rfl, by simp, isGreedy_singleton hne hfits⟩
  | cons word ws ih =>
    have hword : ∀ w ∈ [word], w ≠ [] := by simpa using hws word List.mem_cons_self
    have hrest : ∀ w ∈ ws, w ≠ [] := fun w hw => hws w (List.mem_cons_of_mem word hw)
    unfold packFrom
    dsimp only
    generalize htaken : (if ws.isEmpty then tail else 0) = taken at ih
    have hcolumns : ([word] : List Text) ≠ [] →
        measure word + taken = columns measure [word] + taken :=
      fun _ => by rw [columns_singleton]
    simp only [isEmpty_join_iff hgroup]
    split
    next hnil =>
      obtain ⟨groups, hpack, hflat, hgreedy⟩ := ih room _ hword hrest hcolumns fun _ => Or.inl rfl
      exact ⟨groups, hpack, by simp [hflat, hnil], hgreedy⟩
    next hgroup' =>
      have hfits := hfits hgroup'
      have hused := hused hgroup'
      rw [List.isEmpty_cons, if_neg Bool.false_ne_true, Nat.add_zero] at hused
      have hlonger : used + 1 + (measure word + taken) = columns measure (group ++ [word]) +
          taken := by
        rw [columns_concat _ hgroup', hused]
        omega
      split
      next hroom =>
        have hwords : ∀ w ∈ group ++ [word], w ≠ [] := by
          intro w hw
          exact (List.mem_append.mp hw).elim (hgroup w) (hword w)
        have hjoin : join [' '] (group ++ [word]) = join [' '] group ++ ' ' :: word := by
          rw [join_concat _ _ hgroup']
          simp
        obtain ⟨groups, hpack, hflat, hgreedy⟩ := ih room _ hwords hrest (fun _ => hlonger) fun _ =>
          Or.inr hroom
        exact ⟨groups, by rw [← hjoin, hpack], by simp [hflat], hgreedy⟩
      next hroom =>
        obtain ⟨groups, hpack, hflat, hgreedy⟩ := ih width _ hword hrest hcolumns fun _ =>
          Or.inl rfl
        rw [hlonger, Nat.not_le, ← htaken] at hroom
        rw [hused] at hfits
        refine ⟨group :: groups, ?_, by simp [hflat], hgreedy.cons hflat hgroup' hfits hroom⟩
        rw [List.map_cons, ← hpack]
        rfl

/-- Words are packed onto lines greedily. -/
theorem exists_isGreedy_pack (measure : Text → Nat) (firstWidth width tail : Nat) {ws : List Text}
    (hws : ∀ w ∈ ws, w ≠ []) :
    ∃ groups : List (List Text), pack measure firstWidth width tail ws = groups.map (join [' ']) ∧
      groups.flatten = ws ∧ IsGreedy measure firstWidth width tail groups := by
  have hnone : ∀ w ∈ ([] : List Text), w ≠ [] := by simp
  exact exists_isGreedy_packFrom measure width tail firstWidth 0 hnone hws (fun h => absurd rfl h)
    (fun h => absurd rfl h)

theorem exists_fitLines_pack (measure : Text → Nat) (firstWidth width tail : Nat) {ws : List Text}
    (hws : ∀ w ∈ ws, w ≠ []) :
    ∃ groups : List (List Text), pack measure firstWidth width tail ws = groups.map (join [' ']) ∧
      groups.flatten = ws ∧ (∀ g ∈ groups, g ≠ []) ∧
        FitLines measure firstWidth width tail groups := by
  obtain ⟨groups, hpack, hflat, hgreedy⟩ := exists_isGreedy_pack measure firstWidth width tail hws
  exact ⟨groups, hpack, hflat, hgreedy.ne_nil, hgreedy.fits⟩

theorem exists_groups_pack (measure : Text → Nat) (firstWidth width tail : Nat) {ws : List Text}
    (hws : ∀ w ∈ ws, w ≠ []) :
    ∃ groups : List (List Text), pack measure firstWidth width tail ws = groups.map (join [' ']) ∧
      groups.flatten = ws ∧ ∀ g ∈ groups, g ≠ [] := by
  obtain ⟨groups, hpack, hflat, hne, -⟩ := exists_fitLines_pack measure firstWidth width tail hws
  exact ⟨groups, hpack, hflat, hne⟩

/-- A packed line holds characters of the words and spaces. -/
theorem mem_of_mem_pack {measure : Text → Nat} {firstWidth width tail : Nat} {ws : List Text}
    (hws : ∀ w ∈ ws, w ≠ []) {line : Text} (hline : line ∈ pack measure firstWidth width tail ws)
    {c : Char} (hc : c ∈ line) : c = ' ' ∨ ∃ w ∈ ws, c ∈ w := by
  obtain ⟨groups, hpack, hflat, -⟩ := exists_groups_pack measure firstWidth width tail hws
  rw [hpack] at hline
  obtain ⟨group, hgroup, rfl⟩ := List.mem_map.mp hline
  rcases mem_join hc with hc | ⟨w, hw, hc⟩
  · exact Or.inl (by simpa using hc)
  · refine Or.inr ⟨w, ?_, hc⟩
    rw [← hflat]
    exact List.mem_flatten.mpr ⟨group, hgroup, hw⟩

end ErbLayout.Layout
