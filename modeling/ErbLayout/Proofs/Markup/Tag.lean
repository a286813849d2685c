import ErbLayout.Proofs.Markup.AttributeList

/-!
Reading a tag does not look past its end. The characters up to the `>` that ends it settle the
names, the blanks and the values inside it, so the recogniser of tags is local: a tag is read the
same whatever follows it.
-/

namespace ErbLayout.Markup

open Text

def Tag.IsRead : Tag → Prop
  | .opening name _ gap _ => isTagName name ∧ ∀ c ∈ gap, isBlank c
  | .closing lead name trail => (∀ c ∈ lead, isBlank c) ∧ isTagName name ∧ ∀ c ∈ trail, isBlank c

theorem isTagName_iff {name : Text} : isTagName name ↔ name ≠ [] ∧ ∀ c ∈ name, isTagNameChar c := by
  simp [isTagName]

theorem range_of_isTagNameChar {c : Char} (h : isTagNameChar c) : '!' ≤ c ∧ c ≤ '~' := by
  simp only [isTagNameChar, Bool.or_eq_true, Bool.and_eq_true, decide_eq_true_eq, beq_iff_eq] at h
  rcases h with (((h | h) | rfl) | rfl) | rfl
  · exact ⟨Char.le_trans (by decide) h.1, Char.le_trans h.2 (by decide)⟩
  · exact ⟨Char.le_trans (by decide) h.1, Char.le_trans h.2 (by decide)⟩
  all_goals decide

theorem isBlank_eq_false_of_isTagNameChar {c : Char} (h : isTagNameChar c) : isBlank c = false :=
  isBlank_eq_false_of_visible (range_of_isTagNameChar h).1 (range_of_isTagNameChar h).2

theorem isTagNameChar_eq_false_of_isBlank {c : Char} (h : isBlank c) : isTagNameChar c = false := by
  by_contra hname
  rw [isBlank_eq_false_of_isTagNameChar (by simpa using hname)] at h
  simp at h

theorem closingTag?_append_eq {lead name trail : Text} (h : (Tag.closing lead name trail).IsRead)
    (r : Text) :
    closingTag? (lead ++ (name ++ (trail ++ '>' :: r))) = some (.closing lead name trail, r) := by
  obtain ⟨hlead, hname, htrail⟩ := h
  obtain ⟨hne, hchars⟩ := isTagName_iff.mp hname
  have h₁ : spanOf isBlank (lead ++ (name ++ (trail ++ '>' :: r))) =
      (lead, name ++ (trail ++ '>' :: r)) := by
    apply spanOf_append_eq hlead
    cases name with
    | nil => exact absurd rfl hne
    | cons d name =>
      intro c hc
      obtain rfl : d = c := by simpa using hc
      exact isBlank_eq_false_of_isTagNameChar (hchars d (List.mem_cons_self ..))
  have h₂ : spanOf isTagNameChar (name ++ (trail ++ '>' :: r)) = (name, trail ++ '>' :: r) := by
    apply spanOf_append_eq hchars
    cases trail with
    | nil =>
      intro c hc
      obtain rfl : '>' = c := by simpa using hc
      decide
    | cons d trail =>
      intro c hc
      obtain rfl : d = c := by simpa using hc
      exact isTagNameChar_eq_false_of_isBlank (htrail d (List.mem_cons_self ..))
  have h₃ : spanOf isBlank (trail ++ '>' :: r) = (trail, '>' :: r) := by
    apply spanOf_append_eq htrail
    intro c hc
    obtain rfl : '>' = c := by simpa using hc
    decide
  simp [closingTag?, h₁, h₂, h₃, hne]

theorem closingTag?_eq_some_isRead {s r : Text} {t : Tag} (h : closingTag? s = some (t, r)) :
    ∃ lead name trail, t = .closing lead name trail ∧ t.IsRead := by
  unfold closingTag? at h
  simp only at h
  split at h
  · simp at h
  next hne =>
    split at h
    next rest heq =>
      obtain ⟨rfl, -⟩ := by simpa using h
      refine ⟨_, _, _, rfl, fun c hc => mem_spanOf hc, isTagName_iff.mpr ⟨by simpa using hne, ?_⟩,
        fun c hc => mem_spanOf hc⟩
      exact fun c hc => mem_spanOf hc
    next => simp at h

/-- An opening tag is read when its name, its attributes and its end are. -/
theorem openingTag?_of_parts {s rest name attributes gap r : Text} {ending : Ending}
    (hname : name ≠ []) (hspan : spanOf isTagNameChar s = (name, rest))
    (hlist : attributeList rest = (attributes, gap ++ ending.written ++ r))
    (hgap : ∀ c ∈ gap, isBlank c) :
    openingTag? s = some (.opening name attributes gap ending, r) := by
  have hend : spanOf isBlank (gap ++ ending.written ++ r) = (gap, ending.written ++ r) := by
    rw [List.append_assoc]
    apply spanOf_append_eq hgap
    intro c hc
    cases ending with
    | plain =>
      obtain rfl : '>' = c := by simpa [Ending.written] using hc
      decide
    | slash =>
      obtain rfl : '/' = c := by simpa [Ending.written] using hc
      decide
  unfold openingTag?
  rw [hspan]
  simp only
  rw [hlist]
  simp only
  rw [hend]
  cases ending <;> simp [hname, Ending.written]

theorem openingTag?_eq_some_parts {s r : Text} {t : Tag} (h : openingTag? s = some (t, r)) :
    ∃ name attributes gap ending rest, t = .opening name attributes gap ending ∧ t.IsRead ∧
      spanOf isTagNameChar s = (name, rest) ∧
      attributeList rest = (attributes, gap ++ ending.written ++ r) := by
  unfold openingTag? at h
  simp only at h
  have hgap := spanOf_append isBlank (attributeList (spanOf isTagNameChar s).2).2
  split at h
  · simp at h
  next hne =>
    have hname : isTagName (spanOf isTagNameChar s).1 :=
      isTagName_iff.mpr ⟨by simpa using hne, fun c hc => mem_spanOf hc⟩
    split at h
    next rest heq =>
      obtain ⟨rfl, rfl⟩ := by simpa using h
      refine ⟨_, _, _, _, _, rfl, ⟨hname, fun c hc => mem_spanOf hc⟩, rfl, ?_⟩
      rw [heq] at hgap
      simp only [Ending.written, List.append_assoc, List.cons_append, List.nil_append]
      rw [hgap]
      rfl
    next rest heq =>
      obtain ⟨rfl, rfl⟩ := by simpa using h
      refine ⟨_, _, _, _, _, rfl, ⟨hname, fun c hc => mem_spanOf hc⟩, rfl, ?_⟩
      rw [heq] at hgap
      simp only [Ending.written, List.append_assoc, List.cons_append, List.nil_append]
      rw [hgap]
      rfl
    next => simp at h

theorem tag?_eq_some_isRead {s r : Text} {t : Tag} (h : tag? s = some (t, r)) : t.IsRead := by
  unfold tag? at h
  split at h
  · obtain ⟨_, _, _, -, hread⟩ := closingTag?_eq_some_isRead h
    exact hread
  · obtain ⟨_, _, _, _, _, -, hread, -⟩ := openingTag?_eq_some_parts h
    exact hread
  · simp at h

theorem tag?_eq_openingTag? {s : Text} (h : s.head? ≠ some '/') :
    tag? ('<' :: s) = openingTag? s := by
  cases s with
  | nil => rfl
  | cons c s =>
    have hc : c ≠ '/' := by simpa using h
    simp [tag?, hc]

/-- An opening tag begins with its name, so it is told from a closing tag whatever follows. -/
theorem head?_ne_slash_of_isTagName {name : Text} (h : isTagName name) (t : Text) :
    (name ++ t).head? ≠ some '/' := by
  obtain ⟨hne, hchars⟩ := isTagName_iff.mp h
  cases name with
  | nil => exact absurd rfl hne
  | cons c name =>
    intro hc
    obtain rfl : c = '/' := by simpa using hc
    have := hchars '/' (List.mem_cons_self ..)
    revert this
    decide

theorem openingTag?_isLocal {s r : Text} {t : Tag} (h : openingTag? s = some (t, r)) (r' : Text) :
    tag? (t.written ++ r') = some (t, r') := by
  obtain ⟨name, attributes, gap, ending, rest, rfl, ⟨hname, hgap⟩, hspan, hlist⟩ :=
    openingTag?_eq_some_parts h
  have hend : IsTagEnd (gap ++ ending.written) := ⟨gap, ending, hgap, rfl⟩
  have hrest : rest = attributes ++ (gap ++ ending.written) ++ r := by
    have := attributeList_append rest
    rw [hlist] at this
    simpa using this.symm
  have hlist' := attributeList_append_eq hend hrest hlist r'
  have hchars := (isTagName_iff.mp hname).2
  -- the character after the name is the same in both texts
  have hhead : ∀ c ∈ (attributes ++ (gap ++ ending.written) ++ r').head?,
      isTagNameChar c = false := by
    intro c hc
    refine head?_spanOf (p := isTagNameChar) (s := s) ?_
    rw [hspan, hrest]
    have hne : attributes ++ (gap ++ ending.written) ≠ [] := (sealed_append _ hend.sealed).ne_nil
    have hsome : (attributes ++ (gap ++ ending.written)).head?.isSome := by
      rw [List.isSome_head?]
      simpa using hne
    rw [List.head?_append, Option.or_of_isSome hsome] at hc ⊢
    exact hc
  have hwritten : (Tag.opening name attributes gap ending).written ++ r' =
      '<' :: (name ++ (attributes ++ (gap ++ ending.written) ++ r')) := by
    simp [Tag.written]
  rw [hwritten, tag?_eq_openingTag? (head?_ne_slash_of_isTagName hname _)]
  exact openingTag?_of_parts (isTagName_iff.mp hname).1 (spanOf_append_eq hchars hhead) hlist' hgap

/-- A tag is read the same whatever follows it. -/
theorem tags_isLocal : tags.IsLocal := by
  intro s t r h r'
  change tag? s = some (t, r) at h
  change tag? (t.written ++ r') = some (t, r')
  unfold tag? at h
  split at h
  · obtain ⟨lead, name, trail, rfl, hread⟩ := closingTag?_eq_some_isRead h
    simpa [Tag.written, tag?] using closingTag?_append_eq hread r'
  · exact openingTag?_isLocal h r'
  · simp at h

theorem closers_isLocal (name : Text) : (closers name).IsLocal := by
  intro s t r h r'
  obtain ⟨hrun, hkeep⟩ := Option.filter_eq_some_iff.1 h
  exact Option.filter_eq_some_iff.2 ⟨tags_isLocal s t r hrun r', hkeep⟩

/-- The attributes of a tag that was read are blanks and attributes one after the other. -/
theorem exists_attributes_of_run {name attributes gap r s : Text} {ending : Ending}
    (h : tags.run s = some (.opening name attributes gap ending, r)) :
    ∃ l : List SpacedAttribute, attributes = l.flatMap SpacedAttribute.text := by
  change tag? s = _ at h
  unfold tag? at h
  split at h
  · obtain ⟨_, _, _, hclosing, -⟩ := closingTag?_eq_some_isRead h
    simp at hclosing
  next rest =>
    obtain ⟨_, _, _, _, t, hopening, -, -, hlist⟩ := openingTag?_eq_some_parts h
    obtain ⟨-, rfl, -, -⟩ := Tag.opening.inj hopening
    obtain ⟨l, hl⟩ := exists_attributeList t
    rw [hlist] at hl
    exact ⟨l, hl⟩
  · simp at h

end ErbLayout.Markup
