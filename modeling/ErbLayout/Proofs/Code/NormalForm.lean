import ErbLayout.Proofs.Code.Delimiters

/-!
The normal form of code tags. A text with an opening delimiter at its start and a closing delimiter
at its end has a code tag at its start, which ends at the first closing delimiter and so perhaps
before the text does. With one space inside each delimiter that tag is a text that is read as one
code tag from its start to its end. The parts are the same but for the blanks, and so is what they
are put out as.
-/

namespace ErbLayout.Code

open Text Markup

/-- The text is made up like a code tag from its start to its end: between the delimiters, and
blanks next to them, stands any code. -/
def IsDelimited (s : Text) : Prop := ∃ t : CodeTag, t.IsRead ∧ t.written = s

theorem IsDelimited.exists_ofText? {s : Text} (h : IsDelimited s) :
    ∃ t, CodeTag.ofText? s = some t := by
  obtain ⟨m, hread, rfl⟩ := h
  -- the code of `m` may hold a closing delimiter, so the tag that is found need not be `m`
  obtain ⟨u, hu⟩ := hread.exists_delimited
  obtain ⟨⟨t, r⟩, hrun⟩ := Option.isSome_iff_exists.mp
    (codeTag?_isSome (List.suffix_append u ['%', '>']).isInfix)
  rw [← hu] at hrun
  exact ⟨t, by rw [CodeTag.ofText?, Recogniser.first?_of_run (p := codeTags) hrun]; rfl⟩

theorem isDelimited_of_run {s r : Text} {t : CodeTag} (h : codeTags.run s = some (t, r)) :
    IsDelimited t.written :=
  ⟨t, isRead_of_run h, rfl⟩

/-- The code tag of a text, with one space inside each delimiter, is one code tag from its start to
its end, in the same parts but for the blanks. -/
theorem first?_render {s : Text} {t : CodeTag} (h : CodeTag.ofText? s = some t) :
    ∃ lead trail, codeTags.first? (t.render t.code) =
      some ([], ⟨t.opening, lead, t.code, trail, t.closing⟩, []) := by
  obtain ⟨⟨b, t', r⟩, hfirst, rfl⟩ := Option.map_eq_some_iff.mp h
  obtain ⟨-, hrun, -⟩ := Recogniser.first?_eq_some_iff.mp hfirst
  obtain ⟨lead, trail, hread⟩ := codeTag?_render hrun
  have hwhole := hread []
  rw [List.append_nil] at hwhole
  exact ⟨lead, trail, Recogniser.first?_of_run (p := codeTags) hwhole⟩

/-- Code tags have a normal form, with one space inside each delimiter: it is a code tag again from
its start to its end, with the delimiters and the code of the tag it was made from, and it is its
own normal form. -/
theorem render_isNormalForm {s : Text} (h : IsDelimited s) :
    ∃ t t', CodeTag.ofText? s = some t ∧
      codeTags.first? (t.render t.code) = some ([], t', []) ∧ IsDelimited (t.render t.code) ∧
      CodeTag.ofText? (t.render t.code) = some t' ∧
      t'.opening = t.opening ∧ t'.code = t.code ∧ t'.closing = t.closing ∧
      t'.render t'.code = t.render t.code := by
  obtain ⟨t, ht⟩ := h.exists_ofText?
  obtain ⟨lead, trail, hfirst⟩ := first?_render ht
  obtain ⟨hwritten, hrun, -⟩ := Recogniser.first?_eq_some_iff.mp hfirst
  refine ⟨t, _, ht, hfirst, ?_, by rw [CodeTag.ofText?, hfirst]; rfl, rfl, rfl, rfl, rfl⟩
  rw [List.nil_append, List.append_nil] at hwritten
  exact hwritten ▸ isDelimited_of_run hrun

/-- The code begins and ends with the signs of delimiters and has blanks before its last hyphen. -/
theorem render_isNormalForm_hyphens :
    IsDelimited "<%=-- <% =a-\n--%>".toList ∧
      CodeTag.ofText? "<%=-- <% =a-\n--%>".toList =
        some ⟨"<%=".toList, [], "-- <% =a-\n-".toList, [], "-%>".toList⟩ ∧
      ∃ t, codeTags.first? "<%= -- <% =a-\n- -%>".toList = some ([], t, []) ∧
        t.opening = "<%=".toList ∧ t.code = "-- <% =a-\n-".toList ∧ t.closing = "-%>".toList ∧
        t.render t.code = "<%= -- <% =a-\n- -%>".toList := by
  have hread : CodeTag.ofText? "<%=-- <% =a-\n--%>".toList =
      some ⟨"<%=".toList, [], "-- <% =a-\n-".toList, [], "-%>".toList⟩ := by decide +kernel
  have hdelimited : IsDelimited "<%=-- <% =a-\n--%>".toList :=
    ⟨⟨"<%=".toList, [], "-- <% =a-\n-".toList, [], "-%>".toList⟩,
      ⟨by decide, by simp, by simp, by decide⟩, by decide⟩
  obtain ⟨t, t', ht, hfirst, -, -, hopening, hcode, hclosing, hrender⟩ :=
    render_isNormalForm hdelimited
  obtain rfl := Option.some.inj (hread.symm.trans ht)
  exact ⟨hdelimited, hread, t', hfirst, hopening, hcode, hclosing, hrender⟩

end ErbLayout.Code
