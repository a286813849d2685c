import ErbLayout.Proofs.KeptCode

/-!
Precautions of the layout that are never needed. Every tag that is read has a tag name and every
stretch of a body is read as something, so neither an unknown name nor unrecognised content is ever
the cause of a failure. A code tag that was taken out of a body is read again, on its own, as the
tag that was read there.
-/

namespace ErbLayout

open Text Markup Code

theorem Cause.IsStructural.ne_unread {c : Cause} (h : c.IsStructural) :
    (∀ name, c ≠ .unknownTag name) ∧ ∀ text, c ≠ .unrecognized text := by
  rcases h with ⟨_, rfl⟩ | ⟨_, _, rfl⟩
  · exact ⟨by simp, by simp⟩
  · exact ⟨by simp, by simp⟩

/-- A document fails only where its structure does. -/
theorem isStructural_of_formatDocument {options : Options} {source : Text} {failure : Failure}
    (h : formatDocument options source = .error failure) : failure.cause.IsStructural := by
  rw [formatDocument_eq] at h
  rcases Job.layBody_follows ⟨options, (markedBody source).2⟩ (markedBody source).1 with
    ⟨page, hlay, -⟩ | ⟨stop, hlay, hcause, -⟩
  · rw [hlay] at h
    simp at h
  · rw [hlay] at h
    obtain rfl := Except.error.inj h
    exact hcause

/-- A code tag that was taken out of a body is, on its own, read as itself. -/
theorem exists_ofText?_of_mem_codes {body code : Text} (h : code ∈ (extractCode body).2.codes) :
    ∃ tag, CodeTag.ofText? code = some tag ∧ tag.IsRead ∧ tag.written = code := by
  obtain ⟨x, hx, rfl⟩ := List.mem_map.mp h
  obtain ⟨tag, v, r, hrun, hwritten⟩ := exists_run_of_mem_codesOf hx
  exact ⟨tag, hwritten ▸ ofText?_written hrun, isRead_of_run hrun, hwritten.symm⟩

/-- The layout of a document never fails for an unknown tag name or for content that it does not
recognise. Of any body, each code tag that is taken out can be read: its delimiters and its code,
which neither begins nor ends with a blank, make up the whole tag with nothing but blanks between
them. -/
theorem formatDocument_reads_all (options : Options) (source body : Text) :
    (∀ failure, formatDocument options source = .error failure →
      (∀ name, failure.cause ≠ .unknownTag name) ∧ ∀ text, failure.cause ≠ .unrecognized text) ∧
    ∀ code ∈ (extractCode body).2.codes, ∃ tag, CodeTag.ofText? code = some tag ∧
      (∀ c ∈ tag.lead, isBlank c) ∧ (∀ c ∈ tag.trail, isBlank c) ∧
      tag.opening ++ tag.lead ++ tag.code ++ tag.trail ++ tag.closing = code ∧
      startsBlank tag.code = false ∧ endsBlank tag.code = false := by
  refine ⟨fun failure hfailure => (isStructural_of_formatDocument hfailure).ne_unread,
    fun code hcode => ?_⟩
  obtain ⟨tag, htag, hread, hwritten⟩ := exists_ofText?_of_mem_codes hcode
  exact ⟨tag, htag, hread.lead, hread.trail, hwritten, ends_code_of_ofText? htag⟩

/-- A closing tag with a capital is text, so the element stays open. The code ends with a hyphen of
its own and holds text that looks like a marker. -/
theorem formatDocument_reads_all_unclosed :
    formatDocument {} "<p><%=\terbxtag --%></P>".toList =
        .error ⟨.unmatched none [['p']], "(erb)".toList, 1, some ['p']⟩ ∧
      (∀ name, Cause.unmatched none [['p']] ≠ .unknownTag name) ∧
      (∀ text, Cause.unmatched none [['p']] ≠ .unrecognized text) ∧
      (extractCode "<p><%=\terbxtag --%></P>".toList).2.codes = ["<%=\terb0tag --%>".toList] ∧
      ∃ tag, CodeTag.ofText? "<%=\terb0tag --%>".toList = some tag ∧
        (∀ c ∈ tag.lead, isBlank c) ∧ (∀ c ∈ tag.trail, isBlank c) ∧
        tag.opening ++ tag.lead ++ tag.code ++ tag.trail ++ tag.closing =
          "<%=\terb0tag --%>".toList ∧
        startsBlank tag.code = false ∧ endsBlank tag.code = false := by
  have hfails : formatDocument {} "<p><%=\terbxtag --%></P>".toList =
      .error ⟨.unmatched none [['p']], "(erb)".toList, 1, some ['p']⟩ := by decide +kernel
  have hcodes : (extractCode "<p><%=\terbxtag --%></P>".toList).2.codes =
      ["<%=\terb0tag --%>".toList] := by
    decide +kernel
  obtain ⟨hcauses, hreads⟩ := formatDocument_reads_all {} "<p><%=\terbxtag --%></P>".toList
    "<p><%=\terbxtag --%></P>".toList
  obtain ⟨hname, htext⟩ := hcauses _ hfails
  exact ⟨hfails, hname, htext, hcodes, hreads _ (by rw [hcodes]; exact List.mem_singleton.mpr rfl)⟩

end ErbLayout
