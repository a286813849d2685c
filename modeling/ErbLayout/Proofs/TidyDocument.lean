import ErbLayout.Proofs.Layout.TidyLines
import ErbLayout.Proofs.TextWidth

/-!
The lines of a finished document. In a document of markup and text, the blanks that begin the output
are trimmed and everything after them has tidy lines: a tag and a line of a text show something
wherever they are put, and an empty line is put only after a text, so after something that can be
seen. The document ends with one line feed, since trimming leaves none before it.
-/

namespace ErbLayout

open Text Markup Code Layout MarkerTable

section Steps

variable {s t : Text}

theorem isTidy_trimStart_put (hs : IsTidy (trimStart s)) (ht : IsTidy t) (hvisible : IsVisible t)
    (newLine : Bool) (depth : Nat) : IsTidy (trimStart (s ++ (gapAt newLine depth ++ t))) := by
  have hgap : gapAt true depth = '\n' :: indentation depth := by
    simp [gapAt, onNewLine, trim, trimStart, trimEnd]
  by_cases hnil : trimStart s = []
  · -- only blanks were put out before
    obtain ⟨lead, hlead, hblank⟩ := exists_append_trimStart s
    rw [hnil, List.append_nil] at hlead
    have hmargin : ∀ c ∈ s ++ gapAt newLine depth, isBlank c := by
      intro c hc
      rcases List.mem_append.mp hc with hc | hc
      · exact hblank c (hlead ▸ hc)
      · cases newLine with
        | false => exact absurd hc List.not_mem_nil
        | true => exact isBlank_of_mem_indentation (hgap ▸ hc)
    rw [← List.append_assoc, trimStart_append hmargin hvisible.starts]
    exact ht
  · rw [trimStart_append_of_ne_nil hnil]
    cases newLine with
    | false => exact hs.append ht hvisible
    | true =>
      rw [hgap]
      exact hs.newLine ht hvisible depth

theorem isTidy_trimStart_laidLines {lines : List Text} (hs : IsTidy (trimStart s))
    (hlines : ∀ line ∈ lines, '\n' ∉ line ∧ IsVisible line) (newLine : Bool) (depth : Nat) :
    IsTidy (trimStart (s ++ laidLines depth newLine lines)) := by
  induction lines generalizing s newLine with
  | nil => simpa [laidLines] using hs
  | cons line lines ih =>
    obtain ⟨hfeed, hvisible⟩ := hlines line List.mem_cons_self
    have hlaid : laidLines depth newLine (line :: lines) =
        gapAt newLine depth ++ line ++ laidLines depth true lines := by
      have hfirst : (if newLine then onNewLine depth line else line) = gapAt newLine depth ++
          line := by
        cases newLine with
        | false => rfl
        | true => rw [if_pos rfl, onNewLine_eq_append, hvisible.trim_eq, gapAt, if_pos rfl]
      rw [laidLines, hfirst]
      cases lines <;> simp [laidLines]
    have hfirst := isTidy_trimStart_put hs (isTidy_of_notMem hfeed hvisible.ends) hvisible
      newLine depth
    rw [hlaid, ← List.append_assoc]
    exact ih hfirst (fun l hl => hlines l (List.mem_cons_of_mem line hl)) true

theorem isTidy_trimStart_break (hs : IsTidy (trimStart s)) (hend : endsBlank s = false) :
    IsTidy (trimStart (s ++ paragraphBreak t)) := by
  unfold paragraphBreak
  split
  · by_cases hnil : trimStart s = []
    · obtain rfl : s = [] := by
        by_contra hne
        exact trimStart_ne_nil hne hend hnil
      exact isTidy_nil
    · obtain ⟨lead, hlead, -⟩ := exists_append_trimStart s
      have hend' : endsBlank (trimStart s) = false := by
        rw [hlead, endsBlank_append _ hnil] at hend
        exact hend
      rw [trimStart_append_of_ne_nil hnil]
      exact hs.emptyLine hnil hend'
  · simpa using hs

end Steps

section Run

namespace Job

variable {j : Job} {p q : Page}

theorem Lays.isTidy {t : Tag} (ht : t.IsRead) {s : Text} (h : j.Lays (.tag t) s) : IsTidy s := by
  cases t with
  | opening name attributes gap ending =>
    obtain ⟨depth, rfl⟩ := h
    exact isTidy_laidTag ht.1 _ _ _ _ _
  | closing lead name trail =>
    obtain rfl := h
    apply isTidy_of_notBlank
    intro c hc
    have hcases : c = '<' ∨ c = '/' ∨ c ∈ name ∨ c = '>' := by simpa using hc
    rcases hcases with rfl | rfl | hc | rfl
    · decide
    · decide
    · exact isBlank_eq_false_of_isTagNameChar ((isTagName_iff.mp ht.2.1).2 c hc)
    · decide

theorem isTidy_layTag {t : Token} {tag : Tag} (ht : t.lexeme = .tag tag) (hread : tag.IsRead)
    {following : List Token} (hp : IsTidy (trimStart p.output))
    (h : j.layToken t following p = .ok q) : IsTidy (trimStart q.output) := by
  have htag : t.lexeme.IsTag := by
    rw [ht]
    trivial
  obtain ⟨depth, laid, henclosed, hout, -, -, hlays⟩ := exists_output_layTag htag h
  rw [hout]
  exact isTidy_trimStart_put hp ((hlays tag ht).isTidy hread) henclosed.isVisible _ depth

variable (hj : ∀ digits, j.table.code? digits = none)
include hj

/-- A text that is laid out where the output does not end with a blank keeps it tidy: its lines end
with a word, and only then an empty line is put out. -/
theorem isTidy_layText {t : Token} {s : Text} (ht : t.lexeme = .text s) {following : List Token}
    (hp : IsTidy (trimStart p.output)) (hend : endsBlank p.output = false)
    (h : j.layToken t following p = .ok q) :
    IsTidy (trimStart q.output) := by
  have hlines : ∀ line ∈ j.linesOf s (gluedWidth following) p, '\n' ∉ line ∧ IsVisible line :=
      fun line hline =>
    of_mem_pack (fun w hw => ⟨(of_mem_words hw).1, fun c hc => ((of_mem_words hw).2 c hc).2⟩) hline
  rw [(output_layToken_text hj ht h).1]
  generalize j.linesOf s (gluedWidth following) p = lines at hlines
  have hlaid : endsBlank (p.output ++ laidLines p.depth (startsBlank s) lines) = false := by
    by_cases hnil : laidLines p.depth (startsBlank s) lines = []
    · rw [hnil, List.append_nil]
      exact hend
    · rw [endsBlank_append _ hnil]
      exact endsBlank_laidLines _ _ fun line hline => (hlines line hline).2
  rw [← List.append_assoc]
  exact isTidy_trimStart_break (isTidy_trimStart_laidLines hp hlines _ _) hlaid

/-- The output is tidy before every token of a body without raw content. -/
theorem isTidy_layBefore {body : Text} (hraw : ∀ s, .raw s ∉ lexemes body)
    {before rest : List Token} (htokens : tokens body = before ++ rest)
    (h : j.layBefore rest before Page.blank = .ok p) :
    IsTidy (trimStart p.output) := by
  induction before using List.reverseRecOn generalizing rest p with
  | nil =>
    obtain rfl := Except.ok.inj h
    exact isTidy_nil
  | append_singleton before t ih =>
    rw [List.append_assoc, List.singleton_append] at htokens
    rw [layBefore_concat] at h
    obtain ⟨r, hbefore, hstep⟩ := bind_eq_ok h
    have hr := ih htokens hbefore
    have hmem : t ∈ tokens body := by simp [htokens]
    cases hlexeme : t.lexeme with
    | tag tag =>
      have hfits := fits_of_mem_tokens hmem
      rw [hlexeme] at hfits
      exact isTidy_layTag hlexeme (tag?_eq_some_isRead (hfits [])) hr hstep
    | text s =>
      -- a text follows a tag, so the output does not end with a blank
      have hend : endsBlank r.output = false := by
        rcases sealed_before_text hj htokens hlexeme hbefore with hnil | hsealed
        · rw [hnil]
          rfl
        · rw [endsBlank, hsealed]
          decide
      exact isTidy_layText hj hlexeme hr hend hstep
    | raw s =>
      have hlexemes : t.lexeme ∈ lexemes body := map_lexeme_tokens body ▸ List.mem_map_of_mem hmem
      exact absurd (hlexeme ▸ hlexemes) (hraw s)
    | unrecognized s => simp [layToken, hlexeme] at hstep

end Job

end Run

section Finished

theorem textLines_restore {body : Text} (hcode : codeTags.first? body = none) (s : Text) :
    textLines ((extractCode body).2.restore s) =
      (textLines s).map (extractCode body).2.restore := by
  have hjoin : ∀ lines : List Text, (extractCode body).2.restore (join ['\n'] lines) =
      join ['\n'] (lines.map (extractCode body).2.restore) := by
    intro lines
    induction lines with
    | nil => exact restore_nil _
    | cons line lines ih =>
      by_cases hnil : lines = []
      · subst hnil
        rfl
      · rw [join_cons_of_ne_nil _ _ hnil, List.append_assoc, List.singleton_append,
          restore_append_cons _ _ (by decide), ih, List.map_cons,
          join_cons_of_ne_nil _ _ (by simpa using hnil), List.append_assoc, List.singleton_append]
  conv_lhs => rw [← join_textLines s, hjoin]
  apply splitAt_join
  · exact fun hnil => splitAt_ne_nil '\n' s (List.map_eq_nil_iff.mp hnil)
  · intro line hline
    obtain ⟨l, hl, rfl⟩ := List.mem_map.mp hline
    exact notMem_restore hcode (notMem_of_mem_splitAt hl)

theorem IsTidy.restore {body : Text} (hcode : codeTags.first? body = none) {s : Text}
    (hs : IsTidy s) :
    IsTidy ((extractCode body).2.restore s) := by
  rw [IsTidy, textLines_restore hcode]
  constructor
  · intro line hline
    obtain ⟨l, hl, rfl⟩ := List.mem_map.mp hline
    rw [(isVisibleTable_extractCode _).endsBlank_restore]
    exact hs.ends l hl
  · refine (List.isChain_map _).mpr (hs.apart.imp fun a b hab => ?_)
    exact hab.imp (restore_ne_nil body) (restore_ne_nil body)

/-- A document of markup and text that is laid out ends with one line feed; none of its lines ends
with a blank, and no two empty ones follow each other. -/
theorem formatDocument_tidyLines (options : Options) (source out : Text)
    (hfront : (splitFrontMatter source).1 = none) (hcode : codeTags.first? source = none)
    (hraw : ∀ l ∈ lexemes (markedBody source).1, l.opensRawText = false)
    (h : formatDocument options source = .ok out) :
    ∃ text, out = text ++ ['\n'] ∧ text.getLast? ≠ some '\n' ∧
      (∀ line ∈ textLines text, endsBlank line = false) ∧
      (textLines text).IsChain fun a b => a ≠ [] ∨ b ≠ [] := by
  have hbody : markedBody source = extractCode source := by
    rw [markedBody, splitFrontMatter_eq_of_none hfront]
  rw [hbody] at hraw
  rw [formatDocument_eq, hfront, hbody] at h
  rcases Job.layBody_cases ⟨options, (extractCode source).2⟩ (extractCode source).1 with
    ⟨stop, -, hlay⟩ | ⟨page, htokens, -, hlay⟩ | ⟨page, -, -, hlay⟩
  · simp [hlay] at h
  · rw [hlay] at h
    obtain rfl := Except.ok.inj h
    have hbefore : (⟨options, (extractCode source).2⟩ : Job).layBefore []
      (tokens (extractCode source).1) Page.blank =
        .ok page := by
      rw [← List.append_nil (tokens (extractCode source).1), Job.layTokens_append] at htokens
      obtain ⟨p, hp, hpage⟩ := bind_eq_ok htokens
      rw [hp, ← Except.ok.inj hpage]
    have hpage := Job.isTidy_layBefore (code?_of_noCode hcode) (raw_notMem_lexemes hraw)
      (List.append_nil _).symm hbefore
    have htidy : IsTidy (trim ((extractCode source).2.restore page.output)) := by
      rw [trim, trimStart_restore]
      exact (hpage.restore hcode).trimEnd
    refine ⟨_, rfl, ?_, htidy.ends, htidy.apart⟩
    intro hfeed
    have hend : endsBlank (trim ((extractCode source).2.restore page.output)) = false :=
      endsBlank_trimEnd _
    rw [endsBlank, hfeed] at hend
    exact absurd hend (by decide)
  · simp [hlay] at h

/-- Blanks at both ends of the document, before and inside a tag that does not fit on one line, and
between paragraphs. -/
theorem formatDocument_tidyLines_brokenTag :
    ∃ source out text : Text, source =
      " \n\none  \n\n\n<a  href='x'\n\nclass=\"b  c\" >y </a>\n\n\n".toList ∧
      (splitFrontMatter source).1 = none ∧ codeTags.first? source = none ∧
      (∀ l ∈ lexemes (markedBody source).1, l.opensRawText = false) ∧
      formatDocument { lineWidth := 16 } source = .ok out ∧
      out = "one\n\n<a\n  href='x'\n  class=\"b c\"\n>y\n</a>\n".toList ∧
      out = text ++ ['\n'] ∧ text.getLast? ≠ some '\n' ∧
        (∀ line ∈ textLines text, endsBlank line = false) ∧
      (textLines text).IsChain fun a b => a ≠ [] ∨ b ≠ [] := by
  have hfront : (splitFrontMatter
      " \n\none  \n\n\n<a  href='x'\n\nclass=\"b  c\" >y </a>\n\n\n".toList).1 = none := by
    decide +kernel
  have hcode : codeTags.first? " \n\none  \n\n\n<a  href='x'\n\nclass=\"b  c\" >y </a>\n\n\n".toList
      = none := by
    decide +kernel
  have hraw : ∀ l ∈ lexemes
    (markedBody " \n\none  \n\n\n<a  href='x'\n\nclass=\"b  c\" >y </a>\n\n\n".toList).1,
      l.opensRawText = false := by
    decide +kernel
  have hformat : formatDocument { lineWidth := 16 }
    " \n\none  \n\n\n<a  href='x'\n\nclass=\"b  c\" >y </a>\n\n\n".toList =
      .ok "one\n\n<a\n  href='x'\n  class=\"b c\"\n>y\n</a>\n".toList := by
    decide +kernel
  obtain ⟨text, htext⟩ := formatDocument_tidyLines _ _ _ hfront hcode hraw hformat
  exact ⟨_, _, text, rfl, hfront, hcode, hraw, hformat, rfl, htext⟩

end Finished

end ErbLayout
