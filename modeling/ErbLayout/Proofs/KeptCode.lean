import ErbLayout.Proofs.Code.RestoredTags
import ErbLayout.Proofs.CodeSign
import ErbLayout.Proofs.FrontMatter
import ErbLayout.Proofs.Lockstep
import ErbLayout.Proofs.RowLayout

/-!
Layouts whose formatter gives code back as it gets it. An opener is closed with a terminator that is
taken off again, and what comes back is indented anew; on code of one line each of these steps
undoes itself. So a formatter that changes nothing and no formatter at all lay out such a document
alike, and fail alike where it cannot be laid out.
-/

namespace ErbLayout

open Text Markup Code Layout MarkerTable

section OneLine

theorem lines_of_notMem {s : Text} (hne : s ≠ []) (h : '\n' ∉ s) : lines s = [s] := by
  have hend : before? ['\n'] s = none := by
    cases hbefore : after? ['\n'] s.reverse with
    | none => simp [before?, hbefore]
    | some t =>
      have hmem : '\n' ∈ s.reverse := by simp [after?_eq_some_iff.mp hbefore]
      exact absurd (List.mem_reverse.mp hmem) h
  rw [lines, fullLines_of_notMem hne h, List.map_singleton, dropLineEnd, hend]

/-- Only lines after the first are indented. -/
theorem reindent_of_notMem (depth : Nat) {code : Text} (h : '\n' ∉ code)
    (hstart : startsBlank code = false) (hend : endsBlank code = false) :
    reindent depth code = code := by
  rw [reindent, trim_eq_self hstart hend]
  by_cases hne : code = []
  · rw [hne]
    rfl
  · rw [lines_of_notMem hne h]
    simp [trimEnd_eq_self hend]

theorem cutLast?_append {c : Char} {t : Text} (ht : c ∉ t) (s : Text) :
    cutLast? c (s ++ c :: t) = some (s, t) := by
  have hnone : ∀ t : Text, c ∉ t → cutLast? c t = none := by
    intro t
    induction t with
    | nil => exact fun _ => rfl
    | cons d t ih =>
      intro hd
      have hne : d ≠ c := fun heq => hd (heq ▸ List.mem_cons_self)
      rw [cutLast?, ih fun hmem => hd (List.mem_cons_of_mem d hmem)]
      exact if_neg hne
  induction s with
  | nil => simp [cutLast?, hnone t ht]
  | cons d s ih => rw [List.cons_append, cutLast?, ih]

/-- What closes a fragment is on the last line and can be seen. -/
theorem of_mem_terminators {t : Text} (h : t ∈ terminators) :
    '\n' ∉ t ∧ t ≠ [] ∧ startsBlank t = false ∧ endsBlank t = false := by
  rcases (by simpa [terminators] using h : t = ['e', 'n', 'd'] ∨ t = ['}'])
    with rfl | rfl <;> decide

/-- The terminator that a fragment was closed with is taken off again, unless the fragment is
empty. -/
theorem dropTerminator?_withTerminator {code t : Text} (ht : t ∈ terminators)
    (hend : endsBlank code = false) :
    dropTerminator? t (withTerminator code t) = if code.isEmpty then none else some code := by
  obtain ⟨hline, hne, hstart', hend'⟩ := of_mem_terminators ht
  have hclosed : endsBlank (withTerminator code t) = false := by
    rw [withTerminator, List.append_cons, endsBlank_append _ hne, hend']
  rw [dropTerminator?, trimEnd_eq_self hclosed, withTerminator, cutLast?_append hline]
  dsimp only
  rw [trim_eq_self hstart' hend', trimEnd_eq_self hend]
  cases code <;> simp

end OneLine

section Ends

/-- Blanks before the closing delimiter are no part of the code. -/
theorem endsBlank_of_codeBody? {s code : Text} {rest : Text × Text × Text}
    (h : codeBody? s = some (code, rest)) :
    endsBlank code = false := by
  fun_induction codeBody? s generalizing code with
  | case1 s c t hclose =>
    obtain ⟨rfl, -⟩ := Prod.mk.inj (Option.some.inj h)
    rfl
  | case2 => simp at h
  | case3 c s hclose ih =>
    obtain ⟨⟨code', rest'⟩, hbody, heq⟩ := Option.map_eq_some_iff.mp h
    obtain ⟨rfl, rfl⟩ := Prod.mk.inj heq
    cases code' with
    | cons d code' =>
      have hlast := ih hbody
      rw [← List.singleton_append, endsBlank_append _ (List.cons_ne_nil d code')]
      exact hlast
    | nil =>
      -- were this a blank, the delimiter after it would have been found here
      by_contra hblank
      have hc : isBlank c := by simpa [endsBlank] using hblank
      have hspan : (spanOf isBlank (c :: s)).2 = (spanOf isBlank s).2 := by simp [spanOf, hc]
      rw [codeBody?.eq_def] at hbody
      rw [hspan] at hclose
      simp only [hclose] at hbody
      split at hbody
      · simp at hbody
      · obtain ⟨x, -, heq⟩ := Option.map_eq_some_iff.mp hbody
        simp at heq

/-- The code of a tag neither begins nor ends with a blank. -/
theorem ends_code_of_ofText? {s : Text} {t : CodeTag} (h : CodeTag.ofText? s = some t) :
    startsBlank t.code = false ∧ endsBlank t.code = false := by
  have hstart := startsBlank_code_of_ofText? h
  constructor
  · cases hcode : t.code with
    | nil => rfl
    | cons c code =>
      rw [hcode] at hstart
      exact hstart
  · obtain ⟨⟨b, t', r⟩, hfirst, rfl⟩ := Option.map_eq_some_iff.mp h
    obtain ⟨-, hrun, -⟩ := Recogniser.first?_eq_some_iff.mp hfirst
    change codeTag? _ = some (t', r) at hrun
    unfold codeTag? at hrun
    split at hrun
    · simp at hrun
    · obtain ⟨⟨code, trail, closing, rest⟩, hbody, heq⟩ := Option.map_eq_some_iff.mp hrun
      obtain ⟨rfl, -⟩ := Prod.mk.inj heq
      exact endsBlank_of_codeBody? hbody

end Ends

namespace Job

def withFormatter (j : Job) (format : Text → Nat → Option Text) : Job :=
  { j with options := { j.options with formatCode := format } }

/-- The fragment is put out as it is, whether it stands for itself or opens a block. -/
def KeepsCode (j : Job) (code : Text) : Prop :=
  ∀ p, (j.layCode code p).1 = code ∧ (j.layOpener code p).1 = code

theorem keepsCode_of_none {j : Job} (h : ∀ code width, j.options.formatCode code width = none)
    (code : Text) :
    j.KeepsCode code := fun p => ⟨layCode_eq h code p, layOpener_eq h code p⟩

/-- A formatter that gives code back keeps a fragment of one line. -/
theorem keepsCode_of_some {j : Job} (h : ∀ code width, j.options.formatCode code width = some code)
    {code : Text} (hline : '\n' ∉ code) (hstart : startsBlank code = false)
    (hend : endsBlank code = false) : j.KeepsCode code := by
  intro p
  have hformatted : ∀ code, j.formatted? code p = if allBlank code then none else some code := by
    intro code
    rw [formatted?, h]
    cases hblank : allBlank code <;> simp [hblank]
  have hindent := reindent_of_notMem p.depth hline hstart hend
  constructor
  · rw [layCode, hformatted]
    cases allBlank code
    · exact hindent
    · rfl
  · unfold layOpener
    split
    · rfl
    next terminator closed hclose =>
      obtain ⟨t, ht, heq⟩ := Option.map_eq_some_iff.mp hclose
      obtain ⟨rfl, rfl⟩ := Prod.mk.inj heq
      have hmem := List.mem_of_find?_eq_some ht
      obtain ⟨-, hne, hstart', -⟩ := of_mem_terminators hmem
      have hvisible : allBlank (withTerminator code t) = false := by
        obtain ⟨c, u, rfl⟩ := List.exists_cons_of_ne_nil hne
        have hc : isBlank c = false := by rwa [startsBlank_cons] at hstart'
        simp [allBlank, withTerminator, hc]
      dsimp only
      rw [hformatted, hvisible]
      simp only [Bool.false_eq_true, if_false, Option.bind_some,
        dropTerminator?_withTerminator hmem hend]
      cases code with
      | nil => rfl
      | cons c code => exact hindent

section Formatters

variable {j : Job} {f g : Text → Nat → Option Text} {p q : Page}

theorem probe_withFormatter (j : Job) (f : Text → Nat → Option Text) :
    (j.withFormatter f).options.probe = j.options.probe := rfl

theorem sameStructure_withFormatter (j : Job) (f g : Text → Nat → Option Text) :
    (j.withFormatter f).SameStructure (j.withFormatter g) := ⟨rfl, rfl⟩

theorem matches_layOpener (j j' : Job) (hprobe : j.options.probe = j'.options.probe) (code : Text)
    (h : p.Matches [] q) : (j.layOpener code p).2.Matches [] (j'.layOpener code q).2 := by
  unfold layOpener
  rw [hprobe]
  cases close? j'.options.probe code with
  | none => exact h
  | some closed => exact (h.note _ _).note _ _

/-- A code tag whose code both formatters keep is put out alike. -/
theorem agree_layCodeTag_of_keepsCode {written : Text} (h : ∀ tag ∈ CodeTag.ofText? written,
      (j.withFormatter f).KeepsCode tag.code ∧ (j.withFormatter g).KeepsCode tag.code)
    (newLine : Bool) (hpages : p.Matches [] q) :
    Agree [] ((j.withFormatter f).layCodeTag written newLine p)
      ((j.withFormatter g).layCodeTag written newLine q) := by
  unfold layCodeTag
  cases htag : CodeTag.ofText? written with
  | none => exact .ok (hpages.emit _ newLine)
  | some tag =>
    obtain ⟨hf, hg⟩ := h tag htag
    have hnoted : ((j.withFormatter f).layCode tag.code p).2.Matches []
        ((j.withFormatter g).layCode tag.code q).2 :=
      (hpages.note _ _).note _ _
    have hopener := matches_layOpener (j.withFormatter f) (j.withFormatter g) rfl tag.code hpages
    dsimp only
    rw [probe_withFormatter, probe_withFormatter, (hf p).1, (hg q).1, (hf p).2, (hg q).2]
    cases Kind.of j.options.probe tag.code with
    | comment => exact .ok (hpages.emit _ newLine)
    | closer => exact (hpages.pop .code _ _).bind fun _ _ hpages => .ok (hpages.emit _ newLine)
    | reopener =>
      exact (hpages.pop .code _ _).bind fun _ _ hpages => .ok ((hpages.emit _ newLine).push _)
    | opener => exact .ok ((hopener.emit _ newLine).push _)
    | standalone => exact .ok (hnoted.emit _ newLine)
    | expression => exact .ok (hnoted.emit _ newLine)

variable (j) in
/-- Both formatters keep the code of every tag that a marker stands for. -/
def BothKeep (f g : Text → Nat → Option Text) : Prop :=
  ∀ digits written, j.table.code? digits = some written → ∀ tag ∈ CodeTag.ofText? written,
    (j.withFormatter f).KeepsCode tag.code ∧ (j.withFormatter g).KeepsCode tag.code

variable (h : j.BothKeep f g)
include h

theorem BothKeep.agree_layPieces {pieces : List (Text × Text × Text)}
    (hpieces : ∀ x ∈ pieces, ∃ digits, j.table.code? digits = some x.2.2) (offset : Nat)
    (hpages : p.Matches [] q) :
    Agree [] ((j.withFormatter f).layPieces offset pieces p)
      ((j.withFormatter g).layPieces offset pieces q) := by
  induction pieces generalizing offset p q with
  | nil => exact .ok hpages
  | cons x pieces ih =>
    obtain ⟨before, written, code⟩ := x
    obtain ⟨digits, hcode⟩ := hpieces _ List.mem_cons_self
    have hlaid : ((j.withFormatter f).layText before 0 p).Matches []
        ((j.withFormatter g).layText before 0 q) :=
      hpages.layText (j.withFormatter f) (.refl before) 0
    exact (agree_layCodeTag_of_keepsCode (h digits code hcode) (endsBlank before)
      (hlaid.move _ _)).bind
      fun _ _ hpages => ih (fun x hx => hpieces x (List.mem_cons_of_mem _ hx)) _ hpages

theorem BothKeep.agree_layTextToken (offset : Nat) (s : Text) (tail : Nat)
    (hpages : p.Matches [] q) :
    Agree [] ((j.withFormatter f).layTextToken offset s tail p)
      ((j.withFormatter g).layTextToken offset s tail q) := by
  unfold layTextToken
  split
  · exact .error _ _
  · refine (h.agree_layPieces ?_ offset hpages).bind fun _ _ hpages =>
      .ok (hpages.layText (j.withFormatter f) (.refl _) tail)
    intro x hx
    obtain ⟨digits, hcode, -⟩ := code?_of_mem_codePieces x hx
    exact ⟨digits, hcode⟩

theorem BothKeep.agree_layToken (t : Token) (following : List Token) (hpages : p.Matches [] q) :
    Agree [] ((j.withFormatter f).layToken t following p)
      ((j.withFormatter g).layToken t following q) := by
  obtain ⟨offset, afterBlank, lexeme⟩ := t
  cases lexeme with
  | text s => exact h.agree_layTextToken offset s (gluedWidth following) (hpages.move offset offset)
  | raw s => exact .ok ((hpages.move offset offset).append _)
  | tag t =>
    rw [layToken_tag, layToken_tag]
    exact agree_layTag (j := j.withFormatter f) t afterBlank (hpages.move offset offset)
  | unrecognized s => exact .error _ _

theorem BothKeep.agree_layTokens (ts : List Token) (hpages : p.Matches [] q) :
    Agree [] ((j.withFormatter f).layTokens ts p) ((j.withFormatter g).layTokens ts q) := by
  induction ts generalizing p q with
  | nil => exact .ok hpages
  | cons t ts ih => exact (h.agree_layToken t ts hpages).bind fun _ _ hpages => ih hpages

theorem BothKeep.agree_layBody (body : Text) :
    Agree [] ((j.withFormatter f).layBody body) ((j.withFormatter g).layBody body) := by
  refine (h.agree_layTokens (tokens body) (.refl _)).bind fun p q hpages => ?_
  have hfinish : p.blocks.finish = q.blocks.finish := by rw [hpages.blocks]
  dsimp only
  rw [hfinish]
  cases q.blocks.finish with
  | ok => exact .ok (hpages.move _ _)
  | error cause => exact .error _ _

end Formatters

end Job

def codeTagsOf (source : Text) : List CodeTag := codeTags.found (splitFrontMatter source).2

/-- A code tag that a marker of the document stands for is on one line if all of the document's
are. -/
theorem notMem_code_of_code? {source digits written : Text} {tag : CodeTag}
    (h : ∀ t ∈ codeTagsOf source, '\n' ∉ t.code)
    (hcode : (markedBody source).2.code? digits = some written)
    (htag : CodeTag.ofText? written = some tag) : '\n' ∉ tag.code := by
  obtain ⟨tag', htag', hfound⟩ := exists_mem_found_of_code? hcode
  obtain rfl : tag = tag' := Option.some.inj (htag.symm.trans htag')
  intro hmem
  obtain ⟨u, v, huv⟩ := List.append_of_mem hmem
  apply h _ hfound
  change '\n' ∈ restoreFrom _ tag.code
  rw [huv, restoreFrom_append_cons _ u (by decide)]
  simp

/-- Formatters that both keep the code of a document's tags lay it out alike, or fail alike. -/
theorem formatDocument_withFormatter_eq (options : Options) (source : Text)
    {f g : Text → Nat → Option Text} (h : (⟨options, (markedBody source).2⟩ : Job).BothKeep f g) :
    formatDocument { options with formatCode := f } source =
      formatDocument { options with formatCode := g } source := by
  have hstructure := Job.sameStructure_withFormatter ⟨options, (markedBody source).2⟩ f g
  have houtline := hstructure.outlineOf_layBody (markedBody source).1
  have hpages := h.agree_layBody (markedBody source).1
  rw [formatDocument_eq, formatDocument_eq]
  unfold Job.withFormatter at hpages houtline hstructure
  revert hpages houtline
  generalize Job.layBody ⟨{ options with formatCode := f }, (markedBody source).2⟩
    (markedBody source).1 = r
  generalize Job.layBody ⟨{ options with formatCode := g }, (markedBody source).2⟩
    (markedBody source).1 = r'
  intro houtline hpages
  cases hpages with
  | ok hpages =>
    have houtput := hpages.output
    rw [List.nil_append] at houtput
    dsimp only
    rw [houtput]
  | error stop stop' =>
    -- pages that match say nothing about a stop: what it tells comes from the equal outlines
    obtain ⟨hcause, hstops⟩ := Prod.mk.inj (Except.error.inj houtline)
    dsimp only
    rw [hstructure.failureAt_eq rfl _ _ hcause hstops]

/-- Where no code tag goes over several lines, a formatter that answers with the code it is given
lays a document out as no formatter does, and fails where it fails, whatever the probe, the width
and the layout of classes. -/
theorem formatDocument_identity_eq (options : Options) (source : Text)
    (h : ∀ t ∈ codeTagsOf source, '\n' ∉ t.code) :
    formatDocument { options with formatCode := fun code _ => some code } source =
      formatDocument { options with formatCode := fun _ _ => none } source := by
  apply formatDocument_withFormatter_eq
  intro digits written hcode tag htag
  have hline := notMem_code_of_code? h hcode htag
  obtain ⟨hstart, hend⟩ := ends_code_of_ofText? htag
  exact ⟨Job.keepsCode_of_some (fun _ _ => rfl) hline hstart hend,
    Job.keepsCode_of_none (fun _ _ => rfl) tag.code⟩

/-- Openers of both kinds, an empty tag and a marker that the document spells out. -/
theorem formatDocument_identity_eq_blocks :
    (codeTagsOf
      "<div>\n<% if x %><%= erb0tag.map \x7b |y|%>b<%\x7d%><%%>c<% end %></div>".toList).map
      CodeTag.code =
        ["if x".toList, "erb0tag.map \x7b |y|".toList, "\x7d".toList, [], "end".toList] ∧
      formatDocument { lineWidth := 20, formatCode := fun code _ => some code }
          "<div>\n<% if x %><%= erb0tag.map \x7b |y|%>b<%\x7d%><%%>c<% end %></div>".toList = .ok
    "<div>\n  <% if x %><%= erb0tag.map \x7b |y| %>b<% \x7d %><%  %>c<% end %></div>\n".toList := by
  have hcodes :
      (codeTagsOf
        "<div>\n<% if x %><%= erb0tag.map \x7b |y|%>b<%\x7d%><%%>c<% end %></div>".toList).map
        CodeTag.code =
          ["if x".toList, "erb0tag.map \x7b |y|".toList, "\x7d".toList, [], "end".toList] := by
    decide +kernel
  refine ⟨hcodes, (formatDocument_identity_eq { lineWidth := 20 } _ ?_).trans (by decide +kernel)⟩
  intro t ht
  have hcode := List.mem_map_of_mem (f := CodeTag.code) ht
  rw [hcodes] at hcode
  revert hcode
  generalize t.code = code
  simp only [List.mem_cons, List.not_mem_nil, or_false]
  rintro (rfl | rfl | rfl | rfl | rfl) <;> decide

-- lines after the first are indented below the tag, so code of several lines does not come back as
-- it was
example : formatDocument { formatCode := fun code _ => some code } "<p><%= f(\n a) %></p>".toList =
    .ok "<p><%= f(\n   a) %></p>\n".toList := by
  decide +kernel

end ErbLayout
