import ErbLayout.Proofs.Document
import ErbLayout.Proofs.Text.Squeeze

/-!
Two layouts side by side. Pages match when they hold the same open blocks and the same output, but
for empty lines above it that one of them may have. Every step keeps pages matching: it sees the
open blocks and the last line of the output only, and of a running text its words, whether a blank
stands before it and whether it ends a paragraph.
-/

namespace ErbLayout

open Text Markup Code Layout

section LastLine

theorem afterLastLineFeed_append (line u s : Text) :
    afterLastLineFeed line (u ++ '\n' :: s) = afterLastLineFeed s s := by
  induction u generalizing line with
  | nil => simp [afterLastLineFeed]
  | cons c u ih => exact ih _

/-- Empty lines above the last line are not part of it. -/
theorem lastLine_append {margin : Text} (h : ∀ c ∈ margin, c = '\n') (s : Text) :
    lastLine (margin ++ s) = lastLine s := by
  rcases List.eq_nil_or_concat margin with rfl | ⟨u, c, rfl⟩
  · rfl
  · obtain rfl : c = '\n' := h c (by simp)
    rw [List.concat_eq_append, List.append_assoc]
    exact afterLastLineFeed_append _ u s

theorem lastLine_cases (s : Text) : lastLine s = s ∨ ∃ u, s = u ++ '\n' :: lastLine s := by
  have hgeneral : ∀ line, afterLastLineFeed line s = line ∨
      ∃ u, s = u ++ '\n' :: afterLastLineFeed line s := by
    induction s with
    | nil => exact fun line => Or.inl rfl
    | cons c s ih =>
      intro line
      rw [afterLastLineFeed]
      split
      next hc =>
        subst hc
        rcases ih s with hline | ⟨u, hu⟩
        · exact Or.inr ⟨[], by rw [hline]; rfl⟩
        · exact Or.inr ⟨'\n' :: u, congrArg ('\n' :: ·) hu⟩
      next =>
        rcases ih line with hline | ⟨u, hu⟩
        · exact Or.inl hline
        · exact Or.inr ⟨c :: u, congrArg (c :: ·) hu⟩
  exact hgeneral s

theorem lastLine_append_cons (u v : Text) : lastLine (u ++ '\n' :: v) = lastLine v :=
  afterLastLineFeed_append _ u v

theorem notMem_lastLine (s : Text) : '\n' ∉ lastLine s := by
  induction hn : s.length using Nat.strongRecOn generalizing s with
  | ind n ih =>
    by_cases hmem : '\n' ∈ s
    · obtain ⟨u, v, rfl⟩ := List.append_of_mem hmem
      rw [lastLine_append_cons]
      apply ih v.length _ v rfl
      rw [← hn]
      simp only [List.length_append, List.length_cons]
      omega
    · rcases lastLine_cases s with hline | ⟨u, hu⟩
      · rwa [hline]
      · rw [hu] at hmem
        simp at hmem

theorem lastLine_of_notMem {s : Text} (h : '\n' ∉ s) : lastLine s = s := by
  rcases lastLine_cases s with hline | ⟨u, hu⟩
  · exact hline
  · rw [hu] at h
    simp at h

theorem lastLine_append_of_notMem (s : Text) {t : Text} (ht : '\n' ∉ t) :
    lastLine (s ++ t) = lastLine s ++ t := by
  have hline : '\n' ∉ lastLine s ++ t := by simp [notMem_lastLine, ht]
  rcases lastLine_cases s with hs | ⟨u, hu⟩
  · rw [hs] at hline ⊢
    exact lastLine_of_notMem hline
  · conv_lhs => rw [hu, List.append_assoc, List.cons_append, lastLine_append_cons]
    exact lastLine_of_notMem hline

end LastLine

def endsParagraph (s : Text) : Bool := 1 < (trailingBlanks s).count '\n'

/-- The texts differ in their blanks only, and both end a paragraph or neither does. -/
structure Respaced (s t : Text) : Prop where
  squeeze_eq : squeeze s = squeeze t
  paragraph : endsParagraph s = endsParagraph t

namespace Respaced

variable {s t : Text}

theorem refl (s : Text) : Respaced s s := ⟨rfl, rfl⟩

theorem words_eq (h : Respaced s t) : words s = words t := by
  rw [← words_squeeze s, h.squeeze_eq, words_squeeze]

theorem startsBlank_eq (h : Respaced s t) : startsBlank s = startsBlank t := by
  rw [← startsBlank_squeeze s, h.squeeze_eq, startsBlank_squeeze]

theorem endsBlank_eq (h : Respaced s t) : endsBlank s = endsBlank t := by
  rw [← endsBlank_squeeze s, h.squeeze_eq, endsBlank_squeeze]

theorem isEmpty_eq (h : Respaced s t) : s.isEmpty = t.isEmpty := by
  rw [Bool.eq_iff_iff, List.isEmpty_iff, List.isEmpty_iff, ← squeeze_eq_nil_iff, h.squeeze_eq,
    squeeze_eq_nil_iff]

theorem reflow_eq (h : Respaced s t) (measure : Text → Nat) (width inlineWidth tail : Nat) :
    reflow measure width inlineWidth tail s = reflow measure width inlineWidth tail t := by
  have hparagraph : decide (1 < (trailingBlanks s).count '\n') =
      decide (1 < (trailingBlanks t).count '\n') :=
    h.paragraph
  unfold reflow
  rw [h.words_eq, h.startsBlank_eq, hparagraph]

end Respaced

/-- The pages hold the same open blocks, and the same output but for a margin of empty lines above
it. -/
structure Page.Matches (margin : Text) (p q : Page) : Prop where
  blocks : p.blocks = q.blocks
  output : p.output = margin ++ q.output
  margin : ∀ c ∈ margin, c = '\n'

theorem Page.Matches.refl (p : Page) : p.Matches [] p := ⟨rfl, rfl, by simp⟩

/-- Two layouts go on with pages that match, or both stop. -/
inductive Agree (margin : Text) : Except Stop Page → Except Stop Page → Prop
  | ok {p q : Page} : p.Matches margin q → Agree margin (.ok p) (.ok q)
  | error (s t : Stop) : Agree margin (.error s) (.error t)

theorem Agree.bind_of_ok {margin margin' : Text} {r r' : Except Stop Page}
    {next next' : Page → Except Stop Page} (h : Agree margin r r')
    (hnext : ∀ p q : Page, r = .ok p → p.Matches margin q → Agree margin' (next p) (next' q)) :
    Agree margin' (r >>= next) (r' >>= next') := by
  cases h with
  | ok hpages => exact hnext _ _ rfl hpages
  | error s t => exact .error s t

theorem Agree.bind {margin margin' : Text} {r r' : Except Stop Page}
    {next next' : Page → Except Stop Page} (h : Agree margin r r')
    (hnext : ∀ p q : Page, p.Matches margin q → Agree margin' (next p) (next' q)) :
    Agree margin' (r >>= next) (r' >>= next') :=
  h.bind_of_ok fun p q _ hpages => hnext p q hpages

theorem exists_of_agree_ok {margin : Text} {p : Page} {r : Except Stop Page}
    (h : Agree margin (.ok p) r) :
    ∃ q, r = .ok q ∧ p.Matches margin q := by
  cases h with
  | ok hpages => exact ⟨_, rfl, hpages⟩

namespace Page.Matches

variable {margin : Text} {p q : Page} (h : p.Matches margin q)
include h

theorem depth_eq : p.depth = q.depth := by rw [Page.depth, h.blocks, Page.depth]

theorem room_eq (j : Job) : j.room p = j.room q := by rw [Job.room, Job.room, h.depth_eq]

theorem note (e e' : Event) : (p.note e).Matches margin (q.note e') :=
  ⟨h.blocks, h.output, h.margin⟩

theorem move (n n' : Nat) :
    Page.Matches margin { p with position := n } { q with position := n' } :=
  ⟨h.blocks, h.output, h.margin⟩

theorem append (s : Text) : (p.append s).Matches margin (q.append s) := by
  refine ⟨h.blocks, ?_, h.margin⟩
  rw [Page.output_append, Page.output_append, h.output, List.append_assoc]

theorem emit (s : Text) (newLine : Bool) :
    (p.emit s newLine).Matches margin (q.emit s newLine) := by
  unfold Page.emit
  rw [h.depth_eq]
  split
  · exact h.append _
  · exact h.append _

theorem push (b : Block) : (p.push b).Matches margin (q.push b) := by
  refine ⟨?_, h.output, h.margin⟩
  change b :: p.blocks = b :: q.blocks
  rw [h.blocks]

theorem pop (closer : Closer) (found found' : Text) :
    Agree margin (p.pop closer found) (q.pop closer found') := by
  unfold Page.pop BlockStack.pop
  rw [h.blocks]
  cases q.blocks with
  | nil => exact .error _ _
  | cons top rest =>
    dsimp only
    cases top.isClosedBy closer with
    | false => exact .error _ _
    | true => exact .ok ⟨rfl, h.output, h.margin⟩

theorem foldl_emit (lines : List Text) (newLine : Bool) :
    (lines.foldl (fun acc line => (acc.1.emit line acc.2, true)) (p, newLine)).1.Matches margin
      (lines.foldl (fun acc line => (acc.1.emit line acc.2, true)) (q, newLine)).1 := by
  induction lines generalizing p q newLine with
  | nil => exact h
  | cons line lines ih => exact ih (h.emit line newLine) true

/-- Running text is laid out by its words, whether a blank stands before it, and whether it ends a
paragraph. -/
theorem layText (j : Job) {s t : Text} (hst : Respaced s t) (tail : Nat) :
    (j.layText s tail p).Matches margin (j.layText t tail q) := by
  have hline : lastLine p.output = lastLine q.output := by rw [h.output, lastLine_append h.margin]
  unfold Job.layText
  rw [hst.isEmpty_eq, hline, h.room_eq j]
  split
  · exact h
  · dsimp only
    rw [hst.reflow_eq]
    generalize reflow j.width (j.room q) (j.options.lineWidth - j.width (lastLine q.output))
      tail t = laid
    have hlines := (h.note (.text s) (.text t)).foldl_emit laid.lines laid.onNewLine
    split
    · refine ⟨hlines.blocks, ?_, hlines.margin⟩
      rw [← List.append_assoc]
      exact congrArg (· ++ ['\n']) hlines.output
    · exact hlines

/-- A code tag is put out as the page has it: its code is formatted for the room there is. -/
theorem layCodeTag (j : Job) (written : Text) (newLine : Bool) :
    Agree margin (j.layCodeTag written newLine p) (j.layCodeTag written newLine q) := by
  have hformatted : ∀ code, j.formatted? code p = j.formatted? code q := by
    intro code
    unfold Job.formatted?
    rw [h.room_eq]
  have hnoted : ∀ code, (j.noteFormatted code p).Matches margin (j.noteFormatted code q) :=
    fun code => (h.note _ _).note _ _
  have hcode : ∀ code, (j.layCode code p).1 = (j.layCode code q).1 := by
    intro code
    unfold Job.layCode
    rw [hformatted, h.depth_eq]
  have hopener : ∀ code, (j.layOpener code p).1 = (j.layOpener code q).1 ∧
      (j.layOpener code p).2.Matches margin (j.layOpener code q).2 := by
    intro code
    unfold Job.layOpener
    split
    · exact ⟨rfl, h⟩
    · rw [hformatted, h.depth_eq]
      exact ⟨rfl, hnoted _⟩
  unfold Job.layCodeTag
  cases CodeTag.ofText? written with
  | none => exact .ok (h.emit _ newLine)
  | some tag =>
    dsimp only
    cases Kind.of j.options.probe tag.code with
    | comment => exact .ok (h.emit _ newLine)
    | closer => exact (h.pop .code _ _).bind fun _ _ hpages => .ok (hpages.emit _ newLine)
    | reopener =>
      exact (h.pop .code _ _).bind fun _ _ hpages => .ok ((hpages.emit _ newLine).push _)
    | standalone =>
      dsimp only
      rw [hcode]
      exact .ok ((hnoted tag.code).emit _ newLine)
    | expression =>
      dsimp only
      rw [hcode]
      exact .ok ((hnoted tag.code).emit _ newLine)
    | opener =>
      obtain ⟨hopener, hpages⟩ := hopener tag.code
      dsimp only
      rw [hopener]
      exact .ok ((hpages.emit _ newLine).push _)

end Page.Matches

namespace Job

variable {j : Job} {margin : Text} {p q : Page}

theorem agree_layPieces {pieces pieces' : List (Text × Text × Text)}
    (hpieces : List.Forall₂ (fun x y => Respaced x.1 y.1 ∧ x.2.2 = y.2.2) pieces pieces')
    (offset offset' : Nat) (h : p.Matches margin q) :
    Agree margin (j.layPieces offset pieces p) (j.layPieces offset' pieces' q) := by
  induction hpieces generalizing offset offset' p q with
  | nil => exact .ok h
  | @cons x y pieces pieces' hxy _ ih =>
    obtain ⟨before, written, code⟩ := x
    obtain ⟨before', written', code'⟩ := y
    obtain ⟨hbefore, rfl⟩ := hxy
    unfold layPieces
    dsimp only at hbefore ⊢
    rw [hbefore.endsBlank_eq]
    exact (((h.layText j hbefore 0).move _ _).layCodeTag j code (endsBlank before')).bind fun _
        _ hpages =>
      ih _ _ hpages

/-- Where a text stands in the body is not seen in the output. -/
theorem agree_layTextToken_offset (offset offset' : Nat) (s : Text) (tail : Nat)
    (h : p.Matches margin q) :
    Agree margin (j.layTextToken offset s tail p) (j.layTextToken offset' s tail q) := by
  unfold layTextToken
  split
  · exact .error _ _
  · refine (agree_layPieces ?_ offset offset' h).bind fun _ _ hpages =>
      .ok (hpages.layText j (.refl _) tail)
    exact List.forall₂_same.mpr fun x _ => ⟨.refl _, rfl⟩

end Job

end ErbLayout
