import ErbLayout.Proofs.RelaidTag
import ErbLayout.Proofs.Text.Width
import Mathlib.Data.List.Induction

/-!
What the tokens of a body put on the page. A layout can be cut between any two tokens, and each
token adds to the output: a tag adds itself, on a new line if a blank stands before it, a text its
lines and raw content what it is. Tags without attributes that follow a text right away are put out
as they are counted before the text is laid out. Apart from empty lines, the output begins with
something that can be seen.
-/

namespace ErbLayout

open Text Markup Code Layout

section Glued

def Markup.Token.glued? (t : Token) : Option Text :=
  if t.afterBlank then none
  else
    match t.lexeme with
    | .tag (.closing _ name _) => some ('<' :: '/' :: (name ++ ['>']))
    | .tag (.opening name attributes _ ending) =>
      if allBlank attributes then some ('<' :: (name ++ ending.written)) else none
    | _ => none

def gluedTags : List Token → Text
  | [] => []
  | t :: rest =>
    match t.glued? with
    | none => []
    | some tag => tag ++ gluedTags rest

theorem glued?_of_afterBlank {t : Token} (h : t.afterBlank = true) : t.glued? = none := by
  rw [Token.glued?, if_pos h]

theorem isEnclosed_of_glued? {t : Token} {tag : Text} (h : t.glued? = some tag) :
    IsEnclosed tag := by
  unfold Token.glued? at h
  split at h
  · simp at h
  · split at h
    next name _ _ =>
      obtain rfl := Option.some.inj h
      exact ⟨'/' :: name, rfl⟩
    next name attributes _ ending _ =>
      split at h
      · obtain rfl := Option.some.inj h
        simpa using isEnclosed_opening name [] ending
      · simp at h
    next => simp at h

theorem isTag_of_glued? {t : Token} {tag : Text} (h : t.glued? = some tag) : t.lexeme.IsTag := by
  unfold Token.glued? at h
  split at h
  · simp at h
  · split at h
    next hlexeme => exact hlexeme ▸ trivial
    next hlexeme => exact hlexeme ▸ trivial
    next => simp at h

theorem startsApart_gluedTags (ts : List Token) : StartsApart (gluedTags ts) := by
  cases ts with
  | nil => exact startsApart_nil
  | cons t ts =>
    rw [gluedTags]
    cases hglued : t.glued? with
    | none => exact startsApart_nil
    | some tag =>
      exact startsApart_append (isEnclosed_of_glued? hglued).startsApart (startsApart_gluedTags ts)

theorem endsApart_append_gluedTags (s : Text) {ts : List Token} (h : gluedTags ts ≠ []) :
    EndsApart (s ++ gluedTags ts) := by
  induction ts generalizing s with
  | nil => exact absurd rfl h
  | cons t ts ih =>
    rw [gluedTags] at h ⊢
    cases hglued : t.glued? with
    | none => simp [hglued] at h
    | some tag =>
      dsimp only
      rw [← List.append_assoc]
      by_cases hnil : gluedTags ts = []
      · rw [hnil, List.append_nil]
        exact (isEnclosed_of_glued? hglued).endsApart_append s
      · exact ih (s ++ tag) hnil

theorem isColumn_of_range {c : Char} (h : '!' ≤ c ∧ c ≤ '~') : IsColumn c := by
  refine ⟨Nat.le_trans (Char.le_def.mp h.2) (by decide), ?_, ?_⟩
  · rintro rfl
    exact absurd h.1 (by decide)
  · rintro rfl
    exact absurd h.1 (by decide)

theorem utf8Size_of_range {c : Char} (h : '!' ≤ c ∧ c ≤ '~') : c.utf8Size = 1 := by
  have hval : c.val ≤ 0x7f := UInt32.le_trans (Char.le_def.mp h.2) (by decide)
  simp [Char.utf8Size, hval]

theorem byteSize_of_range {s : Text} (h : ∀ c ∈ s, '!' ≤ c ∧ c ≤ '~') : byteSize s = s.length := by
  induction s with
  | nil => rfl
  | cons c s ih =>
    rw [byteSize_cons, utf8Size_of_range (h c List.mem_cons_self), ih fun d hd =>
      h d (List.mem_cons_of_mem c hd), List.length_cons, Nat.add_comm]

theorem range_of_mem_name {name : Text} (h : isTagName name) : ∀ c ∈ name, '!' ≤ c ∧ c ≤ '~' :=
  fun c hc => range_of_isTagNameChar ((isTagName_iff.mp h).2 c hc)

theorem range_of_mem_ending {ending : Ending} : ∀ c ∈ ending.written, '!' ≤ c ∧ c ≤ '~' := by
  cases ending <;> simp [Ending.written]

/-- A tag that is glued is made of visible characters of one byte each. -/
theorem range_of_mem_glued {t : Token} (ht : t.lexeme.Fits t.lexeme.written) {tag : Text}
    (h : t.glued? = some tag) :
    ∀ c ∈ tag, '!' ≤ c ∧ c ≤ '~' := by
  have hmarks : ∀ c ∈ ['<', '/', '>'], '!' ≤ c ∧ c ≤ '~' := by simp
  have hread : ∀ t', t.lexeme = .tag t' → t'.IsRead := by
    intro t' hlexeme
    rw [hlexeme] at ht
    exact tag?_eq_some_isRead (ht [])
  unfold Token.glued? at h
  split at h
  · simp at h
  · split at h
    next lead name trail hlexeme =>
      have hname := range_of_mem_name (hread _ hlexeme).2.1
      obtain rfl := Option.some.inj h
      intro c hc
      have hcases : c = '<' ∨ c = '/' ∨ c ∈ name ∨ c = '>' := by simpa using hc
      rcases hcases with rfl | rfl | hc | rfl
      · exact hmarks _ (by simp)
      · exact hmarks _ (by simp)
      · exact hname c hc
      · exact hmarks _ (by simp)
    next name attributes gap ending hlexeme =>
      have hname := range_of_mem_name (hread _ hlexeme).1
      split at h
      · obtain rfl := Option.some.inj h
        intro c hc
        have hcases : c = '<' ∨ c ∈ name ∨ c ∈ ending.written := by simpa using hc
        rcases hcases with rfl | hc | hc
        · exact hmarks _ List.mem_cons_self
        · exact hname c hc
        · exact range_of_mem_ending c hc
      · simp at h
    next => simp at h

theorem range_of_mem_gluedTags {ts : List Token} (hts : ∀ t ∈ ts, t.lexeme.Fits t.lexeme.written) :
    ∀ c ∈ gluedTags ts, '!' ≤ c ∧ c ≤ '~' := by
  induction ts with
  | nil => simp [gluedTags]
  | cons t ts ih =>
    intro c hc
    rw [gluedTags] at hc
    cases hglued : t.glued? with
    | none => simp [hglued] at hc
    | some tag =>
      rw [hglued] at hc
      rcases List.mem_append.mp hc with hc | hc
      · exact range_of_mem_glued (hts t List.mem_cons_self) hglued c hc
      · exact ih (fun u hu => hts u (List.mem_cons_of_mem t hu)) c hc

/-- The columns that are counted for the tags right after a text are their characters. -/
theorem gluedWidth_eq_length {ts : List Token} (hts : ∀ t ∈ ts, t.lexeme.Fits t.lexeme.written) :
    Job.gluedWidth ts = (gluedTags ts).length := by
  induction ts with
  | nil => rfl
  | cons t ts ih =>
    have hrest := ih fun u hu => hts u (List.mem_cons_of_mem t hu)
    have ht := hts t List.mem_cons_self
    obtain ⟨offset, afterBlank, lexeme⟩ := t
    cases afterBlank with
    | true => rfl
    | false =>
      cases lexeme with
      | text s => rfl
      | raw s => rfl
      | unrecognized s => rfl
      | tag t =>
        have hread : t.IsRead := tag?_eq_some_isRead (ht [])
        cases t with
        | closing lead name trail =>
          change byteSize name + 3 + Job.gluedWidth ts =
            ('<' :: '/' :: (name ++ ['>']) ++ gluedTags ts).length
          rw [byteSize_of_range (range_of_mem_name hread.2.1), hrest]
          simp only [List.length_append, List.length_cons, List.length_nil]
        | opening name attributes gap ending =>
          have hsize : byteSize name = name.length := byteSize_of_range (range_of_mem_name hread.1)
          cases hblank : allBlank attributes with
          | false => simp [Job.gluedWidth, gluedTags, Token.glued?, hblank]
          | true =>
            simp only [Job.gluedWidth, gluedTags, Token.glued?, hblank, if_true, Bool.false_eq_true,
              if_false, hsize, hrest, byteSize_of_range range_of_mem_ending, List.length_append,
              List.length_cons]
            omega

end Glued

section Steps

variable {j : Job} {p q : Page}

theorem formatAttributes_of_allBlank (style : AttributeStyle) (measure : Text → Nat)
    (name ending : Text) (depth : Nat) {attributes : Text} (h : allBlank attributes) :
    formatAttributes style measure name (trim attributes) ending depth = [] := by
  have htrim : allBlank (trim attributes) :=
    List.all_eq_true.mpr fun c hc => List.all_eq_true.mp h c ((trim_isInfix _).subset hc)
  rw [formatAttributes, if_pos htrim]

theorem Page.pop_ne_ok_of_blocks_nil (h : p.blocks = []) (closer : Closer) (found : Text) :
    p.pop closer found ≠ .ok q := by
  rw [Page.pop, h]
  exact fun heq => by simp [BlockStack.pop] at heq

namespace Job

/-- A tag is put out as it is laid out, on a new line or right after the output, and as it is
counted if it is glued. -/
theorem exists_output_layTag {t : Token} (htag : t.lexeme.IsTag) {following : List Token}
    (h : j.layToken t following p = .ok q) :
    ∃ depth tag, IsEnclosed tag ∧ q.output = p.output ++ (gapAt t.afterBlank depth ++ tag) ∧
      (p.blocks = [] → depth = 0) ∧ (∀ glued ∈ t.glued?, glued = gapAt t.afterBlank depth ++ tag) ∧
      ∀ t', t.lexeme = .tag t' → j.Lays (.tag t') tag := by
  obtain ⟨offset, afterBlank, lexeme⟩ := t
  cases lexeme with
  | text s => exact htag.elim
  | raw s => exact htag.elim
  | unrecognized s => exact htag.elim
  | tag t =>
    cases t with
    | closing lead name trail =>
      obtain ⟨r, hpop, hq⟩ := bind_eq_ok h
      have henclosed : IsEnclosed ('<' :: '/' :: (name ++ ['>'])) := ⟨'/' :: name, rfl⟩
      refine ⟨r.depth, _, henclosed, ?_, ?_, ?_, fun t' ht' => Lexeme.tag.inj ht' ▸ rfl⟩
      · rw [← Except.ok.inj hq, output_emit_enclosed r henclosed, Page.output_pop hpop]
      · intro hblocks
        exact absurd hpop (Page.pop_ne_ok_of_blocks_nil (p := { p with position := offset })
          hblocks _ _)
      · intro glued hglued
        cases afterBlank with
        | true => simp [Token.glued?] at hglued
        | false =>
          obtain rfl : _ = glued := Option.some.inj hglued
          rfl
    | opening name attributes gap ending =>
      by_cases hname : isTagName name
      · change j.layOpening name attributes ending afterBlank { p with position := offset } =
          .ok q at h
        rw [layOpening_eq hname] at h
        have henclosed : IsEnclosed (laidTag j.style j.width name attributes ending p.depth) :=
          isEnclosed_opening _ _ _
        refine ⟨p.depth, _, henclosed, ?_, ?_, ?_, fun t' ht' => Lexeme.tag.inj ht' ▸
          ⟨p.depth, rfl⟩⟩
        · rw [← Except.ok.inj h, output_putOpening]
          exact output_emit_enclosed { p with position := offset } henclosed afterBlank
        · intro hblocks
          rw [Page.depth, hblocks]
          rfl
        · intro glued hglued
          cases afterBlank with
          | true => simp [Token.glued?] at hglued
          | false =>
            have hcases : allBlank attributes = true ∧ '<' :: (name ++ ending.written) = glued := by
              simpa [Token.glued?] using hglued
            obtain ⟨hblank, rfl⟩ := hcases
            rw [laidTag, formatAttributes_of_allBlank _ _ _ _ _ hblank]
            simp [gapAt]
      · change j.layOpening name attributes ending afterBlank { p with position := offset } =
          .ok q at h
        simp [layOpening, hname] at h

variable (hj : ∀ digits, j.table.code? digits = none)
include hj

/-- When no marker stands for code, a text is put out as its lines and perhaps an empty line. -/
theorem output_layToken_text {t : Token} {s : Text} (ht : t.lexeme = .text s)
    {following : List Token} (h : j.layToken t following p = .ok q) :
    q.output = p.output ++
        (laidLines p.depth (startsBlank s) (j.linesOf s (gluedWidth following) p) ++
          paragraphBreak s) ∧
      q.blocks = p.blocks := by
  obtain ⟨offset, afterBlank, lexeme⟩ := t
  obtain rfl : lexeme = .text s := ht
  change j.layTextToken offset s (gluedWidth following) { p with position := offset } = .ok q at h
  rw [layTextToken_of_noCode hj] at h
  split at h
  · simp at h
  · obtain rfl := Except.ok.inj h
    exact ⟨j.output_layText s _ { p with position := offset },
      j.blocks_layText s _ { p with position := offset }⟩

/-- A token adds to the output. -/
theorem exists_output_layToken {t : Token} {following : List Token}
    (h : j.layToken t following p = .ok q) :
    ∃ u, q.output = p.output ++ u := by
  cases hlexeme : t.lexeme with
  | text s => exact ⟨_, (output_layToken_text hj hlexeme h).1⟩
  | tag tag =>
    obtain ⟨depth, tag, -, hout, -⟩ := exists_output_layTag (t := t) (by rw [hlexeme]; trivial) h
    exact ⟨_, hout⟩
  | raw s =>
    simp only [layToken, hlexeme] at h
    exact ⟨trimEnd s, by rw [← Except.ok.inj h, Page.output_append]⟩
  | unrecognized s => simp [layToken, hlexeme] at h

/-- The tags right after the page are put out first. -/
theorem exists_output_layTokens {ts : List Token} (h : j.layTokens ts p = .ok q) :
    ∃ more, q.output = p.output ++ (gluedTags ts ++ more) := by
  induction ts generalizing p with
  | nil =>
    obtain rfl := Except.ok.inj h
    exact ⟨[], by simp [gluedTags]⟩
  | cons t ts ih =>
    obtain ⟨r, hstep, hrest⟩ := bind_eq_ok h
    obtain ⟨more, hmore⟩ := ih hrest
    rw [gluedTags]
    cases hglued : t.glued? with
    | none =>
      obtain ⟨u, hu⟩ := exists_output_layToken hj hstep
      exact ⟨u ++ (gluedTags ts ++ more), by rw [hmore, hu]; simp⟩
    | some tag =>
      obtain ⟨depth, laid, -, hout, -, hsame, -⟩ :=
        exists_output_layTag (isTag_of_glued? hglued) hstep
      rw [← hsame tag hglued] at hout
      exact ⟨more, by rw [hmore, hout]; simp⟩

/-- What is put out after a text, whose neighbour is a tag, does not run into it. -/
theorem startsApart_layTokens {ts : List Token} (htag : ∀ t ∈ ts.head?, t.lexeme.IsTag)
    (h : j.layTokens ts p = .ok q) {u : Text} (hu : q.output = p.output ++ u) : StartsApart u := by
  cases ts with
  | nil =>
    obtain rfl := Except.ok.inj h
    obtain rfl : u = [] := by simpa using hu
    exact startsApart_nil
  | cons t ts =>
    obtain ⟨r, hstep, hrest⟩ := bind_eq_ok h
    obtain ⟨depth, tag, henclosed, hout, -⟩ := exists_output_layTag (htag t rfl) hstep
    obtain ⟨more, hmore⟩ := exists_output_layTokens hj hrest
    have hwhole : u = gapAt t.afterBlank depth ++ tag ++ (gluedTags ts ++ more) := by
      rw [hmore, hout, List.append_assoc, List.append_right_inj] at hu
      exact hu.symm
    obtain ⟨v, rfl⟩ := henclosed
    rw [hwhole, gapAt]
    split
    · exact startsApart_cons (by decide) _
    · exact startsApart_cons (by decide) _

end Job

end Steps

section Before

namespace Job

variable {j : Job}

def layBefore (j : Job) (rest : List Token) : List Token → Page → Except Stop Page
  | [], p => .ok p
  | t :: ts, p => do j.layBefore rest ts (← j.layToken t (ts ++ rest) p)

theorem layTokens_append (j : Job) (ts rest : List Token) (p : Page) :
    j.layTokens (ts ++ rest) p = j.layBefore rest ts p >>= j.layTokens rest := by
  induction ts generalizing p with
  | nil => rfl
  | cons t ts ih =>
    rw [List.cons_append, layTokens, layBefore]
    cases j.layToken t (ts ++ rest) p with
    | error stop => rfl
    | ok q => exact ih q

theorem layBefore_concat (j : Job) (ts rest : List Token) (t : Token) (p : Page) :
    j.layBefore rest (ts ++ [t]) p = j.layBefore (t :: rest) ts p >>= j.layToken t rest := by
  induction ts generalizing p with
  | nil =>
    rw [List.nil_append, layBefore, layBefore, List.nil_append]
    change _ = j.layToken t rest p
    cases j.layToken t rest p <;> rfl
  | cons u ts ih =>
    rw [List.cons_append, layBefore, layBefore, List.append_assoc, List.singleton_append]
    cases j.layToken u (ts ++ t :: rest) p with
    | error stop => rfl
    | ok q => exact ih q

end Job

/-- Empty lines, and then nothing with no block open or something that can be seen. -/
def Page.BeginsLine (p : Page) : Prop :=
  ∃ margin shown, p.output = margin ++ shown ∧ (∀ c ∈ margin, c = '\n') ∧
    startsBlank shown = false ∧
    (shown = [] → p.blocks = [])

theorem beginsLine_blank : Page.blank.BeginsLine := ⟨[], [], rfl, by simp, rfl, fun _ => rfl⟩

namespace Page.BeginsLine

variable {p q : Page} (h : p.BeginsLine)
include h

/-- What is put out first has to begin a line; later on the start of the page stays. -/
theorem append {u : Text} (hout : q.output = p.output ++ u)
    (hfirst : p.blocks = [] → ∃ margin shown, u = margin ++ shown ∧ (∀ c ∈ margin, c = '\n') ∧
      startsBlank shown = false ∧ (shown = [] → q.blocks = [])) : q.BeginsLine := by
  obtain ⟨margin, shown, hp, hmargin, hstart, hnone⟩ := h
  by_cases hshown : shown = []
  · obtain ⟨margin', shown', rfl, hmargin', hstart', hnone'⟩ := hfirst (hnone hshown)
    refine ⟨margin ++ margin', shown', by rw [hout, hp, hshown]; simp, ?_, hstart', hnone'⟩
    intro c hc
    exact (List.mem_append.mp hc).elim (hmargin c) (hmargin' c)
  · refine ⟨margin, shown ++ u, by rw [hout, hp, List.append_assoc], hmargin, ?_, ?_⟩
    · rw [startsBlank_append hshown]
      exact hstart
    · intro hnil
      exact absurd (List.append_eq_nil_iff.mp hnil).1 hshown

theorem append_of_sealed (hsealed : Sealed p.output) {u : Text} (hout : q.output = p.output ++ u) :
    q.BeginsLine := by
  obtain ⟨margin, shown, hp, hmargin, hstart, hnone⟩ := h
  have hshown : shown ≠ [] := by
    rintro rfl
    rw [hp, List.append_nil] at hsealed
    have hfeed : '>' = '\n' := hmargin _ (List.mem_of_mem_getLast? hsealed)
    exact absurd hfeed (by decide)
  refine ⟨margin, shown ++ u, by rw [hout, hp, List.append_assoc], hmargin, ?_, ?_⟩
  · rw [startsBlank_append hshown]
    exact hstart
  · intro hnil
    exact absurd (List.append_eq_nil_iff.mp hnil).1 hshown

end Page.BeginsLine

theorem sealed_append_enclosed (s : Text) {tag : Text} (h : IsEnclosed tag) :
    Sealed (s ++ tag) := by
  obtain ⟨u, rfl⟩ := h
  have hlast : ('<' :: u ++ ['>']).getLast? = some '>' := List.getLast?_concat
  exact sealed_append s hlast

namespace Job

variable {j : Job} {p q : Page}

theorem beginsLine_layTag {t : Token} (htag : t.lexeme.IsTag) {following : List Token}
    (hp : p.BeginsLine) (h : j.layToken t following p = .ok q) :
    q.BeginsLine ∧ Sealed q.output := by
  obtain ⟨depth, tag, henclosed, hout, hdepth, -⟩ := exists_output_layTag htag h
  constructor
  · apply hp.append hout
    intro hblocks
    refine ⟨gapAt t.afterBlank depth, tag, rfl, ?_, henclosed.isVisible.starts, fun hnil => ?_⟩
    · rw [hdepth hblocks, gapAt]
      split
      · intro c hc
        simpa [onNewLine, indentation, trim, trimStart, trimEnd] using hc
      · simp
    · exact absurd hnil henclosed.isVisible.ne_nil
  · rw [hout, ← List.append_assoc]
    exact sealed_append_enclosed _ henclosed

theorem beginsLine_layText (hj : ∀ digits, j.table.code? digits = none) {t : Token} {s : Text}
    (ht : t.lexeme = .text s) {following : List Token} (hp : p.BeginsLine)
    (h : j.layToken t following p = .ok q) : q.BeginsLine := by
  obtain ⟨hout, hblocks'⟩ := output_layToken_text hj ht h
  apply hp.append hout
  intro hblocks
  have hdepth : p.depth = 0 := by
    rw [Page.depth, hblocks]
    rfl
  have hbreak : ∀ c ∈ paragraphBreak s, c = '\n' := by
    intro c hc
    unfold paragraphBreak at hc
    split at hc
    · simpa using hc
    · simp at hc
  have hvisible := (packed_words j.width (if startsBlank s then j.room p else
    j.options.lineWidth - j.width (lastLine p.output)) (j.room p) (gluedWidth following) s).2
  rw [hdepth]
  change ∀ line ∈ j.linesOf s (gluedWidth following) p, IsVisible line at hvisible
  cases hlines : j.linesOf s (gluedWidth following) p with
  | nil =>
    exact ⟨paragraphBreak s, [], by simp [laidLines], hbreak, rfl,
      fun _ => by rw [hblocks', hblocks]⟩
  | cons line lines =>
    have hline : IsVisible line := hvisible line (by rw [hlines]; exact List.mem_cons_self)
    have hshown : ∀ more : Text, startsBlank (line ++ more) = false ∧
        (line ++ more = [] → q.blocks = []) := by
      intro more
      constructor
      · rw [startsBlank_append hline.ne_nil]
        exact hline.starts
      · intro hnil
        exact absurd (List.append_eq_nil_iff.mp hnil).1 hline.ne_nil
    refine ⟨if startsBlank s then ['\n'] else [],
      line ++ (lines.flatMap (onNewLine 0) ++ paragraphBreak s), ?_, ?_,
      hshown _⟩
    · rw [laidLines]
      split
      · rw [onNewLine, hline.trim_eq]
        simp [indentation]
      · simp
    · split
      · simp
      · simp

/-- The page before a token of a body begins a line, and it ends with a tag if the token before is
one. -/
theorem beginsLine_layBefore (hj : ∀ digits, j.table.code? digits = none) {body : Text}
    {before rest : List Token} (htokens : tokens body = before ++ rest)
    (h : j.layBefore rest before Page.blank = .ok p) :
    p.BeginsLine ∧ (before = [] → p = Page.blank) ∧ ∀ t ∈ before.getLast?, t.lexeme.IsTag →
      Sealed p.output := by
  induction before using List.reverseRecOn generalizing rest p with
  | nil =>
    obtain rfl := Except.ok.inj h
    exact ⟨beginsLine_blank, fun _ => rfl, by simp⟩
  | append_singleton before t ih =>
    rw [List.append_assoc, List.singleton_append] at htokens
    rw [layBefore_concat] at h
    obtain ⟨r, hbefore, hstep⟩ := bind_eq_ok h
    obtain ⟨hr, -, hsealed⟩ := ih htokens hbefore
    have hlast : ∀ u ∈ (before ++ [t]).getLast?, u = t := by
      intro u hu
      simpa [eq_comm] using hu
    refine ⟨?_, by simp, fun u hu htag => ?_⟩
    · cases hlexeme : t.lexeme with
      | tag tag => exact (beginsLine_layTag (by rw [hlexeme]; trivial) hr hstep).1
      | text s => exact beginsLine_layText hj hlexeme hr hstep
      | unrecognized s => simp [layToken, hlexeme] at hstep
      | raw s =>
        -- raw content follows the tag that opens its container
        have hfollow := (tokens_tile body).order before t rest htokens
        rw [hlexeme] at hfollow
        obtain ⟨name, attributes, gap, hopening, -⟩ := hfollow
        obtain ⟨u, hu, hu'⟩ := Option.map_eq_some_iff.mp hopening
        obtain ⟨more, hmore⟩ := exists_output_layToken hj hstep
        exact hr.append_of_sealed (hsealed u hu (by rw [hu']; trivial)) hmore
    · rw [hlast u hu] at htag
      exact (beginsLine_layTag htag hr hstep).2

/-- A text is laid out at the start of the output or after a tag. -/
theorem sealed_before_text (hj : ∀ digits, j.table.code? digits = none) {body : Text}
    {before rest : List Token} {t : Token} {s : Text} (htokens : tokens body = before ++ t :: rest)
    (ht : t.lexeme = .text s) (h : j.layBefore (t :: rest) before Page.blank = .ok p) :
    p.output = [] ∨ Sealed p.output := by
  obtain ⟨-, hblank, hsealed⟩ := beginsLine_layBefore hj htokens h
  cases hlast : before.getLast? with
  | none =>
    left
    rw [hblank (List.getLast?_eq_none_iff.mp hlast)]
    rfl
  | some u => exact Or.inr (hsealed u hlast ((neighbours_of_text htokens ht).1 u hlast))

end Job

end Before

end ErbLayout
