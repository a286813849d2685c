import ErbLayout.Proofs.CanonicalLayout
import ErbLayout.Proofs.Layout.SettledTag
import ErbLayout.Proofs.LeadingBlanks
import ErbLayout.Proofs.RenderedCode
import ErbLayout.Proofs.Text.Width

/-!
Laying out a body that is laid out. The body that comes out is read as rows with code tags in their
place, and these are laid out as the same text exactly when the rows before were steady. The body is
plain: the blanks in its tags are, and no sign in it is taken for markup when it is read again. A
body whose values stand in quotes with no blank next to them is steady, up to its last text.
-/

namespace ErbLayout

open Text Markup Code Layout MarkerTable

section Plain

def Markup.Lexeme.IsUnambiguous : Lexeme → Prop
  | .text s => holdsTagSign s = false ∧ holdsOpening s = false
  | .raw s => holdsOpening s = false
  | .tag t => t.IsPlain
  | .unrecognized _ => True

instance (l : Lexeme) : Decidable l.IsUnambiguous :=
  match l with
  | .text s => inferInstanceAs (Decidable (holdsTagSign s = false ∧ holdsOpening s = false))
  | .raw s => inferInstanceAs (Decidable (holdsOpening s = false))
  | .tag t => inferInstanceAs (Decidable t.IsPlain)
  | .unrecognized _ => inferInstanceAs (Decidable True)

/-- Nothing in the body looks like a marker, and its text and tags are plain. -/
structure IsPlainBody (body : Text) : Prop where
  noMarker : markerLikes.first? body = none
  lexemes : ∀ l ∈ lexemes (extractCode body).1, l.IsUnambiguous

/-- The tags of the body are steady at their places, and a line feed after its last text makes no
bad attribute. -/
def IsSteadyBody (options : Options) (body : Text) : Prop :=
  (⟨options, (extractCode body).2⟩ : Job).IsSteadyFrom [] (lexemes (extractCode body).1)

instance (options : Options) (body : Text) : Decidable (IsSteadyBody options body) :=
  inferInstanceAs (Decidable ((⟨options, (extractCode body).2⟩ : Job).IsSteadyFrom []
    (lexemes (extractCode body).1)))

/-- The values of the body stand in quotes, with no blank next to them, and a line feed after its
last text makes no bad attribute. -/
structure IsSettledBody (body : Text) : Prop where
  values : ∀ l ∈ lexemes (extractCode body).1, ∀ a ∈ attributesOf l.attributes, a.IsSettled
  finish : ∀ s ∈ lastText? (lexemes (extractCode body).1),
    badAttributes.occursIn (squeeze (s ++ ['\n'])) = false

theorem Markup.Lexeme.IsUnambiguous.isClear {l : Lexeme} (h : l.IsUnambiguous) : l.IsClear := by
  cases l with
  | text s => exact h.1
  | raw s => trivial
  | tag t => trivial
  | unrecognized s => trivial

theorem Markup.Lexeme.IsUnambiguous.hasPlainBlanks_attributes {l : Lexeme} (h : l.IsUnambiguous) :
    HasPlainBlanks l.attributes := by
  match l with
  | .tag (.opening name attributes gap ending) => exact h.1
  | .tag (.closing lead name trail) => exact fun c hc => absurd hc List.not_mem_nil
  | .text s => exact fun c hc => absurd hc List.not_mem_nil
  | .raw s => exact fun c hc => absurd hc List.not_mem_nil
  | .unrecognized s => exact fun c hc => absurd hc List.not_mem_nil

theorem isPlainContent_of_lexeme {table : MarkerTable} {container : Option Text} {x : Text}
    (hcode : HasCode table x) (h : ∀ l ∈ leadingLexeme container x, l.IsUnambiguous) :
    IsPlainContent table container x := by
  refine ⟨?_, fun _ => hcode⟩
  by_cases hx : x = []
  · subst hx
    rfl
  · rw [leadingLexeme_of_ne_nil container hx] at h
    cases container with
    | none => exact (h (.text x) List.mem_cons_self).2
    | some name => exact h (.raw x) List.mem_cons_self

/-- Rows are plain when their lexemes are. -/
theorem plainRows_of_lexemes {table : MarkerTable} {container : Option Text} {x : Text}
    {rows : List (Tag × Text)} (hcode : HasCode table (x ++ rowsWritten rows))
    (hlexemes : ∀ l ∈ leadingLexeme container x ++ rowsLexemes rows, l.IsUnambiguous) :
    PlainRows table container x rows := by
  induction rows generalizing container x with
  | nil =>
    simp only [rowsWritten, rowsLexemes, List.flatMap_nil, List.append_nil] at hcode hlexemes
    exact isPlainContent_of_lexeme hcode hlexemes
  | cons row rows ih =>
    obtain ⟨t, u⟩ := row
    rw [rowsLexemes_cons] at hlexemes
    have hfound := found_rows_cons x t u rows
    refine ⟨isPlainContent_of_lexeme ?_ fun l hl => hlexemes l (List.mem_append_left _ hl),
      ?_, ih ?_ ?_⟩
    · exact fun d hd => hcode d (hfound ▸ List.mem_append_left _ hd)
    · exact hlexemes (.tag t) (List.mem_append_right _ List.mem_cons_self)
    · exact fun d hd => hcode d (hfound ▸ List.mem_append_right _ (List.mem_append_right _ hd))
    · exact fun l hl => hlexemes l (List.mem_append_right _ (List.mem_cons_of_mem _ hl))

namespace PlainRows

variable {table : MarkerTable} {container : Option Text} {x : Text} {rows : List (Tag × Text)}

theorem content (h : PlainRows table container x rows) : IsPlainContent table container x := by
  cases rows with
  | nil => exact h
  | cons row rows => exact h.1

/-- Rows stay plain without the blanks they begin with. -/
theorem trimStart (h : PlainRows table none x rows) :
    PlainRows table none (Text.trimStart x) rows := by
  have hcontent : IsPlainContent table none (Text.trimStart x) := by
    obtain ⟨hopening, hcode⟩ := h.content
    refine ⟨(holdsOpening_congr (words_trimStart x)).trans hopening, fun hnone => ?_⟩
    obtain ⟨lead, hx, hblank⟩ := exists_append_trimStart x
    rw [HasCode, ← found_lead hblank, ← hx]
    exact hcode hnone
  cases rows with
  | nil => exact hcontent
  | cons row rows => exact ⟨hcontent, h.2⟩

theorem rendered (htable : table.literals = []) (shown : List Text)
    (h : PlainRows table container x rows) :
    PlainRows (table.rendered shown) container x rows := by
  have hcontent : ∀ {container : Option Text} {x : Text}, IsPlainContent table container x →
      IsPlainContent (table.rendered shown) container x := by
    intro container x hx
    refine ⟨hx.noOpening, fun hnone d hd => ?_⟩
    rw [code?_rendered htable, Option.isSome_map]
    exact hx.code hnone d hd
  induction rows generalizing container x with
  | nil => exact hcontent h
  | cons row rows ih => exact ⟨hcontent h.1, h.2.1, ih h.2.2⟩

end PlainRows

end Plain

section Bodies

/-- Blanks that code is put back before are trimmed off as they were without the code. -/
theorem trim_restore {table : MarkerTable} (htable : IsCleanTable table) {s : Text}
    (hstart : startsBlank (trimEnd s) = false) :
    trim (table.restore s) = table.restore (trimEnd s) := by
  obtain ⟨trail, htrail, hblank⟩ := exists_trimEnd_append s
  have hstart' : startsBlank (table.restore (trimEnd s)) = false := by
    rw [htable.isVisible.startsBlank_restore, hstart]
  have hend : endsBlank (table.restore (trimEnd s)) = false := by
    rw [htable.isVisible.endsBlank_restore, endsBlank_trimEnd]
  conv_lhs => rw [htrail, restore_trail table _ hblank]
  exact trim_trail hblank hstart' hend

/-- A body is laid out when its rows are and no block is left open. -/
theorem Job.exists_layBody_iff {j : Job} {x : Text} {rows : List (Tag × Text)}
    (hread : CanRead none x rows) (output : Text) :
    (∃ p, j.layBody (x ++ rowsWritten rows) = .ok p ∧ p.output = output) ↔
      ∃ q, j.layRows none x rows Page.blank = .ok q ∧ q.blocks = [] ∧ q.output = output := by
  have hagree : Agree [] (j.layTokens (tokens (x ++ rowsWritten rows)) Page.blank)
      (j.layRows none x rows Page.blank) := by
    rw [tokens, lexemes, lexemesIn_rows hread]
    exact agree_layTokens_rows none x rows 0 (.refl Page.blank)
  rcases j.layBody_cases (x ++ rowsWritten rows)
    with ⟨stop, htokens, hbody⟩ | ⟨p, htokens, hblocks, hbody⟩ |
    ⟨p, htokens, hblocks, hbody⟩
  · rw [htokens] at hagree
    rw [hbody]
    generalize j.layRows none x rows Page.blank = r at hagree
    cases hagree
    simp
  · obtain ⟨q, hq, hpages⟩ := exists_of_agree_ok (htokens ▸ hagree)
    have hout : p.output = q.output := hpages.output
    have hblocks' : q.blocks = [] := hpages.blocks ▸ hblocks
    rw [hbody, hq]
    simp [hout, hblocks']
  · obtain ⟨q, hq, hpages⟩ := exists_of_agree_ok (htokens ▸ hagree)
    have hblocks' : q.blocks ≠ [] := hpages.blocks ▸ hblocks
    rw [hbody, hq]
    simp [hblocks']

/-- The body is laid out as the text, without the line feed at the end. -/
def LaysOut (options : Options) (body out : Text) : Prop :=
  ∃ page, (⟨options, (extractCode body).2⟩ : Job).layBody (extractCode body).1 = .ok page ∧
    trim ((extractCode body).2.restore page.output) = out

/-- The rows are laid out as the text, without the line feed at the end, and no block is left
open. -/
def LaysOutRows (options : Options) (table : MarkerTable) (x : Text) (rows : List (Tag × Text))
    (out : Text) : Prop :=
  ∃ q, (⟨options, table⟩ : Job).layRows none x rows Page.blank = .ok q ∧ q.blocks = [] ∧
    trim (table.restore q.output) = out

theorem laysOut_iff {options : Options} {body out x : Text} {rows : List (Tag × Text)}
    {table : MarkerTable} (hbody : extractCode body = (x ++ rowsWritten rows, table))
    (hread : CanRead none x rows) :
    LaysOut options body out ↔ LaysOutRows options table x rows out := by
  have hrows := fun output => Job.exists_layBody_iff (j := ⟨options, table⟩) hread output
  rw [LaysOut, LaysOutRows, hbody]
  constructor
  · rintro ⟨page, hpage, hout⟩
    obtain ⟨q, hq, hblocks, houtput⟩ := (hrows page.output).mp ⟨page, hpage, rfl⟩
    exact ⟨q, hq, hblocks, by rw [houtput, hout]⟩
  · rintro ⟨q, hq, hblocks, hout⟩
    obtain ⟨page, hpage, houtput⟩ := (hrows q.output).mpr ⟨q, hq, hblocks, rfl⟩
    exact ⟨page, hpage, by rw [houtput, hout]⟩

theorem LaysOut.unique {options : Options} {body out out' : Text} (h : LaysOut options body out)
    (h' : LaysOut options body out') : out' = out := by
  obtain ⟨page, hpage, rfl⟩ := h
  obtain ⟨page', hpage', rfl⟩ := h'
  rw [hpage] at hpage'
  rw [Except.ok.inj hpage']

end Bodies

section Again

theorem IsCleanTable.readsCode {options : Options} {table : MarkerTable} (h : IsCleanTable table) :
    (⟨options, table⟩ : Job).ReadsCode := by
  intro digits code hcode
  obtain ⟨tag, hwritten, hrun⟩ := (h.of_code? hcode).1
  exact ⟨tag, hwritten ▸ ofText?_written (hrun []), isRead_of_run (hrun [])⟩

theorem startsBlank_rows {x : Text} (hx : startsBlank x = false) (rows : List (Tag × Text)) :
    startsBlank (x ++ rowsWritten rows) = false := by
  by_cases hnil : x = []
  · rw [hnil, List.nil_append]
    cases rows with
    | nil => rfl
    | cons row rows =>
      obtain ⟨t, u⟩ := row
      have hvisible := (isEnclosed_written t).isVisible
      rw [rowsWritten_cons, startsBlank_append hvisible.ne_nil, hvisible.starts]
  · rw [startsBlank_append hnil, hx]

theorem canRead_congr {x x' : Text} {rows : List (Tag × Text)} (h : CanRead none x rows)
    (hwords : words x' = words x) :
    CanRead none x' rows := by
  have hclear : IsClear none x → IsClear none x' := fun hx => (holdsTagSign_congr hwords).trans hx
  cases rows with
  | nil => exact hclear h
  | cons row rows => exact ⟨hclear h.1, h.2⟩

theorem hasCode_of_numbered {table : MarkerTable} (htable : table.literals = []) {s : Text}
    (h : markers.found s = (List.range table.codes.length).map (Nat.toDigits 10)) :
    HasCode table s := by
  intro d hd
  rw [h] at hd
  obtain ⟨n, hn, rfl⟩ := List.mem_map.mp hd
  rw [code?_toDigits htable, List.getElem?_eq_getElem (List.mem_range.mp hn)]
  rfl

/-- Plain rows that can be read, with markers for the code tags of the table, each of them once and
in order. -/
structure PlainReading (table : MarkerTable) (x : Text) (rows : List (Tag × Text)) : Prop where
  clean : IsCleanTable table
  numbered : markers.found (x ++ rowsWritten rows) =
    (List.range table.codes.length).map (Nat.toDigits 10)
  reads : CanRead none x rows
  plain : PlainRows table none x rows

/-- The text, with a line feed after it, is read as the rows, with the code tags of the table in
place of the markers. -/
structure Rereads (out x : Text) (rows : List (Tag × Text)) (table : MarkerTable) : Prop
    extends PlainReading table x rows where
  shown : IsShown table (textMarkers none x rows)
  noOpening : holdsOpening (x ++ rowsWritten rows) = false
  written : table.restore (x ++ rowsWritten rows) = out ++ ['\n']

namespace PlainReading

variable {table : MarkerTable} {x : Text} {rows : List (Tag × Text)} (h : PlainReading table x rows)
include h

theorem hasCode : HasCode table x := h.plain.content.code rfl

theorem trimStart : PlainReading table (Text.trimStart x) rows := by
  refine ⟨h.clean, ?_, canRead_congr h.reads (words_trimStart x), h.plain.trimStart⟩
  obtain ⟨lead, hx, hblank⟩ := exists_append_trimStart x
  rw [← h.numbered]
  conv_rhs => rw [hx, List.append_assoc]
  exact (found_lead hblank _).symm

theorem rendered (shown : List Text) : PlainReading (table.rendered shown) x rows := by
  refine ⟨h.clean.rendered shown, ?_, h.reads, h.plain.rendered h.clean.literals shown⟩
  rw [h.numbered, MarkerTable.rendered, List.length_mapIdx]

theorem shownRows : ShownRows (textMarkers none x rows) none x rows := by
  refine shownRows_of_nodup ?_ fun d _ => Iff.rfl
  rw [h.numbered]
  exact List.nodup_range.map toDigits_injective

end PlainReading

namespace LaysOutRows

variable {options : Options} {table : MarkerTable} {out x : Text} {rows : List (Tag × Text)}

theorem occursIn_eq_false (h : LaysOutRows options table x rows out) (hcode : HasCode table x) :
    badAttributes.occursIn x = false := by
  obtain ⟨q, hlay, -⟩ := h
  obtain ⟨tail, p, hcontent⟩ : ∃ tail p, (⟨options, table⟩ : Job).layTextToken 0 x tail Page.blank =
      .ok p := by
    cases rows with
    | nil => exact ⟨0, q, hlay⟩
    | cons row rows =>
      obtain ⟨p, hcontent, -⟩ := bind_eq_ok hlay
      exact ⟨_, p, hcontent⟩
  exact (Job.exists_of_layTextToken_ok hcode hcontent).1

/-- Blanks before rows make no difference to the text they are laid out as. -/
theorem lead_iff (hj : (⟨options, table⟩ : Job).IsPlain) (hreading : PlainReading table x rows)
    {lead : Text} (hblank : ∀ c ∈ lead, isBlank c) (hstart : startsBlank x = false)
    (hbad : badAttributes.occursIn (lead ++ x) = badAttributes.occursIn x) :
    LaysOutRows options table (lead ++ x) rows out ↔ LaysOutRows options table x rows out := by
  obtain ⟨margin, hagree⟩ := Job.exists_agree_layRows_lead hj hreading.clean.readsCode hblank
    hreading.hasCode hstart hbad rows Page.isFresh_blank
  unfold LaysOutRows
  generalize (⟨options, table⟩ : Job).layRows none (lead ++ x) rows Page.blank = r at hagree ⊢
  generalize (⟨options, table⟩ : Job).layRows none x rows Page.blank = r' at hagree ⊢
  cases hagree with
  | error => simp
  | @ok p q hpages =>
    have hmargin : ∀ c ∈ margin, isBlank c :=
      fun c hc => hpages.margin c hc ▸ (by decide : isBlank '\n')
    have hout : trim (table.restore p.output) = trim (table.restore q.output) := by
      rw [hpages.output, restore_lead table hmargin, trim_lead hmargin]
    simp [hpages.blocks, hout]

theorem trimStart (h : LaysOutRows options table x rows out) (hj : (⟨options, table⟩ : Job).IsPlain)
    (hreading : PlainReading table x rows) :
    LaysOutRows options table (Text.trimStart x) rows out := by
  obtain ⟨lead, hx, hblank⟩ := exists_append_trimStart x
  have hgood := h.occursIn_eq_false hreading.hasCode
  rw [hx] at hgood
  rw [← lead_iff hj hreading.trimStart hblank (startsBlank_trimStart x), ← hx]
  · exact h
  · rw [hgood, occursIn_badAttributes_suffix lead hgood]

/-- Rows are laid out as the same text when their code tags are as they are put out. -/
theorem rendered (h : LaysOutRows options table x rows out) (hj : (⟨options, table⟩ : Job).IsPlain)
    (hreading : PlainReading table x rows) :
    LaysOutRows options (table.rendered (textMarkers none x rows)) x rows out := by
  obtain ⟨q, hlay, hblocks, rfl⟩ := h
  have hshows : Job.Shows (textMarkers none x rows) ⟨options, table⟩
      ⟨options, table.rendered (textMarkers none x rows)⟩ := ⟨rfl, rfl, hreading.clean⟩
  obtain ⟨hagree, hmarks⟩ := hshows.agree_layRows hj hreading.reads hreading.plain
    hreading.shownRows (.refl Page.blank) ⟨(isContent_shownMarks _).nil, endsApart_nil⟩
  obtain ⟨q', hlay', hpages⟩ := exists_of_agree_ok (hlay ▸ hagree)
  refine ⟨q', hlay', hpages.blocks ▸ hblocks, ?_⟩
  rw [← hshows.restore_eq (hmarks q hlay), hpages.output]
  rfl

/-- Rows that begin with no blank are put out as rows that are laid out alike when the rows are
steady. -/
theorem exists_rereads (h : LaysOutRows options table x rows out)
    (hj : (⟨options, table⟩ : Job).IsPlain) (hreading : PlainReading table x rows)
    (hshown : IsShown table (textMarkers none x rows)) (hstart : startsBlank x = false) :
    ∃ x' rows', LaidRows ⟨options, table⟩ [] none x rows x' rows' [] ∧ Rereads out x' rows' table ∧
      ((⟨options, table⟩ : Job).IsSteadyFrom [] (leadingLexeme none x ++ rowsLexemes rows) →
        LaysOutRows options table x' rows' out) := by
  obtain ⟨q, hlay, hblocks, rfl⟩ := h
  have hclean := hreading.clean
  obtain ⟨x', rows', hlaid, hout, hagain⟩ :=
    Job.exists_laidRows hj hclean.readsCode hreading.reads hreading.plain rfl hlay
  have hframes : q.frames = [] := by rw [Page.frames, hblocks]; rfl
  rw [hframes] at hlaid
  have hrelaid := hlaid.relaidRows
  have hshown' : IsShown table (textMarkers none x' rows') := hrelaid.text ▸ hshown
  have hwritten : table.restore (x' ++ rowsWritten rows') =
      table.restore (trimEnd q.output ++ ['\n']) := by
    rw [← restore_shownRows hclean hshown', hout]
    rfl
  have hvisible : startsBlank (trimEnd q.output) = false := by
    by_cases hempty : x = [] ∧ rows = []
    · obtain ⟨rfl, rfl⟩ := hempty
      have hblank : q = Page.blank := by
        rw [Job.layRows, Job.layContent, Job.layTextToken_nil] at hlay
        exact (Except.ok.inj hlay).symm
      rw [hblank]
      rfl
    · have hstart' : startsBlank x' = false := by
        rw [hrelaid.starts rfl (by grind), hstart]
      have hrows := startsBlank_rows hstart' rows'
      rw [← hclean.isVisible.startsBlank_restore, hwritten,
        hclean.isVisible.startsBlank_restore] at hrows
      by_cases hnil : trimEnd q.output = []
      · rw [hnil]
        rfl
      · rwa [startsBlank_append hnil] at hrows
  have hbody : trim (table.restore q.output) = table.restore (trimEnd q.output) :=
    trim_restore hclean hvisible
  refine ⟨x', rows', hlaid, ⟨⟨hclean, ?_, hrelaid.reads, hlaid.plainRows hreading.plain⟩, hshown',
    hrelaid.noOpening, ?_⟩, ?_⟩
  · rw [hrelaid.found, hreading.numbered]
  · rw [hwritten, hbody, restore_trail table _ (by simp; decide)]
  · intro hsteady
    obtain ⟨r, hr, hrblocks, hrout⟩ := hagain hsteady Page.blank (.refl Page.blank)
    have htrim := trimEnd_eq_self (endsBlank_trimEnd q.output)
    refine ⟨r, hr, hrblocks.trans hblocks, ?_⟩
    rw [hrout, trim_restore hclean (htrim.symm ▸ hvisible), htrim, hbody]

end LaysOutRows

namespace Rereads

variable {options : Options} {out x : Text} {rows : List (Tag × Text)} {table : MarkerTable}

/-- The code tags of the text that is read are those of the table, also below blanks. -/
theorem extractCode_eq (h : Rereads out x rows table) (hnone : markerLikes.first? out = none)
    (lead : Text) (hblank : ∀ c ∈ lead, isBlank c) :
    extractCode (lead ++ (out ++ ['\n'])) = ((lead ++ x) ++ rowsWritten rows, table) := by
  have hbody : lead ++ (out ++ ['\n']) = table.restore (lead ++ (x ++ rowsWritten rows)) := by
    rw [restore_lead table hblank, h.written]
  have hfound := (found_lead hblank (x ++ rowsWritten rows)).trans h.numbered
  have hopening : holdsOpening (lead ++ (x ++ rowsWritten rows)) = false :=
    (holdsOpening_congr (words_blank_append hblank _)).trans h.noOpening
  have hmarkers : markerLikes.first? (table.restore (lead ++ (x ++ rowsWritten rows))) = none := by
    rw [← hbody, ← markerLikeMarks_eq_nil_iff, isContent_markerLikeMarks.blank_append hblank,
      isContent_markerLikeMarks.append_blank _ (by simp; decide), markerLikeMarks_eq_nil_iff]
    exact hnone
  rw [hbody, extractCode_restore h.clean.literals hfound hopening
    (fun code hcode => (h.clean.codes code hcode).1) hmarkers,
    List.append_assoc]

/-- The text is read as no other rows. -/
theorem unique (h : Rereads out x rows table) (hnone : markerLikes.first? out = none) {x' : Text}
    {rows' : List (Tag × Text)} {table' : MarkerTable} (h' : Rereads out x' rows' table') :
    x' = x ∧ rows' = rows := by
  have hextract := h.extractCode_eq hnone [] (by simp)
  rw [h'.extractCode_eq hnone [] (by simp)] at hextract
  exact h'.reads.eq_of_written h.reads (congrArg Prod.fst hextract)

/-- The text is laid out as itself, also below blanks, when the rows it is read as are. -/
theorem laysOut_iff (h : Rereads out x rows table) (hj : (⟨options, table⟩ : Job).IsPlain)
    (hnone : markerLikes.first? out = none) {lead : Text} (hlead : ∀ c ∈ lead, c ∈ plainBlanks)
    (hstart : startsBlank x = false) :
    LaysOut options (lead ++ (out ++ ['\n'])) out ↔ LaysOutRows options table x rows out := by
  have hblank : ∀ c ∈ lead, isBlank c := fun c hc => isBlank_of_mem_plainBlanks (hlead c hc)
  have hread : CanRead none (lead ++ x) rows := canRead_congr h.reads (words_blank_append hblank x)
  rw [ErbLayout.laysOut_iff (h.extractCode_eq hnone lead hblank) hread]
  exact LaysOutRows.lead_iff hj h.toPlainReading hblank hstart (occursIn_badAttributes_lead hlead x)

theorem startsBlank_eq (h : Rereads out x rows table) (hne : out ≠ [])
    (hout : startsBlank out = false) :
    startsBlank x = false := by
  by_cases hx : x = []
  · rw [hx]
    rfl
  · rw [← startsBlank_append hx (t := rowsWritten rows), ← h.clean.isVisible.startsBlank_restore,
      h.written, startsBlank_append hne, hout]

end Rereads

/-- Rows that begin with no blank are put out as rows that are laid out alike exactly when the rows
are steady. -/
theorem LaysOutRows.exists_rereads_iff {options : Options} {table : MarkerTable} {out x : Text}
    {rows : List (Tag × Text)} (h : LaysOutRows options table x rows out)
    (hj : (⟨options, table⟩ : Job).IsPlain) (hreading : PlainReading table x rows)
    (hshown : IsShown table (textMarkers none x rows)) (hstart : startsBlank x = false)
    (hnone : markerLikes.first? out = none) :
    ∃ x' rows', RelaidRows none x rows x' rows' ∧ Rereads out x' rows' table ∧
      (LaysOutRows options table x' rows' out ↔
        (⟨options, table⟩ : Job).IsSteadyFrom [] (leadingLexeme none x ++ rowsLexemes rows)) := by
  obtain ⟨x', rows', hlaid, hrereads, hagain⟩ := h.exists_rereads hj hreading hshown hstart
  refine ⟨x', rows', hlaid.relaidRows, hrereads, fun h' => ?_, hagain⟩
  by_cases hempty : x = [] ∧ rows = []
  · obtain ⟨rfl, rfl⟩ := hempty
    exact Job.isSteadyFrom_rows_nil.mpr fun _ => by decide
  · have hstart' : startsBlank x' = false := by rw [hlaid.relaidRows.starts rfl (by grind), hstart]
    obtain ⟨x'', rows'', hlaid', hrereads', -⟩ :=
      h'.exists_rereads hj hrereads.toPlainReading hrereads.shown hstart'
    -- the text is read as no other rows, so these are laid out as themselves
    obtain ⟨rfl, rfl⟩ := hrereads.unique hnone hrereads'
    exact hlaid.isSteadyFrom hlaid' (hlaid.openAlike hlaid')

/-- Blanks are laid out as nothing. -/
theorem laysOut_blank {options : Options} {s : Text} (hs : ∀ c ∈ s, isBlank c) :
    LaysOut options s [] := by
  have hwords : words s = words [] := by simpa using words_append_blank [] hs
  have hrestore : ∀ {u : Text}, (∀ c ∈ u, isBlank c) → (⟨[], []⟩ : MarkerTable).restore u = u := by
    intro u hu
    have hlead := restore_lead ⟨[], []⟩ hu []
    rwa [restore_nil, List.append_nil] at hlead
  have hfound : markers.found s = [] := by
    have hlead := found_lead hs []
    rw [List.append_nil] at hlead
    exact hlead.trans (Recogniser.found_of_first?_eq_none rfl)
  have hmarkers : markerLikes.first? s = none := by
    have hlead := isContent_markerLikeMarks.blank_append hs []
    rw [List.append_nil, isContent_markerLikeMarks.nil] at hlead
    exact markerLikeMarks_eq_nil_iff.mp hlead
  have hextract : extractCode s = (s ++ rowsWritten [], ⟨[], []⟩) := by
    have hagain : extractCode ((⟨[], []⟩ : MarkerTable).restore s) = (s, ⟨[], []⟩) :=
      extractCode_restore rfl hfound ((holdsOpening_congr hwords).trans rfl) (by simp)
        ((hrestore hs).symm ▸ hmarkers)
    rw [hrestore hs] at hagain
    simpa [rowsWritten] using hagain
  have hread : CanRead none s [] := (holdsTagSign_congr hwords).trans rfl
  rw [laysOut_iff hextract hread]
  have hpages := Job.layText_lead (j := ⟨options, ⟨[], []⟩⟩) hs 0 Page.isFresh_blank
  have hbreak : ∀ c ∈ paragraphBreak s, isBlank c :=
    fun c hc => isBlank_of_mem_plainBlanks (mem_plainBlanks_of_mem_paragraphBreak hc)
  refine ⟨_, Job.layTextToken_lead hs 0 Page.blank, hpages.blocks, ?_⟩
  rw [hpages.output, show Page.blank.output = [] from rfl, restore_lead _ hbreak, trim_lead hbreak,
    restore_nil]
  rfl

section SteadyBodies

variable {options : Options} (hcode : ∀ code width, options.formatCode code width = none)
  (hranking : options.ranking = none) {body out : Text} (hbody : IsPlainBody body)
  (h : LaysOut options body out)
include hcode hranking hbody h

/-- Layout makes no text that looks like a marker. -/
theorem LaysOut.noMarker : markerLikes.first? out = none := by
  obtain ⟨page, hpage, rfl⟩ := h
  have hplain : HasPlainTags (extractCode body).1 := by
    intro t ht
    have hmem : t.lexeme ∈ lexemes (extractCode body).1 :=
      map_lexeme_tokens _ ▸ List.mem_map_of_mem ht
    exact (hbody.lexemes _ hmem).hasPlainBlanks_attributes
  have hquote : markerLikeMarks ((extractCode body).2.restore ['"']) = [] := by
    rw [restore_singleton _ (by decide)]
    exact markerLikeMarks_eq_nil_iff.mpr rfl
  have hcontent := content_layBody (restores_markerLikeMarks body) ⟨hcode, hranking⟩
    (isKept_of_hasPlainTags hplain (Or.inl hquote)) hpage
  rw [restore_extractCode, markerLikeMarks_eq_nil_iff.mpr hbody.noMarker] at hcontent
  rw [← markerLikeMarks_eq_nil_iff, isContent_markerLikeMarks.trim_eq]
  exact hcontent

/-- A plain body that is laid out is read as rows that are laid out as the same text exactly when
the body is steady. -/
theorem LaysOut.exists_rereads :
    ∃ x rows x' rows' table, (extractCode body).1 = x ++ rowsWritten rows ∧
      RelaidRows none (trimStart x) rows x' rows' ∧ Rereads out x' rows' table ∧
      (LaysOutRows options table x' rows' out ↔ IsSteadyBody options body) := by
  have hnone := h.noMarker hcode hranking hbody
  have htable := isCleanTable_extractCode hbody.noMarker
  have hnumbered := found_extractCode hbody.noMarker
  obtain ⟨x, rows, hrows, hread⟩ := exists_rows none (extractCode body).1 fun l hl =>
    (hbody.lexemes l hl).isClear
  have hlexemes : lexemes (extractCode body).1 = leadingLexeme none x ++ rowsLexemes rows := by
    rw [hrows]
    exact lexemesIn_rows hread
  rw [hrows] at hnumbered
  have hreading : PlainReading (extractCode body).2 x rows :=
    ⟨htable, hnumbered, hread,
      plainRows_of_lexemes (hasCode_of_numbered htable.literals hnumbered)
      (hlexemes ▸ hbody.lexemes)⟩
  have hj : (⟨options, (extractCode body).2⟩ : Job).IsPlain := ⟨hcode, hranking⟩
  have hlays := (laysOut_iff (Prod.ext hrows rfl) hread).mp h
  -- without the blanks it begins with, and with the code tags of texts as they are put out
  have htrimmed := hreading.trimStart
  set shown := textMarkers none (trimStart x) rows with hshown
  have hj' : (⟨options, (extractCode body).2.rendered shown⟩ : Job).IsPlain := ⟨hcode, hranking⟩
  have hisShown : IsShown ((extractCode body).2.rendered shown) shown :=
    isShown_rendered htable htrimmed.plain.isSome_code?
  obtain ⟨x', rows', hrelaid, hrereads, hagain⟩ :=
    ((hlays.trimStart hj hreading).rendered hj htrimmed).exists_rereads_iff hj'
    (htrimmed.rendered shown) hisShown (startsBlank_trimStart x) hnone
  have hshows : Job.Shows shown ⟨options, (extractCode body).2⟩
      ⟨options, (extractCode body).2.rendered shown⟩ :=
    ⟨rfl, rfl, htable⟩
  refine ⟨x, rows, x', rows', _, hrows, hrelaid, hrereads, ?_⟩
  rw [hagain, hshows.isSteadyFrom_iff hj htrimmed.reads htrimmed.plain htrimmed.shownRows,
    Job.isSteadyFrom_trimStart_iff, IsSteadyBody, hlexemes]

/-- A plain body that is laid out is laid out as itself, also below blanks, exactly when it was
steady. -/
theorem LaysOut.again_iff (lead : Text) (hlead : ∀ c ∈ lead, c ∈ plainBlanks) :
    LaysOut options (lead ++ (out ++ ['\n'])) out ↔ IsSteadyBody options body := by
  have hnone := h.noMarker hcode hranking hbody
  obtain ⟨x, rows, x', rows', table, -, -, hrereads, hsteady⟩ :=
    h.exists_rereads hcode hranking hbody
  rw [← hsteady]
  by_cases hempty : out = []
  · subst hempty
    have hline : ∀ c ∈ ['\n'], isBlank c := by simp; decide
    have hblank : ∀ c ∈ lead ++ ['\n'], isBlank c := by
      intro c hc
      rcases List.mem_append.mp hc with hc | hc
      · exact isBlank_of_mem_plainBlanks (hlead c hc)
      · exact hline c hc
    refine iff_of_true (laysOut_blank hblank) ?_
    exact (laysOut_iff (hrereads.extractCode_eq hnone [] (by simp)) hrereads.reads).mp
      (laysOut_blank hline)
  · have hout : startsBlank out = false := by
      obtain ⟨page, -, rfl⟩ := h
      exact startsBlank_trim _
    exact hrereads.laysOut_iff ⟨hcode, hranking⟩ hnone hlead (hrereads.startsBlank_eq hempty hout)

end SteadyBodies

end Again

section Settled

/-- A space after a quotation mark takes columns also when the markers are replaced. -/
theorem Job.growsAtQuotes_width (j : Job) : GrowsAtQuotes j.width := by
  intro u q v hq
  have hmark : isMarkerChar q = false := by rcases hq with rfl | rfl <;> decide
  have hspace : j.table.restore (' ' :: v) = ' ' :: j.table.restore v := by
    have happend := restore_append_cons j.table [] (c := ' ') (by decide) v
    rwa [restore_nil] at happend
  change Text.width (j.table.restore (u ++ q :: v)) ≤
    Text.width (j.table.restore (u ++ q :: ' ' :: v))
  rw [restore_append_cons _ u hmark, restore_append_cons _ u hmark, hspace]
  exact width_append_quote_le hq _ _

/-- A plain body that is settled is steady. -/
theorem isSteadyBody_of_isSettledBody {options : Options} (hranking : options.ranking = none)
    {body : Text} (hbody : IsPlainBody body) (hsettled : IsSettledBody body) :
    IsSteadyBody options body := by
  refine ⟨fun a ha => ?_, hsettled.finish⟩
  obtain ⟨depth, t⟩ := a
  have hmem : .tag t ∈ lexemes (extractCode body).1 := mem_of_mem_placedTags ha
  have hread : ∀ r, tags.run (t.written ++ r) = some (t, r) := fits_of_mem_lexemesIn (.tag t) hmem
  have hplain : t.IsPlain := hbody.lexemes _ hmem
  have hvalues := hsettled.values _ hmem
  cases t with
  | closing lead name trail => trivial
  | opening name attributes gap ending =>
    obtain ⟨l, rfl⟩ := exists_attributes_of_run (hread [])
    have hstyle : (⟨options, (extractCode body).2⟩ : Job).style.ranking = none := hranking
    refine isSteady_of_isSettled hplain.1 (Job.growsAtQuotes_width _)
      (fun x hx => hvalues x.parsed ?_) hstyle name ending _
    rw [Lexeme.attributes, (attributesOf_flatMap hplain.1).1]
    exact List.mem_map_of_mem hx

end Settled

end ErbLayout
