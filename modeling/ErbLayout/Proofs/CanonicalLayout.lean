import ErbLayout.Proofs.Adjacency
import ErbLayout.Proofs.Layout.Squeeze
import ErbLayout.Proofs.Markup.SqueezedTokens
import ErbLayout.Proofs.Pages

/-!
The layout of a document does not depend on the kind and the number of its blanks. Two documents
without code, raw content and front matter that squeeze to the same text are laid out the same, or
neither is, if the same of their texts end a paragraph. Each step of a layout is shown to see only
the squeezed parts of a tag and the words of a text, so two layouts that run side by side keep the
same open blocks and the same output.
-/

namespace ErbLayout

open Text Markup Code Layout MarkerTable

def Markup.Lexeme.text? : Lexeme → Option Text
  | .text s => some s
  | _ => none

def textRuns (body : Text) : List Text := (lexemes body).filterMap Lexeme.text?

def Markup.Lexeme.opensRawText : Lexeme → Bool
  | .tag t => t.rawContainer?.isSome
  | _ => false

/-- A document that is markup and text only, with plain blanks. -/
structure IsPlainMarkup (source : Text) : Prop where
  noCode : codeTags.first? source = none
  noFrontMatter : (splitFrontMatter source).1 = none
  noRawText : ∀ l ∈ lexemes (markedBody source).1, l.opensRawText = false
  blanks : HasPlainBlanks source

section Markers

theorem after?_squeeze {p : Text} (hp : ∀ c ∈ p, isBlank c = false) (s : Text) :
    after? p (squeeze s) = (after? p s).map squeeze := by
  induction p generalizing s with
  | nil => rfl
  | cons a p ih =>
    have ha : isBlank a = false := hp a List.mem_cons_self
    cases s with
    | nil => rfl
    | cons c s =>
      by_cases hc : a = c
      · subst hc
        rw [squeeze_cons_of_notBlank ha]
        simp [after?, ih fun c hc => hp c (List.mem_cons_of_mem a hc)]
      · have hspace : a ≠ ' ' := by
          rintro rfl
          revert ha
          decide
        obtain ⟨d, u, hsqueeze, hd⟩ := exists_squeeze_cons hspace (Ne.symm hc) s
        simp [hsqueeze, after?, hc, Ne.symm hd]

theorem squeezes_markerLikes : Squeezes markerLikes id where
  run_squeeze := by
    intro s _
    change markerLike? (squeeze s) = (markerLike? s).map fun x => (x.1, squeeze x.2)
    unfold markerLike?
    have hsign : ∀ c ∈ ['e', 'r', 'b'], isBlank c = false := by simp; decide
    rw [after?_squeeze hsign]
    cases after? ['e', 'r', 'b'] s with
    | none => rfl
    | some r =>
      have hspan : spanOf isMarkerChar (squeeze r) =
          ((spanOf isMarkerChar r).1, squeeze (spanOf isMarkerChar r).2) :=
        spanOf_squeeze_of_stops (fun _ _ => isMarkerChar_eq_false_of_isBlank) (by decide)
      simp only [Option.map_some, hspan]
      cases hlast : upToLastTag? (spanOf isMarkerChar r).1 with
      | none => rfl
      | some t =>
        have hvisible : ∀ c ∈ t, isBlank c = false := by
          intro c hc
          by_contra hblank
          have hmark := mem_spanOf ((upToLastTag?_isPrefix hlast).subset hc)
          rw [isMarkerChar_eq_false_of_isBlank (by simpa using hblank)] at hmark
          simp at hmark
        obtain ⟨u, rfl⟩ : t <+: r :=
          (upToLastTag?_isPrefix hlast).trans ⟨_, spanOf_append isMarkerChar r⟩
        simp [squeeze_append_of_notBlank hvisible]
  run_blank := by
    intro c s hc _
    have hne : ¬ 'e' = c := by
      rintro rfl
      revert hc
      decide
    change markerLike? (c :: s) = none
    simp [markerLike?, after?, hne]

theorem squeeze_number (n : Nat) (l : List (Text × Text)) (tail : Text) :
    squeeze (number n l tail) = number n (l.map fun (b, a) => (squeeze b, a)) (squeeze tail) := by
  induction l generalizing n with
  | nil => rfl
  | cons x l ih =>
    have hstart : startsBlank (marker n ++ number (n + 1) l tail) = false := by
      rw [marker, List.append_assoc, List.append_assoc]
      rfl
    have hmarker : ∀ c ∈ marker n, isBlank c = false :=
      fun c => isBlank_eq_false_of_mem_written (isDigits_toDigits n)
    rw [List.map_cons, number, number, List.append_assoc, List.append_assoc,
      squeeze_append (Or.inr hstart), squeeze_append_of_notBlank hmarker, ih]

theorem numbered_squeeze {body : Text} (h : HasPlainBlanks body) :
    numbered (squeeze body) = squeeze (numbered body) := by
  rw [numbered, squeezes_markerLikes.split_squeeze h, numbered, squeeze_number]
  rfl

theorem mem_of_mem_number {n : Nat} {l : List (Text × Text)} {tail : Text} {c : Char}
    (h : c ∈ number n l tail) (hc : isBlank c) : c ∈ l.flatMap (fun x => x.1 ++ x.2) ++ tail := by
  induction l generalizing n with
  | nil => exact h
  | cons x l ih =>
    rw [number, List.append_assoc] at h
    rcases List.mem_append.mp h with h | h
    · simp [h]
    · rcases List.mem_append.mp h with h | h
      · rw [isBlank_eq_false_of_mem_written (isDigits_toDigits n) h] at hc
        simp at hc
      · have hrest := ih h
        rw [List.flatMap_cons, List.append_assoc]
        exact List.mem_append_right _ hrest

theorem hasPlainBlanks_numbered {body : Text} (h : HasPlainBlanks body) :
    HasPlainBlanks (numbered body) := by
  intro c hc hblank
  have hmem := mem_of_mem_number hc hblank
  have hwhole : (markerLikes.split body).1.flatMap (fun x => x.1 ++ x.2) ++
      (markerLikes.split body).2 = body :=
    markerLikes.flatten_split body
  rw [hwhole] at hmem
  exact h c hmem hblank

/-- Numbering makes no code tag. -/
theorem first?_codeTags_numbered {body : Text} (h : codeTags.first? body = none) :
    codeTags.first? (numbered body) = none := by
  rw [Recogniser.first?_eq_none_iff] at h ⊢
  intro v hv
  cases hread : codeTags.run v with
  | none => rfl
  | some x =>
    -- its delimiters belong to no marker, so they stand in the body as well
    obtain ⟨w, hw⟩ := (isRead_of_run hread).exists_delimited
    obtain ⟨u, hu⟩ := hv
    have hv : v = '<' :: '%' :: (w ++ '%' :: '>' :: x.2) := by
      have hsound := (codeTags.sound v x.1 x.2 hread).1
      have hwritten : codeTags.written x.1 = '<' :: '%' :: (w ++ ['%', '>']) := hw
      rw [hsound, hwritten]
      simp
    have hbody := restoreFrom_literal?_numbered body
    rw [← hu, hv, restoreFrom_append_cons _ _ (by decide), restoreFrom_cons _ (by decide),
      restoreFrom_append_cons _ _ (by decide), restoreFrom_cons _ (by decide)] at hbody
    have hnone := h _ ⟨_, hbody⟩
    have hclosed : ['%', '>'] <:+: restoreFrom (extractCode body).2.literal? w ++
        '%' :: '>' :: restoreFrom (extractCode body).2.literal? x.2 :=
        ⟨_, _, by rw [List.append_assoc]; rfl⟩
    have hsome := codeTag?_isSome hclosed
    change codeTag? _ = none at hnone
    rw [hnone] at hsome
    simp at hsome

theorem extractCode_of_noCode {body : Text} (h : codeTags.first? body = none) :
    extractCode body = (numbered body, ⟨(markerLikes.split body).1.map Prod.snd, []⟩) := by
  have hsplit := Recogniser.split_of_first?_eq_none (first?_codeTags_numbered h)
  rw [extractCode_eq, codesOf, afterCodes, hsplit]
  rfl

end Markers

section Lexemes

/-- A text or a tag with plain blanks. -/
structure Markup.Lexeme.IsPlain (l : Lexeme) : Prop where
  fits : l.Fits l.written
  blanks : HasPlainBlanks l.written
  notRaw : ∀ s, l ≠ .raw s

/-- Lexemes that differ in their blanks only, and of which both end a paragraph or neither does. -/
inductive Markup.Lexeme.Alike : Lexeme → Lexeme → Prop
  | text {s t : Text} : HasPlainBlanks s → HasPlainBlanks t → squeeze s = squeeze t →
      endsParagraph s = endsParagraph t → Alike (.text s) (.text t)
  | opening (name : Text) {l m : List SpacedAttribute} (gap gap' : Text) (ending : Ending) :
      HasPlainBlanks (l.flatMap SpacedAttribute.text) →
      HasPlainBlanks (m.flatMap SpacedAttribute.text) →
      squeeze (l.flatMap SpacedAttribute.text) = squeeze (m.flatMap SpacedAttribute.text) →
      Alike (.tag (.opening name (l.flatMap SpacedAttribute.text) gap ending))
        (.tag (.opening name (m.flatMap SpacedAttribute.text) gap' ending))
  | closing (lead lead' name trail trail' : Text) :
      Alike (.tag (.closing lead name trail)) (.tag (.closing lead' name trail'))

/-- Raw content stands right after a tag that opens it. -/
theorem raw_notMem_lexemes {body : Text} (hraw : ∀ l ∈ lexemes body, l.opensRawText = false)
    (s : Text) :
    .raw s ∉ lexemes body := by
  intro hmem
  obtain ⟨before, after, hsplit⟩ := List.append_of_mem hmem
  have hstart : ∀ s, (none : Option Lexeme) ≠ some (.text s) := by simp
  have hordered : Ordered none (lexemes body) := ordered_lexemesIn body hstart
  obtain ⟨name, attributes, gap, hlast, hname, -⟩ := hordered.mayFollow hsplit
  have hopen := hraw (.tag (.opening name attributes gap .plain)) (by
    rw [hsplit]
    exact List.mem_append_left _ (List.mem_of_getLast? (by simpa using hlast)))
  simp [Lexeme.opensRawText, Tag.rawContainer?, hname] at hopen

theorem isPlain_of_mem_lexemes {body : Text} (h : HasPlainBlanks body)
    (hraw : ∀ l ∈ lexemes body, l.opensRawText = false) : ∀ l ∈ lexemes body, l.IsPlain := by
  intro l hl
  refine ⟨fits_of_mem_lexemesIn l hl, ?_, ?_⟩
  · intro c hc
    have hbody : (lexemes body).flatMap Lexeme.written = body := flatMap_lexemesIn none body
    apply h c
    rw [← hbody]
    exact List.mem_flatMap.mpr ⟨l, hl, hc⟩
  · rintro s rfl
    exact raw_notMem_lexemes hraw s hl

theorem alike_tag {t t' : Tag} (h : t.squeezed = t'.squeezed) (ht : Lexeme.IsPlain (.tag t))
    (ht' : Lexeme.IsPlain (.tag t')) : Lexeme.Alike (.tag t) (.tag t') := by
  have hattributes : ∀ {name attributes gap : Text} {ending : Ending},
      Lexeme.IsPlain (.tag (.opening name attributes gap ending)) →
        HasPlainBlanks attributes ∧ ∃ l : List SpacedAttribute,
        attributes = l.flatMap SpacedAttribute.text := by
    intro name attributes gap ending hplain
    refine ⟨hplain.blanks.of_isInfix ⟨'<' :: name, gap ++ ending.written, ?_⟩,
      exists_attributes_of_run (hplain.fits [])⟩
    simp [Lexeme.written, Tag.written]
  cases t with
  | opening name attributes gap ending =>
    cases t' with
    | closing => simp [Tag.squeezed] at h
    | opening name' attributes' gap' ending' =>
      obtain ⟨rfl, hsqueeze, -, rfl⟩ := Tag.opening.inj h
      obtain ⟨hplain, l, rfl⟩ := hattributes ht
      obtain ⟨hplain', m, rfl⟩ := hattributes ht'
      exact .opening name gap gap' ending hplain hplain' hsqueeze
  | closing lead name trail =>
    cases t' with
    | opening => simp [Tag.squeezed] at h
    | closing lead' name' trail' =>
      obtain ⟨-, rfl, -⟩ := Tag.closing.inj h
      exact .closing lead lead' name trail trail'

/-- Lexemes that are the same when squeezed are alike, if the same of their texts end a
paragraph. -/
theorem forall₂_alike {ls ls' : List Lexeme} (hls : ∀ l ∈ ls, l.IsPlain)
    (hls' : ∀ l ∈ ls', l.IsPlain) (hsqueezed : ls.map Lexeme.squeezed = ls'.map Lexeme.squeezed)
    (hparagraphs : (ls.filterMap Lexeme.text?).map endsParagraph =
      (ls'.filterMap Lexeme.text?).map endsParagraph) :
    List.Forall₂ Lexeme.Alike ls ls' := by
  induction ls generalizing ls' with
  | nil =>
    obtain rfl : ls' = [] := by simpa using hsqueezed
    exact .nil
  | cons l ls ih =>
    cases ls' with
    | nil => simp at hsqueezed
    | cons l' ls' =>
      obtain ⟨hl, hrest⟩ := List.cons.inj hsqueezed
      have hplain := hls l List.mem_cons_self
      have hplain' := hls' l' List.mem_cons_self
      have ih := ih (fun m hm => hls m (List.mem_cons_of_mem l hm))
        (fun m hm => hls' m (List.mem_cons_of_mem l' hm))
        hrest
      cases l with
      | raw s => exact absurd rfl (hplain.notRaw s)
      | unrecognized s => exact hplain.fits.elim
      | text s =>
        cases l' with
        | text t =>
          simp only [List.filterMap_cons, Lexeme.text?, List.map_cons,
            List.cons.injEq] at hparagraphs
          exact .cons (.text hplain.blanks hplain'.blanks (Lexeme.text.inj hl) hparagraphs.1)
            (ih hparagraphs.2)
        | raw t => simp [Lexeme.squeezed] at hl
        | tag t => simp [Lexeme.squeezed] at hl
        | unrecognized t => simp [Lexeme.squeezed] at hl
      | tag t =>
        cases l' with
        | tag t' => exact .cons (alike_tag (Lexeme.tag.inj hl) hplain hplain') (ih hparagraphs)
        | text s => simp [Lexeme.squeezed] at hl
        | raw s => simp [Lexeme.squeezed] at hl
        | unrecognized s => simp [Lexeme.squeezed] at hl

theorem Markup.Lexeme.Alike.endsBlank_written {l l' : Lexeme} (h : l.Alike l') :
    endsBlank l.written = endsBlank l'.written := by
  have htag : ∀ t : Tag, endsBlank t.written = false :=
    fun t => (isEnclosed_written t).isVisible.ends
  cases h with
  | text _ _ hsqueeze _ =>
    simp only [Lexeme.written]
    rw [← endsBlank_squeeze, hsqueeze, endsBlank_squeeze]
  | opening => simp only [Lexeme.written, htag]
  | closing => simp only [Lexeme.written, htag]

/-- The tokens stand both after a blank or neither does, and hold lexemes that are alike. -/
def Markup.Token.Alike (t t' : Token) : Prop :=
  t.afterBlank = t'.afterBlank ∧ t.lexeme.Alike t'.lexeme

theorem forall₂_place {ls ls' : List Lexeme} (h : List.Forall₂ Lexeme.Alike ls ls')
    (offset offset' : Nat) (afterBlank : Bool) :
    List.Forall₂ Token.Alike (place offset afterBlank ls) (place offset' afterBlank ls') := by
  induction h generalizing offset offset' afterBlank with
  | nil => exact .nil
  | cons hl _ ih =>
    refine .cons ⟨rfl, hl⟩ ?_
    rw [hl.endsBlank_written]
    exact ih _ _ _

theorem gluedWidth_eq {ts ts' : List Token} (h : List.Forall₂ Token.Alike ts ts') :
    Job.gluedWidth ts = Job.gluedWidth ts' := by
  induction h with
  | nil => rfl
  | @cons t t' ts ts' ht _ ih =>
    obtain ⟨offset, afterBlank, l⟩ := t
    obtain ⟨offset', afterBlank', l'⟩ := t'
    obtain ⟨rfl, hl⟩ := ht
    unfold Job.gluedWidth
    dsimp only at hl ⊢
    cases hl with
    | text => rfl
    | closing => rw [ih]
    | @opening name l m gap gap' ending _ _ hsqueeze =>
      have hblank : allBlank (l.flatMap SpacedAttribute.text) =
          allBlank (m.flatMap SpacedAttribute.text) := by
        rw [← allBlank_squeeze, hsqueeze, allBlank_squeeze]
      simp only [hblank, ih]

end Lexemes

namespace Job

variable {j : Job}

/-- When no marker stands for code, a text is one run of words. -/
theorem layTextToken_of_noCode (hj : ∀ digits, j.table.code? digits = none) (offset : Nat)
    (s : Text) (tail : Nat) (p : Page) :
    j.layTextToken offset s tail p = if badAttributes.occursIn s then
      .error ⟨.badAttribute (j.table.restore (trim s)), p⟩ else .ok (j.layText s tail p) := by
  have hnone : (codePieces j.table [] (markers.split s).1 (markers.split s).2).1 = [] := by
    apply List.eq_nil_iff_forall_not_mem.mpr
    intro x hx
    obtain ⟨digits, hdigits, -⟩ := code?_of_mem_codePieces x hx
    simp [hj] at hdigits
  have hwhole := flatMap_codePieces_written j.table [] (markers.split s).1 (markers.split s).2
  rw [hnone, List.flatMap_nil, List.nil_append, List.nil_append, markers.flatten_split] at hwhole
  unfold layTextToken
  dsimp only
  rw [hnone, hwhole]
  rfl

theorem agree_layTextToken (hj : ∀ digits, j.table.code? digits = none) {s t : Text}
    (hs : HasPlainBlanks s) (ht : HasPlainBlanks t) (hsqueeze : squeeze s = squeeze t)
    (hparagraph : endsParagraph s = endsParagraph t) (offset offset' tail : Nat) {p q : Page}
    (h : p.Matches [] q) :
    Agree [] (j.layTextToken offset s tail p) (j.layTextToken offset' t tail q) := by
  have hbad : badAttributes.occursIn s = badAttributes.occursIn t := by
    rw [← squeezes_badAttributes.occursIn_squeeze hs, hsqueeze,
      squeezes_badAttributes.occursIn_squeeze ht]
  rw [layTextToken_of_noCode hj, layTextToken_of_noCode hj, hbad]
  split
  · exact .error _ _
  · exact .ok (h.layText j ⟨hsqueeze, hparagraph⟩ tail)

theorem agree_layOpening (name : Text) {l m : List SpacedAttribute} (ending : Ending)
    (newLine : Bool) (hl : HasPlainBlanks (l.flatMap SpacedAttribute.text))
    (hm : HasPlainBlanks (m.flatMap SpacedAttribute.text))
    (hsqueeze : squeeze (l.flatMap SpacedAttribute.text) = squeeze (m.flatMap SpacedAttribute.text))
    {p q : Page} (h : p.Matches [] q) :
    Agree [] (j.layOpening name (l.flatMap SpacedAttribute.text) ending newLine p)
      (j.layOpening name (m.flatMap SpacedAttribute.text) ending newLine q) := by
  unfold layOpening
  split
  · exact .error _ _
  · dsimp only
    rw [← formatAttributes_squeeze hl, hsqueeze, formatAttributes_squeeze hm, h.depth_eq]
    split
    · exact .ok (h.emit _ newLine)
    · exact .ok ((h.emit _ newLine).push _)

theorem agree_layToken (hj : ∀ digits, j.table.code? digits = none) {t t' : Token} (ht : t.Alike t')
    {following following' : List Token} (hfollowing : List.Forall₂ Token.Alike following following')
    {p q : Page} (h : p.Matches [] q) :
    Agree [] (j.layToken t following p) (j.layToken t' following' q) := by
  obtain ⟨offset, afterBlank, l⟩ := t
  obtain ⟨offset', afterBlank', l'⟩ := t'
  obtain ⟨rfl, hl⟩ := ht
  have hplaced : Page.Matches [] { p with position := offset } { q with position := offset' } :=
    ⟨h.blocks, h.output, h.margin⟩
  unfold layToken
  dsimp only at hl ⊢
  cases hl with
  | text hs ht hsqueeze hparagraph =>
    dsimp only
    rw [gluedWidth_eq hfollowing]
    exact agree_layTextToken hj hs ht hsqueeze hparagraph offset offset' _ hplaced
  | opening name gap gap' ending hl hm hsqueeze =>
    exact agree_layOpening name ending afterBlank hl hm hsqueeze hplaced
  | closing lead lead' name trail trail' =>
    exact (hplaced.pop (.tag name) _ _).bind fun _ _ hpages => .ok (hpages.emit _ afterBlank)

theorem agree_layTokens (hj : ∀ digits, j.table.code? digits = none) {ts ts' : List Token}
    (hts : List.Forall₂ Token.Alike ts ts') {p q : Page} (h : p.Matches [] q) :
    Agree [] (j.layTokens ts p) (j.layTokens ts' q) := by
  induction hts generalizing p q with
  | nil => exact .ok h
  | cons ht hrest ih => exact (agree_layToken hj ht hrest h).bind fun _ _ hpages => ih hpages

theorem agree_layBody (hj : ∀ digits, j.table.code? digits = none) {body body' : Text}
    (hlexemes : List.Forall₂ Lexeme.Alike (lexemes body) (lexemes body')) :
    Agree [] (j.layBody body) (j.layBody body') := by
  have htokens := forall₂_place hlexemes 0 0 false
  refine (agree_layTokens hj htokens (.refl Page.blank)).bind fun p q hpages => ?_
  dsimp only
  rw [hpages.blocks]
  split
  · exact .ok ⟨rfl, hpages.output, hpages.margin⟩
  · exact .error _ _

end Job

namespace IsPlainMarkup

variable {s t : Text}

theorem markedBody_eq (h : IsPlainMarkup s) :
    markedBody s = (numbered s, ⟨(markerLikes.split s).1.map Prod.snd, []⟩) := by
  rw [markedBody, splitFrontMatter_eq_of_none h.noFrontMatter, extractCode_of_noCode h.noCode]

theorem isPlain_of_mem (h : IsPlainMarkup s) : ∀ l ∈ lexemes (markedBody s).1, l.IsPlain := by
  apply isPlain_of_mem_lexemes
  · rw [h.markedBody_eq]
    exact hasPlainBlanks_numbered h.blanks
  · exact h.noRawText

theorem lexemes_squeeze (h : IsPlainMarkup s) :
    lexemes (squeeze (markedBody s).1) = (lexemes (markedBody s).1).map Lexeme.squeezed := by
  apply lexemesIn_squeeze
  · rw [h.markedBody_eq]
    exact hasPlainBlanks_numbered h.blanks
  · intro t ht
    exact Option.isNone_iff_eq_none.mp (Option.isSome_eq_false_iff.mp (h.noRawText _ ht))

/-- Markers are numbered alike in documents that squeeze to the same text. -/
theorem marked_squeeze (hs : IsPlainMarkup s) (ht : IsPlainMarkup t)
    (hsqueeze : squeeze s = squeeze t) :
    (markedBody s).2 = (markedBody t).2 ∧ squeeze (markedBody s).1 = squeeze (markedBody t).1 := by
  have hliterals : ∀ {u : Text}, HasPlainBlanks u →
      (markerLikes.split (squeeze u)).1.map Prod.snd = (markerLikes.split u).1.map Prod.snd := by
    intro u hu
    rw [squeezes_markerLikes.split_squeeze hu, List.map_map]
    rfl
  rw [hs.markedBody_eq, ht.markedBody_eq]
  refine ⟨?_, ?_⟩
  · rw [← hliterals hs.blanks, hsqueeze, hliterals ht.blanks]
  · rw [← numbered_squeeze hs.blanks, hsqueeze, numbered_squeeze ht.blanks]

theorem alike_lexemes (hs : IsPlainMarkup s) (ht : IsPlainMarkup t)
    (hsqueeze : squeeze s = squeeze t)
    (hparagraphs : (textRuns (markedBody s).1).map endsParagraph =
      (textRuns (markedBody t).1).map endsParagraph) :
    List.Forall₂ Lexeme.Alike (lexemes (markedBody s).1) (lexemes (markedBody t).1) := by
  apply forall₂_alike hs.isPlain_of_mem ht.isPlain_of_mem
  · rw [← hs.lexemes_squeeze, (hs.marked_squeeze ht hsqueeze).2, ht.lexemes_squeeze]
  · exact hparagraphs

end IsPlainMarkup

/-- Two documents of markup and text that differ only in the blanks of each stretch of blanks, and
of which the same texts end a paragraph, are laid out the same, or neither is laid out. -/
theorem formatDocument_eq_of_squeeze (options : Options) (s t : Text) (hs : IsPlainMarkup s)
    (ht : IsPlainMarkup t) (hsqueeze : squeeze s = squeeze t)
    (hparagraphs : (textRuns (markedBody s).1).map endsParagraph =
      (textRuns (markedBody t).1).map endsParagraph) :
    (∃ out, formatDocument options s = .ok out ∧ formatDocument options t = .ok out) ∨
      ∃ failure failure', formatDocument options s = .error failure ∧
        formatDocument options t = .error failure' := by
  have htable := (hs.marked_squeeze ht hsqueeze).1
  have hcodes : ∀ digits, (markedBody t).2.code? digits = none := by
    intro digits
    rw [ht.markedBody_eq]
    simp [code?]
  have hagree := Job.agree_layBody (j := ⟨options, (markedBody t).2⟩) hcodes
    (hs.alike_lexemes ht hsqueeze hparagraphs)
  rw [formatDocument_eq, formatDocument_eq, htable, hs.noFrontMatter, ht.noFrontMatter]
  generalize (⟨options, (markedBody t).2⟩ : Job).layBody (markedBody s).1 = r at hagree ⊢
  generalize (⟨options, (markedBody t).2⟩ : Job).layBody (markedBody t).1 = r' at hagree ⊢
  cases hagree with
  | ok hpages => exact Or.inl ⟨_, rfl, by rw [hpages.output, List.nil_append]⟩
  | error stop stop' => exact Or.inr ⟨_, _, rfl, rfl⟩

theorem formatDocument_eq_of_squeeze_paragraphs :
    IsPlainMarkup "<p  class='b\ta'>one\n\n</p > two <br\t/>".toList ∧
      IsPlainMarkup "<p\nclass='b a'>one\n \n</p\t>\ttwo\n<br />".toList ∧
      formatDocument {} "<p  class='b\ta'>one\n\n</p > two <br\t/>".toList =
        .ok "<p class='b a'>one\n\n</p>\ntwo\n<br/>\n".toList ∧
      formatDocument {} "<p\nclass='b a'>one\n \n</p\t>\ttwo\n<br />".toList =
        .ok "<p class='b a'>one\n\n</p>\ntwo\n<br/>\n".toList := by
  have hs : IsPlainMarkup "<p  class='b\ta'>one\n\n</p > two <br\t/>".toList :=
    ⟨by decide +kernel, by decide +kernel, by decide +kernel, by decide +kernel⟩
  have ht : IsPlainMarkup "<p\nclass='b a'>one\n \n</p\t>\ttwo\n<br />".toList :=
    ⟨by decide +kernel, by decide +kernel, by decide +kernel, by decide +kernel⟩
  have hout : formatDocument {} "<p  class='b\ta'>one\n\n</p > two <br\t/>".toList =
      .ok "<p class='b a'>one\n\n</p>\ntwo\n<br/>\n".toList := by decide +kernel
  refine ⟨hs, ht, hout, ?_⟩
  rcases formatDocument_eq_of_squeeze {} _ _ hs ht (by decide +kernel) (by decide +kernel) with
    ⟨out, hout', hsame⟩ | ⟨failure, failure', hfailure, -⟩
  · rw [hsame, ← hout', hout]
  · rw [hout] at hfailure
    simp at hfailure

end ErbLayout
