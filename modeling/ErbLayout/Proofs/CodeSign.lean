import ErbLayout.Proofs.Adjacency
import ErbLayout.Proofs.FailurePlace

/-!
What the character right after `<%` makes of a code tag: a number sign makes it a comment and a
percent sign an escape, and anything else leaves it code. Laying out a tag drops the blanks between
the opening delimiter and the code and decides anew whether a space goes there. So a tag stays what
it is, except in two cases: code that begins with a number sign after blanks becomes a comment, and
an escape becomes code.
-/

namespace ErbLayout

open Text Markup Code Layout MarkerTable

/-- The character right after `<%` in a code tag. -/
def signOf (tag : Text) : Option Char := (tag.drop 2).head?

/-- The code tags are both comments or neither is, and both escapes or neither is. -/
def SameSign (tag tag' : Text) : Prop :=
  (signOf tag' = some '#' ↔ signOf tag = some '#') ∧
    (signOf tag' = some '%' ↔ signOf tag = some '%')

/-- What follows `<%` is a percent sign, or blanks and then a number sign. -/
def LosesSign (tag : Text) : Prop :=
  signOf tag = some '%' ∨ startsBlank (tag.drop 2) ∧ (trimStart (tag.drop 2)).head? = some '#'

section Rendering

variable {t : CodeTag}

/-- A delimiter longer than `<%` brings its sign along, whatever follows it. -/
theorem signOf_of_opening (h : t.IsRead) (hopening : t.opening ≠ ['<', '%']) :
    ∃ c, (c = '=' ∨ c = '-') ∧ ∀ s, signOf (t.opening ++ s) = some c := by
  rcases h.opening with ho | ho | ho | ho
  · exact ⟨'=', Or.inl rfl, fun s => by rw [ho]; rfl⟩
  · exact ⟨'=', Or.inl rfl, fun s => by rw [ho]; rfl⟩
  · exact ⟨'-', Or.inr rfl, fun s => by rw [ho]; rfl⟩
  · exact absurd ho hopening

/-- After a bare `<%` a laid out tag has a number sign when its code begins with one, and a space
otherwise. -/
theorem signOf_render (hopening : t.opening = ['<', '%']) :
    signOf (t.render t.code) = if t.code.head? = some '#' then some '#' else some ' ' := by
  unfold CodeTag.render signOf
  rw [hopening]
  by_cases hsign : t.code.head? = some '#'
  · obtain ⟨code, hcode⟩ := List.head?_eq_some_iff.mp hsign
    simp [hcode]
  · simp [hsign]

/-- All that the reader takes for blanks before the code is left out of the code. -/
theorem startsBlank_code_of_ofText? {s : Text} (h : CodeTag.ofText? s = some t) :
    startsBlank (t.code ++ t.trail ++ t.closing) = false := by
  obtain ⟨⟨b, t', r⟩, hfirst, rfl⟩ := Option.map_eq_some_iff.mp h
  obtain ⟨-, hrun, -⟩ := Recogniser.first?_eq_some_iff.mp hfirst
  change codeTag? _ = some (t', r) at hrun
  unfold codeTag? at hrun
  split at hrun
  · simp at hrun
  next o x _ =>
    obtain ⟨⟨code, trail, closing, rest⟩, hbody, heq⟩ := Option.map_eq_some_iff.mp hrun
    obtain ⟨rfl, rfl⟩ : (⟨o, (spanOf isBlank x).1, code, trail, closing⟩ : CodeTag) = t' ∧
        rest = r := by
      simpa using heq
    have hhead : ∀ c ∈ (spanOf isBlank x).2.head?, isBlank c = false := fun c hc => head?_spanOf hc
    rw [codeBody?_eq_some hbody, ← List.append_assoc, ← List.append_assoc] at hhead
    cases hcode : code ++ trail ++ closing with
    | nil => rfl
    | cons c u => exact hhead c (by rw [hcode]; rfl)

/-- A number sign is the first character of a tag after its blanks exactly when it is that of the
code. -/
theorem head?_code_eq_comment_iff (h : t.IsRead)
    (hcode : startsBlank (t.code ++ t.trail ++ t.closing) = false) :
    (t.code ++ t.trail ++ t.closing).head? = some '#' ↔ t.code.head? = some '#' := by
  cases hc : t.code with
  | cons c code => simp
  | nil =>
    rw [hc, List.nil_append] at hcode
    cases htrail : t.trail with
    | cons c trail =>
      have hblank : isBlank c := h.trail c (by simp [htrail])
      rw [htrail, List.cons_append, startsBlank_cons, hblank] at hcode
      simp at hcode
    | nil => rcases h.closing with hclosing | hclosing <;> simp [hclosing]

theorem trimStart_append {lead s : Text} (hlead : ∀ c ∈ lead, isBlank c)
    (hs : startsBlank s = false) :
    trimStart (lead ++ s) = s := by
  rw [trimStart, List.dropWhile_append_of_pos hlead]
  cases s with
  | nil => rfl
  | cons c s =>
    rw [startsBlank_cons] at hs
    rw [List.dropWhile_cons_of_neg (by simp [hs])]

/-- A tag as it is laid out has the sign of the tag as it is written, unless that is one that loses
its sign. -/
theorem sameSign_render_iff (h : t.IsRead)
    (hcode : startsBlank (t.code ++ t.trail ++ t.closing) = false) :
    SameSign t.written (t.render t.code) ↔ ¬ LosesSign t.written := by
  by_cases hopening : t.opening = ['<', '%']
  · have hrest : t.written.drop 2 = t.lead ++ (t.code ++ t.trail ++ t.closing) := by
      simp [CodeTag.written, hopening]
    have hsharp := head?_code_eq_comment_iff h hcode
    rw [SameSign, LosesSign, signOf_render hopening, signOf, hrest, trimStart_append h.lead hcode]
    generalize t.code ++ t.trail ++ t.closing = rest at hsharp hcode ⊢
    rw [hsharp]
    cases hlead : t.lead with
    | nil =>
      -- the code begins right after the delimiter, so a number sign there stays there
      rw [List.nil_append, hcode, hsharp]
      by_cases hc : t.code.head? = some '#'
      · simp [hc, hsharp.mpr hc]
      · simp [hc]
    | cons c lead =>
      -- a blank follows the delimiter, which is neither sign
      have hblank : isBlank c := h.lead c (by simp [hlead])
      have hcomment : c ≠ '#' := by
        rintro rfl
        exact absurd hblank (by decide)
      have hescape : c ≠ '%' := by
        rintro rfl
        exact absurd hblank (by decide)
      by_cases hc : t.code.head? = some '#'
      · simp [hc, hcomment, startsBlank_cons, hblank]
      · simp [hc, hcomment, hescape]
  · obtain ⟨c, hc, hsign⟩ := signOf_of_opening h hopening
    have hwritten : signOf t.written = some c := by
      rw [CodeTag.written, List.append_assoc, List.append_assoc, List.append_assoc]
      exact hsign _
    have hrender : signOf (t.render t.code) = some c := by
      rw [CodeTag.render, List.append_assoc, List.append_assoc]
      exact hsign _
    have hblank : startsBlank (t.written.drop 2) = false := by
      rw [startsBlank, show (t.written.drop 2).head? = some c from hwritten]
      rcases hc with rfl | rfl <;> decide
    have hescape : c ≠ '%' := by rcases hc with rfl | rfl <;> decide
    simp [SameSign, LosesSign, hwritten, hrender, hblank, hescape]

end Rendering

section Restoring

/-- Putting something in place of markers does not bring a character to the front that none of it
begins with. -/
theorem head?_replace_iff {f : Text → Text} {c : Char} (hc : isMarkerChar c = false)
    (hf : ∀ digits, ∃ d u, f digits = d :: u ∧ d ≠ c) (s : Text) :
    (markers.replace f s).head? = some c ↔ s.head? = some c := by
  have hs := markers.flatten_split s
  rw [Recogniser.replace]
  cases hfound : (markers.split s).1 with
  | nil =>
    rw [hfound] at hs
    exact iff_of_eq (congrArg (fun u : Text => u.head? = some c) hs)
  | cons x found =>
    obtain ⟨b, digits⟩ := x
    rw [hfound] at hs
    conv_rhs => rw [← hs]
    cases b with
    | cons d b => simp
    | nil =>
      obtain ⟨d, u, hput, hne⟩ := hf digits
      have hletter : 'e' ≠ c := by
        rintro rfl
        exact absurd hc (by decide)
      simp [hput, hne, markers, hletter]

/-- Text that looks like a marker begins with the letter of one. -/
theorem exists_cons_of_markerLike {s t r : Text} (h : markerLikes.run s = some (t, r)) :
    ∃ u, t = 'e' :: u := by
  change markerLike? s = some (t, r) at h
  unfold markerLike? at h
  split at h
  · simp at h
  · obtain ⟨u, -, heq⟩ := Option.map_eq_some_iff.mp h
    obtain ⟨rfl, -⟩ : ['e', 'r', 'b'] ++ u = t ∧ _ := by simpa using heq
    exact ⟨_, rfl⟩

variable (body : Text)

/-- What stands for a marker begins with the letter of a marker or with a delimiter. -/
theorem head?_restore_iff {c : Char} (hc : isMarkerChar c = false) (hopening : c ≠ '<') (s : Text) :
    ((extractCode body).2.restore s).head? = some c ↔ s.head? = some c := by
  have hletter : 'e' ≠ c := by
    rintro rfl
    exact absurd hc (by decide)
  have hliteral : ∀ digits, ∃ d u,
      ((extractCode body).2.literal? digits).getD (markers.written digits) = d :: u ∧ d ≠ c := by
    intro digits
    cases hlook : (extractCode body).2.literal? digits with
    | none => exact ⟨'e', _, rfl, hletter⟩
    | some literal =>
      obtain ⟨n, -, hget⟩ := Option.bind_eq_some_iff.mp hlook
      obtain ⟨x, hx, rfl⟩ := List.mem_map.mp (List.mem_of_getElem? hget)
      obtain ⟨v, r, hrun⟩ := Recogniser.exists_run_of_mem_split hx
      obtain ⟨u, hu⟩ := exists_cons_of_markerLike hrun
      exact ⟨'e', u, hu, hletter⟩
  have hcode : ∀ digits, ∃ d u,
      ((extractCode body).2.code? digits).getD (markers.written digits) = d :: u ∧ d ≠ c := by
    intro digits
    cases hlook : (extractCode body).2.code? digits with
    | none => exact ⟨'e', _, rfl, hletter⟩
    | some code =>
      obtain ⟨tag, -, hread, rfl⟩ := exists_codeTag_of_code? hlook
      obtain ⟨u, hu⟩ := hread.written_eq
      exact ⟨'<', _, hu, Ne.symm hopening⟩
  exact (head?_replace_iff hc hliteral _).trans (head?_replace_iff hc hcode s)

theorem trimStart_restore (s : Text) :
    trimStart ((extractCode body).2.restore s) = (extractCode body).2.restore (trimStart s) := by
  obtain ⟨lead, hlead, hblank⟩ := exists_append_trimStart s
  conv_lhs => rw [hlead, restore_lead _ hblank]
  apply trimStart_append hblank
  rw [(isVisibleTable_extractCode _).startsBlank_restore, startsBlank_trimStart]

variable {tag tag' u u' : Text} (htag : tag = '<' :: '%' :: u)
include htag

theorem drop_restore :
    ((extractCode body).2.restore tag).drop 2 = (extractCode body).2.restore (tag.drop 2) := by
  have hmarks : ∀ c ∈ ['<', '%'], isMarkerChar c = false := by simp; decide
  have hrestore := restore_apart (extractCode body).2 hmarks u
  rw [htag]
  exact congrArg (List.drop 2) hrestore

theorem signOf_restore_iff {c : Char} (hc : isMarkerChar c = false) (hopening : c ≠ '<') :
    signOf ((extractCode body).2.restore tag) = some c ↔ signOf tag = some c := by
  rw [signOf, drop_restore body htag]
  exact head?_restore_iff body hc hopening _

theorem losesSign_restore_iff : LosesSign ((extractCode body).2.restore tag) ↔ LosesSign tag := by
  rw [LosesSign, LosesSign, signOf_restore_iff body htag (by decide) (by decide),
    drop_restore body htag, trimStart_restore, (isVisibleTable_extractCode _).startsBlank_restore,
    head?_restore_iff body (by decide) (by decide)]

theorem sameSign_restore_iff (htag' : tag' = '<' :: '%' :: u') :
    SameSign ((extractCode body).2.restore tag) ((extractCode body).2.restore tag') ↔
      SameSign tag tag' := by
  have hcomment : isMarkerChar '#' = false := by decide
  have hescape : isMarkerChar '%' = false := by decide
  unfold SameSign
  rw [signOf_restore_iff body htag hcomment (by decide),
    signOf_restore_iff body htag' hcomment (by decide),
    signOf_restore_iff body htag hescape (by decide),
      signOf_restore_iff body htag' hescape (by decide)]

end Restoring

theorem exists_delimited_render {t : CodeTag} (h : t.IsRead) :
    ∃ u, t.render t.code = '<' :: '%' :: u := by
  rcases h.opening with ho | ho | ho | ho <;> exact ⟨_, by rw [CodeTag.render, ho]; rfl⟩

theorem Spread.imp_of_mem {form form' : Piece → Text → Prop} {row : List (Piece × Bool)} {t : Text}
    (h : Spread form row t) (himp : ∀ x ∈ row.map Prod.fst, ∀ s, form x s → form' x s) :
    Spread form' row t := by
  induction h with
  | nil => exact .nil
  | blanks _ hb ih => exact (ih himp).blanks hb
  | piece _ hform ih =>
    refine (ih fun x hx => himp x ?_).piece (himp _ ?_ _ hform)
    · rw [List.map_append]
      exact List.mem_append_left _ hx
    · simp

/-- The code tags among the pieces of a body are those that markers stand for. -/
theorem exists_code?_of_mem_piecesOf {table : MarkerTable} {body marker written : Text}
    (h : .code marker written ∈ piecesOf table body) :
    ∃ digits, table.code? digits = some written := by
  obtain ⟨l, -, hl⟩ := List.mem_flatMap.mp h
  cases l with
  | text s =>
    rcases List.mem_append.mp hl with hl | hl
    · obtain ⟨x, hx, hmem⟩ := List.mem_flatMap.mp hl
      obtain ⟨digits, hcode, -⟩ := Job.code?_of_mem_codePieces x hx
      rcases List.mem_append.mp hmem with hmem | hmem
      · simp [wordPieces] at hmem
      · obtain ⟨-, rfl⟩ := Piece.code.inj (List.mem_singleton.mp hmem)
        exact ⟨digits, hcode⟩
    · simp [wordPieces] at hl
  | raw s =>
    rw [Lexeme.pieces] at hl
    split at hl <;> simp at hl
  | tag t => simp [Lexeme.pieces] at hl
  | unrecognized s => simp [Lexeme.pieces] at hl

/-- Layout without a formatter of code puts out the code tags that stand in texts one by one, and
the tag that is put out is a comment or an escape exactly when that of the source is, unless the tag
of the source loses its sign. -/
theorem formatDocument_keeps_sign_iff (options : Options)
    (hcode : ∀ code width, options.formatCode code width = none) (source out : Text)
    (hout : formatDocument options source = .ok out) :
    ∃ (page : Page) (row : List (Piece × Bool)),
      (⟨options, (markedBody source).2⟩ : Job).layBody (markedBody source).1 = .ok page ∧
      out = attachFrontMatter (splitFrontMatter source).1
        (trim ((markedBody source).2.restore page.output)) ∧
      row.map Prod.fst = piecesOf (markedBody source).2 (markedBody source).1 ∧
      Spread (fun x s => s = x.written) row (markedBody source).1 ∧
      Spread (fun x s => (⟨options, (markedBody source).2⟩ : Job).Lays x s ∧
        ∀ marker written, x = .code marker written →
          (SameSign ((markedBody source).2.restore written) ((markedBody source).2.restore s) ↔
            ¬ LosesSign ((markedBody source).2.restore written)))
        row page.output := by
  rw [formatDocument_eq] at hout
  split at hout
  next page hpage =>
    have hcodes : (⟨options, (markedBody source).2⟩ : Job).ReadsCode := by
      intro digits code hdigits
      obtain ⟨tag, htag, hread, -⟩ := exists_codeTag_of_code? hdigits
      exact ⟨tag, htag, hread⟩
    obtain ⟨row, hrow, hbody, hpage'⟩ := (Job.inStep_layBody hcode hcodes hpage).row
    refine ⟨page, row, hpage, (Except.ok.inj hout).symm, hrow, hbody, hpage'.imp_of_mem ?_⟩
    intro x hx s hlays
    refine ⟨hlays, ?_⟩
    rintro marker written rfl
    rw [hrow] at hx
    obtain ⟨digits, hdigits⟩ := exists_code?_of_mem_piecesOf hx
    obtain ⟨tag, htag, hread, hwritten⟩ := exists_codeTag_of_code? hdigits
    obtain ⟨tag', htag', rfl⟩ := hlays
    obtain rfl := Option.some.inj (htag'.symm.trans htag)
    obtain ⟨u, hu⟩ := hread.exists_delimited
    obtain ⟨v, hv⟩ := exists_delimited_render hread
    have hsame := sameSign_render_iff hread (startsBlank_code_of_ofText? htag)
    rw [← hwritten]
    exact (sameSign_restore_iff _ hu hv).trans
      (hsame.trans (not_congr (losesSign_restore_iff _ hu).symm))
  next => simp at hout

theorem formatDocument_keeps_sign_iff_commented :
    formatDocument {} "<p><%#a%> <%= # b %></p>".toList =
      .ok "<p><%#a %>\n  <%=# b %></p>\n".toList ∧
      ∃ (page : Page) (row : List (Piece × Bool)),
        row.map Prod.fst = piecesOf (markedBody "<p><%#a%> <%= # b %></p>".toList).2
          (markedBody "<p><%#a%> <%= # b %></p>".toList).1 ∧
        Spread (fun x s => ∀ marker written, x = .code marker written →
          (SameSign ((markedBody "<p><%#a%> <%= # b %></p>".toList).2.restore written)
              ((markedBody "<p><%#a%> <%= # b %></p>".toList).2.restore s) ↔
            ¬ LosesSign ((markedBody "<p><%#a%> <%= # b %></p>".toList).2.restore written)))
          row page.output := by
  have hout : formatDocument {} "<p><%#a%> <%= # b %></p>".toList =
      .ok "<p><%#a %>\n  <%=# b %></p>\n".toList := by
    decide +kernel
  obtain ⟨page, row, -, -, hrow, -, hlaid⟩ := formatDocument_keeps_sign_iff {}
    (fun _ _ => rfl) _ _ hout
  exact ⟨hout, page, row, hrow, hlaid.imp_of_mem fun _ _ _ h => h.2⟩

/-- Code that begins with a comment of its own becomes a comment as a whole, and an escape becomes
code. -/
theorem formatDocument_loses_sign :
    formatDocument {} "<% # a\nb %>".toList = .ok "<%# a\nb %>\n".toList ∧
      ¬ SameSign "<% # a\nb %>".toList "<%# a\nb %>".toList ∧
      formatDocument {} "<%% a %>".toList = .ok "<% % a %>\n".toList ∧
      ¬ SameSign "<%% a %>".toList "<% % a %>".toList := by
  refine ⟨by decide +kernel, ?_, by decide +kernel, ?_⟩
  · simp [SameSign, signOf]
  · simp [SameSign, signOf]

end ErbLayout
