import ErbLayout.Proofs.Markup.Tiling

/-!
A body as a text and rows after it, each a tag and the content that follows the tag. Contents may be
empty, so text and tags alternate. The content after a tag that opens raw text is raw; all other
content is text. Rows can be read when no tag begins in a content but those the rows have: then the
lexemes of the rows as they are written are the tags and contents of the rows.
-/

namespace ErbLayout.Markup

open Text

def rowsWritten (rows : List (Tag × Text)) : Text := rows.flatMap fun (t, u) => t.written ++ u

def rowsLexemes (rows : List (Tag × Text)) : List Lexeme :=
  rows.flatMap fun (t, u) => .tag t :: leadingLexeme t.rawContainer? u

def beginsTag (c : Char) : Bool := isTagNameChar c || c == '/'

/-- A tag may begin in the text: it has the sign for that with a character after it that may follow
in a tag. -/
def holdsTagSign : Text → Bool
  | [] => false
  | c :: s => (c == '<' && s.head?.any beginsTag) || holdsTagSign s

def IsClear : Option Text → Text → Prop
  | none, s => holdsTagSign s = false
  | some name, s => (closers name).first? s = none

def CanRead : Option Text → Text → List (Tag × Text) → Prop
  | container, x, [] => IsClear container x
  | container, x, (t, u) :: rows =>
    IsClear container x ∧ (∀ r, (tagsIn container).run (t.written ++ r) = some (t, r)) ∧
      CanRead t.rawContainer? u rows

theorem rowsWritten_cons (t : Tag) (u : Text) (rows : List (Tag × Text)) :
    rowsWritten ((t, u) :: rows) = t.written ++ (u ++ rowsWritten rows) := by
  simp [rowsWritten]

theorem rowsLexemes_cons (t : Tag) (u : Text) (rows : List (Tag × Text)) :
    rowsLexemes ((t, u) :: rows) = .tag t ::
      (leadingLexeme t.rawContainer? u ++ rowsLexemes rows) := by
  simp [rowsLexemes]

theorem exists_cons_of_tags_run {s r : Text} {t : Tag} (h : tags.run s = some (t, r)) :
    ∃ c u, s = '<' :: c :: u ∧ beginsTag c := by
  have hs := (tags.sound s t r h).1
  have hread := tag?_eq_some_isRead h
  cases t with
  | opening name attributes gap ending =>
    obtain ⟨hne, hchars⟩ := isTagName_iff.mp hread.1
    obtain ⟨c, name, rfl⟩ := List.exists_cons_of_ne_nil hne
    exact ⟨c, _, hs, by simp [beginsTag, hchars c List.mem_cons_self]⟩
  | closing lead name trail => exact ⟨'/', _, hs, rfl⟩

section Signs

theorem holdsTagSign_append_cons (s : Text) {c : Char} (hc : isBlank c) (t : Text) :
    holdsTagSign (s ++ c :: t) = (holdsTagSign s || holdsTagSign t) := by
  have hsign : c ≠ '<' := by
    rintro rfl
    exact absurd hc (by decide)
  have hnext : beginsTag c = false := by
    have hslash : c ≠ '/' := by
      rintro rfl
      exact absurd hc (by decide)
    simp [beginsTag, isTagNameChar_eq_false_of_isBlank hc, hslash]
  induction s with
  | nil => simp [holdsTagSign, hsign]
  | cons d s ih =>
    rw [List.cons_append, holdsTagSign, holdsTagSign, ih, Bool.or_assoc]
    cases s with
    | nil => simp [hnext]
    | cons e s => rfl

/-- Whether a tag may begin in a text depends on its words only. -/
theorem holdsTagSign_congr {s t : Text} (h : words s = words t) :
    holdsTagSign s = holdsTagSign t := by
  have hwords := eq_any_words rfl fun s c t hc => holdsTagSign_append_cons s hc t
  rw [hwords s, hwords t, h]

theorem holdsTagSign_of_isSuffix {s t : Text} (ht : holdsTagSign t = false) (hs : s <:+ t) :
    holdsTagSign s = false := by
  induction t with
  | nil =>
    rw [List.suffix_nil.mp hs]
    rfl
  | cons c t ih =>
    rcases List.suffix_cons_iff.mp hs with rfl | hs
    · exact ht
    · rw [holdsTagSign, Bool.or_eq_false_iff] at ht
      exact ih ht.2 hs

/-- No tag is read in a text without the signs of one, whatever follows, if that does not begin
within a tag. -/
theorem tags_run_of_holdsTagSign {s t : Text} (hs : holdsTagSign s = false) (hne : s ≠ [])
    (ht : ∀ c ∈ t.head?, beginsTag c = false) : tags.run (s ++ t) = none := by
  cases hrun : tags.run (s ++ t) with
  | none => rfl
  | some x =>
    obtain ⟨d, u, hu, hd⟩ := exists_cons_of_tags_run hrun
    obtain ⟨c, s, rfl⟩ := List.exists_cons_of_ne_nil hne
    obtain ⟨rfl, hrest⟩ := List.cons.inj hu
    rw [holdsTagSign, Bool.or_eq_false_iff] at hs
    cases s with
    | nil =>
      obtain rfl : t = d :: u := hrest
      rw [ht d rfl] at hd
      simp at hd
    | cons e s =>
      obtain ⟨rfl, -⟩ := List.cons.inj hrest
      simp [hd] at hs

end Signs

/-- A closing tag has no character that begins a tag but its first. -/
theorem notMem_tail_of_closes {name s r : Text} {t : Tag} (h : (closers name).run s = some (t, r)) :
    '<' ∉ ((closers name).written t).tail := by
  obtain ⟨hrun, hcloses⟩ := Option.filter_eq_some_iff.mp h
  have hread := tag?_eq_some_isRead hrun
  cases t with
  | opening name' attributes gap ending => simp [Tag.closes] at hcloses
  | closing lead name' trail =>
    obtain ⟨hlead, hname, htrail⟩ := hread
    have hblank : ∀ b : Text, (∀ c ∈ b, isBlank c) → '<' ∉ b :=
      fun b hb hmem => absurd (hb '<' hmem) (by decide)
    have hchars : '<' ∉ name' := fun hmem => absurd ((isTagName_iff.mp hname).2 '<' hmem)
      (by decide)
    change '<' ∉ '/' :: (lead ++ name' ++ trail ++ ['>'])
    simp [hblank lead hlead, hchars, hblank trail htrail]

/-- The tag after a content that is clear is the first that is found. -/
theorem IsClear.first?_append {container : Option Text} {x : Text} (hx : IsClear container x)
    {t : Tag} (ht : ∀ r, (tagsIn container).run (t.written ++ r) = some (t, r)) (rest : Text) :
    (tagsIn container).first? (x ++ (t.written ++ rest)) = some (x, t, rest) := by
  cases container with
  | none =>
    obtain ⟨c, u, hu, -⟩ := exists_cons_of_tags_run (ht rest)
    refine Recogniser.first?_eq_some_iff.mpr ⟨rfl, ht rest, ?_⟩
    intro v hv hne
    refine tags_run_of_holdsTagSign (holdsTagSign_of_isSuffix hx hv) hne ?_
    have hu : (tagsIn none).written t ++ rest = '<' :: c :: u := hu
    rw [hu]
    simp
    decide
  | some name =>
    obtain ⟨c, u, hu, -⟩ := exists_cons_of_tags_run (tags_run_of_tagsIn (ht rest))
    have hparted : (closers name).Parted x ('<' :: c :: u) :=
      Recogniser.parted_cons (fun v a r hrun => notMem_tail_of_closes hrun) x (c :: u)
    rw [← hu] at hparted
    have hfirst := hparted.first?_of_eq_none (closers_isLocal name) hx
    have hrun : (closers name).run (t.written ++ rest) = some (t, rest) := ht rest
    rw [Recogniser.first?_of_run hrun] at hfirst
    change (closers name).first? (x ++ (t.written ++ rest)) = some (x, t, rest)
    simpa using hfirst

theorem IsClear.first?_eq_none {container : Option Text} {x : Text} (hx : IsClear container x) :
    (tagsIn container).first? x = none := by
  cases container with
  | none =>
    refine Recogniser.first?_eq_none_iff.mpr fun v hv => ?_
    by_cases hne : v = []
    · rw [hne]
      exact Recogniser.run_nil _
    · have hrun := tags_run_of_holdsTagSign (t := []) (holdsTagSign_of_isSuffix hx hv) hne (by simp)
      rwa [List.append_nil] at hrun
  | some name => exact hx

/-- Rows that can be read are read as they are written. -/
theorem lexemesIn_rows {container : Option Text} {x : Text} {rows : List (Tag × Text)}
    (h : CanRead container x rows) :
    lexemesIn container (x ++ rowsWritten rows) = leadingLexeme container x ++
      rowsLexemes rows := by
  induction rows generalizing container x with
  | nil =>
    have hx : IsClear container x := h
    simp only [rowsWritten, rowsLexemes, List.flatMap_nil, List.append_nil]
    exact lexemesIn_of_first?_eq_none hx.first?_eq_none
  | cons row rows ih =>
    obtain ⟨t, u⟩ := row
    obtain ⟨hx, ht, hrest⟩ := h
    rw [rowsWritten_cons, rowsLexemes_cons, lexemesIn_of_first? (hx.first?_append ht _), ih hrest]

/-- Rows that can be read are known from the text they are written as. -/
theorem CanRead.eq_of_written {container : Option Text} {x y : Text}
    {rows rows' : List (Tag × Text)} (h : CanRead container x rows) (h' : CanRead container y rows')
    (hwritten : x ++ rowsWritten rows = y ++ rowsWritten rows') : x = y ∧ rows = rows' := by
  have hnil : ∀ {container : Option Text} {x : Text}, CanRead container x [] →
      (tagsIn container).first? (x ++ rowsWritten []) = none := by
    intro container x h
    have hx : IsClear container x := h
    rw [rowsWritten, List.flatMap_nil, List.append_nil]
    exact hx.first?_eq_none
  have hcons : ∀ {container : Option Text} {x : Text} {row : Tag × Text} {rows : List (Tag × Text)},
      CanRead container x (row :: rows) →
      (tagsIn container).first? (x ++ rowsWritten (row :: rows)) =
          some (x, row.1, row.2 ++ rowsWritten rows) := by
    intro container x row rows h
    rw [rowsWritten_cons]
    exact h.1.first?_append h.2.1 _
  induction rows generalizing container x y rows' with
  | nil =>
    cases rows' with
    | nil => exact ⟨by simpa [rowsWritten] using hwritten, rfl⟩
    | cons row rows' =>
      have hfirst := hnil h
      rw [hwritten, hcons h'] at hfirst
      simp at hfirst
  | cons row rows ih =>
    cases rows' with
    | nil =>
      have hfirst := hcons h
      rw [hwritten, hnil h'] at hfirst
      simp at hfirst
    | cons row' rows' =>
      have hfirst := hcons h
      rw [hwritten, hcons h'] at hfirst
      obtain ⟨t, u⟩ := row
      obtain ⟨t', u'⟩ := row'
      obtain ⟨rfl, rfl, hrest⟩ : y = x ∧ t' = t ∧
          u' ++ rowsWritten rows' = u ++ rowsWritten rows := by
        simpa using hfirst
      obtain ⟨rfl, rfl⟩ := ih h.2.2 h'.2.2 hrest.symm
      exact ⟨rfl, rfl⟩

def Lexeme.IsClear : Lexeme → Prop
  | .text s => holdsTagSign s = false
  | _ => True

theorem isClear_of_leadingLexeme {container : Option Text} {x : Text}
    (hnone : (tagsIn container).first? x = none)
    (hlexeme : ∀ l ∈ leadingLexeme container x, l.IsClear) : IsClear container x := by
  cases container with
  | some name => exact hnone
  | none =>
    by_cases hx : x = []
    · rw [hx]
      rfl
    · exact hlexeme (.text x) (by simp [leadingLexeme, hx])

/-- A body whose texts are clear is made of rows that can be read. -/
theorem exists_rows (container : Option Text) (s : Text)
    (h : ∀ l ∈ lexemesIn container s, l.IsClear) :
    ∃ x rows, s = x ++ rowsWritten rows ∧ CanRead container x rows := by
  fun_induction lexemesIn container s with
  | case1 container s hnone =>
    exact ⟨s, [], by simp [rowsWritten], isClear_of_leadingLexeme hnone h⟩
  | case2 container s before t rest hsome ih =>
    obtain ⟨x, rows, hrest, hread⟩ := ih fun l hl =>
      h l (List.mem_append_right _ (List.mem_cons_of_mem _ hl))
    obtain ⟨hs, hrun, -⟩ := Recogniser.first?_eq_some_iff.mp hsome
    have hnone := (tagsIn_isLocal container).covers.first?_before hsome
    refine ⟨before, (t, x) :: rows, ?_, ?_, ?_, hread⟩
    · rw [rowsWritten_cons, ← hrest, hs, tagsIn_written]
    · exact isClear_of_leadingLexeme hnone fun l hl => h l (List.mem_append_left _ hl)
    · intro r
      have hlocal := tagsIn_isLocal container _ _ _ hrun r
      rwa [tagsIn_written] at hlocal

end ErbLayout.Markup
