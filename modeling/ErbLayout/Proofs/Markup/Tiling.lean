import ErbLayout.Markup.Token
import ErbLayout.Proofs.Markup.Tag
import Mathlib.Data.List.Chain
import Mathlib.Data.List.Forall2

/-!
The tokens of a body tile it. Their offsets begin at zero and increase, and the spans between
neighbouring offsets make up the body. A text or raw token is its span; a tag is the whole of its
span, read the same whatever follows. Text holds no tag and does not follow text, and raw content
stands only right after the opening tag of its container and does not hold a tag that closes it.
-/

namespace ErbLayout.Markup

open Text

def slice (s : Text) (start stop : Nat) : Text := (takeBytes stop s).drop (takeBytes start s).length

def cuts (body : Text) (ts : List Token) : List Nat := ts.map Token.offset ++ [byteSize body]

def spans (body : Text) (ts : List Token) : List Text :=
  List.zipWith (slice body) (cuts body ts) (cuts body ts).tail

def Lexeme.Fits : Lexeme → Text → Prop
  | .text s, span => s = span ∧ s ≠ [] ∧ tags.first? s = none
  | .raw s, span => s = span ∧ s ≠ []
  | .tag t, span => ∀ r, tags.run (span ++ r) = some (t, r)
  | .unrecognized _, _ => False

/-- What may stand before a lexeme: text does not follow text, and raw content follows the opening
tag of its container and holds no tag that closes it. -/
def Lexeme.MayFollow : Lexeme → Option Lexeme → Prop
  | .text _, before => ∀ s, before ≠ some (.text s)
  | .raw s, before =>
    ∃ name attributes gap, before = some (.tag (.opening name attributes gap .plain)) ∧
      name ∈ rawTextElements ∧ (closers name).first? s = none
  | _, _ => True

/-- A body cut into tokens. -/
structure Tiling (body : Text) (ts : List Token) : Prop where
  /-- The first token stands at the start. -/
  start : body ≠ [] → (ts.map Token.offset).head? = some 0
  /-- Each token begins before the next, and the last before the end of the body. -/
  increasing : (cuts body ts).Pairwise (· < ·)
  /-- The spans of the tokens are the body. -/
  cover : (spans body ts).flatten = body
  fits : List.Forall₂ (fun t span => t.lexeme.Fits span) ts (spans body ts)
  order : ∀ before t after, ts = before ++ t :: after →
    t.lexeme.MayFollow (before.getLast?.map Token.lexeme)
  /-- A token knows whether the body before it ends with a blank. -/
  afterBlank : ∀ t ∈ ts, t.afterBlank = endsBlank (takeBytes t.offset body)

/-- The text between the byte sizes of two first parts is what the second adds to the first. -/
theorem slice_append (a b c : Text) :
    slice (a ++ (b ++ c)) (byteSize a) (byteSize a + byteSize b) = b := by
  have hstop : takeBytes (byteSize a + byteSize b) (a ++ (b ++ c)) = a ++ b := by
    rw [← byteSize_append, ← List.append_assoc]
    exact takeBytes_append (a ++ b) c
  rw [slice, hstop, takeBytes_append, List.drop_left]

theorem byteSize_pos {s : Text} (h : s ≠ []) : 0 < byteSize s := by
  cases s with
  | nil => exact absurd rfl h
  | cons c s =>
    have := c.utf8Size_pos
    rw [byteSize_cons]
    omega

theorem endsBlank_append (s : Text) {t : Text} (h : t ≠ []) : endsBlank (s ++ t) = endsBlank t := by
  obtain ⟨u, c, rfl⟩ := (List.eq_nil_or_concat t).resolve_left h
  simp [endsBlank]

theorem cuts_place_cons (body : Text) (n : Nat) (blank : Bool) (l : Lexeme) (ls : List Lexeme) :
    cuts body (place n blank (l :: ls)) =
      n :: cuts body (place (n + byteSize l.written) (endsBlank l.written) ls) := rfl

theorem cuts_place {body p : Text} (blank : Bool) (ls : List Lexeme)
    (hbody : body = p ++ ls.flatMap Lexeme.written) :
    ∃ rest, cuts body (place (byteSize p) blank ls) = byteSize p :: rest := by
  cases ls with
  | nil => exact ⟨[], by simp [hbody, cuts, place]⟩
  | cons l ls => exact ⟨_, rfl⟩

/-- The spans of placed lexemes are the lexemes as they are written. -/
theorem spans_place {body p : Text} (blank : Bool) (ls : List Lexeme)
    (hbody : body = p ++ ls.flatMap Lexeme.written) :
    spans body (place (byteSize p) blank ls) = ls.map Lexeme.written := by
  induction ls generalizing p blank with
  | nil => simp [spans, cuts, place]
  | cons l ls ih =>
    have hnext : body = (p ++ l.written) ++ ls.flatMap Lexeme.written := by simpa using hbody
    have hrest := ih (endsBlank l.written) hnext
    obtain ⟨cs, hcs⟩ := cuts_place (endsBlank l.written) ls hnext
    rw [byteSize_append] at hrest hcs
    simp only [spans, cuts_place_cons, List.tail_cons] at hrest ⊢
    rw [hcs] at hrest ⊢
    rw [List.zipWith_cons_cons, List.map_cons]
    congr 1
    rw [hbody, List.flatMap_cons]
    exact slice_append p l.written (ls.flatMap Lexeme.written)

/-- Lexemes that are not empty are placed at increasing offsets. -/
theorem pairwise_cuts_place {body p : Text} (blank : Bool) (ls : List Lexeme)
    (hbody : body = p ++ ls.flatMap Lexeme.written) (hne : ∀ l ∈ ls, l.written ≠ []) :
    (cuts body (place (byteSize p) blank ls)).Pairwise (· < ·) := by
  have hchain : (cuts body (place (byteSize p) blank ls)).IsChain (· < ·) := by
    induction ls generalizing p blank with
    | nil => simp [cuts, place]
    | cons l ls ih =>
      have hnext : body = (p ++ l.written) ++ ls.flatMap Lexeme.written := by simpa using hbody
      have hrest := ih (endsBlank l.written) hnext fun l' hl' => hne l' (List.mem_cons_of_mem l hl')
      obtain ⟨cs, hcs⟩ := cuts_place (endsBlank l.written) ls hnext
      have hpos := byteSize_pos (hne l (List.mem_cons_self ..))
      rw [byteSize_append] at hrest hcs
      rw [cuts_place_cons, hcs, List.isChain_cons_cons, ← hcs]
      exact ⟨by omega, hrest⟩
  exact List.isChain_iff_pairwise.mp hchain

theorem afterBlank_place {body p : Text} (ls : List Lexeme)
    (hbody : body = p ++ ls.flatMap Lexeme.written) (hne : ∀ l ∈ ls, l.written ≠ []) :
    ∀ t ∈ place (byteSize p) (endsBlank p) ls,
      t.afterBlank = endsBlank (takeBytes t.offset body) := by
  induction ls generalizing p with
  | nil => simp [place]
  | cons l ls ih =>
    intro t ht
    rcases List.mem_cons.mp ht with rfl | ht
    · rw [hbody, takeBytes_append]
    · have hnext : body = (p ++ l.written) ++ ls.flatMap Lexeme.written := by simpa using hbody
      have hrest := ih hnext fun l' hl' => hne l' (List.mem_cons_of_mem l hl')
      rw [byteSize_append, endsBlank_append p (hne l (List.mem_cons_self ..))] at hrest
      exact hrest t ht

theorem map_lexeme_place (n : Nat) (blank : Bool) (ls : List Lexeme) :
    (place n blank ls).map Token.lexeme = ls := by
  induction ls generalizing n blank with
  | nil => rfl
  | cons l ls ih => simp [place, ih]

theorem tagsIn_isLocal (container : Option Text) : (tagsIn container).IsLocal := by
  cases container with
  | none => exact tags_isLocal
  | some name => exact closers_isLocal name

theorem tags_run_of_tagsIn {container : Option Text} {s r : Text} {t : Tag}
    (h : (tagsIn container).run s = some (t, r)) : tags.run s = some (t, r) := by
  cases container with
  | none => exact h
  | some name => exact (Option.filter_eq_some_iff.1 h).1

/-- The text before a tag fits its span when it holds no tag that is looked for. -/
theorem fits_leadingLexeme {container : Option Text} {content : Text}
    (h : (tagsIn container).first? content = none) :
    ∀ l ∈ leadingLexeme container content, l.Fits l.written := by
  intro l hl
  unfold leadingLexeme at hl
  split at hl
  · simp at hl
  next hne =>
    have hcontent : content ≠ [] := by simpa using hne
    split at hl
    · obtain rfl := List.mem_singleton.mp hl
      exact ⟨rfl, hcontent⟩
    next hcontainer =>
      obtain rfl := List.mem_singleton.mp hl
      have hnone : container = none := by simpa using hcontainer
      subst hnone
      exact ⟨rfl, hcontent, h⟩

theorem lexemesIn_of_first?_eq_none {container : Option Text} {s : Text}
    (h : (tagsIn container).first? s = none) :
    lexemesIn container s = leadingLexeme container s := by
  rw [lexemesIn]
  split
  next => rfl
  next hsome =>
    rw [hsome] at h
    simp at h

theorem lexemesIn_of_first? {container : Option Text} {s before rest : Text} {t : Tag}
    (h : (tagsIn container).first? s = some (before, t, rest)) :
    lexemesIn container s =
      leadingLexeme container before ++ .tag t :: lexemesIn t.rawContainer? rest := by
  rw [lexemesIn]
  split
  next hnone =>
    rw [hnone] at h
    simp at h
  next hsome =>
    rw [hsome] at h
    obtain ⟨rfl, rfl, rfl⟩ := by simpa using h
    rfl

theorem fits_of_mem_lexemesIn {container : Option Text} {s : Text} :
    ∀ l ∈ lexemesIn container s, l.Fits l.written := by
  fun_induction lexemesIn container s with
  | case1 container s hnone => exact fits_leadingLexeme hnone
  | case2 container s before t rest hsome ih =>
    intro l hl
    rcases List.mem_append.mp hl with hl | hl
    · exact fits_leadingLexeme ((tagsIn_isLocal container).covers.first?_before hsome) l hl
    · rcases List.mem_cons.mp hl with rfl | hl
      · obtain ⟨-, hrun, -⟩ := Recogniser.first?_eq_some_iff.mp hsome
        exact tags_isLocal _ _ _ (tags_run_of_tagsIn hrun)
      · exact ih l hl

theorem Lexeme.Fits.ne_nil {l : Lexeme} {span : Text} (h : l.Fits span) : span ≠ [] := by
  cases l with
  | text s => exact h.1 ▸ h.2.1
  | raw s => exact h.1 ▸ h.2
  | tag t =>
    have hrun := h []
    rintro rfl
    simp [Recogniser.run_nil] at hrun
  | unrecognized s => exact h.elim

theorem map_lexeme_tokens (body : Text) : (tokens body).map Token.lexeme = lexemes body :=
  map_lexeme_place 0 false (lexemes body)

theorem fits_of_mem_tokens {body : Text} {t : Token} (h : t ∈ tokens body) :
    t.lexeme.Fits t.lexeme.written := by
  have hmem := List.mem_map_of_mem (f := Token.lexeme) h
  rw [map_lexeme_tokens] at hmem
  exact fits_of_mem_lexemesIn t.lexeme hmem

/-- Each lexeme may follow the one before it; `before` stands before the first. -/
def Ordered : Option Lexeme → List Lexeme → Prop
  | _, [] => True
  | before, l :: ls => l.MayFollow before ∧ Ordered (some l) ls

def containerAfter : Option Lexeme → Option Text
  | some (.tag t) => t.rawContainer?
  | _ => none

theorem rawContainer?_eq_some {t : Tag} {name : Text} (h : t.rawContainer? = some name) :
    ∃ attributes gap, t = .opening name attributes gap .plain ∧ name ∈ rawTextElements := by
  unfold Tag.rawContainer? at h
  split at h
  next name' attributes gap =>
    split at h
    next hmem =>
      obtain rfl : name' = name := by simpa using h
      exact ⟨attributes, gap, rfl, by simpa using hmem⟩
    next => simp at h
  next => simp at h

theorem mayFollow_of_mem_leadingLexeme {before : Option Lexeme} {content : Text} {l : Lexeme}
    (hbefore : ∀ s, before ≠ some (.text s))
    (hnone : (tagsIn (containerAfter before)).first? content = none)
    (hl : l ∈ leadingLexeme (containerAfter before) content) : l.MayFollow before := by
  unfold leadingLexeme at hl
  split at hl
  · simp at hl
  next =>
    split at hl
    next hcontainer =>
      obtain rfl := List.mem_singleton.mp hl
      obtain ⟨name, hname⟩ := Option.isSome_iff_exists.mp hcontainer
      rw [hname] at hnone
      unfold containerAfter at hname
      split at hname
      next t =>
        obtain ⟨attributes, gap, rfl, hraw⟩ := rawContainer?_eq_some hname
        exact ⟨name, attributes, gap, rfl, hraw, hnone⟩
      next => simp at hname
    next =>
      obtain rfl := List.mem_singleton.mp hl
      exact hbefore

theorem leadingLexeme_eq (container : Option Text) (content : Text) :
    leadingLexeme container content = [] ∨ ∃ l, leadingLexeme container content = [l] := by
  unfold leadingLexeme
  split
  · exact Or.inl rfl
  · split
    · exact Or.inr ⟨_, rfl⟩
    · exact Or.inr ⟨_, rfl⟩

/-- The lexemes of a text stand in order after the lexeme that opened its container. -/
theorem ordered_lexemesIn {before : Option Lexeme} (s : Text)
    (hbefore : ∀ s, before ≠ some (.text s)) :
    Ordered before (lexemesIn (containerAfter before) s) := by
  -- what stands before a tag may follow `b`, and the tag may follow anything
  have hlead : ∀ (b : Option Lexeme) (content : Text) (ls : List Lexeme),
    (∀ s, b ≠ some (.text s)) →
      (tagsIn (containerAfter b)).first? content = none → (∀ b', Ordered b' ls) →
      Ordered b (leadingLexeme (containerAfter b) content ++ ls) := by
    intro b content ls hb hnone hls
    rcases leadingLexeme_eq (containerAfter b) content with hnil | ⟨l, hl⟩
    · rw [hnil]
      exact hls b
    · have hmay := mayFollow_of_mem_leadingLexeme (l := l) hb hnone (by rw [hl]; simp)
      rw [hl]
      exact ⟨hmay, hls (some l)⟩
  generalize hcontainer : containerAfter before = container
  fun_induction lexemesIn container s generalizing before with
  | case1 container s hnone =>
    subst hcontainer
    have hempty : ∀ b, Ordered b [] := fun _ => trivial
    simpa using hlead before s [] hbefore hnone hempty
  | case2 container s content t rest hsome ih =>
    subst hcontainer
    have hnone := (tagsIn_isLocal _).covers.first?_before hsome
    have hrest : Ordered (some (.tag t)) (lexemesIn t.rawContainer? rest) := ih (by simp) rfl
    exact hlead before content _ hbefore hnone fun b => ⟨trivial, hrest⟩

def Lexeme.IsTag : Lexeme → Prop
  | .tag _ => True
  | _ => False

/-- Of two neighbours one is a tag. -/
theorem isChain_lexemesIn (container : Option Text) (s : Text) :
    (lexemesIn container s).IsChain fun l l' => l.IsTag ∨ l'.IsTag := by
  have htag : ∀ (t : Tag) (ls : List Lexeme), ls.IsChain (fun l l' => l.IsTag ∨ l'.IsTag) →
      (Lexeme.tag t :: ls).IsChain fun l l' => l.IsTag ∨ l'.IsTag := by
    intro t ls hls
    cases ls with
    | nil => simp
    | cons l ls => exact List.isChain_cons_cons.mpr ⟨Or.inl trivial, hls⟩
  fun_induction lexemesIn container s with
  | case1 container s hnone =>
    rcases leadingLexeme_eq container s with hnil | ⟨l, hl⟩
    · simp [hnil]
    · simp [hl]
  | case2 container s before t rest hsome ih =>
    rcases leadingLexeme_eq container before with hnil | ⟨l, hl⟩
    · rw [hnil]
      exact htag t _ ih
    · rw [hl]
      exact List.isChain_cons_cons.mpr ⟨Or.inr trivial, htag t _ ih⟩

/-- Of two neighbouring tokens one is a tag, and the second knows whether the first ends with a
blank. -/
def Token.Precedes (t u : Token) : Prop :=
  (t.lexeme.IsTag ∨ u.lexeme.IsTag) ∧ u.afterBlank = endsBlank t.lexeme.written

theorem isChain_place {ls : List Lexeme} (h : ls.IsChain fun l m => l.IsTag ∨ m.IsTag)
    (offset : Nat) (blank : Bool) :
    (place offset blank ls).IsChain Token.Precedes := by
  induction ls generalizing offset blank with
  | nil => exact List.isChain_nil
  | cons l ls ih =>
    obtain ⟨hhead, htail⟩ := List.isChain_cons.mp h
    rw [place, List.isChain_cons]
    refine ⟨?_, ih htail _ _⟩
    cases ls with
    | nil => simp [place]
    | cons m ls =>
      intro u hu
      obtain rfl := Option.some.inj hu
      exact ⟨hhead m rfl, rfl⟩

theorem isChain_tokens (body : Text) : (tokens body).IsChain Token.Precedes :=
  isChain_place (isChain_lexemesIn none body) 0 false

/-- The neighbours of a text are tags, and the one after it stands after a blank if the text ends
with one. -/
theorem neighbours_of_text {body : Text} {before rest : List Token} {t : Token} {s : Text}
    (htokens : tokens body = before ++ t :: rest) (ht : t.lexeme = .text s) :
    (∀ u ∈ before.getLast?, u.lexeme.IsTag) ∧ ∀ u ∈ rest.head?, u.lexeme.IsTag ∧
      u.afterBlank = endsBlank s := by
  have hchain := isChain_tokens body
  have hnotTag : ¬ t.lexeme.IsTag := by
    rw [ht]
    exact id
  rw [htokens, List.isChain_append, List.isChain_cons] at hchain
  obtain ⟨-, ⟨hafter, -⟩, hbefore⟩ := hchain
  constructor
  · intro u hu
    exact (hbefore u hu t rfl).1.resolve_right hnotTag
  · intro u hu
    obtain ⟨htag, hblank⟩ := hafter u hu
    rw [ht] at hblank
    exact ⟨htag.resolve_left hnotTag, hblank⟩

theorem Ordered.mayFollow {b : Option Lexeme} {ls before after : List Lexeme} {l : Lexeme}
    (h : Ordered b ls) (hls : ls = before ++ l :: after) : l.MayFollow (before.getLast?.or b) := by
  induction before generalizing b ls with
  | nil =>
    subst hls
    exact h.1
  | cons l' before ih =>
    subst hls
    have hrest := ih h.2 rfl
    rw [List.getLast?_cons]
    cases hlast : before.getLast? with
    | none => simpa [hlast] using hrest
    | some x => simpa [hlast] using hrest

theorem tokens_tile (body : Text) : Tiling body (tokens body) := by
  have hfits : ∀ l ∈ lexemes body, l.Fits l.written := fits_of_mem_lexemesIn
  have hne : ∀ l ∈ lexemes body, l.written ≠ [] := fun l hl => (hfits l hl).ne_nil
  have hbody : body = [] ++ (lexemes body).flatMap Lexeme.written :=
    (flatMap_lexemesIn none body).symm
  have hspans : spans body (tokens body) = (lexemes body).map Lexeme.written :=
    spans_place false (lexemes body) hbody
  have hlexemes := map_lexeme_tokens body
  have hordered : Ordered none (lexemes body) := ordered_lexemesIn body (by simp)
  refine ⟨?_, pairwise_cuts_place false (lexemes body) hbody hne, ?_, ?_, ?_,
    afterBlank_place (lexemes body) hbody hne⟩
  · intro hbody'
    unfold tokens
    cases hl : lexemes body with
    | nil => exact absurd (by simpa [hl] using hbody) hbody'
    | cons l ls => rfl
  · rw [hspans, ← List.flatMap_def]
    exact hbody.symm
  · rw [hspans, ← hlexemes, List.map_map]
    rw [List.forall₂_map_right_iff, List.forall₂_same]
    intro t ht
    exact hfits t.lexeme (by rw [← hlexemes]; exact List.mem_map_of_mem ht)
  · intro before t after hsplit
    have hls : lexemes body = before.map Token.lexeme ++ t.lexeme :: after.map Token.lexeme := by
      rw [← hlexemes, hsplit]
      simp
    have hmay := hordered.mayFollow hls
    rw [List.getLast?_map] at hmay
    simpa using hmay

theorem lexemesIn_nil (container : Option Text) : lexemesIn container [] = [] := by
  rw [lexemesIn]
  rfl

/-- A tag that is all of a text is its one token. -/
theorem tokens_of_run {s : Text} {t : Tag} (h : tags.run s = some (t, [])) :
    tokens s = [⟨0, false, .tag t⟩] := by
  have hfirst : (tagsIn none).first? s = some ([], t, []) := Recogniser.first?_of_run h
  rw [tokens, lexemes, lexemesIn_of_first? hfirst, lexemesIn_nil]
  rfl

end ErbLayout.Markup
