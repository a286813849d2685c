import ErbLayout.Proofs.Acceptance
import ErbLayout.Proofs.RowLayout

/-!
The places of tags. A tag has as its place the number of blocks that are open before it, which the
brackets before it tell; a layout puts the tag out at that depth. Where all blocks are closed at the
end there are as many brackets that open an element as there are brackets that close one, so no tag
can be taken for one that opens an element more.
-/

namespace ErbLayout

open Text Markup Code

section Brackets

def Markup.Tag.brackets : Tag → List Bracket
  | .opening name _ _ ending =>
    if ending = .slash || isVoidElement name then [] else [.openTag name]
  | .closing _ name _ => [.closeTag name]

/-- The markers of a text; those of raw content are not looked at. -/
def contentMarkers : Option Text → Text → List Text
  | none, s => markers.found s
  | some _, _ => []

def contentBrackets (probe : Text → Bool) (table : MarkerTable) (container : Option Text)
    (x : Text) : List Bracket :=
  (contentMarkers container x).flatMap (markerBrackets probe table)

theorem lexemeBrackets_tag (probe : Text → Bool) (table : MarkerTable) (t : Tag) :
    lexemeBrackets probe table (.tag t) = t.brackets := by
  cases t <;> rfl

def Bracket.opensElement : Bracket → Bool
  | .openTag _ => true
  | _ => false

def Bracket.closesElement : Bracket → Bool
  | .closeTag _ => true
  | _ => false

def Frame.isElement : Frame → Bool
  | .element _ => true
  | .code => false

theorem countP_step {b : Bracket} {frames next : List Frame} (h : b.step frames = some next) :
    frames.countP Frame.isElement + [b].countP Bracket.opensElement =
      next.countP Frame.isElement + [b].countP Bracket.closesElement := by
  cases b with
  | openTag name =>
    obtain rfl : .element name :: frames = next := by simpa [Bracket.step] using h
    simp [List.countP_cons, Frame.isElement, Bracket.opensElement, Bracket.closesElement]
  | opener =>
    obtain rfl : .code :: frames = next := by simpa [Bracket.step] using h
    simp [Frame.isElement, Bracket.opensElement, Bracket.closesElement]
  | closeTag name =>
    cases frames with
    | nil => simp [Bracket.step] at h
    | cons frame frames =>
      cases frame with
      | code => simp [Bracket.step] at h
      | element name' =>
        obtain ⟨-, rfl⟩ : name' = name ∧ frames = next := by simpa [Bracket.step] using h
        simp [List.countP_cons, Frame.isElement, Bracket.opensElement, Bracket.closesElement]
  | closer =>
    cases frames with
    | nil => simp [Bracket.step] at h
    | cons frame frames =>
      cases frame with
      | element name => simp [Bracket.step] at h
      | code =>
        obtain rfl : frames = next := by simpa [Bracket.step] using h
        simp [Frame.isElement, Bracket.opensElement, Bracket.closesElement]
  | reopener =>
    cases frames with
    | nil => simp [Bracket.step] at h
    | cons frame frames =>
      cases frame with
      | element name => simp [Bracket.step] at h
      | code =>
        obtain rfl : .code :: frames = next := by simpa [Bracket.step] using h
        simp [Bracket.opensElement, Bracket.closesElement]

/-- The elements that are open are those that were, with those that are opened and without those
that are closed. -/
theorem countP_runBrackets {w : List Bracket} {frames frames' : List Frame}
    (h : runBrackets w frames = some frames') :
    frames.countP Frame.isElement + w.countP Bracket.opensElement =
      frames'.countP Frame.isElement + w.countP Bracket.closesElement := by
  induction w generalizing frames with
  | nil =>
    obtain rfl : frames = frames' := by simpa [runBrackets] using h
    rfl
  | cons b w ih =>
    obtain ⟨next, hstep, hrest⟩ := Option.bind_eq_some_iff.mp h
    have hb := countP_step hstep
    have hcount := ih hrest
    rw [← List.singleton_append, List.countP_append, List.countP_append]
    omega

end Brackets

section Places

def placedTags (probe : Text → Bool) (table : MarkerTable) :
    List Frame → List Lexeme → List (Nat × Tag)
  | _, [] => []
  | frames, l :: ls =>
    (match l with
      | .tag t => [(frames.length, t)]
      | _ => []) ++
    (runBrackets (lexemeBrackets probe table l) frames).elim [] fun frames' =>
      placedTags probe table frames' ls

variable {probe : Text → Bool} {table : MarkerTable}

theorem placedTags_content (frames : List Frame) (container : Option Text) (x : Text)
    (ls : List Lexeme) :
    placedTags probe table frames (leadingLexeme container x ++ ls) =
      (runBrackets (contentBrackets probe table container x) frames).elim [] fun frames' =>
        placedTags probe table frames' ls := by
  by_cases hx : x = []
  · subst hx
    have hnone : contentBrackets probe table container [] = [] := by
      cases container with
      | none =>
        rw [contentBrackets, contentMarkers, Recogniser.found_of_first?_eq_none rfl,
          List.flatMap_nil]
      | some name => rfl
    rw [leadingLexeme_nil, hnone]
    rfl
  · rw [leadingLexeme_of_ne_nil container hx]
    cases container <;> rfl

theorem placedTags_rows_nil (frames : List Frame) (container : Option Text) (x : Text) :
    placedTags probe table frames (leadingLexeme container x ++ rowsLexemes []) = [] := by
  rw [placedTags_content]
  cases runBrackets (contentBrackets probe table container x) frames <;> rfl

theorem placedTags_rows_cons {frames frames₁ frames₂ : List Frame} {container : Option Text}
    {x : Text} {t : Tag} (hx : runBrackets (contentBrackets probe table container x) frames =
      some frames₁) (ht : runBrackets t.brackets frames₁ = some frames₂) (u : Text)
    (rows : List (Tag × Text)) :
    placedTags probe table frames (leadingLexeme container x ++ rowsLexemes ((t, u) :: rows)) =
      (frames₁.length, t) :: placedTags probe table frames₂
        (leadingLexeme t.rawContainer? u ++ rowsLexemes rows) := by
  rw [placedTags_content, hx, rowsLexemes_cons, Option.elim_some, placedTags,
    lexemeBrackets_tag, ht]
  rfl

theorem mem_of_mem_placedTags {frames : List Frame} {ls : List Lexeme} {a : Nat × Tag}
    (h : a ∈ placedTags probe table frames ls) : .tag a.2 ∈ ls := by
  induction ls generalizing frames with
  | nil => simp [placedTags] at h
  | cons l ls ih =>
    rcases List.mem_append.mp h with h | h
    · cases l with
      | tag t =>
        obtain rfl := List.mem_singleton.mp h
        exact List.mem_cons_self
      | text s => exact absurd h List.not_mem_nil
      | raw s => exact absurd h List.not_mem_nil
      | unrecognized s => exact absurd h List.not_mem_nil
    · cases hrun : runBrackets (lexemeBrackets probe table l) frames with
      | none => simp [hrun] at h
      | some frames' =>
        rw [hrun] at h
        exact List.mem_cons_of_mem _ (ih h)

/-- The places of tags depend on code tags only by their brackets. -/
theorem placedTags_congr {table' : MarkerTable}
    (h : ∀ d, markerBrackets probe table' d = markerBrackets probe table d) (frames : List Frame)
    (ls : List Lexeme) : placedTags probe table' frames ls = placedTags probe table frames ls := by
  have hbrackets : lexemeBrackets probe table' = lexemeBrackets probe table := by
    funext l
    cases l with
    | text s => exact congrArg (fun f => (markers.found s).flatMap f) (funext h)
    | tag t => rw [lexemeBrackets_tag, lexemeBrackets_tag]
    | raw s => rfl
    | unrecognized s => rfl
  induction ls generalizing frames with
  | nil => rfl
  | cons l ls ih => simp only [placedTags, hbrackets, ih]

theorem Page.length_frames (p : Page) : p.frames.length = p.depth := by
  rw [Page.frames, List.length_map]
  rfl

namespace Job

variable {j : Job} {p q : Page}

/-- A content that is laid out leaves the frames of its brackets. -/
theorem runBrackets_layContent {container : Option Text} {x : Text} {tail : Nat}
    (hlay : j.layContent container x tail p = .ok q) :
    runBrackets (contentBrackets j.options.probe j.table container x) p.frames = some q.frames := by
  cases container with
  | none =>
    have hfollows := j.follows_layTextToken 0 x tail p
    have hlay : j.layTextToken 0 x tail p = .ok q := hlay
    rw [hlay] at hfollows
    exact hfollows.2
  | some name =>
    obtain rfl := Except.ok.inj hlay
    exact congrArg some (Page.frames_append p (trimEnd x)).symm

theorem runBrackets_layTag {t : Tag} (hread : ∀ r, tags.run (t.written ++ r) = some (t, r))
    {newLine : Bool} (hlay : j.layTag t newLine p = .ok q) :
    runBrackets t.brackets p.frames = some q.frames := by
  have hparts := tag?_eq_some_isRead (hread [])
  cases t with
  | opening name attributes gap ending =>
    have hfollows := j.follows_layOpening hparts.1 attributes ending newLine p
    have hlay : j.layOpening name attributes ending newLine p = .ok q := hlay
    rw [hlay] at hfollows
    exact hfollows.2
  | closing lead name trail =>
    have hfollows := follows_layClosing name newLine p
    have hlay : layClosing name newLine p = .ok q := hlay
    rw [hlay] at hfollows
    exact hfollows.2

end Job

end Places

end ErbLayout
