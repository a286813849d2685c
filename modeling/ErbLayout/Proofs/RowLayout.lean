import ErbLayout.Proofs.Adjacency
import ErbLayout.Proofs.Markup.Rows
import ErbLayout.Proofs.Pages

/-!
The layout of rows. A content is laid out before the tag after it, with the columns of the tags that
are glued to it in mind, and the tag goes on a new line when the content ends with a blank. Rows
that can be read are laid out as the tokens of the body that they are written as.
-/

namespace ErbLayout

open Text Markup Code Layout

def Markup.Tag.glue? : Tag → Option Nat
  | .closing _ name _ => some (byteSize name + 3)
  | .opening name attributes _ ending =>
    if allBlank attributes then some (1 + byteSize name + byteSize ending.written) else none

def gluedRows : List (Tag × Text) → Nat
  | [] => 0
  | (t, u) :: rows =>
    match t.glue? with
    | none => 0
    | some n => n + if u.isEmpty then gluedRows rows else 0

namespace Job

def layTag (j : Job) : Tag → Bool → Page → Except Stop Page
  | .opening name attributes _ ending, newLine, p => j.layOpening name attributes ending newLine p
  | .closing _ name _, newLine, p => layClosing name newLine p

def layContent (j : Job) : Option Text → Text → Nat → Page → Except Stop Page
  | none, s, tail, p => j.layTextToken 0 s tail p
  | some _, s, _, p => .ok (p.append (trimEnd s))

def layRows (j : Job) : Option Text → Text → List (Tag × Text) → Page → Except Stop Page
  | container, x, [], p => j.layContent container x 0 p
  | container, x, (t, u) :: rows, p => do
    let p ← j.layContent container x (if endsBlank x then 0 else gluedRows ((t, u) :: rows)) p
    let p ← j.layTag t (endsBlank x) p
    j.layRows t.rawContainer? u rows p

end Job

theorem endsBlank_tag (t : Tag) : endsBlank t.written = false :=
  (isEnclosed_written t).isVisible.ends

theorem leadingLexeme_nil (container : Option Text) : leadingLexeme container [] = [] := rfl

theorem leadingLexeme_of_ne_nil (container : Option Text) {x : Text} (hx : x ≠ []) :
    leadingLexeme container x = if container.isSome then [.raw x] else [.text x] := by
  rw [leadingLexeme, if_neg (by simpa using hx)]

theorem gluedWidth_rows (offset : Nat) (afterBlank : Bool) (rows : List (Tag × Text)) :
    Job.gluedWidth (place offset afterBlank (rowsLexemes rows)) =
      if afterBlank then 0 else gluedRows rows := by
  induction rows generalizing offset afterBlank with
  | nil => simp [rowsLexemes, place, Job.gluedWidth, gluedRows]
  | cons row rows ih =>
    obtain ⟨t, u⟩ := row
    have hrest : ∀ n, Job.gluedWidth
      (place n false (leadingLexeme t.rawContainer? u ++ rowsLexemes rows)) =
        if u.isEmpty then gluedRows rows else 0 := by
      intro n
      by_cases hu : u = []
      · rw [hu, leadingLexeme_nil, List.nil_append, ih]
        rfl
      · have hempty : u.isEmpty = false := by simpa using hu
        rw [leadingLexeme_of_ne_nil _ hu, hempty]
        split <;> rfl
    rw [rowsLexemes_cons, place, Job.gluedWidth, gluedRows]
    dsimp only [Lexeme.written]
    rw [endsBlank_tag]
    cases t with
    | closing lead name trail => simp only [hrest, Tag.glue?]
    | opening name attributes gap ending =>
      simp only [hrest, Tag.glue?]
      cases allBlank attributes <;> rfl

namespace Job

variable {j : Job} {p q : Page}

theorem layTextToken_nil (j : Job) (offset tail : Nat) (p : Page) :
    j.layTextToken offset [] tail p = .ok p := by
  have hsplit : markers.split [] = ([], []) := Recogniser.split_of_first?_eq_none rfl
  have hbad : badAttributes.occursIn [] = false := rfl
  simp [layTextToken, hsplit, hbad, codePieces, layPieces, layText, bind, Except.bind]

/-- A content is laid out as its token is, if it has one, and the layout goes on alike. -/
theorem agree_layTokens_content {container : Option Text} {x : Text} {ls : List Lexeme} {tail : Nat}
    {next : Page → Except Stop Page}
    (htail : ∀ offset, gluedWidth (place offset (endsBlank x) ls) = tail)
    (hnext : ∀ offset {p q : Page}, p.Matches [] q →
      Agree [] (j.layTokens (place offset (endsBlank x) ls) p) (next q)) (offset : Nat)
    (h : p.Matches [] q) :
    Agree [] (j.layTokens (place offset false (leadingLexeme container x ++ ls)) p)
      (j.layContent container x tail q >>= next) := by
  by_cases hx : x = []
  · subst hx
    rw [leadingLexeme_nil, List.nil_append]
    cases container with
    | none =>
      rw [layContent, layTextToken_nil]
      exact hnext offset h
    | some name =>
      have happend : p.Matches [] (q.append (trimEnd [])) := by
        refine ⟨h.blocks, ?_, h.margin⟩
        rw [Page.output_append, h.output]
        simp [trimEnd]
      exact hnext offset happend
  · rw [leadingLexeme_of_ne_nil container hx]
    cases container with
    | none =>
      refine Agree.bind (?_ : Agree [] _ _) fun _ _ hpages => hnext _ hpages
      change Agree []
        (j.layTextToken offset x (gluedWidth (place (offset + byteSize x) (endsBlank x) ls))
          { p with position := offset }) (j.layTextToken 0 x tail q)
      rw [htail]
      exact agree_layTextToken_offset _ _ x tail (h.move offset q.position)
    | some name =>
      refine Agree.bind (?_ : Agree [] _ _) fun _ _ hpages => hnext _ hpages
      exact .ok ((h.move offset q.position).append (trimEnd x))

theorem layToken_tag (j : Job) (offset : Nat) (afterBlank : Bool) (t : Tag) (following : List Token)
    (p : Page) :
    j.layToken ⟨offset, afterBlank, .tag t⟩ following p =
      j.layTag t afterBlank { p with position := offset } := by
  cases t <;> rfl

/-- The same tag is laid out alike on pages that match. -/
theorem agree_layTag {margin : Text} (t : Tag) (newLine : Bool) (h : p.Matches margin q) :
    Agree margin (j.layTag t newLine p) (j.layTag t newLine q) := by
  cases t with
  | closing lead name trail =>
    exact (h.pop (.tag name) _ _).bind fun _ _ hpages => .ok (hpages.emit _ newLine)
  | opening name attributes gap ending =>
    unfold layTag layOpening
    dsimp only
    rw [h.depth_eq]
    split
    · exact .error _ _
    · split
      · exact .ok (h.emit _ newLine)
      · exact .ok ((h.emit _ newLine).push _)

/-- Rows are laid out alike on pages that match. -/
theorem agree_layRows {margin : Text} (container : Option Text) (x : Text)
    (rows : List (Tag × Text)) (h : p.Matches margin q) :
    Agree margin (j.layRows container x rows p) (j.layRows container x rows q) := by
  have hcontent : ∀ (container : Option Text) (x : Text) (tail : Nat) {p q : Page},
    p.Matches margin q →
      Agree margin (j.layContent container x tail p) (j.layContent container x tail q) := by
    intro container x tail p q h
    cases container with
    | none => exact agree_layTextToken_offset 0 0 x tail h
    | some name => exact .ok (h.append (trimEnd x))
  induction rows generalizing container x p q with
  | nil => exact hcontent container x 0 h
  | cons row rows ih =>
    obtain ⟨t, u⟩ := row
    refine (hcontent container x _ h).bind fun _ _ hpages => ?_
    exact (agree_layTag t (endsBlank x) hpages).bind fun _ _ hpages => ih t.rawContainer? u hpages

/-- The tokens of rows are laid out as the rows are. -/
theorem agree_layTokens_rows (container : Option Text) (x : Text) (rows : List (Tag × Text))
    (offset : Nat) (h : p.Matches [] q) :
    Agree [] (j.layTokens (place offset false (leadingLexeme container x ++ rowsLexemes rows)) p)
      (j.layRows container x rows q) := by
  induction rows generalizing container x offset p q with
  | nil =>
    have hbind : j.layRows container x [] q = j.layContent container x 0 q >>= .ok := by
      rw [layRows]
      cases j.layContent container x 0 q <;> rfl
    rw [hbind]
    apply agree_layTokens_content (fun _ => rfl) _ offset h
    intro offset p q hpages
    exact .ok hpages
  | cons row rows ih =>
    obtain ⟨t, u⟩ := row
    apply agree_layTokens_content (fun offset => gluedWidth_rows offset (endsBlank x)
      ((t, u) :: rows)) _ offset h
    intro offset p q h
    rw [rowsLexemes_cons, place]
    dsimp only [Lexeme.written]
    rw [endsBlank_tag]
    refine Agree.bind (?_ : Agree [] _ _) fun _ _ hpages => ih t.rawContainer? u _ hpages
    rw [layToken_tag]
    exact agree_layTag t _ (h.move offset q.position)

end Job

end ErbLayout
