import ErbLayout.Proofs.RelaidRows

/-!
Rows that are steady. Rows that are laid out are put out as rows again, and the second layout goes
along with the first, step by step, when each tag is steady at its place and a line feed after the
last text makes no bad attribute. When the second layout gives the rows that it is given, nothing
else is possible: the rows are known from their text, so each tag is laid out as itself, and no tag
can open an element more.
-/

namespace ErbLayout

open Text Markup Code Layout

def lastText? (ls : List Lexeme) : Option Text := ls.getLast?.bind Lexeme.text?

/-- The tags among the lexemes are steady at their places, and a line feed after the last text makes
no bad attribute. -/
structure Job.IsSteadyFrom (j : Job) (frames : List Frame) (ls : List Lexeme) : Prop where
  tags : ∀ a ∈ placedTags j.options.probe j.table frames ls, j.IsSteadyAt a.1 a.2
  finish : ∀ s ∈ lastText? ls, badAttributes.occursIn (squeeze (s ++ ['\n'])) = false

theorem Job.isSteadyFrom_iff {j : Job} {frames : List Frame} {ls : List Lexeme} :
    j.IsSteadyFrom frames ls ↔
      (∀ a ∈ placedTags j.options.probe j.table frames ls, j.IsSteadyAt a.1 a.2) ∧
        ∀ s ∈ lastText? ls, badAttributes.occursIn (squeeze (s ++ ['\n'])) = false :=
  ⟨fun h => ⟨h.tags, h.finish⟩, fun h => ⟨h.1, h.2⟩⟩

instance (j : Job) (frames : List Frame) (ls : List Lexeme) :
    Decidable (j.IsSteadyFrom frames ls) :=
  decidable_of_iff _ Job.isSteadyFrom_iff.symm

theorem lastText?_rows_nil {container : Option Text} {x : Text} :
    lastText? (leadingLexeme container x ++ rowsLexemes []) =
      if x.isEmpty || container.isSome then none else some x := by
  by_cases hx : x = []
  · subst hx
    rfl
  · have hempty : x.isEmpty = false := by simpa using hx
    rw [leadingLexeme_of_ne_nil container hx, hempty]
    cases container <;> rfl

theorem lastText?_rows_cons {container : Option Text} {x u : Text} {t : Tag}
    {rows : List (Tag × Text)} :
    lastText? (leadingLexeme container x ++ rowsLexemes ((t, u) :: rows)) =
      lastText? (leadingLexeme t.rawContainer? u ++ rowsLexemes rows) := by
  rw [lastText?, lastText?, rowsLexemes_cons, List.getLast?_append, List.getLast?_cons]
  cases (leadingLexeme t.rawContainer? u ++ rowsLexemes rows).getLast? <;> rfl

namespace Job

variable {j : Job}

theorem isSteadyFrom_rows_nil {frames : List Frame} {container : Option Text} {x : Text} :
    j.IsSteadyFrom frames (leadingLexeme container x ++ rowsLexemes []) ↔
      (container = none → badAttributes.occursIn (squeeze (x ++ ['\n'])) = false) := by
  constructor
  · rintro ⟨-, hfinish⟩ rfl
    by_cases hx : x = []
    · subst hx
      decide
    · apply hfinish
      rw [lastText?_rows_nil]
      simp [hx]
  · intro hgood
    refine ⟨by rw [placedTags_rows_nil]; simp, fun s hs => ?_⟩
    rw [lastText?_rows_nil] at hs
    split at hs
    · simp at hs
    next hnot =>
      obtain rfl : x = s := by simpa using hs
      apply hgood
      cases container with
      | none => rfl
      | some name => simp at hnot

theorem isSteadyFrom_rows_cons {frames frames₁ frames₂ : List Frame} {container : Option Text}
    {x u : Text} {t : Tag} {rows : List (Tag × Text)}
    (hx : runBrackets (contentBrackets j.options.probe j.table container x) frames = some frames₁)
    (ht : runBrackets t.brackets frames₁ = some frames₂) :
    j.IsSteadyFrom frames (leadingLexeme container x ++ rowsLexemes ((t, u) :: rows)) ↔
      j.IsSteadyAt frames₁.length t ∧
        j.IsSteadyFrom frames₂ (leadingLexeme t.rawContainer? u ++ rowsLexemes rows) := by
  have hplaced := placedTags_rows_cons hx ht u rows
  constructor
  · rintro ⟨htags, hfinish⟩
    rw [hplaced] at htags
    rw [lastText?_rows_cons] at hfinish
    exact ⟨htags _ List.mem_cons_self, fun a ha => htags a (List.mem_cons_of_mem _ ha), hfinish⟩
  · rintro ⟨htag, htags, hfinish⟩
    refine ⟨?_, by rw [lastText?_rows_cons]; exact hfinish⟩
    rw [hplaced]
    intro a ha
    rcases List.mem_cons.mp ha with rfl | ha
    · exact htag
    · exact htags a ha

/-- A last content is put out, with a line feed, as a content that is laid out alike when it is
steady. -/
theorem exists_relaid_lastContent (hj : j.IsPlain) (hcodes : j.ReadsCode) {container : Option Text}
    {x : Text} (hclear : IsClear container x) (hx : IsPlainContent j.table container x) {p q : Page}
    (hp : endsBlank p.output = false) (hlay : j.layContent container x 0 p = .ok q) :
    ∃ x', LaidRows j p.frames container x [] x' [] q.frames ∧
      trimEnd q.output ++ ['\n'] = p.output ++ shownContent j.table container x' ∧
      (j.IsSteadyFrom p.frames (leadingLexeme container x ++ rowsLexemes []) → ∀ r : Page,
        p.Matches [] r →
        ∃ r', j.layContent container x' 0 r = .ok r' ∧ r'.blocks = q.blocks ∧
          r'.output = trimEnd q.output) := by
  have hbrackets := runBrackets_layContent hlay
  cases container with
  | none =>
    obtain ⟨hgood, -⟩ := exists_of_layTextToken_ok (hx.code rfl) hlay
    obtain ⟨x', hx', hbad, hout, hagain⟩ := exists_relaid_lastText hj hcodes hclear hx hp hlay
    refine ⟨x', .nil hx' hbrackets fun _ => ⟨hgood, hbad⟩, hout, fun hsteady => hagain ?_⟩
    rw [hbad]
    exact isSteadyFrom_rows_nil.mp hsteady rfl
  | some name =>
    obtain ⟨x', hx', hout, hagain⟩ := exists_relaid_lastRaw hclear hx.noOpening hp hlay
    exact ⟨x', .nil hx' hbrackets (by simp), hout, fun _ => hagain⟩

/-- Rows are put out as rows that are laid out alike when the rows are steady. -/
theorem exists_laidRows (hj : j.IsPlain) (hcodes : j.ReadsCode) {container : Option Text} {x : Text}
    {rows : List (Tag × Text)} (hread : CanRead container x rows)
    (hplain : PlainRows j.table container x rows) {p q : Page} (hp : endsBlank p.output = false)
    (hlay : j.layRows container x rows p = .ok q) :
    ∃ x' rows', LaidRows j p.frames container x rows x' rows' q.frames ∧
      trimEnd q.output ++ ['\n'] = p.output ++ shownRows j.table container x' rows' ∧
      (j.IsSteadyFrom p.frames (leadingLexeme container x ++ rowsLexemes rows) → ∀ r : Page,
        p.Matches [] r →
        ∃ r', j.layRows container x' rows' r = .ok r' ∧ r'.blocks = q.blocks ∧
          r'.output = trimEnd q.output) := by
  induction rows generalizing container x p with
  | nil =>
    obtain ⟨x', hlaid, hout, hagain⟩ := exists_relaid_lastContent hj hcodes hread hplain hp hlay
    exact ⟨x', [], hlaid, hout, hagain⟩
  | cons row rows ih =>
    obtain ⟨t, u⟩ := row
    obtain ⟨hclear, htag, hrest⟩ := hread
    obtain ⟨hx, ht, hplain⟩ := hplain
    obtain ⟨p₁, hcontent, hlay⟩ := bind_eq_ok hlay
    obtain ⟨p₂, hlayTag, hlay⟩ := bind_eq_ok hlay
    have hrun : ∀ r, tags.run (t.written ++ r) = some (t, r) := fun r => tags_run_of_tagsIn (htag r)
    have hframes₁ := runBrackets_layContent hcontent
    have hframes₂ := runBrackets_layTag hrun hlayTag
    obtain ⟨t', ht'⟩ := exists_relaidTagAt hj p₁.depth hrun ht
    obtain ⟨depth, hp₂⟩ := output_layTag hrun hlayTag
    obtain ⟨x', hx', hempty, hend, hp₁, hcontentAgain⟩ :=
      exists_relaid_layContent hj hcodes hclear hx (isGap_gapAt x depth) hcontent
    rw [← ht'.written] at hp₂
    have hvisible : endsBlank p₂.output = false := by
      rw [hp₂, ← List.append_assoc]
      exact (isEnclosed_written t').isVisible.endsBlank_append _
    obtain ⟨u', rows', hrows', hout, hagain⟩ := ih hrest hplain hvisible hlay
    have hlaid : LaidRows j p.frames container x ((t, u) :: rows) x' ((t', u') :: rows') q.frames :=
      .cons hx' hempty hend hframes₁ htag (p₁.length_frames.symm ▸ ht') hframes₂ hrows'
    refine ⟨x', (t', u') :: rows', hlaid, ?_, ?_⟩
    · rw [hout, hp₂, ← List.append_assoc, hp₁, shownRows, ht'.raw]
      simp
    · -- the second layout goes along with the first, step by step
      intro hsteady r hpages
      obtain ⟨htagSteady, hrowsSteady⟩ := (isSteadyFrom_rows_cons hframes₁ hframes₂).mp hsteady
      rw [p₁.length_frames] at htagSteady
      obtain ⟨r₁, hr₁, hpages₁⟩ := exists_of_agree_ok (hcontentAgain r hpages)
      obtain ⟨r₂, hr₂, hpages₂⟩ :=
        exists_of_agree_ok (hlayTag ▸ ht'.agree htagSteady (endsBlank x) rfl hpages₁)
      obtain ⟨r', hr', hresult⟩ := hagain hrowsSteady r₂ hpages₂
      refine ⟨r', ?_, hresult⟩
      rw [layRows, hend, hlaid.relaidRows.glue, hr₁]
      change j.layTag t' (endsBlank x) r₁ >>= _ = _
      rw [hr₂]
      change j.layRows t'.rawContainer? u' rows' r₂ = _
      rw [ht'.raw, hr']

end Job

section Converse

def rowsBrackets (probe : Text → Bool) (table : MarkerTable) :
    Option Text → Text → List (Tag × Text) → List Bracket
  | container, x, [] => contentBrackets probe table container x
  | container, x, (t, u) :: rows =>
    contentBrackets probe table container x ++
      (t.brackets ++ rowsBrackets probe table t.rawContainer? u rows)

def OpenAlike (rows rows' : List (Tag × Text)) : Prop :=
  List.Forall₂ (fun row row' => row'.1.brackets = row.1.brackets) rows rows'

theorem RelaidContent.contentBrackets_eq {container : Option Text} {x x' : Text}
    (h : RelaidContent container x x') (probe : Text → Bool) (table : MarkerTable) :
    contentBrackets probe table container x' = contentBrackets probe table container x := by
  rw [contentBrackets, h.contentMarkers_eq, contentBrackets]

namespace LaidRows

variable {j : Job} {frames frames' : List Frame} {container : Option Text} {x x' : Text}
  {rows rows' : List (Tag × Text)}

theorem runBrackets_eq (h : LaidRows j frames container x rows x' rows' frames') :
    runBrackets (rowsBrackets j.options.probe j.table container x rows) frames = some frames' := by
  induction h with
  | nil _ hbrackets _ => exact hbrackets
  | cons _ _ _ hbrackets _ _ htag _ ih =>
    rw [rowsBrackets, runBrackets_append, hbrackets, Option.bind_some, runBrackets_append, htag,
      Option.bind_some, ih]

/-- Rows that are laid out have tags with the same brackets, or they open more elements than
before. -/
theorem openAlike_or_lt (h : LaidRows j frames container x rows x' rows' frames') :
    (rowsBrackets j.options.probe j.table container x' rows').countP Bracket.closesElement =
        (rowsBrackets j.options.probe j.table container x rows).countP Bracket.closesElement ∧
      (OpenAlike rows rows' ∧
          rowsBrackets j.options.probe j.table container x' rows' =
            rowsBrackets j.options.probe j.table container x rows ∨
        (rowsBrackets j.options.probe j.table container x rows).countP Bracket.opensElement <
          (rowsBrackets j.options.probe j.table container x' rows').countP
            Bracket.opensElement) := by
  induction h with
  | nil hx _ _ =>
    rw [rowsBrackets, rowsBrackets, hx.contentBrackets_eq]
    exact ⟨rfl, Or.inl ⟨.nil, rfl⟩⟩
  | cons hx _ _ _ _ ht _ _ ih =>
    obtain ⟨hcloses, hopens⟩ := ih
    rw [rowsBrackets, rowsBrackets, hx.contentBrackets_eq, ht.raw]
    simp only [List.countP_append, hcloses]
    rcases ht.opens with hsame | ⟨hnone, name, hone⟩
    · refine ⟨by rw [hsame], ?_⟩
      rcases hopens with ⟨halike, hword⟩ | hlt
      · exact Or.inl ⟨.cons hsame halike, by rw [hsame, hword]⟩
      · exact Or.inr (by rw [hsame]; omega)
    · rw [hnone, hone]
      refine ⟨by simp [Bracket.closesElement], Or.inr ?_⟩
      have hone : [Bracket.openTag name].countP Bracket.opensElement = 1 := rfl
      rw [hone]
      rcases hopens with ⟨-, hword⟩ | hlt
      · rw [hword]
        simp
      · simp only [List.countP_nil]
        omega

/-- Where all blocks are closed at the end both times, no tag is taken for one that opens an
element. -/
theorem openAlike {x'' : Text} {rows'' : List (Tag × Text)}
    (h : LaidRows j [] container x rows x' rows' [])
    (h' : LaidRows j [] container x' rows' x'' rows'' []) : OpenAlike rows rows' := by
  have hcount := countP_runBrackets h.runBrackets_eq
  have hcount' := countP_runBrackets h'.runBrackets_eq
  obtain ⟨hcloses, ⟨halike, -⟩ | hlt⟩ := h.openAlike_or_lt
  · exact halike
  · simp only [List.countP_nil] at hcount hcount'
    omega

/-- Rows that are laid out as rows which are laid out as themselves are steady. -/
theorem isSteadyFrom {frames'' : List Frame}
    (h : LaidRows j frames container x rows x' rows' frames')
    (h' : LaidRows j frames container x' rows' x' rows' frames'') (hopens : OpenAlike rows rows') :
    j.IsSteadyFrom frames (leadingLexeme container x ++ rowsLexemes rows) := by
  induction h generalizing frames'' with
  | nil hx _ hgood =>
    rw [Job.isSteadyFrom_rows_nil]
    intro hnone
    cases h' with
    | nil _ _ hgood' => rw [← (hgood hnone).2, (hgood' hnone).1]
  | cons hx _ _ hbrackets _ ht htag _ ih =>
    cases hopens with
    | cons hsame hopens =>
      cases h' with
      | cons _ _ _ hbrackets' _ ht' htag' hrows' =>
        rw [hx.contentBrackets_eq, hbrackets] at hbrackets'
        obtain rfl := Option.some.inj hbrackets'
        rw [hsame, htag] at htag'
        obtain rfl := Option.some.inj htag'
        rw [ht.raw] at hrows'
        rw [Job.isSteadyFrom_rows_cons hbrackets htag]
        exact ⟨ht.again.mp ⟨ht'.written.symm.trans ht.written, hsame⟩, ih hrows' hopens⟩

end LaidRows

end Converse

end ErbLayout
